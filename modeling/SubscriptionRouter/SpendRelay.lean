import Mathlib
import SubscriptionRouter.LineScanner
import SubscriptionRouter.SpendGateway

set_option autoImplicit false

/-!
# The relay of an event stream

What the client is sent of an upstream stream, and which outcome is recorded. The relay takes
the lines of the stream from a scanner, and writes and flushes until a terminal event, the
first failure of the client, or the end of the stream.
-/
namespace SubscriptionRouter.SpendRelay
open GoText JsonText Messages SpendPolicy Transitions LineScanner SpendGateway

def maxTokenSize : ℕ := 32 * 2 ^ 20

def streamScanner : Scanner Failure := ⟨[], 32 * 1024, none⟩

/-- `scanner.Err()`. -/
def scannerErr : ScanError Failure → Failure
  | .reader e => e
  | .tooLong => [.tooLong]
  | .noProgress => []

/-- The answers of the scanner to the calls of `Scan`, for what the body's reader returns. -/
def scanned (reads : List (Chunk Failure)) : List Answer :=
  let all := scanAll maxTokenSize streamScanner reads
  all.1.map .line ++ all.2.toList.map fun e => .endOfLines (e.map scannerErr)

def isScan : Answer → Bool
  | .line _ | .endOfLines _ => true
  | _ => false

def clientResult : Answer → Option (Except Failure Unit)
  | .write result => some result
  | _ => none

/-! ## What the client is to be sent -/

inductive Operation where
  | write (bytes : GoString)
  | flush

def Operation.written : Operation → Option GoString
  | .write bytes => some bytes
  | .flush => none

def Names (field : GoString) (m : GoString × Json) : Prop := matchField [field] m.1 ≠ none

/-- Of the members that are read into the field the last string is its value, and the others are
strings or null. -/
def LastString (field value : GoString) (ms : List (GoString × Json)) : Prop :=
  ∃ before name after, ms = before ++ (name, .string value) :: after ∧ matchField [field] name ≠ none ∧
    (∀ m ∈ before, Names field m → m.2 = .null ∨ ∃ s, m.2 = .string s) ∧
    ∀ m ∈ after, Names field m → m.2 = .null

def Carries (line type : GoString) : Prop :=
  ∃ text ms, line = lit "data:" ++ text ∧ parse (trimSpace text) = some (.object ms) ∧
    LastString (lit "type") type ms

/-- The lines that end a response, and what is recorded for each. -/
inductive Terminal (line : GoString) : Outcome → Prop where
  | completed (h : Carries line (lit "response.completed")) : Terminal line .completed
  | failed (h : Carries line (lit "response.failed")) : Terminal line .upstreamFailed
  | incomplete (h : Carries line (lit "response.incomplete")) : Terminal line .upstreamFailed
  | error (h : Carries line (lit "error")) : Terminal line .upstreamFailed

/-- The lines that come before the first terminal one, and that one with its outcome. -/
inductive Splits : List GoString → List GoString → Option (GoString × Outcome) → Prop where
  | never {lines : List GoString} (h : ∀ line ∈ lines, ∀ outcome, ¬Terminal line outcome) :
      Splits lines lines none
  | first {front back : List GoString} {line : GoString} {outcome : Outcome}
      (h : ∀ line ∈ front, ∀ outcome, ¬Terminal line outcome) (hline : Terminal line outcome) :
      Splits (front ++ line :: back) front (some (line, outcome))

/-- The lines up to the terminal one, each with a line feed, and an empty line. -/
def script (front : List GoString) (terminal : Option (GoString × Outcome)) : List Operation :=
  front.flatMap (fun line => [.write (line ++ lit "\n"), .flush]) ++
    terminal.toList.flatMap fun t => [.write (t.1 ++ lit "\n"), .write (lit "\n"), .flush]

def writes (ops : List Operation) : List GoString := ops.filterMap Operation.written

def undisturbed (terminal : Option (GoString × Outcome)) : Outcome :=
  (terminal.map Prod.snd).getD .streamInterrupted

/-- What has been written and is recorded, by the results of the writes and flushes. -/
def Settles (lines : List GoString) (results : List (Except Failure Unit)) (written : List GoString)
    (outcome : Outcome) : Prop :=
  ∃ front terminal, Splits lines front terminal ∧
    ((∃ k e, k < (script front terminal).length ∧ results = List.replicate k (.ok ()) ++ [.error e] ∧
      written = writes ((script front terminal).take (k + 1)) ∧ outcome = .clientDisconnected) ∨
    (results = List.replicate (script front terminal).length (.ok ()) ∧
      written = writes (script front terminal) ∧ outcome = undisturbed terminal))

/-- The text that an undisturbed client is sent. -/
theorem writes_script (front : List GoString) (terminal : Option (GoString × Outcome)) :
    (writes (script front terminal)).flatten =
      (front ++ (terminal.map Prod.fst).toList).flatMap (· ++ lit "\n") ++
        if terminal.isSome then lit "\n" else [] := by
  induction front with
  | nil => cases terminal <;> simp [script, writes, Operation.written]
  | cons line front ih =>
    rw [List.cons_append, List.flatMap_cons, List.append_assoc, ← ih]
    rfl

/-! ## Which lines are terminal -/

theorem not_lastString_nil (field value : GoString) : ¬LastString field value [] := by
  rintro ⟨before, name, after, hms, -⟩
  exact absurd hms.symm (by simp)

theorem lastString_cons_idle {field value : GoString} {m : GoString × Json} {ms : List (GoString × Json)}
    (hm : Names field m → m.2 = .null) : LastString field value (m :: ms) ↔ LastString field value ms := by
  constructor
  · rintro ⟨before, name, after, hms, hname, hbefore, hafter⟩
    cases before with
    | nil =>
      obtain ⟨rfl, rfl⟩ := List.cons.inj hms
      cases hm hname
    | cons first before =>
      obtain ⟨rfl, rfl⟩ := List.cons.inj hms
      exact ⟨before, name, after, rfl, hname,
        fun m' hm' => hbefore m' (List.mem_cons_of_mem _ hm'), hafter⟩
  · rintro ⟨before, name, after, rfl, hname, hbefore, hafter⟩
    refine ⟨m :: before, name, after, rfl, hname, fun m' hm' hnames => ?_, hafter⟩
    rcases List.mem_cons.mp hm' with rfl | hm'
    · exact .inl (hm hnames)
    · exact hbefore m' hm' hnames

theorem lastString_cons_string {field value text name : GoString} {ms : List (GoString × Json)}
    (hname : matchField [field] name ≠ none) : LastString field value ((name, .string text) :: ms) ↔
      LastString field value ms ∨ value = text ∧ ∀ m ∈ ms, Names field m → m.2 = .null := by
  constructor
  · rintro ⟨before, name', after, hms, hname', hbefore, hafter⟩
    cases before with
    | nil =>
      obtain ⟨hfirst, rfl⟩ := List.cons.inj hms
      cases hfirst
      exact .inr ⟨rfl, hafter⟩
    | cons first before =>
      obtain ⟨rfl, rfl⟩ := List.cons.inj hms
      exact .inl ⟨before, name', after, rfl, hname',
        fun m' hm' => hbefore m' (List.mem_cons_of_mem _ hm'), hafter⟩
  · rintro (⟨before, name', after, rfl, hname', hbefore, hafter⟩ | ⟨rfl, hafter⟩)
    · refine ⟨(name, .string text) :: before, name', after, rfl, hname', fun m' hm' hnames => ?_, hafter⟩
      rcases List.mem_cons.mp hm' with rfl | hm'
      · exact .inr ⟨text, rfl⟩
      · exact hbefore m' hm' hnames
    · exact ⟨[], name, ms, rfl, hname, by simp, hafter⟩

theorem not_lastString_cons {field value : GoString} {m : GoString × Json} {ms : List (GoString × Json)}
    (hname : Names field m) (hnull : m.2 ≠ .null) (hstring : ∀ s, m.2 ≠ .string s) :
    ¬LastString field value (m :: ms) := by
  rintro ⟨before, name', after, hms, -, hbefore, -⟩
  cases before with
  | nil =>
    obtain ⟨rfl, -⟩ := List.cons.inj hms
    exact hstring value rfl
  | cons first before =>
    obtain ⟨rfl, -⟩ := List.cons.inj hms
    rcases hbefore m List.mem_cons_self hname with h | ⟨s, h⟩
    · exact hnull h
    · exact hstring s h

theorem decodeStringField_iff (field : GoString) (ms : List (GoString × Json)) (value result : GoString) :
    decodeStringField field ms value = some result ↔ LastString field result ms ∨
      result = value ∧ ∀ m ∈ ms, Names field m → m.2 = .null := by
  induction ms generalizing value with
  | nil =>
    rw [decodeStringField, Option.some.injEq, or_iff_right (not_lastString_nil _ _)]
    simp [eq_comm]
  | cons m ms ih =>
    obtain ⟨name, v⟩ := m
    unfold decodeStringField
    by_cases hname : matchField [field] name = none
    · have hidle : Names field (name, v) → v = .null := fun h => absurd hname h
      rw [if_pos hname, ih, lastString_cons_idle hidle]
      simp only [List.forall_mem_cons, and_iff_right hidle]
    · have hnames : Names field (name, v) := hname
      rw [if_neg hname]
      cases v with
      | string text =>
        dsimp only
        rw [ih, lastString_cons_string hname]
        simp [Names, hname]
      | null =>
        dsimp only
        rw [ih, lastString_cons_idle fun _ => rfl]
        simp only [List.forall_mem_cons, implies_true, true_and]
      | _ =>
        have hnone := @not_lastString_cons _ result _ ms hnames (by simp) (by simp)
        simp [hnone, Names, hname]

theorem carries_iff {line type : GoString} (htype : type ≠ []) : Carries line type ↔
    (lit "data:").isPrefixOf line = true ∧ ∃ ms, parse (trimSpace (line.drop 5)) = some (.object ms) ∧
      decodeStringField (lit "type") ms [] = some type := by
  constructor
  · rintro ⟨text, ms, rfl, hparse, htypes⟩
    refine ⟨List.isPrefixOf_iff_prefix.mpr (List.prefix_append _ _), ms, ?_, ?_⟩
    · rw [show (lit "data:" ++ text).drop 5 = text from List.drop_left' rfl]
      exact hparse
    · exact (decodeStringField_iff _ _ _ _).mpr (.inl htypes)
  · rintro ⟨hdata, ms, hparse, htypes⟩
    obtain ⟨text, rfl⟩ := List.isPrefixOf_iff_prefix.mp hdata
    rw [show (lit "data:" ++ text).drop 5 = text from List.drop_left' rfl] at hparse
    exact ⟨text, ms, rfl, hparse,
      ((decodeStringField_iff _ _ _ _).mp htypes).resolve_right fun h => htype h.1⟩

theorem terminalOf_iff (line : GoString) (outcome : Outcome) :
    terminalOf line = some outcome ↔ Terminal line outcome := by
  constructor
  · intro h
    unfold terminalOf at h
    split at h
    · rename_i hdata
      split at h
      · rename_i ms hparse
        split at h
        · rename_i type htype
          have hline : type ≠ [] → Carries line type :=
            fun hne => (carries_iff hne).mpr ⟨hdata, ms, hparse, htype⟩
          split at h
          · rename_i hcompleted
            cases h
            rw [hcompleted] at hline
            exact .completed (hline (by decide))
          · split at h
            · rename_i hfailed
              cases h
              simp only [List.mem_cons, List.not_mem_nil, or_false] at hfailed
              rcases hfailed with rfl | rfl | rfl
              · exact .failed (hline (by decide))
              · exact .incomplete (hline (by decide))
              · exact .error (hline (by decide))
            · cases h
        · cases h
      · cases h
    · cases h
  · have hread : ∀ {type : GoString}, type ≠ [] → Carries line type → terminalOf line =
        if type = lit "response.completed" then some .completed
        else if type ∈ [lit "response.failed", lit "response.incomplete", lit "error"] then
          some .upstreamFailed
        else none := by
      intro type hne hline
      obtain ⟨hdata, ms, hparse, htype⟩ := (carries_iff hne).mp hline
      rw [terminalOf, if_pos hdata, hparse]
      dsimp only
      rw [htype]
    rintro (hline | hline | hline | hline)
    · rw [hread (by decide) hline]
      rfl
    · rw [hread (by decide) hline]
      decide
    · rw [hread (by decide) hline]
      decide
    · rw [hread (by decide) hline]
      decide

theorem terminalOf_none_iff (line : GoString) :
    terminalOf line = none ↔ ∀ outcome, ¬Terminal line outcome := by
  rw [Option.eq_none_iff_forall_ne_some]
  exact forall_congr' fun outcome => not_congr (terminalOf_iff line outcome)

theorem splits_plain {line : GoString} {lines front : List GoString}
    {terminal : Option (GoString × Outcome)} (hline : terminalOf line = none)
    (h : Splits lines front terminal) : Splits (line :: lines) (line :: front) terminal := by
  have hplain := (terminalOf_none_iff line).mp hline
  cases h with
  | never h => exact .never (List.forall_mem_cons.mpr ⟨hplain, h⟩)
  | first h hfirst => exact .first (List.forall_mem_cons.mpr ⟨hplain, h⟩) hfirst

theorem splits_terminal {line : GoString} {outcome : Outcome} (hline : terminalOf line = some outcome)
    (lines : List GoString) : Splits (line :: lines) [] (some (line, outcome)) := by
  have hnone : ∀ other ∈ ([] : List GoString), ∀ outcome, ¬Terminal other outcome := by simp
  exact .first hnone ((terminalOf_iff line outcome).mp hline)

theorem exists_splits (lines : List GoString) : ∃ front terminal, Splits lines front terminal := by
  induction lines with
  | nil => exact ⟨[], none, .never (by simp)⟩
  | cons line lines ih =>
    obtain ⟨front, terminal, h⟩ := ih
    cases hline : terminalOf line with
    | none => exact ⟨_, _, splits_plain hline h⟩
    | some outcome => exact ⟨_, _, splits_terminal hline lines⟩

theorem settles_interrupted : Settles [] [] [] .streamInterrupted :=
  ⟨[], none, .never (by simp), .inr ⟨rfl, rfl, rfl⟩⟩

section Lines
variable {line : GoString} {lines : List GoString} {results : List (Except Failure Unit)}
  {written : List GoString} {outcome : Outcome}

theorem settles_line (line : GoString) (lines : List GoString) (e : Failure) :
    Settles (line :: lines) [.error e] [line ++ lit "\n"] .clientDisconnected := by
  cases h : terminalOf line with
  | none =>
    obtain ⟨front, terminal, hsplits⟩ := exists_splits lines
    exact ⟨_, _, splits_plain h hsplits, .inl ⟨0, e, Nat.succ_pos _, rfl, rfl, rfl⟩⟩
  | some outcome =>
    exact ⟨_, _, splits_terminal h lines, .inl ⟨0, e, Nat.succ_pos _, rfl, rfl, rfl⟩⟩

theorem settles_flush (h : terminalOf line = none) (lines : List GoString) (e : Failure) :
    Settles (line :: lines) [.ok (), .error e] [line ++ lit "\n"] .clientDisconnected := by
  obtain ⟨front, terminal, hsplits⟩ := exists_splits lines
  exact ⟨_, _, splits_plain h hsplits,
    .inl ⟨1, e, Nat.succ_lt_succ (Nat.succ_pos _), rfl, rfl, rfl⟩⟩

theorem settles_later (h : terminalOf line = none) (hs : Settles lines results written outcome) :
    Settles (line :: lines) (.ok () :: .ok () :: results) ((line ++ lit "\n") :: written) outcome := by
  obtain ⟨front, terminal, hsplits, hs⟩ := hs
  refine ⟨_, _, splits_plain h hsplits, ?_⟩
  rcases hs with ⟨k, e, hk, rfl, rfl, rfl⟩ | ⟨rfl, rfl, rfl⟩
  · exact .inl ⟨k + 2, e, Nat.succ_lt_succ (Nat.succ_lt_succ hk), rfl, rfl, rfl⟩
  · exact .inr ⟨rfl, rfl, rfl⟩

theorem settles_blank (h : terminalOf line = some outcome) (lines : List GoString) (e : Failure) :
    Settles (line :: lines) [.ok (), .error e] [line ++ lit "\n", lit "\n"] .clientDisconnected :=
  ⟨_, _, splits_terminal h lines, .inl ⟨1, e, by simp [script], rfl, rfl, rfl⟩⟩

theorem settles_terminal (h : terminalOf line = some outcome) (lines : List GoString) :
    Settles (line :: lines) [.ok (), .ok (), .ok ()] [line ++ lit "\n", lit "\n"] outcome :=
  ⟨_, _, splits_terminal h lines, .inr ⟨rfl, rfl, rfl⟩⟩

theorem settles_terminalFlush (h : terminalOf line = some outcome) (lines : List GoString) (e : Failure) :
    Settles (line :: lines) [.ok (), .ok (), .error e] [line ++ lit "\n", lit "\n"]
      .clientDisconnected :=
  ⟨_, _, splits_terminal h lines, .inl ⟨2, e, by simp [script], rfl, rfl, rfl⟩⟩

end Lines

/-! ## Runs of the relay -/

def sent (h : Handler) (written : List GoString) : Handler :=
  { h with log := h.log ++ written.map .relayed }

section Runs
variable {g : Gateway} {r : Request} {h h' : Handler} {answers : List Answer}

theorem exec_cons {a : Answer} (he : exec (step g r) h (a :: answers) = some h') :
    ∃ u, step g r h a = some u ∧ exec (step g r) u answers = some h' :=
  Option.bind_eq_some_iff.mp he

theorem exec_returned (hstage : h.stage = .returned) (he : exec (step g r) h answers = some h') :
    answers = [] ∧ h = h' := by
  cases answers with
  | nil => exact ⟨rfl, Option.some.inj he⟩
  | cons a answers =>
    obtain ⟨u, hu, -⟩ := exec_cons he
    simp [step, hstage] at hu

theorem scan_step {a : Answer} {u : Handler} (hstage : h.stage = .scan) (hu : step g r h a = some u) :
    (∃ line, a = .line line ∧ u = h.scanLine line) ∨ ∃ e, a = .endOfLines e ∧ u = h.scanEnd g e := by
  unfold step at hu
  rw [hstage] at hu
  split at hu <;> cases hu
  all_goals rename_i hs; cases hs
  · exact .inl ⟨_, rfl, rfl⟩
  · exact .inr ⟨_, rfl, rfl⟩

/-- At a stage that waits for a write or a flush, the next answer is its result. -/
theorem client_answer {k : Except Failure Unit → Handler} (hk : ∀ a, step g r h a = match a with
      | .write result => some (k result)
      | _ => none) (hlive : h.stage ≠ .returned) (hreturned : h'.stage = .returned)
    (he : exec (step g r) h answers = some h') :
    ∃ result rest, answers = .write result :: rest ∧ exec (step g r) (k result) rest = some h' := by
  cases answers with
  | nil =>
    cases he
    exact absurd hreturned hlive
  | cons a rest =>
    obtain ⟨u, hu, hrest⟩ := exec_cons he
    rw [hk] at hu
    split at hu <;> cases hu
    exact ⟨_, rest, rfl, hrest⟩

theorem sent_cons (h : Handler) (bytes : GoString) (written : List GoString) :
    sent (h.emit (.relayed bytes)) written = sent h (bytes :: written) := by
  rw [sent, sent, Handler.emit, List.map_cons, List.append_assoc, List.singleton_append]

/-- How the relay may come to an end. -/
def Ends (g : Gateway) (h : Handler) (lines : List GoString) (answers : List Answer) (h' : Handler) :
    Prop :=
  ∃ written outcome kind, h' = (sent h written).finish g outcome kind ∧
    Settles lines (answers.filterMap clientResult) written outcome

theorem ends_terminal {line : GoString} {lines : List GoString} {outcome : Outcome}
    (hterminal : terminalOf line = some outcome) (hreturned : h'.stage = .returned)
    (he : exec (step g r) { h.emit (.relayed (line ++ lit "\n")) with stage := .writeLine (some outcome) }
      answers = some h') : Ends g h (line :: lines) answers h' := by
  obtain ⟨result, rest, rfl, he₁⟩ := client_answer
    (k := Handler.writeLine g { h.emit (.relayed (line ++ lit "\n")) with
      stage := .writeLine (some outcome) } (some outcome))
    (fun a => by cases a <;> rfl) (by simp) hreturned he
  cases result with
  | error e =>
    obtain ⟨rfl, rfl⟩ := exec_returned rfl he₁
    exact ⟨[line ++ lit "\n"], _, _, rfl, settles_line line lines e⟩
  | ok =>
    obtain ⟨result, rest, rfl, he₂⟩ := client_answer
      (k := Handler.writeBlank g { (h.emit (.relayed (line ++ lit "\n"))).emit (.relayed (lit "\n")) with
        stage := .writeBlank outcome } outcome)
      (fun a => by cases a <;> rfl) (by simp [Handler.writeLine]) hreturned he₁
    have hsent : ∀ outcome kind,
        ((h.emit (.relayed (line ++ lit "\n"))).emit (.relayed (lit "\n"))).finish g outcome kind =
          (sent h [line ++ lit "\n", lit "\n"]).finish g outcome kind := by
      intro outcome kind
      rw [← sent_cons, ← sent_cons, sent, List.map_nil, List.append_nil]
    cases result with
    | error e =>
      obtain ⟨rfl, rfl⟩ := exec_returned rfl he₂
      exact ⟨_, _, _, hsent _ _, settles_blank hterminal lines e⟩
    | ok =>
      obtain ⟨result, rest, rfl, he₃⟩ := client_answer
        (k := Handler.flush g { (h.emit (.relayed (line ++ lit "\n"))).emit (.relayed (lit "\n")) with
          stage := .flush (some outcome) } (some outcome))
        (fun a => by cases a <;> rfl) (by simp [Handler.writeBlank]) hreturned he₂
      cases result with
      | error e =>
        obtain ⟨rfl, rfl⟩ := exec_returned rfl he₃
        exact ⟨_, _, _, hsent _ _, settles_terminalFlush hterminal lines e⟩
      | ok =>
        obtain ⟨rfl, rfl⟩ := exec_returned rfl he₃
        exact ⟨_, _, _, hsent _ _, settles_terminal hterminal lines⟩

/-- After another line the relay flushes and goes on. -/
theorem ends_plain {line : GoString} {lines : List GoString} (hplain : terminalOf line = none)
    (hreturned : h'.stage = .returned)
    (hlater : ∀ rest, rest.filter isScan = answers.filter isScan →
      exec (step g r) { h.emit (.relayed (line ++ lit "\n")) with stage := .scan } rest = some h' →
        Ends g (h.emit (.relayed (line ++ lit "\n"))) lines rest h')
    (he : exec (step g r) { h.emit (.relayed (line ++ lit "\n")) with stage := .writeLine none }
      answers = some h') : Ends g h (line :: lines) answers h' := by
  obtain ⟨result, rest, rfl, he₁⟩ := client_answer
    (k := Handler.writeLine g { h.emit (.relayed (line ++ lit "\n")) with stage := .writeLine none } none)
    (fun a => by cases a <;> rfl) (by simp) hreturned he
  cases result with
  | error e =>
    obtain ⟨rfl, rfl⟩ := exec_returned rfl he₁
    exact ⟨[line ++ lit "\n"], _, _, rfl, settles_line line lines e⟩
  | ok =>
    obtain ⟨result, rest, rfl, he₂⟩ := client_answer
      (k := Handler.flush g { h.emit (.relayed (line ++ lit "\n")) with stage := .flush none } none)
      (fun a => by cases a <;> rfl) (by simp [Handler.writeLine]) hreturned he₁
    cases result with
    | error e =>
      obtain ⟨rfl, rfl⟩ := exec_returned rfl he₂
      exact ⟨[line ++ lit "\n"], _, _, rfl, settles_flush hplain lines e⟩
    | ok =>
      obtain ⟨written, outcome, kind, rfl, hs⟩ := hlater rest rfl he₂
      exact ⟨_, _, _, by rw [sent_cons], settles_later hplain hs⟩

theorem relay_ends (lines : List GoString) (ending : Option (Option Failure))
    (hstage : h.stage = .scan) (hreturned : h'.stage = .returned)
    (hanswers : answers.filter isScan <+: lines.map .line ++ ending.toList.map .endOfLines)
    (he : exec (step g r) h answers = some h') : Ends g h lines answers h' := by
  induction lines generalizing h answers with
  | nil =>
    cases answers with
    | nil =>
      cases he
      rw [hstage] at hreturned
      cases hreturned
    | cons a rest =>
      obtain ⟨u, hu, he₁⟩ := exec_cons he
      rcases scan_step hstage hu with ⟨line, rfl, -⟩ | ⟨e, rfl, rfl⟩
      · have hfilter : (Answer.line line :: rest).filter isScan = .line line :: rest.filter isScan := rfl
        rw [hfilter] at hanswers
        cases ending with
        | none => exact absurd (List.prefix_nil.mp hanswers) (List.cons_ne_nil _ _)
        | some e => cases (List.cons_prefix_cons.mp hanswers).1
      · obtain ⟨rfl, rfl⟩ := exec_returned rfl he₁
        exact ⟨[], _, _, by rw [sent, List.map_nil, List.append_nil]; rfl, settles_interrupted⟩
  | cons line lines ih =>
    cases answers with
    | nil =>
      cases he
      rw [hstage] at hreturned
      cases hreturned
    | cons a rest =>
      obtain ⟨u, hu, he₁⟩ := exec_cons he
      rcases scan_step hstage hu with ⟨line', rfl, rfl⟩ | ⟨e, rfl, -⟩
      · have hfilter : (Answer.line line' :: rest).filter isScan = .line line' :: rest.filter isScan := rfl
        rw [hfilter, List.map_cons, List.cons_append, List.cons_prefix_cons] at hanswers
        obtain ⟨hline, hrest⟩ := hanswers
        cases hline
        rw [Handler.scanLine] at he₁
        change Ends g h (line :: lines) rest h'
        cases hterminal : terminalOf line with
        | some outcome =>
          rw [hterminal] at he₁
          exact ends_terminal hterminal hreturned he₁
        | none =>
          rw [hterminal] at he₁
          exact ends_plain hterminal hreturned
            (fun rest' hscans he' => ih (h := { h.emit _ with stage := .scan }) rfl (hscans ▸ hrest) he') he₁
      · have hfilter : (Answer.endOfLines e :: rest).filter isScan = .endOfLines e :: rest.filter isScan :=
          rfl
        rw [hfilter] at hanswers
        cases (List.cons_prefix_cons.mp hanswers).1

theorem owed_observes {log : List Event} {l : List Deferred} (h : Owed log l)
    (hr : reservations log ≠ []) (hg : g.observe = true) (record : Record) :
    observations log = [] ∧ observations (l.flatMap (·.run g record)) = [record] := by
  induction h with
  | nothing hnone => exact absurd hnone hr
  | observation hnone => exact absurd hnone hr
  | both _ ho hl =>
    refine ⟨ho, ?_⟩
    rcases hl with rfl | rfl
    · simp [Deferred.run, hg, Event.observation]
    · simp [Deferred.run, hg]
      rfl
  | closing _ ih => exact ih

theorem scan_observes (hi : Inv g r h) (hstage : h.stage = .scan) (hg : g.observe = true)
    (record : Record) :
    observations h.log = [] ∧ observations (h.deferred.flatMap (·.run g record)) = [record] := by
  cases hi with
  | done hdone _ =>
    rw [hdone] at hstage
    cases hstage
  | live hready hlive =>
    rw [StageInv, hstage] at hlive
    obtain ⟨d, hd, -⟩ := hlive
    refine owed_observes hready.owed (fun hnone => ?_) hg record
    obtain ⟨e, he, hdispatch⟩ := List.mem_filterMap.mp hd
    obtain ⟨past, rest, hlog⟩ := List.append_of_mem he
    cases e with
    | roundTrip up result =>
      have hrule := (hlog ▸ hready.justified).entry
      obtain ⟨-, -, d', hd', -⟩ := hrule
      rw [hlog, reservations, List.filterMap_append] at hnone
      have hpast : reservations past = [] := (List.append_eq_nil_iff.mp hnone).1
      rw [hpast] at hd'
      cases hd'
    | _ => cases hdispatch

theorem scanned_eq {reads : List (Chunk Failure)} (h : Bounded maxTokenSize (delivered 0 reads).1) :
    scanned reads = (linesOf (delivered 0 reads).2.isSome (delivered 0 reads).1).map .line ++
      ((delivered 0 reads).2.map (Option.map scannerErr)).toList.map .endOfLines := by
  have hpending : pending streamScanner reads = delivered 0 reads := rfl
  have hall := scanAll_eq streamScanner reads h
  rw [hpending] at hall
  rw [scanned, hall]
  cases (delivered 0 reads).2 <;> rfl

/-- Whatever pieces the stream comes in and wherever it fails, and whatever the writes and flushes
do, the client has been sent its lines up to the first terminal one, or up to the first failed
write, and the outcome says which. -/
theorem relay_runs {lib : Library} {before after : List Answer} {reads : List (Chunk Failure)}
    (hbefore : Runs (Fires (step g r)) (serveHTTP g lib r) before h) (hstage : h.stage = .scan)
    (hbounded : Bounded maxTokenSize (delivered 0 reads).1)
    (hreads : after.filter isScan <+: scanned reads)
    (hafter : Runs (Fires (step g r)) h after h') (hreturned : h'.stage = .returned) :
    ∃ written, h'.log = h.log ++ written.map .relayed ++ h.deferred.flatMap (·.run g h'.record) ∧
      Settles (linesOf (delivered 0 reads).2.isSome (delivered 0 reads).1)
        (after.filterMap clientResult) written h'.record.outcome ∧
      (g.observe = true → observations h'.log = [h'.record]) := by
  obtain ⟨written, outcome, kind, rfl, hsettles⟩ :=
    relay_ends _ _ hstage hreturned (scanned_eq hbounded ▸ hreads) (exec_of_runs hafter)
  refine ⟨written, rfl, hsettles, fun hg => ?_⟩
  have hi := hbefore.invariant (I := Inv g r) (inv_serveHTTP lib) fun _ _ _ hi hs => hi.step hs
  obtain ⟨hlog, hdeferred⟩ := scan_observes hi hstage hg ((sent h written).finish g outcome kind).record
  have hrelayed : observations (written.map Event.relayed) = [] := by
    refine List.filterMap_eq_nil_iff.mpr fun e he => ?_
    obtain ⟨bytes, -, rfl⟩ := List.mem_map.mp he
    rfl
  change observations (h.log ++ written.map .relayed ++ h.deferred.flatMap _) = _
  rw [observations, List.filterMap_append, List.filterMap_append, ← observations, ← observations,
    ← observations, hlog, hrelayed]
  exact hdeferred

end Runs

def relaying : Handler :=
  (exec (step chatgptGateway inferenceRequest) (serveHTTP chatgptGateway noLibrary inferenceRequest)
    (completedInference.take 6)).getD Handler.init

def twoLines : List (Chunk Failure) :=
  [⟨lit ": hello\r", none⟩, ⟨lit "\ndata: \x7b\"type\":\"resp", none⟩,
    ⟨lit "onse.completed\"\x7d", some none⟩]

def twoLinesRelayed : List Answer :=
  [.line (lit ": hello"), .write (.ok ()), .write (.ok ()),
    .line (lit "data: \x7b\"type\":\"response.completed\"\x7d"), .write (.ok ()), .write (.ok ()),
    .write (.ok ())]

theorem relay_twoLines : ∃ (h : Handler) (written : List GoString),
    Settles (linesOf true (delivered 0 twoLines).1) (twoLinesRelayed.filterMap clientResult) written
      h.record.outcome ∧ observations h.log = [h.record] ∧ h.record.outcome = .completed := by
  have hscan : exec (step chatgptGateway inferenceRequest)
      (serveHTTP chatgptGateway noLibrary inferenceRequest) (completedInference.take 6) =
        some relaying := by rfl
  have hend : (exec (step chatgptGateway inferenceRequest) relaying twoLinesRelayed).any (fun h =>
      h.stage matches .returned ∧ h.record.outcome = .completed) = true := by
    decide
  obtain ⟨h, hafter, hend⟩ := runs_of_exec_any hend
  have hbounded : Bounded maxTokenSize (delivered 0 twoLines).1 := by
    unfold Bounded
    decide
  have hreads : twoLinesRelayed.filter isScan <+: scanned twoLines := by
    rw [scanned_eq hbounded]
    exact ⟨[.endOfLines none], by rfl⟩
  obtain ⟨hreturned, hcompleted⟩ := of_decide_eq_true hend
  have hstage : h.stage = .returned := by
    cases hs : h.stage <;> rw [hs] at hreturned <;> first | rfl | cases hreturned
  obtain ⟨written, -, hsettles, hobserved⟩ := relay_runs (exec_runs hscan) (by rfl) hbounded hreads
    hafter hstage
  exact ⟨h, written, hsettles, hobserved rfl, hcompleted⟩

end SubscriptionRouter.SpendRelay
