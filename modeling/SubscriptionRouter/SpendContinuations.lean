import Mathlib
import SubscriptionRouter.SpendGateway

set_option autoImplicit false

/-!
# Continuation handles

Which bodies the gateway forwards. It looks at the last member of each name, and another
reader of the same bytes may look at any.
-/
namespace SubscriptionRouter.SpendContinuations
open GoText JsonText Messages SpendPolicy Transitions SpendGateway

def continuationKeys : List GoString := [lit "previous_response_id", lit "conversation"]

/-- Some member of the body, in any place, is a handle that is bound to an account. -/
def Handles (body : GoString) : Prop :=
  ∃ envelope, parse body = some (.object envelope) ∧
    ∃ m ∈ envelope, m.1 ∈ continuationKeys ∧ continues m.2 = true

/-- Whether the last members of their names let a body through. -/
def passes (body : GoString) : Bool :=
  match parse body with
  | some (.object envelope) =>
    !(continuationKeys.any fun key => (member key envelope).any continues) &&
      !((member (lit "background") envelope).any fun v => !isFalse v)
  | _ => false

theorem readBody_object (g : Gateway) (h : Handler) (compact : Bool) {body : GoString}
    {envelope : List (GoString × Json)} (hparse : parse body = some (.object envelope)) :
    h.readBody g compact (.ok body) =
      if continuationKeys.any fun key => (member key envelope).any continues then
        h.refuse g 409 (lit "account-bound continuation requires a qualified replay path")
      else if (member (lit "background") envelope).any fun v => !isFalse v then
        h.refuse g 400 (lit "background responses are not qualified")
      else { h with stage := .candidates (.responses compact body envelope) false } := by
  simp only [Handler.readBody, hparse]
  rfl

theorem readBody_other (g : Gateway) (h : Handler) (compact : Bool) {body : GoString}
    (hparse : ∀ envelope, parse body ≠ some (.object envelope)) :
    h.readBody g compact (.ok body) = h.refuse g 400 (lit "invalid inference JSON") := by
  cases hbody : parse body with
  | none => simp only [Handler.readBody, hbody]
  | some v =>
    cases v with
    | object envelope => exact absurd hbody (hparse envelope)
    | _ => simp only [Handler.readBody, hbody]

theorem passes_iff {body : GoString} : passes body = true ↔
    ∃ envelope, parse body = some (.object envelope) ∧
      (continuationKeys.any fun key => (member key envelope).any continues) = false ∧
      ((member (lit "background") envelope).any fun v => !isFalse v) = false := by
  cases hbody : parse body with
  | none => simp [passes, hbody]
  | some v => cases v <;> simp [passes, hbody]

theorem readBody_of_not_passes (g : Gateway) (h : Handler) (compact : Bool) {body : GoString}
    (hbody : passes body = false) :
    ∃ status message, h.readBody g compact (.ok body) = h.refuse g status message := by
  by_cases hparse : ∃ envelope, parse body = some (.object envelope)
  · obtain ⟨envelope, hparse⟩ := hparse
    rw [readBody_object g h compact hparse]
    split_ifs with hkeys hbackground
    · exact ⟨_, _, rfl⟩
    · exact ⟨_, _, rfl⟩
    · rw [Bool.not_eq_true] at hkeys hbackground
      rw [passes_iff.mpr ⟨envelope, hparse, hkeys, hbackground⟩] at hbody
      cases hbody
  · exact ⟨_, _, readBody_other g h compact (not_exists.mp hparse)⟩

theorem readBody_of_passes (g : Gateway) (h : Handler) (compact : Bool) {body : GoString}
    (hbody : passes body = true) : ∃ envelope, h.readBody g compact (.ok body) =
      { h with stage := .candidates (.responses compact body envelope) false } := by
  obtain ⟨envelope, hparse, hkeys, hbackground⟩ := passes_iff.mp hbody
  refine ⟨envelope, ?_⟩
  rw [readBody_object g h compact hparse, hkeys, hbackground]
  rfl

/-! ## Where a forwarded body comes from -/

/-- The call that a handler is about to make. -/
def callOf : Stage → Option Call
  | .candidates call _ | .reserve call _ | .credentials call _ | .newRequest call _ _
  | .roundTrip call _ _ => some call
  | _ => none

theorem dispatches_return (g : Gateway) (h : Handler) :
    dispatches (h.return g).log = dispatches h.log := by
  have hdeferred : dispatches (h.deferred.flatMap (·.run g h.record)) = [] := by
    refine List.filterMap_eq_nil_iff.mpr fun e he => ?_
    obtain ⟨deferred, -, he⟩ := List.mem_flatMap.mp he
    cases deferred with
    | release d =>
      obtain rfl := List.mem_singleton.mp he
      rfl
    | closeBody =>
      obtain rfl := List.mem_singleton.mp he
      rfl
    | observe =>
      simp only [Deferred.run] at he
      split at he
      · obtain rfl := List.mem_singleton.mp he
        rfl
      · cases he
  rw [Handler.return, dispatches, List.filterMap_append, ← dispatches, ← dispatches, hdeferred,
    List.append_nil]

/-- What a step does that sends nothing and starts no inference. -/
structure Quiet (h h' : Handler) : Prop where
  dispatches : dispatches h'.log = dispatches h.log
  call : ∀ call, callOf h'.stage = some call → callOf h.stage = some call ∨ ∃ fields, call = .voice fields

section Steps
variable {g : Gateway} {r : Request} {h h' : Handler}

theorem quiet_return (hlog : dispatches h'.log = dispatches h.log) : Quiet h (h'.return g) where
  dispatches := (dispatches_return g h').trans hlog
  call _ hcall := by cases hcall

theorem dispatches_emit (h : Handler) {e : Event} (he : e.dispatch = none) :
    dispatches (h.emit e).log = dispatches h.log := filterMap_concat_none he _

theorem quiet_refuse (hlog : dispatches h'.log = dispatches h.log) (status : ℕ) (message : GoString) :
    Quiet h (h'.refuse g status message) :=
  quiet_return ((dispatches_emit h' rfl).trans hlog)

theorem quiet_finish (outcome : Outcome) (failureKind : GoString) :
    Quiet h (h.finish g outcome failureKind) := quiet_return rfl

theorem quiet_stage (hlog : dispatches h'.log = dispatches h.log)
    (hstage : callOf h'.stage = none ∨ callOf h'.stage = callOf h.stage ∨
      ∃ fields, callOf h'.stage = some (.voice fields)) : Quiet h h' where
  dispatches := hlog
  call call hcall := by
    rcases hstage with hnone | hsame | ⟨fields, hvoice⟩
    · rw [hnone] at hcall
      cases hcall
    · exact .inl (hsame.symm.trans hcall)
    · exact .inr ⟨fields, (Option.some.inj (hvoice.symm.trans hcall)).symm⟩

theorem quiet_beginVoice (fields : GoMap RawMessage) : Quiet h (h.beginVoice g r fields) := by
  unfold Handler.beginVoice
  split
  · exact quiet_refuse (by rfl) _ _
  · exact quiet_stage rfl (.inr (.inr ⟨fields, rfl⟩))

theorem quiet_nextPart (fields : GoMap RawMessage) (result : Except Failure (Option Part)) :
    Quiet h (h.nextPart g r fields result) := by
  unfold Handler.nextPart
  split
  · exact quiet_beginVoice fields
  · exact quiet_refuse (by rfl) _ _
  · split
    · exact quiet_refuse (by rfl) _ _
    · exact quiet_stage rfl (.inl rfl)

theorem quiet_readPart (fields : GoMap RawMessage) (name : GoString)
    (result : Except Failure GoString) : Quiet h (h.readPart g fields name result) := by
  unfold Handler.readPart
  split
  · exact quiet_refuse (by rfl) _ _
  · split
    · split
      · exact quiet_refuse (by rfl) _ _
      · exact quiet_stage rfl (.inl rfl)
    · split
      · exact quiet_stage rfl (.inl rfl)
      · exact quiet_refuse (by rfl) _ _

theorem quiet_candidates {call : Call} {retried : Bool} (hstage : h.stage = .candidates call retried)
    (contextDone : Bool) (result : Except Failure (List Candidate)) :
    Quiet h (h.candidates g call retried contextDone result) := by
  have hcall : callOf h.stage = some call := by
    rw [hstage]
    rfl
  unfold Handler.candidates
  split
  · exact quiet_stage rfl (.inr (.inl hcall.symm))
  · split
    · exact quiet_stage rfl (.inr (.inl hcall.symm))
    · unfold Handler.capacityUnavailable
      dsimp only
      split
      · split
        · exact quiet_refuse (dispatches_emit h rfl) _ _
        · exact quiet_refuse (by rfl) _ _
      · exact quiet_refuse (by rfl) _ _

theorem quiet_reserve {call : Call} {candidates : List Candidate}
    (hstage : h.stage = .reserve call candidates) (result : Except ReserveError Decision) :
    Quiet h (h.reserve g call result) := by
  unfold Handler.reserve
  split
  · exact quiet_refuse (by rfl) _ _
  · refine quiet_stage ?_ (.inr (.inl ?_))
    · cases call <;> exact dispatches_emit h rfl
    · rw [hstage]
      cases call <;> rfl

theorem quiet_credentials {call : Call} {d : Decision} (hstage : h.stage = .credentials call d)
    (result : Except Failure Credentials) : Quiet h (h.credentials g call d result) := by
  unfold Handler.credentials
  dsimp only
  split
  · exact quiet_refuse (by rfl) _ _
  · split
    · exact quiet_refuse (by rfl) _ _
    · refine quiet_stage (dispatches_emit h rfl) (.inr (.inl ?_))
      rw [hstage]
      rfl

theorem quiet_newRequest {call : Call} {d : Decision} {c : Credentials}
    (hstage : h.stage = .newRequest call d c) (ok : Bool) :
    Quiet h (h.newRequest g r call d c ok) := by
  unfold Handler.newRequest
  split
  · split
    · refine quiet_stage rfl (.inr (.inl ?_))
      rw [hstage]
      rfl
    · exact quiet_refuse (by rfl) _ _
  · exact quiet_stage rfl (.inr (.inl rfl))

theorem quiet_readCompact (d : Decision) (response : Response) (result : Except Failure GoString) :
    Quiet h (h.readCompact g d response result) := by
  unfold Handler.readCompact
  split
  · split
    · exact quiet_stage ((dispatches_emit _ rfl).trans (dispatches_emit h rfl)) (.inl rfl)
    · exact quiet_refuse (by rfl) _ _
  · exact quiet_refuse (by rfl) _ _

theorem quiet_readSDP (d : Decision) (response : Response) (result : Except Failure GoString) :
    Quiet h (h.readSDP g d response result) := by
  unfold Handler.readSDP
  dsimp only
  split
  · split
    · exact quiet_stage ((dispatches_emit _ rfl).trans (dispatches_emit h rfl)) (.inl rfl)
    · exact quiet_refuse (by rfl) _ _
  · exact quiet_refuse (by rfl) _ _

theorem quiet_writeLine (terminal : Option Outcome) (result : Except Failure Unit) :
    Quiet h (h.writeLine g terminal result) := by
  unfold Handler.writeLine
  split
  · exact quiet_finish _ _
  · split
    · exact quiet_stage (dispatches_emit h rfl) (.inl rfl)
    · exact quiet_stage rfl (.inl rfl)

theorem quiet_writeBlank (terminal : Outcome) (result : Except Failure Unit) :
    Quiet h (h.writeBlank g terminal result) := by
  unfold Handler.writeBlank
  split
  · exact quiet_finish _ _
  · exact quiet_stage rfl (.inl rfl)

theorem quiet_flush (terminal : Option Outcome) (result : Except Failure Unit) :
    Quiet h (h.flush g terminal result) := by
  unfold Handler.flush
  split
  · exact quiet_finish _ _
  · split
    · exact quiet_finish _ _
    · exact quiet_stage rfl (.inl rfl)

theorem quiet_catalogRoundTrip (result : Except Failure Response) :
    Quiet h (h.catalogRoundTrip g result) := by
  unfold Handler.catalogRoundTrip
  split
  · exact quiet_refuse (by rfl) _ _
  · dsimp only
    split
    · exact quiet_stage rfl (.inl rfl)
    · exact quiet_refuse (by rfl) _ _

theorem quiet_catalogRead (result : Except Failure GoString) : Quiet h (h.catalogRead g result) := by
  unfold Handler.catalogRead
  split
  · split
    · exact quiet_return (dispatches_emit h rfl)
    · exact quiet_refuse (by rfl) _ _
  · exact quiet_refuse (by rfl) _ _

theorem roundTrip_sends (call : Call) (d : Decision) (up : Upstream) (result : Except Failure Response) :
    dispatches (h.roundTrip g call d up result).log = dispatches h.log ++ [(up, result)] ∧
      callOf (h.roundTrip g call d up result).stage = none := by
  have hsent : dispatches (h.emit (.roundTrip up result)).log = dispatches h.log ++ [(up, result)] :=
    filterMap_concat_some (f := Event.dispatch) rfl _
  have hquiet : ∀ {h₁ h₂ : Handler}, dispatches h₁.log = dispatches h.log ++ [(up, result)] →
      Quiet h₁ h₂ → callOf h₂.stage = none → dispatches h₂.log = dispatches h.log ++ [(up, result)] ∧
        callOf h₂.stage = none := fun hlog hq hstage => ⟨hq.dispatches.trans hlog, hstage⟩
  cases result with
  | error e => exact hquiet hsent (quiet_refuse (by rfl) _ _) rfl
  | ok response =>
    simp only [Handler.roundTrip]
    split
    · have haccept : ∀ h₁ : Handler, dispatches (h₁.accept g).log = dispatches h₁.log := by
        intro h₁
        unfold Handler.accept
        split
        · exact dispatches_emit h₁ rfl
        · rfl
      unfold Handler.beginRelay
      split
      · exact ⟨(haccept _).trans hsent, rfl⟩
      · exact ⟨(dispatches_emit _ rfl).trans ((haccept _).trans hsent), rfl⟩
      · exact ⟨(haccept _).trans hsent, rfl⟩
    · exact hquiet hsent (quiet_refuse (by rfl) _ _) rfl

/-- A step sends nothing, or takes in a body that passes, or sends the request. -/
theorem step_cases {answer : Answer} (h₁ : step g r h answer = some h') :
    Quiet h h' ∨
    (∃ compact body envelope, answer = .body (.ok body) ∧ passes body = true ∧
      h' = { h with stage := .candidates (.responses compact body envelope) false }) ∨
    ∃ call d up result, h.stage = .roundTrip call d up ∧
      dispatches h'.log = dispatches h.log ++ [(up, result)] ∧ callOf h'.stage = none := by
  unfold step at h₁
  split at h₁ <;> cases h₁
  · rename_i compact result hstage
    rcases result with e | body
    · left
      cases e <;> exact quiet_refuse (by rfl) _ _
    · cases hbody : passes body with
      | true =>
        obtain ⟨envelope, henvelope⟩ := readBody_of_passes g h compact hbody
        exact .inr (.inl ⟨compact, body, envelope, rfl, hbody, henvelope⟩)
      | false =>
        obtain ⟨status, message, hrefuse⟩ := readBody_of_not_passes g h compact hbody
        rw [hrefuse]
        exact .inl (quiet_refuse (by rfl) _ _)
  · exact .inl (quiet_nextPart _ _)
  · exact .inl (quiet_readPart _ _ _)
  · exact .inl (quiet_candidates ‹_› _ _)
  · exact .inl (quiet_reserve ‹_› _)
  · exact .inl (quiet_credentials ‹_› _)
  · exact .inl (quiet_newRequest ‹_› _)
  · rename_i call d up result hstage
    exact .inr (.inr ⟨call, d, up, result, hstage, roundTrip_sends call d up result⟩)
  · exact .inl (quiet_readCompact _ _ _)
  · exact .inl (quiet_finish _ _)
  · exact .inl (quiet_stage (dispatches_emit h rfl) (.inl rfl))
  · exact .inl (quiet_finish _ _)
  · exact .inl (quiet_writeLine _ _)
  · exact .inl (quiet_writeBlank _ _)
  · exact .inl (quiet_flush _ _)
  · exact .inl (quiet_readSDP _ _ _)
  · exact .inl (quiet_finish _ _)
  · exact .inl (quiet_catalogRoundTrip _)
  · exact .inl (quiet_catalogRead _)

theorem body_stage {result : Except ReadError GoString} (h₁ : step g r h (.body result) = some h') :
    ∃ compact, h.stage = .readBody compact ∧ h' = h.readBody g compact result := by
  unfold step at h₁
  cases hstage : h.stage with
  | readBody compact =>
    rw [hstage] at h₁
    exact ⟨compact, rfl, (Option.some.inj h₁).symm⟩
  | _ =>
    rw [hstage] at h₁
    cases h₁

end Steps

/-! ## Runs -/

section Runs
variable {g : Gateway} {r : Request} {lib : Library} {answers : List Answer} {h : Handler}

theorem inv_of_run (hr : Runs (Fires (step g r)) (serveHTTP g lib r) answers h) : Inv g r h :=
  hr.invariant (I := Inv g r) (inv_serveHTTP lib) fun _ _ _ hi hs => hi.step hs

/-- The body was read in the run, and let through. -/
def TakenIn (answers : List Answer) (body : GoString) : Prop :=
  passes body = true ∧ Answer.body (.ok body) ∈ answers

theorem TakenIn.concat {body : GoString} (hb : TakenIn answers body) (a : Answer) :
    TakenIn (answers ++ [a]) body := ⟨hb.1, List.mem_append_left _ hb.2⟩

/-- What is sent, or about to be, has been taken in. -/
structure Forwarding (answers : List Answer) (h : Handler) : Prop where
  call : ∀ compact body envelope, callOf h.stage = some (.responses compact body envelope) →
    TakenIn answers body
  sent : ∀ d ∈ dispatches h.log, ∀ body, d.1.body = .bytes body → TakenIn answers body

theorem callOf_serveHTTP (g : Gateway) (lib : Library) (r : Request) :
    callOf (serveHTTP g lib r).stage = none ∧ dispatches (serveHTTP g lib r).log = [] := by
  have hrefuse : ∀ status message, callOf (Handler.init.refuse g status message).stage = none ∧
      dispatches (Handler.init.refuse g status message).log = [] := fun status message =>
    ⟨rfl, (quiet_refuse (h := Handler.init) (by rfl) status message).dispatches⟩
  unfold serveHTTP createVoiceCall catalog
  dsimp only
  split_ifs <;> first | exact hrefuse _ _ | exact ⟨rfl, rfl⟩

theorem forwarding_of_run (hr : Runs (Fires (step g r)) (serveHTTP g lib r) answers h) :
    Forwarding answers h := by
  induction hr with
  | refl =>
    obtain ⟨hcall, hlog⟩ := callOf_serveHTTP g lib r
    constructor
    · intro compact body envelope h
      rw [hcall] at h
      cases h
    · intro d hd
      rw [hlog] at hd
      cases hd
  | @tail u v answers a run last ih =>
    rcases step_cases last with hq | ⟨compact, body, envelope, rfl, hpass, rfl⟩ |
      ⟨call, d, up, result, hstage, hlog, hcall⟩
    · refine ⟨fun compact body envelope h => ?_, fun d hd body hbody => ?_⟩
      · rcases hq.call _ h with h | ⟨fields, h⟩
        · exact (ih.call _ _ _ h).concat a
        · cases h
      · rw [hq.dispatches] at hd
        exact (ih.sent d hd body hbody).concat a
    · refine ⟨fun _ _ _ h => ?_, fun d hd body hbody => (ih.sent d hd body hbody).concat _⟩
      cases h
      exact ⟨hpass, List.mem_append_right _ List.mem_cons_self⟩
    · refine ⟨fun _ _ _ h => ?_, fun e he body hbody => ?_⟩
      · rw [hcall] at h
        cases h
      · rw [hlog, List.mem_append, List.mem_singleton] at he
        rcases he with he | rfl
        · exact (ih.sent e he body hbody).concat a
        · -- What is sent is the payload of the call.
          cases inv_of_run run with
          | done hdone _ =>
            rw [hdone] at hstage
            cases hstage
          | live _ hi =>
            rw [StageInv, hstage] at hi
            obtain ⟨-, -, c, -, hpayload, -⟩ := hi
            rw [hpayload] at hbody
            cases call with
            | voice fields => cases hbody
            | responses compact body' envelope =>
              cases hbody
              exact (ih.call compact body envelope (by rw [hstage]; rfl)).concat a

/-- An error was returned, and nothing reserved or sent. -/
structure Rejected (h : Handler) : Prop where
  returned : h.stage = .returned
  unreserved : reservations h.log = []
  unsent : dispatches h.log = []
  answered : ∃ status message, Event.gatewayError status message ∈ h.log

theorem rejected_refuse (hu : Unreserved h []) (status : ℕ) (message : GoString) :
    Rejected (h.refuse g status message) where
  returned := rfl
  unreserved := by
    have hdeferred := hu.deferred
    simp only [Handler.refuse, Handler.return, Handler.emit, hdeferred, List.flatMap_nil, List.append_nil]
    exact filterMap_concat_eq hu.reservations rfl
  unsent := ((dispatches_return g _).trans (dispatches_emit h rfl)).trans hu.dispatches
  answered := by
    refine ⟨status, message, ?_⟩
    simp only [Handler.refuse, Handler.return, Handler.emit]
    exact List.mem_append_left _ (List.mem_append_right _ List.mem_cons_self)

theorem rejected_of_run (hr : Runs (Fires (step g r)) (serveHTTP g lib r) answers h) {body : GoString}
    (hread : Answer.body (.ok body) ∈ answers) (hbody : passes body = false) : Rejected h := by
  induction hr with
  | refl => cases hread
  | @tail u v answers a run last ih =>
    rcases List.mem_append.mp hread with hread | hread
    · -- A handler that has returned does nothing more.
      have hstop := (ih hread).returned
      simp [Fires, step, hstop] at last
    · obtain rfl := List.mem_singleton.mp hread
      cases inv_of_run run with
      | done hdone _ => simp [Fires, step, hdone] at last
      | live _ hi =>
        obtain ⟨compact, hstage, rfl⟩ := body_stage last
        rw [StageInv, hstage] at hi
        obtain ⟨status, message, hrefuse⟩ := readBody_of_not_passes g u compact hbody
        rw [hrefuse]
        exact rejected_refuse hi status message

end Runs

/-! ## Bodies with a handle -/

def Bounded (answers : List Answer) : Prop :=
  ∀ body, Answer.body (.ok body) ∈ answers → (body.length : ℤ) ≤ maxInferenceRequestBytes

/-- The body is never sent, and a handler that reads it rejects it. -/
structure Withheld (body : GoString) : Prop where
  never_sent : ∀ (g : Gateway) (lib : Library) (r : Request) (answers : List Answer) (h : Handler),
    Bounded answers → Runs (Fires (step g r)) (serveHTTP g lib r) answers h →
      ∀ d ∈ dispatches h.log, d.1.body ≠ .bytes body
  rejected : ∀ (g : Gateway) (lib : Library) (r : Request) (answers : List Answer) (h : Handler),
    Bounded answers → Runs (Fires (step g r)) (serveHTTP g lib r) answers h →
      Answer.body (.ok body) ∈ answers → Rejected h

def unsizedRequest : Request := { inferenceRequest with contentLength := -1 }

def sentInference (body : GoString) : List Answer :=
  [.body (.ok body), .candidates (.ok []) false, .reserve (.ok ⟨1, 0, lit "a", lit "auto"⟩),
    .credentials (.ok ⟨lit "token", lit "acct"⟩), .newRequest true, .roundTrip (.error [])]

theorem serveHTTP_unsized : serveHTTP chatgptGateway noLibrary unsizedRequest =
    { Handler.init with stage := .readBody false } := by
  rfl

theorem bounded_sentInference {body : GoString} (h : (body.length : ℤ) ≤ maxInferenceRequestBytes) :
    Bounded (sentInference body) := by
  intro other hother
  simp only [sentInference, List.mem_cons, Answer.body.injEq, Except.ok.injEq, reduceCtorEq,
    List.not_mem_nil, or_false] at hother
  rwa [hother]

/-- A body that passes is sent. -/
theorem sends_of_passes {body : GoString} (hbody : passes body = true) :
    ∃ h, Runs (Fires (step chatgptGateway unsizedRequest))
      (serveHTTP chatgptGateway noLibrary unsizedRequest) (sentInference body) h ∧
        ∃ d ∈ dispatches h.log, d.1.body = .bytes body := by
  obtain ⟨envelope, henvelope⟩ := readBody_of_passes chatgptGateway
    { Handler.init with stage := .readBody false } false hbody
  refine ⟨_, exec_runs (u := ?_) ?_, ?_⟩
  rotate_left
  · rw [serveHTTP_unsized, sentInference, exec]
    change (some (Handler.readBody _ _ _ _)).bind _ = _
    rw [henvelope]
    rfl
  · exact ⟨_, List.mem_cons_self, rfl⟩

/-- A body with a handle is withheld exactly if it is too long, or the last members of their
names keep it back. -/
theorem handles_withheld_iff (body : GoString) : (Handles body → Withheld body) ↔
    (Handles body → maxInferenceRequestBytes < body.length ∨ passes body = false) := by
  refine forall_congr' fun _ => ⟨fun hw => ?_, fun hb => ?_⟩
  · by_contra hnot
    rw [not_or, Bool.not_eq_false, not_lt] at hnot
    obtain ⟨hlength, hbody⟩ := hnot
    obtain ⟨h, hr, d, hd, hsent⟩ := sends_of_passes hbody
    exact hw.never_sent _ _ _ _ _ (bounded_sentInference hlength) hr d hd hsent
  · have hread : ∀ answers, Bounded answers → Answer.body (.ok body) ∈ answers → passes body = false :=
      fun answers hbound hmem => hb.resolve_left (not_lt.mpr (hbound body hmem))
    refine ⟨fun g lib r answers h hbound hr d hd hsent => ?_, fun g lib r answers h hbound hr hmem =>
      rejected_of_run hr hmem (hread answers hbound hmem)⟩
    obtain ⟨hpass, hmem⟩ := (forwarding_of_run hr).sent d hd body hsent
    exact Bool.false_ne_true ((hread answers hbound hmem).symm.trans hpass)

def repeatedHandle : GoString :=
  lit "\x7b\"previous_response_id\":\"resp_1\",\"previous_response_id\":null\x7d"

/-- A handle is sent when an empty member of its name follows. -/
theorem repeated_handle_sent : Handles repeatedHandle ∧ ¬ Withheld repeatedHandle := by
  refine ⟨⟨[(lit "previous_response_id", .string (lit "resp_1")), (lit "previous_response_id", .null)],
    by rfl, (lit "previous_response_id", .string (lit "resp_1")), List.mem_cons_self,
    List.mem_cons_self, by decide⟩, fun hw => ?_⟩
  obtain ⟨h, hr, d, hd, hsent⟩ := sends_of_passes (show passes repeatedHandle = true by decide)
  exact hw.never_sent _ _ _ _ _ (bounded_sentInference (by decide)) hr d hd hsent

end SubscriptionRouter.SpendContinuations
