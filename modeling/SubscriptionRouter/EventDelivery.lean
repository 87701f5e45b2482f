import Mathlib
import SubscriptionRouter.EventStream
import SubscriptionRouter.JsonLines

set_option autoImplicit false

/-!
# Events from the control server to the account menu

`events` writes a comment and then a frame for each event, `codexMuxReadEventStream` reads the
frames from whatever chunks the connection makes of them, and the connection may end anywhere.
-/
namespace SubscriptionRouter.EventDelivery
open EventStream GoText JsonText JsonRoundTrip TextDecoder

/-! ## Lines that are written as a whole -/

def Plain (line : EventStream.Text) : Prop := ∀ c ∈ line, c ≠ '\n' ∧ c ≠ '\r'

def terminated (ls : List EventStream.Text) : EventStream.Text := ls.flatMap (· ++ ['\n'])

theorem terminated_cons (line : EventStream.Text) (ls : List EventStream.Text) :
    terminated (line :: ls) = line ++ '\n' :: terminated ls := by
  simp [terminated]

theorem terminated_append (ls ms : List EventStream.Text) :
    terminated (ls ++ ms) = terminated ls ++ terminated ms := List.flatMap_append

/-- A part of a text is some of its lines and the beginning of the next one. -/
theorem lines_of_prefix {ls : List EventStream.Text} {text : EventStream.Text}
    (hplain : ∀ line ∈ ls, Plain line) (h : text <+: terminated ls) :
    ∃ i ≤ ls.length, ∃ rest, text = terminated (ls.take i) ++ rest ∧ Plain rest ∧
      (∀ line ∈ ls[i]?, rest <+: line) ∧ (ls[i]? = none → rest = []) := by
  induction ls generalizing text with
  | nil =>
    obtain rfl := List.prefix_nil.mp h
    exact ⟨0, le_rfl, [], rfl, by simp [Plain], by simp, fun _ => rfl⟩
  | cons line ls ih =>
    obtain ⟨hline, hrest⟩ := List.forall_mem_cons.mp hplain
    have hcons : terminated (line :: ls) = (line ++ ['\n']) ++ terminated ls := by
      rw [terminated_cons, List.append_assoc, List.singleton_append]
    rw [hcons] at h
    rcases List.prefix_or_prefix_of_prefix h (List.prefix_append _ _) with hshort | ⟨tail, rfl⟩
    · rcases List.prefix_concat_iff.mp hshort with rfl | hshort
      · exact ⟨1, by simp, [], by simp [terminated], by simp [Plain], by simp, fun _ => rfl⟩
      · refine ⟨0, by simp, text, by simp [terminated], fun c hc => hline c (hshort.subset hc), ?_,
          by simp⟩
        simpa using hshort
    · obtain ⟨i, hi, rest, rfl, hplain, hnext, hlast⟩ := ih hrest ((List.prefix_append_right_inj _).mp h)
      refine ⟨i + 1, by simpa using hi, rest, ?_, hplain, by simpa using hnext, by simpa using hlast⟩
      simp [terminated]

theorem completeLines_terminated (atEnd : Bool) {ls : List EventStream.Text} {rest : EventStream.Text}
    (hplain : ∀ line ∈ ls, Plain line) (hrest : Plain rest) :
    completeLines atEnd (terminated ls ++ rest) = (ls, rest) := by
  induction ls with
  | nil => exact completeLines_none atEnd hrest
  | cons line ls ih =>
    obtain ⟨hline, hls⟩ := List.forall_mem_cons.mp hplain
    rw [terminated_cons, List.append_assoc, List.cons_append, completeLines_line atEnd _ hline, ih hls]

/-! ## What the server writes -/

/-- `: connected` and a frame for each event. -/
def frame (encoded : List UInt8) : List UInt8 := lit "data: " ++ encoded ++ lit "\n\n"

def written (events : List (List UInt8)) : List UInt8 := lit ": connected\n\n" ++ events.flatMap frame

def dataLine (text : EventStream.Text) : EventStream.Text := "data: ".toList ++ text

def eventLines (texts : List EventStream.Text) : List EventStream.Text :=
  texts.flatMap fun text => [dataLine text, []]

def writtenLines (texts : List EventStream.Text) : List EventStream.Text :=
  [": connected".toList, []] ++ eventLines texts

theorem encode_frame (text : EventStream.Text) :
    encode (terminated [dataLine text, []]) = frame (encode text) := by
  have hdata : encode "data: ".toList = lit "data: " := by decide
  have hend : encode ['\n', '\n'] = lit "\n\n" := by decide
  rw [frame, ← hdata, ← hend, ← encode_append, ← encode_append]
  simp [terminated, dataLine]

theorem written_encode (texts : List EventStream.Text) :
    written (texts.map encode) = encode (terminated (writtenLines texts)) := by
  have hframes : (texts.map encode).flatMap frame = encode (terminated (eventLines texts)) := by
    induction texts with
    | nil => rfl
    | cons text texts ih =>
      rw [List.map_cons, List.flatMap_cons, ih, ← encode_frame, ← encode_append, ← terminated_append]
      rfl
  have hconnected : encode (terminated [": connected".toList, []]) = lit ": connected\n\n" := by
    decide
  rw [written, hframes, ← hconnected, ← encode_append, ← terminated_append]
  rfl

/-! ## What the menu has of it -/

theorem received_mono {a b : List UInt8} (h : a <+: b) : received a <+: received b := by
  obtain ⟨rest, rfl⟩ := h
  exact ⟨fresh a rest, (received_append a rest).symm⟩

theorem received_encode (text : EventStream.Text) : received (encode (':' :: text)) = ':' :: text := by
  have hmark : ':' ≠ byteOrderMark := by decide
  rw [received, decode_encode _ hmark, dropMark, if_neg hmark]

theorem terminated_writtenLines (texts : List EventStream.Text) :
    ∃ init, terminated (writtenLines texts) = ':' :: (init ++ ['\n']) := by
  have hends : ∀ ls : List EventStream.Text, ∃ init, terminated ([] :: ls) = init ++ ['\n'] := by
    intro ls
    induction ls using List.reverseRecOn with
    | nil => exact ⟨[], rfl⟩
    | append_singleton ls line _ =>
      refine ⟨terminated ([] :: ls) ++ line, ?_⟩
      rw [← List.cons_append, terminated_append]
      simp [terminated]
  obtain ⟨init, hinit⟩ := hends (eventLines texts)
  refine ⟨" connected\n".toList ++ init, ?_⟩
  have hlines : writtenLines texts = ": connected".toList :: [] :: eventLines texts := rfl
  rw [hlines, terminated_cons, hinit]
  simp

theorem received_written (texts : List EventStream.Text) :
    received (written (texts.map encode)) = terminated (writtenLines texts) := by
  obtain ⟨init, hinit⟩ := terminated_writtenLines texts
  rw [written_encode, hinit, received_encode]

theorem plain_flush (d : Decoder) : Plain d.flush := by
  have hreplacement : replacement ≠ '\n' ∧ replacement ≠ '\r' ∧ replacement ≠ byteOrderMark := by
    decide
  unfold Decoder.flush
  split
  · simp [Plain]
  · rw [serialize, if_neg fun h => hreplacement.2.2 h.2]
    intro c hc
    rw [List.mem_singleton.mp hc]
    exact ⟨hreplacement.1, hreplacement.2.1⟩

/-- An event that the menu takes: its data line is one line and not too long. -/
structure Sendable (text : EventStream.Text) : Prop where
  plain : Plain text
  short : utf8ByteLength text + 6 ≤ maxEventBytes

theorem plain_writtenLines {texts : List EventStream.Text} (h : ∀ text ∈ texts, Sendable text) :
    ∀ line ∈ writtenLines texts, Plain line := by
  have hliteral : Plain ": connected".toList ∧ Plain "data: ".toList := by
    constructor <;> simp [Plain]
  intro line hline
  rcases List.mem_append.mp hline with hline | hline
  · rcases List.mem_cons.mp hline with rfl | hline
    · exact hliteral.1
    · rw [List.mem_singleton.mp hline]
      simp [Plain]
  · obtain ⟨text, htext, hline⟩ := List.mem_flatMap.mp hline
    rcases List.mem_cons.mp hline with rfl | hline
    · intro c hc
      rcases List.mem_append.mp hc with hc | hc
      · exact hliteral.2 c hc
      · exact (h text htext).plain c hc
    · rw [List.mem_singleton.mp hline]
      simp [Plain]

theorem short_writtenLines {texts : List EventStream.Text} (h : ∀ text ∈ texts, Sendable text) :
    ∀ line ∈ writtenLines texts, utf8ByteLength line ≤ maxEventBytes := by
  intro line hline
  rcases List.mem_append.mp hline with hline | hline
  · rcases List.mem_cons.mp hline with rfl | hline
    · decide
    · rw [List.mem_singleton.mp hline]
      decide
  · obtain ⟨text, htext, hline⟩ := List.mem_flatMap.mp hline
    rcases List.mem_cons.mp hline with rfl | hline
    · have hshort := (h text htext).short
      rw [dataLine, utf8ByteLength_append, show utf8ByteLength "data: ".toList = 6 by decide]
      omega
    · rw [List.mem_singleton.mp hline]
      decide

/-- Of a part of the stream the menu has read whole lines, and not too much of the next one. -/
theorem lines_of_written {texts : List EventStream.Text} (h : ∀ text ∈ texts, Sendable text)
    {bytes : List UInt8} (hbytes : bytes <+: written (texts.map encode)) :
    ∃ i ≤ (writtenLines texts).length, lines bytes = (writtenLines texts).take i ∧
      allLines bytes = (writtenLines texts).take i ∧ ¬ Overlong bytes ∧
      received bytes = terminated ((writtenLines texts).take i) ++ unfinished bytes := by
  have hplain := plain_writtenLines h
  have hpart := received_mono hbytes
  rw [received_written] at hpart
  obtain ⟨i, hi, rest, hreceived, hrest, hnext, hlast⟩ := lines_of_prefix hplain hpart
  have htake : ∀ line ∈ (writtenLines texts).take i, Plain line :=
    fun line hline => hplain line (List.mem_of_mem_take hline)
  have hcut := completeLines_terminated false htake hrest
  rw [← hreceived] at hcut
  have hunfinished : unfinished bytes = rest := congrArg Prod.snd hcut
  refine ⟨i, hi, congrArg Prod.fst hcut, ?_, ?_, by rw [hunfinished, hreceived]⟩
  · have hend : Plain (rest ++ (Decoder.start.decode bytes).1.flush) := by
      intro c hc
      rcases List.mem_append.mp hc with hc | hc
      · exact hrest c hc
      · exact plain_flush _ c hc
    rw [allLines, hreceived, List.append_assoc, completeLines_terminated true htake hend]
  · rw [Overlong, hunfinished, Nat.not_lt]
    cases hline : (writtenLines texts)[i]? with
    | none =>
      rw [hlast hline]
      decide
    | some line =>
      obtain ⟨tail, hsplit⟩ := hnext line (by rw [hline]; rfl)
      have hshort := short_writtenLines h line (List.mem_of_getElem? hline)
      rw [← hsplit, utf8ByteLength_append] at hshort
      omega

/-! ## What the menu makes of the lines -/

def message (text : EventStream.Text) : Output := .message text [] messageType

def idle (heard : List Output) : Parser := ⟨[], 0, [], [], heard⟩

theorem processLine_data {text : EventStream.Text} (h : Sendable text) (heard : List Output) :
    (idle heard).processLine (dataLine text) =
      .ok ⟨[text], utf8ByteLength text, [], [], heard⟩ := by
  have hshort := h.short
  have hfield : field (dataLine text) = "data".toList := by simp [field, dataLine]
  have hvalue : value (dataLine text) = text := by simp [value, dataLine]
  have hfits : ¬ maxEventBytes < utf8ByteLength text := by omega
  rw [Parser.processLine, if_neg (by simp [dataLine]), if_neg (by simp [dataLine]), if_pos hfield, hvalue]
  simp only [idle, ne_eq, not_true_eq_false, if_false, List.nil_append, Nat.zero_add, Nat.add_zero]
  rw [if_neg hfits]

theorem processLine_end (text : EventStream.Text) (bytes : ℕ) (heard : List Output) :
    Parser.processLine ⟨[text], bytes, [], [], heard⟩ [] = .ok (idle (heard ++ [message text])) := by
  simp [Parser.processLine, Parser.dispatch, idle, message, joinLines, List.intercalate_singleton]

theorem process_eventLines {texts : List EventStream.Text} (h : ∀ text ∈ texts, Sendable text)
    (heard : List Output) (i : ℕ) :
    ∃ p, ((eventLines texts).take i).foldlM Parser.processLine (idle heard) = .ok p ∧
      p.heard = heard ++ (texts.take (i / 2)).map message := by
  induction texts generalizing heard i with
  | nil => exact ⟨idle heard, by simp [eventLines, pure, Except.pure], by simp [idle]⟩
  | cons text texts ih =>
    obtain ⟨htext, hrest⟩ := List.forall_mem_cons.mp h
    have hlines : eventLines (text :: texts) = dataLine text :: [] :: eventLines texts := rfl
    rw [hlines]
    have hdata := processLine_data htext heard
    rcases i with _ | _ | i
    · exact ⟨idle heard, rfl, by simp [idle]⟩
    · exact ⟨⟨[text], utf8ByteLength text, [], [], heard⟩,
      by simp [hdata, bind, Except.bind, pure, Except.pure],
        by simp⟩
    · obtain ⟨p, hp, hheard⟩ := ih hrest (heard ++ [message text]) i
      have hrest : ([] :: (eventLines texts).take i).foldlM Parser.processLine
          ⟨[text], utf8ByteLength text, [], [], heard⟩ = .ok p := by
        rw [List.foldlM_cons, processLine_end]
        exact hp
      refine ⟨p, ?_, ?_⟩
      · rw [List.take_succ_cons, List.take_succ_cons, List.foldlM_cons, hdata]
        exact hrest
      · rw [hheard, show (i + 1 + 1) / 2 = i / 2 + 1 by omega]
        simp

theorem process_writtenLines {texts : List EventStream.Text} (h : ∀ text ∈ texts, Sendable text) (i : ℕ) :
    ∃ p, ((writtenLines texts).take i).foldlM Parser.processLine .start = .ok p ∧
      p.heard = (texts.take ((i - 2) / 2)).map message := by
  have hlines : writtenLines texts = ": connected".toList :: [] :: eventLines texts := rfl
  rw [hlines]
  rcases i with _ | _ | i
  · exact ⟨.start, rfl, rfl⟩
  · exact ⟨.start, rfl, rfl⟩
  · obtain ⟨p, hp, hheard⟩ := process_eventLines h [] i
    exact ⟨p, hp, by rw [hheard]; rfl⟩

/-- Reading does not depend on the chunks, and gives the events of the whole frames. -/
theorem read_written {texts : List EventStream.Text} (h : ∀ text ∈ texts, Sendable text)
    {chunks : List (List UInt8)} (hchunks : chunks.flatten <+: written (texts.map encode)) :
    ∃ i ≤ (writtenLines texts).length, lines chunks.flatten = (writtenLines texts).take i ∧
      received chunks.flatten = terminated ((writtenLines texts).take i) ++ unfinished chunks.flatten ∧
      codexMuxReadEventStream chunks = .ok ((texts.take ((i - 2) / 2)).map message) := by
  obtain ⟨i, hi, hlines, hall, hshort, hreceived⟩ := lines_of_written h hchunks
  obtain ⟨p, hp, hheard⟩ := process_writtenLines h i
  have hsteady : Steady chunks.flatten := by
    intro q hq hlong
    obtain ⟨-, -, -, -, hnot, -⟩ := lines_of_written h (hq.trans hchunks)
    exact absurd hlong hnot
  have hread := readOn_steady chunks check_nil (by rwa [List.nil_append])
  have hcheck : check chunks.flatten = .ok p := check_of_run (by rw [hlines, hp]) hshort
  refine ⟨i, hi, hlines, hreceived, ?_⟩
  rw [read_eq, hread, List.nil_append, total, hcheck, hall]
  simp only [bind, Except.bind, hp, pure, Except.pure, hheard]

theorem writtenLines_take (texts : List EventStream.Text) (j : ℕ) :
    writtenLines (texts.take j) = (writtenLines texts).take (2 * j + 2) := by
  have hevents : ∀ (texts : List EventStream.Text) (j : ℕ),
      eventLines (texts.take j) = (eventLines texts).take (2 * j) := by
    intro texts
    induction texts with
    | nil => simp [eventLines]
    | cons text texts ih =>
      intro j
      cases j with
      | zero => rfl
      | succ j =>
        have hcons : ∀ ts, eventLines (text :: ts) = dataLine text :: [] :: eventLines ts := fun _ => rfl
        rw [List.take_succ_cons, hcons, hcons, ih, show 2 * (j + 1) = 2 * j + 1 + 1 by omega,
          List.take_succ_cons, List.take_succ_cons]
  rw [writtenLines, hevents]
  rfl

theorem length_writtenLines (texts : List EventStream.Text) :
    (writtenLines texts).length = 2 * texts.length + 2 := by
  rw [writtenLines, eventLines, List.length_append, List.length_flatMap]
  simp
  omega

/-- The bytes hold a whole frame just when they hold its lines. -/
theorem written_prefix_iff {texts : List EventStream.Text} (h : ∀ text ∈ texts, Sendable text)
    {bytes : List UInt8} (hbytes : bytes <+: written (texts.map encode)) {i : ℕ}
    (hi : i ≤ (writtenLines texts).length) (hlines : lines bytes = (writtenLines texts).take i)
    (hreceived : received bytes = terminated ((writtenLines texts).take i) ++ unfinished bytes) {j : ℕ}
    (hj : j ≤ texts.length) :
    written ((texts.take j).map encode) <+: bytes ↔ 2 * j + 2 ≤ i := by
  have hpart : written ((texts.take j).map encode) <+: written (texts.map encode) := by
    refine (List.prefix_append_right_inj _).mpr ?_
    nth_rewrite 2 [← List.take_append_drop j texts]
    rw [List.map_append, List.flatMap_append]
    exact List.prefix_append _ _
  constructor
  · rintro ⟨rest, rfl⟩
    have hplain : ∀ line ∈ writtenLines (texts.take j), Plain line :=
      plain_writtenLines fun text htext => h text (List.mem_of_mem_take htext)
    have hnone : Plain [] := by simp [Plain]
    have hcut := completeLines_terminated false hplain hnone
    rw [List.append_nil, ← received_written (texts.take j)] at hcut
    have hwhole : lines (written ((texts.take j).map encode)) = writtenLines (texts.take j) :=
      congrArg Prod.fst hcut
    rw [lines_append, hwhole] at hlines
    have hlength := congrArg List.length hlines
    rw [List.length_append, length_writtenLines, List.length_take, List.length_take] at hlength
    omega
  · intro hij
    rcases List.prefix_or_prefix_of_prefix hpart hbytes with hwhole | hless
    · exact hwhole
    · -- Bytes without the last line break would hold too few lines.
      obtain ⟨init, hinit⟩ := terminated_writtenLines (texts.take j)
      have hsplit : written ((texts.take j).map encode) = encode (':' :: init) ++ encode ['\n'] := by
        rw [written_encode, hinit, ← encode_append, List.cons_append]
      have hnewline : encode ['\n'] = [0x0A] := by decide
      rw [hsplit, hnewline] at hless ⊢
      rcases List.prefix_concat_iff.mp hless with rfl | hless
      · exact List.prefix_rfl
      · exfalso
        have hshort := (received_mono hless).length_le
        have hmore : (terminated (writtenLines (texts.take j))).length ≤ (received bytes).length := by
          rw [hreceived, writtenLines_take]
          have htake : (writtenLines texts).take (2 * j + 2) <+: (writtenLines texts).take i :=
            List.take_prefix_take_left hij
          obtain ⟨more, hsplit⟩ := htake
          rw [← hsplit, terminated_append, List.append_assoc, List.length_append]
          exact Nat.le_add_right _ _
        rw [received_encode] at hshort
        rw [hinit] at hmore
        simp only [List.length_cons, List.length_append] at hshort hmore
        simp at hmore
        omega

theorem sendable_of_marshal {v : Json} (hv : wellNumbered v = true)
    (hshort : (marshal v).length + 6 ≤ maxEventBytes) :
    ∃ text, encode text = marshal v ∧ Sendable text := by
  have hbreaks : ¬ ' ' ≤ '\n' ∧ ¬ ' ' ≤ '\r' := by decide
  obtain ⟨text, htext, hplain⟩ := JsonLines.marshal_text hv
  refine ⟨text, htext, fun c hc => ⟨?_, ?_⟩, ?_⟩
  · rintro rfl
    exact hbreaks.1 (hplain _ hc)
  · rintro rfl
    exact hbreaks.2 (hplain _ hc)
  · rwa [utf8ByteLength, ← length_encode, htext]

theorem exists_texts {documents : List Json} (hnumbers : ∀ v ∈ documents, wellNumbered v = true)
    (hshort : ∀ v ∈ documents, (marshal v).length + 6 ≤ maxEventBytes) :
    ∃ texts : List EventStream.Text, texts.map encode = documents.map marshal ∧
      ∀ text ∈ texts, Sendable text := by
  induction documents with
  | nil => exact ⟨[], rfl, by simp⟩
  | cons v documents ih =>
    obtain ⟨hv, hnumbers⟩ := List.forall_mem_cons.mp hnumbers
    obtain ⟨hsize, hshort⟩ := List.forall_mem_cons.mp hshort
    obtain ⟨texts, htexts, hsend⟩ := ih hnumbers hshort
    obtain ⟨text, htext, hsendable⟩ := sendable_of_marshal hv hsize
    exact ⟨text :: texts, by rw [List.map_cons, List.map_cons, htext, htexts],
      List.forall_mem_cons.mpr ⟨hsendable, hsend⟩⟩

/-- However the connection cuts the stream into chunks, and wherever it ends, the menu hears the
events of the whole frames it was sent, once and in order, and nothing else. -/
theorem heard_of_written {documents : List Json} (hnumbers : ∀ v ∈ documents, wellNumbered v = true)
    (hshort : ∀ v ∈ documents, (marshal v).length + 6 ≤ maxEventBytes) {chunks : List (List UInt8)}
    (hchunks : chunks.flatten <+: written (documents.map marshal)) :
    ∃ texts : List EventStream.Text, texts.map encode = documents.map marshal ∧ ∃ k ≤ texts.length,
      codexMuxReadEventStream chunks = .ok ((texts.take k).map message) ∧
      ∀ j < documents.length, written ((documents.take (j + 1)).map marshal) <+: chunks.flatten ↔
        j < k := by
  obtain ⟨texts, htexts, hsend⟩ := exists_texts hnumbers hshort
  have hlength : texts.length = documents.length := by
    simpa using congrArg List.length htexts
  rw [← htexts] at hchunks
  obtain ⟨i, hi, hlines, hreceived, hread⟩ := read_written hsend hchunks
  rw [length_writtenLines] at hi
  refine ⟨texts, htexts, (i - 2) / 2, by omega, hread, fun j hj => ?_⟩
  rw [List.map_take, ← htexts, ← List.map_take,
    written_prefix_iff hsend hchunks (by rw [length_writtenLines]; exact hi) hlines hreceived (by omega)]
  omega

/-- A stream that ends within the second of two frames, cut into two chunks. -/
theorem heard_of_written_cut : ∃ texts : List EventStream.Text,
    texts.map encode = [Json.null, .bool true].map marshal ∧ ∃ k ≤ texts.length,
      codexMuxReadEventStream [written [], frame (marshal .null) ++ lit "data: tr"] =
        .ok ((texts.take k).map message) ∧
      ∀ j < [Json.null, .bool true].length,
        written (([Json.null, .bool true].take (j + 1)).map marshal) <+:
          [written [], frame (marshal .null) ++ lit "data: tr"].flatten ↔ j < k := by
  refine heard_of_written ?_ ?_ ⟨lit "ue\n\n", by decide⟩
  · decide
  · decide

end SubscriptionRouter.EventDelivery
