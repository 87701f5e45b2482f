import Mathlib
import SubscriptionRouter.TextDecoder

set_option autoImplicit false

/-!
# The event stream of the account menu

`codexMuxReadEventStream` keeps between two chunks the bytes of a character that has not ended,
the text of a line that has not ended, and the data lines of an event that has not ended. It
measures a data line when the line ends and every other text only while it has not ended, so
that what a stream gives depends on where it is cut.
-/
namespace SubscriptionRouter.EventStream
open TextDecoder

abbrev Text := List Char

/-- `CODEX_MUX_SSE_MAX_EVENT_BYTES` -/
def maxEventBytes : ℕ := 256 * 1024

def utf8ByteLength (value : Text) : ℕ := (value.map Char.utf8Size).sum

def joinLines (lines : List Text) : Text := List.intercalate ['\n'] lines

/-- A call of `onMessage`, or of `onRetry` with the number that the digits of `value` name. -/
inductive Output where
  | message (data lastEventId type : Text)
  | retry (value : Text)
  deriving DecidableEq

/-- The event that has not ended, and the calls that were made. -/
structure Parser where
  dataLines : List Text
  eventDataBytes : ℕ
  eventType : Text
  lastEventId : Text
  heard : List Output
  deriving DecidableEq

def Parser.start : Parser := ⟨[], 0, [], [], []⟩

def messageType : Text := "message".toList

def Parser.dispatch (p : Parser) : Parser :=
  let heard :=
    if p.dataLines ≠ [] ∧ (p.eventType = [] ∨ p.eventType = messageType) then
      p.heard ++ [.message (joinLines p.dataLines) p.lastEventId messageType]
    else p.heard
  { p with dataLines := [], eventDataBytes := 0, eventType := [], heard := heard }

def field (line : Text) : Text := line.takeWhile (· ≠ ':')

/-- The text after the first colon and one space. -/
def value (line : Text) : Text :=
  match (line.dropWhile (· ≠ ':')).tail with
  | ' ' :: text => text
  | text => text

/-- `/^\d+$/` -/
def isNumber (value : Text) : Prop := value ≠ [] ∧ ∀ c ∈ value, '0' ≤ c ∧ c ≤ '9'

instance (value : Text) : Decidable (isNumber value) := inferInstanceAs (Decidable (_ ∧ _))

/-- The error carries the calls made before it: the message is too large. -/
def Parser.processLine (p : Parser) (line : Text) : Except (List Output) Parser :=
  if line = [] then .ok p.dispatch
  else if line.head? = some ':' then .ok p
  else if field line = "data".toList then
    let bytes := p.eventDataBytes + utf8ByteLength (value line) + if p.dataLines ≠ [] then 1 else 0
    if maxEventBytes < bytes then .error p.heard
    else .ok { p with dataLines := p.dataLines ++ [value line], eventDataBytes := bytes }
  else if field line = "event".toList then .ok { p with eventType := value line }
  else if field line = "id".toList then
    if '\x00' ∈ value line then .ok p else .ok { p with lastEventId := value line }
  else if field line = "retry".toList ∧ isNumber (value line) then
    .ok { p with heard := p.heard ++ [.retry (value line)] }
  else .ok p

/-- The lines that have ended, and the rest. A carriage return that ends the buffer ends a line
only if nothing can follow; a line feed after a carriage return ends no other line. -/
def completeLines (atEnd : Bool) : Text → List Text × Text
  | [] => ([], [])
  | c :: text =>
    let later := completeLines atEnd text
    if c = '\n' then ([] :: later.1, later.2)
    else if c = '\r' then
      if text = [] ∧ atEnd = false then ([], ['\r'])
      else if text.head? = some '\n' then later
      else ([] :: later.1, later.2)
    else
      match later.1 with
      | [] => ([], c :: later.2)
      | line :: lines => ((c :: line) :: lines, later.2)

def consumeCompleteLines (p : Parser) (buffer : Text) (atEnd : Bool) :
    Except (List Output) (Parser × Text) := do
  let cut := completeLines atEnd buffer
  let p ← cut.1.foldlM Parser.processLine p
  return (p, cut.2)

structure Reader where
  decoder : Decoder
  buffer : Text
  firstChunk : Bool
  parser : Parser
  deriving DecidableEq

def Reader.start : Reader := ⟨.start, [], true, .start⟩

def dropMark : Text → Text
  | [] => []
  | c :: text => if c = byteOrderMark then text else c :: text

/-- Text is put behind the buffer; the first text loses a mark at its start. -/
def appendText (firstChunk : Bool) (buffer text : Text) : Bool × Text :=
  if firstChunk = true ∧ buffer ++ text ≠ [] then (false, dropMark (buffer ++ text))
  else (firstChunk, buffer ++ text)

/-- One turn of the loop: a chunk is read. -/
def Reader.receive (r : Reader) (chunk : List UInt8) : Except (List Output) Reader := do
  let decoded := r.decoder.decode chunk
  let text := appendText r.firstChunk r.buffer decoded.2
  let consumed ← consumeCompleteLines r.parser text.2 false
  if maxEventBytes < utf8ByteLength consumed.2 then .error consumed.1.heard
  else return ⟨decoded.1, consumed.2, text.1, consumed.1⟩

def Reader.finish (r : Reader) : Except (List Output) (List Output) := do
  let consumed ← consumeCompleteLines r.parser (r.buffer ++ r.decoder.flush) true
  return consumed.1.heard

/-- The calls made: `ok` at the end of the stream, `error` when it is rejected for its size. -/
def codexMuxReadEventStream (chunks : List (List UInt8)) : Except (List Output) (List Output) := do
  let r ← chunks.foldlM Reader.receive .start
  r.finish

/-! ## Lines -/

theorem completeLines_lf (atEnd : Bool) (text : Text) : completeLines atEnd ('\n' :: text) =
    ([] :: (completeLines atEnd text).1, (completeLines atEnd text).2) := rfl

theorem completeLines_crlf (atEnd : Bool) (text : Text) :
    completeLines atEnd ('\r' :: '\n' :: text) = completeLines atEnd ('\n' :: text) := rfl

theorem completeLines_cr (atEnd : Bool) {c : Char} (text : Text) (h : c ≠ '\n') :
    completeLines atEnd ('\r' :: c :: text) =
      ([] :: (completeLines atEnd (c :: text)).1, (completeLines atEnd (c :: text)).2) := by
  have hne : ¬ (c :: text = [] ∧ atEnd = false) := fun h => List.cons_ne_nil _ _ h.1
  have hhead : (c :: text).head? ≠ some '\n' := fun he => h (Option.some.inj he)
  rw [completeLines.eq_def]
  simp only [if_neg hne, if_neg hhead]
  rfl

theorem completeLines_plain (atEnd : Bool) {c : Char} (text : Text) (hlf : c ≠ '\n') (hcr : c ≠ '\r') :
    completeLines atEnd (c :: text) = match (completeLines atEnd text).1 with
      | [] => ([], c :: (completeLines atEnd text).2)
      | line :: lines => ((c :: line) :: lines, (completeLines atEnd text).2) := by
  rw [completeLines]
  simp only [if_neg hlf, if_neg hcr]

theorem completeLines_append (atEnd : Bool) (a b : Text) : completeLines atEnd (a ++ b) =
    ((completeLines false a).1 ++ (completeLines atEnd ((completeLines false a).2 ++ b)).1,
      (completeLines atEnd ((completeLines false a).2 ++ b)).2) := by
  induction a with
  | nil => rfl
  | cons c a ih =>
    by_cases hlf : c = '\n'
    · rw [hlf, List.cons_append, completeLines_lf, completeLines_lf, ih]
      rfl
    by_cases hcr : c = '\r'
    · rw [hcr]
      cases a with
      | nil => rfl
      | cons d a =>
        by_cases hd : d = '\n'
        · rw [hd, List.cons_append, List.cons_append, completeLines_crlf, completeLines_crlf]
          rwa [hd] at ih
        · rw [List.cons_append, List.cons_append, completeLines_cr _ _ hd, completeLines_cr _ _ hd]
          rw [List.cons_append] at ih
          rw [ih]
          rfl
    · rw [List.cons_append, completeLines_plain _ _ hlf hcr, completeLines_plain _ _ hlf hcr, ih]
      cases hlines : (completeLines false a).1 with
      | nil =>
        simp only [List.nil_append, List.cons_append]
        rw [completeLines_plain _ _ hlf hcr]
      | cons line lines => rfl

/-! ## What was read, as a function of the bytes -/

def received (bytes : List UInt8) : Text := dropMark (Decoder.start.decode bytes).2

def lines (bytes : List UInt8) : List Text := (completeLines false (received bytes)).1

def unfinished (bytes : List UInt8) : Text := (completeLines false (received bytes)).2

def allLines (bytes : List UInt8) : List Text :=
  (completeLines true (received bytes ++ (Decoder.start.decode bytes).1.flush)).1

def Overlong (bytes : List UInt8) : Prop := maxEventBytes < utf8ByteLength (unfinished bytes)

instance (bytes : List UInt8) : Decidable (Overlong bytes) := inferInstanceAs (Decidable (_ < _))

theorem dropMark_append {a : Text} (b : Text) (h : a ≠ []) : dropMark (a ++ b) = dropMark a ++ b := by
  obtain ⟨c, a, rfl⟩ := List.exists_cons_of_ne_nil h
  rw [List.cons_append, dropMark, dropMark]
  split
  · rfl
  · rfl

def fresh (bytes chunk : List UInt8) : Text :=
  let text := ((Decoder.start.decode bytes).1.decode chunk).2
  if (Decoder.start.decode bytes).2 = [] then dropMark text else text

theorem received_append (bytes chunk : List UInt8) :
    received (bytes ++ chunk) = received bytes ++ fresh bytes chunk := by
  unfold received fresh
  rw [decode_append]
  by_cases h : (Decoder.start.decode bytes).2 = []
  · rw [h, if_pos rfl]
    rfl
  · rw [if_neg h]
    exact dropMark_append _ h

theorem lines_append (bytes chunk : List UInt8) : lines (bytes ++ chunk) =
    lines bytes ++ (completeLines false (unfinished bytes ++ fresh bytes chunk)).1 := by
  unfold lines
  rw [received_append, completeLines_append]
  rfl

theorem unfinished_append (bytes chunk : List UInt8) : unfinished (bytes ++ chunk) =
    (completeLines false (unfinished bytes ++ fresh bytes chunk)).2 := by
  unfold unfinished
  rw [received_append, completeLines_append]

theorem allLines_eq (bytes : List UInt8) : allLines bytes = lines bytes ++
    (completeLines true (unfinished bytes ++ (Decoder.start.decode bytes).1.flush)).1 := by
  unfold allLines
  rw [completeLines_append]
  rfl

def readerAt (bytes : List UInt8) (p : Parser) : Reader :=
  ⟨(Decoder.start.decode bytes).1, unfinished bytes, (Decoder.start.decode bytes).2 = [], p⟩

/-- The lines of the bytes are processed, and the text after them is measured. -/
def check (bytes : List UInt8) : Except (List Output) Parser := do
  let p ← (lines bytes).foldlM Parser.processLine .start
  if Overlong bytes then .error p.heard else return p

theorem unfinished_nil {bytes : List UInt8} (h : (Decoder.start.decode bytes).2 = []) :
    unfinished bytes = [] := by
  unfold unfinished received
  rw [h]
  rfl

theorem appendText_eq (bytes chunk : List UInt8) :
    appendText ((Decoder.start.decode bytes).2 = []) (unfinished bytes)
      ((Decoder.start.decode bytes).1.decode chunk).2 =
      (decide ((Decoder.start.decode (bytes ++ chunk)).2 = []), unfinished bytes ++ fresh bytes chunk) := by
  unfold appendText fresh
  rw [decode_append]
  set text := ((Decoder.start.decode bytes).1.decode chunk).2
  by_cases hnone : (Decoder.start.decode bytes).2 = []
  · rw [unfinished_nil hnone]
    by_cases ht : text = []
    · simp [hnone, ht, dropMark]
    · simp [hnone, ht]
  · simp [hnone]

theorem receive_readerAt {bytes : List UInt8} {p : Parser} (chunk : List UInt8)
    (h : (lines bytes).foldlM Parser.processLine .start = .ok p) :
    (readerAt bytes p).receive chunk = (check (bytes ++ chunk)).map (readerAt (bytes ++ chunk)) := by
  have hlines : (lines (bytes ++ chunk)).foldlM Parser.processLine .start =
      (completeLines false (unfinished bytes ++ fresh bytes chunk)).1.foldlM Parser.processLine p := by
    rw [lines_append, List.foldlM_append, h]
    rfl
  simp only [Reader.receive, consumeCompleteLines, check, Overlong, hlines, readerAt, appendText_eq,
    unfinished_append]
  cases (completeLines false (unfinished bytes ++ fresh bytes chunk)).1.foldlM Parser.processLine p with
  | error heard => rfl
  | ok q =>
    simp only [bind, Except.bind, pure, Except.pure]
    split
    · rfl
    · simp only [Except.map, readerAt, unfinished_append, decode_append]

/-- The lines that the end of the stream ends are processed too. -/
def total (bytes : List UInt8) : Except (List Output) (List Output) := do
  let _ ← check bytes
  let p ← (allLines bytes).foldlM Parser.processLine .start
  return p.heard

theorem check_ok {bytes : List UInt8} {p : Parser} (h : check bytes = .ok p) :
    (lines bytes).foldlM Parser.processLine .start = .ok p ∧ ¬ Overlong bytes := by
  unfold check at h
  cases hrun : (lines bytes).foldlM Parser.processLine .start with
  | error heard =>
    rw [hrun] at h
    cases h
  | ok q =>
    rw [hrun] at h
    simp only [bind, Except.bind, pure, Except.pure] at h
    split at h
    · cases h
    · rename_i hlong
      exact ⟨h, hlong⟩

theorem check_of_run {bytes : List UInt8} {p : Parser}
    (h : (lines bytes).foldlM Parser.processLine .start = .ok p) (hshort : ¬ Overlong bytes) :
    check bytes = .ok p := by
  rw [check, h]
  exact if_neg hshort

theorem finish_readerAt {bytes : List UInt8} {p : Parser} (h : check bytes = .ok p) :
    (readerAt bytes p).finish = total bytes := by
  have hlines : (allLines bytes).foldlM Parser.processLine .start =
      (completeLines true (unfinished bytes ++ (Decoder.start.decode bytes).1.flush)).1.foldlM
        Parser.processLine p := by
    rw [allLines_eq, List.foldlM_append, (check_ok h).1]
    rfl
  simp only [total, Reader.finish, consumeCompleteLines, readerAt, h, hlines]
  cases (completeLines true (unfinished bytes ++ (Decoder.start.decode bytes).1.flush)).1.foldlM
    Parser.processLine p with
  | error heard => rfl
  | ok q => rfl

def readOn (r : Reader) (chunks : List (List UInt8)) : Except (List Output) (List Output) := do
  let r ← chunks.foldlM Reader.receive r
  r.finish

theorem readOn_cons {bytes : List UInt8} {p : Parser} (chunk : List UInt8) (chunks : List (List UInt8))
    (h : check bytes = .ok p) : readOn (readerAt bytes p) (chunk :: chunks) =
      check (bytes ++ chunk) >>= fun q => readOn (readerAt (bytes ++ chunk) q) chunks := by
  rw [readOn, List.foldlM_cons, receive_readerAt chunk (check_ok h).1]
  cases check (bytes ++ chunk) with
  | error heard => rfl
  | ok q => rfl

theorem readOn_nil {bytes : List UInt8} {p : Parser} (h : check bytes = .ok p) :
    readOn (readerAt bytes p) [] = total bytes := finish_readerAt h

theorem read_eq (chunks : List (List UInt8)) :
    codexMuxReadEventStream chunks = readOn (readerAt [] .start) chunks := rfl

theorem check_nil : check [] = .ok .start := rfl

/-! ## What a line does, as a function of the lines before it -/

def openLines (ls : List Text) : List Text := ls.rtakeWhile (· ≠ [])

def valuesOf (name : Text) (ls : List Text) : List Text := (ls.filter (field · = name)).map value

def eventData (ls : List Text) : List Text := valuesOf "data".toList (openLines ls)

def eventType (ls : List Text) : Text := (valuesOf "event".toList (openLines ls)).getLast?.getD []

/-- The data of the last event has more bytes than an event may have. -/
def TooLarge (ls : List Text) : Prop := maxEventBytes < utf8ByteLength (joinLines (eventData ls))

def Speaks (ls : List Text) (line : Text) : Prop :=
  (line = [] ∧ eventData ls ≠ [] ∧ (eventType ls = [] ∨ eventType ls = messageType)) ∨
    (field line = "retry".toList ∧ isNumber (value line))

/-- After the lines `ls` an event gets too large before a line speaks. -/
def Hushed : List Text → List Text → Prop
  | _, [] => False
  | ls, line :: more => TooLarge (ls ++ [line]) ∨ ¬ Speaks ls line ∧ Hushed (ls ++ [line]) more

/-- After the lines `ls` no event gets too large and no line speaks. -/
def Quiet : List Text → List Text → Prop
  | _, [] => True
  | ls, line :: more => ¬ TooLarge (ls ++ [line]) ∧ ¬ Speaks ls line ∧ Quiet (ls ++ [line]) more

/-- The parser holds what is open of the lines, and none was refused. -/
structure Reflects (p : Parser) (ls : List Text) : Prop where
  data : p.dataLines = eventData ls
  bytes : p.eventDataBytes = utf8ByteLength (joinLines (eventData ls))
  type : p.eventType = eventType ls
  fits : ¬ TooLarge ls

theorem utf8ByteLength_append (a b : Text) :
    utf8ByteLength (a ++ b) = utf8ByteLength a + utf8ByteLength b := by
  simp only [utf8ByteLength, List.map_append, List.sum_append]

theorem joinLines_append (ls : List Text) (line : Text) : utf8ByteLength (joinLines (ls ++ [line])) =
    utf8ByteLength (joinLines ls) + utf8ByteLength line + if ls ≠ [] then 1 else 0 := by
  have hfeed : utf8ByteLength ['\n'] = 1 := rfl
  induction ls with
  | nil => simp [joinLines, utf8ByteLength]
  | cons l ls ih =>
    have hne : ls ++ [line] ≠ [] := by simp
    rw [if_pos (List.cons_ne_nil l ls), List.cons_append, joinLines, List.intercalate_cons_of_ne_nil hne,
      utf8ByteLength_append, utf8ByteLength_append, hfeed]
    change utf8ByteLength l + 1 + utf8ByteLength (joinLines (ls ++ [line])) = _
    rw [ih]
    by_cases hls : ls = []
    · rw [hls, if_neg (not_not.mpr rfl), joinLines, joinLines, List.intercalate_singleton]
      simp only [List.intercalate_nil, utf8ByteLength, List.map_nil, List.sum_nil]
      omega
    · rw [if_pos hls, joinLines, joinLines, List.intercalate_cons_of_ne_nil hls, utf8ByteLength_append,
        utf8ByteLength_append, hfeed]
      omega

theorem openLines_nil (ls : List Text) : openLines (ls ++ [[]]) = [] :=
  List.rtakeWhile_concat_neg _ _ _ (by simp)

theorem openLines_append (ls : List Text) {line : Text} (h : line ≠ []) :
    openLines (ls ++ [line]) = openLines ls ++ [line] :=
  List.rtakeWhile_concat_pos _ _ _ (by simpa using h)

theorem valuesOf_append (name : Text) (ls : List Text) (line : Text) : valuesOf name (ls ++ [line]) =
    valuesOf name ls ++ if field line = name then [value line] else [] := by
  unfold valuesOf
  rw [List.filter_append, List.map_append]
  by_cases h : field line = name
  · simp [h]
  · simp [h]

theorem eventData_append (ls : List Text) {line : Text} (h : line ≠ []) : eventData (ls ++ [line]) =
    eventData ls ++ if field line = "data".toList then [value line] else [] := by
  rw [eventData, openLines_append ls h, valuesOf_append]
  rfl

theorem eventType_append (ls : List Text) {line : Text} (h : line ≠ []) : eventType (ls ++ [line]) =
    if field line = "event".toList then value line else eventType ls := by
  rw [eventType, openLines_append ls h, valuesOf_append]
  by_cases he : field line = "event".toList
  · rw [if_pos he, if_pos he, List.getLast?_concat]
    rfl
  · rw [if_neg he, if_neg he, List.append_nil]
    rfl

theorem start_reflects : Reflects .start [] where
  data := rfl
  bytes := rfl
  type := rfl
  fits := by unfold TooLarge; decide

theorem dispatch_reflects {p : Parser} {ls : List Text} (h : Reflects p ls) :
    Reflects p.dispatch (ls ++ [[]]) ∧
      ∃ new, p.dispatch.heard = p.heard ++ new ∧ (new = [] ↔ ¬ Speaks ls []) := by
  have hdata : eventData (ls ++ [[]]) = [] := by
    rw [eventData, openLines_nil]
    rfl
  have htype : eventType (ls ++ [[]]) = [] := by
    rw [eventType, openLines_nil]
    rfl
  have hspeaks : Speaks ls [] ↔ p.dataLines ≠ [] ∧ (p.eventType = [] ∨ p.eventType = messageType) := by
    have hfield : field [] ≠ "retry".toList := by decide
    rw [Speaks, h.data, h.type]
    constructor
    · rintro (⟨-, hs⟩ | ⟨hf, -⟩)
      · exact hs
      · exact absurd hf hfield
    · exact fun hs => .inl ⟨rfl, hs⟩
  refine ⟨⟨hdata.symm, by rw [hdata]; rfl, htype.symm, ?_⟩, ?_⟩
  · rw [TooLarge, hdata]
    decide
  · unfold Parser.dispatch
    by_cases hs : Speaks ls []
    · exact ⟨_, if_pos (hspeaks.mp hs), by simp [hs]⟩
    · exact ⟨[], (if_neg (fun hp => hs (hspeaks.mpr hp))).trans (List.append_nil _).symm, by simp [hs]⟩

/-- What `processLine` does with a line that ends no event, read off the field of the line. -/
theorem processLine_field (p : Parser) {line : Text} (h : line ≠ []) : p.processLine line =
    if field line = "data".toList then
      if maxEventBytes < p.eventDataBytes + utf8ByteLength (value line) + (if p.dataLines ≠ [] then 1 else 0) then
        .error p.heard
      else .ok { p with
        dataLines := p.dataLines ++ [value line]
        eventDataBytes := p.eventDataBytes + utf8ByteLength (value line) + if p.dataLines ≠ [] then 1 else 0 }
    else if field line = "event".toList then .ok { p with eventType := value line }
    else if field line = "id".toList then
      if '\x00' ∈ value line then .ok p else .ok { p with lastEventId := value line }
    else if field line = "retry".toList ∧ isNumber (value line) then
      .ok { p with heard := p.heard ++ [.retry (value line)] }
    else .ok p := by
  rw [Parser.processLine, if_neg h]
  by_cases hcolon : line.head? = some ':'
  · obtain ⟨text, rfl⟩ : ∃ text, line = ':' :: text := List.head?_eq_some_iff.mp hcolon
    rfl
  · rw [if_neg hcolon]

theorem processLine_reflects {p : Parser} {ls : List Text} (line : Text) (h : Reflects p ls) :
    (TooLarge (ls ++ [line]) ∧ p.processLine line = .error p.heard) ∨
      (¬ TooLarge (ls ++ [line]) ∧ ∃ q new, p.processLine line = .ok q ∧ Reflects q (ls ++ [line]) ∧
        q.heard = p.heard ++ new ∧ (new = [] ↔ ¬ Speaks ls line)) := by
  by_cases hnil : line = []
  · obtain ⟨hq, new, hheard, hnew⟩ := dispatch_reflects h
    rw [hnil]
    exact .inr ⟨hq.fits, _, new, rfl, hq, hheard, hnew⟩
  have hdata := eventData_append ls hnil
  have htype := eventType_append ls hnil
  have hspeaks : Speaks ls line ↔ field line = "retry".toList ∧ isNumber (value line) := by
    simp [Speaks, hnil]
  rw [processLine_field p hnil, hspeaks]
  by_cases hf : field line = "data".toList
  · have hbytes : utf8ByteLength (joinLines (eventData (ls ++ [line]))) =
        p.eventDataBytes + utf8ByteLength (value line) + if p.dataLines ≠ [] then 1 else 0 := by
      rw [hdata, if_pos hf, joinLines_append, h.bytes, h.data]
    have hevent : field line ≠ "event".toList := by rw [hf]; decide
    have hretry : field line ≠ "retry".toList := by rw [hf]; decide
    rw [if_neg hevent] at htype
    rw [if_pos hf, TooLarge, hbytes]
    set bytes := p.eventDataBytes + utf8ByteLength (value line) + if p.dataLines ≠ [] then 1 else 0
    by_cases hlarge : maxEventBytes < bytes
    · rw [if_pos hlarge]
      exact .inl ⟨hlarge, rfl⟩
    · rw [if_neg hlarge]
      refine .inr ⟨hlarge, _, [], rfl, ⟨?_, hbytes.symm, by rw [htype, h.type], ?_⟩, (List.append_nil _).symm,
        iff_of_true rfl fun hs => hretry hs.1⟩
      · rw [hdata, if_pos hf, h.data]
      · rwa [TooLarge, hbytes]
  -- Any other line leaves the data of the event as it is.
  · rw [if_neg hf, List.append_nil] at hdata
    have hfits : ¬ TooLarge (ls ++ [line]) := by
      rw [TooLarge, hdata]
      exact h.fits
    have hsame : ∀ q : Parser, q.dataLines = p.dataLines → q.eventDataBytes = p.eventDataBytes →
        q.eventType = eventType (ls ++ [line]) → Reflects q (ls ++ [line]) :=
      fun q hd hb ht => ⟨by rw [hd, hdata, h.data], by rw [hb, hdata, h.bytes], ht, hfits⟩
    rw [if_neg hf]
    refine .inr ⟨hfits, ?_⟩
    by_cases hevent : field line = "event".toList
    · have hretry : field line ≠ "retry".toList := by rw [hevent]; decide
      rw [if_pos hevent] at htype ⊢
      exact ⟨_, [], rfl, hsame _ rfl rfl htype.symm, (List.append_nil _).symm, iff_of_true rfl fun hs => hretry hs.1⟩
    rw [if_neg hevent] at htype ⊢
    have hp : p.eventType = eventType (ls ++ [line]) := by rw [htype, h.type]
    by_cases hid : field line = "id".toList
    · have hretry : field line ≠ "retry".toList := by rw [hid]; decide
      rw [if_pos hid]
      split
      · exact ⟨_, [], rfl, hsame _ rfl rfl hp, (List.append_nil _).symm, iff_of_true rfl fun hs => hretry hs.1⟩
      · exact ⟨_, [], rfl, hsame _ rfl rfl hp, (List.append_nil _).symm, iff_of_true rfl fun hs => hretry hs.1⟩
    rw [if_neg hid]
    by_cases hretry : field line = "retry".toList ∧ isNumber (value line)
    · rw [if_pos hretry]
      exact ⟨_, _, rfl, hsame _ rfl rfl hp, rfl, by simp [hretry]⟩
    · rw [if_neg hretry]
      exact ⟨_, [], rfl, hsame _ rfl rfl hp, (List.append_nil _).symm, iff_of_true rfl hretry⟩

/-- The calls that were made, whether or not the lines were refused. -/
def callsOf : Except (List Output) Parser → List Output
  | .ok p => p.heard
  | .error heard => heard

theorem lines_heard {p : Parser} {ls : List Text} (more : List Text) (h : Reflects p ls) :
    p.heard <+: callsOf (more.foldlM Parser.processLine p) := by
  induction more generalizing p ls with
  | nil => exact List.prefix_refl _
  | cons line more ih =>
    rw [List.foldlM_cons]
    obtain ⟨-, hp⟩ | ⟨-, q, new, hp, hq, hheard, -⟩ := processLine_reflects line h
    · rw [hp]
      exact List.prefix_refl _
    · rw [hp]
      exact (List.prefix_append p.heard new).trans (hheard ▸ ih hq)

theorem lines_refused {p : Parser} {ls : List Text} (more : List Text) (h : Reflects p ls) :
    more.foldlM Parser.processLine p = .error p.heard ↔ Hushed ls more := by
  induction more generalizing p ls with
  | nil => exact iff_of_false (fun he => by cases he) id
  | cons line more ih =>
    rw [List.foldlM_cons, Hushed]
    obtain ⟨hlarge, hp⟩ | ⟨hfits, q, new, hp, hq, hheard, hnew⟩ := processLine_reflects line h
    · rw [hp]
      exact iff_of_true rfl (.inl hlarge)
    · rw [hp]
      change more.foldlM Parser.processLine q = .error p.heard ↔ _
      by_cases hs : Speaks ls line
      · have hnew' : new ≠ [] := fun he => hnew.mp he hs
        refine iff_of_false (fun he => ?_) (fun hor => hor.elim hfits (fun hand => hand.1 hs))
        have hlong := (lines_heard more hq).length_le
        rw [he, hheard, callsOf, List.length_append] at hlong
        exact hnew' (List.eq_nil_of_length_eq_zero (by omega))
      · rw [hnew.mpr hs, List.append_nil] at hheard
        rw [← hheard, ih hq]
        exact ⟨fun hh => .inr ⟨hs, hh⟩, fun hor => hor.elim (fun hl => absurd hl hfits) And.right⟩

theorem lines_quiet {p : Parser} {ls : List Text} (more : List Text) (h : Reflects p ls) :
    (∃ q, more.foldlM Parser.processLine p = .ok q ∧ q.heard = p.heard) ↔ Quiet ls more := by
  induction more generalizing p ls with
  | nil => exact iff_of_true ⟨p, rfl, rfl⟩ trivial
  | cons line more ih =>
    rw [List.foldlM_cons, Quiet]
    obtain ⟨hlarge, hp⟩ | ⟨hfits, q, new, hp, hq, hheard, hnew⟩ := processLine_reflects line h
    · rw [hp]
      exact iff_of_false (fun ⟨r, hr, _⟩ => by cases hr) (fun hand => hand.1 hlarge)
    · rw [hp]
      change (∃ r, more.foldlM Parser.processLine q = .ok r ∧ r.heard = p.heard) ↔ _
      by_cases hs : Speaks ls line
      · have hnew' : new ≠ [] := fun he => hnew.mp he hs
        refine iff_of_false (fun ⟨r, hr, hsame⟩ => ?_) (fun hand => hand.2.1 hs)
        have hlong := (lines_heard more hq).length_le
        rw [hr, callsOf, hsame, hheard, List.length_append] at hlong
        exact hnew' (List.eq_nil_of_length_eq_zero (by omega))
      · rw [hnew.mpr hs, List.append_nil] at hheard
        rw [← hheard, ih hq]
        exact ⟨fun hh => ⟨hfits, hs, hh⟩, fun hand => hand.2.2⟩

def Fits (ls : List Text) : Prop := ∀ a, a <+: ls → ¬ TooLarge a

theorem lines_reflects {p : Parser} {ls : List Text} (more : List Text) (h : Reflects p ls) :
    (∃ q, more.foldlM Parser.processLine p = .ok q ∧ Reflects q (ls ++ more)) ∨
      (∃ heard, more.foldlM Parser.processLine p = .error heard) ∧ ∃ a, a <+: more ∧ TooLarge (ls ++ a) := by
  induction more generalizing p ls with
  | nil => exact .inl ⟨p, rfl, (List.append_nil ls).symm ▸ h⟩
  | cons line more ih =>
    rw [List.foldlM_cons]
    obtain ⟨hlarge, hp⟩ | ⟨-, q, new, hp, hq, -, -⟩ := processLine_reflects line h
    · exact .inr ⟨⟨p.heard, by rw [hp]; rfl⟩, [line], ⟨more, rfl⟩, hlarge⟩
    · rw [hp]
      obtain ⟨r, hr, hreflects⟩ | ⟨hrefused, a, ha, hlarge⟩ := ih hq
      · exact .inl ⟨r, hr, by simpa using hreflects⟩
      · exact .inr ⟨hrefused, line :: a, List.cons_prefix_cons.mpr ⟨rfl, ha⟩, by simpa using hlarge⟩

theorem lines_fit {ls : List Text} (h : Fits ls) :
    ∃ p, ls.foldlM Parser.processLine .start = .ok p ∧ Reflects p ls := by
  obtain hok | ⟨-, a, ha, hlarge⟩ := lines_reflects ls start_reflects
  · exact hok
  · exact absurd hlarge (h a ha)

theorem fits_of_ok {ls : List Text} {p : Parser} (h : ls.foldlM Parser.processLine .start = .ok p) :
    Fits ls := by
  rintro a ⟨b, rfl⟩ hlarge
  obtain ⟨q, hq, hreflects⟩ | ⟨⟨heard, hrefused⟩, -⟩ := lines_reflects a start_reflects
  · exact hreflects.fits hlarge
  · rw [List.foldlM_append, hrefused] at h
    cases h

/-- The end of the stream gives what `p` has given and no more, by a rejection. -/
theorem total_refused {bytes chunk : List UInt8} {p : Parser}
    (hp : (lines bytes).foldlM Parser.processLine .start = .ok p) (h : Reflects p (lines bytes)) :
    total (bytes ++ chunk) = .error p.heard ↔
      Hushed (lines bytes) ((allLines (bytes ++ chunk)).drop (lines bytes).length) ∨
        Overlong (bytes ++ chunk) ∧ Quiet (lines bytes) ((lines (bytes ++ chunk)).drop (lines bytes).length) := by
  obtain ⟨more, hmore⟩ : ∃ more, lines (bytes ++ chunk) = lines bytes ++ more := ⟨_, lines_append _ _⟩
  obtain ⟨last, hlast⟩ : ∃ last, allLines (bytes ++ chunk) = lines bytes ++ (more ++ last) :=
    ⟨_, by rw [allLines_eq, hmore, List.append_assoc]⟩
  have hrun : (lines (bytes ++ chunk)).foldlM Parser.processLine .start =
      more.foldlM Parser.processLine p := by
    rw [hmore, List.foldlM_append, hp]
    rfl
  have hrunAll : (allLines (bytes ++ chunk)).foldlM Parser.processLine .start =
      (more ++ last).foldlM Parser.processLine p := by
    rw [hlast, List.foldlM_append, hp]
    rfl
  rw [hlast, List.drop_left, ← lines_refused _ h, hmore, List.drop_left, ← lines_quiet _ h]
  simp only [total, check, hrun, hrunAll]
  rw [List.foldlM_append]
  simp only [bind, Except.bind, pure, Except.pure]
  cases hq : more.foldlM Parser.processLine p with
  | error heard =>
    simp only [Except.error.injEq, reduceCtorEq, false_and, exists_false, and_false, or_false]
  | ok q =>
    have hq' : Reflects q (lines bytes ++ more) := by
      obtain ⟨r, hr, hreflects⟩ | ⟨⟨heard, hrefused⟩, -⟩ := lines_reflects more h
      · rw [hq] at hr
        cases hr
        exact hreflects
      · rw [hq] at hrefused
        cases hrefused
    have hless : p.heard <+: q.heard := by
      have := lines_heard more h
      rwa [hq] at this
    have hmost : ∀ heard, last.foldlM Parser.processLine q = .error heard → q.heard <+: heard := by
      intro heard he
      have := lines_heard last hq'
      rwa [he] at this
    by_cases hlong : Overlong (bytes ++ chunk)
    · simp only [hlong, if_true, Except.error.injEq, Except.ok.injEq, true_and, exists_eq_left']
      refine ⟨.inr, ?_⟩
      rintro (he | he)
      · exact (hmost _ he).eq_of_length_le hless.length_le
      · exact he
    · simp only [hlong, if_false, false_and, or_false]
      cases last.foldlM Parser.processLine q with
      | error heard => simp only [Except.error.injEq]
      | ok r => simp only [reduceCtorEq]

theorem read_whole (bytes : List UInt8) : codexMuxReadEventStream [bytes] = total bytes := by
  rw [read_eq, readOn_cons bytes [] check_nil, List.nil_append]
  cases h : check bytes with
  | error heard =>
    rw [total, h]
    rfl
  | ok p => exact readOn_nil h

theorem read_overlong {bytes : List UInt8} {p : Parser} (chunks : List (List UInt8))
    (hp : (lines bytes).foldlM Parser.processLine .start = .ok p) (h : Overlong bytes) :
    codexMuxReadEventStream (bytes :: chunks) = .error p.heard := by
  have hcheck : check bytes = .error p.heard := by
    rw [check, hp]
    exact if_pos h
  rw [read_eq, readOn_cons bytes chunks check_nil, List.nil_append, hcheck]
  rfl

/-- Wherever the bytes leave an overlong line, nothing follows but a rejection: no later line
speaks, and an event gets too large or the stream ends in an overlong line. -/
def Steady (bytes : List UInt8) : Prop :=
  ∀ p, p <+: bytes → Overlong p → Fits (lines p) →
    Hushed (lines p) ((allLines bytes).drop (lines p).length) ∨
      Overlong bytes ∧ Quiet (lines p) ((lines bytes).drop (lines p).length)

theorem total_of_error {bytes chunk : List UInt8} {heard : List Output}
    (h : (lines bytes).foldlM Parser.processLine .start = .error heard) :
    total (bytes ++ chunk) = .error heard := by
  rw [total, check, lines_append, List.foldlM_append, h]
  rfl

theorem readOn_steady {bytes : List UInt8} {p : Parser} (chunks : List (List UInt8)) (h : check bytes = .ok p)
    (hsteady : Steady (bytes ++ chunks.flatten)) :
    readOn (readerAt bytes p) chunks = total (bytes ++ chunks.flatten) := by
  induction chunks generalizing bytes p with
  | nil =>
    rw [List.flatten_nil, List.append_nil]
    exact readOn_nil h
  | cons chunk chunks ih =>
    rw [readOn_cons chunk chunks h]
    rw [List.flatten_cons, ← List.append_assoc] at hsteady ⊢
    cases hrun : (lines (bytes ++ chunk)).foldlM Parser.processLine .start with
    | error heard =>
      rw [check, hrun, total_of_error hrun]
      rfl
    | ok q =>
      by_cases hlong : Overlong (bytes ++ chunk)
      · have hfits := fits_of_ok hrun
        obtain ⟨r, hr, hreflects⟩ := lines_fit hfits
        cases hr.symm.trans hrun
        rw [(total_refused hrun hreflects).mpr (hsteady _ (List.prefix_append _ _) hlong hfits), check, hrun]
        exact congrArg (· >>= _) (if_pos hlong)
      · have hcheck := check_of_run hrun hlong
        rw [hcheck]
        exact ih hcheck hsteady

theorem read_chunks_iff (bytes : List UInt8) :
    (∀ cs cs' : List (List UInt8), cs.flatten = bytes → cs'.flatten = bytes →
      codexMuxReadEventStream cs = codexMuxReadEventStream cs') ↔ Steady bytes := by
  constructor
  · rintro h p ⟨rest, rfl⟩ hlong hfits
    obtain ⟨q, hq, hreflects⟩ := lines_fit hfits
    have hcut : codexMuxReadEventStream [p, rest] = .error q.heard := read_overlong [rest] hq hlong
    have hwhole : codexMuxReadEventStream [p ++ rest] = .error q.heard :=
      (h _ _ (by simp) (by simp)).trans hcut
    exact (total_refused hq hreflects).mp ((read_whole _).symm.trans hwhole)
  · rintro h cs cs' rfl hcs'
    have hread : ∀ chunks : List (List UInt8), chunks.flatten = cs.flatten →
        codexMuxReadEventStream chunks = total cs.flatten := by
      intro chunks hflat
      have := readOn_steady chunks check_nil (by rwa [List.nil_append, hflat])
      rwa [List.nil_append, hflat] at this
    rw [hread cs rfl, hread cs' hcs']

/-! ## A comment that is longer than an event may be -/

def ascii (bytes : List UInt8) : Text := bytes.map fun b => Char.ofNat b.toNat

theorem ascii_append (a b : List UInt8) : ascii (a ++ b) = ascii a ++ ascii b := List.map_append

theorem decode_ascii {bytes : List UInt8} (h : ∀ b ∈ bytes, b ≤ 0x7F) :
    Decoder.start.decode bytes = (⟨.start, !bytes.isEmpty⟩, ascii bytes) := by
  have hmark : ∀ n < 128, Char.ofNat n ≠ byteOrderMark := by decide
  have htext : Utf8.start.feed bytes = (.start, ascii bytes) := feed_ascii h
  cases bytes with
  | nil => rfl
  | cons b bytes =>
    have hb : b.toNat < 128 := Nat.lt_succ_of_le (h b List.mem_cons_self)
    have hserial : serialize false (ascii (b :: bytes)) = (true, ascii (b :: bytes)) := by
      change (true, if _ then _ else _) = _
      rw [if_neg (fun hand => hmark _ hb hand.2)]
      rfl
    simp only [Decoder.decode, Decoder.start, htext, hserial]
    rfl

theorem received_ascii {bytes : List UInt8} (h : ∀ b ∈ bytes, b ≤ 0x7F) : received bytes = ascii bytes := by
  have hmark : ∀ n < 128, Char.ofNat n ≠ byteOrderMark := by decide
  rw [received, decode_ascii h]
  cases bytes with
  | nil => rfl
  | cons b bytes => exact if_neg (hmark _ (Nat.lt_succ_of_le (h b List.mem_cons_self)))

theorem completeLines_none (atEnd : Bool) {text : Text} (h : ∀ c ∈ text, c ≠ '\n' ∧ c ≠ '\r') :
    completeLines atEnd text = ([], text) := by
  induction text with
  | nil => rfl
  | cons c text ih =>
    obtain ⟨hc, htext⟩ := List.forall_mem_cons.mp h
    rw [completeLines_plain _ _ hc.1 hc.2, ih htext]

theorem completeLines_line (atEnd : Bool) {text : Text} (rest : Text) (h : ∀ c ∈ text, c ≠ '\n' ∧ c ≠ '\r') :
    completeLines atEnd (text ++ '\n' :: rest) =
      (text :: (completeLines atEnd rest).1, (completeLines atEnd rest).2) := by
  induction text with
  | nil => rfl
  | cons c text ih =>
    obtain ⟨hc, htext⟩ := List.forall_mem_cons.mp h
    rw [List.cons_append, completeLines_plain _ _ hc.1 hc.2, ih htext]

theorem length_le_utf8ByteLength (text : Text) : text.length ≤ utf8ByteLength text := by
  induction text with
  | nil => exact le_refl 0
  | cons c text ih =>
    have hc := c.utf8Size_pos
    have hcons : utf8ByteLength (c :: text) = c.utf8Size + utf8ByteLength text := rfl
    rw [List.length_cons, hcons]
    omega

def comment : List UInt8 := 0x3A :: List.replicate maxEventBytes 0x61

def commentText : Text := ':' :: List.replicate maxEventBytes 'a'

/-- `data: x` and an empty line -/
def shortEvent : List UInt8 := [0x0A, 0x64, 0x61, 0x74, 0x61, 0x3A, 0x20, 0x78, 0x0A, 0x0A]

theorem comment_ascii : ∀ b ∈ comment, b ≤ 0x7F := by
  refine List.forall_mem_cons.mpr ⟨by decide, fun b hb => ?_⟩
  rw [List.eq_of_mem_replicate hb]
  decide

theorem ascii_comment : ascii comment = commentText := by
  rw [ascii, comment, List.map_cons, List.map_replicate]
  rfl

theorem commentText_plain : ∀ c ∈ commentText, c ≠ '\n' ∧ c ≠ '\r' := by
  refine List.forall_mem_cons.mpr ⟨by decide, fun c hc => ?_⟩
  rw [List.eq_of_mem_replicate hc]
  decide

theorem comment_overlong : Overlong comment := by
  have hlength : commentText.length = maxEventBytes + 1 := by
    rw [commentText, List.length_cons, List.length_replicate]
  have hbytes := length_le_utf8ByteLength commentText
  rw [Overlong, unfinished, received_ascii comment_ascii, ascii_comment,
    completeLines_none false commentText_plain]
  exact lt_of_lt_of_le (by omega) hbytes

theorem read_comment_cut : codexMuxReadEventStream [comment, shortEvent] = .error [] := by
  refine read_overlong (p := .start) [shortEvent] ?_ comment_overlong
  rw [lines, received_ascii comment_ascii, ascii_comment, completeLines_none false commentText_plain,
    List.foldlM_nil]
  rfl

theorem stream_ascii : ∀ b ∈ comment ++ shortEvent, b ≤ 0x7F := by
  intro b hb
  obtain hb | hb := List.mem_append.mp hb
  · exact comment_ascii b hb
  · exact (by decide +kernel : ∀ b ∈ shortEvent, b ≤ 0x7F) b hb

theorem received_stream : received (comment ++ shortEvent) = commentText ++ '\n' :: "data: x\n\n".toList := by
  have htail : ascii shortEvent = '\n' :: "data: x\n\n".toList := rfl
  rw [received_ascii stream_ascii, ascii_append, ascii_comment, htail]

theorem flush_stream : (Decoder.start.decode (comment ++ shortEvent)).1.flush = [] := by
  rw [decode_ascii stream_ascii]
  exact if_pos rfl

theorem completeLines_stream (atEnd : Bool) :
    completeLines atEnd (commentText ++ '\n' :: "data: x\n\n".toList) =
      ([commentText, "data: x".toList, []], []) := by
  have hevent : completeLines atEnd "data: x\n\n".toList = (["data: x".toList, []], []) := by
    cases atEnd
    · rfl
    · rfl
  rw [completeLines_line atEnd _ commentText_plain, hevent]

theorem processLine_stream : ([commentText, "data: x".toList, []] : List Text).foldlM Parser.processLine .start =
    .ok ⟨[], 0, [], [], [.message ['x'] [] messageType]⟩ := by
  have hcomment : Parser.start.processLine commentText = .ok .start := by
    rw [commentText, Parser.processLine, if_neg (List.cons_ne_nil _ _), if_pos (List.head?_cons)]
  rw [List.foldlM_cons, hcomment]
  rfl

theorem unfinished_stream : unfinished (comment ++ shortEvent) = [] := by
  rw [unfinished, received_stream, completeLines_stream]

theorem stream_short : ¬ Overlong (comment ++ shortEvent) := by
  rw [Overlong, unfinished_stream]
  exact Nat.not_lt_zero _

theorem check_stream : check (comment ++ shortEvent) = .ok ⟨[], 0, [], [], [.message ['x'] [] messageType]⟩ := by
  refine check_of_run ?_ stream_short
  rw [lines, received_stream, completeLines_stream, processLine_stream]

theorem read_comment_whole :
    codexMuxReadEventStream [comment ++ shortEvent] = .ok [.message ['x'] [] messageType] := by
  rw [read_whole, total, check_stream, allLines, flush_stream, received_stream, List.append_nil,
    completeLines_stream, processLine_stream]
  rfl

theorem comment_chunks : ¬ ∀ (bytes : List UInt8) (cs cs' : List (List UInt8)), cs.flatten = bytes →
    cs'.flatten = bytes → codexMuxReadEventStream cs = codexMuxReadEventStream cs' := by
  intro h
  have := h (comment ++ shortEvent) [comment ++ shortEvent] [comment, shortEvent] (by simp) (by simp)
  rw [read_comment_whole, read_comment_cut] at this
  cases this

end SubscriptionRouter.EventStream
