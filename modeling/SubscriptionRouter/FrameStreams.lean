import Mathlib
import SubscriptionRouter.ChromeBridge
import SubscriptionRouter.Frames
import SubscriptionRouter.JsonRoundTrip

set_option autoImplicit false

/-!
# Frames of a stream

`ReadFrame` takes a frame from a reader, which gives its bytes in pieces of any size and ends
anywhere, and `WriteFrame` puts one behind what was written. Each checks the size for itself.
-/
namespace SubscriptionRouter.FrameStreams
open ChromeBridge (maxMessageSize)
open Frames GoText JsonText JsonRoundTrip

variable {E : Type}

/-! ## Readers -/

inductive IoError (E : Type) where
  | eof
  | unexpectedEOF
  | other (e : E)
  deriving DecidableEq

/-- What single reads have to give, and the error behind it; `none` is the end of the input. -/
structure Reader (E : Type) where
  pieces : List (List UInt8)
  error : Option E
  deriving DecidableEq

def Reader.bytes (r : Reader E) : List UInt8 := r.pieces.flatten

/-- The error of a reader that ends too early, after something was read or before. -/
def shortError (error : Option E) (started : Bool) : IoError E :=
  match error with
  | some e => .other e
  | none => if started then .unexpectedEOF else .eof

/-- `io.ReadFull`: reads until `n` more bytes have come. -/
def readFull (error : Option E) (started : Bool) : ℕ → List (List UInt8) →
    Except (IoError E) (List UInt8 × List (List UInt8))
  | 0, pieces => .ok ([], pieces)
  | _ + 1, [] => .error (shortError error started)
  | n + 1, piece :: pieces =>
    if n + 1 < piece.length then .ok (piece.take (n + 1), piece.drop (n + 1) :: pieces)
    else (readFull error (started || piece ≠ []) (n + 1 - piece.length) pieces).map fun read =>
      (piece ++ read.1, read.2)

def Reader.readFull (r : Reader E) (n : ℕ) : Except (IoError E) (List UInt8 × Reader E) :=
  (FrameStreams.readFull r.error false n r.pieces).map fun read => (read.1, { r with pieces := read.2 })

inductive ReadError (E : Type) where
  | header (e : IoError E)
  | empty
  | tooLong (size : ℕ)
  | payload (e : IoError E)
  deriving DecidableEq

/-- `ReadFrame` -/
def readFrame (r : Reader E) : Except (ReadError E) (List UInt8 × Reader E) :=
  match r.readFull 4 with
  | .error e => .error (.header e)
  | .ok (header, r) =>
    let size := ofLittleEndian header
    if size = 0 then .error .empty
    else if maxMessageSize < size then .error (.tooLong size)
    else match r.readFull size with
      | .error e => .error (.payload e)
      | .ok read => .ok read

/-! ## Writers -/

inductive WriteError where
  | encode
  | size (n : ℕ)
  deriving DecidableEq

/-- `json.Marshal`, which refuses a number that is none. -/
def jsonMarshal (value : Json) : Option GoString := if wellNumbered value then some (marshal value) else none

/-- `WriteFrame` behind its encoder, on what has been written; the frame is written as a whole. -/
def writePayload (written payload : List UInt8) : Option WriteError × List UInt8 :=
  if payload.length = 0 ∨ maxMessageSize < payload.length then (some (.size payload.length), written)
  else
    let header := littleEndian payload.length
    let buffer := [] ++ header
    let buffer := buffer ++ payload
    (none, written ++ buffer)

/-- `WriteFrame` -/
def writeFrame (written : List UInt8) (value : Json) : Option WriteError × List UInt8 :=
  match jsonMarshal value with
  | none => (some .encode, written)
  | some payload => writePayload written payload

/-! ## What a reader gives -/

theorem readFull_ok (error : Option E) (started : Bool) {n : ℕ} {pieces : List (List UInt8)}
    (h : n ≤ pieces.flatten.length) : ∃ rest,
      readFull error started n pieces = .ok (pieces.flatten.take n, rest) ∧
        rest.flatten = pieces.flatten.drop n := by
  induction pieces generalizing started n with
  | nil =>
    cases n with
    | zero => exact ⟨[], rfl, rfl⟩
    | succ n => exact absurd h (Nat.not_succ_le_zero n)
  | cons piece pieces ih =>
    cases n with
    | zero => exact ⟨piece :: pieces, rfl, rfl⟩
    | succ n =>
      rw [List.flatten_cons] at h ⊢
      rw [List.length_append] at h
      rw [readFull]
      by_cases hshort : n + 1 < piece.length
      · rw [if_pos hshort, List.take_append_of_le_length hshort.le, List.drop_append_of_le_length hshort.le]
        exact ⟨_, rfl, rfl⟩
      · obtain ⟨rest, hread, hrest⟩ := ih (started || piece ≠ []) (n := n + 1 - piece.length) (by omega)
        have htake : piece.take (n + 1) = piece := List.take_of_length_le (by omega)
        have hdrop : piece.drop (n + 1) = [] := List.drop_eq_nil_of_le (by omega)
        rw [if_neg hshort, hread, List.take_append, List.drop_append, htake, hdrop, ← hrest]
        exact ⟨rest, rfl, rfl⟩

theorem readFull_short (error : Option E) (started : Bool) {n : ℕ} {pieces : List (List UInt8)}
    (h : pieces.flatten.length < n) :
    readFull error started n pieces = .error (shortError error (started || pieces.flatten ≠ [])) := by
  induction pieces generalizing started n with
  | nil =>
    obtain ⟨n, rfl⟩ := Nat.exists_eq_succ_of_ne_zero (Nat.ne_of_gt h)
    simp [readFull]
  | cons piece pieces ih =>
    rw [List.flatten_cons, List.length_append] at h
    obtain ⟨n, rfl⟩ := Nat.exists_eq_succ_of_ne_zero (Nat.ne_of_gt (Nat.zero_lt_of_lt h))
    rw [readFull, if_neg (by omega), ih (started || piece ≠ []) (by omega), List.flatten_cons]
    have hstarted : (started || decide (piece ≠ []) || decide (pieces.flatten ≠ [])) =
        (started || decide (piece ++ pieces.flatten ≠ [])) := by
      by_cases hpiece : piece = []
      · simp [hpiece]
      · simp [hpiece]
    rw [hstarted]
    rfl

variable {r s : Reader E} {payload : List UInt8}

theorem Reader.readFull_ok {n : ℕ} (h : n ≤ r.bytes.length) : ∃ s,
    r.readFull n = .ok (r.bytes.take n, s) ∧ s.bytes = r.bytes.drop n ∧ s.error = r.error := by
  obtain ⟨rest, hread, hrest⟩ := FrameStreams.readFull_ok r.error false h
  exact ⟨{ r with pieces := rest }, by rw [Reader.readFull, hread]; rfl, hrest, rfl⟩

theorem Reader.readFull_short {n : ℕ} (h : r.bytes.length < n) :
    r.readFull n = .error (shortError r.error (r.bytes ≠ [])) := by
  rw [Reader.readFull, FrameStreams.readFull_short r.error false h]
  rfl

/-! ## Frames -/

/-- The sizes that a frame may not have. -/
def Refused (size : ℕ) : Prop := size = 0 ∨ maxMessageSize < size

/-- What `ReadFrame` does, by the bytes that are left. -/
theorem readFrame_short (h : r.bytes.length < 4) :
    readFrame r = .error (.header (shortError r.error (r.bytes ≠ []))) := by
  rw [readFrame, Reader.readFull_short h]

theorem readFrame_refused (h : 4 ≤ r.bytes.length) (hsize : Refused (ofLittleEndian (r.bytes.take 4))) :
    readFrame r = .error .empty ∨ readFrame r = .error (.tooLong (ofLittleEndian (r.bytes.take 4))) := by
  obtain ⟨s, hread, -, -⟩ := Reader.readFull_ok h
  rw [readFrame, hread]
  dsimp only
  split
  · exact .inl rfl
  · rename_i hzero
    rw [if_pos (hsize.resolve_left hzero)]
    exact .inr rfl

theorem readFrame_truncated (h : 4 ≤ r.bytes.length) (hsize : ¬ Refused (ofLittleEndian (r.bytes.take 4)))
    (hbody : r.bytes.length < 4 + ofLittleEndian (r.bytes.take 4)) :
    readFrame r = .error (.payload (shortError r.error (r.bytes.drop 4 ≠ []))) := by
  obtain ⟨s, hread, hrest, herror⟩ := Reader.readFull_ok h
  obtain ⟨hzero, hlong⟩ := not_or.mp hsize
  have hshort : s.bytes.length < ofLittleEndian (r.bytes.take 4) := by
    rw [hrest, List.length_drop]
    omega
  rw [readFrame, hread]
  dsimp only
  rw [if_neg hzero, if_neg hlong, Reader.readFull_short hshort, hrest, herror]

theorem readFrame_ok (h : 4 ≤ r.bytes.length) (hsize : ¬ Refused (ofLittleEndian (r.bytes.take 4)))
    (hbody : 4 + ofLittleEndian (r.bytes.take 4) ≤ r.bytes.length) : ∃ s,
    readFrame r = .ok ((r.bytes.drop 4).take (ofLittleEndian (r.bytes.take 4)), s) ∧
      s.bytes = r.bytes.drop (4 + ofLittleEndian (r.bytes.take 4)) ∧ s.error = r.error := by
  obtain ⟨s, hread, hrest, herror⟩ := Reader.readFull_ok h
  obtain ⟨hzero, hlong⟩ := not_or.mp hsize
  have hlength : ofLittleEndian (r.bytes.take 4) ≤ s.bytes.length := by
    rw [hrest, List.length_drop]
    omega
  obtain ⟨u, hread', hrest', herror'⟩ := Reader.readFull_ok hlength
  refine ⟨u, ?_, by rw [hrest', hrest, List.drop_drop], herror'.trans herror⟩
  rw [readFrame, hread]
  dsimp only
  rw [if_neg hzero, if_neg hlong, hread', hrest]

/-- A frame that is read is a length that is allowed and as many bytes, and nothing else was taken from
the reader. -/
theorem readFrame_takes (hread : readFrame r = .ok (payload, s)) : ∃ header, header.length = 4 ∧
    ofLittleEndian header = payload.length ∧ ¬ Refused payload.length ∧
    r.bytes = header ++ payload ++ s.bytes ∧ s.error = r.error := by
  by_cases h : 4 ≤ r.bytes.length
  swap
  · rw [readFrame_short (by omega)] at hread
    cases hread
  by_cases hsize : Refused (ofLittleEndian (r.bytes.take 4))
  · obtain herror | herror := readFrame_refused h hsize
    · rw [herror] at hread
      cases hread
    · rw [herror] at hread
      cases hread
  by_cases hbody : 4 + ofLittleEndian (r.bytes.take 4) ≤ r.bytes.length
  swap
  · rw [readFrame_truncated h hsize (by omega)] at hread
    cases hread
  obtain ⟨u, hok, hrest, herror⟩ := readFrame_ok h hsize hbody
  cases hok.symm.trans hread
  have hlength : ((r.bytes.drop 4).take (ofLittleEndian (r.bytes.take 4))).length =
      ofLittleEndian (r.bytes.take 4) := by
    rw [List.length_take, List.length_drop]
    omega
  refine ⟨r.bytes.take 4, by rw [List.length_take]; omega, hlength.symm, by rwa [hlength], ?_, herror⟩
  rw [hrest, ← List.drop_drop, List.append_assoc, List.take_append_drop, List.take_append_drop]

theorem readFrame_shorter (h : readFrame r = .ok (payload, s)) : s.bytes.length < r.bytes.length := by
  obtain ⟨header, hheader, -, -, hbytes, -⟩ := readFrame_takes h
  rw [hbytes, List.length_append, List.length_append]
  omega

/-- The frames up to the first error. -/
def readFrames (r : Reader E) : List (List UInt8) × ReadError E :=
  match _h : readFrame r with
  | .error e => ([], e)
  | .ok (payload, s) =>
    let later := readFrames s
    (payload :: later.1, later.2)
  termination_by r.bytes.length
  decreasing_by exact readFrame_shorter _h

theorem readFrames_error {e : ReadError E} (h : readFrame r = .error e) : readFrames r = ([], e) := by
  rw [readFrames]
  split
  · rename_i h'
    cases h.symm.trans h'
    rfl
  · rename_i h'
    cases h.symm.trans h'

theorem readFrames_ok (h : readFrame r = .ok (payload, s)) :
    readFrames r = (payload :: (readFrames s).1, (readFrames s).2) := by
  rw [readFrames]
  split
  · rename_i h'
    cases h.symm.trans h'
  · rename_i h'
    cases h.symm.trans h'
    rfl

/-- A length in four bytes, and a payload that may have it. -/
theorem readFrame_header {header rest : List UInt8} (hheader : header.length = 4)
    (hsize : ofLittleEndian header = payload.length) (hbytes : r.bytes = header ++ payload ++ rest) :
    (Refused payload.length ∧ ∃ e, readFrame r = .error e) ∨
      (¬ Refused payload.length ∧ ∃ s, readFrame r = .ok (payload, s) ∧ s.bytes = rest ∧ s.error = r.error) := by
  have htake : r.bytes.take 4 = header := by
    rw [hbytes, List.append_assoc]
    exact List.take_left' hheader
  have hlength : r.bytes.length = 4 + payload.length + rest.length := by
    rw [hbytes, List.length_append, List.length_append, hheader]
  by_cases hrefused : Refused payload.length
  · refine .inl ⟨hrefused, ?_⟩
    obtain herror | herror := readFrame_refused (r := r) (by omega) (by rwa [htake, hsize])
    · exact ⟨_, herror⟩
    · exact ⟨_, herror⟩
  · obtain ⟨s, hread, hrest, herror⟩ := readFrame_ok (r := r) (by omega) (by rwa [htake, hsize])
      (by rw [htake, hsize]; omega)
    have hdrop : r.bytes.drop 4 = payload ++ rest := by
      rw [hbytes, List.append_assoc]
      exact List.drop_left' hheader
    rw [htake, hsize, hdrop, List.take_left' rfl] at hread
    rw [htake, hsize, ← List.drop_drop, hdrop, List.drop_left' rfl] at hrest
    exact .inr ⟨hrefused, s, hread, hrest, herror⟩

/-- The frames of the values, behind what was written; a value that is refused leaves nothing. -/
def writeFrames (written : List UInt8) (values : List Json) : List UInt8 :=
  values.foldl (fun written value => (writeFrame written value).2) written

theorem writePayload_refused (written : List UInt8) (h : Refused payload.length) :
    writePayload written payload = (some (.size payload.length), written) := if_pos h

theorem writePayload_ok (written : List UInt8) (h : ¬ Refused payload.length) :
    writePayload written payload = (none, written ++ frame payload) := if_neg h

theorem marshal_ne_nil {value : Json} (h : wellNumbered value = true) : marshal value ≠ [] := by
  have hhead : ∀ (mark : String) (t : Text), lit mark ≠ [] → (chars mark ++ t).flatten ≠ [] := by
    intro mark t hmark hnil
    rw [List.flatten_append, List.append_eq_nil_iff] at hnil
    refine hmark ?_
    have hflatten : (chars mark).flatten = lit mark := by
      rw [chars, ← List.flatMap_def, List.flatMap_singleton']
    exact hflatten.symm.trans hnil.1
  cases value with
  | null => decide
  | bool b => cases b <;> decide
  | number literal =>
    have hflatten : marshal (.number literal) = literal := by
      rw [marshal, render, ← List.flatMap_def, List.flatMap_singleton']
    rw [hflatten]
    exact (isNumberUnit_validNumber h).1
  | string text =>
    rw [marshal, render, quote, List.append_assoc]
    exact hhead "\"" _ (by decide)
  | array values =>
    cases values with
    | nil => decide
    | cons value values =>
      rw [marshal, render, List.append_assoc, List.append_assoc]
      exact hhead "[" _ (by decide)
  | object members =>
    cases members with
    | nil => decide
    | cons member members =>
      obtain ⟨name, value⟩ := member
      rw [marshal, render]
      simp only [List.append_assoc]
      exact hhead "\x7b" _ (by decide)

theorem jsonMarshal_ne_nil {value : Json} (h : jsonMarshal value = some payload) : payload ≠ [] := by
  unfold jsonMarshal at h
  split at h
  · rename_i hvalue
    cases h
    exact marshal_ne_nil hvalue
  · cases h

theorem readFrame_frame {rest : List UInt8} (h : ¬ Refused payload.length) (hbytes : r.bytes = frame payload ++ rest) :
    ∃ s, readFrame r = .ok (payload, s) ∧ s.bytes = rest ∧ s.error = r.error := by
  have hsize : ofLittleEndian (littleEndian payload.length) = payload.length := by
    refine ofLittleEndian_littleEndian ?_
    have hmax : payload.length ≤ maxMessageSize := by
      by_contra hlong
      exact h (.inr (by omega))
    exact lt_of_le_of_lt hmax (by decide)
  obtain ⟨hrefused, -⟩ | ⟨-, hok⟩ := readFrame_header (r := r) rfl hsize hbytes
  · exact absurd hrefused h
  · exact hok

theorem readFrames_frames {payloads : List (List UInt8)} (h : ∀ payload ∈ payloads, ¬ Refused payload.length)
    (hbytes : r.bytes = payloads.flatMap frame) (hend : r.error = none) :
    readFrames r = (payloads, .header .eof) := by
  induction payloads generalizing r with
  | nil =>
    have hnil : r.bytes = [] := hbytes
    have herror := readFrame_short (r := r) (by rw [hnil]; decide)
    rw [readFrames_error herror, hnil, hend]
    rfl
  | cons payload payloads ih =>
    obtain ⟨hfirst, hrest⟩ := List.forall_mem_cons.mp h
    obtain ⟨s, hread, hs, herror⟩ := readFrame_frame hfirst hbytes
    rw [readFrames_ok hread, ih hrest hs (herror.trans hend)]

theorem writeFrames_frames {values : List Json} {payloads : List (List UInt8)} (written : List UInt8)
    (hencode : values.map jsonMarshal = payloads.map some) (h : ∀ payload ∈ payloads, ¬ Refused payload.length) :
    writeFrames written values = written ++ payloads.flatMap frame := by
  induction values generalizing written payloads with
  | nil =>
    obtain rfl := List.map_eq_nil_iff.mp hencode.symm
    exact (List.append_nil written).symm
  | cons value values ih =>
    cases payloads with
    | nil => cases hencode
    | cons payload payloads =>
      obtain ⟨hvalue, hvalues⟩ := List.cons.inj hencode
      obtain ⟨hfirst, hrest⟩ := List.forall_mem_cons.mp h
      have hwrite : (writeFrame written value).2 = written ++ frame payload := by
        rw [writeFrame, hvalue]
        exact congrArg Prod.snd (writePayload_ok written hfirst)
      rw [writeFrames, List.foldl_cons, hwrite]
      exact (ih (written ++ frame payload) hvalues hrest).trans (List.append_assoc _ _ _)

theorem not_refused_of_encoded {values : List Json} {payloads : List (List UInt8)}
    (hencode : values.map jsonMarshal = payloads.map some) (h : ∀ payload ∈ payloads, payload.length ≤ maxMessageSize) :
    ∀ payload ∈ payloads, ¬ Refused payload.length := by
  intro payload hmem hrefused
  have hvalue : some payload ∈ values.map jsonMarshal := hencode ▸ List.mem_map_of_mem hmem
  obtain ⟨value, -, hvalue⟩ := List.mem_map.mp hvalue
  obtain hzero | hlong := hrefused
  · exact jsonMarshal_ne_nil hvalue (List.length_eq_zero_iff.mp hzero)
  · exact absurd (h payload hmem) (by omega)

/-- What is written is read back, to the end of the file; a frame is read whole or not at all; the
reader and the writer refuse the same sizes; and what is refused leaves nothing behind. -/
theorem frames_round_trip :
    (∀ (values : List Json) (payloads : List (List UInt8)) (r : Reader E),
      values.map jsonMarshal = payloads.map some → (∀ payload ∈ payloads, payload.length ≤ maxMessageSize) →
      r.bytes = writeFrames [] values → r.error = none → readFrames r = (payloads, .header .eof)) ∧
    (∀ r : Reader E, (∃ header payload s, readFrame r = .ok (payload, s) ∧ header.length = 4 ∧
      ofLittleEndian header = payload.length ∧ 1 ≤ payload.length ∧ payload.length ≤ maxMessageSize ∧
      r.bytes = header ++ payload ++ s.bytes) ∨ ∃ e, readFrame r = .error e) ∧
    (∀ (written payload header rest : List UInt8) (r : Reader E), header.length = 4 →
      ofLittleEndian header = payload.length → r.bytes = header ++ payload ++ rest →
      ((writePayload written payload).1.isSome ↔ ∃ e, readFrame r = .error e)) ∧
    (∀ (written payload : List UInt8), 2 ^ 32 ≤ payload.length → (writePayload written payload).1.isSome) ∧
    ∀ (written : List UInt8) (value : Json), (writeFrame written value).1.isSome →
      (writeFrame written value).2 = written := by
  refine ⟨fun values payloads r hencode hmax hbytes hend => ?_, fun r => ?_,
    fun written payload header rest r hheader hsize hbytes => ?_, fun written payload hlong => ?_,
    fun written value herror => ?_⟩
  · have hfits := not_refused_of_encoded hencode hmax
    exact readFrames_frames hfits (hbytes.trans (writeFrames_frames [] hencode hfits)) hend
  · cases hread : readFrame r with
    | error e => exact .inr ⟨e, rfl⟩
    | ok read =>
      obtain ⟨payload, s⟩ := read
      obtain ⟨header, hheader, hsize, hfits, hbytes, -⟩ := readFrame_takes hread
      obtain ⟨hzero, hlong⟩ := not_or.mp hfits
      exact .inl ⟨header, payload, s, rfl, hheader, hsize, by omega, by omega, hbytes⟩
  · obtain ⟨hrefused, hread⟩ | ⟨hfits, s, hread, -⟩ := readFrame_header hheader hsize hbytes
    · rw [writePayload_refused written hrefused]
      exact iff_of_true rfl hread
    · rw [writePayload_ok written hfits]
      refine iff_of_false (fun h => by cases h) ?_
      rintro ⟨e, he⟩
      cases hread.symm.trans he
  · have hrefused : Refused payload.length := .inr (lt_of_lt_of_le (by decide) hlong)
    rw [writePayload_refused written hrefused]
    rfl
  · unfold writeFrame at herror ⊢
    split at herror
    · rfl
    · rename_i payload _
      by_cases hrefused : Refused payload.length
      · rw [writePayload_refused written hrefused]
      · rw [writePayload_ok written hrefused] at herror
        cases herror

def inPieces : Reader Unit :=
  ⟨[[4], [0, 0, 0, 110], [117, 108, 108, 4, 0], [0], [0, 116, 114, 117, 101]], none⟩

theorem frames_round_trip_inPieces :
    readFrames inPieces = ([lit "null", lit "true"], .header .eof) :=
  frames_round_trip.1 [.null, .bool true] [lit "null", lit "true"] inPieces (by decide) (by decide)
    (by decide) rfl

/-- The frames that the server answers are the frames of its input. -/
theorem readFrame_server (r : Reader E) : (match Frames.readFrame maxMessageSize r.bytes with
    | .payload payload rest => ∃ s, readFrame r = .ok (payload, s) ∧ s.bytes = rest
    | .failed => readFrame r = .error .empty ∨ ∃ size, readFrame r = .error (.tooLong size)
    | .ended => ∃ e, readFrame r = .error (.header e) ∨ readFrame r = .error (.payload e)) := by
  unfold Frames.readFrame
  by_cases h : r.bytes.length < 4
  · rw [if_pos h]
    exact ⟨_, .inl (readFrame_short h)⟩
  rw [if_neg h]
  dsimp only
  by_cases hsize : Refused (ofLittleEndian (r.bytes.take 4))
  · have hcheck : _ ∨ _ := hsize
    rw [if_pos hcheck]
    exact (readFrame_refused (by omega) hsize).imp_right fun herror => ⟨_, herror⟩
  have hcheck : ¬ (_ ∨ _) := hsize
  rw [if_neg hcheck]
  by_cases hbody : r.bytes.length < 4 + ofLittleEndian (r.bytes.take 4)
  · rw [if_pos hbody]
    exact ⟨_, .inr (readFrame_truncated (by omega) hsize hbody)⟩
  · rw [if_neg hbody]
    obtain ⟨s, hread, hrest, -⟩ := readFrame_ok (r := r) (by omega) hsize (by omega)
    exact ⟨s, hread, hrest⟩

end SubscriptionRouter.FrameStreams
