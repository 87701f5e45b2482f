import Mathlib

set_option autoImplicit false

/-!
# Text from a stream of bytes

A `TextDecoder` for UTF-8 whose input comes in pieces. It keeps the bytes of a character that
has not ended, gives a replacement character for bytes that are none, and drops a byte order
mark at the start.
-/
namespace SubscriptionRouter.TextDecoder

/-- The decoder between two bytes of a character, with the bounds of the next byte. -/
structure Utf8 where
  codePoint : ℕ
  bytesNeeded : ℕ
  bytesSeen : ℕ
  lower : UInt8
  upper : UInt8
  deriving DecidableEq

def Utf8.start : Utf8 := ⟨0, 0, 0, 0x80, 0xBF⟩

def replacement : Char := Char.ofNat 0xFFFD

def byteOrderMark : Char := Char.ofNat 0xFEFF

def Utf8.first (b : UInt8) : Utf8 × List Char :=
  if b ≤ 0x7F then (.start, [Char.ofNat b.toNat])
  else if 0xC2 ≤ b ∧ b ≤ 0xDF then (⟨b.toNat % 0x20, 1, 0, 0x80, 0xBF⟩, [])
  else if 0xE0 ≤ b ∧ b ≤ 0xEF then
    (⟨b.toNat % 0x10, 2, 0, if b = 0xE0 then 0xA0 else 0x80, if b = 0xED then 0x9F else 0xBF⟩, [])
  else if 0xF0 ≤ b ∧ b ≤ 0xF4 then
    (⟨b.toNat % 0x08, 3, 0, if b = 0xF0 then 0x90 else 0x80, if b = 0xF4 then 0x8F else 0xBF⟩, [])
  else (.start, [replacement])

/-- A byte that does not continue a character ends it, and is read again. -/
def Utf8.next (d : Utf8) (b : UInt8) : Utf8 × List Char :=
  if d.bytesNeeded = 0 then Utf8.first b
  else if b < d.lower ∨ d.upper < b then ((Utf8.first b).1, replacement :: (Utf8.first b).2)
  else
    let codePoint := d.codePoint * 0x40 + b.toNat % 0x40
    if d.bytesSeen + 1 = d.bytesNeeded then (.start, [Char.ofNat codePoint])
    else (⟨codePoint, d.bytesNeeded, d.bytesSeen + 1, 0x80, 0xBF⟩, [])

def Utf8.feed (d : Utf8) : List UInt8 → Utf8 × List Char
  | [] => (d, [])
  | b :: bytes =>
    let now := d.next b
    let later := now.1.feed bytes
    (later.1, now.2 ++ later.2)

def serialize (bomSeen : Bool) : List Char → Bool × List Char
  | [] => (bomSeen, [])
  | c :: text => (true, if bomSeen = false ∧ c = byteOrderMark then text else c :: text)

structure Decoder where
  utf8 : Utf8
  bomSeen : Bool
  deriving DecidableEq

def Decoder.start : Decoder := ⟨.start, false⟩

/-- `decode` of a piece that others may follow. -/
def Decoder.decode (d : Decoder) (bytes : List UInt8) : Decoder × List Char :=
  let read := d.utf8.feed bytes
  let text := serialize d.bomSeen read.2
  (⟨read.1, text.1⟩, text.2)

/-- `decode` at the end of the input. -/
def Decoder.flush (d : Decoder) : List Char :=
  if d.utf8.bytesNeeded = 0 then [] else (serialize d.bomSeen [replacement]).2

theorem feed_append (d : Utf8) (a b : List UInt8) :
    d.feed (a ++ b) = (((d.feed a).1.feed b).1, (d.feed a).2 ++ ((d.feed a).1.feed b).2) := by
  induction a generalizing d with
  | nil => rfl
  | cons x a ih =>
    rw [List.cons_append, Utf8.feed, Utf8.feed, ih, List.append_assoc]

theorem serialize_append (bomSeen : Bool) (a b : List Char) :
    serialize bomSeen (a ++ b) = ((serialize (serialize bomSeen a).1 b).1,
      (serialize bomSeen a).2 ++ (serialize (serialize bomSeen a).1 b).2) := by
  cases a with
  | nil => rfl
  | cons c a =>
    have hseen : serialize true b = (true, b) := by
      cases b with
      | nil => rfl
      | cons c b => rw [serialize, if_neg (fun h => Bool.noConfusion h.1)]
    rw [List.cons_append, serialize, serialize, hseen]
    split
    · rfl
    · rfl

theorem decode_append (d : Decoder) (a b : List UInt8) : d.decode (a ++ b) =
    (((d.decode a).1.decode b).1, (d.decode a).2 ++ ((d.decode a).1.decode b).2) := by
  simp only [Decoder.decode, feed_append, serialize_append]

theorem first_ascii {b : UInt8} (h : b ≤ 0x7F) : Utf8.first b = (.start, [Char.ofNat b.toNat]) := if_pos h

theorem feed_ascii {bytes : List UInt8} (h : ∀ b ∈ bytes, b ≤ 0x7F) :
    Utf8.start.feed bytes = (.start, bytes.map fun b => Char.ofNat b.toNat) := by
  induction bytes with
  | nil => rfl
  | cons b bytes ih =>
    obtain ⟨hb, hrest⟩ := List.forall_mem_cons.mp h
    have hnext : Utf8.start.next b = (.start, [Char.ofNat b.toNat]) := (if_pos rfl).trans (first_ascii hb)
    rw [Utf8.feed, hnext, ih hrest]
    rfl

example : (Decoder.start.decode [0xEF, 0xBB, 0xBF, 0xE2, 0x82]).2 = [] := by decide
example : (Decoder.start.decode [0xE2, 0x82, 0xAC, 0xE2, 0x41]).2 = ['€', replacement, 'A'] := by
  decide

/-! ## Well-formed text -/

/-- `Utf8.first` in terms of numbers. -/
theorem first_eq {b : UInt8} {n : ℕ} (h : b.toNat = n) : Utf8.first b =
    if n ≤ 0x7F then (.start, [Char.ofNat n])
    else if 0xC2 ≤ n ∧ n ≤ 0xDF then (⟨n % 0x20, 1, 0, 0x80, 0xBF⟩, [])
    else if 0xE0 ≤ n ∧ n ≤ 0xEF then
      (⟨n % 0x10, 2, 0, if n = 0xE0 then 0xA0 else 0x80, if n = 0xED then 0x9F else 0xBF⟩, [])
    else if 0xF0 ≤ n ∧ n ≤ 0xF4 then
      (⟨n % 0x08, 3, 0, if n = 0xF0 then 0x90 else 0x80, if n = 0xF4 then 0x8F else 0xBF⟩, [])
    else (.start, [replacement]) := by
  subst h
  simp only [Utf8.first, UInt8.le_iff_toNat_le, ← UInt8.toNat_inj, UInt8.reduceToNat]

theorem next_within {d : Utf8} {b : UInt8} {n : ℕ} (h : b.toNat = n) (hneeded : d.bytesNeeded ≠ 0)
    (hbounds : d.lower.toNat ≤ n ∧ n ≤ d.upper.toNat) :
    d.next b = if d.bytesSeen + 1 = d.bytesNeeded then
        (.start, [Char.ofNat (d.codePoint * 0x40 + n % 0x40)])
      else (⟨d.codePoint * 0x40 + n % 0x40, d.bytesNeeded, d.bytesSeen + 1, 0x80, 0xBF⟩, []) := by
  subst h
  have hnot : ¬ (b < d.lower ∨ d.upper < b) := by
    rw [UInt8.lt_iff_toNat_lt, UInt8.lt_iff_toNat_lt]
    omega
  rw [Utf8.next, if_neg hneeded, if_neg hnot]

/-- The last byte of a character. -/
theorem feed_last {codePoint needed seen n : ℕ} {b : UInt8} (h : b.toNat = n)
    (hlast : seen + 1 = needed) (hbounds : 0x80 ≤ n ∧ n ≤ 0xBF) :
    Utf8.feed ⟨codePoint, needed, seen, 0x80, 0xBF⟩ [b] =
      (.start, [Char.ofNat (codePoint * 0x40 + n % 0x40)]) := by
  rw [Utf8.feed, next_within (d := ⟨codePoint, needed, seen, 0x80, 0xBF⟩) h
    (show needed ≠ 0 by omega) hbounds, if_pos hlast]
  rfl

/-- A byte of a character that others follow. -/
theorem feed_more {codePoint needed seen n : ℕ} {b lower upper : UInt8} (rest : List UInt8)
    (h : b.toNat = n) (hmore : seen + 1 < needed) (hbounds : lower.toNat ≤ n ∧ n ≤ upper.toNat) :
    Utf8.feed ⟨codePoint, needed, seen, lower, upper⟩ (b :: rest) =
      Utf8.feed ⟨codePoint * 0x40 + n % 0x40, needed, seen + 1, 0x80, 0xBF⟩ rest := by
  rw [Utf8.feed, next_within (d := ⟨codePoint, needed, seen, lower, upper⟩) h
    (show needed ≠ 0 by omega) hbounds, if_neg (show ¬ seen + 1 = needed by omega)]
  rfl

theorem feed_first {b : UInt8} {d : Utf8} (rest : List UInt8) (h : Utf8.first b = (d, [])) :
    Utf8.start.feed (b :: rest) = d.feed rest := by
  rw [Utf8.feed, show Utf8.start.next b = Utf8.first b from if_pos rfl, h]
  rfl

theorem feed_encodeChar (c : Char) : Utf8.start.feed (String.utf8EncodeChar c) = (.start, [c]) := by
  have hvalid : c.val.toNat < 0xD800 ∨ 0xDFFF < c.val.toNat ∧ c.val.toNat < 0x110000 := c.valid
  have hchar : Char.ofNat c.val.toNat = c := Char.ofNat_toNat c
  have hnat : ∀ {n : ℕ}, n < 256 → (UInt8.ofNat n).toNat = n := fun h => UInt8.toNat_ofNat_of_lt' h
  unfold String.utf8EncodeChar
  generalize c.val.toNat = v at hvalid hchar
  simp only
  split_ifs with h1 h2 h3
  · rw [feed_ascii (by simpa [UInt8.le_iff_toNat_le, hnat (show v < 256 by omega)] using h1)]
    rw [List.map_singleton, hnat (by omega), hchar]
  · have hfirst := first_eq (hnat (show v / 64 % 0x20 + 0xC0 < 256 by omega))
    rw [if_neg (by omega), if_pos (by omega)] at hfirst
    rw [feed_first _ hfirst, feed_last (hnat (by omega)) rfl (by omega)]
    rw [show (v / 64 % 0x20 + 0xC0) % 0x20 * 0x40 + (v % 0x40 + 0x80) % 0x40 = v by omega, hchar]
  · have hfirst := first_eq (hnat (show v / 4096 % 0x10 + 0xE0 < 256 by omega))
    rw [if_neg (by omega), if_neg (by omega), if_pos (by omega)] at hfirst
    -- The second byte keeps out overlong encodings and surrogates.
    have hbounds : (if v / 4096 % 0x10 + 0xE0 = 0xE0 then (0xA0 : UInt8) else 0x80).toNat ≤
        v / 64 % 0x40 + 0x80 ∧ v / 64 % 0x40 + 0x80 ≤
          (if v / 4096 % 0x10 + 0xE0 = 0xED then (0x9F : UInt8) else 0xBF).toNat := by
      split <;> split <;> simp only [UInt8.reduceToNat] <;> omega
    rw [feed_first _ hfirst, feed_more _ (hnat (by omega)) (by decide) hbounds,
      feed_last (hnat (by omega)) rfl (by omega)]
    rw [show ((v / 4096 % 0x10 + 0xE0) % 0x10 * 0x40 + (v / 64 % 0x40 + 0x80) % 0x40) * 0x40 +
      (v % 0x40 + 0x80) % 0x40 = v by omega, hchar]
  · have hfirst := first_eq (hnat (show v / 262144 % 0x08 + 0xF0 < 256 by omega))
    rw [if_neg (by omega), if_neg (by omega), if_neg (by omega), if_pos (by omega)] at hfirst
    -- The second byte keeps out overlong encodings and numbers that are too large.
    have hbounds : (if v / 262144 % 0x08 + 0xF0 = 0xF0 then (0x90 : UInt8) else 0x80).toNat ≤
        v / 4096 % 0x40 + 0x80 ∧ v / 4096 % 0x40 + 0x80 ≤
          (if v / 262144 % 0x08 + 0xF0 = 0xF4 then (0x8F : UInt8) else 0xBF).toNat := by
      split <;> split <;> simp only [UInt8.reduceToNat] <;> omega
    rw [feed_first _ hfirst, feed_more _ (hnat (by omega)) (by decide) hbounds,
      feed_more _ (hnat (by omega)) (by decide) (by simp only [UInt8.reduceToNat]; omega),
      feed_last (hnat (by omega)) rfl (by omega)]
    rw [show (((v / 262144 % 0x08 + 0xF0) % 0x08 * 0x40 + (v / 4096 % 0x40 + 0x80) % 0x40) * 0x40 +
      (v / 64 % 0x40 + 0x80) % 0x40) * 0x40 + (v % 0x40 + 0x80) % 0x40 = v by omega, hchar]

def encode (text : List Char) : List UInt8 := text.flatMap String.utf8EncodeChar

theorem encode_append (a b : List Char) : encode (a ++ b) = encode a ++ encode b := List.flatMap_append

theorem feed_encode (text : List Char) : Utf8.start.feed (encode text) = (.start, text) := by
  induction text with
  | nil => rfl
  | cons c text ih =>
    rw [encode, List.flatMap_cons, feed_append, feed_encodeChar, ← encode, ih]
    rfl

theorem length_encode (text : List Char) : (encode text).length = (text.map Char.utf8Size).sum := by
  rw [encode, List.length_flatMap]
  simp

/-- A decoder gives back the text whose bytes it reads, without a mark at its start. -/
theorem decode_encode {c : Char} (text : List Char) (h : c ≠ byteOrderMark) :
    Decoder.start.decode (encode (c :: text)) = (⟨.start, true⟩, c :: text) := by
  simp only [Decoder.decode, Decoder.start, feed_encode, serialize]
  rw [if_neg fun hc => h hc.2]

end SubscriptionRouter.TextDecoder
