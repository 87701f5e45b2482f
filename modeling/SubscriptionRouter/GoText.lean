import Mathlib

set_option autoImplicit false

/-!
# Go strings: bytes, their UTF-8 decoding, trimming and number formatting

A Go string is a byte string that need not be UTF-8. `units` cuts it the way a
`for range` loop does: one unit for each well-formed UTF-8 encoding, and one
unit of a single byte wherever decoding fails. The operations of `strings`,
`unicode/utf8` and `strconv` that work on runes are stated on the units.
-/
namespace SubscriptionRouter.GoText

abbrev GoString := List UInt8

/-- Texts are compared byte by byte. -/
instance lawfulBEq : LawfulBEq GoString := inferInstance

abbrev GoMap (V : Type) := Std.ExtTreeMap GoString V

/-- The bytes of a literal of the source. -/
def lit (s : String) : GoString := s.toUTF8.data.toList

/-! ## Decoding -/

def tailByte (b : UInt8) : Bool := 0x80 ≤ b && b ≤ 0xBF

/-- The accept tables of `utf8.DecodeRune` for encodings of two, three and four bytes. -/
def wellFormed2 (a b : UInt8) : Bool := 0xC2 ≤ a && a ≤ 0xDF && tailByte b

def wellFormed3 (a b c : UInt8) : Bool :=
  0xE0 ≤ a && a ≤ 0xEF && tailByte b && tailByte c &&
    (a != 0xE0 || 0xA0 ≤ b) && (a != 0xED || b ≤ 0x9F)

def wellFormed4 (a b c d : UInt8) : Bool :=
  0xF0 ≤ a && a ≤ 0xF4 && tailByte b && tailByte c && tailByte d &&
    (a != 0xF0 || 0x90 ≤ b) && (a != 0xF4 || b ≤ 0x8F)

def units : GoString → List GoString
  | [] => []
  | a :: t =>
    if a < 0x80 then [a] :: units t
    else match t with
      | [] => [[a]]
      | b :: t₁ =>
        if wellFormed2 a b then [a, b] :: units t₁
        else match t₁ with
          | [] => [a] :: units [b]
          | c :: t₂ =>
            if wellFormed3 a b c then [a, b, c] :: units t₂
            else match t₂ with
              | [] => [a] :: units [b, c]
              | d :: t₃ =>
                if wellFormed4 a b c d then [a, b, c, d] :: units t₃
                else [a] :: units (b :: c :: d :: t₃)

/-- A unit that is not the encoding of a rune. -/
def badUnit : GoString → Bool
  | [a] => 0x80 ≤ a
  | _ => false

/-- `utf8.ValidString`. -/
def validString (s : GoString) : Bool := (units s).all fun u => !badUnit u

/-- The encoding of U+FFFD. -/
def runeError : GoString := [0xEF, 0xBF, 0xBD]

def validUnit (u : GoString) : GoString := if badUnit u then runeError else u

/-- What a Go string becomes where every ill-formed byte is replaced by U+FFFD. -/
def toValid (s : GoString) : GoString := ((units s).map validUnit).flatten

/-- The encodings of a rune, by length. -/
inductive RuneEncoding : GoString → Prop where
  | one {a : UInt8} (h : a < 0x80) : RuneEncoding [a]
  | two {a b : UInt8} (h : wellFormed2 a b = true) : RuneEncoding [a, b]
  | three {a b c : UInt8} (h : wellFormed3 a b c = true) : RuneEncoding [a, b, c]
  | four {a b c d : UInt8} (h : wellFormed4 a b c d = true) : RuneEncoding [a, b, c, d]

private theorem lead2 {a b : UInt8} (h : wellFormed2 a b = true) : 0xC2 ≤ a ∧ a ≤ 0xDF := by
  simp only [wellFormed2, Bool.and_eq_true, decide_eq_true_eq] at h
  exact h.1

private theorem lead3 {a b c : UInt8} (h : wellFormed3 a b c = true) : 0xE0 ≤ a ∧ a ≤ 0xEF := by
  simp only [wellFormed3, Bool.and_eq_true, decide_eq_true_eq] at h
  exact h.1.1.1.1

private theorem lead4 {a b c d : UInt8} (h : wellFormed4 a b c d = true) : 0xF0 ≤ a := by
  simp only [wellFormed4, Bool.and_eq_true, decide_eq_true_eq] at h
  exact h.1.1.1.1.1.1

theorem RuneEncoding.not_bad {u : GoString} (h : RuneEncoding u) : badUnit u = false := by
  cases h with
  | one h => simpa [badUnit, UInt8.not_le] using h
  | two | three | four => rfl

theorem RuneEncoding.ne_nil {u : GoString} (h : RuneEncoding u) : u ≠ [] := by
  cases h <;> simp

theorem units_encoding_append {u : GoString} (h : RuneEncoding u) (t : GoString) :
    units (u ++ t) = u :: units t := by
  cases h with
  | @one a h =>
    change units (a :: t) = _
    rw [units.eq_def]
    simp [h]
  | @two a b h =>
    have hl := lead2 h
    have ha : ¬ a < 0x80 := UInt8.not_lt.mpr (UInt8.le_trans (by decide) hl.1)
    change units (a :: b :: t) = _
    rw [units.eq_def]
    simp [ha, h]
  | @three a b c h =>
    have hl := lead3 h
    have ha : ¬ a < 0x80 := UInt8.not_lt.mpr (UInt8.le_trans (by decide) hl.1)
    have h2 : ¬ wellFormed2 a b = true := fun h' =>
      absurd (UInt8.le_trans hl.1 (lead2 h').2) (by decide)
    change units (a :: b :: c :: t) = _
    rw [units.eq_def]
    simp [ha, h2, h]
  | @four a b c d h =>
    have hl := lead4 h
    have ha : ¬ a < 0x80 := UInt8.not_lt.mpr (UInt8.le_trans (by decide) hl)
    have h2 : ¬ wellFormed2 a b = true := fun h' =>
      absurd (UInt8.le_trans hl (lead2 h').2) (by decide)
    have h3 : ¬ wellFormed3 a b c = true := fun h' =>
      absurd (UInt8.le_trans hl (lead3 h').2) (by decide)
    change units (a :: b :: c :: d :: t) = _
    rw [units.eq_def]
    simp [ha, h2, h3, h]

theorem units_cons_cases (a : UInt8) (r : GoString) :
    (∃ u t, RuneEncoding u ∧ a :: r = u ++ t) ∨
      (0x80 ≤ a ∧ units (a :: r) = [a] :: units r) := by
  by_cases h1 : a < 0x80
  · exact .inl ⟨[a], r, .one h1, rfl⟩
  · have ha : 0x80 ≤ a := UInt8.not_lt.mp h1
    match r with
    | [] => exact .inr ⟨ha, by rw [units.eq_def]; simp [h1, units]⟩
    | b :: r₁ =>
      by_cases h2 : wellFormed2 a b = true
      · exact .inl ⟨[a, b], r₁, .two h2, rfl⟩
      · match r₁ with
        | [] => exact .inr ⟨ha, by rw [units.eq_def]; simp [h1, h2]⟩
        | c :: r₂ =>
          by_cases h3 : wellFormed3 a b c = true
          · exact .inl ⟨[a, b, c], r₂, .three h3, rfl⟩
          · match r₂ with
            | [] => exact .inr ⟨ha, by rw [units.eq_def]; simp [h1, h2, h3]⟩
            | d :: r₃ =>
              by_cases h4 : wellFormed4 a b c d = true
              · exact .inl ⟨[a, b, c, d], r₃, .four h4, rfl⟩
              · exact .inr ⟨ha, by rw [units.eq_def]; simp [h1, h2, h3, h4]⟩

/-- A unit is the encoding of a rune or a single byte that is not ASCII. -/
def IsUnit (u : GoString) : Prop := RuneEncoding u ∨ ∃ a, u = [a] ∧ 0x80 ≤ a

theorem IsUnit.ne_nil {u : GoString} (h : IsUnit u) : u ≠ [] := by
  rcases h with h | ⟨a, rfl, _⟩
  · exact h.ne_nil
  · simp

theorem units_cons {s u : GoString} {l : List GoString} (h : units s = u :: l) :
    IsUnit u ∧ ∃ t, s = u ++ t ∧ l = units t := by
  cases s with
  | nil => simp [units] at h
  | cons a r =>
    rcases units_cons_cases a r with ⟨v, t, hv, ht⟩ | ⟨ha, hu⟩
    · rw [ht, units_encoding_append hv] at h
      obtain ⟨rfl, rfl⟩ := List.cons.inj h
      exact ⟨.inl hv, t, ht, rfl⟩
    · rw [hu] at h
      obtain ⟨rfl, rfl⟩ := List.cons.inj h
      exact ⟨.inr ⟨a, rfl, ha⟩, r, rfl, rfl⟩

theorem units_eq_nil {s : GoString} (h : units s = []) : s = [] := by
  cases s with
  | nil => rfl
  | cons a r =>
    rcases units_cons_cases a r with ⟨v, t, hv, ht⟩ | ⟨_, hu⟩
    · rw [ht, units_encoding_append hv] at h
      cases h
    · rw [hu] at h
      cases h

theorem units_flatten (s : GoString) : (units s).flatten = s := by
  generalize hl : units s = l
  induction l generalizing s with
  | nil => rw [units_eq_nil hl, List.flatten_nil]
  | cons u l ih =>
    obtain ⟨_, t, rfl, rfl⟩ := units_cons hl
    rw [List.flatten_cons, ih t rfl]

theorem isUnit_of_mem {s u : GoString} (h : u ∈ units s) : IsUnit u := by
  generalize hl : units s = l at h
  induction l generalizing s with
  | nil => cases h
  | cons v l ih =>
    obtain ⟨hv, t, rfl, ht⟩ := units_cons hl
    rcases List.mem_cons.mp h with rfl | h
    · exact hv
    · exact ih ht.symm h

theorem units_flatten_of_encodings {l : List GoString} (h : ∀ u ∈ l, RuneEncoding u) :
    units l.flatten = l := by
  induction l with
  | nil => rfl
  | cons u l ih =>
    rw [List.flatten_cons, units_encoding_append (h u List.mem_cons_self),
      ih fun v hv => h v (List.mem_cons_of_mem u hv)]

theorem units_alone_iff {a : UInt8} {r : GoString} (ha : 0x80 ≤ a) :
    units (a :: r) = [a] :: units r ↔ ∀ u, RuneEncoding u → ¬ u <+: a :: r := by
  constructor
  · rintro h u hu ⟨t, ht⟩
    rw [← ht, units_encoding_append hu] at h
    obtain ⟨rfl, _⟩ := List.cons.inj h
    have hb := hu.not_bad
    simp [badUnit, ha] at hb
  · intro h
    rcases units_cons_cases a r with ⟨u, t, hu, ht⟩ | ⟨_, hr⟩
    · exact absurd ⟨t, ht.symm⟩ (h u hu)
    · exact hr

theorem units_front {s : GoString} {p q : List GoString} (h : units s = p ++ q) :
    units p.flatten = p := by
  induction p generalizing s with
  | nil => rfl
  | cons u p ih =>
    obtain ⟨hu, t, rfl, ht⟩ := units_cons h
    change p ++ q = units t at ht
    have hp := ih ht.symm
    rcases hu with hu | ⟨a, rfl, ha⟩
    · rw [List.flatten_cons, units_encoding_append hu, hp]
    · have hpre : p.flatten <+: t := by
        rw [← units_flatten t, ← ht, List.flatten_append]
        exact List.prefix_append _ _
      have halone := (units_alone_iff ha).mp (show units (a :: t) = [a] :: units t by
        rw [← ht]; exact h)
      have hr : units (a :: p.flatten) = [a] :: units p.flatten :=
        (units_alone_iff ha).mpr fun v hv hvp =>
          halone v hv (hvp.trans (List.cons_prefix_cons.mpr ⟨rfl, hpre⟩))
      rw [List.flatten_cons, List.singleton_append, hr, hp]

theorem units_back {s : GoString} {p q : List GoString} (h : units s = p ++ q) :
    units q.flatten = q := by
  induction p generalizing s with
  | nil =>
    rw [List.nil_append] at h
    rw [← h, units_flatten]
  | cons u p ih =>
    obtain ⟨_, t, rfl, ht⟩ := units_cons h
    exact ih ht.symm

theorem units_ascii {s : GoString} (h : ∀ b ∈ s, b < 0x80) : units s = s.map fun b => [b] := by
  induction s with
  | nil => rfl
  | cons a r ih =>
    have h1 := units_encoding_append (.one (h a List.mem_cons_self)) r
    rw [List.singleton_append] at h1
    rw [h1, ih fun b hb => h b (List.mem_cons_of_mem a hb), List.map_cons]

/-! ## Replacing ill-formed bytes -/

theorem validUnit_encoding {u : GoString} (h : IsUnit u) : RuneEncoding (validUnit u) := by
  unfold validUnit
  rcases h with h | ⟨a, rfl, ha⟩
  · rw [h.not_bad]
    exact h
  · rw [if_pos (by simpa [badUnit] using ha)]
    exact .three (by decide)

theorem units_toValid (s : GoString) : units (toValid s) = (units s).map validUnit := by
  apply units_flatten_of_encodings
  intro u hu
  obtain ⟨v, hv, rfl⟩ := List.mem_map.mp hu
  exact validUnit_encoding (isUnit_of_mem hv)

theorem validString_iff {s : GoString} :
    validString s = true ↔ ∀ u ∈ units s, RuneEncoding u := by
  simp only [validString, List.all_eq_true, Bool.not_eq_true']
  constructor
  · intro h u hu
    rcases isUnit_of_mem hu with he | ⟨a, rfl, ha⟩
    · exact he
    · have := h _ hu
      simp only [badUnit, decide_eq_false_iff_not] at this
      exact absurd ha this
  · intro h u hu
    exact (h u hu).not_bad

theorem validString_toValid (s : GoString) : validString (toValid s) = true := by
  rw [validString_iff, units_toValid]
  intro u hu
  obtain ⟨v, hv, rfl⟩ := List.mem_map.mp hu
  exact validUnit_encoding (isUnit_of_mem hv)

theorem toValid_eq_self_iff {s : GoString} : toValid s = s ↔ validString s = true := by
  constructor
  · intro h
    rw [← h]
    exact validString_toValid s
  · intro h
    have hmap : (units s).map validUnit = units s := by
      conv_rhs => rw [← List.map_id (units s)]
      refine List.map_congr_left fun u hu => ?_
      simp [validUnit, (validString_iff.mp h u hu).not_bad]
    rw [toValid, hmap, units_flatten]

theorem validString_of_ascii {s : GoString} (h : ∀ b ∈ s, b < 0x80) : validString s = true := by
  rw [validString_iff, units_ascii h]
  intro u hu
  obtain ⟨b, hb, rfl⟩ := List.mem_map.mp hu
  exact .one (h b hb)

/-! ## Trimming -/

/-- `unicode.IsSpace` on the encoding of a rune. -/
def isSpace (u : GoString) : Bool :=
  u = [0x09] || u = [0x0A] || u = [0x0B] || u = [0x0C] || u = [0x0D] || u = [0x20] ||
  u = [0xC2, 0x85] || u = [0xC2, 0xA0] || u = [0xE1, 0x9A, 0x80] ||
  (match u with | [0xE2, 0x80, c] => 0x80 ≤ c && c ≤ 0x8A | _ => false) ||
  u = [0xE2, 0x80, 0xA8] || u = [0xE2, 0x80, 0xA9] || u = [0xE2, 0x80, 0xAF] ||
  u = [0xE2, 0x81, 0x9F] || u = [0xE3, 0x80, 0x80]

/-- `strings.TrimSpace`. -/
def trimSpace (s : GoString) : GoString :=
  (((units s).dropWhile isSpace).rdropWhile isSpace).flatten

theorem units_trimSpace (s : GoString) :
    units (trimSpace s) = ((units s).dropWhile isSpace).rdropWhile isSpace := by
  have hd : units ((units s).dropWhile isSpace).flatten = (units s).dropWhile isSpace :=
    units_back (List.takeWhile_append_dropWhile (p := isSpace)).symm
  obtain ⟨q, hq⟩ := List.rdropWhile_prefix isSpace ((units s).dropWhile isSpace)
  exact units_front (q := q) (hd.trans hq.symm)

/-- A string whose first and last units are not spaces is trimmed already. -/
theorem trimSpace_eq_self {s : GoString} (hfirst : ∀ u ∈ (units s).head?, isSpace u = false)
    (hlast : ∀ u ∈ (units s).getLast?, isSpace u = false) : trimSpace s = s := by
  have hd : (units s).dropWhile isSpace = units s := by
    cases hl : units s with
    | nil => rfl
    | cons u l =>
      have hu := hfirst u (by simp [hl])
      simp [hu]
  have hr : (units s).rdropWhile isSpace = units s := by
    rw [List.rdropWhile_eq_self_iff]
    intro hne
    rw [hlast _ (List.getLast?_eq_some_getLast hne)]
    decide
  rw [trimSpace, hd, hr, units_flatten]

theorem trimSpace_trimSpace (s : GoString) : trimSpace (trimSpace s) = trimSpace s := by
  apply trimSpace_eq_self
  · intro u hu
    rw [units_trimSpace] at hu
    obtain ⟨q, hq⟩ := List.rdropWhile_prefix isSpace ((units s).dropWhile isSpace)
    have hhead : u ∈ ((units s).dropWhile isSpace).head? := by
      rw [← hq]
      exact List.mem_head?_append_of_mem_head? hu
    have hn := List.head?_dropWhile_not isSpace (units s)
    rw [Option.mem_def.mp hhead] at hn
    simpa using hn
  · intro u hu
    rw [units_trimSpace] at hu
    have hne : ((units s).dropWhile isSpace).rdropWhile isSpace ≠ [] := by
      rintro h
      simp [h] at hu
    have hlast := List.rdropWhile_last_not isSpace ((units s).dropWhile isSpace) hne
    rw [List.getLast?_eq_some_getLast hne] at hu
    obtain rfl := Option.some.inj hu
    simpa using hlast

/-- `strings.ToLower` on ASCII letters. -/
def lowerByte (b : UInt8) : UInt8 := if 0x41 ≤ b && b ≤ 0x5A then b + 0x20 else b

def asciiLower (s : GoString) : GoString := s.map lowerByte

/-- `strings.Contains`. -/
def contains (s sub : GoString) : Bool := decide (sub <:+: s)

/-! ## Numbers -/

def digit (n : ℕ) : UInt8 := UInt8.ofNat (0x30 + n % 10)

/-- `strconv.Itoa` on a natural number; the fuel bounds the number of digits. -/
def digits : ℕ → ℕ → GoString
  | 0, _ => []
  | fuel + 1, n => if n < 10 then [digit n] else digits fuel (n / 10) ++ [digit n]

def itoaNat (n : ℕ) : GoString := digits (n + 1) n

def itoa : ℤ → GoString
  | .ofNat n => itoaNat n
  | .negSucc n => 0x2D :: itoaNat (n + 1)

def hexDigit (n : ℕ) : UInt8 := UInt8.ofNat (if n < 10 then 0x30 + n else 0x57 + n)

theorem digits_digit (fuel n : ℕ) : ∀ b ∈ digits fuel n, 0x30 ≤ b ∧ b ≤ 0x39 := by
  have hd : ∀ n, n < 10 → 0x30 ≤ UInt8.ofNat (0x30 + n) ∧ UInt8.ofNat (0x30 + n) ≤ 0x39 := by
    decide
  have hdigit : ∀ n, 0x30 ≤ digit n ∧ digit n ≤ 0x39 := fun n => hd _ (Nat.mod_lt n (by decide))
  induction fuel generalizing n with
  | zero => simp [digits]
  | succ fuel ih =>
    intro b hb
    rw [digits] at hb
    split at hb
    · rw [List.mem_singleton.mp hb]
      exact hdigit n
    · rcases List.mem_append.mp hb with hb | hb
      · exact ih _ b hb
      · rw [List.mem_singleton.mp hb]
        exact hdigit n

theorem digits_length_le (fuel : ℕ) {n k : ℕ} (h : n < 10 ^ (k + 1)) :
    (digits fuel n).length ≤ k + 1 := by
  induction fuel generalizing n k with
  | zero => exact Nat.zero_le _
  | succ fuel ih =>
    rw [digits]
    split
    · exact Nat.le_add_left 1 k
    · rename_i hlarge
      -- A number with more than one digit loses its last one.
      cases k with
      | zero => omega
      | succ k =>
        have hrest := ih (n := n / 10) (k := k) (by omega)
        rw [List.length_append, List.length_singleton]
        omega

theorem itoaNat_length_le {n k : ℕ} (h : n < 10 ^ (k + 1)) : (itoaNat n).length ≤ k + 1 :=
  digits_length_le _ h

theorem itoaNat_ne_nil (n : ℕ) : itoaNat n ≠ [] := by
  rw [itoaNat, digits]
  split <;> simp

/-- `hex.EncodeToString`. -/
def hexEncode (bytes : List UInt8) : GoString :=
  bytes.flatMap fun b => [hexDigit (b.toNat / 16), hexDigit (b.toNat % 16)]

example : trimSpace (lit " \t a b\n") = lit "a b" := by decide
example : units [0xE2, 0x80, 0x80, 0xFF, 0x41] = [[0xE2, 0x80, 0x80], [0xFF], [0x41]] := by decide
example : itoa (-120) = lit "-120" := by decide

end SubscriptionRouter.GoText
