import Mathlib
import SubscriptionRouter.PythonJson

set_option autoImplicit false

/-!
# Finding the digits

The matches of `"value"\s*:\s*"([0-9a-f]{64})"` in some bytes, from the left and none in another.
-/
namespace SubscriptionRouter.HashField
open PythonText PythonJson

def isLowerHex (b : UInt8) : Bool := (0x30 ≤ b && b ≤ 0x39) || (0x61 ≤ b && b ≤ 0x66)

/-- Sixty-four digits. -/
structure IsDigest (part : List UInt8) : Prop where
  length : part.length = 64
  lower : ∀ b ∈ part, isLowerHex b = true

/-- How far a match has come. -/
inductive Phase where
  | opening
  | letters (left : List UInt8)
  | beforeColon
  | beforeQuote
  | digits (start left : ℕ)

/-- Where the digits of a match start. -/
def scan : Phase → ℕ → List UInt8 → Option ℕ
  | _, _, [] => none
  | .opening, n, b :: rest => if b = 0x22 then scan (.letters valueName) (n + 1) rest else none
  | .letters [], n, b :: rest => if b = 0x22 then scan .beforeColon (n + 1) rest else none
  | .letters (c :: left), n, b :: rest => if b = c then scan (.letters left) (n + 1) rest else none
  | .beforeColon, n, b :: rest =>
    if isBlank b then scan .beforeColon (n + 1) rest
    else if b = 0x3A then scan .beforeQuote (n + 1) rest
    else none
  | .beforeQuote, n, b :: rest =>
    if isBlank b then scan .beforeQuote (n + 1) rest
    else if b = 0x22 then scan (.digits (n + 1) 64) (n + 1) rest
    else none
  | .digits start 0, _, b :: _ => if b = 0x22 then some start else none
  | .digits start (left + 1), n, b :: rest =>
    if isLowerHex b then scan (.digits start left) (n + 1) rest else none

/-- `finditer`: after a match the search goes on behind it. -/
def findAll : ℕ → ℕ → List UInt8 → List ℕ
  | _, _, [] => []
  | skip + 1, n, _ :: rest => findAll skip (n + 1) rest
  | 0, n, b :: rest => match scan .opening n (b :: rest) with
    | some start => start :: findAll (start + 64 - n) (n + 1) rest
    | none => findAll 0 (n + 1) rest

/-! ## What a match is -/

section Matches
variable {n k : ℕ} {bytes part after : List UInt8}

theorem isLowerHex_cases {b : UInt8} (h : isLowerHex b = true) :
    (0x30 ≤ b.toNat ∧ b.toNat ≤ 0x39) ∨ (0x61 ≤ b.toNat ∧ b.toNat ≤ 0x66) := by
  simpa [isLowerHex, UInt8.le_iff_toNat_le] using h

theorem scan_digits {start left : ℕ} (h : scan (.digits start left) n bytes = some k) :
    k = start ∧ ∃ part after, bytes = part ++ 0x22 :: after ∧ part.length = left ∧
      ∀ b ∈ part, isLowerHex b = true := by
  induction bytes generalizing n left with
  | nil => cases left <;> cases h
  | cons b rest ih =>
    cases left with
    | zero =>
      rw [scan] at h
      split_ifs at h with hquote
      obtain rfl := Option.some.inj h
      exact ⟨rfl, [], rest, by rw [hquote]; rfl, rfl, nofun⟩
    | succ left =>
      rw [scan] at h
      split_ifs at h with hhex
      obtain ⟨rfl, part, after, rfl, rfl, hpart⟩ := ih h
      exact ⟨rfl, b :: part, after, rfl, rfl, List.forall_mem_cons.mpr ⟨hhex, hpart⟩⟩

theorem scan_beforeQuote (h : scan .beforeQuote n bytes = some k) :
    ∃ blanks part after, bytes = blanks ++ 0x22 :: part ++ 0x22 :: after ∧
      (∀ b ∈ blanks, isBlank b = true) ∧ IsDigest part ∧ k = n + blanks.length + 1 := by
  induction bytes generalizing n with
  | nil => cases h
  | cons b rest ih =>
    rw [scan] at h
    split_ifs at h with hblank hquote
    · obtain ⟨blanks, part, after, rfl, hblanks, hpart, rfl⟩ := ih h
      refine ⟨b :: blanks, part, after, rfl, List.forall_mem_cons.mpr ⟨hblank, hblanks⟩, hpart, ?_⟩
      rw [List.length_cons]
      omega
    · obtain ⟨rfl, part, after, rfl, hlength, hpart⟩ := scan_digits h
      exact ⟨[], part, after, by rw [hquote]; rfl, nofun, ⟨hlength, hpart⟩, rfl⟩

theorem scan_beforeColon (h : scan .beforeColon n bytes = some k) :
    ∃ blanks rest, bytes = blanks ++ 0x3A :: rest ∧ (∀ b ∈ blanks, isBlank b = true) ∧
      scan .beforeQuote (n + blanks.length + 1) rest = some k := by
  induction bytes generalizing n with
  | nil => cases h
  | cons b rest ih =>
    rw [scan] at h
    split_ifs at h with hblank hcolon
    · obtain ⟨blanks, rest, rfl, hblanks, hrest⟩ := ih h
      refine ⟨b :: blanks, rest, rfl, List.forall_mem_cons.mpr ⟨hblank, hblanks⟩, ?_⟩
      rwa [List.length_cons, ← Nat.add_assoc, Nat.add_right_comm n] 
    · exact ⟨[], rest, by rw [hcolon]; rfl, nofun, h⟩

theorem scan_letters {left : List UInt8} (h : scan (.letters left) n bytes = some k) :
    ∃ rest, bytes = left ++ 0x22 :: rest ∧ scan .beforeColon (n + left.length + 1) rest = some k := by
  induction left generalizing n bytes with
  | nil =>
    cases bytes with
    | nil => cases h
    | cons b rest =>
      rw [scan] at h
      split_ifs at h with hquote
      exact ⟨rest, by rw [hquote]; rfl, h⟩
  | cons c left ih =>
    cases bytes with
    | nil => cases h
    | cons b rest =>
      rw [scan] at h
      split_ifs at h with hc
      obtain ⟨rest, rfl, hrest⟩ := ih h
      refine ⟨rest, by rw [hc]; rfl, ?_⟩
      rwa [List.length_cons, ← Nat.add_assoc, Nat.add_right_comm n]

theorem scan_opening (h : scan .opening n bytes = some k) : ∃ (lead : Lead) (part after : List UInt8),
    bytes = lead.bytes ++ (0x22 :: part ++ [0x22]) ++ after ∧ IsDigest part ∧ k = n + lead.bytes.length + 1 := by
  cases bytes with
  | nil => cases h
  | cons b rest =>
    rw [scan] at h
    split_ifs at h with hquote
    obtain ⟨rest, rfl, h⟩ := scan_letters h
    obtain ⟨before, rest, rfl, hbefore, h⟩ := scan_beforeColon h
    obtain ⟨after, part, rest, rfl, hafter, hpart, rfl⟩ := scan_beforeQuote h
    refine ⟨⟨before, after, hbefore, hafter⟩, part, rest, by simp [Lead.bytes, hquote], hpart, ?_⟩
    have hname : valueName.length = 5 := by decide
    simp only [Lead.bytes, List.length_cons, List.length_append, hname]
    omega

theorem mem_findAll {skip : ℕ} (h : k ∈ findAll skip n bytes) :
    ∃ before rest, bytes = before ++ rest ∧ scan .opening (n + before.length) rest = some k := by
  induction bytes generalizing skip n with
  | nil => simp [findAll] at h
  | cons b rest ih =>
    have hlater {skip : ℕ} (h : k ∈ findAll skip (n + 1) rest) :
        ∃ before rest', b :: rest = before ++ rest' ∧ scan .opening (n + before.length) rest' = some k := by
      obtain ⟨before, rest, rfl, hscan⟩ := ih h
      refine ⟨b :: before, rest, rfl, ?_⟩
      rwa [List.length_cons, ← Nat.add_assoc, Nat.add_right_comm n]
    cases skip with
    | succ skip => exact hlater h
    | zero =>
      cases hscan : scan .opening n (b :: rest) with
      | none =>
        rw [findAll, hscan] at h
        exact hlater h
      | some start =>
        rw [findAll, hscan] at h
        rcases List.mem_cons.mp h with rfl | h
        · exact ⟨[], b :: rest, rfl, hscan⟩
        · exact hlater h

/-! Digits in the place of others do not change where the matches are. -/

theorem IsDigest.head {part : List UInt8} (hpart : IsDigest part) :
    ∃ b rest, part = b :: rest ∧ isLowerHex b = true := by
  obtain ⟨b, rest, rfl⟩ := List.exists_cons_of_length_pos (l := part) (by rw [hpart.length]; decide)
  exact ⟨b, rest, rfl, hpart.lower b (List.mem_cons_self ..)⟩

theorem scan_digits_whole {start n : ℕ} {part : List UInt8} (hpart : ∀ b ∈ part, isLowerHex b = true) :
    scan (.digits start part.length) n (part ++ 0x22 :: after) = some start := by
  induction part generalizing n with
  | nil => exact if_pos rfl
  | cons b part ih =>
    obtain ⟨hb, hpart⟩ := List.forall_mem_cons.mp hpart
    rw [List.length_cons, List.cons_append, scan, if_pos hb]
    exact ih hpart

def Phase.Sound : Phase → Prop
  | .letters left => 0x22 ∉ left
  | _ => True

theorem scan_letters_digits {rest : List UInt8} {b : UInt8} (hb : isLowerHex b = true) :
    scan (.letters valueName) n (b :: rest) = none := by
  have hname : valueName = [0x76, 0x61, 0x6C, 0x75, 0x65] := by decide
  rw [hname, scan, if_neg]
  rintro rfl
  cases hb

theorem scan_beforeColon_digits {rest : List UInt8} {b : UInt8} (hb : isLowerHex b = true) :
    scan .beforeColon n (b :: rest) = none := by
  rw [scan, if_neg, if_neg]
  · rintro rfl
    cases hb
  · intro hblank
    rcases isBlank_cases hblank with rfl | rfl | rfl | rfl | rfl | rfl <;> cases hb

/-- The quote before the digits leaves a match that has come so far that they are its digits, that
is complete, or that fails with the first of them. -/
theorem scan_quote {phase : Phase} (hphase : phase.Sound) {part part' : List UInt8} (hpart : IsDigest part)
    (hpart' : IsDigest part') :
    scan phase n (0x22 :: (part ++ 0x22 :: after)) = scan phase n (0x22 :: (part' ++ 0x22 :: after)) := by
  obtain ⟨b, rest, hb, hhex⟩ := hpart.head
  obtain ⟨b', rest', hb', hhex'⟩ := hpart'.head
  cases phase with
  | opening =>
    rw [scan, if_pos rfl, scan, if_pos rfl, hb, hb', List.cons_append, List.cons_append,
      scan_letters_digits hhex, scan_letters_digits hhex']
  | letters left =>
    cases left with
    | nil =>
      rw [scan, if_pos rfl, scan, if_pos rfl, hb, hb', List.cons_append, List.cons_append,
        scan_beforeColon_digits hhex, scan_beforeColon_digits hhex']
    | cons c left =>
      have hc : ¬ 0x22 = c := fun h => hphase (by rw [h]; exact List.mem_cons_self ..)
      rw [scan, if_neg hc, scan, if_neg hc]
  | beforeColon => rfl
  | beforeQuote =>
    have hdigits {part : List UInt8} (hpart : IsDigest part) :
        scan (.digits (n + 1) 64) (n + 1) (part ++ 0x22 :: after) = some (n + 1) := by
      rw [← hpart.length]
      exact scan_digits_whole hpart.lower
    rw [scan, if_neg (by decide), if_pos rfl, scan, if_neg (by decide), if_pos rfl, hdigits hpart,
      hdigits hpart']
  | digits start left => cases left <;> rfl

theorem scan_exchange {part part' before : List UInt8} {phase : Phase} (hphase : phase.Sound)
    (hpart : IsDigest part) (hpart' : IsDigest part') :
    scan phase n (before ++ 0x22 :: (part ++ 0x22 :: after)) =
      scan phase n (before ++ 0x22 :: (part' ++ 0x22 :: after)) := by
  induction before generalizing phase n with
  | nil => exact scan_quote hphase hpart hpart'
  | cons b before ih =>
    rw [List.cons_append, List.cons_append]
    cases phase with
    | opening =>
      rw [scan, scan]
      split_ifs
      · exact ih (show 0x22 ∉ valueName by decide)
      · rfl
    | letters left =>
      cases left with
      | nil =>
        rw [scan, scan]
        split_ifs
        · exact ih trivial
        · rfl
      | cons c left =>
        rw [scan, scan]
        split_ifs
        · exact ih (fun h => hphase (List.mem_cons_of_mem _ h))
        · rfl
    | beforeColon =>
      rw [scan, scan]
      split_ifs
      · exact ih trivial
      · exact ih trivial
      · rfl
    | beforeQuote =>
      rw [scan, scan]
      split_ifs
      · exact ih trivial
      · exact ih trivial
      · rfl
    | digits start left =>
      cases left with
      | zero => rfl
      | succ left =>
        rw [scan, scan]
        split_ifs
        · exact ih trivial
        · rfl

theorem findAll_congr {b b' : UInt8} {rest rest' : List UInt8}
    (hscan : scan .opening n (b :: rest) = scan .opening n (b' :: rest'))
    (hrest : ∀ skip, findAll skip (n + 1) rest = findAll skip (n + 1) rest') (skip : ℕ) :
    findAll skip n (b :: rest) = findAll skip n (b' :: rest') := by
  cases skip with
  | succ skip => exact hrest skip
  | zero =>
    rw [findAll, findAll, hscan]
    cases scan .opening n (b' :: rest') with
    | none => exact hrest 0
    | some start => exact congrArg _ (hrest _)

theorem findAll_digits {part part' rest : List UInt8} (hlength : part.length = part'.length)
    (hpart : ∀ b ∈ part, isLowerHex b = true) (hpart' : ∀ b ∈ part', isLowerHex b = true) (skip n : ℕ) :
    findAll skip n (part ++ rest) = findAll skip n (part' ++ rest) := by
  induction part generalizing part' skip n with
  | nil =>
    obtain rfl := List.length_eq_zero_iff.mp hlength.symm
    rfl
  | cons b part ih =>
    obtain ⟨b', part', rfl⟩ := List.exists_cons_of_length_pos (l := part') (by rw [← hlength]; simp)
    obtain ⟨hb, hpart⟩ := List.forall_mem_cons.mp hpart
    obtain ⟨hb', hpart'⟩ := List.forall_mem_cons.mp hpart'
    have hnone {b : UInt8} {rest : List UInt8} (hb : isLowerHex b = true) : scan .opening n (b :: rest) = none := by
      rw [scan, if_neg]
      rintro rfl
      cases hb
    refine findAll_congr ((hnone hb).trans (hnone hb').symm) (fun skip => ?_) skip
    exact ih (Nat.succ.inj hlength) hpart hpart' skip (n + 1)

theorem findAll_exchange {part part' before : List UInt8} (hpart : IsDigest part) (hpart' : IsDigest part')
    (skip n : ℕ) : findAll skip n (before ++ 0x22 :: (part ++ 0x22 :: after)) =
      findAll skip n (before ++ 0x22 :: (part' ++ 0x22 :: after)) := by
  have hopening : Phase.opening.Sound := trivial
  induction before generalizing skip n with
  | nil =>
    refine findAll_congr (scan_quote hopening hpart hpart') (fun skip => ?_) skip
    exact findAll_digits (hpart.length.trans hpart'.length.symm) hpart.lower hpart'.lower skip (n + 1)
  | cons b before ih =>
    have hscan : scan .opening n (b :: before ++ 0x22 :: (part ++ 0x22 :: after)) =
        scan .opening n (b :: before ++ 0x22 :: (part' ++ 0x22 :: after)) := scan_exchange hopening hpart hpart'
    exact findAll_congr hscan (fun skip => ih skip (n + 1)) skip
end Matches

end SubscriptionRouter.HashField
