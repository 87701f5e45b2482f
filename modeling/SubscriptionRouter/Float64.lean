import Mathlib

set_option autoImplicit false

/-!
# Decimal numbers through 64-bit floats

A number that is read into a `float64` and written back is first rounded to the nearest
float, ties to even, and then written as a shortest decimal that is read as this float.
Only finite floats are considered, as rational numbers.
-/
namespace SubscriptionRouter.Float64

def roundHalfEven (q : ℚ) : ℤ :=
  if q - ⌊q⌋ < 1 / 2 then ⌊q⌋
  else if 1 / 2 < q - ⌊q⌋ then ⌊q⌋ + 1
  else ⌊q⌋ + ⌊q⌋ % 2

/-- The distance of the floats at a number; subnormal floats have the smallest one. -/
def ulp (q : ℚ) : ℚ := (2 : ℚ) ^ max (Int.log 2 |q| - 52) (-1074)

def nearestFloat64 (q : ℚ) : ℚ := roundHalfEven (q / ulp q) * ulp q

/-- The decimals of so many digits next to a number, the nearer one first. -/
def decimals (x : ℚ) (digits : ℕ) : List ℚ :=
  let unit := (10 : ℚ) ^ (Int.log 10 |x| + 1 - digits)
  let d := roundHalfEven (x / unit)
  [d * unit, (if d * unit ≤ x then d + 1 else d - 1) * unit]

/-- What a float is written as; seventeen digits are always enough. -/
def shortestDecimal (x : ℚ) : ℚ :=
  (((List.range 17).flatMap fun n => decimals x (n + 1)).find? fun c => nearestFloat64 c = x).getD x

def throughFloat64 (q : ℚ) : ℚ := shortestDecimal (nearestFloat64 q)

example : throughFloat64 (1 / 10) = 1 / 10 := by decide +kernel
example : throughFloat64 9007199254740993 = 9007199254740992 := by decide +kernel

/-! ## Integers -/

theorem roundHalfEven_int (n : ℤ) : roundHalfEven n = n := by
  rw [roundHalfEven, Int.floor_intCast, sub_self, if_pos (by norm_num)]

theorem abs_roundHalfEven_sub (q : ℚ) : |(roundHalfEven q : ℚ) - q| ≤ 1 / 2 := by
  have hlow := Int.floor_le q
  have hhigh := Int.lt_floor_add_one q
  have hparity : ⌊q⌋ % 2 = 0 ∨ ⌊q⌋ % 2 = 1 := Int.emod_two_eq_zero_or_one ⌊q⌋
  unfold roundHalfEven
  rw [abs_le]
  split_ifs with hless hmore
  · exact ⟨by linarith, by linarith⟩
  · push_cast
    exact ⟨by linarith, by linarith⟩
  · have htie : q - ⌊q⌋ = 1 / 2 := le_antisymm (not_lt.mp hmore) (not_lt.mp hless)
    rcases hparity with h | h
    · rw [h]
      push_cast
      exact ⟨by linarith, by linarith⟩
    · rw [h]
      push_cast
      exact ⟨by linarith, by linarith⟩

theorem ulp_pos (q : ℚ) : 0 < ulp q := zpow_pos (by norm_num) _

theorem abs_nearestFloat64_sub (q : ℚ) : |nearestFloat64 q - q| ≤ ulp q / 2 := by
  have hpos := ulp_pos q
  have hround := abs_roundHalfEven_sub (q / ulp q)
  have hsplit : nearestFloat64 q - q = (roundHalfEven (q / ulp q) - q / ulp q) * ulp q := by
    rw [nearestFloat64, sub_mul, div_mul_cancel₀ q hpos.ne']
  rw [hsplit, abs_mul, abs_of_pos hpos]
  nlinarith

theorem nearestFloat64_multiple {q : ℚ} {n : ℤ} (h : q = n * ulp q) : nearestFloat64 q = q := by
  have hdiv : q / ulp q = n := by
    rw [div_eq_iff (ulp_pos q).ne']
    exact h
  rw [nearestFloat64, hdiv, roundHalfEven_int]
  exact h.symm

theorem log_le_of_lt {n : ℤ} {k : ℕ} (h : |n| < 2 ^ (k + 1)) : Int.log 2 |(n : ℚ)| ≤ k := by
  by_contra hlog
  have hne : (0 : ℚ) < |(n : ℚ)| := by
    rcases eq_or_ne n 0 with rfl | hn
    · simp at hlog
    · exact abs_pos.mpr (by exact_mod_cast hn)
  have hle : ((2 : ℕ) : ℚ) ^ ((k : ℤ) + 1) ≤ |(n : ℚ)| :=
    (Int.zpow_le_iff_le_log (by norm_num) hne).mpr (by omega)
  have hlt : |(n : ℚ)| < (2 : ℚ) ^ ((k : ℤ) + 1) := by
    rw [show ((k : ℤ) + 1) = ((k + 1 : ℕ) : ℤ) from rfl, zpow_natCast]
    exact_mod_cast h
  exact absurd (hle.trans_lt hlt) (lt_irrefl _)

theorem nearestFloat64_int {n : ℤ} (h : |n| ≤ 2 ^ 53) : nearestFloat64 n = n := by
  rcases lt_or_eq_of_le h with hlt | heq
  · have hlog := log_le_of_lt (k := 52) hlt
    have hle : max (Int.log 2 |(n : ℚ)| - 52) (-1074) ≤ 0 := by
      rw [max_le_iff]
      omega
    obtain ⟨k, hk⟩ : ∃ k : ℕ, max (Int.log 2 |(n : ℚ)| - 52) (-1074) = -k :=
      ⟨_, (neg_eq_iff_eq_neg.mp (Int.toNat_of_nonneg (neg_nonneg.mpr hle)).symm)⟩
    refine nearestFloat64_multiple (n := n * 2 ^ k) ?_
    rw [ulp, hk, zpow_neg, zpow_natCast]
    push_cast
    rw [mul_assoc, mul_inv_cancel₀ (by positivity), mul_one]
  · rcases (abs_eq (by norm_num)).mp heq with rfl | rfl <;> decide +kernel

theorem eq_of_nearestFloat64 {c n : ℤ} (hn : |n| < 2 ^ 53) (h : nearestFloat64 c = n) : c = n := by
  rcases le_or_gt |c| (2 ^ 53) with hc | hc
  · rw [nearestFloat64_int hc] at h
    exact_mod_cast h
  · exfalso
    have hne : (0 : ℚ) < |(c : ℚ)| := by
      have hpos : (0 : ℤ) < |c| := lt_trans (by norm_num) hc
      exact_mod_cast hpos
    have hpow : (2 : ℚ) ^ Int.log 2 |(c : ℚ)| ≤ |(c : ℚ)| :=
      Int.zpow_log_le_self (by norm_num) hne
    have hlog : (53 : ℤ) ≤ Int.log 2 |(c : ℚ)| := by
      refine (Int.zpow_le_iff_le_log (by norm_num) hne).mp ?_
      have hle : (2 : ℚ) ^ 53 ≤ |(c : ℚ)| := by exact_mod_cast hc.le
      exact_mod_cast hle
    have hulp : ulp c = (2 : ℚ) ^ Int.log 2 |(c : ℚ)| / 2 ^ 52 := by
      rw [ulp, max_eq_left (by omega), zpow_sub₀ (by norm_num)]
      norm_num
    have herror := abs_nearestFloat64_sub c
    rw [h, hulp] at herror
    have habs : |(c : ℚ)| - |(n : ℚ)| ≤ |(n : ℚ) - c| := by
      rw [abs_sub_comm]
      exact abs_sub_abs_le_abs_sub _ _
    have hcq : (2 : ℚ) ^ 53 + 1 ≤ |(c : ℚ)| := by exact_mod_cast hc
    have hnq : |(n : ℚ)| ≤ (2 : ℚ) ^ 53 - 1 := by
      have hle : |n| ≤ 2 ^ 53 - 1 := by omega
      exact_mod_cast hle
    linarith

theorem decimals_integral {x : ℚ} {digits : ℕ} (h : (digits : ℤ) ≤ Int.log 10 |x| + 1) :
    ∀ c ∈ decimals x digits, ∃ n : ℤ, c = n := by
  obtain ⟨k, hk⟩ : ∃ k : ℕ, Int.log 10 |x| + 1 - digits = k :=
    ⟨_, (Int.toNat_of_nonneg (by omega)).symm⟩
  intro c hc
  simp only [decimals, hk, zpow_natCast, List.mem_cons, List.not_mem_nil, or_false] at hc
  rcases hc with rfl | rfl
  · exact ⟨roundHalfEven (x / 10 ^ k) * 10 ^ k, by push_cast; rfl⟩
  · split_ifs
    · exact ⟨(roundHalfEven (x / 10 ^ k) + 1) * 10 ^ k, by push_cast; rfl⟩
    · exact ⟨(roundHalfEven (x / 10 ^ k) - 1) * 10 ^ k, by push_cast; rfl⟩

theorem log_ten_lt {n : ℤ} (h : |n| < 2 ^ 53) : 0 ≤ Int.log 10 |(n : ℚ)| ∧ Int.log 10 |(n : ℚ)| < 17 := by
  rcases eq_or_ne n 0 with rfl | hn
  · simp
  · have hone : (1 : ℚ) ≤ |(n : ℚ)| := by exact_mod_cast Int.one_le_abs hn
    have hpos : (0 : ℚ) < |(n : ℚ)| := by linarith
    constructor
    · exact (Int.zpow_le_iff_le_log (by norm_num) hpos).mp (by simpa using hone)
    · by_contra hlog
      have hle : ((10 : ℕ) : ℚ) ^ (17 : ℤ) ≤ |(n : ℚ)| :=
        (Int.zpow_le_iff_le_log (by norm_num) hpos).mpr (not_lt.mp hlog)
      have hlt : |(n : ℚ)| < (2 : ℚ) ^ 53 := by exact_mod_cast h
      norm_num at hle
      linarith

theorem shortestDecimal_int {n : ℤ} (h : |n| < 2 ^ 53) : shortestDecimal n = n := by
  obtain ⟨hpos, hlt⟩ := log_ten_lt h
  obtain ⟨k, hk⟩ : ∃ k : ℕ, Int.log 10 |(n : ℚ)| = k := ⟨_, (Int.toNat_of_nonneg hpos).symm⟩
  have hexact : nearestFloat64 n = n := nearestFloat64_int h.le
  let found : ℚ → Bool := fun c => nearestFloat64 c = n
  -- With all its digits the integer itself is a candidate; those before it are integers too.
  have hself : (n : ℚ) ∈ decimals n (k + 1) := by
    rw [decimals, hk]
    push_cast
    rw [sub_self, zpow_zero, div_one, mul_one, roundHalfEven_int]
    exact List.mem_cons_self
  have hsplit : List.range 17 = List.range (k + 1) ++ (List.range (17 - (k + 1))).map (k + 1 + ·) := by
    rw [← List.range_add]
    congr 1
    omega
  have hsome : (((List.range (k + 1)).flatMap fun m => decimals n (m + 1)).find? found).isSome := by
    rw [List.find?_isSome]
    refine ⟨n, List.mem_flatMap.mpr ⟨k, List.mem_range.mpr (Nat.lt_succ_self k), hself⟩, ?_⟩
    exact decide_eq_true hexact
  obtain ⟨c, hc⟩ := Option.isSome_iff_exists.mp hsome
  have hfound : shortestDecimal n = c := by
    rw [shortestDecimal, hsplit, List.flatMap_append, List.find?_append, hc]
    rfl
  obtain ⟨m, hm, hcm⟩ := List.mem_flatMap.mp (List.mem_of_find?_eq_some hc)
  obtain ⟨i, rfl⟩ := decimals_integral (by rw [hk]; have := List.mem_range.mp hm; omega) c hcm
  have hread : found i = true := List.find?_some hc
  rw [hfound, eq_of_nearestFloat64 h (of_decide_eq_true hread)]

theorem throughFloat64_int {n : ℤ} (h : |n| < 2 ^ 53) : throughFloat64 n = n := by
  rw [throughFloat64, nearestFloat64_int h.le, shortestDecimal_int h]

end SubscriptionRouter.Float64
