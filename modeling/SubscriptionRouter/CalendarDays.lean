import Mathlib
import SubscriptionRouter.Rfc3339

set_option autoImplicit false

/-!
# Calendar days as texts

`time.Parse` and `Time.Format` with the layout `2006-01-02`. A day is the number of days since
the first of January of the year one, which is a Monday.
-/
namespace SubscriptionRouter.CalendarDays
open GoText JsonText Rfc3339

/-- `appendInt`: a sign and at least `width` digits. -/
def appendInt (x : ℤ) (width : ℕ) : GoString :=
  (if x < 0 then [0x2D] else []) ++
    if x.natAbs < 10 ^ width then pad width x.natAbs else itoaNat x.natAbs

def formatDay (d : ℤ) : GoString :=
  appendInt (dateOf d).year 4 ++ 0x2D :: (appendInt (dateOf d).month 2 ++
    0x2D :: appendInt (dateOf d).day 2)

def parseDay (s : GoString) : Option ℤ :=
  (parseUint (s.take 4) 0 9999).bind fun year =>
  (parseUint ((s.drop 5).take 2) 1 12).bind fun month =>
  (parseUint ((s.drop 8).take 2) 1 (daysIn month year)).bind fun day =>
    if s.length = 10 ∧ s[4]? = some 0x2D ∧ s[7]? = some 0x2D then some (dayNumber year month day)
    else none

/-- `Time.Weekday`, where Sunday is 0. -/
def weekday (d : ℤ) : ℕ := ((d + 1) % 7).toNat

example : parseDay (lit "2024-02-29") = some 738944 := by decide
example : formatDay 738944 = lit "2024-02-29" := by decide
example : parseDay (lit "2023-02-29") = none := by decide
example : weekday 738944 = 4 := by decide

/-! ## Days and dates -/

structure Date.Valid (date : Date) : Prop where
  month : 1 ≤ date.month ∧ date.month ≤ 12
  day : 1 ≤ date.day ∧ date.day ≤ daysIn date.month date.year

theorem dateOf_valid (d : ℤ) : Date.Valid (dateOf d) := by
  obtain ⟨hfirst, hlast, hpos, hle, -⟩ := dateOf_spec d
  exact ⟨⟨hfirst, hlast⟩, hpos, hle⟩

theorem yearStart_succ (year : ℤ) :
    yearStart (year + 1) = yearStart year + if isLeap year then 366 else 365 := by
  have hleap := isLeap_iff year
  rw [yearStart, yearStart, add_sub_cancel_right]
  split
  · rename_i h
    have hyear := hleap.mp h
    omega
  · rename_i h
    have hyear := mt hleap.mpr h
    omega

theorem yearStart_strictMono : StrictMono yearStart := by
  refine strictMono_int_of_lt_succ fun year => ?_
  rw [yearStart_succ]
  split <;> omega

theorem monthLengths_take (leap : Bool) : ∀ m ≤ 12, ∀ k < m,
    ((monthLengths leap).take k).sum + (monthLengths leap).getD k 0 ≤
      ((monthLengths leap).take m).sum := by
  cases leap <;> decide

theorem dayNumber_lt {date : Date} (h : Date.Valid date) :
    dayNumber date.year date.month date.day < yearStart (date.year + 1) := by
  obtain ⟨⟨hfirst, hlast⟩, hpos, hle⟩ := h
  have htake := monthLengths_take (isLeap date.year) 12 le_rfl (date.month - 1) (by omega)
  have hall : (monthLengths (isLeap date.year)).take 12 = monthLengths (isLeap date.year) :=
    List.take_of_length_le (Nat.le_refl 12)
  rw [hall, sum_monthLengths] at htake
  rw [daysIn] at hle
  rw [yearStart_succ, dayNumber]
  split at htake
  · rename_i h
    rw [if_pos h]
    omega
  · rename_i h
    rw [if_neg h]
    omega

theorem yearStart_le_dayNumber (year : ℤ) (month day : ℕ) : yearStart year ≤ dayNumber year month day := by
  rw [dayNumber]
  omega

def Date.Before (a b : Date) : Prop :=
  a.year < b.year ∨ a.year = b.year ∧ (a.month < b.month ∨ a.month = b.month ∧ a.day < b.day)

theorem dayNumber_lt_dayNumber {a b : Date} (ha : Date.Valid a) (hb : Date.Valid b) (h : Date.Before a b) :
    dayNumber a.year a.month a.day < dayNumber b.year b.month b.day := by
  rcases h with hyear | ⟨hyear, hmonth | ⟨hmonth, hday⟩⟩
  · have hend := dayNumber_lt ha
    have hnext : yearStart (a.year + 1) ≤ yearStart b.year := yearStart_strictMono.monotone (by omega)
    have hstart := yearStart_le_dayNumber b.year b.month b.day
    omega
  · obtain ⟨⟨hfirst, hlast⟩, hpos, hle⟩ := ha
    have htake := monthLengths_take (isLeap b.year) (b.month - 1) (by have := hb.month; omega)
      (a.month - 1) (by omega)
    rw [daysIn, hyear] at hle
    rw [dayNumber, dayNumber, hyear]
    omega
  · have hpos := ha.day
    rw [dayNumber, dayNumber, hyear, hmonth]
    omega

theorem Date.before_trichotomy (a b : Date) : Date.Before a b ∨ a = b ∨ Date.Before b a := by
  obtain ⟨ya, ma, da⟩ := a
  obtain ⟨yb, mb, db⟩ := b
  simp only [Date.Before, Date.mk.injEq]
  omega

theorem dateOf_dayNumber {date : Date} (h : Date.Valid date) :
    dateOf (dayNumber date.year date.month date.day) = date := by
  have hvalid := dateOf_valid (dayNumber date.year date.month date.day)
  obtain ⟨-, -, -, -, hday⟩ := dateOf_spec (dayNumber date.year date.month date.day)
  rcases Date.before_trichotomy (dateOf (dayNumber date.year date.month date.day)) date with
    hlt | heq | hgt
  · have := dayNumber_lt_dayNumber hvalid h hlt
    omega
  · exact heq
  · have := dayNumber_lt_dayNumber h hvalid hgt
    omega

theorem dateOf_before {d e : ℤ} (h : d < e) : Date.Before (dateOf d) (dateOf e) := by
  obtain ⟨-, -, -, -, hd⟩ := dateOf_spec d
  obtain ⟨-, -, -, -, he⟩ := dateOf_spec e
  rcases Date.before_trichotomy (dateOf d) (dateOf e) with hlt | heq | hgt
  · exact hlt
  · rw [heq] at hd
    omega
  · have := dayNumber_lt_dayNumber (dateOf_valid e) (dateOf_valid d) hgt
    omega

theorem year_le_of_le {d e : ℤ} (h : d ≤ e) : (dateOf d).year ≤ (dateOf e).year := by
  rcases lt_or_eq_of_le h with hlt | rfl
  · have := dateOf_before hlt
    unfold Date.Before at this
    omega
  · exact le_rfl

theorem year_pos_iff {d : ℤ} : 1 ≤ (dateOf d).year ↔ 0 ≤ d := by
  have hzero : (dateOf 0).year = 1 := by decide
  have hbefore : (dateOf (-1)).year = 0 := by decide
  constructor
  · intro h
    by_contra hneg
    have := year_le_of_le (show d ≤ -1 by omega)
    omega
  · intro h
    have := year_le_of_le h
    omega

/-! ## Reading back -/

theorem parseUint_eq_some_iff {s : GoString} {low high n : ℕ} :
    parseUint s low high = some n ↔ s.all isDigit = true ∧ low ≤ n ∧ n ≤ high ∧ decimal s = n := by
  rw [parseUint]
  constructor
  · intro h
    split at h
    · rename_i hcond
      obtain rfl := Option.some.inj h
      simp only [Bool.and_eq_true, decide_eq_true_eq] at hcond
      exact ⟨hcond.1.1, hcond.1.2, hcond.2, rfl⟩
    · cases h
  · rintro ⟨hall, hlow, hhigh, rfl⟩
    rw [if_pos (by simp [hall, hlow, hhigh])]

theorem pad_decimal {s : GoString} (h : s.all isDigit = true) : pad s.length (decimal s) = s := by
  induction s using List.reverseRecOn with
  | nil => rfl
  | append_singleton s b ih =>
    rw [List.all_append, Bool.and_eq_true, List.all_cons, Bool.and_eq_true] at h
    obtain ⟨hs, hb, -⟩ := h
    have hdecimal : decimal (s ++ [b]) = decimal s * 10 + (b.toNat - 0x30) := by
      rw [decimal, List.foldl_append, List.foldl_cons, List.foldl_nil, ← decimal]
    have hdigit : ∀ c : UInt8, isDigit c = true → c.toNat - 0x30 < 10 ∧ digit (c.toNat - 0x30) = c := by
      decide +kernel
    obtain ⟨hlt, hback⟩ := hdigit b hb
    have hmod : digit (decimal s * 10 + (b.toNat - 0x30)) = digit (b.toNat - 0x30) := by
      rw [digit, digit, Nat.mul_add_mod_self_right]
    rw [List.length_append, List.length_singleton, pad, hdecimal, hmod, hback]
    have hdiv : (decimal s * 10 + (b.toNat - 0x30)) / 10 = decimal s := by omega
    rw [hdiv, ih hs]

theorem appendInt_of_lt {n width : ℕ} (h : n < 10 ^ width) : appendInt n width = pad width n := by
  rw [appendInt, if_neg (by omega), Int.natAbs_natCast, if_pos h]
  rfl

theorem formatDay_of_year {d : ℤ} {year : ℕ} (h : (dateOf d).year = year) (hyear : year ≤ 9999) :
    formatDay d = pad 4 year ++ 0x2D :: (pad 2 (dateOf d).month ++ 0x2D :: pad 2 (dateOf d).day) := by
  obtain ⟨-, hmonth, -, hday, -⟩ := dateOf_spec d
  have hdays := daysIn_le (dateOf d).month (dateOf d).year
  rw [formatDay, h, appendInt_of_lt (by omega), appendInt_of_lt (by omega), appendInt_of_lt (by omega)]

theorem decimal_digits {fuel n : ℕ} (h : n < fuel) : decimal (digits fuel n) = n := by
  induction fuel generalizing n with
  | zero => omega
  | succ fuel ih =>
    rw [digits]
    split
    · rename_i hsmall
      have hone : decimal [digit n] = n % 10 := by
        have := decimal_append_digit [] n
        simpa [decimal] using this
      rw [hone, Nat.mod_eq_of_lt hsmall]
    · rw [decimal_append_digit, ih (by omega)]
      omega

theorem decimal_magnitude (width n : ℕ) :
    decimal (if n < 10 ^ width then pad width n else itoaNat n) = n := by
  split
  · rename_i h
    exact decimal_pad h
  · exact decimal_digits (Nat.lt_succ_self n)

theorem magnitude_head (width n : ℕ) :
    (if n < 10 ^ (width + 1) then pad (width + 1) n else itoaNat n).head? ≠ some 0x2D := by
  intro h
  have hmem := List.mem_of_head? h
  split at hmem
  · have hall := List.all_eq_true.mp (all_pad (width + 1) n) _ hmem
    exact absurd hall (by decide)
  · exact absurd (digits_digit _ _ _ hmem).1 (by decide)

theorem appendInt_injective (width : ℕ) {x y : ℤ} (h : appendInt x (width + 1) = appendInt y (width + 1)) :
    x = y := by
  have hx := magnitude_head width x.natAbs
  have hy := magnitude_head width y.natAbs
  have hdx := decimal_magnitude (width + 1) x.natAbs
  have hdy := decimal_magnitude (width + 1) y.natAbs
  unfold appendInt at h
  generalize (if x.natAbs < 10 ^ (width + 1) then pad (width + 1) x.natAbs else itoaNat x.natAbs) = u
    at h hx hdx
  generalize (if y.natAbs < 10 ^ (width + 1) then pad (width + 1) y.natAbs else itoaNat y.natAbs) = v
    at h hy hdy
  by_cases hxneg : x < 0 <;> by_cases hyneg : y < 0
  · rw [if_pos hxneg, if_pos hyneg] at h
    rw [List.append_cancel_left h, hdy] at hdx
    omega
  · rw [if_pos hxneg, if_neg hyneg, List.nil_append] at h
    rw [← h] at hy
    exact absurd rfl hy
  · rw [if_neg hxneg, if_pos hyneg, List.nil_append] at h
    rw [h] at hx
    exact absurd rfl hx
  · rw [if_neg hxneg, if_neg hyneg, List.nil_append, List.nil_append] at h
    rw [h, hdy] at hdx
    omega

theorem formatDay_injective {d e : ℤ} (h : formatDay d = formatDay e) : d = e := by
  have hlength : ∀ d : ℤ, appendInt (dateOf d).month 2 = pad 2 (dateOf d).month ∧
      appendInt (dateOf d).day 2 = pad 2 (dateOf d).day := by
    intro d
    obtain ⟨-, hmonth, -, hday, -⟩ := dateOf_spec d
    have hdays := daysIn_le (dateOf d).month (dateOf d).year
    exact ⟨appendInt_of_lt (by omega), appendInt_of_lt (by omega)⟩
  obtain ⟨hyear, hrest⟩ := List.append_inj' h (by simp only [hlength]; rfl)
  obtain ⟨hmonth, hday⟩ := List.append_inj (List.cons.inj hrest).2 (by simp only [hlength]; rfl)
  have hyear := appendInt_injective 3 hyear
  have hmonth := appendInt_injective 1 hmonth
  have hday := appendInt_injective 1 (List.cons.inj hday).2
  obtain ⟨-, -, -, -, hd⟩ := dateOf_spec d
  obtain ⟨-, -, -, -, he⟩ := dateOf_spec e
  rw [← hd, ← he, hyear, Int.ofNat.inj hmonth, Int.ofNat.inj hday]

theorem parseDay_formatDay {d : ℤ} (hfirst : 0 ≤ (dateOf d).year) (hlast : (dateOf d).year ≤ 9999) :
    parseDay (formatDay d) = some d := by
  obtain ⟨year, hyear⟩ := Int.eq_ofNat_of_zero_le hfirst
  obtain ⟨hmonth, hmonths, hday, hdays, hnumber⟩ := dateOf_spec d
  have hle := daysIn_le (dateOf d).month (dateOf d).year
  have hy : parseUint (pad 4 year) 0 9999 = some year :=
    parseUint_pad 4 (by omega) (Nat.zero_le _) (by omega)
  have hm : parseUint (pad 2 (dateOf d).month) 1 12 = some (dateOf d).month :=
    parseUint_pad 2 (by omega) hmonth hmonths
  have hd : parseUint (pad 2 (dateOf d).day) 1 (daysIn (dateOf d).month year) = some (dateOf d).day :=
    parseUint_pad 2 (by omega) hday (by rw [← hyear]; exact hdays)
  have hyears : (formatDay d).take 4 = pad 4 year := by
    rw [formatDay_of_year hyear (by omega)]
    rfl
  have hmonthText : ((formatDay d).drop 5).take 2 = pad 2 (dateOf d).month := by
    rw [formatDay_of_year hyear (by omega)]
    rfl
  have hdayText : ((formatDay d).drop 8).take 2 = pad 2 (dateOf d).day := by
    rw [formatDay_of_year hyear (by omega)]
    rfl
  have hshape : (formatDay d).length = 10 ∧ (formatDay d)[4]? = some 0x2D ∧
      (formatDay d)[7]? = some 0x2D := by
    rw [formatDay_of_year hyear (by omega)]
    exact ⟨rfl, rfl, rfl⟩
  rw [parseDay, hyears, hy, Option.bind_some, hmonthText, hm, Option.bind_some, hdayText, hd,
    Option.bind_some, if_pos hshape, ← hyear, hnumber]

theorem parseDay_spec {s : GoString} {d : ℤ} (h : parseDay s = some d) :
    0 ≤ (dateOf d).year ∧ (dateOf d).year ≤ 9999 ∧ formatDay d = s := by
  obtain ⟨year, hyear, h⟩ := Option.bind_eq_some_iff.mp h
  obtain ⟨month, hmonth, h⟩ := Option.bind_eq_some_iff.mp h
  obtain ⟨day, hday, h⟩ := Option.bind_eq_some_iff.mp h
  obtain ⟨⟨hlength, hfourth, hseventh⟩, h⟩ := Option.ite_none_right_eq_some.mp h
  obtain rfl := Option.some.inj h
  obtain ⟨hyears, -, hlast, hyear⟩ := parseUint_eq_some_iff.mp hyear
  obtain ⟨hmonths, hfirstMonth, hlastMonth, hmonth⟩ := parseUint_eq_some_iff.mp hmonth
  obtain ⟨hdays, hfirstDay, hlastDay, hday⟩ := parseUint_eq_some_iff.mp hday
  have hdate : dateOf (dayNumber year month day) = ⟨year, month, day⟩ :=
    @dateOf_dayNumber ⟨year, month, day⟩ ⟨⟨hfirstMonth, hlastMonth⟩, hfirstDay, hlastDay⟩
  have htext : formatDay (dayNumber year month day) =
      pad 4 year ++ 0x2D :: (pad 2 month ++ 0x2D :: pad 2 day) := by
    rw [formatDay_of_year (by rw [hdate]) hlast, hdate]
  refine ⟨by rw [hdate]; exact Int.natCast_nonneg year, by rw [hdate]; exact Int.ofNat_le.mpr hlast, ?_⟩
  obtain ⟨y1, y2, y3, y4, c, m1, m2, e, d1, d2, rfl⟩ : ∃ y1 y2 y3 y4 c m1 m2 e d1 d2,
      s = [y1, y2, y3, y4, c, m1, m2, e, d1, d2] := by
    match s, hlength with
    | [y1, y2, y3, y4, c, m1, m2, e, d1, d2], _ => exact ⟨y1, y2, y3, y4, c, m1, m2, e, d1, d2, rfl⟩
  obtain rfl : c = 0x2D := Option.some.inj hfourth
  obtain rfl : e = 0x2D := Option.some.inj hseventh
  have hy : pad 4 (decimal [y1, y2, y3, y4]) = [y1, y2, y3, y4] := pad_decimal hyears
  have hm : pad 2 (decimal [m1, m2]) = [m1, m2] := pad_decimal hmonths
  have hd : pad 2 (decimal [d1, d2]) = [d1, d2] := pad_decimal hdays
  rw [htext, ← hyear, ← hmonth, ← hday]
  calc
    _ = pad 4 (decimal [y1, y2, y3, y4]) ++ 0x2D ::
        (pad 2 (decimal [m1, m2]) ++ 0x2D :: pad 2 (decimal [d1, d2])) := rfl
    _ = _ := by rw [hy, hm, hd]; rfl

/-! ## The order of texts -/

theorem append_lt_append_of_lt {a b : GoString} (h : a < b) (hlength : a.length = b.length)
    (x y : GoString) : a ++ x < b ++ y := by
  induction a generalizing b with
  | nil =>
    obtain rfl := List.length_eq_zero_iff.mp hlength.symm
    exact absurd h (List.not_lt_nil _)
  | cons c a ih =>
    cases b with
    | nil => cases hlength
    | cons e b =>
      rw [List.cons_append, List.cons_append, List.cons_lt_cons_iff]
      rcases List.cons_lt_cons_iff.mp h with hlt | ⟨rfl, hlt⟩
      · exact .inl hlt
      · exact .inr ⟨rfl, ih hlt (Nat.succ.inj hlength)⟩

theorem pad_lt_pad {width m n : ℕ} (h : m < n) (hn : n < 10 ^ width) : pad width m < pad width n := by
  induction width generalizing m n with
  | zero => omega
  | succ width ih =>
    rw [Nat.pow_succ] at hn
    rw [pad, pad]
    by_cases hlt : m / 10 < n / 10
    · exact append_lt_append_of_lt (ih hlt (by omega)) (by rw [length_pad, length_pad]) _ _
    · have heq : m / 10 = n / 10 := by omega
      have hdigit : ∀ i < 10, ∀ j < 10, i < j → digit i < digit j := by decide
      have hlast : digit (m % 10) < digit (n % 10) :=
        hdigit _ (Nat.mod_lt _ (by decide)) _ (Nat.mod_lt _ (by decide)) (by omega)
      have hmod : ∀ k, digit (k % 10) = digit k := fun k => by rw [digit, digit, Nat.mod_mod]
      rw [hmod, hmod] at hlast
      rw [heq]
      exact List.append_left_lt (List.cons_lt_cons_iff.mpr (.inl hlast))

theorem formatDay_lt {d e : ℤ} (h : d < e) (hfirst : 0 ≤ (dateOf d).year) (hlast : (dateOf e).year ≤ 9999) :
    formatDay d < formatDay e := by
  have hle := year_le_of_le h.le
  obtain ⟨yd, hyd⟩ := Int.eq_ofNat_of_zero_le hfirst
  obtain ⟨ye, hye⟩ := Int.eq_ofNat_of_zero_le (hfirst.trans hle)
  obtain ⟨-, hmonth, -, hday, -⟩ := dateOf_spec e
  have hdays := daysIn_le (dateOf e).month (dateOf e).year
  rw [formatDay_of_year hyd (by omega), formatDay_of_year hye (by omega)]
  rcases dateOf_before h with hyear | ⟨hyear, hmonths | ⟨hmonths, hday⟩⟩
  · have hlt : pad 4 yd < pad 4 ye := pad_lt_pad (by omega) (by omega)
    exact append_lt_append_of_lt hlt rfl _ _
  · obtain rfl : yd = ye := by omega
    have hlt : pad 2 (dateOf d).month < pad 2 (dateOf e).month := pad_lt_pad hmonths (by omega)
    exact List.append_left_lt (List.cons_lt_cons_iff.mpr
      (.inr ⟨rfl, append_lt_append_of_lt hlt rfl _ _⟩))
  · obtain rfl : yd = ye := by omega
    have hlt : pad 2 (dateOf d).day < pad 2 (dateOf e).day := pad_lt_pad hday (by omega)
    rw [hmonths]
    exact List.append_left_lt (List.cons_lt_cons_iff.mpr
      (.inr ⟨rfl, List.append_left_lt (List.cons_lt_cons_iff.mpr (.inr ⟨rfl, hlt⟩))⟩))

theorem parseDay_lt_iff {s t : GoString} {d e : ℤ} (hs : parseDay s = some d) (ht : parseDay t = some e) :
    s < t ↔ d < e := by
  obtain ⟨hsfirst, hslast, rfl⟩ := parseDay_spec hs
  obtain ⟨htfirst, htlast, rfl⟩ := parseDay_spec ht
  constructor
  · intro h
    rcases lt_trichotomy d e with hlt | rfl | hgt
    · exact hlt
    · exact absurd h (List.lt_irrefl _)
    · exact absurd (List.lt_trans h (formatDay_lt hgt htfirst hslast)) (List.lt_irrefl _)
  · intro h
    exact formatDay_lt h hsfirst htlast

end SubscriptionRouter.CalendarDays
