import Mathlib
import SubscriptionRouter.JsonRoundTrip

set_option autoImplicit false

/-!
# Times as texts

`time.Time` as JSON: an instant is a number of nanoseconds since the start of the year one,
written as the date and time of day that a zone has at it.
-/
namespace SubscriptionRouter.Rfc3339
open GoText JsonText JsonRoundTrip

/-! ## The calendar -/

structure Date where
  year : ℤ
  month : ℕ
  day : ℕ

def isLeap (year : ℤ) : Bool := year % 4 = 0 && (year % 100 ≠ 0 || year % 400 = 0)

def monthLengths (leap : Bool) : List ℕ :=
  [31, if leap then 29 else 28, 31, 30, 31, 30, 31, 31, 30, 31, 30, 31]

def daysIn (month : ℕ) (year : ℤ) : ℕ := (monthLengths (isLeap year)).getD (month - 1) 0

def yearStart (year : ℤ) : ℤ :=
  365 * (year - 1) + (year - 1) / 4 - (year - 1) / 100 + (year - 1) / 400

/-- The year of a day, by the cycles of 400, 100, 4 and 1 years; the last day of a cycle
belongs to its last year. -/
def yearOf (d : ℤ) : ℤ :=
  let century := min (d % 146097 / 36524) 3
  let r := d % 146097 - 36524 * century
  400 * (d / 146097) + 100 * century + 4 * (r / 1461) + min (r % 1461 / 365) 3 + 1

/-- The month in which a day of the year falls, and the day in it, both counted from zero. -/
def splitMonth : List ℕ → ℕ → ℕ × ℕ
  | [], d => (0, d)
  | n :: rest, d =>
    if d < n then (0, d)
    else ((splitMonth rest (d - n)).1 + 1, (splitMonth rest (d - n)).2)

def dateOf (d : ℤ) : Date :=
  let year := yearOf d
  let split := splitMonth (monthLengths (isLeap year)) (d - yearStart year).toNat
  ⟨year, split.1 + 1, split.2 + 1⟩

def dayNumber (year : ℤ) (month day : ℕ) : ℤ :=
  yearStart year + ((monthLengths (isLeap year)).take (month - 1)).sum + (day - 1 : ℕ)

theorem isLeap_iff (year : ℤ) :
    isLeap year = true ↔ year % 4 = 0 ∧ (year % 100 ≠ 0 ∨ year % 400 = 0) := by
  simp [isLeap]

theorem sum_monthLengths (leap : Bool) : (monthLengths leap).sum = if leap then 366 else 365 := by
  cases leap <;> rfl

/-- A day by its cycles: `a` of 400 years, `b` of 100, `c` of 4 and `e` of one, and `k` days. A
last day is left over in the years that end a cycle, and these are leap years. -/
structure Cycles (d a b c e k : ℤ) : Prop where
  day : d = 146097 * a + 36524 * b + 1461 * c + 365 * e + k
  year : yearOf d = 400 * a + 100 * b + 4 * c + e + 1
  century : 0 ≤ b ∧ b ≤ 3
  fours : 0 ≤ c ∧ c ≤ 24
  ones : 0 ≤ e ∧ e ≤ 3
  rest : 0 ≤ k ∧ (k ≤ 364 ∨ k = 365 ∧ e = 3 ∧ (c ≤ 23 ∨ b = 3))

theorem exists_cycles (d : ℤ) : ∃ a b c e k, Cycles d a b c e k := by
  have hday := Int.emod_nonneg d (by decide : (146097 : ℤ) ≠ 0)
  have hlt := Int.emod_lt_of_pos d (by decide : (0 : ℤ) < 146097)
  have hdiv := Int.emod_add_mul_ediv d 146097
  have hyear : yearOf d = 400 * (d / 146097) + 100 * min (d % 146097 / 36524) 3 +
      4 * ((d % 146097 - 36524 * min (d % 146097 / 36524) 3) / 1461) +
      min ((d % 146097 - 36524 * min (d % 146097 / 36524) 3) % 1461 / 365) 3 + 1 := rfl
  generalize d % 146097 = r at hday hlt hdiv hyear
  generalize d / 146097 = a at hdiv hyear
  have hb : 0 ≤ min (r / 36524) 3 ∧ min (r / 36524) 3 ≤ 3 ∧ 0 ≤ r - 36524 * min (r / 36524) 3 ∧
      (r - 36524 * min (r / 36524) 3 ≤ 36523 ∨
        min (r / 36524) 3 = 3 ∧ r - 36524 * min (r / 36524) 3 ≤ 36524) := by
    omega
  generalize min (r / 36524) 3 = b at hb hyear
  have hc := Int.emod_add_mul_ediv (r - 36524 * b) 1461
  have hclt := Int.emod_lt_of_pos (r - 36524 * b) (by decide : (0 : ℤ) < 1461)
  have hcnonneg := Int.emod_nonneg (r - 36524 * b) (by decide : (1461 : ℤ) ≠ 0)
  generalize (r - 36524 * b) % 1461 = q at hc hclt hcnonneg hyear
  generalize (r - 36524 * b) / 1461 = c at hc hyear
  have he : 0 ≤ min (q / 365) 3 ∧ min (q / 365) 3 ≤ 3 ∧ 0 ≤ q - 365 * min (q / 365) 3 ∧
      (q - 365 * min (q / 365) 3 ≤ 364 ∨ min (q / 365) 3 = 3 ∧ q = 1460) := by
    omega
  generalize min (q / 365) 3 = e at he hyear
  exact ⟨a, b, c, e, q - 365 * e, ⟨by omega, hyear, by omega, by omega, by omega, by omega⟩⟩

theorem Cycles.yearStart_eq {d a b c e k : ℤ} (h : Cycles d a b c e k) :
    yearStart (yearOf d) = 146097 * a + 36524 * b + 1461 * c + 365 * e := by
  obtain ⟨-, hyear, hb, hc, he, -⟩ := h
  have hone : 400 * a + 100 * b + 4 * c + e + 1 - 1 = 400 * a + 100 * b + 4 * c + e := by omega
  have hfours : (400 * a + 100 * b + 4 * c + e) / 4 = 100 * a + 25 * b + c := by omega
  have hcenturies : (400 * a + 100 * b + 4 * c + e) / 100 = 4 * a + b := by omega
  have hcycles : (400 * a + 100 * b + 4 * c + e) / 400 = a := by omega
  rw [yearStart, hyear, hone, hfours, hcenturies, hcycles]
  omega

theorem yearOf_le (d : ℤ) : yearStart (yearOf d) ≤ d := by
  obtain ⟨a, b, c, e, k, h⟩ := exists_cycles d
  rw [h.yearStart_eq]
  have hday := h.day
  have hrest := h.rest
  omega

theorem lt_yearOf (d : ℤ) : d - yearStart (yearOf d) < if isLeap (yearOf d) then 366 else 365 := by
  obtain ⟨a, b, c, e, k, h⟩ := exists_cycles d
  rw [h.yearStart_eq]
  obtain ⟨hday, hyear, hb, hc, he, hrest⟩ := h
  split
  · omega
  · rename_i hleap
    rw [isLeap_iff, hyear] at hleap
    omega

theorem splitMonth_spec {l : List ℕ} {d : ℕ} (h : d < l.sum) :
    (splitMonth l d).1 < l.length ∧ (l.take (splitMonth l d).1).sum + (splitMonth l d).2 = d ∧
      (splitMonth l d).2 < l.getD (splitMonth l d).1 0 := by
  induction l generalizing d with
  | nil => cases h
  | cons n rest ih =>
    rw [List.sum_cons] at h
    rw [splitMonth]
    split
    · rename_i hd
      exact ⟨Nat.succ_pos _, Nat.zero_add d, hd⟩
    · rename_i hd
      obtain ⟨hindex, hsum, hday⟩ := ih (d := d - n) (by omega)
      refine ⟨Nat.succ_lt_succ hindex, ?_, hday⟩
      rw [List.take_succ_cons, List.sum_cons]
      omega

theorem dateOf_spec (d : ℤ) : 1 ≤ (dateOf d).month ∧ (dateOf d).month ≤ 12 ∧ 1 ≤ (dateOf d).day ∧
    (dateOf d).day ≤ daysIn (dateOf d).month (dateOf d).year ∧
      dayNumber (dateOf d).year (dateOf d).month (dateOf d).day = d := by
  have hstart := yearOf_le d
  have hlt := lt_yearOf d
  have hsum : (d - yearStart (yearOf d)).toNat < (monthLengths (isLeap (yearOf d))).sum := by
    rw [sum_monthLengths]
    split at hlt
    · rename_i h
      rw [if_pos h]
      omega
    · rename_i h
      rw [if_neg h]
      omega
  obtain ⟨hindex, htotal, hday⟩ := splitMonth_spec hsum
  refine ⟨Nat.succ_pos _, hindex, Nat.succ_pos _, hday, ?_⟩
  simp only [dayNumber, dateOf, Nat.add_sub_cancel]
  omega

theorem daysIn_le (month : ℕ) (year : ℤ) : daysIn month year ≤ 31 := by
  rw [daysIn, List.getD_eq_getElem?_getD]
  cases h : (monthLengths (isLeap year))[month - 1]? with
  | none => exact Nat.zero_le _
  | some n =>
    have hall : ∀ leap, ∀ n ∈ monthLengths leap, n ≤ 31 := by decide
    exact hall _ n (List.mem_of_getElem? h)

/-! ## Numbers of a fixed width -/

/-- The last `width` digits of a number. -/
def pad : ℕ → ℕ → GoString
  | 0, _ => []
  | width + 1, n => pad width (n / 10) ++ [digit n]

def decimal (s : GoString) : ℕ := s.foldl (fun n b => n * 10 + (b.toNat - 0x30)) 0

def parseUint (s : GoString) (min max : ℕ) : Option ℕ :=
  if s.all isDigit && min ≤ decimal s && decimal s ≤ max then some (decimal s) else none

theorem isDigit_digit (n : ℕ) : isDigit (digit n) = true := by
  have hdigit : ∀ k < 10, isDigit (UInt8.ofNat (0x30 + k)) = true := by decide
  exact hdigit _ (Nat.mod_lt n (by decide))

theorem length_pad (width n : ℕ) : (pad width n).length = width := by
  induction width generalizing n with
  | zero => rfl
  | succ width ih => rw [pad, List.length_append, ih, List.length_singleton]

theorem all_pad (width n : ℕ) : (pad width n).all isDigit = true := by
  induction width generalizing n with
  | zero => rfl
  | succ width ih =>
    rw [pad, List.all_append, ih, List.all_cons, isDigit_digit]
    rfl

theorem decimal_append_digit (s : GoString) (n : ℕ) :
    decimal (s ++ [digit n]) = decimal s * 10 + n % 10 := by
  rw [decimal, List.foldl_append, List.foldl_cons, List.foldl_nil, toNat_digit, ← decimal]
  omega

theorem decimal_pad {width n : ℕ} (h : n < 10 ^ width) : decimal (pad width n) = n := by
  induction width generalizing n with
  | zero =>
    obtain rfl : n = 0 := by omega
    rfl
  | succ width ih =>
    rw [Nat.pow_succ] at h
    rw [pad, decimal_append_digit, ih (by omega)]
    omega

theorem parseUint_pad (width : ℕ) {n min max : ℕ} (h : n < 10 ^ width) (hmin : min ≤ n) (hmax : n ≤ max) :
    parseUint (pad width n) min max = some n := by
  rw [parseUint, decimal_pad h, all_pad, if_pos (by simp [hmin, hmax])]

/-! ## Texts -/

def fraction (nanos : ℕ) : GoString :=
  if nanos = 0 then [] else 0x2E :: (pad 9 nanos).rdropWhile (· = 0x30)

/-- The offset of a zone in whole minutes; seconds are left out. -/
def zone (offset : ℤ) : GoString :=
  if offset = 0 then lit "Z"
  else (if offset.tdiv 60 < 0 then 0x2D else 0x2B) :: pad 2 ((offset.tdiv 60).natAbs / 60) ++
    0x3A :: pad 2 ((offset.tdiv 60).natAbs % 60)

def localDate (instant offset : ℤ) : Date := dateOf ((instant / 10 ^ 9 + offset) / 86400)

/-- `Time.AppendFormat` with `RFC3339Nano`, for years and zones in range. -/
def format (instant offset : ℤ) : GoString :=
  let date := localDate instant offset
  let clock := ((instant / 10 ^ 9 + offset) % 86400).toNat
  pad 4 date.year.toNat ++ 0x2D :: (pad 2 date.month ++ 0x2D :: (pad 2 date.day ++ 0x54 ::
    (pad 2 (clock / 3600) ++ 0x3A :: (pad 2 (clock / 60 % 60) ++ 0x3A :: (pad 2 (clock % 60) ++
      (fraction (instant % 10 ^ 9).toNat ++ zone offset))))))

/-- `Time.MarshalJSON`, without the quotation marks. -/
def marshalTime (instant offset : ℤ) : Option GoString :=
  if 0 ≤ (localDate instant offset).year ∧ (localDate instant offset).year ≤ 9999 ∧
      (offset.tdiv 60).natAbs / 60 < 24 then
    some (format instant offset)
  else none

/-- `parseNanoseconds`: nine digits at most. -/
def nanoseconds (digits : GoString) : ℕ :=
  decimal (digits.take 9) * 10 ^ (9 - (digits.take 9).length)

def parseZone (s : GoString) : Option ℤ :=
  if s = lit "Z" then some 0
  else if s.length ≠ 6 then none
  else (parseUint ((s.drop 1).take 2) 0 23).bind fun hours =>
    (parseUint ((s.drop 4).take 2) 0 59).bind fun minutes =>
      if s[3]? ≠ some 0x3A then none
      else if s[0]? = some 0x2D then some (-(((hours * 60 + minutes) * 60 : ℕ) : ℤ))
      else if s[0]? = some 0x2B then some ((hours * 60 + minutes) * 60 : ℕ)
      else none

/-- The digits after a decimal point. -/
def fractionDigits (s : GoString) : GoString :=
  match s with
  | 0x2E :: rest => rest.takeWhile isDigit
  | _ => []

def dropFraction (s : GoString) : GoString :=
  if fractionDigits s = [] then s else s.drop (1 + (fractionDigits s).length)

def hasSeparators (s : GoString) : Bool :=
  s[4]? = some 0x2D && s[7]? = some 0x2D && s[10]? = some 0x54 && s[13]? = some 0x3A &&
    s[16]? = some 0x3A

/-- `parseRFC3339`: the instant that a text stands for. -/
def parseRFC3339 (s : GoString) : Option ℤ :=
  (parseUint (s.take 4) 0 9999).bind fun year =>
  (parseUint ((s.drop 5).take 2) 1 12).bind fun month =>
  (parseUint ((s.drop 8).take 2) 1 (daysIn month year)).bind fun day =>
  (parseUint ((s.drop 11).take 2) 0 23).bind fun hour =>
  (parseUint ((s.drop 14).take 2) 0 59).bind fun min =>
  (parseUint ((s.drop 17).take 2) 0 59).bind fun sec =>
    if s.length < 19 || !hasSeparators s then none
    else (parseZone (dropFraction (s.drop 19))).map fun zone =>
      (dayNumber year month day * 86400 + (hour * 3600 + min * 60 + sec : ℕ) - zone) * 10 ^ 9 +
        nanoseconds (fractionDigits (s.drop 19))

/-! ## Reading back -/

theorem decimal_rdropWhile (s : GoString) :
    decimal (s.rdropWhile (· = 0x30)) * 10 ^ (s.length - (s.rdropWhile (· = 0x30)).length) =
      decimal s := by
  induction s using List.reverseRecOn with
  | nil => rfl
  | append_singleton s b ih =>
    by_cases hb : b = 0x30
    · have hle : (s.rdropWhile (· = 0x30)).length ≤ s.length := (List.rdropWhile_prefix _ s).length_le
      have hzero : decimal (s ++ [b]) = decimal s * 10 := by
        rw [hb, decimal, List.foldl_append, List.foldl_cons, List.foldl_nil, ← decimal]
        rfl
      rw [List.rdropWhile_concat_pos _ _ _ (by simp [hb]), hzero, ← ih, List.length_append,
        List.length_singleton, Nat.succ_sub hle, Nat.pow_succ, Nat.mul_assoc]
    · rw [List.rdropWhile_concat_neg _ _ _ (by simp [hb]), Nat.sub_self, Nat.pow_zero, Nat.mul_one]

theorem zone_head (offset : ℤ) : ∃ b rest, zone offset = b :: rest ∧ isDigit b = false ∧ b ≠ 0x2E := by
  rw [zone]
  split
  · exact ⟨0x5A, [], rfl, rfl, by decide⟩
  · split
    · exact ⟨0x2D, _, rfl, rfl, by decide⟩
    · exact ⟨0x2B, _, rfl, rfl, by decide⟩

theorem parseZone_cons (sign : UInt8) {hours minutes : ℕ} (hhours : hours ≤ 23)
    (hminutes : minutes ≤ 59) :
    parseZone (sign :: pad 2 hours ++ 0x3A :: pad 2 minutes) =
      if sign = 0x2D then some (-(((hours * 60 + minutes) * 60 : ℕ) : ℤ))
      else if sign = 0x2B then some ((hours * 60 + minutes) * 60 : ℕ)
      else none := by
  have hh : parseUint (pad 2 hours) 0 23 = some hours :=
    parseUint_pad 2 (by omega) (Nat.zero_le _) hhours
  have hm : parseUint (pad 2 minutes) 0 59 = some minutes :=
    parseUint_pad 2 (by omega) (Nat.zero_le _) hminutes
  have hlength : (sign :: pad 2 hours ++ 0x3A :: pad 2 minutes).length = 6 := rfl
  have hne : sign :: pad 2 hours ++ 0x3A :: pad 2 minutes ≠ lit "Z" := by
    intro heq
    cases hlength.symm.trans (congrArg List.length heq)
  have hfront : ((sign :: pad 2 hours ++ 0x3A :: pad 2 minutes).drop 1).take 2 = pad 2 hours := rfl
  have hback : ((sign :: pad 2 hours ++ 0x3A :: pad 2 minutes).drop 4).take 2 = pad 2 minutes := rfl
  have hcolon : (sign :: pad 2 hours ++ 0x3A :: pad 2 minutes)[3]? = some 0x3A := rfl
  have hsign : (sign :: pad 2 hours ++ 0x3A :: pad 2 minutes)[0]? = some sign := rfl
  rw [parseZone, if_neg hne, if_neg (not_not.mpr hlength), hfront, hh, Option.bind_some, hback, hm,
    Option.bind_some, if_neg (not_not.mpr hcolon), hsign]
  simp only [Option.some.injEq]

theorem parseZone_zone {offset : ℤ} (h : (offset.tdiv 60).natAbs / 60 < 24) :
    parseZone (zone offset) = some (offset.tdiv 60 * 60) := by
  by_cases hzero : offset = 0
  · subst hzero
    rfl
  · rw [zone, if_neg hzero, parseZone_cons _ (by omega) (by omega)]
    generalize offset.tdiv 60 = m
    by_cases hneg : m < 0
    · rw [if_pos hneg, if_pos rfl]
      congr 1
      omega
    · rw [if_neg hneg, if_neg (by decide), if_pos rfl]
      congr 1
      omega

theorem fractionDigits_fraction (nanos : ℕ) (offset : ℤ) : fractionDigits (fraction nanos ++ zone offset) =
    if nanos = 0 then [] else (pad 9 nanos).rdropWhile (· = 0x30) := by
  obtain ⟨b, rest, hzone, hdigit, hpoint⟩ := zone_head offset
  rw [fraction]
  split
  · rw [List.nil_append, hzone, fractionDigits]
    rintro t heq
    exact hpoint (List.cons.inj heq).1
  · have hall : ∀ c ∈ (pad 9 nanos).rdropWhile (· = 0x30), isDigit c = true := fun c hc =>
      List.all_eq_true.mp (all_pad 9 nanos) c ((List.rdropWhile_prefix _ _).subset hc)
    change (((pad 9 nanos).rdropWhile _) ++ zone offset).takeWhile isDigit = _
    rw [List.takeWhile_append_of_pos hall, hzone, List.takeWhile_cons_of_neg (by simp [hdigit]),
      List.append_nil]

theorem nanoseconds_fraction {nanos : ℕ} (h : nanos < 10 ^ 9) (offset : ℤ) :
    nanoseconds (fractionDigits (fraction nanos ++ zone offset)) = nanos := by
  rw [fractionDigits_fraction]
  split
  · rename_i hzero
    rw [hzero]
    rfl
  · have hdigits := decimal_rdropWhile (pad 9 nanos)
    have hlength : ((pad 9 nanos).rdropWhile (· = 0x30)).length ≤ 9 := by
      rw [← length_pad 9 nanos]
      exact (List.rdropWhile_prefix _ _).length_le
    rw [length_pad, decimal_pad h] at hdigits
    rw [nanoseconds, List.take_of_length_le hlength, hdigits]

theorem dropFraction_fraction (nanos : ℕ) (offset : ℤ) (h : nanos < 10 ^ 9) :
    dropFraction (fraction nanos ++ zone offset) = zone offset := by
  have hdigits := fractionDigits_fraction nanos offset
  rw [dropFraction, hdigits]
  by_cases hzero : nanos = 0
  · rw [if_pos hzero, if_pos rfl, hzero]
    rfl
  · have hne : (pad 9 nanos).rdropWhile (· = 0x30) ≠ [] := by
      intro hnil
      have hvalue := decimal_rdropWhile (pad 9 nanos)
      rw [hnil, decimal_pad h] at hvalue
      exact hzero (hvalue.symm.trans (Nat.zero_mul _))
    rw [if_neg hzero, if_neg hne, fraction, if_neg hzero, List.cons_append, Nat.add_comm,
      List.drop_succ_cons, List.drop_left']
    rfl

theorem date_texts {instant offset : ℤ} (hyear : 0 ≤ (localDate instant offset).year)
    (hyearMax : (localDate instant offset).year ≤ 9999) :
    parseUint ((format instant offset).take 4) 0 9999 =
        some (localDate instant offset).year.toNat ∧
      parseUint (((format instant offset).drop 5).take 2) 1 12 =
        some (localDate instant offset).month ∧
      parseUint (((format instant offset).drop 8).take 2) 1
        (daysIn (localDate instant offset).month (localDate instant offset).year) =
        some (localDate instant offset).day := by
  obtain ⟨hmonth, hmonthMax, hday, hdayMax, -⟩ := dateOf_spec ((instant / 10 ^ 9 + offset) / 86400)
  rw [← localDate] at hmonth hmonthMax hday hdayMax
  have hmonthLength := hdayMax.trans (daysIn_le _ _)
  refine ⟨?_, ?_, ?_⟩
  · exact parseUint_pad 4 (by omega) (Nat.zero_le _) (by omega)
  · exact parseUint_pad 2 (by omega) hmonth hmonthMax
  · exact parseUint_pad 2 (by omega) hday hdayMax

theorem clock_texts {instant offset : ℤ} {clock : ℕ}
    (h : (instant / 10 ^ 9 + offset) % 86400 = clock) :
    parseUint (((format instant offset).drop 11).take 2) 0 23 = some (clock / 3600) ∧
      parseUint (((format instant offset).drop 14).take 2) 0 59 = some (clock / 60 % 60) ∧
      parseUint (((format instant offset).drop 17).take 2) 0 59 = some (clock % 60) := by
  have hmax := Int.emod_lt_of_pos (instant / 10 ^ 9 + offset) (by decide : (0 : ℤ) < 86400)
  obtain rfl : clock = ((instant / 10 ^ 9 + offset) % 86400).toNat := by
    rw [h, Int.toNat_natCast]
  refine ⟨?_, ?_, ?_⟩
  · exact parseUint_pad 2 (by omega) (Nat.zero_le _) (by omega)
  · exact parseUint_pad 2 (by omega) (Nat.zero_le _) (by omega)
  · exact parseUint_pad 2 (by omega) (Nat.zero_le _) (by omega)

theorem format_drop (instant offset : ℤ) : (format instant offset).drop 19 =
    fraction (instant % 10 ^ 9).toNat ++ zone offset := rfl

theorem hasSeparators_format (instant offset : ℤ) : hasSeparators (format instant offset) = true := rfl

theorem le_length_format (instant offset : ℤ) : 19 ≤ (format instant offset).length := by
  have hdrop := List.length_drop (i := 19) (l := format instant offset)
  obtain ⟨b, rest, hzone, -⟩ := zone_head offset
  rw [format_drop, hzone, List.length_append, List.length_cons] at hdrop
  omega

theorem parse_format {instant offset : ℤ} {text : GoString}
    (h : marshalTime instant offset = some text) :
    parseRFC3339 text = some (instant + (offset - offset.tdiv 60 * 60) * 10 ^ 9) := by
  rw [marshalTime] at h
  split at h
  · rename_i hrange
    obtain ⟨hyear, hyearMax, hhours⟩ := hrange
    obtain rfl := Option.some.inj h
    obtain ⟨-, -, -, -, hnumber⟩ := dateOf_spec ((instant / 10 ^ 9 + offset) / 86400)
    rw [← localDate] at hnumber
    obtain ⟨hyearText, hmonthText, hdayText⟩ := date_texts hyear hyearMax
    have hyearCast := Int.toNat_of_nonneg hyear
    obtain ⟨clock, hclock⟩ := Int.eq_ofNat_of_zero_le
      (Int.emod_nonneg (instant / 10 ^ 9 + offset) (by decide : (86400 : ℤ) ≠ 0))
    obtain ⟨hhourText, hminText, hsecText⟩ := clock_texts hclock
    have hseconds := Int.emod_add_mul_ediv (instant / 10 ^ 9 + offset) 86400
    rw [hclock] at hseconds
    have hnanos : (instant % 10 ^ 9).toNat < 10 ^ 9 := by omega
    have hshort : ¬ ((decide ((format instant offset).length < 19) ||
        !hasSeparators (format instant offset)) = true) := by
      rw [hasSeparators_format, decide_eq_false (Nat.not_lt.mpr (le_length_format instant offset))]
      decide
    rw [parseRFC3339, hyearText, Option.bind_some, hmonthText, Option.bind_some, hyearCast, hdayText,
      Option.bind_some, hhourText, Option.bind_some, hminText, Option.bind_some, hsecText,
      Option.bind_some, if_neg hshort, format_drop, dropFraction_fraction _ _ hnanos,
      parseZone_zone hhours, nanoseconds_fraction hnanos, Option.map_some, hnumber]
    congr 1
    omega
  · cases h

example : format 63909302400500000000 7200 = lit "2026-03-17T02:00:00.5+02:00" := by decide
example : parseRFC3339 (lit "2026-03-17T02:00:00.5+02:00") = some 63909302400500000000 := by
  decide

/-! ## The bytes of a time -/

theorem ascii_pad (width n : ℕ) : ∀ b ∈ pad width n, b < 0x80 := by
  intro b hb
  have hdigit := List.all_eq_true.mp (all_pad width n) b hb
  simp only [isDigit, Bool.and_eq_true, decide_eq_true_eq] at hdigit
  exact UInt8.lt_of_le_of_lt hdigit.2 (by decide)

theorem ascii_fraction (nanos : ℕ) : ∀ b ∈ fraction nanos, b < 0x80 := by
  intro b hb
  rw [fraction] at hb
  split at hb
  · cases hb
  · rcases List.mem_cons.mp hb with rfl | hb
    · decide
    · exact ascii_pad 9 nanos b ((List.rdropWhile_prefix _ _).subset hb)

theorem ascii_zone (offset : ℤ) : ∀ b ∈ zone offset, b < 0x80 := by
  intro b hb
  rw [zone] at hb
  split at hb
  · rw [List.mem_singleton.mp hb]
    decide
  · rcases List.mem_append.mp hb with hb | hb
    · rcases List.mem_cons.mp hb with rfl | hb
      · split <;> decide
      · exact ascii_pad _ _ b hb
    · rcases List.mem_cons.mp hb with rfl | hb
      · decide
      · exact ascii_pad _ _ b hb

theorem ascii_format (instant offset : ℤ) : ∀ b ∈ format instant offset, b < 0x80 := by
  intro b hb
  simp only [format, List.mem_append, List.mem_cons] at hb
  rcases hb with hb | rfl | hb | rfl | hb | rfl | hb | rfl | hb | rfl | hb | hb | hb
  all_goals first
    | exact ascii_pad _ _ b hb
    | exact ascii_fraction _ b hb
    | exact ascii_zone _ b hb
    | decide

theorem length_fraction (nanos : ℕ) : (fraction nanos).length ≤ 10 := by
  rw [fraction]
  split
  · exact Nat.zero_le _
  · rw [List.length_cons, ← length_pad 9 nanos]
    exact Nat.succ_le_succ (List.rdropWhile_prefix _ _).length_le

theorem length_zone (offset : ℤ) : (zone offset).length ≤ 6 := by
  rw [zone]
  split
  · exact Nat.le_of_ble_eq_true rfl
  · simp [length_pad]

theorem length_format (instant offset : ℤ) : (format instant offset).length ≤ 35 := by
  have hfraction := length_fraction (instant % 10 ^ 9).toNat
  have hzone := length_zone offset
  simp only [format, List.length_append, List.length_cons, length_pad]
  omega

end SubscriptionRouter.Rfc3339
