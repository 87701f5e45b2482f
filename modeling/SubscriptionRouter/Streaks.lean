import Mathlib
import SubscriptionRouter.CalendarDays
import SubscriptionRouter.ConsecutiveRuns

set_option autoImplicit false

/-!
# Streaks of active days

`mergedStreaks` goes once through the sorted dates for the longest streak, and then back from
today, or from yesterday, for the current one.
-/
namespace SubscriptionRouter.Streaks
open GoText Rfc3339 CalendarDays ConsecutiveRuns

/-- Nanoseconds since the start of the year one, and the seconds that the zone is ahead. -/
structure Time where
  instant : ℤ
  offset : ℤ

/-- `24 * time.Hour` -/
def dayLength : ℤ := 24 * 3600 * 10 ^ 9

/-- `Time.Sub`, which saturates. -/
def sub (t u : ℤ) : ℤ := max (-2 ^ 63) (min (2 ^ 63 - 1) (t - u))

structure Streak where
  longest : ℕ
  run : ℕ
  previous : ℤ

def addDate (streak : Streak) (value : GoString) : Streak :=
  match parseDay value with
  | none => streak
  | some day =>
    let date := day * dayLength
    -- The zero time stands for no previous date.
    let run := if streak.previous ≠ 0 ∧ sub date streak.previous = dayLength then streak.run + 1 else 1
    ⟨if streak.longest < run then run else streak.longest, run, date⟩

def anchorDay (today : Time) : ℤ :=
  let date := localDate today.instant today.offset
  dayNumber date.year date.month date.day

/-- The current streak and the longest one. -/
def mergedStreaks (dates : List GoString) (today : Time) : ℕ × ℕ :=
  let active := fun day => decide (formatDay day ∈ dates)
  let anchor := if active (anchorDay today) then anchorDay today else anchorDay today - 1
  (countBack active dates.length anchor, (dates.foldl addDate ⟨0, 0, 0⟩).longest)

example : mergedStreaks [lit "2023-12-30", lit "2024-02-28", lit "2024-02-29", lit "2024-03-01",
    lit "2024-03-03"] ⟨738948 * dayLength, 0⟩ = (1, 3) := by decide

def activeDays (dates : List GoString) : Set ℤ := {d | ∃ s ∈ dates, parseDay s = some d}

/-! ## The way back -/

/-- The walk back ends because a day is not active, whatever the dates are. -/
theorem current_maximal (dates : List GoString) (anchor : ℤ) :
    MaximalRun {d | formatDay d ∈ dates} anchor
      (countBack (fun day => decide (formatDay day ∈ dates)) dates.length anchor) := by
  have hinj : Function.Injective formatDay := fun d e h => formatDay_injective h
  have hcard : (dates.toFinset.preimage formatDay hinj.injOn).card ≤ dates.length := by
    refine le_trans (Finset.card_le_card_of_injOn formatDay ?_ hinj.injOn) (List.toFinset_card_le dates)
    intro d hd
    exact Finset.mem_preimage.mp hd
  have hset : {d | decide (formatDay d ∈ dates) = true} = {d | formatDay d ∈ dates} := by
    ext d
    exact decide_eq_true_iff
  have hmaximal := @countBack_maximal (fun day => decide (formatDay day ∈ dates))
    (dates.toFinset.preimage formatDay hinj.injOn) (fun d hd => by simpa using hd) _ hcard anchor
  rwa [hset] at hmaximal

theorem formatDay_mem_iff {dates : List GoString} (h : ∀ s ∈ dates, ∃ d, parseDay s = some d ∧ 0 < d)
    {d : ℤ} : formatDay d ∈ dates ↔ d ∈ activeDays dates := by
  constructor
  · intro hmem
    obtain ⟨e, he, -⟩ := h _ hmem
    have hde : e = d := formatDay_injective (parseDay_spec he).2.2
    rw [hde] at he
    exact ⟨_, hmem, he⟩
  · rintro ⟨s, hs, hd⟩
    rw [(parseDay_spec hd).2.2]
    exact hs

/-! ## The loop over the dates -/

theorem sub_eq_dayLength {d p : ℤ} : sub (d * dayLength) (p * dayLength) = dayLength ↔ d = p + 1 := by
  unfold sub dayLength
  omega

theorem longer_eq_max (m n : ℕ) : (if m < n then n else m) = max m n := by
  split <;> omega

/-- What the loop knows of the days it has seen. -/
structure Tracks (S : Set ℤ) (streak : Streak) : Prop where
  longest : LongestRun S streak.longest
  previous : S = ∅ ∧ streak.previous = 0 ∨
    ∃ p, streak.previous = p * dayLength ∧ 0 < p ∧ p ∈ S ∧ (∀ x ∈ S, x ≤ p) ∧
      MaximalRun S p streak.run

theorem Tracks.addDate {S : Set ℤ} {streak : Streak} {value : GoString} {d : ℤ} (h : Tracks S streak)
    (hvalue : parseDay value = some d) (hpos : 0 < d) (hlt : ∀ x ∈ S, x < d) :
    Tracks (insert d S) (addDate streak value) := by
  have hgreatest : ∀ x ∈ insert d S, x ≤ d := by
    intro x hx
    rcases Set.mem_insert_iff.mp hx with rfl | hx
    · exact le_rfl
    · exact (hlt x hx).le
  have hrun : MaximalRun (insert d S) d (Streaks.addDate streak value).run := by
    rw [Streaks.addDate, hvalue]
    rcases h.previous with ⟨rfl, hzero⟩ | ⟨p, hprevious, hp, hmem, hle, hmax⟩
    · simp only [hzero, ne_eq, not_true_eq_false, false_and, if_false]
      exact (maximalRun_zero (Set.notMem_empty (d - 1))).insert
    · have hnext : (streak.previous ≠ 0 ∧ sub (d * dayLength) streak.previous = dayLength) ↔
          d = p + 1 := by
        rw [hprevious, sub_eq_dayLength, dayLength]
        omega
      have hlast := hlt p hmem
      by_cases hconsecutive : d = p + 1
      · have hbefore : p = d - 1 := by omega
        rw [hbefore] at hmax
        simp only [if_pos (hnext.mpr hconsecutive)]
        exact hmax.insert
      · have hbefore : d - 1 ∉ S := by
          intro hin
          have := hle _ hin
          omega
        simp only [if_neg (mt hnext.mp hconsecutive)]
        exact (maximalRun_zero hbefore).insert
  refine ⟨?_, .inr ⟨d, ?_, hpos, Set.mem_insert d S, hgreatest, hrun⟩⟩
  · have hlongest := h.longest.insert hlt hrun
    rw [Streaks.addDate, hvalue] at hlongest ⊢
    simp only [longer_eq_max]
    exact hlongest
  · rw [Streaks.addDate, hvalue]

theorem activeDays_concat {dates : List GoString} {value : GoString} {d : ℤ} (h : parseDay value = some d) :
    activeDays (dates ++ [value]) = insert d (activeDays dates) := by
  ext e
  simp only [activeDays, List.mem_append, List.mem_singleton, Set.mem_ofPred_eq, Set.mem_insert_iff]
  constructor
  · rintro ⟨s, hs | rfl, he⟩
    · exact .inr ⟨s, hs, he⟩
    · exact .inl (Option.some.inj (he.symm.trans h))
  · rintro (rfl | ⟨s, hs, he⟩)
    · exact ⟨value, .inr rfl, h⟩
    · exact ⟨s, .inl hs, he⟩

theorem tracks_dates {dates : List GoString} (hsorted : dates.Pairwise (· < ·))
    (h : ∀ s ∈ dates, ∃ d, parseDay s = some d ∧ 0 < d) :
    Tracks (activeDays dates) (dates.foldl addDate ⟨0, 0, 0⟩) := by
  induction dates using List.reverseRecOn with
  | nil =>
    have hempty : activeDays [] = ∅ := by
      ext d
      simp [activeDays]
    rw [hempty]
    exact ⟨longestRun_empty, .inl ⟨rfl, rfl⟩⟩
  | append_singleton dates value ih =>
    obtain ⟨hrest, -, hlast⟩ := List.pairwise_append.mp hsorted
    obtain ⟨d, hvalue, hpos⟩ := h value (List.mem_append_right _ (List.mem_singleton_self value))
    have htracks := ih hrest fun s hs => h s (List.mem_append_left _ hs)
    rw [List.foldl_append, List.foldl_cons, List.foldl_nil, activeDays_concat hvalue]
    refine htracks.addDate hvalue hpos ?_
    rintro x ⟨s, hs, hx⟩
    exact (parseDay_lt_iff hx hvalue).mp (hlast s hs value (List.mem_singleton_self value))

/-- The longest streak is the longest run of active days; the current one is the run that ends
today or, where today is not active, yesterday. -/
theorem mergedStreaks_spec (dates : List GoString) (today : Time) (hsorted : dates.Pairwise (· < ·))
    (hdays : ∀ s ∈ dates, ∃ d, parseDay s = some d ∧ 0 < d) :
    LongestRun (activeDays dates) (mergedStreaks dates today).2 ∧
      (anchorDay today ∈ activeDays dates →
        MaximalRun (activeDays dates) (anchorDay today) (mergedStreaks dates today).1) ∧
      (anchorDay today ∉ activeDays dates →
        MaximalRun (activeDays dates) (anchorDay today - 1) (mergedStreaks dates today).1) ∧
      (anchorDay today ∉ activeDays dates → anchorDay today - 1 ∉ activeDays dates →
        (mergedStreaks dates today).1 = 0) ∧
      (mergedStreaks dates today).1 ≤ (mergedStreaks dates today).2 := by
  have hactive : {d | formatDay d ∈ dates} = activeDays dates := by
    ext d
    exact formatDay_mem_iff hdays
  have hback := current_maximal dates
  rw [hactive] at hback
  have hlongest := (tracks_dates hsorted hdays).longest
  have htoday : anchorDay today ∈ activeDays dates →
      MaximalRun (activeDays dates) (anchorDay today) (mergedStreaks dates today).1 := by
    intro h
    have hmem := (formatDay_mem_iff hdays).mpr h
    rw [mergedStreaks, if_pos (decide_eq_true hmem)]
    exact hback _
  have hyesterday : anchorDay today ∉ activeDays dates →
      MaximalRun (activeDays dates) (anchorDay today - 1) (mergedStreaks dates today).1 := by
    intro h
    have hmem := mt (formatDay_mem_iff hdays).mp h
    rw [mergedStreaks, if_neg (by simpa using hmem)]
    exact hback _
  refine ⟨hlongest, htoday, hyesterday, ?_, ?_⟩
  · intro h hbefore
    exact (hyesterday h).unique (maximalRun_zero hbefore)
  · by_cases h : anchorDay today ∈ activeDays dates
    · exact (htoday h).le_longest hlongest
    · exact (hyesterday h).le_longest hlongest

theorem mergedStreaks_sample :
    LongestRun (activeDays [lit "2024-02-29", lit "2024-03-01"])
      (mergedStreaks [lit "2024-02-29", lit "2024-03-01"] ⟨738946 * dayLength, 0⟩).2 := by
  have hsorted : [lit "2024-02-29", lit "2024-03-01"].Pairwise (· < ·) := by decide
  have hdays : ∀ s ∈ [lit "2024-02-29", lit "2024-03-01"], ∃ d, parseDay s = some d ∧ 0 < d := by
    have hfirst : parseDay (lit "2024-02-29") = some 738944 := by decide
    have hsecond : parseDay (lit "2024-03-01") = some 738945 := by decide
    intro s hs
    simp only [List.mem_cons, List.not_mem_nil, or_false] at hs
    rcases hs with rfl | rfl
    · exact ⟨_, hfirst, by decide⟩
    · exact ⟨_, hsecond, by decide⟩
  exact (mergedStreaks_spec _ _ hsorted hdays).1

end SubscriptionRouter.Streaks
