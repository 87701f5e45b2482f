import Mathlib
import SubscriptionRouter.ProfileStats

set_option autoImplicit false

/-!
# Merged activity

The loop over the sorted dates writes the daily counts, their running sums and the sums of the
weeks. `Follows` says what the loop has written after some dates.
-/
namespace SubscriptionRouter.DailyActivity
open GoText Rfc3339 CalendarDays KeyedSums Streaks ProfileStats

/-! ## Sorted keys -/

theorem pairwise_sortStrings {l : List GoString} (h : l.Nodup) : (sortStrings l).Pairwise (· < ·) := by
  have hsorted := List.pairwise_insertionSort (fun a b : GoString => a ≤ b) l
  have hnodup : (sortStrings l).Nodup := (List.perm_insertionSort _ l).nodup_iff.mpr h
  refine (hsorted.and hnodup).imp fun {a b} hab => ?_
  exact (List.le_iff_lt_or_eq.mp hab.1).resolve_right hab.2

theorem perm_sortStrings (l : List GoString) : (sortStrings l).Perm l :=
  List.perm_insertionSort _ l

theorem sortStrings_eq {l s : List GoString} (h : l.Perm s) : sortStrings l = sortStrings s := by
  refine List.Perm.eq_of_pairwise (fun a b _ _ hab hba => List.le_antisymm hab hba)
    (List.pairwise_insertionSort _ l) (List.pairwise_insertionSort _ s) ?_
  exact (perm_sortStrings l).trans (h.trans (perm_sortStrings s).symm)

theorem perm_sortedDates (orders : MapOrders) (daily : GoMap Int64) :
    (sortedDates orders daily).Perm daily.keys :=
  (perm_sortStrings _).trans (orders.dates.perm _)

theorem pairwise_sortedDates (orders : MapOrders) (daily : GoMap Int64) :
    (sortedDates orders daily).Pairwise (· < ·) :=
  pairwise_sortStrings ((orders.dates.perm _).nodup_iff.mpr (nodup_keys daily))

/-! ## The loop over the dates -/

def tokensAt (daily : GoMap Int64) (date : GoString) : Int64 := daily[date]?.getD 0

def weekEntry (daily : GoMap Int64) (date : GoString) : Option (GoString × Int64) :=
  (parseDay date).map fun day => (weekOf day, tokensAt daily date)

structure Follows (daily : GoMap Int64) (dates : List GoString) (activity : Activity) : Prop where
  buckets : activity.daily = dates.map fun date => ⟨date, tokensAt daily date⟩
  startDates : activity.cumulativeDaily.map UsageBucket.startDate = dates
  last : (activity.cumulativeDaily.getLast?.map UsageBucket.tokens).getD 0 = activity.cumulative
  cumulative : activity.cumulative = (dates.map (tokensAt daily)).sum
  peak : IsGreatest (insert 0 {t | ∃ date ∈ dates, tokensAt daily date = t}) activity.peak
  weekly : activity.weekly = (dates.filterMap (weekEntry daily)).foldl addTo ∅

theorem isGreatest_step {S T : Set Int64} {m t : Int64} (h : IsGreatest S m)
    (hT : ∀ x, x ∈ T ↔ x ∈ S ∨ x = t) : IsGreatest T (if m < t then t else m) := by
  split
  · rename_i hlt
    refine ⟨(hT t).mpr (.inr rfl), fun x hx => ?_⟩
    rcases (hT x).mp hx with hx | rfl
    · exact Int64.le_trans (h.2 hx) (Int64.le_of_lt hlt)
    · exact Int64.le_refl x
  · rename_i hle
    refine ⟨(hT m).mpr (.inl h.1), fun x hx => ?_⟩
    rcases (hT x).mp hx with hx | rfl
    · exact h.2 hx
    · exact Int64.not_lt.mp hle

theorem Follows.addDay {daily : GoMap Int64} {dates : List GoString} {activity : Activity}
    (h : Follows daily dates activity) (date : GoString) :
    Follows daily (dates ++ [date]) (addDay daily activity date) where
  buckets := by
    rw [List.map_append, ← h.buckets]
    rfl
  startDates := by
    rw [← h.startDates]
    exact List.map_append
  last := by
    show (((activity.cumulativeDaily ++ [_]).getLast?).map UsageBucket.tokens).getD 0 = _
    rw [List.getLast?_concat]
    rfl
  cumulative := by
    show activity.cumulative + tokensAt daily date = _
    rw [h.cumulative, List.map_append, List.sum_append, List.map_singleton, List.sum_singleton]
  peak := by
    refine isGreatest_step h.peak fun x => ?_
    simp only [Set.mem_insert_iff, Set.mem_ofPred_eq, List.mem_append, List.mem_singleton, tokensAt]
    constructor
    · rintro (hx | ⟨other, hother | rfl, hx⟩)
      · exact .inl (.inl hx)
      · exact .inl (.inr ⟨other, hother, hx⟩)
      · exact .inr hx.symm
    · rintro ((hx | ⟨other, hother, hx⟩) | hx)
      · exact .inl hx
      · exact .inr ⟨other, .inl hother, hx⟩
      · exact .inr ⟨date, .inr rfl, hx.symm⟩
  weekly := by
    rw [List.filterMap_append, List.foldl_append, ← h.weekly]
    cases hday : parseDay date with
    | none => simp [ProfileStats.addDay, weekEntry, hday]
    | some day => simp [ProfileStats.addDay, weekEntry, hday, tokensAt]

theorem follows_foldl (daily : GoMap Int64) (dates : List GoString) :
    Follows daily dates (dates.foldl (addDay daily) ⟨[], [], 0, 0, ∅⟩) := by
  induction dates using List.reverseRecOn with
  | nil =>
    refine ⟨rfl, rfl, rfl, rfl, ⟨Set.mem_insert 0 _, fun x hx => ?_⟩, rfl⟩
    rcases Set.mem_insert_iff.mp hx with rfl | ⟨date, hdate, -⟩
    · exact Int64.le_refl 0
    · cases hdate
  | append_singleton dates date ih =>
    rw [List.foldl_append]
    exact ih.addDay date

/-! ## Weeks -/

theorem weekOf_eq (day : ℤ) : weekOf day = formatDay (day - day % 7) := by
  have hback : (((weekday day + 6) % 7 : ℕ) : ℤ) = day % 7 := by
    unfold weekday
    omega
  rw [weekOf, hback]

theorem weekday_monday {monday : ℤ} (h : monday % 7 = 0) : weekday monday = 1 := by
  unfold weekday
  omega

theorem parseDay_weekOf {day : ℤ} (hfirst : 0 ≤ day) (hlast : (dateOf day).year ≤ 9999) :
    parseDay (weekOf day) = some (day - day % 7) := by
  have hyear := year_pos_iff.mpr (show 0 ≤ day - day % 7 by omega)
  have hle := year_le_of_le (show day - day % 7 ≤ day by omega)
  rw [weekOf_eq]
  exact parseDay_formatDay (by omega) (by omega)

def covers (monday : ℤ) (bucket : UsageBucket) : Bool :=
  (parseDay bucket.startDate).any fun day => decide (monday ≤ day ∧ day < monday + 7)

theorem weekOf_eq_formatDay_iff {monday day : ℤ} (h : monday % 7 = 0) :
    weekOf day = formatDay monday ↔ monday ≤ day ∧ day < monday + 7 := by
  rw [weekOf_eq]
  constructor
  · intro heq
    have := formatDay_injective heq
    omega
  · intro hle
    congr 1
    omega

def bucketAt (daily : GoMap Int64) (date : GoString) : UsageBucket := ⟨date, tokensAt daily date⟩

theorem sumAt_weekEntries (daily : GoMap Int64) {monday : ℤ} (h : monday % 7 = 0) (dates : List GoString) :
    sumAt (dates.filterMap (weekEntry daily)) (formatDay monday) =
      (((dates.map (bucketAt daily)).filter (covers monday)).map UsageBucket.tokens).sum := by
  induction dates with
  | nil => rfl
  | cons date dates ih =>
    cases hday : parseDay date with
    | none =>
      have hentry : weekEntry daily date = none := by rw [weekEntry, hday, Option.map_none]
      have hcovers : covers monday (bucketAt daily date) = false := by
        rw [covers, bucketAt, hday, Option.any_none]
      rw [List.filterMap_cons_none hentry, List.map_cons, List.filter_cons_of_neg (by simp [hcovers]), ih]
    | some day =>
      have hentry : weekEntry daily date = some (weekOf day, tokensAt daily date) := by
        rw [weekEntry, hday, Option.map_some]
      have hcovers : covers monday (bucketAt daily date) = decide (monday ≤ day ∧ day < monday + 7) := by
        rw [covers, bucketAt, hday, Option.any_some]
      rw [List.filterMap_cons_some hentry, sumAt_cons, ih, List.map_cons]
      by_cases hweek : monday ≤ day ∧ day < monday + 7
      · rw [if_pos ((weekOf_eq_formatDay_iff h).mpr hweek),
          List.filter_cons_of_pos (by simpa [hcovers] using hweek), List.map_cons, List.sum_cons]
        rfl
      · rw [if_neg (mt (weekOf_eq_formatDay_iff h).mp hweek),
          List.filter_cons_of_neg (by simpa [hcovers] using hweek), zero_add]

theorem values_weekEntries (daily : GoMap Int64) {dates : List GoString}
    (h : ∀ date ∈ dates, ∃ day, parseDay date = some day) :
    (dates.filterMap (weekEntry daily)).map Prod.snd = dates.map (tokensAt daily) := by
  induction dates with
  | nil => rfl
  | cons date dates ih =>
    obtain ⟨day, hday⟩ := h date List.mem_cons_self
    have hentry : weekEntry daily date = some (weekOf day, tokensAt daily date) := by
      rw [weekEntry, hday, Option.map_some]
    rw [List.filterMap_cons_some hentry, List.map_cons, List.map_cons,
      ih fun date hdate => h date (List.mem_cons_of_mem _ hdate)]

/-! ## The input -/

def dailyBuckets (profiles : List WhamProfileStats) : List UsageBucket :=
  profiles.flatMap fun stats => stats.dailyUsageBuckets

def entryOf (bucket : UsageBucket) : GoString × Int64 := (bucket.startDate, bucket.tokens)

theorem daily_accumulateAll (profiles : List WhamProfileStats) :
    (accumulateAll profiles).daily = ((dailyBuckets profiles).map entryOf).foldl addTo ∅ := by
  rw [dailyBuckets, List.map_flatMap, List.foldl_flatMap]
  exact (List.foldl_hom Accumulated.daily fun acc stats => rfl).symm

theorem sum_entries (buckets : List UsageBucket) :
    ((buckets.map entryOf).map Prod.snd).sum = (buckets.map UsageBucket.tokens).sum := by
  rw [List.map_map]
  rfl

section Dates
variable (orders : MapOrders) (profiles : List WhamProfileStats)

theorem mem_sortedDates {date : GoString} :
    date ∈ sortedDates orders (accumulateAll profiles).daily ↔
      date ∈ (dailyBuckets profiles).map UsageBucket.startDate := by
  rw [(perm_sortedDates _ _).mem_iff, daily_accumulateAll, mem_keys_sums, List.map_map]
  rfl

theorem sum_sortedDates :
    ((sortedDates orders (accumulateAll profiles).daily).map
        (tokensAt (accumulateAll profiles).daily)).sum =
      ((dailyBuckets profiles).map UsageBucket.tokens).sum := by
  have htokens : tokensAt (accumulateAll profiles).daily =
      sumAt ((dailyBuckets profiles).map entryOf) := by
    funext date
    rw [tokensAt, daily_accumulateAll, getD_sums]
  rw [htokens, ← sum_entries]
  refine sum_sumAt ((pairwise_sortedDates _ _).imp fun h heq => ?_) fun e he => ?_
  · rw [heq] at h
    exact List.lt_irrefl _ h
  · obtain ⟨bucket, hbucket, rfl⟩ := List.mem_map.mp he
    exact (mem_sortedDates orders profiles).mpr (List.mem_map_of_mem hbucket)

end Dates

/-! ## The weekly counts -/

/-- What the loop knows of the weeks when it has seen days from the year one on. -/
theorem mem_weeks {dates : List GoString} {daily : GoMap Int64} {activity : Activity}
    (hfollows : Follows daily dates activity)
    (h : ∀ date ∈ dates, ∃ day, parseDay date = some day ∧ 0 ≤ day) {week : GoString} :
    week ∈ activity.weekly.keys ↔ ∃ date ∈ dates, ∃ day, parseDay date = some day ∧ 0 ≤ day ∧
      weekOf day = week := by
  rw [hfollows.weekly, mem_keys_sums]
  simp only [List.mem_map, List.mem_filterMap]
  constructor
  · rintro ⟨e, ⟨date, hdate, he⟩, rfl⟩
    obtain ⟨day, hday, hfirst⟩ := h date hdate
    rw [weekEntry, hday, Option.map_some] at he
    obtain rfl := Option.some.inj he
    exact ⟨date, hdate, day, hday, hfirst, rfl⟩
  · rintro ⟨date, hdate, day, hday, -, hweek⟩
    refine ⟨(weekOf day, tokensAt daily date), ⟨date, hdate, ?_⟩, hweek⟩
    rw [weekEntry, hday, Option.map_some]

theorem perm_weeks (orders : MapOrders) (weekly : GoMap Int64) :
    ((weeklyBuckets orders weekly).map UsageBucket.startDate).Perm weekly.keys := by
  have hdates : (weeklyBuckets orders weekly).map UsageBucket.startDate =
      sortStrings (orders.weeks.run weekly.keys) := by
    rw [weeklyBuckets, List.map_map]
    exact List.map_id _
  rw [hdates]
  exact (perm_sortStrings _).trans (orders.weeks.perm _)

theorem sum_weekly {orders : MapOrders} {dates : List GoString} {daily : GoMap Int64} {activity : Activity}
    (hfollows : Follows daily dates activity) (h : ∀ date ∈ dates, ∃ day, parseDay date = some day) :
    ((weeklyBuckets orders activity.weekly).map UsageBucket.tokens).sum =
      (dates.map (tokensAt daily)).sum := by
  have htokens : (weeklyBuckets orders activity.weekly).map UsageBucket.tokens =
      (sortStrings (orders.weeks.run activity.weekly.keys)).map
        (sumAt (dates.filterMap (weekEntry daily))) := by
    rw [weeklyBuckets, List.map_map]
    refine List.map_congr_left fun week _ => ?_
    show activity.weekly[week]?.getD 0 = _
    rw [hfollows.weekly, getD_sums]
  have hperm := (perm_sortStrings (orders.weeks.run activity.weekly.keys)).trans (orders.weeks.perm _)
  rw [htokens, sum_sumAt (hperm.nodup_iff.mpr (nodup_keys _)), values_weekEntries daily h]
  intro e he
  rw [hperm.mem_iff, hfollows.weekly, mem_keys_sums]
  exact List.mem_map_of_mem he

theorem covers_monday {daily : GoMap Int64} {date : GoString} {day : ℤ} (h : parseDay date = some day) :
    covers (day - day % 7) (bucketAt daily date) = true := by
  rw [covers, bucketAt, h, Option.any_some, decide_eq_true_eq]
  omega

section Weeks
variable {orders : MapOrders} {dates : List GoString} {daily : GoMap Int64} {activity : Activity}

/-- A week begins on a Monday and counts what the days that it covers count. -/
theorem monday_of_week (hfollows : Follows daily dates activity)
    (h : ∀ date ∈ dates, ∃ day, parseDay date = some day ∧ 0 ≤ day) {week : UsageBucket}
    (hweek : week ∈ weeklyBuckets orders activity.weekly) :
    ∃ monday, parseDay week.startDate = some monday ∧ weekday monday = 1 ∧
      (∃ bucket ∈ dates.map (bucketAt daily), covers monday bucket = true) ∧
      week.tokens =
        (((dates.map (bucketAt daily)).filter (covers monday)).map UsageBucket.tokens).sum := by
  have hkey := (perm_weeks orders _).mem_iff.mp (List.mem_map_of_mem hweek)
  obtain ⟨date, hdate, day, hday, hfirst, hstart⟩ := (mem_weeks hfollows h).mp hkey
  have hmonday : parseDay week.startDate = some (day - day % 7) := by
    rw [← hstart]
    exact parseDay_weekOf hfirst (parseDay_spec hday).2.1
  refine ⟨day - day % 7, hmonday, weekday_monday (by omega),
    ⟨_, List.mem_map_of_mem hdate, covers_monday hday⟩, ?_⟩
  obtain ⟨key, -, rfl⟩ := List.mem_map.mp hweek
  rw [← sumAt_weekEntries _ (by omega), ← weekOf_eq, hstart]
  show activity.weekly[key]?.getD 0 = _
  rw [hfollows.weekly, getD_sums]

theorem week_of_bucket (hfollows : Follows daily dates activity)
    (h : ∀ date ∈ dates, ∃ day, parseDay date = some day ∧ 0 ≤ day) {bucket : UsageBucket}
    (hbucket : bucket ∈ dates.map (bucketAt daily)) :
    ∃ week ∈ weeklyBuckets orders activity.weekly, ∃ monday,
      parseDay week.startDate = some monday ∧ covers monday bucket = true := by
  obtain ⟨date, hdate, rfl⟩ := List.mem_map.mp hbucket
  obtain ⟨day, hday, hfirst⟩ := h date hdate
  have hkey := (mem_weeks hfollows h).mpr ⟨date, hdate, day, hday, hfirst, rfl⟩
  obtain ⟨week, hweek, hstart⟩ := List.mem_map.mp ((perm_weeks orders _).mem_iff.mpr hkey)
  refine ⟨week, hweek, day - day % 7, ?_, covers_monday hday⟩
  rw [hstart]
  exact parseDay_weekOf hfirst (parseDay_spec hday).2.1

end Weeks

/-! ## Conservation -/

/-- No activity is lost or counted twice in the three series. -/
structure Conserved (buckets : List UsageBucket) (stats : WhamProfileStats) : Prop where
  daily : (stats.dailyUsageBuckets.map UsageBucket.tokens).sum = (buckets.map UsageBucket.tokens).sum
  cumulative : (stats.cumulativeDailyUsageBuckets.getLast?.map UsageBucket.tokens).getD 0 =
    (buckets.map UsageBucket.tokens).sum
  weekly : (stats.weeklyUsageBuckets.map UsageBucket.tokens).sum = (buckets.map UsageBucket.tokens).sum
  dates : stats.cumulativeDailyUsageBuckets.map UsageBucket.startDate =
    stats.dailyUsageBuckets.map UsageBucket.startDate
  increasing : stats.dailyUsageBuckets.Pairwise fun a b => a.startDate < b.startDate ∧
    ∃ d e, parseDay a.startDate = some d ∧ parseDay b.startDate = some e ∧ d < e
  mondays : ∀ week ∈ stats.weeklyUsageBuckets, ∃ monday, parseDay week.startDate = some monday ∧
    weekday monday = 1 ∧ (∃ bucket ∈ stats.dailyUsageBuckets, covers monday bucket = true) ∧
      week.tokens = ((stats.dailyUsageBuckets.filter (covers monday)).map UsageBucket.tokens).sum
  covered : ∀ bucket ∈ stats.dailyUsageBuckets, ∃ week ∈ stats.weeklyUsageBuckets, ∃ monday,
    parseDay week.startDate = some monday ∧ covers monday bucket = true
  once : (stats.weeklyUsageBuckets.map UsageBucket.startDate).Nodup
  peak : IsGreatest (insert 0 {t | ∃ bucket ∈ stats.dailyUsageBuckets, bucket.tokens = t})
    stats.peakDailyTokens

/-- Aggregation conserves activity where all dates can be read, from the year one on. -/
theorem aggregate_conserved (orders : MapOrders) (profiles : List WhamProfileStats) (today : Time)
    (h : ∀ bucket ∈ dailyBuckets profiles,
      ∃ day, parseDay bucket.startDate = some day ∧ 1 ≤ (dateOf day).year) :
    Conserved (dailyBuckets profiles) (aggregateProfileStatsAt orders profiles today) := by
  have hdates : ∀ date ∈ sortedDates orders (accumulateAll profiles).daily,
      ∃ day, parseDay date = some day ∧ 0 ≤ day := by
    intro date hdate
    obtain ⟨bucket, hbucket, rfl⟩ := List.mem_map.mp ((mem_sortedDates orders profiles).mp hdate)
    obtain ⟨day, hday, hyear⟩ := h bucket hbucket
    exact ⟨day, hday, year_pos_iff.mp hyear⟩
  have hfollows : Follows (accumulateAll profiles).daily
      (sortedDates orders (accumulateAll profiles).daily)
      (activityOf orders (accumulateAll profiles).daily) := follows_foldl _ _
  have hsum := sum_sortedDates orders profiles
  have hsorted := pairwise_sortedDates orders (accumulateAll profiles).daily
  have hbuckets : (aggregateProfileStatsAt orders profiles today).dailyUsageBuckets =
      (sortedDates orders (accumulateAll profiles).daily).map
        (bucketAt (accumulateAll profiles).daily) := hfollows.buckets
  generalize sortedDates orders (accumulateAll profiles).daily = dates at hdates hfollows hsum hsorted hbuckets
  have htokens : (dates.map (bucketAt (accumulateAll profiles).daily)).map UsageBucket.tokens =
      dates.map (tokensAt (accumulateAll profiles).daily) := by
    rw [List.map_map]
    rfl
  exact {
    daily := by rw [hbuckets, htokens, hsum]
    cumulative := hfollows.last.trans (hfollows.cumulative.trans hsum)
    weekly := by
      refine (sum_weekly hfollows fun date hdate => ?_).trans hsum
      obtain ⟨day, hday, -⟩ := hdates date hdate
      exact ⟨day, hday⟩
    dates := by
      rw [hbuckets, List.map_map]
      exact hfollows.startDates.trans (List.map_id _).symm
    increasing := by
      rw [hbuckets, List.pairwise_map]
      refine hsorted.imp_of_mem fun {a b} ha hb hab => ⟨hab, ?_⟩
      obtain ⟨d, hd, -⟩ := hdates a ha
      obtain ⟨e, he, -⟩ := hdates b hb
      exact ⟨d, e, hd, he, (parseDay_lt_iff hd he).mp hab⟩
    mondays := by
      rw [hbuckets]
      exact fun week hweek => monday_of_week hfollows hdates hweek
    covered := by
      rw [hbuckets]
      exact fun bucket hbucket => week_of_bucket hfollows hdates hbucket
    once := (perm_weeks orders _).nodup_iff.mpr (nodup_keys _)
    peak := by
      rw [hbuckets]
      simp only [List.mem_map, exists_exists_and_eq_and]
      exact hfollows.peak }

theorem aggregate_conserved_sample :
    let stats := { noStats with
      dailyUsageBuckets := [⟨lit "2026-08-12", 10⟩, ⟨lit "2026-08-13", 20⟩] }
    Conserved (dailyBuckets [stats]) (aggregateProfileStatsAt .stored [stats] ⟨0, 0⟩) := by
  intro stats
  refine aggregate_conserved .stored [stats] ⟨0, 0⟩ fun bucket hbucket => ?_
  have hfirst : parseDay (lit "2026-08-12") = some 739839 := by decide
  have hsecond : parseDay (lit "2026-08-13") = some 739840 := by decide
  have hmem : bucket = ⟨lit "2026-08-12", 10⟩ ∨ bucket = ⟨lit "2026-08-13", 20⟩ := by
    simpa [dailyBuckets, stats] using hbucket
  rcases hmem with rfl | rfl
  · exact ⟨_, hfirst, by decide⟩
  · exact ⟨_, hsecond, by decide⟩

end SubscriptionRouter.DailyActivity
