import Mathlib
import SubscriptionRouter.AccountChooser

set_option autoImplicit false

/-!
# Rate-limit windows

`routeUrgencyScore` says how much of its weekly window an account still has to use in each
hour. `aggregateRateLimits` shows the windows of all accounts as one, and reports the limit
as reached when no account has capacity. Percentages and scores are rational numbers in
place of `float64`.
-/
namespace SubscriptionRouter.RateLimitWindows
open GoText StoreState AccountChooser

structure Window extends RateLimitWindow where
  resetsAt : Option ℤ

structure ResetCreditMetadata where
  known : Bool
  availableCount : ℤ
  earliestExpiry : Option ℤ

/-! ## Durations and instants, in nanoseconds -/

def wrap64 (n : ℤ) : ℤ := n.bmod (2 ^ 64)

def minute : ℤ := 60 * 1000000000

def hour : ℤ := 60 * minute

def routingFallbackWindow : ℤ := 7 * 24 * hour

def routingMinimumWindow : ℤ := minute

def routingResetBonusPerCredit : ℚ := 0.15

def routingResetBonusCreditCap : ℤ := 3

/-- The seconds from the start of year 1 to 1970. -/
def unixToInternal : ℤ := 62135596800

/-- `time.Unix(sec, 0)`: a `Time` counts the seconds from year 1 in an `int64`. -/
def unix (sec : ℤ) : ℤ := (wrap64 (sec + unixToInternal) - unixToInternal) * 1000000000

/-- `t.Sub(u)`: a difference that is no `Duration` saturates. -/
def sub (t u : ℤ) : ℤ := max (-2 ^ 63) (min (2 ^ 63 - 1) (t - u))

/-- `d.Hours()`. -/
def hours (d : ℤ) : ℚ := d / hour

/-! ## The urgency of an account -/

def remaining (w : Window) : ℚ := max 0 (min 100 (100 - w.usedPercent))

/-- The horizon before a reset time is looked at. -/
def windowHorizon (w : Window) : ℤ :=
  match w.windowDurationMins with
  | some mins => if 0 < mins then wrap64 (mins * minute) else routingFallbackWindow
  | none => routingFallbackWindow

def horizon (now : ℤ) (w : Window) : ℤ :=
  let horizon := match w.resetsAt with
    | some reset => if 0 < sub (unix reset) now then sub (unix reset) now else windowHorizon w
    | none => windowHorizon w
  if horizon < routingMinimumWindow then routingMinimumWindow else horizon

def routeUrgencyScore (now : ℤ) (weekly : Option Window) (credits : ResetCreditMetadata) : ℚ :=
  match weekly with
  | none => -1
  | some w =>
    let urgency := remaining w / hours (horizon now w)
    if credits.known ∧ 0 < credits.availableCount then
      urgency * (1 + min credits.availableCount routingResetBonusCreditCap * routingResetBonusPerCredit)
    else urgency

/-- The length of a window in hours: seven days if it has none, and at least a minute. -/
def windowHours (w : Window) : ℚ :=
  match w.windowDurationMins with
  | some mins => if 0 < mins then max (1 / 60) (mins / 60) else 7 * 24
  | none => 7 * 24

def NoFutureReset (now : ℤ) (w : Window) : Prop := ∀ reset ∈ w.resetsAt, unix reset ≤ now

def NoCredits (credits : ResetCreditMetadata) : Prop :=
  ¬ (credits.known ∧ 0 < credits.availableCount)

/-- The length of the window in nanoseconds is a `Duration`. -/
def LengthFits (w : Window) : Prop := ∀ mins ∈ w.windowDurationMins, mins * minute < 2 ^ 63

theorem wrap64_eq_self_iff {n : ℤ} (h : 0 ≤ n) : wrap64 n = n ↔ n < 2 ^ 63 := by
  rw [wrap64, Int.bmod]
  constructor <;> intro hn <;> split at * <;> omega

theorem wrap64_lt (n : ℤ) : wrap64 n < 2 ^ 63 := by
  have h := Int.bmod_lt (x := n) (m := 2 ^ 64) (by decide)
  rw [wrap64]
  omega

theorem horizon_of_noFutureReset {now : ℤ} {w : Window} (h : NoFutureReset now w) :
    horizon now w = max routingMinimumWindow (windowHorizon w) := by
  have hreset : (match w.resetsAt with
      | some reset => if 0 < sub (unix reset) now then sub (unix reset) now else windowHorizon w
      | none => windowHorizon w) = windowHorizon w := by
    split
    · rename_i reset hat
      have hpast := h reset hat
      rw [if_neg]
      rw [sub]
      omega
    · rfl
  simp only [horizon, hreset]
  split <;> omega

theorem horizon_pos (now : ℤ) (w : Window) : 0 < horizon now w := by
  have h : 0 < routingMinimumWindow := by decide
  unfold horizon
  dsimp only
  split <;> omega

theorem hours_pos {d : ℤ} (h : 0 < d) : 0 < hours d := by
  have hd : (0 : ℚ) < d := by exact_mod_cast h
  have hhour : (0 : ℚ) < hour := by norm_num [hour, minute]
  exact div_pos hd hhour

theorem hours_inj {d e : ℤ} : hours d = hours e ↔ d = e := by
  have hhour : (hour : ℚ) ≠ 0 := by norm_num [hour, minute]
  rw [hours, hours, div_left_inj' hhour, Int.cast_inj]

theorem remaining_nonneg (w : Window) : 0 ≤ remaining w := le_max_left _ _

theorem remaining_eq_zero_iff {w : Window} : remaining w = 0 ↔ 100 ≤ w.usedPercent := by
  rw [remaining, max_eq_left_iff, min_le_iff]
  constructor
  · rintro (h | h) <;> linarith
  · intro h
    exact .inr (by linarith)

theorem remaining_antitone {w w' : Window} (h : w.usedPercent ≤ w'.usedPercent) :
    remaining w' ≤ remaining w :=
  max_le_max_left _ (min_le_min_left _ (by linarith))

theorem score_of_noCredits {now : ℤ} {w : Window} {credits : ResetCreditMetadata}
    (h : NoCredits credits) :
    routeUrgencyScore now (some w) credits = remaining w / hours (horizon now w) := by
  simp only [routeUrgencyScore]
  rw [if_neg h]

theorem windowHours_pos (w : Window) : 0 < windowHours w := by
  unfold windowHours
  split
  · split
    · exact lt_max_of_lt_left (by norm_num)
    · norm_num
  · norm_num

theorem hours_minutes (mins : ℤ) : hours (mins * minute) = mins / 60 := by
  rw [hours, hour, minute]
  push_cast
  ring

theorem windowHours_eq (w : Window) : windowHours w = hours (max routingMinimumWindow
    (match w.windowDurationMins with
      | some mins => if 0 < mins then mins * minute else routingFallbackWindow
      | none => routingFallbackWindow)) := by
  have hfallback : (7 * 24 : ℚ) = hours (max routingMinimumWindow routingFallbackWindow) := by
    norm_num [hours, routingMinimumWindow, routingFallbackWindow, minute, hour]
  unfold windowHours
  cases w.windowDurationMins with
  | none => exact hfallback
  | some mins =>
    dsimp only
    split
    · rename_i hmins
      have hle : routingMinimumWindow ≤ mins * minute := by
        rw [routingMinimumWindow, minute]
        omega
      have hcast : (1 : ℚ) ≤ mins := by exact_mod_cast hmins
      rw [max_eq_right hle, hours_minutes, max_eq_right (by linarith)]
    · exact hfallback

theorem hours_horizon_iff {now : ℤ} {w : Window} (h : NoFutureReset now w) :
    hours (horizon now w) = windowHours w ↔ LengthFits w := by
  rw [horizon_of_noFutureReset h, windowHours_eq, hours_inj, windowHorizon, LengthFits]
  cases w.windowDurationMins with
  | none => simp
  | some mins =>
    simp only [Option.mem_some_iff, forall_eq']
    split
    · rename_i hmins
      have hle : routingMinimumWindow ≤ mins * minute := by
        rw [routingMinimumWindow, minute]
        omega
      have hpos : 0 ≤ mins * minute := by
        rw [minute]
        omega
      rw [max_eq_right hle, ← wrap64_eq_self_iff hpos]
      constructor
      · intro hmax
        have hlt := wrap64_lt (mins * minute)
        rcases max_choice routingMinimumWindow (wrap64 (mins * minute)) with hm | hm
        · -- A wrapped product below a minute could only stand for a window of one minute.
          rw [hm] at hmax
          exact (wrap64_eq_self_iff hpos).mpr (by rw [← hmax]; decide)
        · exact hm.symm.trans hmax
      · intro hwrap
        rw [hwrap, max_eq_right hle]
    · rename_i hmins
      have hsmall : mins * minute < 2 ^ 63 := by
        rw [minute]
        omega
      exact iff_of_true rfl hsmall

theorem score_iff {now : ℤ} {w : Window} {credits : ResetCreditMetadata}
    (hc : NoCredits credits) (h : NoFutureReset now w) :
    routeUrgencyScore now (some w) credits = remaining w / windowHours w ↔
      LengthFits w ∨ 100 ≤ w.usedPercent := by
  have hne := (hours_pos (horizon_pos now w)).ne'
  have hne' := (windowHours_pos w).ne'
  rw [score_of_noCredits hc, ← hours_horizon_iff h, ← remaining_eq_zero_iff,
    div_eq_div_iff hne hne', mul_eq_mul_left_iff, eq_comm]

/-- Without credits and a reset to come, the score is the remaining percentage for each hour of
the window exactly when the length of the window is a `Duration` or nothing remains. There the
score does not rise with the used percentage or with the length. -/
theorem routeUrgencyScore_monotone {credits : ResetCreditMetadata} (hc : NoCredits credits)
    (now : ℤ) :
    (∀ w, NoFutureReset now w →
      (routeUrgencyScore now (some w) credits = remaining w / windowHours w ↔
        LengthFits w ∨ 100 ≤ w.usedPercent)) ∧
    (∀ w, 0 ≤ routeUrgencyScore now (some w) credits) ∧
    ∀ w w', NoFutureReset now w → NoFutureReset now w' →
      LengthFits w ∨ 100 ≤ w.usedPercent → LengthFits w' ∨ 100 ≤ w'.usedPercent →
      w.usedPercent ≤ w'.usedPercent → windowHours w ≤ windowHours w' →
      routeUrgencyScore now (some w') credits ≤ routeUrgencyScore now (some w) credits := by
  refine ⟨fun w h => score_iff hc h, fun w => ?_, fun w w' h h' hfits hfits' hused hlength => ?_⟩
  · rw [score_of_noCredits hc]
    exact div_nonneg (remaining_nonneg w) (hours_pos (horizon_pos now w)).le
  · rw [(score_iff hc h).mpr hfits, (score_iff hc h').mpr hfits']
    exact div_le_div₀ (remaining_nonneg w) (remaining_antitone hused) (windowHours_pos w) hlength

def noCredits : ResetCreditMetadata := ⟨false, 0, none⟩

theorem noCredits_none : NoCredits noCredits := by
  rintro ⟨hknown, -⟩
  cases hknown

def window (usedPercent : ℚ) (mins : ℤ) : Window := ⟨⟨usedPercent, some mins⟩, none⟩

theorem routeUrgencyScore_week :
    routeUrgencyScore 0 (some (window 40 10080)) noCredits = remaining (window 40 10080) / 168 := by
  have h := routeUrgencyScore_monotone noCredits_none 0 |>.1 (window 40 10080)
    (by rintro reset ⟨⟩)
  have hhours : windowHours (window 40 10080) = 168 := by
    norm_num [windowHours, window]
  rw [hhours] at h
  refine h.mpr (.inl ?_)
  rintro mins (hmins : some 10080 = some mins)
  rw [← Option.some.inj hmins]
  decide

/-- A window of 292 years wraps around to one minute, and is more urgent than a week. -/
theorem long_window_is_urgent :
    routeUrgencyScore 0 (some (window 50 153722868)) noCredits = 3000 ∧
      remaining (window 50 153722868) / windowHours (window 50 153722868) < 1 ∧
      routeUrgencyScore 0 (some (window 50 10080)) noCredits < 1 := by
  decide +kernel

/-! ## The limits shown to the app -/

structure Limits where
  primary : Option Window
  secondary : Option Window
  rateLimitReachedType : Option GoString

structure Snapshot where
  id : GoString
  enabled : Bool
  connected : Bool
  authType : GoString
  rateLimits : Option Limits

def Limits.toRateLimits (limits : Limits) : RateLimits :=
  ⟨limits.primary.map Window.toRateLimitWindow, limits.secondary.map Window.toRateLimitWindow⟩

def Snapshot.toAccountSnapshot (s : Snapshot) : AccountSnapshot :=
  ⟨s.id, s.enabled, s.connected, s.authType, s.rateLimits.map Limits.toRateLimits⟩

def isSubscription (s : Snapshot) : Bool := s.enabled && s.connected && s.authType = lit "chatgpt"

def hasWeekly (s : AccountSnapshot) : Bool :=
  (longestAndShortestWindow s.rateLimits).1.all fun weekly => weekly.usedPercent < 100

def averageRateLimitWindow (windows : List (Option Window)) : Option Window :=
  let present := windows.filterMap id
  if present = [] then none
  else some {
    usedPercent := (present.map fun w => w.usedPercent).sum / present.length
    windowDurationMins := (present.filterMap fun w => w.windowDurationMins).max?
    resetsAt := (present.filterMap fun w => w.resetsAt).min? }

/-- What the loop over the snapshots has gathered. -/
structure Gathered where
  primary : List (Option Window)
  secondary : List (Option Window)
  hasSubscription : Bool
  hasCapacity : Bool

def Gathered.add (g : Gathered) (s : Snapshot) : Gathered :=
  if !isSubscription s then g
  else {
    primary := g.primary ++ (s.rateLimits.map Limits.primary).toList
    secondary := g.secondary ++ (s.rateLimits.map Limits.secondary).toList
    hasSubscription := true
    hasCapacity := g.hasCapacity || hasWeekly s.toAccountSnapshot }

def errNoSubscription : GoString := lit "no enabled ChatGPT subscription is connected"

def aggregateRateLimits (snapshots : List Snapshot) : Except GoString Limits :=
  let g := snapshots.foldl Gathered.add ⟨[], [], false, false⟩
  if !g.hasSubscription then .error errNoSubscription
  else .ok {
    primary := averageRateLimitWindow g.primary
    secondary := averageRateLimitWindow g.secondary
    rateLimitReachedType := if g.hasCapacity then none else some (lit "rate_limit_reached") }

/-- The loop of `chooseAccountExcluding`: the preferred account, or the candidates. -/
def search (mode : RoutingMode) (s : Store) (excluded : Finset GoString) :
    List Snapshot → List Account → Account ⊕ List Account
  | [], candidates => .inr candidates
  | snapshot :: rest, candidates =>
    match consider mode s excluded snapshot.toAccountSnapshot with
    | .skip => search mode s excluded rest candidates
    | .preferred a => .inl a
    | .candidate a => search mode s excluded rest (candidates ++ [a])

/-- The snapshots are of accounts of the store, enabled as the store has them. -/
def Consistent (s : Store) (snapshots : List Snapshot) : Prop :=
  ∀ snapshot ∈ snapshots, ∃ a, s.account snapshot.id = some a ∧ a.enabled = snapshot.enabled

/-- No snapshot of an account leaves a choice. -/
def Exhausted (snapshots : List Snapshot) : Prop :=
  aggregateRateLimits snapshots = .error errNoSubscription ∨
    ∃ limits, aggregateRateLimits snapshots = .ok limits ∧
      limits.rateLimitReachedType = some (lit "rate_limit_reached")

theorem accountHasCapacity_eq (s : Snapshot) :
    accountHasCapacity s.toAccountSnapshot = (isSubscription s && hasWeekly s.toAccountSnapshot) := rfl

theorem foldl_add (snapshots : List Snapshot) (g : Gathered) :
    (snapshots.foldl Gathered.add g).hasSubscription =
        (g.hasSubscription || snapshots.any isSubscription) ∧
      (snapshots.foldl Gathered.add g).hasCapacity =
        (g.hasCapacity || snapshots.any fun s => accountHasCapacity s.toAccountSnapshot) := by
  induction snapshots generalizing g with
  | nil => simp
  | cons s rest ih =>
    rw [List.foldl_cons, (ih (g.add s)).1, (ih (g.add s)).2, List.any_cons, List.any_cons,
      accountHasCapacity_eq]
    cases hs : isSubscription s with
    | false => simp [Gathered.add, hs]
    | true => simp [Gathered.add, hs, Bool.or_assoc]

theorem exhausted_iff_noCapacity (snapshots : List Snapshot) :
    Exhausted snapshots ↔ ∀ s ∈ snapshots, accountHasCapacity s.toAccountSnapshot = false := by
  obtain ⟨hsubscription, hcapacity⟩ := foldl_add snapshots ⟨[], [], false, false⟩
  rw [Bool.false_or] at hsubscription hcapacity
  have hnone : (∀ s ∈ snapshots, accountHasCapacity s.toAccountSnapshot = false) ↔
      (snapshots.any fun s => accountHasCapacity s.toAccountSnapshot) = false := by
    simp
  rw [hnone, ← hcapacity]
  unfold Exhausted aggregateRateLimits
  dsimp only
  cases hs : (snapshots.foldl Gathered.add ⟨[], [], false, false⟩).hasSubscription with
  | false =>
    -- Without a subscription there is no snapshot with capacity either.
    refine iff_of_true (.inl rfl) ?_
    rw [hsubscription, List.any_eq_false] at hs
    rw [hcapacity, List.any_eq_false]
    intro s hmem
    rw [accountHasCapacity_eq, Bool.eq_false_of_not_eq_true (hs s hmem)]
    exact Bool.false_ne_true
  | true =>
    cases (snapshots.foldl Gathered.add ⟨[], [], false, false⟩).hasCapacity <;> simp

/-- In Auto mode a snapshot of an account of the store is a candidate when it has capacity. -/
theorem consider_auto {mode : RoutingMode} {s : Store} {snapshot : Snapshot} {a : Account}
    (hmode : mode.mode = lit "auto") (ha : s.account snapshot.id = some a)
    (he : a.enabled = snapshot.enabled) :
    consider mode s ∅ snapshot.toAccountSnapshot =
      if accountHasCapacity snapshot.toAccountSnapshot then .candidate a else .skip := by
  have haccount : mode.mode ≠ lit "account" := by
    rw [hmode]
    decide
  have hid : s.account snapshot.toAccountSnapshot.id = some a := ha
  have henabled : snapshot.toAccountSnapshot.enabled = a.enabled := he.symm
  unfold consider accountHasCapacity
  simp only [Finset.notMem_empty, if_false, hid, henabled, haccount, false_and]
  cases a.enabled <;> cases snapshot.toAccountSnapshot.connected <;>
    by_cases hauth : snapshot.toAccountSnapshot.authType = lit "chatgpt" <;>
    cases (longestAndShortestWindow snapshot.toAccountSnapshot.rateLimits).1 <;>
    simp [hauth]
  rename_i weekly
  rcases lt_or_ge weekly.usedPercent 100 with hleft | hfull
  · rw [if_neg hleft.not_ge, if_pos hleft]
  · rw [if_pos hfull, if_neg hfull.not_gt]

theorem search_auto {mode : RoutingMode} {s : Store} (hmode : mode.mode = lit "auto")
    (snapshots : List Snapshot) (h : Consistent s snapshots) (candidates : List Account) :
    search mode s ∅ snapshots candidates = .inr (candidates ++
      (snapshots.filter fun snapshot =>
        accountHasCapacity snapshot.toAccountSnapshot).filterMap fun snapshot =>
          s.account snapshot.id) := by
  induction snapshots generalizing candidates with
  | nil => simp [search]
  | cons snapshot rest ih =>
    obtain ⟨a, ha, he⟩ := h snapshot List.mem_cons_self
    have hrest := ih fun other hother => h other (List.mem_cons_of_mem snapshot hother)
    rw [search, consider_auto hmode ha he]
    cases hc : accountHasCapacity snapshot.toAccountSnapshot with
    | false => simpa [hc] using hrest candidates
    | true => simpa [hc, ha] using hrest (candidates ++ [a])

/-- The limit is reported as reached exactly when the chooser is left without a candidate,
and when no account has capacity. -/
theorem exhausted_iff {mode : RoutingMode} {s : Store} {snapshots : List Snapshot}
    (hmode : mode.mode = lit "auto") (h : Consistent s snapshots) :
    (Exhausted snapshots ↔ search mode s ∅ snapshots [] = .inr []) ∧
      (Exhausted snapshots ↔
        ∀ snapshot ∈ snapshots, accountHasCapacity snapshot.toAccountSnapshot = false) := by
  refine ⟨?_, exhausted_iff_noCapacity snapshots⟩
  rw [exhausted_iff_noCapacity, search_auto hmode snapshots h, List.nil_append, Sum.inr.injEq,
    List.filterMap_eq_nil_iff]
  constructor
  · intro hnone snapshot hmem
    obtain ⟨hmem, hc⟩ := List.mem_filter.mp hmem
    rw [hnone snapshot hmem] at hc
    cases hc
  · intro hnone snapshot hmem
    by_contra hc
    obtain ⟨a, ha, -⟩ := h snapshot hmem
    rw [hnone snapshot (List.mem_filter.mpr ⟨hmem, by simpa using hc⟩)] at ha
    cases ha

/-- A depleted account next to one that is not connected. -/
theorem exhausted_twoAccounts : Exhausted [
      ⟨lit "a", true, true, lit "chatgpt", some ⟨some (window 100 10080), none, none⟩⟩,
      ⟨lit "b", true, false, lit "chatgpt", none⟩] := by
  refine (@exhausted_iff .auto (twoAccounts (lit "b")).store _ rfl ?_).2.mpr
    (by decide)
  rintro snapshot hmem
  rcases List.mem_cons.mp hmem with rfl | hmem
  · exact ⟨_, rfl, rfl⟩
  · rw [List.mem_singleton.mp hmem]
    exact ⟨_, rfl, rfl⟩

end SubscriptionRouter.RateLimitWindows
