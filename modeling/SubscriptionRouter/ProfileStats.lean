import Mathlib
import SubscriptionRouter.KeyedSums
import SubscriptionRouter.Rankings
import SubscriptionRouter.Streaks

set_option autoImplicit false

/-!
# The combined profile

`aggregateProfileStatsAt` merges the statistics of several accounts: counts are added, daily
activity and invocations go through maps, and what is derived from them is sorted or maximised.
A `range` over a map runs in any order. Percentages are rational numbers.
-/
namespace SubscriptionRouter.ProfileStats
open GoText CalendarDays KeyedSums Streaks

instance addCommGroup : AddCommGroup Int64 where
  add_assoc := Int64.add_assoc
  zero_add := Int64.zero_add
  add_zero := Int64.add_zero
  add_comm := Int64.add_comm
  neg_add_cancel := Int64.add_left_neg
  sub_eq_add_neg := Int64.sub_eq_add_neg
  nsmul := nsmulRec
  zsmul := zsmulRec

/-! ## Statistics -/

structure UsageBucket where
  startDate : GoString
  tokens : Int64
deriving DecidableEq

structure ProfileInvocation where
  type : GoString
  pluginID : Option GoString
  pluginName : Option GoString
  skillID : Option GoString
  skillName : Option GoString
  usageCount : Int64
deriving DecidableEq

structure WhamProfileStats where
  lifetimeTokens : Int64
  peakDailyTokens : Int64
  currentStreakDays : Int64
  longestStreakDays : Int64
  totalThreads : Int64
  longestRunningTurnSec : Int64
  fastModeUsagePercentage : ℚ
  totalSkillsUsed : Int64
  uniqueSkillsUsed : Int64
  mostUsedReasoningEffort : GoString
  mostUsedReasoningEffortPercentage : ℚ
  dailyUsageBuckets : List UsageBucket
  cumulativeDailyUsageBuckets : List UsageBucket
  weeklyUsageBuckets : List UsageBucket
  topInvocations : List ProfileInvocation

/-- The zero value of the type. -/
def noStats : WhamProfileStats where
  lifetimeTokens := 0
  peakDailyTokens := 0
  currentStreakDays := 0
  longestStreakDays := 0
  totalThreads := 0
  longestRunningTurnSec := 0
  fastModeUsagePercentage := 0
  totalSkillsUsed := 0
  uniqueSkillsUsed := 0
  mostUsedReasoningEffort := []
  mostUsedReasoningEffortPercentage := 0
  dailyUsageBuckets := []
  cumulativeDailyUsageBuckets := []
  weeklyUsageBuckets := []
  topInvocations := []

/-- The order of a `range` over a map, which may be any. -/
structure RangeOrder (α : Type) where
  run : List α → List α
  perm : ∀ l, (run l).Perm l

def RangeOrder.stored (α : Type) : RangeOrder α := ⟨id, List.Perm.refl⟩

/-- One order for each `range`. -/
structure MapOrders where
  efforts : RangeOrder (GoString × ℚ)
  dates : RangeOrder GoString
  weeks : RangeOrder GoString
  invocations : RangeOrder (GoString × ProfileInvocation)

def MapOrders.stored : MapOrders where
  efforts := .stored _
  dates := .stored _
  weeks := .stored _
  invocations := .stored _

/-! ## Invocations -/

def stringValue (value : Option GoString) : GoString := value.getD []

def invocationKey (invocation : ProfileInvocation) : GoString :=
  invocation.type ++ 0x7C :: (stringValue invocation.pluginID ++ 0x7C :: stringValue invocation.skillID)

/-- `current := invocations[key]`, where an empty type stands for no entry. -/
def mergeInto (current : Option ProfileInvocation) (invocation : ProfileInvocation) : ProfileInvocation :=
  match current with
  | none => invocation
  | some current =>
    if current.type = [] then invocation
    else { current with usageCount := current.usageCount + invocation.usageCount }

def mergeInvocation (invocations : GoMap ProfileInvocation) (invocation : ProfileInvocation) :
    GoMap ProfileInvocation :=
  invocations.insert (invocationKey invocation)
    (mergeInto invocations[invocationKey invocation]? invocation)

/-! ## Accumulation -/

structure Accumulated where
  lifetimeTokens : Int64
  totalThreads : Int64
  totalSkillsUsed : Int64
  uniqueSkillsUsed : Int64
  longestRunningTurnSec : Int64
  totalFastWeight : ℚ
  totalReasoningWeight : ℚ
  reasoningWeights : GoMap ℚ
  daily : GoMap Int64
  invocations : GoMap ProfileInvocation

def nothingAccumulated : Accumulated := ⟨0, 0, 0, 0, 0, 0, 0, ∅, ∅, ∅⟩

def weightOf (stats : WhamProfileStats) : ℚ :=
  let weight : ℚ := stats.totalThreads.toInt
  if weight ≤ 0 then 1 else weight

/-- What a profile adds to the weight of its reasoning effort. -/
def effortWeight (stats : WhamProfileStats) : Option (GoString × ℚ) :=
  if stats.mostUsedReasoningEffort ≠ [] then
    some (stats.mostUsedReasoningEffort,
      stats.mostUsedReasoningEffortPercentage * weightOf stats / 100)
  else none

/-- One round of the loop over the profiles. -/
def accumulate (acc : Accumulated) (stats : WhamProfileStats) : Accumulated where
  lifetimeTokens := acc.lifetimeTokens + stats.lifetimeTokens
  totalThreads := acc.totalThreads + stats.totalThreads
  totalSkillsUsed := acc.totalSkillsUsed + stats.totalSkillsUsed
  uniqueSkillsUsed := acc.uniqueSkillsUsed + stats.uniqueSkillsUsed
  longestRunningTurnSec :=
    if acc.longestRunningTurnSec < stats.longestRunningTurnSec then stats.longestRunningTurnSec
    else acc.longestRunningTurnSec
  totalFastWeight := acc.totalFastWeight + stats.fastModeUsagePercentage * weightOf stats
  totalReasoningWeight := acc.totalReasoningWeight + weightOf stats
  reasoningWeights := (effortWeight stats).toList.foldl addTo acc.reasoningWeights
  daily := (stats.dailyUsageBuckets.map fun bucket => (bucket.startDate, bucket.tokens)).foldl addTo acc.daily
  invocations := stats.topInvocations.foldl mergeInvocation acc.invocations

def accumulateAll (profiles : List WhamProfileStats) : Accumulated :=
  profiles.foldl accumulate nothingAccumulated

/-! ## Reasoning efforts -/

def weightAt (reasoningWeights : GoMap ℚ) (effort : GoString) : ℚ := reasoningWeights[effort]?.getD 0

def mostUsed (reasoningWeights : GoMap ℚ) (entries : List (GoString × ℚ)) : GoString :=
  entries.foldl (fun effort e => if weightAt reasoningWeights effort < e.2 then e.1 else effort) []

/-! ## Daily activity -/

def weekOf (day : ℤ) : GoString := formatDay (day - ((weekday day + 6) % 7 : ℕ))

structure Activity where
  daily : List UsageBucket
  cumulativeDaily : List UsageBucket
  cumulative : Int64
  peak : Int64
  weekly : GoMap Int64

/-- One round of the loop over the sorted dates. -/
def addDay (daily : GoMap Int64) (activity : Activity) (date : GoString) : Activity :=
  let tokens := daily[date]?.getD 0
  { daily := activity.daily ++ [⟨date, tokens⟩]
    cumulativeDaily := activity.cumulativeDaily ++ [⟨date, activity.cumulative + tokens⟩]
    cumulative := activity.cumulative + tokens
    peak := if activity.peak < tokens then tokens else activity.peak
    weekly := match parseDay date with
      | none => activity.weekly
      | some day => addTo activity.weekly (weekOf day, tokens) }

/-- `sort.Strings` -/
def sortStrings (l : List GoString) : List GoString := l.insertionSort (· ≤ ·)

def sortedDates (orders : MapOrders) (daily : GoMap Int64) : List GoString :=
  sortStrings (orders.dates.run daily.keys)

def activityOf (orders : MapOrders) (daily : GoMap Int64) : Activity :=
  (sortedDates orders daily).foldl (addDay daily) ⟨[], [], 0, 0, ∅⟩

def weeklyBuckets (orders : MapOrders) (weekly : GoMap Int64) : List UsageBucket :=
  (sortStrings (orders.weeks.run weekly.keys)).map fun week => ⟨week, weekly[week]?.getD 0⟩

/-! ## The result -/

def topInvocations (orders : MapOrders) (invocations : GoMap ProfileInvocation) : List ProfileInvocation :=
  (Rankings.sliceStable (fun a b => decide (b.usageCount < a.usageCount))
    ((orders.invocations.run invocations.toList).map Prod.snd)).take 5

def aggregateProfileStatsAt (orders : MapOrders) (profiles : List WhamProfileStats) (today : Time) :
    WhamProfileStats :=
  let acc := accumulateAll profiles
  let effort := mostUsed acc.reasoningWeights (orders.efforts.run acc.reasoningWeights.toList)
  let activity := activityOf orders acc.daily
  let streaks := mergedStreaks (sortedDates orders acc.daily) today
  { lifetimeTokens := acc.lifetimeTokens
    peakDailyTokens := activity.peak
    currentStreakDays := Int64.ofNat streaks.1
    longestStreakDays := Int64.ofNat streaks.2
    totalThreads := acc.totalThreads
    longestRunningTurnSec := acc.longestRunningTurnSec
    fastModeUsagePercentage :=
      if 0 < acc.totalReasoningWeight then acc.totalFastWeight / acc.totalReasoningWeight else 0
    totalSkillsUsed := acc.totalSkillsUsed
    uniqueSkillsUsed := acc.uniqueSkillsUsed
    mostUsedReasoningEffort := effort
    mostUsedReasoningEffortPercentage :=
      if 0 < acc.totalReasoningWeight then
        weightAt acc.reasoningWeights effort / acc.totalReasoningWeight * 100
      else 0
    dailyUsageBuckets := activity.daily
    cumulativeDailyUsageBuckets := activity.cumulativeDaily
    weeklyUsageBuckets := weeklyBuckets orders activity.weekly
    topInvocations := topInvocations orders acc.invocations }

end SubscriptionRouter.ProfileStats
