import Mathlib
import SubscriptionRouter.DailyActivity
import SubscriptionRouter.FirstRanks
import SubscriptionRouter.Invocations

set_option autoImplicit false

/-!
# The order of profiles and of map entries

Profiles arrive in any order, and a `range` over a map runs in any order. Sums, daily activity
and streaks do not depend on it; the most used effort and the top invocations do where there
are ties, or where a merged record depends on the profile that came first.
-/
namespace SubscriptionRouter.ProfileOrder
open GoText KeyedSums Streaks ProfileStats Invocations DailyActivity FirstRanks

def OrderFree (profiles : List WhamProfileStats) (today : Time) : Prop :=
  ∀ arrangement : List WhamProfileStats, arrangement.Perm profiles → ∀ orders orders' : MapOrders,
    aggregateProfileStatsAt orders arrangement today = aggregateProfileStatsAt orders' profiles today

theorem exists_rangeOrder {α : Type} {l s : List α} (h : s.Perm l) :
    ∃ order : RangeOrder α, order.run l = s := by
  classical
  refine ⟨⟨fun t => if t = l then s else t, fun t => ?_⟩, if_pos rfl⟩
  split
  · rename_i ht
    rw [ht]
    exact h
  · exact List.Perm.refl t

/-! ## What does not depend on the order -/

section Fields
variable {profiles arrangement : List WhamProfileStats}

/-- A part of the accumulated values to which the profiles are added in any order. -/
theorem accumulated_perm {β : Type} (part : Accumulated → β) (add : β → WhamProfileStats → β)
    (hadd : ∀ acc stats, part (accumulate acc stats) = add (part acc) stats)
    (hcomm : ∀ b stats other, add (add b stats) other = add (add b other) stats)
    (h : arrangement.Perm profiles) :
    part (accumulateAll arrangement) = part (accumulateAll profiles) := by
  have hfold : ∀ l : List WhamProfileStats, part (accumulateAll l) = l.foldl add (part nothingAccumulated) :=
    fun l => (List.foldl_hom part fun acc stats => (hadd acc stats).symm).symm
  rw [hfold, hfold]
  exact h.foldl_eq' (fun x _ y _ b => hcomm b x y) _

theorem longest_comm (m a b : Int64) :
    (if (if m < a then a else m) < b then b else if m < a then a else m) =
      if (if m < b then b else m) < a then a else if m < b then b else m := by
  simp only [Int64.lt_iff_toInt_lt]
  split_ifs <;> first | rfl | (exfalso; omega) | (apply Int64.toInt_inj.mp; omega)

def effortEntries (profiles : List WhamProfileStats) : List (GoString × ℚ) := profiles.filterMap effortWeight

theorem reasoningWeights_accumulateAll (profiles : List WhamProfileStats) :
    (accumulateAll profiles).reasoningWeights = (effortEntries profiles).foldl addTo ∅ := by
  have hentries : effortEntries profiles = profiles.flatMap fun stats => (effortWeight stats).toList :=
    List.filterMap_eq_flatMap_toList _ profiles
  rw [hentries, List.foldl_flatMap]
  exact (List.foldl_hom Accumulated.reasoningWeights fun acc stats => rfl).symm

theorem reasoningWeights_perm (h : arrangement.Perm profiles) :
    (accumulateAll arrangement).reasoningWeights = (accumulateAll profiles).reasoningWeights := by
  rw [reasoningWeights_accumulateAll, reasoningWeights_accumulateAll]
  exact sums_perm (h.filterMap effortWeight)

theorem daily_perm (h : arrangement.Perm profiles) :
    (accumulateAll arrangement).daily = (accumulateAll profiles).daily := by
  rw [daily_accumulateAll, daily_accumulateAll]
  exact sums_perm ((h.flatMap_right _).map entryOf)

theorem sortedDates_eq (orders orders' : MapOrders) (daily : GoMap Int64) :
    sortedDates orders daily = sortedDates orders' daily :=
  sortStrings_eq ((orders.dates.perm _).trans (orders'.dates.perm _).symm)

theorem weeklyBuckets_eq (orders orders' : MapOrders) (weekly : GoMap Int64) :
    weeklyBuckets orders weekly = weeklyBuckets orders' weekly := by
  rw [weeklyBuckets, sortStrings_eq ((orders.weeks.perm _).trans (orders'.weeks.perm _).symm)]
  rfl

def effortOf (orders : MapOrders) (profiles : List WhamProfileStats) : GoString :=
  mostUsed (accumulateAll profiles).reasoningWeights
    (orders.efforts.run (accumulateAll profiles).reasoningWeights.toList)

def topOf (orders : MapOrders) (profiles : List WhamProfileStats) : List ProfileInvocation :=
  topInvocations orders (accumulateAll profiles).invocations

theorem aggregate_eq_iff (h : arrangement.Perm profiles) (orders orders' : MapOrders) (today : Time) :
    aggregateProfileStatsAt orders arrangement today = aggregateProfileStatsAt orders' profiles today ↔
      effortOf orders arrangement = effortOf orders' profiles ∧
        topOf orders arrangement = topOf orders' profiles := by
  constructor
  · intro heq
    exact ⟨congrArg WhamProfileStats.mostUsedReasoningEffort heq,
      congrArg WhamProfileStats.topInvocations heq⟩
  · rintro ⟨heffort, htop⟩
    have hlifetime := accumulated_perm Accumulated.lifetimeTokens (fun b s => b + s.lifetimeTokens)
      (fun _ _ => rfl) (fun b _ _ => add_right_comm b _ _) h
    have hthreads := accumulated_perm Accumulated.totalThreads (fun b s => b + s.totalThreads)
      (fun _ _ => rfl) (fun b _ _ => add_right_comm b _ _) h
    have hskills := accumulated_perm Accumulated.totalSkillsUsed (fun b s => b + s.totalSkillsUsed)
      (fun _ _ => rfl) (fun b _ _ => add_right_comm b _ _) h
    have hunique := accumulated_perm Accumulated.uniqueSkillsUsed (fun b s => b + s.uniqueSkillsUsed)
      (fun _ _ => rfl) (fun b _ _ => add_right_comm b _ _) h
    have hlongest := accumulated_perm Accumulated.longestRunningTurnSec
      (fun b s => if b < s.longestRunningTurnSec then s.longestRunningTurnSec else b)
      (fun _ _ => rfl) (fun b _ _ => longest_comm b _ _) h
    have hfast := accumulated_perm Accumulated.totalFastWeight
      (fun b s => b + s.fastModeUsagePercentage * weightOf s)
      (fun _ _ => rfl) (fun b _ _ => add_right_comm b _ _) h
    have htotal := accumulated_perm Accumulated.totalReasoningWeight (fun b s => b + weightOf s)
      (fun _ _ => rfl) (fun b _ _ => add_right_comm b _ _) h
    have hweights := reasoningWeights_perm h
    have hdaily := daily_perm h
    rw [effortOf, effortOf, hweights] at heffort
    rw [topOf, topOf] at htop
    simp only [aggregateProfileStatsAt, activityOf, hlifetime, hthreads, hskills, hunique, hlongest, hfast,
      htotal, hweights, hdaily, heffort, htop, sortedDates_eq orders orders', weeklyBuckets_eq orders orders']

end Fields

/-! ## The most used effort -/

section Efforts
variable {weights : GoMap ℚ} {entries : List (GoString × ℚ)}

theorem mostUsed_spec (hzero : weightAt weights [] = 0) (h : ∀ e ∈ entries, weightAt weights e.1 = e.2) :
    (mostUsed weights entries = [] ∨ 0 < weightAt weights (mostUsed weights entries)) ∧
      0 ≤ weightAt weights (mostUsed weights entries) ∧
      ∀ e ∈ entries, e.2 ≤ weightAt weights (mostUsed weights entries) := by
  induction entries using List.reverseRecOn with
  | nil => exact ⟨.inl rfl, hzero.ge, List.forall_mem_nil _⟩
  | append_singleton entries e ih =>
    obtain ⟨hpositive, hnonneg, hgreatest⟩ := ih fun x hx => h x (List.mem_append_left _ hx)
    have he := h e (List.mem_append_right _ (List.mem_singleton_self e))
    have hstep : mostUsed weights (entries ++ [e]) =
        if weightAt weights (mostUsed weights entries) < e.2 then e.1 else mostUsed weights entries := by
      rw [mostUsed, List.foldl_append]
      rfl
    rw [hstep]
    split
    · rename_i hlt
      rw [he]
      refine ⟨.inr (hnonneg.trans_lt hlt), hnonneg.trans hlt.le, fun x hx => ?_⟩
      rcases List.mem_append.mp hx with hx | hx
      · exact (hgreatest x hx).trans hlt.le
      · rw [List.mem_singleton.mp hx]
    · rename_i hle
      refine ⟨hpositive, hnonneg, fun x hx => ?_⟩
      rcases List.mem_append.mp hx with hx | hx
      · exact hgreatest x hx
      · rw [List.mem_singleton.mp hx]
        exact not_lt.mp hle

theorem mostUsed_first (hzero : weightAt weights [] = 0) {effort : GoString}
    (hpos : 0 < weightAt weights effort) (h : ∀ e ∈ entries, e.2 ≤ weightAt weights effort) :
    mostUsed weights ((effort, weightAt weights effort) :: entries) = effort := by
  have hkeep : ∀ l : List (GoString × ℚ), (∀ e ∈ l, e.2 ≤ weightAt weights effort) →
      l.foldl (fun effort e => if weightAt weights effort < e.2 then e.1 else effort) effort = effort := by
    intro l hl
    induction l with
    | nil => rfl
    | cons e l ih =>
      rw [List.foldl_cons, if_neg (hl e List.mem_cons_self).not_gt]
      exact ih fun x hx => hl x (List.mem_cons_of_mem e hx)
  rw [mostUsed, List.foldl_cons, if_pos (hzero ▸ hpos)]
  exact hkeep entries h

end Efforts

def effortTotal (profiles : List WhamProfileStats) (effort : GoString) : ℚ :=
  sumAt (effortEntries profiles) effort

/-- No two efforts share the greatest positive weight. -/
def SingleEffort (profiles : List WhamProfileStats) : Prop :=
  ∀ e f, 0 < effortTotal profiles e → (∀ g, effortTotal profiles g ≤ effortTotal profiles e) →
    (∀ g, effortTotal profiles g ≤ effortTotal profiles f) → e = f

theorem weightAt_accumulateAll (profiles : List WhamProfileStats) (effort : GoString) :
    weightAt (accumulateAll profiles).reasoningWeights effort = effortTotal profiles effort := by
  rw [weightAt, reasoningWeights_accumulateAll, getD_sums, effortTotal]

theorem effortTotal_nil (profiles : List WhamProfileStats) : effortTotal profiles [] = 0 := by
  refine sumAt_of_not_mem fun hmem => ?_
  obtain ⟨e, he, hnil⟩ := List.mem_map.mp hmem
  obtain ⟨stats, -, hstats⟩ := List.mem_filterMap.mp he
  obtain ⟨hne, hentry⟩ := Option.ite_none_right_eq_some.mp hstats
  obtain rfl := Option.some.inj hentry
  exact hne hnil

theorem mem_weights {profiles : List WhamProfileStats} {e : GoString × ℚ} :
    e ∈ (accumulateAll profiles).reasoningWeights.toList →
      weightAt (accumulateAll profiles).reasoningWeights e.1 = e.2 := by
  intro he
  rw [weightAt, Std.ExtTreeMap.mem_toList_iff_getElem?_eq_some.mp he, Option.getD_some]

theorem effortOf_spec (orders : MapOrders) (profiles : List WhamProfileStats) :
    (effortOf orders profiles = [] ∨ 0 < effortTotal profiles (effortOf orders profiles)) ∧
      ∀ g, effortTotal profiles g ≤ effortTotal profiles (effortOf orders profiles) := by
  have hperm := orders.efforts.perm (accumulateAll profiles).reasoningWeights.toList
  have hzero := (weightAt_accumulateAll profiles []).trans (effortTotal_nil profiles)
  obtain ⟨hpositive, hnonneg, hgreatest⟩ := mostUsed_spec hzero fun e he => mem_weights (hperm.mem_iff.mp he)
  rw [← effortOf, weightAt_accumulateAll] at hpositive hnonneg hgreatest
  refine ⟨hpositive, fun g => ?_⟩
  rw [← weightAt_accumulateAll profiles g, weightAt]
  cases hg : (accumulateAll profiles).reasoningWeights[g]? with
  | none => exact hnonneg
  | some w =>
    have hmem := Std.ExtTreeMap.mem_toList_iff_getElem?_eq_some.mpr hg
    exact hgreatest (g, w) (hperm.mem_iff.mpr hmem)

theorem exists_effort {profiles : List WhamProfileStats} {effort : GoString}
    (hpos : 0 < effortTotal profiles effort)
    (hgreatest : ∀ g, effortTotal profiles g ≤ effortTotal profiles effort) :
    ∃ orders : MapOrders, effortOf orders profiles = effort := by
  have hweight := weightAt_accumulateAll profiles effort
  have hmem : (effort, effortTotal profiles effort) ∈ (accumulateAll profiles).reasoningWeights.toList := by
    rw [Std.ExtTreeMap.mem_toList_iff_getElem?_eq_some]
    rw [weightAt] at hweight
    cases hget : (accumulateAll profiles).reasoningWeights[effort]? with
    | none =>
      rw [hget, Option.getD_none] at hweight
      rw [← hweight] at hpos
      exact absurd hpos (lt_irrefl 0)
    | some w =>
      rw [hget, Option.getD_some] at hweight
      rw [hweight]
  have hperm := List.perm_cons_erase hmem
  obtain ⟨order, horder⟩ := exists_rangeOrder hperm.symm
  refine ⟨{ MapOrders.stored with efforts := order }, ?_⟩
  have hzero := (weightAt_accumulateAll profiles []).trans (effortTotal_nil profiles)
  rw [effortOf]
  show mostUsed _ (order.run _) = effort
  rw [horder, ← hweight]
  refine mostUsed_first hzero (by rwa [hweight]) fun e he => ?_
  rw [← mem_weights (List.mem_of_mem_erase he), weightAt_accumulateAll, hweight]
  exact hgreatest e.1

/-! ## The first invocations -/

def moreUsed (a b : ProfileInvocation) : Bool := decide (b.usageCount < a.usageCount)

theorem moreUsed_eq_false_iff {a b : ProfileInvocation} :
    moreUsed a b = false ↔ a.usageCount ≤ b.usageCount := by
  rw [moreUsed, decide_eq_false_iff_not, Int64.not_lt]

theorem moreUsed_self (a : ProfileInvocation) : moreUsed a a = false :=
  moreUsed_eq_false_iff.mpr (Int64.le_refl _)

theorem moreUsed_congr {a b : ProfileInvocation} (h : a.usageCount = b.usageCount) (x : ProfileInvocation) :
    moreUsed a x = moreUsed b x ∧ moreUsed x a = moreUsed x b := by
  rw [moreUsed, moreUsed, moreUsed, moreUsed, h]
  exact ⟨rfl, rfl⟩

theorem strictWeak_moreUsed (l : List ProfileInvocation) : Rankings.StrictWeak moreUsed l where
  irrefl a _ := moreUsed_self a
  trans := by
    intro x _ y _ z _ hxy hyz
    exact decide_eq_true (Int64.lt_trans (of_decide_eq_true hyz) (of_decide_eq_true hxy))
  tie := by
    intro x _ y _ z _ hxy hyx hyz hzy
    rw [moreUsed_eq_false_iff] at hxy hyx hyz hzy ⊢
    exact ⟨Int64.le_trans hxy hyz, moreUsed_eq_false_iff.mpr (Int64.le_trans hzy hyx)⟩

theorem nodup_mergedInvocations (profiles : List WhamProfileStats) : (mergedInvocations profiles).Nodup :=
  List.Nodup.of_map identity (once_mergedInvocations profiles)

theorem topOf_ranked (orders : MapOrders) (profiles : List WhamProfileStats) :
    ∃ s : List ProfileInvocation, s.Perm (mergedInvocations profiles) ∧ Ranked moreUsed s ∧
      topOf orders profiles = s.take 5 := by
  refine ⟨Rankings.sliceStable moreUsed
    ((orders.invocations.run (accumulateAll profiles).invocations.toList).map Prod.snd), ?_, ?_, rfl⟩
  · exact (Rankings.perm_sliceStable _ _).trans ((orders.invocations.perm _).map _)
  · exact (strictWeak_moreUsed _).pairwise_sliceStable

theorem exists_topOf {profiles : List WhamProfileStats} {s : List ProfileInvocation}
    (hperm : s.Perm (mergedInvocations profiles)) (hranked : Ranked moreUsed s) :
    ∃ orders : MapOrders, topOf orders profiles = s.take 5 := by
  have hkeys : (mergedInvocations profiles).map (fun r => (invocationKey r, r)) =
      (accumulateAll profiles).invocations.toList := by
    rw [mergedInvocations, List.map_map]
    refine (List.map_congr_left fun e he => ?_).trans (List.map_id _)
    have hget := Std.ExtTreeMap.mem_toList_iff_getElem?_eq_some.mp (show (e.1, e.2) ∈ _ from he)
    show (invocationKey e.2, e.2) = e
    rw [key_of_getElem? hget]
  have hentries := hperm.map fun r => (invocationKey r, r)
  rw [hkeys] at hentries
  obtain ⟨order, horder⟩ := exists_rangeOrder hentries
  refine ⟨{ MapOrders.stored with invocations := order }, ?_⟩
  have hvalues : (s.map fun r => (invocationKey r, r)).map Prod.snd = s := by
    rw [List.map_map]
    exact List.map_id s
  show (Rankings.sliceStable moreUsed ((order.run _).map Prod.snd)).take 5 = _
  rw [horder, hvalues, sliceStable_of_ranked hranked]

/-! ## The records that merging can leave -/

/-- A record that merging leaves under a key in some arrangement of the profiles: it is the first
entry with a type in a profile before which none has one, counted with all entries after it; or,
where no entry has a type, it is the last entry of a profile. -/
inductive Leaves (profiles : List WhamProfileStats) (key : GoString) : ProfileInvocation → Prop
  | typed {before after : List WhamProfileStats} {stats : WhamProfileStats}
      {lost counted : List ProfileInvocation} {e : ProfileInvocation}
      (arranged : (before ++ stats :: after).Perm profiles)
      (untypedBefore : ∀ x ∈ classOf (entriesOf before) key, x.type = [])
      (split : classOf stats.topInvocations key = lost ++ e :: counted)
      (untypedLost : ∀ x ∈ lost, x.type = []) (hasType : e.type ≠ []) :
      Leaves profiles key
        (withCount e (totalCount (e :: counted) + totalCount (classOf (entriesOf after) key)))
  | untyped {stats : WhamProfileStats} {r : ProfileInvocation} (mem : stats ∈ profiles)
      (untyped : ∀ x ∈ classOf (entriesOf profiles) key, x.type = [])
      (last : (classOf stats.topInvocations key).getLast? = some r) : Leaves profiles key r

section Records
variable {profiles arrangement : List WhamProfileStats} {key : GoString} {r : ProfileInvocation}

theorem classOf_append (entries rest : List ProfileInvocation) (key : GoString) :
    classOf (entries ++ rest) key = classOf entries key ++ classOf rest key :=
  List.filter_append ..

theorem entriesOf_append (before after : List WhamProfileStats) :
    entriesOf (before ++ after) = entriesOf before ++ entriesOf after :=
  List.flatMap_append

theorem classOf_cons (stats : WhamProfileStats) (after : List WhamProfileStats) (key : GoString) :
    classOf (entriesOf (stats :: after)) key =
      classOf stats.topInvocations key ++ classOf (entriesOf after) key :=
  classOf_append ..

theorem classOf_perm (h : arrangement.Perm profiles) (key : GoString) :
    (classOf (entriesOf arrangement) key).Perm (classOf (entriesOf profiles) key) :=
  (h.flatMap_right _).filter _

theorem exists_last (h : (classOf (entriesOf arrangement) key).getLast? = some r) :
    ∃ stats ∈ arrangement, (classOf stats.topInvocations key).getLast? = some r := by
  induction arrangement using List.reverseRecOn with
  | nil => cases h
  | append_singleton before stats ih =>
    have hlast : classOf (entriesOf [stats]) key = classOf stats.topInvocations key := by
      rw [classOf_cons]
      exact List.append_nil _
    rw [entriesOf_append, classOf_append, hlast, List.getLast?_append] at h
    cases hstats : (classOf stats.topInvocations key).getLast? with
    | none =>
      rw [hstats, Option.none_or] at h
      obtain ⟨other, hother, hr⟩ := ih h
      exact ⟨other, List.mem_append_left _ hother, hr⟩
    | some x =>
      rw [hstats, Option.some_or] at h
      exact ⟨stats, List.mem_append_right _ (List.mem_singleton_self stats), hstats.trans h⟩

/-- A key with a typed entry has a first profile with one. -/
theorem exists_first (h : ∃ x ∈ classOf (entriesOf arrangement) key, x.type ≠ []) :
    ∃ before stats after lost e counted, arrangement = before ++ stats :: after ∧
      (∀ x ∈ classOf (entriesOf before) key, x.type = []) ∧
      classOf stats.topInvocations key = lost ++ e :: counted ∧ (∀ x ∈ lost, x.type = []) ∧
      e.type ≠ [] := by
  induction arrangement with
  | nil =>
    obtain ⟨x, hx, -⟩ := h
    cases hx
  | cons stats rest ih =>
    rcases untyped_or_first (classOf stats.topInvocations key) with
      hall | ⟨lost, e, counted, hsplit, hlost, he⟩
    · have hrest : ∃ x ∈ classOf (entriesOf rest) key, x.type ≠ [] := by
        obtain ⟨x, hx, htype⟩ := h
        rw [classOf_cons] at hx
        rcases List.mem_append.mp hx with hx | hx
        · exact absurd (hall x hx) htype
        · exact ⟨x, hx, htype⟩
      obtain ⟨before, other, after, lost, e, counted, rfl, hbefore, hsplit, hlost, he⟩ := ih hrest
      refine ⟨stats :: before, other, after, lost, e, counted, rfl, fun x hx => ?_, hsplit, hlost, he⟩
      rw [classOf_cons] at hx
      rcases List.mem_append.mp hx with hx | hx
      · exact hall x hx
      · exact hbefore x hx
    · exact ⟨[], stats, rest, lost, e, counted, rfl, List.forall_mem_nil _, hsplit, hlost, he⟩

theorem mergeClass_split {before after : List WhamProfileStats} {stats : WhamProfileStats}
    {lost counted : List ProfileInvocation} {e : ProfileInvocation}
    (hbefore : ∀ x ∈ classOf (entriesOf before) key, x.type = [])
    (hsplit : classOf stats.topInvocations key = lost ++ e :: counted)
    (hlost : ∀ x ∈ lost, x.type = []) (he : e.type ≠ []) :
    mergeClass (classOf (entriesOf (before ++ stats :: after)) key) =
      some (withCount e (totalCount (e :: counted) + totalCount (classOf (entriesOf after) key))) := by
  have hentries : classOf (entriesOf (before ++ stats :: after)) key =
      (classOf (entriesOf before) key ++ lost) ++
        e :: (counted ++ classOf (entriesOf after) key) := by
    rw [entriesOf_append, classOf_append, classOf_cons, hsplit]
    simp only [List.append_assoc, List.cons_append]
  have hall : ∀ x ∈ classOf (entriesOf before) key ++ lost, x.type = [] := by
    intro x hx
    rcases List.mem_append.mp hx with hx | hx
    · exact hbefore x hx
    · exact hlost x hx
  rw [hentries, mergeClass_typed hall he, ← List.cons_append, totalCount_append]

theorem leaves_iff : Leaves profiles key r ↔ ∃ arrangement : List WhamProfileStats,
    arrangement.Perm profiles ∧ mergeClass (classOf (entriesOf arrangement) key) = some r := by
  constructor
  · rintro (⟨harranged, hbefore, hsplit, hlost, he⟩ | ⟨hmem, hall, hlast⟩)
    · exact ⟨_, harranged, mergeClass_split hbefore hsplit hlost he⟩
    · rename_i stats
      obtain ⟨before, after, rfl⟩ := List.append_of_mem hmem
      have hperm : (before ++ after ++ [stats]).Perm (before ++ stats :: after) := by
        rw [List.append_assoc]
        exact (@List.perm_append_comm _ after [stats]).append_left before
      refine ⟨before ++ after ++ [stats], hperm, ?_⟩
      have huntyped : ∀ x ∈ classOf (entriesOf (before ++ after ++ [stats])) key, x.type = [] :=
        fun x hx => hall x ((classOf_perm hperm key).mem_iff.mp hx)
      have hstats : classOf (entriesOf [stats]) key = classOf stats.topInvocations key := by
        rw [classOf_cons]
        exact List.append_nil _
      rw [mergeClass_untyped huntyped, entriesOf_append, classOf_append, hstats, List.getLast?_append, hlast,
        Option.some_or]
  · rintro ⟨arrangement, hperm, hmerge⟩
    by_cases htyped : ∃ x ∈ classOf (entriesOf arrangement) key, x.type ≠ []
    · obtain ⟨before, stats, after, lost, e, counted, rfl, hbefore, hsplit, hlost, he⟩ := exists_first htyped
      rw [mergeClass_split hbefore hsplit hlost he] at hmerge
      obtain rfl := Option.some.inj hmerge
      exact .typed hperm hbefore hsplit hlost he
    · have hall : ∀ x ∈ classOf (entriesOf arrangement) key, x.type = [] := by
        intro x hx
        by_contra hne
        exact htyped ⟨x, hx, hne⟩
      rw [mergeClass_untyped hall] at hmerge
      obtain ⟨stats, hstats, hlast⟩ := exists_last hmerge
      exact .untyped (hperm.mem_iff.mp hstats) (fun x hx => hall x ((classOf_perm hperm key).mem_iff.mpr hx))
        hlast

theorem key_of_leaves (h : Leaves profiles key r) : invocationKey r = key := by
  obtain ⟨arrangement, -, hmerge⟩ := leaves_iff.mp h
  obtain ⟨e, he, hr⟩ := mergeClass_kept hmerge
  rw [hr, invocationKey_withCount]
  exact (mem_classOf.mp he).2

theorem leaves_of_mem (h : arrangement.Perm profiles) (hr : r ∈ mergedInvocations arrangement) :
    Leaves profiles (invocationKey r) r :=
  leaves_iff.mpr ⟨arrangement, h, mem_mergedInvocations.mp hr⟩

theorem exists_arrangement (h : Leaves profiles key r) : ∃ arrangement : List WhamProfileStats,
    arrangement.Perm profiles ∧ r ∈ mergedInvocations arrangement := by
  have hkey := key_of_leaves h
  obtain ⟨arrangement, hperm, hmerge⟩ := leaves_iff.mp h
  rw [← hkey] at hmerge
  exact ⟨arrangement, hperm, mem_mergedInvocations.mpr hmerge⟩

theorem exists_record (h : Leaves profiles key r) (hperm : arrangement.Perm profiles) :
    ∃ s ∈ mergedInvocations arrangement, invocationKey s = key := by
  obtain ⟨other, hother, hmerge⟩ := leaves_iff.mp h
  obtain ⟨e, he, -⟩ := mergeClass_kept hmerge
  have hmem := (classOf_perm (hother.trans hperm.symm) key).mem_iff.mp he
  obtain ⟨s, hs⟩ := mergeClass_isSome (List.ne_nil_of_mem hmem)
  have hkey := key_of_leaves (leaves_iff.mpr ⟨arrangement, hperm, hs⟩)
  refine ⟨s, mem_mergedInvocations.mpr ?_, hkey⟩
  rw [hkey]
  exact hs

theorem eq_of_key {s : ProfileInvocation} (hr : r ∈ mergedInvocations arrangement)
    (hs : s ∈ mergedInvocations arrangement) (hkey : invocationKey r = invocationKey s) : r = s := by
  have hr := mem_mergedInvocations.mp hr
  rw [hkey, mem_mergedInvocations.mp hs] at hr
  exact (Option.some.inj hr).symm

theorem nodup_recordKeys (profiles : List WhamProfileStats) :
    ((mergedInvocations profiles).map invocationKey).Nodup :=
  (nodup_mergedInvocations profiles).map_on fun _ hr _ hs hkey => eq_of_key hr hs hkey

theorem recordKeys_perm (h : arrangement.Perm profiles) :
    ((mergedInvocations arrangement).map invocationKey).Perm
      ((mergedInvocations profiles).map invocationKey) := by
  refine (List.perm_ext_iff_of_nodup (nodup_recordKeys _) (nodup_recordKeys _)).mpr fun key => ?_
  constructor
  · intro hkey
    obtain ⟨r, hr, rfl⟩ := List.mem_map.mp hkey
    obtain ⟨s, hs, hsame⟩ := exists_record (leaves_of_mem h hr) (List.Perm.refl profiles)
    exact List.mem_map.mpr ⟨s, hs, hsame⟩
  · intro hkey
    obtain ⟨r, hr, rfl⟩ := List.mem_map.mp hkey
    obtain ⟨s, hs, hsame⟩ := exists_record (leaves_of_mem (List.Perm.refl profiles) hr) h
    exact List.mem_map.mpr ⟨s, hs, hsame⟩

end Records

/-! ## Order freedom -/

/-- Five other keys always have more uses. -/
def Outranked (profiles : List WhamProfileStats) (r : ProfileInvocation) : Prop :=
  ∃ keys : List GoString, keys.Nodup ∧ keys.length = 5 ∧ ∀ key ∈ keys,
    (∃ s, Leaves profiles key s) ∧ ∀ s, Leaves profiles key s → r.usageCount < s.usageCount

/-- The only record of its key, with a count that no record of another key has. -/
def Settled (profiles : List WhamProfileStats) (key : GoString) (r : ProfileInvocation) : Prop :=
  (∀ s, Leaves profiles key s → s = r) ∧
    ∀ other, other ≠ key → ∀ s, Leaves profiles other s → s.usageCount ≠ r.usageCount

def SettledLeaders (profiles : List WhamProfileStats) : Prop :=
  ∀ key r, Leaves profiles key r → Outranked profiles r ∨ Settled profiles key r

section Leaders
variable {profiles arrangement : List WhamProfileStats}

theorem not_outranked_of_mem_take {s : List ProfileInvocation} {r : ProfileInvocation}
    (h : arrangement.Perm profiles) (hperm : s.Perm (mergedInvocations arrangement))
    (hranked : Ranked moreUsed s) (hr : r ∈ s.take 5) : ¬Outranked profiles r := by
  rintro ⟨keys, hnodup, hlength, hkeys⟩
  have hsub : ∀ key ∈ keys, key ∈
      ((mergedInvocations arrangement).filter fun x => decide (invocationKey x ∈ keys)).map invocationKey := by
    intro key hkey
    obtain ⟨s, hs⟩ := (hkeys key hkey).1
    obtain ⟨x, hx, rfl⟩ := exists_record hs h
    exact List.mem_map_of_mem (List.mem_filter.mpr ⟨hx, decide_eq_true hkey⟩)
  have hmany := (hnodup.subperm hsub).length_le
  rw [List.length_map, hlength] at hmany
  have hfew := length_ahead hranked (moreUsed_self r) hr
    ((nodup_mergedInvocations arrangement).filter fun x => decide (invocationKey x ∈ keys))
    (fun x hx => hperm.mem_iff.mpr (List.mem_of_mem_filter hx)) fun x hx => ?_
  · omega
  · obtain ⟨hmem, hkey⟩ := List.mem_filter.mp hx
    exact decide_eq_true ((hkeys _ (of_decide_eq_true hkey)).2 x (leaves_of_mem h hmem))

theorem mem_of_settled {other : List WhamProfileStats} (hsettled : SettledLeaders profiles)
    (h : arrangement.Perm profiles) (hother : other.Perm profiles) {r : ProfileInvocation}
    (hfirst : ¬Outranked profiles r) (hr : r ∈ mergedInvocations arrangement) :
    r ∈ mergedInvocations other := by
  have hleaves := leaves_of_mem h hr
  have honly := ((hsettled _ r hleaves).resolve_left hfirst).1
  obtain ⟨s, hs, hkey⟩ := exists_record hleaves hother
  have hsleaves := leaves_of_mem hother hs
  rw [hkey] at hsleaves
  rw [← honly s hsleaves]
  exact hs

theorem topOf_eq (hsettled : SettledLeaders profiles) (h : arrangement.Perm profiles)
    (orders orders' : MapOrders) : topOf orders arrangement = topOf orders' profiles := by
  obtain ⟨s, hs, hsranked, hstop⟩ := topOf_ranked orders arrangement
  obtain ⟨t, ht, htranked, httop⟩ := topOf_ranked orders' profiles
  have hlength : s.length = t.length := by
    have hkeys := (recordKeys_perm h).length_eq
    rw [List.length_map, List.length_map] at hkeys
    rw [hs.length_eq, ht.length_eq, hkeys]
  rw [hstop, httop]
  refine take_eq_take (fun r => ¬Outranked profiles r) hsranked htranked hlength
    (hs.nodup_iff.mpr (nodup_mergedInvocations _)) (ht.nodup_iff.mpr (nodup_mergedInvocations _)) ?_ ?_ ?_ ?_
  · intro r hr
    rw [hs.mem_iff, ht.mem_iff]
    exact ⟨mem_of_settled hsettled h (List.Perm.refl _) hr, mem_of_settled hsettled (List.Perm.refl _) h hr⟩
  · exact fun r hr => not_outranked_of_mem_take h hs hsranked hr
  · exact fun r hr => not_outranked_of_mem_take (List.Perm.refl _) ht htranked hr
  · intro x hx y hy hxfirst _ hxy hyx
    have hxleaves := leaves_of_mem h (hs.mem_iff.mp hx)
    have hyleaves := leaves_of_mem h (hs.mem_iff.mp hy)
    obtain ⟨honly, hunique⟩ := (hsettled _ x hxleaves).resolve_left hxfirst
    have hcount := Int64.le_antisymm (moreUsed_eq_false_iff.mp hyx) (moreUsed_eq_false_iff.mp hxy)
    by_cases hkey : invocationKey y = invocationKey x
    · rw [hkey] at hyleaves
      exact (honly y hyleaves).symm
    · exact absurd hcount (hunique _ hkey y hyleaves)

theorem effortOf_eq (hsingle : SingleEffort profiles) (h : arrangement.Perm profiles)
    (orders orders' : MapOrders) : effortOf orders arrangement = effortOf orders' profiles := by
  have htotal : effortTotal arrangement = effortTotal profiles := by
    funext effort
    exact sumAt_perm (h.filterMap effortWeight) effort
  obtain ⟨hpositive, hgreatest⟩ := effortOf_spec orders arrangement
  obtain ⟨hpositive', hgreatest'⟩ := effortOf_spec orders' profiles
  rw [htotal] at hpositive hgreatest
  have hzero := effortTotal_nil profiles
  rcases hpositive with hnil | hpositive
  · rcases hpositive' with hnil' | hpositive'
    · rw [hnil, hnil']
    · have hle := hgreatest (effortOf orders' profiles)
      rw [hnil, hzero] at hle
      exact absurd hpositive' hle.not_gt
  · exact hsingle _ _ hpositive hgreatest hgreatest'

theorem topOf_of_orderFree {today : Time} (hfree : OrderFree profiles today) (h : arrangement.Perm profiles)
    {s : List ProfileInvocation} (hs : s.Perm (mergedInvocations arrangement)) (hranked : Ranked moreUsed s) :
    s.take 5 = topOf .stored profiles := by
  obtain ⟨orders, htop⟩ := exists_topOf hs hranked
  rw [← htop]
  exact ((aggregate_eq_iff h orders .stored today).mp (hfree arrangement h orders .stored)).2

theorem mem_of_mem_topOf {today : Time} (hfree : OrderFree profiles today) (h : arrangement.Perm profiles)
    {r : ProfileInvocation} (hr : r ∈ topOf .stored profiles) : r ∈ mergedInvocations arrangement := by
  obtain ⟨s, hs, hranked, -⟩ := topOf_ranked .stored arrangement
  rw [← topOf_of_orderFree hfree h hs hranked] at hr
  exact hs.mem_iff.mp (List.mem_of_mem_take hr)

theorem only_of_mem_topOf {today : Time} (hfree : OrderFree profiles today) {r s : ProfileInvocation}
    (hr : r ∈ topOf .stored profiles) (hs : Leaves profiles (invocationKey r) s) : s = r := by
  obtain ⟨arrangement, hperm, hmem⟩ := exists_arrangement hs
  exact eq_of_key hmem (mem_of_mem_topOf hfree hperm hr) (key_of_leaves hs)

theorem not_tied_of_mem_topOf {today : Time} (hfree : OrderFree profiles today) (h : arrangement.Perm profiles)
    {r s : ProfileInvocation} (hr : r ∈ topOf .stored profiles) (hs : s ∈ mergedInvocations arrangement)
    (hcount : r.usageCount = s.usageCount) : r = s := by
  obtain ⟨u, hu, hranked, -⟩ := topOf_ranked .stored arrangement
  have htop := topOf_of_orderFree hfree h hu hranked
  rw [← htop] at hr
  refine not_tied_of_take_eq hranked (hu.nodup_iff.mpr (nodup_mergedInvocations _)) hr (hu.mem_iff.mpr hs)
    (moreUsed_congr hcount) fun t ht htranked => ?_
  rw [htop]
  exact topOf_of_orderFree hfree h (ht.trans hu) htranked

theorem settledLeaders_of_orderFree {today : Time} (hfree : OrderFree profiles today) :
    SettledLeaders profiles := by
  intro key r hleaves
  have hkey := key_of_leaves hleaves
  by_cases hr : r ∈ topOf .stored profiles
  · refine .inr ⟨fun s hs => only_of_mem_topOf hfree hr (hkey.symm ▸ hs), fun other hne s hs hcount => ?_⟩
    obtain ⟨arrangement, hperm, hmem⟩ := exists_arrangement hs
    have hrs := not_tied_of_mem_topOf hfree hperm hr hmem hcount.symm
    rw [← key_of_leaves hs, ← hkey, hrs] at hne
    exact hne rfl
  · obtain ⟨arrangement, hperm, hmem⟩ := exists_arrangement hleaves
    obtain ⟨u, hu, hranked, -⟩ := topOf_ranked .stored arrangement
    have htop := topOf_of_orderFree hfree hperm hu hranked
    have hlate : r ∉ u.take 5 := by
      rw [htop]
      exact hr
    obtain ⟨hlength, hahead⟩ := not_ahead_of_not_mem_take hranked (hu.mem_iff.mpr hmem) hlate
    rw [htop] at hlength hahead
    refine .inl ⟨(topOf .stored profiles).map invocationKey, ?_, ?_, fun k hk => ?_⟩
    · rw [← htop, List.map_take]
      exact ((hu.map invocationKey).nodup_iff.mpr (nodup_recordKeys _)).sublist (List.take_sublist 5 _)
    · rw [List.length_map, hlength]
    · obtain ⟨t, ht, rfl⟩ := List.mem_map.mp hk
      refine ⟨⟨t, leaves_of_mem hperm (mem_of_mem_topOf hfree hperm ht)⟩, fun s hs => ?_⟩
      rw [only_of_mem_topOf hfree ht hs]
      have hle := moreUsed_eq_false_iff.mp (hahead t ht)
      refine Int64.lt_of_le_of_ne hle fun hcount => hr ?_
      rw [← not_tied_of_mem_topOf hfree hperm ht hmem hcount.symm]
      exact ht

end Leaders

/-- The combined profile is the same for every order of the profiles and of the map entries
exactly where the greatest effort is single and the leading invocations are settled. -/
theorem orderFree_iff (profiles : List WhamProfileStats) (today : Time) :
    OrderFree profiles today ↔ SingleEffort profiles ∧ SettledLeaders profiles := by
  constructor
  · intro hfree
    refine ⟨fun e f hpos he hf => ?_, settledLeaders_of_orderFree hfree⟩
    obtain ⟨orders, horders⟩ := exists_effort hpos he
    obtain ⟨orders', horders'⟩ := exists_effort (hpos.trans_le (hf e)) hf
    have heq := hfree profiles (List.Perm.refl _) orders orders'
    rw [← horders, ← horders']
    exact ((aggregate_eq_iff (List.Perm.refl _) orders orders' today).mp heq).1
  · rintro ⟨hsingle, hsettled⟩ arrangement hperm orders orders'
    exact (aggregate_eq_iff hperm orders orders' today).mpr
      ⟨effortOf_eq hsingle hperm orders orders', topOf_eq hsettled hperm orders orders'⟩

/-- Two accounts with the same threads and the same percentage for different efforts. -/
theorem tied_efforts_flicker :
    ¬OrderFree [{ noStats with mostUsedReasoningEffort := lit "high", mostUsedReasoningEffortPercentage := 60 },
      { noStats with mostUsedReasoningEffort := lit "low", mostUsedReasoningEffortPercentage := 60 }]
      ⟨0, 0⟩ := by
  intro hfree
  have heq := hfree _ (List.Perm.refl _) .stored
    { MapOrders.stored with efforts := ⟨List.reverse, List.reverse_perm⟩ }
  have heffort := congrArg WhamProfileStats.mostUsedReasoningEffort heq
  exact absurd heffort (by decide +kernel)

end SubscriptionRouter.ProfileOrder
