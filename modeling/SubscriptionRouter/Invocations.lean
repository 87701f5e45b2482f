import Mathlib
import SubscriptionRouter.ProfileStats

set_option autoImplicit false

/-!
# Merged invocations

Invocations are merged under a key that joins the type and the ids with vertical bars, and a
record with an empty type counts as absent. The entries of a key are merged into the first one
that has a type, or else the last one takes the place of the others.
-/
namespace SubscriptionRouter.Invocations
open GoText KeyedSums ProfileStats

/-! ## The entries of one key -/

def totalCount (entries : List ProfileInvocation) : Int64 := (entries.map fun e => e.usageCount).sum

def withCount (e : ProfileInvocation) (count : Int64) : ProfileInvocation := { e with usageCount := count }

def mergeClass (entries : List ProfileInvocation) : Option ProfileInvocation :=
  entries.foldl (fun current e => some (mergeInto current e)) none

theorem totalCount_cons (e : ProfileInvocation) (entries : List ProfileInvocation) :
    totalCount (e :: entries) = e.usageCount + totalCount entries :=
  rfl

theorem totalCount_append (entries rest : List ProfileInvocation) :
    totalCount (entries ++ rest) = totalCount entries + totalCount rest := by
  rw [totalCount, List.map_append, List.sum_append, ← totalCount, ← totalCount]

/-- Once a record has a type, counts are added to it. -/
theorem foldl_typed (entries : List ProfileInvocation) {current : ProfileInvocation}
    (h : current.type ≠ []) :
    entries.foldl (fun current e => some (mergeInto current e)) (some current) =
      some (withCount current (current.usageCount + totalCount entries)) := by
  induction entries generalizing current with
  | nil =>
    have hzero : current.usageCount + totalCount [] = current.usageCount := Int64.add_zero _
    rw [hzero]
    rfl
  | cons e entries ih =>
    have hmerge : mergeInto (some current) e =
        withCount current (current.usageCount + e.usageCount) := if_neg h
    have htyped : (withCount current (current.usageCount + e.usageCount)).type ≠ [] := h
    rw [List.foldl_cons, hmerge, ih htyped, totalCount_cons]
    simp only [withCount, Int64.add_assoc]

theorem mergeInto_untyped {current : Option ProfileInvocation} (h : ∀ r ∈ current, r.type = [])
    (e : ProfileInvocation) : mergeInto current e = e := by
  cases current with
  | none => rfl
  | some r => exact if_pos (h r rfl)

theorem foldl_untyped {entries : List ProfileInvocation} {current : Option ProfileInvocation}
    (hcurrent : ∀ r ∈ current, r.type = []) (h : ∀ e ∈ entries, e.type = []) :
    entries.foldl (fun current e => some (mergeInto current e)) current =
      entries.getLast?.or current := by
  induction entries generalizing current with
  | nil => rfl
  | cons e entries ih =>
    have he : ∀ r ∈ some e, r.type = [] := by
      intro r hr
      obtain rfl := Option.some.inj hr
      exact h e List.mem_cons_self
    rw [List.foldl_cons, mergeInto_untyped hcurrent, ih he fun x hx => h x (List.mem_cons_of_mem e hx),
      List.getLast?_cons]
    cases entries.getLast? with
    | none => rfl
    | some x => rfl

theorem mergeClass_untyped {entries : List ProfileInvocation} (h : ∀ e ∈ entries, e.type = []) :
    mergeClass entries = entries.getLast? := by
  rw [mergeClass, foldl_untyped (fun r hr => by cases hr) h, Option.or_none]

theorem mergeClass_typed {before after : List ProfileInvocation} {e : ProfileInvocation}
    (hbefore : ∀ x ∈ before, x.type = []) (he : e.type ≠ []) :
    mergeClass (before ++ e :: after) = some (withCount e (totalCount (e :: after))) := by
  have hlast : ∀ r ∈ before.getLast?.or none, r.type = [] := by
    intro r hr
    rw [Option.or_none] at hr
    exact hbefore r (List.mem_of_getLast? hr)
  rw [mergeClass, List.foldl_append, foldl_untyped (fun r hr => by cases hr) hbefore, List.foldl_cons,
    mergeInto_untyped hlast, foldl_typed after he, totalCount_cons]

theorem untyped_or_first (entries : List ProfileInvocation) :
    (∀ e ∈ entries, e.type = []) ∨ ∃ before e after, entries = before ++ e :: after ∧
      (∀ x ∈ before, x.type = []) ∧ e.type ≠ [] := by
  induction entries with
  | nil => exact .inl fun e he => by cases he
  | cons e entries ih =>
    by_cases he : e.type = []
    · rcases ih with hall | ⟨before, x, after, rfl, hbefore, hx⟩
      · exact .inl (List.forall_mem_cons.mpr ⟨he, hall⟩)
      · exact .inr ⟨e :: before, x, after, rfl, List.forall_mem_cons.mpr ⟨he, hbefore⟩, hx⟩
    · exact .inr ⟨[], e, entries, rfl, List.forall_mem_nil _, he⟩

theorem mergeClass_kept {entries : List ProfileInvocation} {r : ProfileInvocation}
    (h : mergeClass entries = some r) : ∃ e ∈ entries, r = withCount e r.usageCount := by
  rcases untyped_or_first entries with hall | ⟨before, e, after, rfl, hbefore, he⟩
  · rw [mergeClass_untyped hall] at h
    exact ⟨r, List.mem_of_getLast? h, rfl⟩
  · rw [mergeClass_typed hbefore he] at h
    obtain rfl := Option.some.inj h
    exact ⟨e, List.mem_append_right _ List.mem_cons_self, rfl⟩

theorem mergeClass_isSome {entries : List ProfileInvocation} (h : entries ≠ []) :
    ∃ r, mergeClass entries = some r := by
  rcases untyped_or_first entries with hall | ⟨before, e, after, rfl, hbefore, he⟩
  · rw [mergeClass_untyped hall]
    exact ⟨entries.getLast h, List.getLast?_eq_some_getLast h⟩
  · exact ⟨_, mergeClass_typed hbefore he⟩

/-! ## The map -/

/-- The entries of all profiles, in the order in which they are merged. -/
def entriesOf (profiles : List WhamProfileStats) : List ProfileInvocation :=
  profiles.flatMap fun stats => stats.topInvocations

def classOf (entries : List ProfileInvocation) (key : GoString) : List ProfileInvocation :=
  entries.filter fun e => invocationKey e = key

def mergedInvocations (profiles : List WhamProfileStats) : List ProfileInvocation :=
  (accumulateAll profiles).invocations.toList.map Prod.snd

theorem invocations_accumulateAll (profiles : List WhamProfileStats) :
    (accumulateAll profiles).invocations = (entriesOf profiles).foldl mergeInvocation ∅ := by
  rw [entriesOf, List.foldl_flatMap]
  exact (List.foldl_hom Accumulated.invocations fun acc stats => rfl).symm

theorem getElem?_invocations (profiles : List WhamProfileStats) (key : GoString) :
    (accumulateAll profiles).invocations[key]? = mergeClass (classOf (entriesOf profiles) key) := by
  rw [invocations_accumulateAll]
  exact getElem?_foldl_update invocationKey mergeInto (entriesOf profiles) ∅ key

theorem invocationKey_withCount (e : ProfileInvocation) (count : Int64) :
    invocationKey (withCount e count) = invocationKey e :=
  rfl

theorem mem_classOf {entries : List ProfileInvocation} {key : GoString} {e : ProfileInvocation} :
    e ∈ classOf entries key ↔ e ∈ entries ∧ invocationKey e = key := by
  rw [classOf, List.mem_filter, decide_eq_true_eq]

theorem key_of_getElem? {profiles : List WhamProfileStats} {key : GoString} {r : ProfileInvocation}
    (h : (accumulateAll profiles).invocations[key]? = some r) : invocationKey r = key := by
  rw [getElem?_invocations] at h
  obtain ⟨e, he, hr⟩ := mergeClass_kept h
  rw [hr, invocationKey_withCount]
  exact (mem_classOf.mp he).2

theorem mem_mergedInvocations {profiles : List WhamProfileStats} {r : ProfileInvocation} :
    r ∈ mergedInvocations profiles ↔
      mergeClass (classOf (entriesOf profiles) (invocationKey r)) = some r := by
  rw [mergedInvocations, Tallies.mem_values]
  constructor
  · rintro ⟨key, h⟩
    rw [← getElem?_invocations, key_of_getElem? h, h]
  · intro h
    exact ⟨_, (getElem?_invocations profiles _).trans h⟩

/-! ## Identities -/

def identity (e : ProfileInvocation) : GoString × Option GoString × Option GoString :=
  (e.type, e.pluginID, e.skillID)

/-- One record for each identity, with the sum of the counts of its entries. -/
structure KeptApart (entries records : List ProfileInvocation) : Prop where
  once : (records.map identity).Nodup
  same : ∀ i, i ∈ records.map identity ↔ i ∈ entries.map identity
  counts : ∀ r ∈ records, r.usageCount = totalCount (entries.filter fun e => identity e = identity r)

theorem invocationKey_of_identity {e x : ProfileInvocation} (h : identity e = identity x) :
    invocationKey e = invocationKey x := by
  simp only [identity, Prod.mk.injEq] at h
  rw [invocationKey, invocationKey, h.1, h.2.1, h.2.2]

theorem once_mergedInvocations (profiles : List WhamProfileStats) :
    ((mergedInvocations profiles).map identity).Nodup := by
  rw [mergedInvocations, List.map_map, List.Nodup, List.pairwise_map]
  refine (Tallies.toList_distinct _).imp_of_mem fun {a b} ha hb hne hsame => hne ?_
  have hkey := invocationKey_of_identity hsame
  rw [key_of_getElem? (Std.ExtTreeMap.mem_toList_iff_getElem?_eq_some.mp ha),
    key_of_getElem? (Std.ExtTreeMap.mem_toList_iff_getElem?_eq_some.mp hb)] at hkey
  exact hkey

/-- The count of a record whose entries all have its identity. -/
theorem count_of_class {entries : List ProfileInvocation} {r : ProfileInvocation}
    (h : mergeClass entries = some r) (hsame : ∀ e ∈ entries, e.type = r.type) :
    r.usageCount = totalCount entries ↔ (r.type = [] → totalCount entries.dropLast = 0) := by
  rcases untyped_or_first entries with hall | ⟨before, e, after, rfl, hbefore, he⟩
  · rw [mergeClass_untyped hall] at h
    obtain ⟨init, rfl⟩ := List.getLast?_eq_some_iff.mp h
    have hr : r.type = [] := hall r (List.mem_append_right _ (List.mem_singleton_self r))
    have hone : totalCount [r] = r.usageCount := Int64.add_zero _
    rw [List.dropLast_concat, totalCount_append, hone]
    simp only [hr, forall_const]
    exact right_eq_add
  · have hnil : before = [] := by
      refine List.eq_nil_iff_forall_not_mem.mpr fun x hx => he ?_
      have hx' := hsame x (List.mem_append_left _ hx)
      have he' := hsame e (List.mem_append_right _ List.mem_cons_self)
      rw [he', ← hx', hbefore x hx]
    rw [mergeClass_typed hbefore he] at h
    obtain rfl := Option.some.inj h
    rw [hnil]
    exact iff_of_true rfl fun hempty => absurd hempty he

section Apart
variable {profiles : List WhamProfileStats}

theorem exists_record {x : ProfileInvocation} (hx : x ∈ entriesOf profiles) :
    ∃ r ∈ mergedInvocations profiles, invocationKey r = invocationKey x := by
  obtain ⟨r, hr⟩ := mergeClass_isSome (List.ne_nil_of_mem (mem_classOf.mpr ⟨hx, rfl⟩))
  rw [← getElem?_invocations] at hr
  exact ⟨r, Tallies.mem_values.mpr ⟨_, hr⟩, key_of_getElem? hr⟩

theorem exists_entry {r : ProfileInvocation} (hr : r ∈ mergedInvocations profiles) :
    ∃ e ∈ entriesOf profiles, identity e = identity r := by
  obtain ⟨e, he, hkept⟩ := mergeClass_kept (mem_mergedInvocations.mp hr)
  refine ⟨e, (mem_classOf.mp he).1, ?_⟩
  rw [hkept]
  rfl

theorem record_unique {r s : ProfileInvocation} (hr : r ∈ mergedInvocations profiles)
    (hs : s ∈ mergedInvocations profiles) (hkey : invocationKey r = invocationKey s) : r = s := by
  have hr' := mem_mergedInvocations.mp hr
  rw [hkey, mem_mergedInvocations.mp hs] at hr'
  exact (Option.some.inj hr').symm

/-- The joined key tells the identities of the entries apart. -/
def KeyTells (entries : List ProfileInvocation) : Prop :=
  ∀ x ∈ entries, ∀ y ∈ entries, invocationKey x = invocationKey y → identity x = identity y

theorem KeptApart.keyTells (h : KeptApart (entriesOf profiles) (mergedInvocations profiles)) :
    KeyTells (entriesOf profiles) := by
  intro x hx y hy hkey
  obtain ⟨r, hr, hrx⟩ := List.mem_map.mp ((h.same _).mpr (List.mem_map_of_mem hx))
  obtain ⟨s, hs, hsy⟩ := List.mem_map.mp ((h.same _).mpr (List.mem_map_of_mem hy))
  have hrs : invocationKey r = invocationKey s := by
    rw [invocationKey_of_identity hrx, invocationKey_of_identity hsy, hkey]
  rw [← hrx, ← hsy, record_unique hr hs hrs]

theorem KeyTells.classOf_eq (h : KeyTells (entriesOf profiles)) {r : ProfileInvocation}
    (hr : r ∈ mergedInvocations profiles) : classOf (entriesOf profiles) (invocationKey r) =
      (entriesOf profiles).filter fun e => identity e = identity r := by
  obtain ⟨e, he, hidentity⟩ := exists_entry hr
  refine List.filter_congr fun x hx => ?_
  rw [decide_eq_decide]
  constructor
  · intro hkey
    rw [← hidentity]
    exact h x hx e he (hkey.trans (invocationKey_of_identity hidentity).symm)
  · exact invocationKey_of_identity

theorem KeyTells.same (h : KeyTells (entriesOf profiles))
    (i : GoString × Option GoString × Option GoString) :
    i ∈ (mergedInvocations profiles).map identity ↔ i ∈ (entriesOf profiles).map identity := by
  constructor
  · intro hi
    obtain ⟨r, hr, rfl⟩ := List.mem_map.mp hi
    obtain ⟨e, he, hidentity⟩ := exists_entry hr
    exact List.mem_map.mpr ⟨e, he, hidentity⟩
  · intro hi
    obtain ⟨x, hx, rfl⟩ := List.mem_map.mp hi
    obtain ⟨r, hr, hkey⟩ := exists_record hx
    obtain ⟨e, he, hidentity⟩ := exists_entry hr
    refine List.mem_map.mpr ⟨r, hr, ?_⟩
    rw [← hidentity]
    exact h e he x hx ((invocationKey_of_identity hidentity).trans hkey)

/-- Where keys tell identities apart, a record's count is whole unless it has no type and entries
before the last one counted. -/
theorem KeyTells.count_iff (h : KeyTells (entriesOf profiles)) {r : ProfileInvocation}
    (hr : r ∈ mergedInvocations profiles) :
    r.usageCount = totalCount ((entriesOf profiles).filter fun e => identity e = identity r) ↔
      (r.type = [] →
        totalCount ((entriesOf profiles).filter fun e => identity e = identity r).dropLast = 0) := by
  have hmerged := mem_mergedInvocations.mp hr
  rw [h.classOf_eq hr] at hmerged
  exact count_of_class hmerged fun e he =>
    congrArg Prod.fst (of_decide_eq_true (List.mem_filter.mp he).2)

end Apart

/-- Merging keeps identities apart exactly where the joined key does and where, of the entries
without a type, only the last one of an identity counts. -/
theorem keptApart_iff (profiles : List WhamProfileStats) :
    KeptApart (entriesOf profiles) (mergedInvocations profiles) ↔
      (∀ x ∈ entriesOf profiles, ∀ y ∈ entriesOf profiles,
        invocationKey x = invocationKey y → identity x = identity y) ∧
      ∀ x ∈ entriesOf profiles, x.type = [] →
        totalCount ((entriesOf profiles).filter fun e => identity e = identity x).dropLast = 0 := by
  constructor
  · intro hkept
    refine ⟨hkept.keyTells, fun x hx hempty => ?_⟩
    obtain ⟨r, hr, hrx⟩ := List.mem_map.mp ((hkept.same _).mpr (List.mem_map_of_mem hx))
    have htype : r.type = x.type := congrArg Prod.fst hrx
    rw [← hrx]
    exact (hkept.keyTells.count_iff hr).mp (hkept.counts r hr) (htype.trans hempty)
  · rintro ⟨htells : KeyTells _, hempty⟩
    refine ⟨once_mergedInvocations profiles, htells.same, fun r hr => ?_⟩
    refine (htells.count_iff hr).mpr fun hr' => ?_
    obtain ⟨e, he, hidentity⟩ := exists_entry hr
    rw [← hidentity]
    exact hempty e he ((congrArg Prod.fst hidentity).trans hr')

/-- Two accounts report the same plugin without a type, once and twice. -/
theorem untyped_count_lost :
    let entry := fun count => (⟨[], some (lit "browser"), none, none, none, count⟩ : ProfileInvocation)
    let profiles := [{ noStats with topInvocations := [entry 1] },
      { noStats with topInvocations := [entry 2] }]
    ¬KeptApart (entriesOf profiles) (mergedInvocations profiles) := by
  intro entry profiles h
  have hmerged : mergedInvocations profiles = [entry 2] := by decide
  have hcount := h.counts (entry 2) (by rw [hmerged]; exact List.mem_singleton_self _)
  exact absurd hcount (by decide)

end SubscriptionRouter.Invocations
