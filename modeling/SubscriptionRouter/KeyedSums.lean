import Mathlib
import SubscriptionRouter.Tallies

set_option autoImplicit false

/-!
# Sums under keys

`addTo` adds a value to what a map holds under a key. Adding up a list of entries leaves the
sum of each key, whatever the order of the entries, and no value is lost or counted twice.
-/
namespace SubscriptionRouter.KeyedSums
open Std Tallies

variable {α β : Type} [DecidableEq α] [AddCommMonoid β]

def sumAt (l : List (α × β)) (k : α) : β := ((l.filter fun e => e.1 = k).map Prod.snd).sum

theorem sumAt_cons (e : α × β) (l : List (α × β)) (k : α) :
    sumAt (e :: l) k = (if e.1 = k then e.2 else 0) + sumAt l k := by
  by_cases h : e.1 = k
  · simp [sumAt, h]
  · simp [sumAt, h]

theorem sumAt_perm {l s : List (α × β)} (h : l.Perm s) (k : α) : sumAt l k = sumAt s k :=
  ((h.filter _).map _).sum_eq

theorem sumAt_of_not_mem {l : List (α × β)} {k : α} (h : k ∉ l.map Prod.fst) : sumAt l k = 0 := by
  induction l with
  | nil => rfl
  | cons e l ih =>
    rw [List.map_cons, List.mem_cons, not_or] at h
    rw [sumAt_cons, if_neg fun he => h.1 he.symm, ih h.2, zero_add]

theorem sum_ite_eq {keys : List α} (hkeys : keys.Nodup) {k : α} (hk : k ∈ keys) (v : β) :
    (keys.map fun j => if k = j then v else 0).sum = v := by
  induction keys with
  | nil => cases hk
  | cons j keys ih =>
    obtain ⟨hj, hkeys⟩ := List.nodup_cons.mp hkeys
    rw [List.map_cons, List.sum_cons]
    by_cases hkj : k = j
    · have hrest : (keys.map fun j => if k = j then v else 0) = keys.map fun _ => 0 := by
        refine List.map_congr_left fun i hi => if_neg ?_
        intro hki
        rw [← hki, hkj] at hi
        exact hj hi
      rw [if_pos hkj, hrest, List.sum_map_zero, add_zero]
    · have htail : k ∈ keys := (List.mem_cons.mp hk).resolve_left hkj
      rw [if_neg hkj, ih hkeys htail, zero_add]

theorem sum_sumAt {keys : List α} (hkeys : keys.Nodup) {l : List (α × β)}
    (h : ∀ e ∈ l, e.1 ∈ keys) : (keys.map (sumAt l)).sum = (l.map Prod.snd).sum := by
  induction l with
  | nil =>
    have hzero : keys.map (sumAt ([] : List (α × β))) = keys.map fun _ => 0 := rfl
    rw [hzero, List.sum_map_zero]
    rfl
  | cons e l ih =>
    have hsplit : keys.map (sumAt (e :: l)) =
        keys.map fun k => (if e.1 = k then e.2 else 0) + sumAt l k :=
      List.map_congr_left fun k _ => sumAt_cons e l k
    rw [hsplit, List.sum_map_add, sum_ite_eq hkeys (h e List.mem_cons_self),
      ih fun x hx => h x (List.mem_cons_of_mem e hx), List.map_cons, List.sum_cons]

section Maps
variable {cmp : α → α → Ordering} [TransCmp cmp] [LawfulEqCmp cmp]

omit [AddCommMonoid β] in
/-- A map that is updated key by key: what it holds under a key comes from the entries with that
key, in their order. -/
theorem getElem?_foldl_update {γ : Type} (key : γ → α) (f : Option β → γ → β) (l : List γ)
    (m : ExtTreeMap α β cmp) (k : α) :
    (l.foldl (fun next x => next.insert (key x) (f next[key x]? x)) m)[k]? =
      (l.filter fun x => key x = k).foldl (fun current x => some (f current x)) m[k]? := by
  induction l generalizing m with
  | nil => rfl
  | cons x l ih =>
    rw [List.foldl_cons, ih, getElem?_insert_eq]
    by_cases h : key x = k
    · rw [if_pos h, List.filter_cons_of_pos (by simpa using h), List.foldl_cons, h]
    · rw [if_neg h, List.filter_cons_of_neg (by simpa using h)]

/-- `m[k] += v` -/
def addTo (m : ExtTreeMap α β cmp) (e : α × β) : ExtTreeMap α β cmp :=
  m.insert e.1 (m[e.1]?.getD 0 + e.2)

theorem getElem?_addTo (m : ExtTreeMap α β cmp) (e : α × β) (k : α) :
    (addTo m e)[k]? = if e.1 = k then some (m[k]?.getD 0 + e.2) else m[k]? := by
  rw [addTo, getElem?_insert_eq]
  by_cases h : e.1 = k
  · rw [if_pos h, if_pos h, h]
  · rw [if_neg h, if_neg h]

theorem getElem?_foldl_addTo (l : List (α × β)) (m : ExtTreeMap α β cmp) (k : α) :
    (l.foldl addTo m)[k]? =
      if k ∈ l.map Prod.fst then some (m[k]?.getD 0 + sumAt l k) else m[k]? := by
  induction l generalizing m with
  | nil => rfl
  | cons e l ih =>
    rw [List.foldl_cons, ih, getElem?_addTo, sumAt_cons]
    by_cases he : e.1 = k
    · have hmem : k ∈ (e :: l).map Prod.fst := List.mem_map.mpr ⟨e, List.mem_cons_self, he⟩
      rw [if_pos he, if_pos he, if_pos hmem, Option.getD_some, ← add_assoc]
      split
      · rfl
      · rename_i hk
        rw [sumAt_of_not_mem hk, add_zero]
    · have hmem : k ∈ (e :: l).map Prod.fst ↔ k ∈ l.map Prod.fst := by
        rw [List.map_cons, List.mem_cons]
        exact or_iff_right fun hk => he hk.symm
      rw [if_neg he, if_neg he, zero_add]
      simp only [hmem]

theorem getElem?_sums (l : List (α × β)) (k : α) :
    (l.foldl addTo (∅ : ExtTreeMap α β cmp))[k]? =
      if k ∈ l.map Prod.fst then some (sumAt l k) else none := by
  rw [getElem?_foldl_addTo, ExtTreeMap.getElem?_empty, Option.getD_none, zero_add]

theorem getD_sums (l : List (α × β)) (k : α) :
    ((l.foldl addTo (∅ : ExtTreeMap α β cmp))[k]?).getD 0 = sumAt l k := by
  rw [getElem?_sums]
  split
  · rfl
  · rename_i h
    exact (sumAt_of_not_mem h).symm

theorem mem_keys_sums {l : List (α × β)} {k : α} :
    k ∈ (l.foldl addTo (∅ : ExtTreeMap α β cmp)).keys ↔ k ∈ l.map Prod.fst := by
  rw [ExtTreeMap.mem_keys, ExtTreeMap.mem_iff_isSome_getElem?, getElem?_sums]
  by_cases h : k ∈ l.map Prod.fst
  · rw [if_pos h]
    exact iff_of_true rfl h
  · rw [if_neg h]
    exact iff_of_false Bool.false_ne_true h

theorem sums_perm {l s : List (α × β)} (h : l.Perm s) :
    l.foldl addTo (∅ : ExtTreeMap α β cmp) = s.foldl addTo ∅ := by
  refine ExtTreeMap.ext_getElem? fun k => ?_
  rw [getElem?_sums, getElem?_sums, sumAt_perm h]
  simp only [(h.map Prod.fst).mem_iff]

omit [DecidableEq α] [AddCommMonoid β] in
theorem nodup_keys (m : ExtTreeMap α β cmp) : m.keys.Nodup :=
  ExtTreeMap.distinct_keys.imp fun h hab => h (by rw [hab]; exact ReflCmp.compare_self)

end Maps

end SubscriptionRouter.KeyedSums
