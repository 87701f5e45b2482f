import Mathlib

set_option autoImplicit false

/-!
# Tallies

An at-most-once argument counts the places that hold a token. `entryCount`
counts the entries of a finite map that satisfy a test, and each operation on a
map or on a list of waiting tasks has one lemma saying how the counts move.
-/
namespace SubscriptionRouter.Tallies
open Std

section Lists
variable {α : Type}

theorem countP_cons_toNat (p : α → Bool) (x : α) (l : List α) :
    (x :: l).countP p = l.countP p + (p x).toNat := by
  rw [List.countP_cons]
  cases p x <;> rfl

theorem countP_concat (p : α → Bool) (l : List α) (x : α) :
    (l ++ [x]).countP p = l.countP p + (p x).toNat := by
  rw [List.countP_append, countP_cons_toNat, List.countP_nil, Nat.zero_add]

theorem countP_eraseIdx (p : α → Bool) {l : List α} {i : ℕ} {x : α} (h : l[i]? = some x) :
    l.countP p = (l.eraseIdx i).countP p + (p x).toNat := by
  induction l generalizing i with
  | nil => simp at h
  | cons y l ih =>
    cases i with
    | zero =>
      simp only [List.getElem?_cons_zero, Option.some.injEq] at h
      subst h
      simp only [List.eraseIdx_cons_zero, countP_cons_toNat]
    | succ i =>
      have hi := ih (show l[i]? = some x by simpa using h)
      simp only [List.eraseIdx_cons_succ, countP_cons_toNat] at hi ⊢
      omega

theorem countP_set_add (p : α → Bool) {l : List α} {i : ℕ} {x : α} (h : l[i]? = some x) (y : α) :
    (l.set i y).countP p + (p x).toNat = l.countP p + (p y).toNat := by
  have hi := (List.getElem?_eq_some_iff.mp h).1
  have herase : (l.set i y).eraseIdx i = l.eraseIdx i := List.eraseIdx_set_eq
  have hold := countP_eraseIdx p h
  have hnew := countP_eraseIdx p (show (l.set i y)[i]? = some y by simp [hi])
  rw [herase] at hnew
  omega

theorem sum_set_add (f : α → ℕ) {l : List α} {i : ℕ} {x : α} (h : l[i]? = some x) (y : α) :
    ((l.set i y).map f).sum + f x = (l.map f).sum + f y := by
  obtain ⟨hi, hx⟩ := List.getElem?_eq_some_iff.mp h
  have hold := List.take_append_drop i l
  have hdrop := List.drop_eq_getElem_cons hi
  rw [List.set_eq_take_append_cons_drop, if_pos hi]
  conv_rhs => rw [← hold, hdrop, hx]
  simp only [List.map_append, List.map_cons, List.sum_append, List.sum_cons]
  omega

theorem countP_filter_split (p q : α → Bool) (l : List α) :
    l.countP p = (l.filter q).countP p + (l.filter fun x => !q x).countP p := by
  induction l with
  | nil => rfl
  | cons x l ih =>
    cases hq : q x <;> simp [hq, List.countP_cons, ih] <;> omega

theorem mem_of_eraseIdx {l : List α} {i : ℕ} {x : α} (h : x ∈ l.eraseIdx i) : x ∈ l :=
  (List.eraseIdx_sublist l i).subset h

end Lists

section Maps
variable {α β : Type} {cmp : α → α → Ordering}

def entryCount (p : β → Bool) (m : ExtTreeMap α β cmp) [TransCmp cmp] : ℕ :=
  m.toList.countP fun e => p e.2

variable [TransCmp cmp] [LawfulEqCmp cmp]

theorem nodup_toList (m : ExtTreeMap α β cmp) : m.toList.Nodup := by
  refine ExtTreeMap.distinct_keys_toList.imp fun {a b} h hab => ?_
  subst hab
  exact h (Std.ReflCmp.compare_self)

theorem toList_perm_erase {m : ExtTreeMap α β cmp} {k : α} {v : β} (h : m[k]? = some v) :
    m.toList.Perm ((k, v) :: (m.erase k).toList) := by
  have hk : (k, v) ∉ (m.erase k).toList := by
    simp [ExtTreeMap.mem_toList_iff_getElem?_eq_some]
  refine (List.perm_ext_iff_of_nodup (nodup_toList m) ?_).mpr fun e => ?_
  · exact List.nodup_cons.mpr ⟨hk, nodup_toList _⟩
  · obtain ⟨j, w⟩ := e
    simp only [List.mem_cons, ExtTreeMap.mem_toList_iff_getElem?_eq_some,
      ExtTreeMap.getElem?_erase, Prod.mk.injEq]
    by_cases hj : cmp k j = .eq
    · obtain rfl := LawfulEqCmp.eq_of_compare hj
      simp [h, eq_comm]
    · have hne : j ≠ k := by
        rintro rfl
        exact hj ReflCmp.compare_self
      simp [hj, hne]

theorem entryCount_erase (p : β → Bool) {m : ExtTreeMap α β cmp} {k : α} {v : β}
    (h : m[k]? = some v) : entryCount p m = entryCount p (m.erase k) + (p v).toNat := by
  unfold entryCount
  rw [(toList_perm_erase h).countP_eq, countP_cons_toNat]

theorem erase_of_getElem?_none {m : ExtTreeMap α β cmp} {k : α} (h : m[k]? = none) :
    m.erase k = m := by
  ext j
  rw [ExtTreeMap.getElem?_erase]
  split
  · rename_i hj
    obtain rfl := LawfulEqCmp.eq_of_compare hj
    simp [h]
  · rfl

theorem erase_insert_self (m : ExtTreeMap α β cmp) (k : α) (v : β) :
    (m.insert k v).erase k = m.erase k := by
  ext j
  simp only [ExtTreeMap.getElem?_erase, ExtTreeMap.getElem?_insert]
  split <;> rfl

theorem entryCount_insert_erase (p : β → Bool) (m : ExtTreeMap α β cmp) (k : α) (v : β) :
    entryCount p (m.insert k v) = entryCount p (m.erase k) + (p v).toNat := by
  have h : (m.insert k v)[k]? = some v := by simp
  rw [entryCount_erase p h, erase_insert_self]

theorem entryCount_erase_le (p : β → Bool) (m : ExtTreeMap α β cmp) (k : α) :
    entryCount p (m.erase k) ≤ entryCount p m := by
  cases h : m[k]? with
  | none => rw [erase_of_getElem?_none h]
  | some v =>
    have := entryCount_erase p h
    omega

theorem entryCount_insert_fresh (p : β → Bool) {m : ExtTreeMap α β cmp} {k : α} (v : β)
    (h : m[k]? = none) : entryCount p (m.insert k v) = entryCount p m + (p v).toNat := by
  rw [entryCount_insert_erase, erase_of_getElem?_none h]

omit [LawfulEqCmp cmp] in
theorem entryCount_filter (p q : β → Bool) (m : ExtTreeMap α β cmp) :
    entryCount p m = entryCount p (m.filter fun _ v => !q v) +
      ((m.toList.map Prod.snd).filter q).countP p := by
  unfold entryCount
  rw [ExtTreeMap.toList_filter, countP_filter_split _ (fun e : α × β => !q e.2)]
  simp only [Bool.not_not, List.filter_map, List.countP_map]
  rfl

theorem getElem?_erase_eq [DecidableEq α] (m : ExtTreeMap α β cmp) (k j : α) :
    (m.erase k)[j]? = if k = j then none else m[j]? := by
  rw [ExtTreeMap.getElem?_erase]
  by_cases h : k = j
  · rw [if_pos h, if_pos (h ▸ ReflCmp.compare_self)]
  · rw [if_neg h, if_neg fun hc => h (LawfulEqCmp.eq_of_compare hc)]

theorem getElem?_insert_eq [DecidableEq α] (m : ExtTreeMap α β cmp) (k j : α) (v : β) :
    (m.insert k v)[j]? = if k = j then some v else m[j]? := by
  rw [ExtTreeMap.getElem?_insert]
  by_cases h : k = j
  · rw [if_pos h, if_pos (h ▸ ReflCmp.compare_self)]
  · rw [if_neg h, if_neg fun hc => h (LawfulEqCmp.eq_of_compare hc)]

omit [LawfulEqCmp cmp] in
theorem getElem?_of_erase {m : ExtTreeMap α β cmp} {j k : α} {v : β}
    (h : (m.erase k)[j]? = some v) : m[j]? = some v := by
  rw [ExtTreeMap.getElem?_erase] at h
  split at h
  · cases h
  · exact h

omit [LawfulEqCmp cmp] in
theorem getElem?_of_insert {m : ExtTreeMap α β cmp} {j k : α} {v w : β}
    (h : (m.insert k w)[j]? = some v) : v = w ∨ m[j]? = some v := by
  rw [ExtTreeMap.getElem?_insert] at h
  split at h
  · exact .inl (Option.some.inj h).symm
  · exact .inr h

theorem entryCount_empty (p : β → Bool) : entryCount p (∅ : ExtTreeMap α β cmp) = 0 := by
  refine List.countP_eq_zero.mpr fun e he => ?_
  have := ExtTreeMap.mem_toList_iff_getElem?_eq_some.mp he
  simp at this

theorem entryCount_pos {p : β → Bool} {m : ExtTreeMap α β cmp} {k : α} {v : β}
    (h : m[k]? = some v) (hv : p v = true) : 0 < entryCount p m := by
  rw [entryCount_erase p h, hv]
  exact Nat.succ_pos _

theorem getElem?_foldl_insert [DecidableEq α] (l : List (α × β)) (m : ExtTreeMap α β cmp) (k : α) :
    (l.foldl (fun next e => next.insert e.1 e.2) m)[k]? =
      ((l.reverse.find? fun e => e.1 = k).map Prod.snd).or m[k]? := by
  induction l generalizing m with
  | nil => rfl
  | cons e l ih =>
    rw [List.foldl_cons, ih, List.reverse_cons, List.find?_append, getElem?_insert_eq]
    by_cases he : e.1 = k
    · cases l.reverse.find? fun e => e.1 = k <;> simp [he]
    · cases l.reverse.find? fun e => e.1 = k <;> simp [he]

theorem find?_reverse_of_distinct [DecidableEq α] {l : List (α × β)}
    (hl : l.Pairwise fun a b => a.1 ≠ b.1) (k : α) :
    (l.reverse.find? fun e => e.1 = k) = l.find? fun e => e.1 = k := by
  induction l with
  | nil => rfl
  | cons e l ih =>
    obtain ⟨hfirst, hrest⟩ := List.pairwise_cons.mp hl
    rw [List.reverse_cons, List.find?_append, ih hrest]
    by_cases he : e.1 = k
    · have hnone : (l.find? fun e => e.1 = k) = none := by
        refine List.find?_eq_none.mpr fun x hx => ?_
        simpa using fun hxk => hfirst x hx (he.trans hxk.symm)
      simp [he, hnone]
    · simp [he]

theorem toList_distinct (m : ExtTreeMap α β cmp) : m.toList.Pairwise fun a b => a.1 ≠ b.1 :=
  ExtTreeMap.distinct_keys_toList.imp fun h hab => h (by rw [hab]; exact ReflCmp.compare_self)

theorem find?_toList [DecidableEq α] (m : ExtTreeMap α β cmp) (k : α) :
    (m.toList.find? fun e => e.1 = k).map Prod.snd = m[k]? := by
  cases h : m.toList.find? fun e => e.1 = k with
  | none =>
    rw [List.find?_eq_none] at h
    cases hm : m[k]? with
    | none => rfl
    | some v =>
      have := h (k, v) (ExtTreeMap.mem_toList_iff_getElem?_eq_some.mpr hm)
      simp at this
  | some e =>
    obtain ⟨j, v⟩ := e
    have hk : j = k := by simpa using List.find?_some h
    have hv := ExtTreeMap.mem_toList_iff_getElem?_eq_some.mp (List.mem_of_find?_eq_some h)
    rw [← hk, hv]
    rfl

theorem getElem?_foldl_toList [DecidableEq α] (m n : ExtTreeMap α β cmp) (k : α) :
    (n.toList.foldl (fun next e => next.insert e.1 e.2) m)[k]? = (n[k]?).or m[k]? := by
  rw [getElem?_foldl_insert, find?_reverse_of_distinct (toList_distinct n), find?_toList]

theorem foldl_insert_toList [DecidableEq α] (m : ExtTreeMap α β cmp) :
    m.toList.foldl (fun next e => next.insert e.1 e.2) ∅ = m := by
  refine ExtTreeMap.ext_getElem? fun k => ?_
  rw [getElem?_foldl_toList, ExtTreeMap.getElem?_empty, Option.or_none]

theorem getElem?_foldl_insert_of_distinct [DecidableEq α] {l : List (α × β)}
    (hl : (l.map Prod.fst).Nodup) {k : α} {v : β} :
    (l.foldl (fun next e => next.insert e.1 e.2) (∅ : ExtTreeMap α β cmp))[k]? = some v ↔
      (k, v) ∈ l := by
  rw [getElem?_foldl_insert, find?_reverse_of_distinct (List.pairwise_map.mp hl), ExtTreeMap.getElem?_empty,
    Option.or_none, Option.map_eq_some_iff]
  constructor
  · rintro ⟨e, he, rfl⟩
    have hk : e.1 = k := by simpa using List.find?_some he
    exact hk ▸ List.mem_of_find?_eq_some he
  · intro hmem
    cases hf : l.find? fun e => e.1 = k with
    | none => exact absurd (by simp) (List.find?_eq_none.mp hf _ hmem)
    | some e =>
      have hk : e.1 = k := by simpa using List.find?_some hf
      have he := List.inj_on_of_nodup_map hl (List.mem_of_find?_eq_some hf) hmem hk
      exact ⟨e, rfl, by rw [he]⟩

theorem mem_values {m : ExtTreeMap α β cmp} {v : β} :
    v ∈ m.toList.map Prod.snd ↔ ∃ k : α, m[k]? = some v := by
  simp [ExtTreeMap.mem_toList_iff_getElem?_eq_some]

end Maps

end SubscriptionRouter.Tallies
