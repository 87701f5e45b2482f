import Mathlib
import SubscriptionRouter.Rankings

set_option autoImplicit false

/-!
# The first members of a sorted list

A list is sorted by a comparison that may leave ties. Which members come first, and in which
order, is settled exactly as far as no member among them is tied with another one.
-/
namespace SubscriptionRouter.FirstRanks
open Rankings

variable {α : Type} {lt : α → α → Bool} {s t : List α} {a b : α} {n : ℕ}

def Ranked (lt : α → α → Bool) (s : List α) : Prop := s.Pairwise fun a b => lt b a = false

theorem sliceStable_of_ranked (h : Ranked lt s) : sliceStable lt s = s := by
  have hreverse : s.reverse.Pairwise fun a b => lt a b = false := List.pairwise_reverse.mpr h
  rw [sliceStable, hreverse.insertionSort_eq, List.reverse_reverse]

theorem split_of_mem_take (h : a ∈ s.take n) : ∃ p q, s = p ++ a :: q ∧ p.length < n := by
  obtain ⟨p, q, hsplit⟩ := List.append_of_mem h
  refine ⟨p, q ++ s.drop n, ?_, ?_⟩
  · rw [← List.cons_append, ← List.append_assoc, ← hsplit, List.take_append_drop]
  · have hlength := congrArg List.length hsplit
    rw [List.length_take, List.length_append, List.length_cons] at hlength
    omega

theorem length_ahead (hs : Ranked lt s) (hirrefl : lt a a = false) (ha : a ∈ s.take n)
    {ahead : List α} (hnodup : ahead.Nodup) (hsub : ahead ⊆ s) (hlt : ∀ x ∈ ahead, lt x a = true) :
    ahead.length < n := by
  obtain ⟨p, q, rfl, hp⟩ := split_of_mem_take ha
  have hrest := (List.pairwise_append.mp hs).2.1
  have hbefore : ahead ⊆ p := by
    intro x hx
    have hxa := hlt x hx
    rcases List.mem_append.mp (hsub hx) with hxp | hxq
    · exact hxp
    · rcases List.mem_cons.mp hxq with rfl | hxq
      · rw [hirrefl] at hxa
        cases hxa
      · rw [(List.pairwise_cons.mp hrest).1 x hxq] at hxa
        cases hxa
  exact (hnodup.subperm hbefore).length_le.trans_lt hp

theorem not_ahead_of_not_mem_take (hs : Ranked lt s) (hb : b ∈ s) (hlate : b ∉ s.take n) :
    (s.take n).length = n ∧ ∀ a ∈ s.take n, lt b a = false := by
  have hdrop : b ∈ s.drop n := by
    rw [← List.take_append_drop n s] at hb
    exact (List.mem_append.mp hb).resolve_left hlate
  constructor
  · have hpos := List.length_pos_of_mem hdrop
    rw [List.length_drop] at hpos
    rw [List.length_take]
    omega
  · rw [Ranked, ← List.take_append_drop n s] at hs
    exact fun a ha => (List.pairwise_append.mp hs).2.2 a ha b hdrop

theorem ranked_swap [DecidableEq α] (hs : Ranked lt s)
    (htie : ∀ x, lt a x = lt b x ∧ lt x a = lt x b) : Ranked lt (s.map (Equiv.swap a b)) := by
  have halike : ∀ x y, lt (Equiv.swap a b x) y = lt x y ∧ lt y (Equiv.swap a b x) = lt y x := by
    intro x y
    rw [Equiv.swap_apply_def]
    split
    · rename_i hx
      rw [hx]
      exact ⟨(htie y).1.symm, (htie y).2.symm⟩
    · split
      · rename_i hx
        rw [hx]
        exact ⟨(htie y).1, (htie y).2⟩
      · exact ⟨rfl, rfl⟩
  refine List.pairwise_map.mpr (hs.imp fun {x y} hxy => ?_)
  rw [(halike y _).1, (halike x _).2]
  exact hxy

theorem not_tied_of_take_eq (hs : Ranked lt s) (hnodup : s.Nodup) (ha : a ∈ s.take n) (hb : b ∈ s)
    (htie : ∀ x, lt a x = lt b x ∧ lt x a = lt x b)
    (hsame : ∀ t : List α, t.Perm s → Ranked lt t → t.take n = s.take n) : a = b := by
  classical
  have hperm : (s.map (Equiv.swap a b)).Perm s := by
    refine (List.perm_ext_iff_of_nodup (hnodup.map (Equiv.injective _)) hnodup).mpr fun x => ?_
    have hmem : ∀ y ∈ s, Equiv.swap a b y ∈ s := by
      intro y hy
      rw [Equiv.swap_apply_def]
      split
      · exact hb
      · split
        · exact List.mem_of_mem_take ha
        · exact hy
    constructor
    · intro hx
      obtain ⟨y, hy, rfl⟩ := List.mem_map.mp hx
      exact hmem y hy
    · intro hx
      exact List.mem_map.mpr ⟨_, hmem x hx, Equiv.swap_apply_self a b x⟩
  have htake := hsame _ hperm (ranked_swap hs htie)
  obtain ⟨i, hi, hget⟩ := List.mem_iff_getElem.mp ha
  rw [← List.map_take] at htake
  have hat : ((s.take n).map (Equiv.swap a b))[i]? = (s.take n)[i]? := by rw [htake]
  rw [List.getElem?_map, List.getElem?_eq_getElem hi, hget, Option.map_some, Equiv.swap_apply_left] at hat
  exact (Option.some.inj hat).symm

/-- Ranked lists that agree on the members that can come first have the same first members. -/
theorem take_eq_take (first : α → Prop) (hs : Ranked lt s) (ht : Ranked lt t) (hlength : s.length = t.length)
    (hsnodup : s.Nodup) (htnodup : t.Nodup) (hmem : ∀ x, first x → (x ∈ s ↔ x ∈ t))
    (hfirst : ∀ x ∈ s.take n, first x) (hfirst' : ∀ x ∈ t.take n, first x)
    (htie : ∀ x ∈ s, ∀ y ∈ s, first x → first y → lt x y = false → lt y x = false → x = y) :
    s.take n = t.take n := by
  classical
  have hfront : ∀ l : List α, (∀ x ∈ l.take n, first x) →
      l.take n = (l.filter fun x => decide (first x)).take (l.take n).length := by
    intro l hl
    have hall : (l.take n).filter (fun x => decide (first x)) = l.take n :=
      List.filter_eq_self.mpr fun x hx => decide_eq_true (hl x hx)
    have hsplit : l.filter (fun x => decide (first x)) =
        l.take n ++ (l.drop n).filter fun x => decide (first x) := by
      conv_lhs => rw [← List.take_append_drop n l]
      rw [List.filter_append, hall]
    rw [hsplit, List.take_left]
  have hperm : (s.filter fun x => decide (first x)).Perm (t.filter fun x => decide (first x)) := by
    refine (List.perm_ext_iff_of_nodup (hsnodup.filter _) (htnodup.filter _)).mpr fun x => ?_
    rw [List.mem_filter, List.mem_filter, decide_eq_true_eq]
    exact and_congr_left fun hx => hmem x hx
  have heq : (s.filter fun x => decide (first x)) = t.filter fun x => decide (first x) := by
    refine List.Perm.eq_of_pairwise (fun x y hx hy hxy hyx => ?_) (hs.filter _) (ht.filter _) hperm
    obtain ⟨hxs, hx⟩ := List.mem_filter.mp hx
    obtain ⟨hyt, hy⟩ := List.mem_filter.mp hy
    have hys := (hmem y (of_decide_eq_true hy)).mpr hyt
    exact htie x hxs y hys (of_decide_eq_true hx) (of_decide_eq_true hy) hyx hxy
  rw [hfront s hfirst, hfront t hfirst', heq, List.length_take, List.length_take, hlength]

end SubscriptionRouter.FirstRanks
