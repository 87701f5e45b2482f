import Mathlib

set_option autoImplicit false

/-!
# Splitting at separators

What `List.splitOnP` cuts a list into, and that joining with a separator goes the other way.
-/
namespace SubscriptionRouter.Splitting

variable {α : Type} {p : α → Bool} {l part : List α} {parts : List (List α)} {x : α}

theorem free_of_mem_splitOnP (h : part ∈ l.splitOnP p) : ∀ b ∈ part, p b = false := by
  induction l generalizing part with
  | nil =>
    rw [List.splitOnP_nil, List.mem_singleton] at h
    simp [h]
  | cons c l ih =>
    rw [List.splitOnP_cons_eq_if_modifyHead] at h
    by_cases hc : p c = true
    · rw [if_pos hc, List.mem_cons] at h
      rcases h with rfl | h
      · exact List.forall_mem_nil _
      · exact ih h
    · obtain ⟨first, others, hsplit⟩ := List.exists_cons_of_ne_nil (List.splitOnP_ne_nil p l)
      rw [if_neg hc, hsplit, List.modifyHead_cons, List.mem_cons] at h
      rw [hsplit] at ih
      rcases h with rfl | h
      · rw [List.forall_mem_cons]
        exact ⟨by simpa using hc, ih List.mem_cons_self⟩
      · exact ih (List.mem_cons_of_mem _ h)

theorem mem_of_mem_splitOnP (h : part ∈ l.splitOnP p) : ∀ b ∈ part, b ∈ l := by
  induction l generalizing part with
  | nil =>
    rw [List.splitOnP_nil, List.mem_singleton] at h
    simp [h]
  | cons c l ih =>
    rw [List.splitOnP_cons_eq_if_modifyHead] at h
    by_cases hc : p c = true
    · rw [if_pos hc, List.mem_cons] at h
      rcases h with rfl | h
      · exact List.forall_mem_nil _
      · exact fun b hb => List.mem_cons_of_mem c (ih h b hb)
    · obtain ⟨first, others, hsplit⟩ := List.exists_cons_of_ne_nil (List.splitOnP_ne_nil p l)
      rw [if_neg hc, hsplit, List.modifyHead_cons, List.mem_cons] at h
      rw [hsplit] at ih
      rcases h with rfl | h
      · intro b hb
        rcases List.mem_cons.mp hb with rfl | hb
        · exact List.mem_cons_self
        · exact List.mem_cons_of_mem c (ih List.mem_cons_self b hb)
      · exact fun b hb => List.mem_cons_of_mem c (ih (List.mem_cons_of_mem _ h) b hb)

theorem splitOnP_getLast (hlast : l.getLast? = some x) (hx : p x = false) :
    ∃ before last, l.splitOnP p = before ++ [last] ∧ last.getLast? = some x := by
  obtain ⟨init, rfl⟩ := List.getLast?_eq_some_iff.mp hlast
  clear hlast
  induction init with
  | nil =>
    refine ⟨[], [x], ?_, rfl⟩
    rw [List.nil_append, List.nil_append, List.splitOnP_eq_singleton (by simpa using hx)]
  | cons c init ih =>
    obtain ⟨before, last, hsplit, hlast⟩ := ih
    rw [List.cons_append, List.splitOnP_cons_eq_if_modifyHead, hsplit]
    by_cases hc : p c = true
    · exact ⟨[] :: before, last, if_pos hc, hlast⟩
    · rw [if_neg hc]
      cases before with
      | nil => exact ⟨[], c :: last, rfl, by rw [List.getLast?_cons, hlast]; rfl⟩
      | cons first before => exact ⟨(c :: first) :: before, last, rfl, hlast⟩

theorem splitOnP_map {β : Type} (f : α → β) (q : β → Bool) (l : List α) :
    (l.map f).splitOnP q = (l.splitOnP fun a => q (f a)).map (List.map f) := by
  induction l with
  | nil => rfl
  | cons a l ih =>
    rw [List.map_cons, List.splitOnP_cons_eq_if_modifyHead, List.splitOnP_cons_eq_if_modifyHead, ih]
    by_cases hq : q (f a) = true
    · rw [if_pos hq, if_pos hq, List.map_cons, List.map_nil]
    · rw [if_neg hq, if_neg hq]
      cases List.splitOnP (fun a => q (f a)) l <;> rfl

theorem splitOnP_intercalate (hx : p x = true) (hparts : ∀ part ∈ parts, ∀ b ∈ part, p b = false)
    (hne : parts ≠ []) : ([x].intercalate parts).splitOnP p = parts := by
  induction parts with
  | nil => exact absurd rfl hne
  | cons first parts ih =>
    have hfirst := hparts first List.mem_cons_self
    cases parts with
    | nil => rw [List.intercalate_singleton, List.splitOnP_eq_singleton hfirst]
    | cons second parts =>
      rw [List.intercalate_cons_cons, List.append_assoc, List.singleton_append,
        List.splitOnP_append_cons_of_forall_mem hfirst x hx,
        ih (fun part hpart => hparts part (List.mem_cons_of_mem _ hpart)) (List.cons_ne_nil _ _)]

theorem mem_intercalate {b : α} (h : b ∈ [x].intercalate parts) : b = x ∨ ∃ part ∈ parts, b ∈ part := by
  induction parts with
  | nil => simp at h
  | cons first parts ih =>
    cases parts with
    | nil =>
      rw [List.intercalate_singleton] at h
      exact .inr ⟨first, List.mem_cons_self, h⟩
    | cons second parts =>
      rw [List.intercalate_cons_cons, List.append_assoc, List.mem_append, List.singleton_append,
        List.mem_cons] at h
      rcases h with h | rfl | h
      · exact .inr ⟨first, List.mem_cons_self, h⟩
      · exact .inl rfl
      · rcases ih h with h | ⟨part, hpart, hb⟩
        · exact .inl h
        · exact .inr ⟨part, List.mem_cons_of_mem _ hpart, hb⟩

theorem intercalate_concat (parts : List (List α)) (part : List α) : [x].intercalate (parts ++ [part]) =
    [x].intercalate parts ++ (if parts = [] then [] else [x]) ++ part := by
  induction parts with
  | nil => simp
  | cons first parts ih =>
    cases parts with
    | nil => simp
    | cons second parts =>
      rw [List.cons_append, List.cons_append, List.intercalate_cons_cons, ← List.cons_append, ih,
        List.intercalate_cons_cons]
      simp

end SubscriptionRouter.Splitting
