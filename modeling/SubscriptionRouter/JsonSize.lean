import Mathlib
import SubscriptionRouter.JsonText

set_option autoImplicit false

/-!
# The size of a document

How long a document is on one line, by the sizes of its members, and how long a string gets
when it is quoted.
-/
namespace SubscriptionRouter.JsonSize
open GoText JsonText

def quotedSize (s : GoString) : ℕ := (quote s).flatten.length

mutual
theorem render_compact (level : ℕ) (v : Json) : render compact level v = render compact 0 v := by
  cases v with
  | array vs =>
    cases vs with
    | nil => rfl
    | cons v vs =>
      rw [render, render, render_compact (level + 1) v, renderElements_compact level vs,
        render_compact (0 + 1) v]
      rfl
  | object ms =>
    cases ms with
    | nil => rfl
    | cons m ms =>
      obtain ⟨name, v⟩ := m
      rw [render, render, render_compact (level + 1) v, renderMembers_compact level ms,
        render_compact (0 + 1) v]
      rfl
  | bool b => cases b <;> rfl
  | _ => rfl

theorem renderElements_compact (level : ℕ) (vs : List Json) :
    renderElements compact level vs = renderElements compact 0 vs := by
  cases vs with
  | nil => rfl
  | cons v vs =>
    rw [renderElements, renderElements, render_compact (level + 1) v,
      renderElements_compact level vs, render_compact (0 + 1) v]
    rfl

theorem renderMembers_compact (level : ℕ) (ms : List (GoString × Json)) :
    renderMembers compact level ms = renderMembers compact 0 ms := by
  cases ms with
  | nil => rfl
  | cons m ms =>
    obtain ⟨name, v⟩ := m
    rw [renderMembers, renderMembers, render_compact (level + 1) v, renderMembers_compact level ms,
      render_compact (0 + 1) v]
    rfl
end

def membersSize : List (GoString × Json) → ℕ
  | [] => 0
  | (name, v) :: ms => quotedSize name + 2 + (marshal v).length + membersSize ms

theorem renderMembers_size (ms : List (GoString × Json)) :
    (renderMembers compact 0 ms).flatten.length = membersSize ms + 1 := by
  induction ms with
  | nil => rfl
  | cons m ms ih =>
    obtain ⟨name, v⟩ := m
    rw [renderMembers, render_compact (0 + 1) v]
    simp only [List.flatten_append, List.length_append, ih, membersSize, marshal, quotedSize]
    change 1 + 0 + _ + 1 + 0 + _ + _ = _
    omega

theorem marshal_object_size (name : GoString) (v : Json) (ms : List (GoString × Json)) :
    (marshal (.object ((name, v) :: ms))).length = membersSize ((name, v) :: ms) + 1 := by
  rw [marshal, render, render_compact (0 + 1) v]
  simp only [List.flatten_append, List.length_append, renderMembers_size, membersSize, marshal,
    quotedSize]
  change 1 + 0 + _ + 1 + 0 + _ + _ = _
  omega

theorem marshal_string_size (s : GoString) : (marshal (.string s)).length = quotedSize s := rfl

theorem marshal_number_size (literal : GoString) : (marshal (.number literal)).length = literal.length := by
  rw [marshal, render, ← List.flatMap_def, List.flatMap_singleton']

theorem membersSize_append (ms others : List (GoString × Json)) :
    membersSize (ms ++ others) = membersSize ms + membersSize others := by
  induction ms with
  | nil => rw [List.nil_append, membersSize, Nat.zero_add]
  | cons m ms ih => rw [List.cons_append, membersSize, membersSize, ih, Nat.add_assoc _ (membersSize ms)]

theorem quoteUnit_size {u : GoString} (hne : u ≠ []) :
    (quoteUnit u).flatten.length ≤ 6 * u.length := by
  have hpos : 0 < u.length := List.length_pos_iff.mpr hne
  have hescape : ∀ n, (unicodeEscape n).flatten.length ≤ 6 * u.length := by
    intro n
    change 6 ≤ _
    omega
  refine quoteUnit_shape (P := fun t => t.flatten.length ≤ 6 * u.length) u hescape
    (fun s hs => ?_) fun _ => ?_
  · have hshort : (chars s).flatten.length = 2 := by
      revert s hs
      decide
    omega
  · rw [List.flatten_singleton]
    omega

theorem flatMap_quoteUnit_size (l : List GoString) (hne : ∀ u ∈ l, u ≠ []) :
    (l.flatMap quoteUnit).flatten.length ≤ 6 * l.flatten.length := by
  induction l with
  | nil => exact Nat.le_refl 0
  | cons u l ih =>
    obtain ⟨hu, hl⟩ := List.forall_mem_cons.mp hne
    have hunit := quoteUnit_size hu
    have hrest := ih hl
    rw [List.flatMap_cons, List.flatten_append, List.length_append, List.flatten_cons,
      List.length_append]
    omega

theorem quotedSize_le (s : GoString) : quotedSize s ≤ 2 + 6 * s.length := by
  have hunits := flatMap_quoteUnit_size (units s) fun u hu => (isUnit_of_mem hu).ne_nil
  rw [units_flatten] at hunits
  rw [quotedSize, quote, List.flatten_append, List.flatten_append, List.length_append,
    List.length_append]
  change 1 + _ + 1 ≤ _
  omega

end SubscriptionRouter.JsonSize
