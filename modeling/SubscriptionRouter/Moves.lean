import Mathlib
import SubscriptionRouter.Exceptions

set_option autoImplicit false

/-!
# Scripts that move trees

What is at each of some places, none of which lies inside another, and the rename that takes a
tree from one to another as a whole or not at all.
-/
namespace SubscriptionRouter.Moves
open Exceptions

/-- A failure of the system, or one that the script finds for itself. -/
inductive Failure where
  | system
  | script
  deriving DecidableEq

variable {P T : Type}

abbrev Script (P T : Type) := EStateM Failure (P → Option T)

def attempt (raises : Bool) : Script P T Unit := if raises then throw .system else pure ()

def require (condition : Bool) : Script P T Unit := if condition then pure () else throw .script

def present (a : P) : Script P T Bool := do
  let s ← get
  return (s a).isSome

variable [DecidableEq P]

def moved (s : P → Option T) (a b : P) : P → Option T := Function.update (Function.update s a none) b (s a)

/-- Nothing is overwritten: an empty place cannot be moved, nor anything to a place that is taken. -/
def rename (raises : Bool) (a b : P) : Script P T Unit := do
  attempt raises
  let s ← get
  if (s a).isSome ∧ s b = none then set (moved s a b) else throw .system

def renameWhen (had raises : Bool) (a b : P) : Script P T Unit :=
  if had then rename raises a b else pure ()

def renameIfPresent (a b : P) : Script P T Unit := do
  renameWhen (← present a) false a b

theorem moved_target (s : P → Option T) (a b : P) : moved s a b b = s a := Function.update_self ..

theorem moved_source (s : P → Option T) {a b : P} (h : a ≠ b) : moved s a b a = none := by
  rw [moved, Function.update_of_ne h, Function.update_self]

theorem moved_other (s : P → Option T) {a b c : P} (ha : c ≠ a) (hb : c ≠ b) : moved s a b c = s c := by
  rw [moved, Function.update_of_ne hb, Function.update_of_ne ha]

theorem moved_absent {s : P → Option T} {a b : P} (ha : s a = none) (hb : s b = none) :
    moved s a b = s := by
  rw [moved, ha, ← ha, Function.update_eq_self, ha, ← hb, Function.update_eq_self]

section Rules
omit [DecidableEq P]
variable {s : P → Option T} {r : Failure → (P → Option T) → Prop}

theorem ends_attempt {q : Unit → (P → Option T) → Prop} {raises : Bool} :
    Ends (attempt raises) s q r ↔ if raises then r .system s else q () s := by
  cases raises
  · rfl
  · rfl

theorem ends_require {q : Unit → (P → Option T) → Prop} {condition : Bool} :
    Ends (require condition) s q r ↔ if condition then q () s else r .script s := by
  cases condition
  · rfl
  · rfl

theorem ends_present {q : Bool → (P → Option T) → Prop} {a : P} :
    Ends (present a) s q r ↔ q (s a).isSome s := Iff.rfl
end Rules

variable {s : P → Option T} {q : Unit → (P → Option T) → Prop} {r : Failure → (P → Option T) → Prop}

theorem ends_rename {raises : Bool} {a b : P} : Ends (rename raises a b) s q r ↔
    if raises = false ∧ (s a).isSome ∧ s b = none then q () (moved s a b) else r .system s := by
  unfold rename
  rw [ends_bind, ends_attempt]
  cases raises with
  | true => simp
  | false =>
    change Ends (if (s a).isSome ∧ s b = none then set (moved s a b) else throw .system) s q r ↔ _
    by_cases h : (s a).isSome ∧ s b = none
    · rw [if_pos h, if_pos ⟨rfl, h⟩]
      rfl
    · rw [if_neg h, if_neg fun hand => h hand.2]
      rfl

theorem ends_renameWhen {raises : Bool} {a b : P} (hb : s b = none) :
    Ends (renameWhen (s a).isSome raises a b) s q r ↔
      if (s a).isSome ∧ raises then r .system s else q () (moved s a b) := by
  unfold renameWhen
  cases ha : s a with
  | none =>
    rw [moved_absent ha hb]
    simp
  | some tree =>
    rw [Option.isSome_some, if_pos rfl, ends_rename]
    cases raises <;> simp [ha, hb]

theorem ends_renameIfPresent {a b : P} (hb : s b = none) :
    Ends (renameIfPresent a b) s q r ↔ q () (moved s a b) := by
  unfold renameIfPresent
  rw [ends_bind, ends_present, ends_renameWhen hb]
  simp

end SubscriptionRouter.Moves
