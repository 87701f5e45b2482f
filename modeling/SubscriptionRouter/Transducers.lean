import Mathlib

set_option autoImplicit false

/-!
# Machines that write while they read

A machine reads its input one item at a time, writes some items for each and may refuse. At the
end of the input it writes what it still holds, or refuses because something has not ended.
-/
namespace SubscriptionRouter.Transducers

structure Transducer (S I O : Type) where
  step : S → I → Option (List O × S)
  finish : S → Option (List O)

namespace Transducer
variable {S I O : Type} (m : Transducer S I O)

/-- What is written while a part of the input is read, and the state after it. -/
def feed : S → List I → Option (List O × S)
  | s, [] => some ([], s)
  | s, i :: input => do
    let now ← m.step s i
    let later ← feed now.2 input
    return (now.1 ++ later.1, later.2)

/-- What is written for the rest of the input. -/
def run (s : S) (input : List I) : Option (List O) := do
  let all ← m.feed s input
  let last ← m.finish all.2
  return all.1 ++ last

variable {m} {s s' s'' : S} {i : I} {a b : List I} {o o' : List O}

@[simp]
theorem feed_nil : m.feed s [] = some ([], s) := rfl

@[simp]
theorem run_nil : m.run s [] = m.finish s := by
  unfold run
  cases h : m.finish s <;> simp [h]

theorem feed_cons_iff : m.feed s (i :: a) = some (o, s'') ↔
    ∃ now s' later, m.step s i = some (now, s') ∧ m.feed s' a = some (later, s'') ∧ o = now ++ later := by
  simp only [feed, Option.bind_eq_bind, Option.bind_eq_some_iff, Option.pure_def, Option.some.injEq,
    Prod.mk.injEq, Prod.exists]
  constructor
  · rintro ⟨now, s', hstep, later, t, hfeed, rfl, rfl⟩
    exact ⟨now, s', later, hstep, hfeed, rfl⟩
  · rintro ⟨now, s', later, hstep, hfeed, rfl⟩
    exact ⟨now, s', hstep, later, s'', hfeed, rfl, rfl⟩

theorem feed_append_iff : m.feed s (a ++ b) = some (o, s'') ↔
    ∃ now s' later, m.feed s a = some (now, s') ∧ m.feed s' b = some (later, s'') ∧ o = now ++ later := by
  induction a generalizing s o with
  | nil => simp
  | cons i a ih =>
    rw [List.cons_append, feed_cons_iff]
    constructor
    · rintro ⟨now, s', later, hstep, hfeed, rfl⟩
      obtain ⟨middle, t, last, ha, hb, rfl⟩ := ih.mp hfeed
      exact ⟨now ++ middle, t, last, feed_cons_iff.mpr ⟨now, s', middle, hstep, ha, rfl⟩, hb,
        (List.append_assoc ..).symm⟩
    · rintro ⟨now, s', later, hfeed, hb, rfl⟩
      obtain ⟨first, t, middle, hstep, ha, rfl⟩ := feed_cons_iff.mp hfeed
      exact ⟨first, t, middle ++ later, hstep, ih.mpr ⟨middle, s', later, ha, hb, rfl⟩, List.append_assoc ..⟩

theorem run_eq_some_iff : m.run s a = some o ↔
    ∃ now s' last, m.feed s a = some (now, s') ∧ m.finish s' = some last ∧ o = now ++ last := by
  simp only [run, Option.bind_eq_bind, Option.bind_eq_some_iff, Option.pure_def, Option.some.injEq,
    Prod.exists]
  constructor
  · rintro ⟨now, s', hfeed, last, hlast, rfl⟩
    exact ⟨now, s', last, hfeed, hlast, rfl⟩
  · rintro ⟨now, s', last, hfeed, hlast, rfl⟩
    exact ⟨now, s', hfeed, last, hlast, rfl⟩

theorem run_append_iff : m.run s (a ++ b) = some o ↔
    ∃ now s' later, m.feed s a = some (now, s') ∧ m.run s' b = some later ∧ o = now ++ later := by
  rw [run_eq_some_iff]
  constructor
  · rintro ⟨written, t, last, hfeed, hlast, rfl⟩
    obtain ⟨now, s', later, ha, hb, rfl⟩ := feed_append_iff.mp hfeed
    exact ⟨now, s', later ++ last, ha, run_eq_some_iff.mpr ⟨later, t, last, hb, hlast, rfl⟩,
      List.append_assoc ..⟩
  · rintro ⟨now, s', later, ha, hrun, rfl⟩
    obtain ⟨middle, t, last, hb, hlast, rfl⟩ := run_eq_some_iff.mp hrun
    exact ⟨now ++ middle, t, last, feed_append_iff.mpr ⟨now, s', middle, ha, hb, rfl⟩, hlast,
      (List.append_assoc ..).symm⟩

theorem run_cons_iff : m.run s (i :: a) = some o ↔
    ∃ now s' later, m.step s i = some (now, s') ∧ m.run s' a = some later ∧ o = now ++ later := by
  rw [← List.singleton_append, run_append_iff]
  constructor
  · rintro ⟨now, s', later, hfeed, hrun, rfl⟩
    obtain ⟨first, t, none', hstep, hnil, rfl⟩ := feed_cons_iff.mp hfeed
    obtain ⟨rfl, rfl⟩ := Prod.mk.inj (Option.some.inj hnil)
    exact ⟨first, t, later, hstep, hrun, by rw [List.append_nil]⟩
  · rintro ⟨now, s', later, hstep, hrun, rfl⟩
    exact ⟨now, s', later, feed_cons_iff.mpr ⟨now, s', [], hstep, rfl, (List.append_nil _).symm⟩, hrun, rfl⟩

theorem run_parts_iff {c : List I} : m.run s (a ++ b ++ c) = some o ↔
    ∃ first s' now s'' last, m.feed s a = some (first, s') ∧ m.feed s' b = some (now, s'') ∧
      m.run s'' c = some last ∧ o = first ++ now ++ last := by
  rw [run_append_iff]
  constructor
  · rintro ⟨written, s'', last, hfeed, hlast, rfl⟩
    obtain ⟨first, s', now, ha, hb, rfl⟩ := feed_append_iff.mp hfeed
    exact ⟨first, s', now, s'', last, ha, hb, hlast, rfl⟩
  · rintro ⟨first, s', now, s'', last, ha, hb, hlast, rfl⟩
    exact ⟨first ++ now, s'', last, feed_append_iff.mpr ⟨first, s', now, ha, hb, rfl⟩, hlast, rfl⟩

end Transducer

end SubscriptionRouter.Transducers
