import Mathlib
import SubscriptionRouter.Tallies

set_option autoImplicit false

/-!
# Tasks and the locks they hold

Concurrent tasks are a list, and each holds at most one lock of a family. Locks are
exclusive when the locks that are taken are held by exactly one task. A task that
goes on is taken out of the list and put back at its end.
-/
namespace SubscriptionRouter.Locks
open Tallies

variable {T K : Type} [DecidableEq K] {holds : T → Option K} {locks : Finset K} {tasks : List T}

def Exclusive (holds : T → Option K) (locks : Finset K) (tasks : List T) : Prop :=
  ∀ k, tasks.countP (fun t => holds t = some k) = if k ∈ locks then 1 else 0

theorem exclusive_nil : Exclusive holds ∅ [] := fun k => by simp

theorem countP_holds_eq {i : ℕ} {t : T} (ht : tasks[i]? = some t) (k : K) :
    tasks.countP (fun t => holds t = some k) =
      (tasks.eraseIdx i).countP (fun t => holds t = some k) + if holds t = some k then 1 else 0 := by
  rw [countP_eraseIdx _ ht]
  by_cases h : holds t = some k <;> simp [h]

theorem countP_of_none {rest : List T} (h : ∀ t ∈ rest, holds t = none) (k : K) :
    rest.countP (fun t => holds t = some k) = 0 := by
  refine List.countP_eq_zero.mpr fun t ht => ?_
  simp [h t ht]

theorem mem_or_eq_of_getElem? {i : ℕ} {t t' : T} (ht : tasks[i]? = some t) (h : t' ∈ tasks) :
    t' ∈ tasks.eraseIdx i ∨ t' = t := by
  obtain ⟨j, hj⟩ := List.mem_iff_getElem?.mp h
  by_cases hij : j = i
  · subst hij
    exact .inr (Option.some.inj (hj.symm.trans ht))
  · exact .inl (List.mem_eraseIdx_iff_getElem?.mpr ⟨j, hij, hj⟩)

theorem Exclusive.advance (h : Exclusive holds locks tasks) {i : ℕ} {t t' : T}
    (ht : tasks[i]? = some t) (hsame : holds t' = holds t) :
    Exclusive holds locks (tasks.eraseIdx i ++ [t']) := by
  intro k
  have hk := h k
  rw [countP_holds_eq ht] at hk
  rw [List.countP_append, ← hk]
  by_cases hh : holds t = some k <;> simp [hsame, hh]

theorem Exclusive.acquire (h : Exclusive holds locks tasks) {i : ℕ} {t t' : T} {k : K}
    (ht : tasks[i]? = some t) (hfree : k ∉ locks) (hbefore : holds t = none)
    (hafter : holds t' = some k) : Exclusive holds (insert k locks) (tasks.eraseIdx i ++ [t']) := by
  intro j
  have hj := h j
  rw [countP_holds_eq ht, hbefore] at hj
  simp only [reduceCtorEq, if_false, Nat.add_zero] at hj
  rw [List.countP_append, hj]
  by_cases hjk : k = j
  · subst hjk
    simp [hfree, hafter]
  · simp [hafter, hjk, Ne.symm hjk]

theorem Exclusive.release (h : Exclusive holds locks tasks) {i : ℕ} {t : T} {k : K} {rest : List T}
    (ht : tasks[i]? = some t) (hheld : holds t = some k) (hrest : ∀ t' ∈ rest, holds t' = none) :
    Exclusive holds (locks.erase k) (tasks.eraseIdx i ++ rest) := by
  intro j
  have hj := h j
  rw [countP_holds_eq ht, hheld] at hj
  rw [List.countP_append, countP_of_none hrest]
  by_cases hjk : k = j
  · subst hjk
    rw [if_pos rfl] at hj
    rw [if_neg (Finset.notMem_erase k locks)]
    split at hj <;> omega
  · simpa [hjk, Ne.symm hjk] using hj

theorem Exclusive.leave (h : Exclusive holds locks tasks) {i : ℕ} {t : T} {rest : List T}
    (ht : tasks[i]? = some t) (hheld : holds t = none) (hrest : ∀ t' ∈ rest, holds t' = none) :
    Exclusive holds locks (tasks.eraseIdx i ++ rest) := by
  intro k
  have hk := h k
  rw [countP_holds_eq ht, hheld] at hk
  rw [List.countP_append, countP_of_none hrest, ← hk]
  simp

theorem Exclusive.enterAll (h : Exclusive holds locks tasks) {rest : List T}
    (hrest : ∀ t ∈ rest, holds t = none) : Exclusive holds locks (tasks ++ rest) := by
  intro k
  rw [List.countP_append, countP_of_none hrest, h k]
  rfl

theorem Exclusive.enter (h : Exclusive holds locks tasks) {t : T} (hheld : holds t = none) :
    Exclusive holds locks (tasks ++ [t]) :=
  h.enterAll fun _ ht => List.mem_singleton.mp ht ▸ hheld

theorem Exclusive.alone (h : Exclusive holds locks tasks) {i : ℕ} {t t' : T} {k : K}
    (ht : tasks[i]? = some t) (hheld : holds t = some k) (ht' : t' ∈ tasks.eraseIdx i) :
    holds t' ≠ some k := by
  intro hheld'
  have hk := h k
  have hpos : 0 < (tasks.eraseIdx i).countP fun t => holds t = some k :=
    List.countP_pos_iff.mpr ⟨t', ht', by simpa using hheld'⟩
  rw [countP_holds_eq ht, if_pos hheld] at hk
  split at hk <;> omega

end SubscriptionRouter.Locks
