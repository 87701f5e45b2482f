import Mathlib

set_option autoImplicit false

/-!
# Runs of labelled transition systems and pools of concurrent threads

A system is a relation `S → L → S → Prop`, most often the graph of a partial
step function. `Runs` keeps the labels of a run in order. `Guarded` restricts a
system to the steps that meet a condition on the state before the step, so a
run of the restricted system is a run all of whose steps meet it.

A `Pool` is a shared state and one local state for each of infinitely many
threads. One step of `Pool.step` is one atomic step of one thread, so its runs
are the interleavings of the threads. `Pool.runs_invariant` proves an invariant
of all interleavings from one thread's step at a time.
-/
namespace SubscriptionRouter.Transitions

variable {S L : Type}

inductive Runs (R : S → L → S → Prop) : S → List L → S → Prop where
  | refl (s : S) : Runs R s [] s
  | tail {s u v : S} {ls : List L} {l : L} (run : Runs R s ls u) (last : R u l v) :
      Runs R s (ls ++ [l]) v

def Fires (step : S → L → Option S) (s : S) (l : L) (u : S) : Prop := step s l = some u

/-- The steps of `R` whose state and label meet `C`. -/
def Guarded (C : S → L → Prop) (R : S → L → S → Prop) (s : S) (l : L) (u : S) : Prop :=
  C s l ∧ R s l u

def Reachable (R : S → L → S → Prop) (init : S → Prop) (u : S) : Prop :=
  ∃ s ls, init s ∧ Runs R s ls u

theorem Runs.trans {R : S → L → S → Prop} {s u v : S} {ls ms : List L}
    (h : Runs R s ls u) (h' : Runs R u ms v) : Runs R s (ls ++ ms) v := by
  induction h' with
  | refl => simpa using h
  | tail _ last ih => simpa only [List.append_assoc] using Runs.tail ih last

theorem Runs.single {R : S → L → S → Prop} {s u : S} {l : L} (h : R s l u) : Runs R s [l] u :=
  Runs.tail (.refl s) h

theorem Runs.mono {R Q : S → L → S → Prop} (hRQ : ∀ s l u, R s l u → Q s l u)
    {s u : S} {ls : List L} (h : Runs R s ls u) : Runs Q s ls u := by
  induction h with
  | refl => exact .refl _
  | tail _ last ih => exact .tail ih (hRQ _ _ _ last)

theorem Runs.of_guarded {C : S → L → Prop} {R : S → L → S → Prop} {s u : S} {ls : List L}
    (h : Runs (Guarded C R) s ls u) : Runs R s ls u :=
  h.mono fun _ _ _ hs => hs.2

theorem Runs.of_append {R : S → L → S → Prop} {s v : S} {ls ms : List L}
    (h : Runs R s (ls ++ ms) v) : ∃ u, Runs R s ls u ∧ Runs R u ms v := by
  induction ms using List.reverseRecOn generalizing v with
  | nil => exact ⟨v, List.append_nil ls ▸ h, .refl v⟩
  | append_singleton ms m ih =>
    generalize hls : ls ++ (ms ++ [m]) = log at h
    cases h with
    | refl => simp at hls
    | tail run last =>
      rw [← List.append_assoc] at hls
      obtain ⟨rfl, hm⟩ := List.append_inj' hls rfl
      obtain rfl := List.singleton_inj.mp hm
      obtain ⟨u, hu, hu'⟩ := ih run
      exact ⟨u, hu, hu'.tail last⟩

/-- The invariant rule. -/
theorem Runs.invariant {R : S → L → S → Prop} {I : S → Prop} {s u : S} {ls : List L}
    (h : Runs R s ls u) (hs : I s) (hstep : ∀ s l u, I s → R s l u → I u) : I u := by
  induction h with
  | refl => exact hs
  | tail _ last ih => exact hstep _ _ _ ih last

theorem Reachable.invariant {R : S → L → S → Prop} {init I : S → Prop} {u : S}
    (h : Reachable R init u) (hinit : ∀ s, init s → I s)
    (hstep : ∀ s l u, I s → R s l u → I u) : I u := by
  obtain ⟨s, ls, hs, hr⟩ := h
  exact hr.invariant (hinit s hs) hstep

/-- Perform a list of labels, stopping at the first one that is not enabled. -/
def exec (step : S → L → Option S) : S → List L → Option S
  | s, [] => some s
  | s, l :: ls => (step s l).bind fun u => exec step u ls

theorem exec_runs {step : S → L → Option S} {s u : S} {ls : List L}
    (h : exec step s ls = some u) : Runs (Fires step) s ls u := by
  induction ls generalizing s with
  | nil =>
    simp only [exec, Option.some.injEq] at h
    subst h
    exact .refl s
  | cons l ls ih =>
    obtain ⟨v, hv, hu⟩ := Option.bind_eq_some_iff.mp h
    exact (Runs.single (show Fires step s l v from hv)).trans (ih hu)

theorem exec_append {step : S → L → Option S} (s : S) (ls ms : List L) :
    exec step s (ls ++ ms) = (exec step s ls).bind fun u => exec step u ms := by
  induction ls generalizing s with
  | nil => rfl
  | cons l ls ih =>
    rw [List.cons_append, exec, exec]
    cases step s l with
    | none => rfl
    | some u => exact ih u

theorem exec_of_runs {step : S → L → Option S} {s u : S} {ls : List L}
    (h : Runs (Fires step) s ls u) : exec step s ls = some u := by
  induction h with
  | refl => rfl
  | tail _ last ih =>
    rw [exec_append, ih, Option.bind_some, exec]
    exact Option.bind_eq_some_iff.mpr ⟨_, last, rfl⟩

/-- The steps of a step function whose state and label meet `C`. -/
def guard (C : S → L → Prop) [∀ s l, Decidable (C s l)] (step : S → L → Option S) (s : S) (l : L) :
    Option S :=
  if C s l then step s l else none

theorem exec_guard_runs {C : S → L → Prop} [∀ s l, Decidable (C s l)] {step : S → L → Option S}
    {s u : S} {ls : List L} (h : exec (guard C step) s ls = some u) :
    Runs (Guarded C (Fires step)) s ls u := by
  refine (exec_runs h).mono fun s l u hs => ?_
  unfold Fires guard at hs
  split at hs
  · exact ⟨‹C s l›, hs⟩
  · cases hs

theorem runs_of_exec_any {step : S → L → Option S} {s : S} {ls : List L} {test : S → Bool}
    (h : (exec step s ls).any test = true) : ∃ u, Runs (Fires step) s ls u ∧ test u = true := by
  obtain ⟨hsome, ht⟩ := (Option.any_eq_true_iff_get test _).mp h
  exact ⟨_, exec_runs (Option.some_get hsome).symm, ht⟩

theorem guarded_runs_of_exec_any {C : S → L → Prop} [∀ s l, Decidable (C s l)]
    {step : S → L → Option S} {s : S} {ls : List L} {test : S → Bool}
    (h : (exec (guard C step) s ls).any test = true) :
    ∃ u, Runs (Guarded C (Fires step)) s ls u ∧ test u = true := by
  obtain ⟨hsome, ht⟩ := (Option.any_eq_true_iff_get test _).mp h
  exact ⟨_, exec_guard_runs (Option.some_get hsome).symm, ht⟩

/-! Histories in which each entry is justified by the entries before it. -/

section Histories
variable {E X : Type} {P : List E → E → Prop}

inductive Justified (P : List E → E → Prop) : List E → Prop where
  | nil : Justified P []
  | concat {past : List E} {e : E} (h : Justified P past) (he : P past e) :
      Justified P (past ++ [e])

theorem Justified.entry {past rest : List E} {e : E} (h : Justified P (past ++ e :: rest)) :
    P past e := by
  generalize hlog : past ++ e :: rest = log at h
  induction h generalizing rest with
  | nil => simp at hlog
  | concat _ he ih =>
    rcases List.eq_nil_or_concat rest with rfl | ⟨rest, last, rfl⟩
    · obtain ⟨rfl, hlast⟩ := List.append_inj' hlog rfl
      obtain rfl := List.singleton_inj.mp hlast
      exact he
    · rw [List.concat_eq_append, ← List.cons_append, ← List.append_assoc] at hlog
      exact ih (List.append_inj' hlog rfl).1

theorem filterMap_concat_none {f : E → Option X} {e : E} (h : f e = none) (log : List E) :
    (log ++ [e]).filterMap f = log.filterMap f := by
  rw [List.filterMap_append, List.filterMap_cons_none h, List.filterMap_nil, List.append_nil]

theorem filterMap_concat_eq {f : E → Option X} {e : E} {log : List E} {xs : List X}
    (h : log.filterMap f = xs) (he : f e = none) : (log ++ [e]).filterMap f = xs :=
  (filterMap_concat_none he log).trans h

theorem filterMap_concat_some {f : E → Option X} {e : E} {x : X} (h : f e = some x) (log : List E) :
    (log ++ [e]).filterMap f = log.filterMap f ++ [x] := by
  rw [List.filterMap_append, List.filterMap_cons_some h, List.filterMap_nil]

theorem filterMap_concat_single {f : E → Option X} {e : E} {x : X} {log : List E}
    (h : log.filterMap f = []) (he : f e = some x) : (log ++ [e]).filterMap f = [x] := by
  rw [filterMap_concat_some he, h, List.nil_append]

theorem Justified.once {f : E → Option X} (hf : ∀ past e, P past e → (f e).isSome = true →
    past.filterMap f = []) {log : List E} (h : Justified P log) : (log.filterMap f).length ≤ 1 := by
  induction h with
  | nil => simp
  | @concat past e _ he ih =>
    rw [List.filterMap_append, List.length_append]
    cases hx : f e with
    | none => simpa [List.filterMap_cons, hx] using ih
    | some x => simp [hf past e he (by simp [hx]), hx]

end Histories

/-- A shared state and the local state of every thread. -/
structure Pool (Sh Th : Type) where
  shared : Sh
  threads : ℕ → Th

section Pool
variable {Sh Th Ch : Type}

/-- One atomic step of one thread. The label names the thread and the choice the
environment makes for it; `act` is that thread's next action. -/
def Pool.step (act : ℕ → Sh → Th → Ch → Option (Sh × Th)) (p : Pool Sh Th) (l : ℕ × Ch) :
    Option (Pool Sh Th) :=
  (act l.1 p.shared (p.threads l.1) l.2).map fun r =>
    ⟨r.1, Function.update p.threads l.1 r.2⟩

def Pool.At (C : ℕ → Sh → Th → Ch → Prop) (p : Pool Sh Th) (l : ℕ × Ch) : Prop :=
  C l.1 p.shared (p.threads l.1) l.2

variable {act : ℕ → Sh → Th → Ch → Option (Sh × Th)}

theorem Pool.fires_iff {p q : Pool Sh Th} {l : ℕ × Ch} :
    Fires (Pool.step act) p l q ↔ ∃ sh th, act l.1 p.shared (p.threads l.1) l.2 = some (sh, th) ∧
      q = ⟨sh, Function.update p.threads l.1 th⟩ := by
  simp only [Fires, Pool.step, Option.map_eq_some_iff, Prod.exists]
  constructor
  · rintro ⟨sh, th, h, rfl⟩
    exact ⟨sh, th, h, rfl⟩
  · rintro ⟨sh, th, h, rfl⟩
    exact ⟨sh, th, h, rfl⟩

/-- `G` is an invariant of the shared state and `J i` an assertion about thread
`i`; a step keeps `G` and its own thread's assertion, and disturbs no other. -/
structure Pool.Inductive (act : ℕ → Sh → Th → Ch → Option (Sh × Th))
    (C : ℕ → Sh → Th → Ch → Prop) (G : Sh → Prop) (J : ℕ → Sh → Th → Prop) : Prop where
  own : ∀ i sh th c sh' th', G sh → J i sh th → C i sh th c →
    act i sh th c = some (sh', th') → G sh' ∧ J i sh' th'
  frame : ∀ i sh th c sh' th', G sh → J i sh th → C i sh th c →
    act i sh th c = some (sh', th') → ∀ j tj, j ≠ i → J j sh tj → J j sh' tj

def Pool.Holds (G : Sh → Prop) (J : ℕ → Sh → Th → Prop) (p : Pool Sh Th) : Prop :=
  G p.shared ∧ ∀ i, J i p.shared (p.threads i)

theorem Pool.Inductive.step {C : ℕ → Sh → Th → Ch → Prop} {G : Sh → Prop}
    {J : ℕ → Sh → Th → Prop} (h : Pool.Inductive act C G J) {p q : Pool Sh Th} {l : ℕ × Ch}
    (hp : Pool.Holds G J p) (hs : Guarded (Pool.At C) (Fires (Pool.step act)) p l q) :
    Pool.Holds G J q := by
  obtain ⟨hC, hf⟩ := hs
  obtain ⟨sh, th, ha, rfl⟩ := Pool.fires_iff.mp hf
  obtain ⟨hG, hJ⟩ := h.own _ _ _ _ _ _ hp.1 (hp.2 l.1) hC ha
  refine ⟨hG, fun j => ?_⟩
  by_cases hj : j = l.1
  · subst hj
    simpa only [Function.update_self] using hJ
  · simp only [Function.update_of_ne hj]
    exact h.frame _ _ _ _ _ _ hp.1 (hp.2 l.1) hC ha j _ hj (hp.2 j)

theorem Pool.runs_invariant {C : ℕ → Sh → Th → Ch → Prop} {G : Sh → Prop}
    {J : ℕ → Sh → Th → Prop} (h : Pool.Inductive act C G J) {p q : Pool Sh Th}
    {ls : List (ℕ × Ch)} (hp : Pool.Holds G J p)
    (hr : Runs (Guarded (Pool.At C) (Fires (Pool.step act))) p ls q) : Pool.Holds G J q :=
  hr.invariant hp fun _ _ _ => h.step

end Pool

end SubscriptionRouter.Transitions
