import Mathlib
import SubscriptionRouter.Tallies
import SubscriptionRouter.Transitions

set_option autoImplicit false

/-!
# Fan-outs with a bound

One goroutine is started for each of a list of tasks. Each takes a slot of a semaphore, calls its
operation, sends the result to a channel that has room for one result of each task, gives the slot
back and leaves the wait group; where there is a context, a goroutine may give up waiting for a slot
once it is cancelled. The caller waits for the group, closes the channel and goes over the results.
-/
namespace SubscriptionRouter.BoundedFanout
open Transitions Tallies

structure Config where
  tasks : ℕ
  capacity : ℕ
  /-- A goroutine selects on the context while it waits for a slot. -/
  cancellable : Bool
  /-- Results are sent to a channel. -/
  reports : Bool

variable {R : Type}

/-- Where a goroutine is. `leaving true` has a slot to give back. -/
inductive Stage (R : Type) where
  | waiting
  | running
  | answered (r : R)
  | refused
  | leaving (holds : Bool)
  | finished

/-- A result is `none` for a goroutine that gave up. -/
structure State (R : Type) where
  slots : ℕ
  waitGroup : ℕ
  results : List (ℕ × Option R)
  cancelled : Bool
  closed : Bool
  panicked : Bool
  stages : List (Stage R)

inductive Label (R : Type) where
  | acquire (i : ℕ)
  | refuse (i : ℕ)
  | answer (i : ℕ) (r : R)
  | send (i : ℕ)
  | release (i : ℕ)
  | done (i : ℕ)
  | cancel
  | close

def start (c : Config) : State R where
  slots := 0
  waitGroup := c.tasks
  results := []
  cancelled := false
  closed := false
  panicked := false
  stages := List.replicate c.tasks .waiting

def State.move (s : State R) (i : ℕ) (stage : Stage R) : State R :=
  { s with stages := s.stages.set i stage }

/-- A send to the channel of results, which panics once it is closed and blocks while it is full. -/
def State.report (c : Config) (s : State R) (i : ℕ) (result : Option R) (holds : Bool) :
    Option (State R) :=
  if s.closed then some { s with panicked := true }
  else if s.results.length < c.tasks then
    some { s.move i (.leaving holds) with results := s.results ++ [(i, result)] }
  else none

def step (c : Config) (s : State R) : Label R → Option (State R)
  | .acquire i => match s.stages[i]? with
    | some .waiting =>
      if s.slots < c.capacity then some { s.move i .running with slots := s.slots + 1 } else none
    | _ => none
  | .refuse i => match s.stages[i]? with
    | some .waiting => if c.cancellable && s.cancelled then some (s.move i .refused) else none
    | _ => none
  | .answer i r => match s.stages[i]? with
    | some .running => some (s.move i (if c.reports then .answered r else .leaving true))
    | _ => none
  | .send i => match s.stages[i]? with
    | some (.answered r) => s.report c i (some r) true
    | some .refused => s.report c i none false
    | _ => none
  | .release i => match s.stages[i]? with
    | some (.leaving true) =>
      if 0 < s.slots then some { s.move i (.leaving false) with slots := s.slots - 1 } else none
    | _ => none
  | .done i => match s.stages[i]? with
    | some (.leaving false) =>
      if 0 < s.waitGroup then some { s.move i .finished with waitGroup := s.waitGroup - 1 }
      else some { s with panicked := true }
    | _ => none
  | .cancel => some { s with cancelled := true }
  | .close => if s.waitGroup = 0 ∧ s.closed = false then some { s with closed := true } else none

def Stage.holds : Stage R → Bool
  | .running | .answered _ | .leaving true => true
  | _ => false

def Stage.unfinished : Stage R → Bool
  | .finished => false
  | _ => true

def Stage.sent : Stage R → Bool
  | .leaving _ | .finished => true
  | _ => false

/-- The counters are what the goroutines make them. -/
structure Counted (c : Config) (s : State R) : Prop where
  length : s.stages.length = c.tasks
  slots : s.slots = s.stages.countP Stage.holds
  bound : s.slots ≤ c.capacity
  waitGroup : s.waitGroup = s.stages.countP Stage.unfinished
  results : s.results.length ≤ s.stages.countP Stage.sent
  closed : s.closed = true → s.waitGroup = 0
  panicked : s.panicked = false

theorem counted_start (c : Config) : Counted c (start c : State R) where
  length := List.length_replicate
  slots := by simp [start, List.countP_replicate, Stage.holds]
  bound := Nat.zero_le _
  waitGroup := by simp [start, List.countP_replicate, Stage.unfinished]
  results := Nat.zero_le _
  closed := fun h => by cases h
  panicked := rfl

/-- The steps as a relation. -/
inductive Moves (c : Config) (s : State R) : Label R → State R → Prop where
  | acquire {i : ℕ} (hi : s.stages[i]? = some .waiting) (hslots : s.slots < c.capacity) :
      Moves c s (.acquire i) { s.move i .running with slots := s.slots + 1 }
  | refuse {i : ℕ} (hi : s.stages[i]? = some .waiting) (hcancelled : s.cancelled = true)
      (hcancellable : c.cancellable = true) : Moves c s (.refuse i) (s.move i .refused)
  | answer {i : ℕ} {r : R} (hi : s.stages[i]? = some .running) :
      Moves c s (.answer i r) (s.move i (if c.reports then .answered r else .leaving true))
  | send {i : ℕ} {a : Stage R} {result : Option R} {holds : Bool} (hi : s.stages[i]? = some a)
      (ha : (∃ r, a = .answered r ∧ result = some r ∧ holds = true) ∨
        (a = .refused ∧ result = none ∧ holds = false)) (hopen : s.closed = false) :
      Moves c s (.send i)
        { s.move i (.leaving holds) with results := s.results ++ [(i, result)] }
  | release {i : ℕ} (hi : s.stages[i]? = some (.leaving true)) :
      Moves c s (.release i) { s.move i (.leaving false) with slots := s.slots - 1 }
  | done {i : ℕ} (hi : s.stages[i]? = some (.leaving false)) (hgroup : 0 < s.waitGroup) :
      Moves c s (.done i) { s.move i .finished with waitGroup := s.waitGroup - 1 }
  | cancel : Moves c s .cancel { s with cancelled := true }
  | close (hgroup : s.waitGroup = 0) (hopen : s.closed = false) :
      Moves c s .close { s with closed := true }

theorem Counted.unfinished_pos {c : Config} {s : State R} (h : Counted c s) {i : ℕ} {a : Stage R}
    (hi : s.stages[i]? = some a) (ha : a.unfinished = true) : 0 < s.waitGroup := by
  rw [h.waitGroup]
  exact List.countP_pos_iff.mpr ⟨a, List.mem_of_getElem? hi, ha⟩

theorem Counted.can_send {c : Config} {s : State R} (h : Counted c s) {i : ℕ} {a : Stage R}
    (hi : s.stages[i]? = some a) (ha : a.unfinished = true) (hsent : a.sent = false) :
    s.closed = false ∧ s.results.length < c.tasks := by
  constructor
  · rw [Bool.eq_false_iff]
    intro hclosed
    have hpos := h.unfinished_pos hi ha
    have hzero := h.closed hclosed
    omega
  · have hcount := countP_eraseIdx Stage.sent hi
    have hle := List.countP_le_length (l := s.stages.eraseIdx i) (p := Stage.sent)
    have hlt := (List.getElem?_eq_some_iff.mp hi).1
    have hlength := List.length_eraseIdx_of_lt hlt
    have hresults := h.results
    have htasks := h.length
    rw [hsent, Bool.toNat_false] at hcount
    omega

theorem moves_of_step {c : Config} {s u : State R} {l : Label R} (h : Counted c s)
    (hstep : step c s l = some u) : Moves c s l u := by
  cases l with
  | acquire i =>
    simp only [step] at hstep
    split at hstep
    · split at hstep
      · obtain rfl := Option.some.inj hstep
        exact .acquire ‹_› ‹_›
      · cases hstep
    · cases hstep
  | refuse i =>
    simp only [step] at hstep
    split at hstep
    · split at hstep
      · rename_i hc
        obtain rfl := Option.some.inj hstep
        rw [Bool.and_eq_true] at hc
        exact .refuse ‹_› hc.2 hc.1
      · cases hstep
    · cases hstep
  | answer i r =>
    simp only [step] at hstep
    split at hstep
    · obtain rfl := Option.some.inj hstep
      exact .answer ‹_›
    · cases hstep
  | send i =>
    simp only [step] at hstep
    split at hstep
    · rename_i r hi
      obtain ⟨hopen, hroom⟩ := h.can_send hi rfl rfl
      rw [State.report, hopen, if_neg Bool.false_ne_true, if_pos hroom] at hstep
      obtain rfl := Option.some.inj hstep
      exact .send hi (.inl ⟨r, rfl, rfl, rfl⟩) hopen
    · rename_i hi
      obtain ⟨hopen, hroom⟩ := h.can_send hi rfl rfl
      rw [State.report, hopen, if_neg Bool.false_ne_true, if_pos hroom] at hstep
      obtain rfl := Option.some.inj hstep
      exact .send hi (.inr ⟨rfl, rfl, rfl⟩) hopen
    · cases hstep
  | release i =>
    simp only [step] at hstep
    split at hstep
    · split at hstep
      · obtain rfl := Option.some.inj hstep
        exact .release ‹_›
      · cases hstep
    · cases hstep
  | done i =>
    simp only [step] at hstep
    split at hstep
    · rename_i hi
      rw [if_pos (h.unfinished_pos hi rfl)] at hstep
      obtain rfl := Option.some.inj hstep
      exact .done hi (h.unfinished_pos hi rfl)
    · cases hstep
  | cancel =>
    obtain rfl := Option.some.inj hstep
    exact .cancel
  | close =>
    simp only [step] at hstep
    split at hstep
    · rename_i hc
      obtain rfl := Option.some.inj hstep
      exact .close hc.1 hc.2
    · cases hstep

/-- The move of one goroutine keeps the tallies when the counters follow it. -/
theorem Counted.move {c : Config} {s : State R} (h : Counted c s) {i : ℕ} {a b : Stage R}
    (hi : s.stages[i]? = some a) (ha : a.unfinished = true) {slots waitGroup : ℕ}
    {results : List (ℕ × Option R)} (hslots : slots + a.holds.toNat = s.slots + b.holds.toNat)
    (hbound : slots ≤ c.capacity)
    (hgroup : waitGroup + a.unfinished.toNat = s.waitGroup + b.unfinished.toNat)
    (hresults : results.length + a.sent.toNat ≤ s.results.length + b.sent.toNat) :
    Counted c { s.move i b with slots, waitGroup, results } where
  length := List.length_set.trans h.length
  slots := by
    have hcount := countP_set_add Stage.holds hi b
    have hbefore := h.slots
    dsimp only [State.move]
    omega
  bound := hbound
  waitGroup := by
    have hcount := countP_set_add Stage.unfinished hi b
    have hbefore := h.waitGroup
    dsimp only [State.move]
    omega
  results := by
    have hcount := countP_set_add Stage.sent hi b
    have hbefore := h.results
    dsimp only [State.move]
    omega
  closed := fun hclosed => by
    have hpos := h.unfinished_pos hi ha
    have hzero := h.closed hclosed
    omega
  panicked := h.panicked

theorem Counted.of_moves {c : Config} {s u : State R} {l : Label R} (h : Counted c s)
    (hmove : Moves c s l u) : Counted c u := by
  cases hmove with
  | acquire hi hslots => exact h.move hi rfl rfl hslots rfl le_rfl
  | refuse hi => exact h.move hi rfl rfl h.bound rfl le_rfl
  | answer hi =>
    cases c.reports with
    | true => exact h.move hi rfl rfl h.bound rfl le_rfl
    | false => exact h.move hi rfl rfl h.bound rfl (Nat.le_succ _)
  | send hi ha =>
    rcases ha with ⟨r, rfl, rfl, rfl⟩ | ⟨rfl, rfl, rfl⟩
    · exact h.move hi rfl rfl h.bound rfl (by simp [Stage.sent])
    · exact h.move hi rfl rfl h.bound rfl (by simp [Stage.sent])
  | @release i hi =>
    have hpos : 0 < s.slots := by
      rw [h.slots]
      exact List.countP_pos_iff.mpr ⟨_, List.mem_of_getElem? hi, rfl⟩
    refine h.move hi rfl ?_ ((Nat.sub_le _ _).trans h.bound) rfl le_rfl
    simp only [Stage.holds, Bool.toNat_true, Bool.toNat_false]
    omega
  | done hi hgroup =>
    refine h.move hi rfl rfl h.bound ?_ le_rfl
    simp only [Stage.unfinished, Bool.toNat_true, Bool.toNat_false]
    omega
  | cancel => exact ⟨h.length, h.slots, h.bound, h.waitGroup, h.results, h.closed, h.panicked⟩
  | close hgroup => exact ⟨h.length, h.slots, h.bound, h.waitGroup, h.results, fun _ => hgroup, h.panicked⟩

theorem counted_of_runs {c : Config} {s : State R} {ls : List (Label R)}
    (h : Runs (Fires (step c)) (start c) ls s) : Counted c s :=
  h.invariant (counted_start c) fun _ _ _ hc hstep => hc.of_moves (moves_of_step hc hstep)

/-! ## Bounded, without panics, and never stuck -/

def Stage.isRunning : Stage R → Bool
  | .running => true
  | _ => false

/-- At most so many operations are under way, and what follows an operation neither blocks nor
panics. -/
structure Orderly (c : Config) (s : State R) : Prop where
  bound : s.stages.countP Stage.isRunning ≤ c.capacity
  panicked : s.panicked = false
  sends : ∀ i a, s.stages[i]? = some a → (∃ r, a = .answered r) ∨ a = .refused →
    (step c s (.send i)).isSome = true
  releases : ∀ i, s.stages[i]? = some (.leaving true) → (step c s (.release i)).isSome = true
  leaves : ∀ i, s.stages[i]? = some (.leaving false) → (step c s (.done i)).isSome = true

theorem Counted.orderly {c : Config} {s : State R} (h : Counted c s) : Orderly c s where
  bound := by
    have hle : s.stages.countP Stage.isRunning ≤ s.stages.countP Stage.holds := by
      refine List.countP_mono_left fun a _ ha => ?_
      cases a with
      | running => rfl
      | _ => cases ha
    have hslots := h.slots
    have hbound := h.bound
    omega
  panicked := h.panicked
  sends := by
    rintro i a hi (⟨r, rfl⟩ | rfl)
    · obtain ⟨hopen, hroom⟩ := h.can_send hi rfl rfl
      simp [step, hi, State.report, hopen, hroom]
    · obtain ⟨hopen, hroom⟩ := h.can_send hi rfl rfl
      simp [step, hi, State.report, hopen, hroom]
  releases := by
    intro i hi
    have hpos : 0 < s.slots := by
      rw [h.slots]
      exact List.countP_pos_iff.mpr ⟨_, List.mem_of_getElem? hi, rfl⟩
    simp [step, hi, hpos]
  leaves := by
    intro i hi
    simp [step, hi, h.unfinished_pos hi rfl]

theorem orderly_of_runs {c : Config} {s : State R} {ls : List (Label R)}
    (h : Runs (Fires (step c)) (start c) ls s) : Orderly c s :=
  (counted_of_runs h).orderly

/-- The steps that a goroutine has before it. -/
def Stage.remaining : Stage R → ℕ
  | .waiting => 5
  | .running => 4
  | .answered _ => 3
  | .refused => 2
  | .leaving true => 2
  | .leaving false => 1
  | .finished => 0

def State.remaining (s : State R) : ℕ :=
  (s.stages.map Stage.remaining).sum + (!s.closed).toNat

def Label.isCancel : Label R → Bool
  | .cancel => true
  | _ => false

theorem Moves.remaining_lt {c : Config} {s u : State R} {l : Label R} (h : Moves c s l u)
    (hl : l.isCancel = false) : u.remaining < s.remaining := by
  cases h with
  | acquire hi =>
    have hsum := sum_set_add Stage.remaining hi .running
    simp only [State.remaining, State.move, Stage.remaining] at hsum ⊢
    omega
  | refuse hi =>
    have hsum := sum_set_add Stage.remaining hi .refused
    simp only [State.remaining, State.move, Stage.remaining] at hsum ⊢
    omega
  | @answer i r hi =>
    have hsum := sum_set_add Stage.remaining hi (if c.reports then .answered r else .leaving true)
    have hremaining : (if c.reports then Stage.answered r else .leaving true).remaining ≤ 3 := by
      cases c.reports with
      | true => exact le_rfl
      | false => exact Nat.le_succ 2
    simp only [State.remaining, State.move] at hsum ⊢
    rw [show (Stage.running : Stage R).remaining = 4 from rfl] at hsum
    omega
  | send hi ha =>
    rcases ha with ⟨r, rfl, rfl, rfl⟩ | ⟨rfl, rfl, rfl⟩
    · have hsum := sum_set_add Stage.remaining hi (.leaving true)
      simp only [State.remaining, State.move, Stage.remaining] at hsum ⊢
      omega
    · have hsum := sum_set_add Stage.remaining hi (.leaving false)
      simp only [State.remaining, State.move, Stage.remaining] at hsum ⊢
      omega
  | release hi =>
    have hsum := sum_set_add Stage.remaining hi (.leaving false)
    simp only [State.remaining, State.move, Stage.remaining] at hsum ⊢
    omega
  | done hi =>
    have hsum := sum_set_add Stage.remaining hi .finished
    simp only [State.remaining, State.move, Stage.remaining] at hsum ⊢
    omega
  | cancel => cases hl
  | close hgroup hopen => simp [State.remaining, hopen]

theorem steps_le {c : Config} {s : State R} {ls : List (Label R)}
    (h : Runs (Fires (step c)) (start c) ls s) :
    ls.countP (fun l => !l.isCancel) + s.remaining ≤ 5 * c.tasks + 1 := by
  induction h with
  | refl => simp [State.remaining, start, Stage.remaining, Nat.mul_comm]
  | @tail u v ls l run last ih =>
    have hmove := moves_of_step (counted_of_runs run) last
    rw [List.countP_append, List.countP_singleton]
    cases hl : l.isCancel with
    | true =>
      have hsame : v.remaining = u.remaining := by
        cases hmove with
        | cancel => rfl
        | _ => cases hl
      simpa [hsame] using ih
    | false =>
      have hlt := hmove.remaining_lt hl
      simp only [Bool.not_false, if_true]
      omega

theorem Counted.can_go_on [Nonempty R] {c : Config} {s : State R} (h : Counted c s) {i : ℕ} {a : Stage R}
    (hi : s.stages[i]? = some a) (hunfinished : a.unfinished = true) (hwaiting : a ≠ .waiting) :
    ∃ l, l.isCancel = false ∧ (step c s l).isSome = true := by
  cases a with
  | waiting => exact absurd rfl hwaiting
  | running =>
    obtain ⟨r⟩ := ‹Nonempty R›
    exact ⟨.answer i r, rfl, by simp [step, hi]⟩
  | answered r => exact ⟨.send i, rfl, h.orderly.sends i _ hi (.inl ⟨r, rfl⟩)⟩
  | refused => exact ⟨.send i, rfl, h.orderly.sends i _ hi (.inr rfl)⟩
  | leaving holds =>
    cases holds with
    | true => exact ⟨.release i, rfl, h.orderly.releases i hi⟩
    | false => exact ⟨.done i, rfl, h.orderly.leaves i hi⟩
  | finished => cases hunfinished

theorem Counted.can_step [Nonempty R] {c : Config} {s : State R} (h : Counted c s)
    (hcapacity : 0 < c.capacity) (hopen : s.closed = false) :
    ∃ l, l.isCancel = false ∧ (step c s l).isSome = true := by
  by_cases hgroup : s.waitGroup = 0
  · exact ⟨.close, rfl, by simp [step, hgroup, hopen]⟩
  have hpos : 0 < s.stages.countP Stage.unfinished := by
    have hcount := h.waitGroup
    omega
  obtain ⟨a, ha, hunfinished⟩ := List.countP_pos_iff.mp hpos
  obtain ⟨i, hi⟩ := List.mem_iff_getElem?.mp ha
  by_cases hwaiting : a = .waiting
  · subst hwaiting
    by_cases hslots : s.slots < c.capacity
    · exact ⟨.acquire i, rfl, by simp [step, hi, hslots]⟩
    · have hheld : 0 < s.stages.countP Stage.holds := by
        have hcount := h.slots
        omega
      obtain ⟨b, hb, hholds⟩ := List.countP_pos_iff.mp hheld
      obtain ⟨j, hj⟩ := List.mem_iff_getElem?.mp hb
      refine h.can_go_on hj ?_ ?_
      · cases b with
        | finished => cases hholds
        | _ => rfl
      · rintro rfl
        cases hholds
  · exact h.can_go_on hi hunfinished hwaiting

/-! ## What the results are -/

def Label.answerOf (i : ℕ) : Label R → Option R
  | .answer j r => if j = i then some r else none
  | _ => none

def Label.startsAt (i : ℕ) : Label R → Bool
  | .acquire j => j = i
  | _ => false

def answersOf (i : ℕ) (ls : List (Label R)) : List R := ls.filterMap (Label.answerOf i)

def calls (i : ℕ) (ls : List (Label R)) : ℕ := ls.countP (Label.startsAt i)

/-- A goroutine has called its operation once, which has answered, or it gave up without a call. -/
structure Outcome (c : Config) (s : State R) (ls : List (Label R)) (i : ℕ) (o : Option R) : Prop where
  answers : answersOf i ls = o.toList
  calls : calls i ls = o.toList.length
  refused : o = none → c.cancellable = true ∧ s.cancelled = true

def Told (c : Config) (s : State R) (ls : List (Label R)) (i : ℕ) : Stage R → Prop
  | .waiting => answersOf i ls = [] ∧ calls i ls = 0
  | .running => answersOf i ls = [] ∧ calls i ls = 1
  | .answered r => Outcome c s ls i (some r)
  | .refused => Outcome c s ls i none
  | .leaving _ | .finished => ∃ o, Outcome c s ls i o ∧ (c.reports = true → (i, o) ∈ s.results)

/-- What the channel holds is what the goroutines were answered. -/
structure Recorded (c : Config) (ls : List (Label R)) (s : State R) : Prop where
  told : ∀ i a, s.stages[i]? = some a → Told c s ls i a
  once : (s.results.map Prod.fst).Nodup
  sent : ∀ e ∈ s.results, ∃ a, s.stages[e.1]? = some a ∧ a.sent = true

theorem answersOf_concat (i : ℕ) (ls : List (Label R)) (l : Label R) :
    answersOf i (ls ++ [l]) = answersOf i ls ++ (l.answerOf i).toList := by
  rw [answersOf, List.filterMap_append, ← answersOf]
  cases h : l.answerOf i <;> simp [h]

theorem calls_concat (i : ℕ) (ls : List (Label R)) (l : Label R) :
    calls i (ls ++ [l]) = calls i ls + (l.startsAt i).toNat := countP_concat _ _ _

theorem Outcome.later {c : Config} {s u : State R} {ls : List (Label R)} {l : Label R} {i : ℕ}
    {o : Option R} (h : Outcome c s ls i o) (hanswer : l.answerOf i = none)
    (hstart : l.startsAt i = false) (hcancelled : s.cancelled = true → u.cancelled = true) :
    Outcome c u (ls ++ [l]) i o where
  answers := by rw [answersOf_concat, hanswer, h.answers, Option.toList_none, List.append_nil]
  calls := by rw [calls_concat, hstart, h.calls, Bool.toNat_false, Nat.add_zero]
  refused := fun ho => ⟨(h.refused ho).1, hcancelled (h.refused ho).2⟩

/-- A step that is not the goroutine's leaves it what it was told. -/
theorem Told.later {c : Config} {s u : State R} {ls : List (Label R)} {l : Label R} {i : ℕ}
    {a : Stage R} (h : Told c s ls i a) (hanswer : l.answerOf i = none) (hstart : l.startsAt i = false)
    (hcancelled : s.cancelled = true → u.cancelled = true) (hresults : s.results ⊆ u.results) :
    Told c u (ls ++ [l]) i a := by
  cases a with
  | waiting =>
    exact ⟨by rw [answersOf_concat, hanswer, h.1]; rfl, by rw [calls_concat, hstart, h.2]; rfl⟩
  | running =>
    exact ⟨by rw [answersOf_concat, hanswer, h.1]; rfl, by rw [calls_concat, hstart, h.2]; rfl⟩
  | answered r => exact Outcome.later h hanswer hstart hcancelled
  | refused => exact Outcome.later h hanswer hstart hcancelled
  | leaving holds =>
    obtain ⟨o, ho, hsent⟩ := h
    exact ⟨o, ho.later hanswer hstart hcancelled, fun hr => hresults (hsent hr)⟩
  | finished =>
    obtain ⟨o, ho, hsent⟩ := h
    exact ⟨o, ho.later hanswer hstart hcancelled, fun hr => hresults (hsent hr)⟩

def Label.owner : Label R → Option ℕ
  | .acquire i | .refuse i | .answer i _ | .send i | .release i | .done i => some i
  | .cancel | .close => none

theorem Label.answerOf_other {l : Label R} {i : ℕ} (h : l.owner ≠ some i) : l.answerOf i = none := by
  cases l with
  | answer j r => exact if_neg fun hj => h (congrArg some hj)
  | _ => rfl

theorem Label.startsAt_other {l : Label R} {i : ℕ} (h : l.owner ≠ some i) : l.startsAt i = false := by
  cases l with
  | acquire j => exact decide_eq_false fun hj => h (congrArg some hj)
  | _ => rfl

/-- A goroutine moves on and knows what it was told; the others are not concerned. -/
theorem Recorded.move {c : Config} {s u : State R} {ls : List (Label R)} {l : Label R} {i : ℕ}
    {b : Stage R} (h : Recorded c ls s) (hi : i < s.stages.length) (howner : l.owner = some i)
    (hstages : u.stages = s.stages.set i b) (hcancelled : u.cancelled = s.cancelled)
    (hresults : s.results ⊆ u.results) (htold : Told c u (ls ++ [l]) i b)
    (honce : (u.results.map Prod.fst).Nodup)
    (hsent : ∀ e ∈ u.results, e ∈ s.results ∧ (e.1 = i → b.sent = true) ∨ e.1 = i ∧ b.sent = true) :
    Recorded c (ls ++ [l]) u where
  told := by
    intro j a hj
    rw [hstages, List.getElem?_set] at hj
    by_cases hij : i = j
    · subst hij
      rw [if_pos rfl, if_pos hi] at hj
      exact Option.some.inj hj ▸ htold
    · rw [if_neg hij] at hj
      have hne : l.owner ≠ some j := by
        rw [howner]
        exact fun heq => hij (Option.some.inj heq)
      exact (h.told j a hj).later (Label.answerOf_other hne) (Label.startsAt_other hne)
        (fun hc => hcancelled ▸ hc) hresults
  once := honce
  sent := by
    intro e he
    rw [hstages]
    by_cases hij : i = e.1
    · refine ⟨b, by rw [← hij, List.getElem?_set, if_pos rfl, if_pos hi], ?_⟩
      rcases hsent e he with ⟨-, hb⟩ | ⟨-, hb⟩
      · exact hb hij.symm
      · exact hb
    · rcases hsent e he with ⟨hold, -⟩ | ⟨heq, -⟩
      · obtain ⟨a, ha, hs⟩ := h.sent e hold
        exact ⟨a, by rw [List.getElem?_set, if_neg hij]; exact ha, hs⟩
      · exact absurd heq.symm hij

/-- A step that is no goroutine's. -/
theorem Recorded.aside {c : Config} {s u : State R} {ls : List (Label R)} {l : Label R}
    (h : Recorded c ls s) (howner : l.owner = none) (hstages : u.stages = s.stages)
    (hresults : u.results = s.results) (hcancelled : s.cancelled = true → u.cancelled = true) :
    Recorded c (ls ++ [l]) u where
  told := fun i a hi => by
    have hne : l.owner ≠ some i := by simp [howner]
    exact (h.told i a (hstages ▸ hi)).later (Label.answerOf_other hne) (Label.startsAt_other hne)
      hcancelled (hresults ▸ List.Subset.refl _)
  once := hresults ▸ h.once
  sent := fun e he => by
    rw [hstages]
    exact h.sent e (hresults ▸ he)

theorem recorded_start (c : Config) : Recorded c [] (start c : State R) where
  told := by
    intro i a hi
    obtain rfl := List.eq_of_mem_replicate (List.mem_of_getElem? hi)
    exact ⟨rfl, rfl⟩
  once := List.nodup_nil
  sent := fun e he => by cases he

theorem lt_length {s : State R} {i : ℕ} {a : Stage R} (h : s.stages[i]? = some a) :
    i < s.stages.length := (List.getElem?_eq_some_iff.mp h).1

theorem Recorded.not_sent {c : Config} {s : State R} {ls : List (Label R)} (h : Recorded c ls s)
    {i : ℕ} {a : Stage R} (hi : s.stages[i]? = some a) (ha : a.sent = false) :
    ∀ e ∈ s.results, e.1 ≠ i := by
  rintro e he rfl
  obtain ⟨b, hb, hsent⟩ := h.sent e he
  obtain rfl := Option.some.inj (hb.symm.trans hi)
  rw [ha] at hsent
  cases hsent

theorem Recorded.of_moves {c : Config} {s u : State R} {ls : List (Label R)} {l : Label R}
    (h : Recorded c ls s) (hmove : Moves c s l u) : Recorded c (ls ++ [l]) u := by
  cases hmove with
  | @acquire i hi =>
    obtain ⟨hanswers, hcalls⟩ := h.told i _ hi
    refine h.move (lt_length hi) rfl rfl rfl (List.Subset.refl _) ⟨?_, ?_⟩ h.once fun e he =>
      .inl ⟨he, fun heq => absurd heq (h.not_sent hi rfl e he)⟩
    · rw [answersOf_concat, hanswers]
      rfl
    · rw [calls_concat, hcalls, Label.startsAt, decide_eq_true rfl]
      rfl
  | @refuse i hi hcancelled hcancellable =>
    obtain ⟨hanswers, hcalls⟩ := h.told i _ hi
    refine h.move (lt_length hi) rfl rfl rfl (List.Subset.refl _) ⟨?_, ?_, fun _ => ⟨hcancellable, hcancelled⟩⟩
      h.once fun e he => .inl ⟨he, fun heq => absurd heq (h.not_sent hi rfl e he)⟩
    · rw [answersOf_concat, hanswers]
      rfl
    · rw [calls_concat, hcalls]
      rfl
  | @answer i r hi =>
    obtain ⟨hanswers, hcalls⟩ := h.told i _ hi
    have houtcome : Outcome c (s.move i (if c.reports then .answered r else .leaving true))
        (ls ++ [.answer i r]) i (some r) := by
      refine ⟨?_, ?_, fun hnone => by cases hnone⟩
      · rw [answersOf_concat, hanswers, Label.answerOf, if_pos rfl]
        rfl
      · rw [calls_concat, hcalls]
        rfl
    refine h.move (lt_length hi) rfl rfl rfl (List.Subset.refl _) ?_ h.once fun e he =>
      .inl ⟨he, fun heq => absurd heq (h.not_sent hi rfl e he)⟩
    cases hreports : c.reports with
    | true =>
      rw [hreports] at houtcome
      exact houtcome
    | false =>
      rw [hreports] at houtcome
      exact ⟨some r, houtcome, fun hr => by rw [hreports] at hr; cases hr⟩
  | @send i a result holds hi ha =>
    have houtcome : Outcome c s ls i result ∧ a.sent = false := by
      have htold := h.told i a hi
      rcases ha with ⟨r, rfl, rfl, rfl⟩ | ⟨rfl, rfl, rfl⟩
      · exact ⟨htold, rfl⟩
      · exact ⟨htold, rfl⟩
    have hnone := h.not_sent hi houtcome.2
    refine h.move (lt_length hi) rfl rfl rfl (List.subset_append_left _ _)
      ⟨result, houtcome.1.later rfl rfl id, fun _ => List.mem_append_right _ (List.mem_singleton_self _)⟩
      ?_ fun e he => ?_
    · rw [List.map_append, List.map_singleton, List.nodup_append]
      refine ⟨h.once, List.nodup_singleton _, ?_⟩
      rintro _ hmem _ hlast rfl
      obtain ⟨e, he, heq⟩ := List.mem_map.mp hmem
      exact hnone e he (heq.trans (List.mem_singleton.mp hlast))
    · rcases List.mem_append.mp he with he | he
      · exact .inl ⟨he, fun heq => absurd heq (hnone e he)⟩
      · obtain rfl := List.mem_singleton.mp he
        exact .inr ⟨rfl, rfl⟩
  | @release i hi =>
    obtain ⟨o, houtcome, hsent⟩ := h.told i _ hi
    exact h.move (lt_length hi) rfl rfl rfl (List.Subset.refl _) ⟨o, houtcome.later rfl rfl id, hsent⟩
      h.once fun e he => .inl ⟨he, fun _ => rfl⟩
  | @done i hi =>
    obtain ⟨o, houtcome, hsent⟩ := h.told i _ hi
    exact h.move (lt_length hi) rfl rfl rfl (List.Subset.refl _) ⟨o, houtcome.later rfl rfl id, hsent⟩
      h.once fun e he => .inl ⟨he, fun _ => rfl⟩
  | cancel => exact h.aside rfl rfl rfl fun _ => rfl
  | close => exact h.aside rfl rfl rfl id

theorem recorded_of_runs {c : Config} {s : State R} {ls : List (Label R)}
    (h : Runs (Fires (step c)) (start c) ls s) : Recorded c ls s := by
  induction h with
  | refl => exact recorded_start c
  | tail run last ih => exact ih.of_moves (moves_of_step (counted_of_runs run) last)

def outcome (ls : List (Label R)) (i : ℕ) : ℕ × Option R := (i, (answersOf i ls).head?)

theorem outcome_of_closed {c : Config} {s : State R} {ls : List (Label R)}
    (h : Runs (Fires (step c)) (start c) ls s) (hclosed : s.closed = true) {i : ℕ} (hi : i < c.tasks) :
    Outcome c s ls i (outcome ls i).2 ∧ (c.reports = true → outcome ls i ∈ s.results) := by
  have hcounted := counted_of_runs h
  have hlt : i < s.stages.length := hcounted.length ▸ hi
  obtain ⟨a, hat⟩ : ∃ a, s.stages[i]? = some a := ⟨_, List.getElem?_eq_getElem hlt⟩
  have htold := (recorded_of_runs h).told i a hat
  have hfinished : a.unfinished = false := by
    rw [Bool.eq_false_iff]
    intro hun
    have hpos := hcounted.unfinished_pos hat hun
    have hzero := hcounted.closed hclosed
    omega
  cases a with
  | finished =>
    obtain ⟨o, ho, hsent⟩ := htold
    have heq : outcome ls i = (i, o) := by
      rw [outcome, ho.answers, Option.head?_toList]
    rw [heq]
    exact ⟨ho, hsent⟩
  | _ => cases hfinished

theorem results_perm {c : Config} {s : State R} {ls : List (Label R)}
    (h : Runs (Fires (step c)) (start c) ls s) (hclosed : s.closed = true) (hreports : c.reports = true) :
    s.results.Perm ((List.range c.tasks).map (outcome ls)) := by
  have hrecorded := recorded_of_runs h
  have hcounted := counted_of_runs h
  refine (List.perm_ext_iff_of_nodup (List.Nodup.of_map _ hrecorded.once) ?_).mpr fun e => ?_
  · refine List.Nodup.map (fun i j hij => congrArg Prod.fst hij) List.nodup_range
  · rw [List.mem_map]
    constructor
    · intro he
      obtain ⟨a, ha, -⟩ := hrecorded.sent e he
      have hlt : e.1 < c.tasks := hcounted.length ▸ lt_length ha
      refine ⟨e.1, List.mem_range.mpr hlt, ?_⟩
      exact List.inj_on_of_nodup_map hrecorded.once ((outcome_of_closed h hclosed hlt).2 hreports) he rfl
    · rintro ⟨i, hi, rfl⟩
      exact (outcome_of_closed h hclosed (List.mem_range.mp hi)).2 hreports

end SubscriptionRouter.BoundedFanout
