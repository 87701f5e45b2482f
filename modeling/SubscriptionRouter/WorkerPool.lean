import Mathlib
import SubscriptionRouter.Tallies
import SubscriptionRouter.Transitions

set_option autoImplicit false

/-!
# Worker pools

A sender hands the numbers of jobs, in order, to whichever worker is free, over a channel without a
buffer, and closes the channel after the last one or when the context is cancelled. A worker sends a
result for each job and ends when the channel is closed; the results are closed when all workers have
ended, while their receiver goes over them.
-/
namespace SubscriptionRouter.WorkerPool
open Transitions Tallies

variable {R : Type}

inductive Worker (R : Type) where
  | free
  | working (job : ℕ)
  | answered (job : ℕ) (r : R)
  | ended

structure State (R : Type) where
  /-- The job that is handed out next. -/
  next : ℕ
  jobsClosed : Bool
  cancelled : Bool
  workers : List (Worker R)
  waitGroup : ℕ
  /-- What is in the channel of results. -/
  results : List (ℕ × R)
  resultsClosed : Bool
  received : List (ℕ × R)
  panicked : Bool

inductive Label (R : Type) where
  | hand (w : ℕ)
  | closeJobs
  | answer (w job : ℕ) (r : R)
  | send (w : ℕ)
  | leave (w : ℕ)
  | closeResults
  | receive
  | cancel

def start (workers : ℕ) : State R where
  next := 0
  jobsClosed := false
  cancelled := false
  workers := List.replicate workers .free
  waitGroup := workers
  results := []
  resultsClosed := false
  received := []
  panicked := false

def State.move (s : State R) (w : ℕ) (worker : Worker R) : State R :=
  { s with workers := s.workers.set w worker }

/-- `jobs` is their number, which is the room in the channel of results too. -/
def step (jobs : ℕ) (s : State R) : Label R → Option (State R)
  | .hand w => match s.workers[w]? with
    | some .free =>
      if s.jobsClosed = false ∧ s.next < jobs then
        some { s.move w (.working s.next) with next := s.next + 1 }
      else none
    | _ => none
  | .closeJobs =>
    if s.jobsClosed = false ∧ (s.next = jobs ∨ s.cancelled = true) then
      some { s with jobsClosed := true }
    else none
  | .answer w job r => match s.workers[w]? with
    | some (.working j) => if j = job then some (s.move w (.answered job r)) else none
    | _ => none
  | .send w => match s.workers[w]? with
    | some (.answered job r) =>
      if s.resultsClosed then some { s with panicked := true }
      else if s.results.length < jobs then
        some { s.move w .free with results := s.results ++ [(job, r)] }
      else none
    | _ => none
  | .leave w => match s.workers[w]? with
    | some .free =>
      if s.jobsClosed then
        if 0 < s.waitGroup then some { s.move w .ended with waitGroup := s.waitGroup - 1 }
        else some { s with panicked := true }
      else none
    | _ => none
  | .closeResults =>
    if s.waitGroup = 0 ∧ s.resultsClosed = false then some { s with resultsClosed := true } else none
  | .receive => match s.results with
    | [] => none
    | result :: rest => some { s with results := rest, received := s.received ++ [result] }
  | .cancel => some { s with cancelled := true }

def State.isOver (s : State R) : Prop := s.resultsClosed = true ∧ s.results = []

/-- The job that a worker has, with its answer. -/
def Worker.place : Worker R → Option (ℕ × Option R)
  | .working job => some (job, none)
  | .answered job r => some (job, some r)
  | _ => none

def Worker.active : Worker R → Bool
  | .ended => false
  | _ => true

/-- The jobs that have been handed out, wherever they are now, with their answers. -/
def State.places (s : State R) : List (ℕ × Option R) :=
  s.workers.filterMap Worker.place ++ (s.results ++ s.received).map fun e => (e.1, some e.2)

def Label.answerOf (job : ℕ) : Label R → Option R
  | .answer _ j r => if j = job then some r else none
  | _ => none

def answersOf (job : ℕ) (ls : List (Label R)) : List R := ls.filterMap (Label.answerOf job)

/-! ## Every job is in one place -/

theorem filterMap_set {A B : Type} (f : A → Option B) {l : List A} {i : ℕ} (hi : i < l.length) (y : A) :
    ((l.set i y).filterMap f).Perm ((f y).toList ++ (l.eraseIdx i).filterMap f) := by
  rw [List.set_eq_take_append_cons_drop, if_pos hi, List.eraseIdx_eq_take_drop_succ,
    List.filterMap_append, List.filterMap_append]
  cases hy : f y with
  | none =>
    rw [List.filterMap_cons_none hy, Option.toList_none, List.nil_append]
  | some b =>
    rw [List.filterMap_cons_some hy, Option.toList_some, List.singleton_append]
    exact List.perm_middle

theorem filterMap_at {A B : Type} (f : A → Option B) {l : List A} {i : ℕ} {x : A} (h : l[i]? = some x) :
    (l.filterMap f).Perm ((f x).toList ++ (l.eraseIdx i).filterMap f) := by
  obtain ⟨hi, hx⟩ := List.getElem?_eq_some_iff.mp h
  have hset := filterMap_set f hi x
  rwa [← hx, List.set_getElem_self, hx] at hset

theorem filterMap_move {A B : Type} (f : A → Option B) {l : List A} {i : ℕ} {x : A} (h : l[i]? = some x)
    (y : A) : ((l.set i y).filterMap f ++ (f x).toList).Perm (l.filterMap f ++ (f y).toList) := by
  have hset := filterMap_set f (List.getElem?_eq_some_iff.mp h).1 y
  have hat := filterMap_at f h
  calc
    List.Perm _ (((f y).toList ++ (l.eraseIdx i).filterMap f) ++ (f x).toList) := hset.append_right _
    List.Perm _ ((f x).toList ++ ((f y).toList ++ (l.eraseIdx i).filterMap f)) := List.perm_append_comm
    List.Perm _ ((f y).toList ++ ((f x).toList ++ (l.eraseIdx i).filterMap f)) := by
      rw [← List.append_assoc, ← List.append_assoc]
      exact List.perm_append_comm.append_right _
    List.Perm _ ((f y).toList ++ l.filterMap f) := hat.symm.append_left _
    List.Perm _ (l.filterMap f ++ (f y).toList) := List.perm_append_comm

structure Counted (jobs : ℕ) (s : State R) : Prop where
  bound : s.next ≤ jobs
  waitGroup : s.waitGroup = s.workers.countP Worker.active
  ended : s.waitGroup < s.workers.length → s.jobsClosed = true
  resultsClosed : s.resultsClosed = true → s.waitGroup = 0
  jobsClosed : s.jobsClosed = true → s.next = jobs ∨ s.cancelled = true
  panicked : s.panicked = false

/-- Each job that was handed out is in one place, and the answer there is the one it was given. -/
structure Placed (ls : List (Label R)) (s : State R) : Prop where
  handed : (s.places.map Prod.fst).Perm (List.range s.next)
  answers : ∀ e ∈ s.places, answersOf e.1 ls = e.2.toList
  later : ∀ job, s.next ≤ job → answersOf job ls = []

theorem counted_start (jobs workers : ℕ) : Counted jobs (start workers : State R) where
  bound := Nat.zero_le _
  waitGroup := by simp [start, List.countP_replicate, Worker.active]
  ended := fun h => by simp [start] at h
  resultsClosed := fun h => by cases h
  jobsClosed := fun h => by cases h
  panicked := rfl

theorem places_start (workers : ℕ) : (start workers : State R).places = [] := by
  simp [State.places, start, Worker.place]

theorem placed_start (workers : ℕ) : Placed [] (start workers : State R) where
  handed := by
    rw [places_start]
    exact List.Perm.refl _
  answers := fun e he => by
    rw [places_start] at he
    cases he
  later := fun _ _ => rfl

/-- The steps as a relation. -/
inductive Moves (jobs : ℕ) (s : State R) : Label R → State R → Prop where
  | hand {w : ℕ} (hw : s.workers[w]? = some .free) (hopen : s.jobsClosed = false) (hlt : s.next < jobs) :
      Moves jobs s (.hand w) { s.move w (.working s.next) with next := s.next + 1 }
  | closeJobs (hopen : s.jobsClosed = false) (hdone : s.next = jobs ∨ s.cancelled = true) :
      Moves jobs s .closeJobs { s with jobsClosed := true }
  | answer {w job : ℕ} {r : R} (hw : s.workers[w]? = some (.working job)) :
      Moves jobs s (.answer w job r) (s.move w (.answered job r))
  | send {w job : ℕ} {r : R} (hw : s.workers[w]? = some (.answered job r)) :
      Moves jobs s (.send w) { s.move w .free with results := s.results ++ [(job, r)] }
  | leave {w : ℕ} (hw : s.workers[w]? = some .free) (hclosed : s.jobsClosed = true)
      (hpos : 0 < s.waitGroup) :
      Moves jobs s (.leave w) { s.move w .ended with waitGroup := s.waitGroup - 1 }
  | closeResults (hgroup : s.waitGroup = 0) (hopen : s.resultsClosed = false) :
      Moves jobs s .closeResults { s with resultsClosed := true }
  | receive {result : ℕ × R} {rest : List (ℕ × R)} (hresults : s.results = result :: rest) :
      Moves jobs s .receive { s with results := rest, received := s.received ++ [result] }
  | cancel : Moves jobs s .cancel { s with cancelled := true }

theorem Counted.active_pos {jobs : ℕ} {s : State R} (h : Counted jobs s) {w : ℕ} {a : Worker R}
    (hw : s.workers[w]? = some a) (ha : a.active = true) : 0 < s.waitGroup := by
  rw [h.waitGroup]
  exact List.countP_pos_iff.mpr ⟨a, List.mem_of_getElem? hw, ha⟩

theorem Counted.can_send {jobs : ℕ} {ls : List (Label R)} {s : State R} (h : Counted jobs s)
    (hplaced : Placed ls s) {w job : ℕ} {r : R} (hw : s.workers[w]? = some (.answered job r)) :
    s.resultsClosed = false ∧ s.results.length < jobs := by
  constructor
  · rw [Bool.eq_false_iff]
    intro hclosed
    have hpos := h.active_pos hw rfl
    have hzero := h.resultsClosed hclosed
    omega
  · have hlength := hplaced.handed.length_eq
    have hat := (filterMap_at Worker.place hw).length_eq
    rw [List.length_map, State.places, List.length_append, List.length_map, List.length_append,
      List.length_range] at hlength
    rw [List.length_append, show (Worker.answered job r).place.toList.length = 1 from rfl] at hat
    have hbound := h.bound
    omega

theorem Counted.moves {jobs : ℕ} {ls : List (Label R)} {s u : State R} {l : Label R}
    (h : Counted jobs s) (hplaced : Placed ls s) (hstep : step jobs s l = some u) : Moves jobs s l u := by
  cases l with
  | hand w =>
    simp only [step] at hstep
    split at hstep
    · split at hstep
      · rename_i hc
        obtain rfl := Option.some.inj hstep
        exact .hand ‹_› hc.1 hc.2
      · cases hstep
    · cases hstep
  | closeJobs =>
    simp only [step] at hstep
    split at hstep
    · rename_i hc
      obtain rfl := Option.some.inj hstep
      exact .closeJobs hc.1 hc.2
    · cases hstep
  | answer w job r =>
    simp only [step] at hstep
    split at hstep
    · split at hstep
      · rename_i hw hj
        obtain rfl := Option.some.inj hstep
        exact .answer (hj ▸ hw)
      · cases hstep
    · cases hstep
  | send w =>
    simp only [step] at hstep
    split at hstep
    · rename_i hw
      obtain ⟨hopen, hroom⟩ := h.can_send hplaced hw
      rw [hopen, if_neg Bool.false_ne_true, if_pos hroom] at hstep
      obtain rfl := Option.some.inj hstep
      exact .send hw
    · cases hstep
  | leave w =>
    simp only [step] at hstep
    split at hstep
    · rename_i hw
      rw [if_pos (h.active_pos hw rfl)] at hstep
      split at hstep
      · obtain rfl := Option.some.inj hstep
        exact .leave hw ‹_› (h.active_pos hw rfl)
      · cases hstep
    · cases hstep
  | closeResults =>
    simp only [step] at hstep
    split at hstep
    · rename_i hc
      obtain rfl := Option.some.inj hstep
      exact .closeResults hc.1 hc.2
    · cases hstep
  | receive =>
    simp only [step] at hstep
    split at hstep
    · cases hstep
    · obtain rfl := Option.some.inj hstep
      exact .receive ‹_›
  | cancel =>
    obtain rfl := Option.some.inj hstep
    exact .cancel

theorem answersOf_concat (job : ℕ) (ls : List (Label R)) (l : Label R) :
    answersOf job (ls ++ [l]) = answersOf job ls ++ (l.answerOf job).toList := by
  rw [answersOf, List.filterMap_append, ← answersOf]
  cases h : l.answerOf job <;> simp [h]

theorem answersOf_quiet {l : Label R} (h : ∀ job, l.answerOf job = none) (job : ℕ) (ls : List (Label R)) :
    answersOf job (ls ++ [l]) = answersOf job ls := by
  rw [answersOf_concat, h, Option.toList_none, List.append_nil]

/-- The moves of jobs from one place to another. -/
theorem Placed.perm {ls : List (Label R)} {s u : State R} {l : Label R} (h : Placed ls s)
    (hperm : u.places.Perm s.places) (hnext : u.next = s.next) (hquiet : ∀ job, l.answerOf job = none) :
    Placed (ls ++ [l]) u where
  handed := by
    rw [hnext]
    exact (hperm.map _).trans h.handed
  answers := fun e he => by
    rw [answersOf_quiet hquiet]
    exact h.answers e (hperm.mem_iff.mp he)
  later := fun job hle => by
    rw [answersOf_quiet hquiet]
    exact h.later job (hnext ▸ hle)

/-- What a worker's change does to the places. -/
theorem places_workers {s u : State R} {w : ℕ} {a b : Worker R} (hw : s.workers[w]? = some a)
    (hworkers : u.workers = s.workers.set w b) (hresults : u.results = s.results)
    (hreceived : u.received = s.received) :
    (u.places ++ a.place.toList).Perm (s.places ++ b.place.toList) := by
  have hmove := Multiset.coe_eq_coe.mpr (filterMap_move Worker.place hw b)
  refine Multiset.coe_eq_coe.mp ?_
  simp only [State.places, hworkers, hresults, hreceived, ← Multiset.coe_add] at hmove ⊢
  rw [add_right_comm, hmove, add_right_comm]

theorem places_send {s u : State R} {w job : ℕ} {r : R} (hw : s.workers[w]? = some (.answered job r))
    (hworkers : u.workers = s.workers.set w .free) (hresults : u.results = s.results ++ [(job, r)])
    (hreceived : u.received = s.received) : u.places.Perm s.places := by
  have hmove := Multiset.coe_eq_coe.mpr (filterMap_move Worker.place hw .free)
  refine Multiset.coe_eq_coe.mp ?_
  simp only [State.places, hworkers, hresults, hreceived, Worker.place, Option.toList_some,
    Option.toList_none, List.append_nil, List.map_append, List.map_singleton, ← Multiset.coe_add] at hmove ⊢
  rw [← hmove]
  abel

theorem places_receive {s u : State R} {result : ℕ × R} {rest : List (ℕ × R)}
    (hresults : s.results = result :: rest) (hworkers : u.workers = s.workers) (hrest : u.results = rest)
    (hreceived : u.received = s.received ++ [result]) : u.places.Perm s.places := by
  rw [State.places, State.places, hworkers, hrest, hreceived, hresults, ← List.append_assoc,
    List.cons_append]
  exact ((List.perm_append_singleton _ _).map _).append_left _

theorem Placed.of_moves {jobs : ℕ} {ls : List (Label R)} {s u : State R} {l : Label R}
    (h : Placed ls s) (hmove : Moves jobs s l u) : Placed (ls ++ [l]) u := by
  cases hmove with
  | @hand w hw hopen hlt =>
    have hquiet := answersOf_quiet (l := (.hand w : Label R)) fun _ => rfl
    have hplaces := places_workers (u := { s.move w (.working s.next) with next := s.next + 1 }) hw rfl rfl rfl
    simp only [Worker.place, Option.toList_none, Option.toList_some, List.append_nil] at hplaces
    refine ⟨?_, fun e he => ?_, fun job hle => ?_⟩
    · rw [List.range_succ]
      have hmap := hplaces.map Prod.fst
      rw [List.map_append] at hmap
      exact hmap.trans (h.handed.append_right _)
    · rw [hquiet]
      rcases List.mem_append.mp (hplaces.mem_iff.mp he) with he | he
      · exact h.answers e he
      · obtain rfl := List.mem_singleton.mp he
        exact h.later _ le_rfl
    · rw [hquiet]
      exact h.later job (Nat.le_of_succ_le hle)
  | @answer w job r hw =>
    have hplaces := places_workers (u := s.move w (.answered job r)) hw rfl rfl rfl
    have hmem : (job, none) ∈ s.places :=
      List.mem_append_left _ (List.mem_filterMap.mpr ⟨_, List.mem_of_getElem? hw, rfl⟩)
    obtain ⟨front, back, hsplit⟩ := List.append_of_mem hmem
    have hold : s.places.Perm ((job, none) :: (front ++ back)) := hsplit ▸ List.perm_middle
    -- the job's place is the only one that changes
    have hnew : (s.move w (.answered job r)).places.Perm ((job, some r) :: (front ++ back)) := by
      simp only [Worker.place, Option.toList_some] at hplaces
      refine (List.perm_append_right_iff [(job, none)]).mp ?_
      calc
        List.Perm _ (s.places ++ [(job, some r)]) := hplaces
        List.Perm _ ((job, none) :: (front ++ back) ++ [(job, some r)]) := hold.append_right _
        List.Perm _ ((job, some r) :: (job, none) :: (front ++ back)) := List.perm_append_singleton _ _
        List.Perm _ ((job, none) :: (job, some r) :: (front ++ back)) := List.Perm.swap _ _ _
        List.Perm _ ((job, some r) :: (front ++ back) ++ [(job, none)]) :=
          (List.perm_append_singleton _ _).symm
    have hkeys := (hold.map Prod.fst).symm.trans h.handed
    have hother : ∀ e ∈ front ++ back, e.1 ≠ job := by
      rintro e he rfl
      have hnodup := hkeys.nodup_iff.mpr List.nodup_range
      exact (List.nodup_cons.mp hnodup).1 (List.mem_map.mpr ⟨e, he, rfl⟩)
    have hlt : job < s.next := List.mem_range.mp (hkeys.mem_iff.mp List.mem_cons_self)
    have hbefore := h.answers _ hmem
    refine ⟨(hnew.map Prod.fst).trans hkeys, fun e he => ?_, fun other hle => ?_⟩
    · rw [answersOf_concat]
      rcases List.mem_cons.mp (hnew.mem_iff.mp he) with rfl | he
      · rw [hbefore, Label.answerOf, if_pos rfl]
        rfl
      · rw [Label.answerOf, if_neg (Ne.symm (hother e he)), Option.toList_none, List.append_nil]
        exact h.answers e (hold.mem_iff.mpr (List.mem_cons_of_mem _ he))
    · have hne : job ≠ other := Nat.ne_of_lt (Nat.lt_of_lt_of_le hlt hle)
      rw [answersOf_concat, Label.answerOf, if_neg hne, Option.toList_none, List.append_nil]
      exact h.later other hle
  | send hw => exact h.perm (places_send hw rfl rfl rfl) rfl fun _ => rfl
  | @leave w hw hclosed hpos =>
    have hplaces := places_workers (u := { s.move w .ended with waitGroup := s.waitGroup - 1 }) hw rfl rfl rfl
    simp only [Worker.place, Option.toList_none, List.append_nil] at hplaces
    exact h.perm hplaces rfl fun _ => rfl
  | receive hresults => exact h.perm (places_receive hresults rfl rfl rfl) rfl fun _ => rfl
  | closeJobs => exact h.perm (List.Perm.refl _) rfl fun _ => rfl
  | closeResults => exact h.perm (List.Perm.refl _) rfl fun _ => rfl
  | cancel => exact h.perm (List.Perm.refl _) rfl fun _ => rfl

theorem Counted.of_moves {jobs : ℕ} {s u : State R} {l : Label R} (h : Counted jobs s)
    (hmove : Moves jobs s l u) : Counted jobs u := by
  cases hmove with
  | @hand w hw hopen hlt =>
    have hcount := countP_set_add Worker.active hw (.working s.next)
    refine ⟨hlt, h.waitGroup.trans (Nat.add_right_cancel hcount).symm, fun hended => ?_, h.resultsClosed,
      fun hc => ?_, h.panicked⟩
    · exact h.ended (by simpa [State.move] using hended)
    · rw [show s.jobsClosed = true from hc] at hopen
      cases hopen
  | closeJobs hopen hdone =>
    exact ⟨h.bound, h.waitGroup, fun _ => rfl, h.resultsClosed, fun _ => hdone, h.panicked⟩
  | @answer w job r hw =>
    have hcount := countP_set_add Worker.active hw (.answered job r)
    refine ⟨h.bound, h.waitGroup.trans (Nat.add_right_cancel hcount).symm, fun hended => ?_,
      h.resultsClosed, h.jobsClosed, h.panicked⟩
    exact h.ended (by simpa [State.move] using hended)
  | @send w job r hw =>
    have hcount := countP_set_add Worker.active hw .free
    refine ⟨h.bound, h.waitGroup.trans (Nat.add_right_cancel hcount).symm, fun hended => ?_,
      h.resultsClosed, h.jobsClosed, h.panicked⟩
    exact h.ended (by simpa [State.move] using hended)
  | @leave w hw hclosed hpos =>
    have hcount := countP_set_add Worker.active hw .ended
    simp only [Worker.active, Bool.toNat_true, Bool.toNat_false] at hcount
    have hgroup := h.waitGroup
    refine ⟨h.bound, ?_, fun _ => hclosed, fun hc => ?_, h.jobsClosed, h.panicked⟩
    · dsimp only [State.move]
      omega
    · have hzero := h.resultsClosed hc
      omega
  | closeResults hgroup hopen =>
    exact ⟨h.bound, h.waitGroup, h.ended, fun _ => hgroup, h.jobsClosed, h.panicked⟩
  | receive hresults =>
    exact ⟨h.bound, h.waitGroup, h.ended, h.resultsClosed, h.jobsClosed, h.panicked⟩
  | cancel =>
    exact ⟨h.bound, h.waitGroup, h.ended, h.resultsClosed,
      fun hc => (h.jobsClosed hc).imp_right fun _ => rfl, h.panicked⟩

theorem of_runs {jobs workers : ℕ} {s : State R} {ls : List (Label R)}
    (h : Runs (Fires (step jobs)) (start workers) ls s) : Counted jobs s ∧ Placed ls s := by
  induction h with
  | refl => exact ⟨counted_start jobs workers, placed_start workers⟩
  | tail _ last ih =>
    have hmove := ih.1.moves ih.2 last
    exact ⟨ih.1.of_moves hmove, ih.2.of_moves hmove⟩

theorem length_of_runs {jobs workers : ℕ} {s : State R} {ls : List (Label R)}
    (h : Runs (Fires (step jobs)) (start workers) ls s) : s.workers.length = workers := by
  induction h with
  | refl => exact List.length_replicate
  | tail run last ih =>
    obtain ⟨hcounted, hplaced⟩ := of_runs run
    cases hcounted.moves hplaced last with
    | hand => exact List.length_set.trans ih
    | answer => exact List.length_set.trans ih
    | send => exact List.length_set.trans ih
    | leave => exact List.length_set.trans ih
    | _ => exact ih

/-! ## What is received -/

/-- When the receiver has gone over all results, the jobs before some number have been answered once
each and their answers received, and no later one was begun; without a cancellation there is none. -/
theorem received_of_runs {jobs workers : ℕ} (hworkers : jobs = 0 ∨ 0 < workers) {s : State R}
    {ls : List (Label R)} (h : Runs (Fires (step jobs)) (start workers) ls s) (hover : s.isOver) :
    (s.received.map Prod.fst).Perm (List.range s.next) ∧ (s.next = jobs ∨ s.cancelled = true) ∧
      s.next ≤ jobs ∧ (∀ e ∈ s.received, answersOf e.1 ls = [e.2]) ∧
      ∀ job, s.next ≤ job → answersOf job ls = [] := by
  obtain ⟨hcounted, hplaced⟩ := of_runs h
  have hzero := hcounted.resultsClosed hover.1
  have hidle : s.workers.filterMap Worker.place = [] := by
    rw [List.filterMap_eq_nil_iff]
    intro a ha
    have hactive : a.active = false := by
      have hcount := hcounted.waitGroup
      rw [hzero, eq_comm, List.countP_eq_zero] at hcount
      exact Bool.eq_false_iff.mpr (hcount a ha)
    cases a with
    | ended => rfl
    | _ => cases hactive
  have hplaces : s.places = s.received.map fun e => (e.1, some e.2) := by
    rw [State.places, hidle, hover.2, List.nil_append, List.nil_append]
  refine ⟨?_, ?_, hcounted.bound, fun e he => ?_, hplaced.later⟩
  · have hhanded := hplaced.handed
    rwa [hplaces, List.map_map] at hhanded
  · rcases hworkers with hjobs | hworkers
    · have hbound := hcounted.bound
      exact .inl (by omega)
    · refine hcounted.jobsClosed (hcounted.ended ?_)
      rw [length_of_runs h, hzero]
      exact hworkers
  · refine hplaced.answers (e.1, some e.2) ?_
    rw [hplaces]
    exact List.mem_map_of_mem he

/-! ## The pool comes to its end -/

def Worker.remaining : Worker R → ℕ
  | .free => 1
  | .working _ => 4
  | .answered _ _ => 3
  | .ended => 0

def State.remaining (jobs : ℕ) (s : State R) : ℕ :=
  4 * (jobs - s.next) + (s.workers.map Worker.remaining).sum + s.results.length +
    (!s.jobsClosed).toNat + (!s.resultsClosed).toNat

def Label.isCancel : Label R → Bool
  | .cancel => true
  | _ => false

theorem Moves.remaining_lt {jobs : ℕ} {s u : State R} {l : Label R} (h : Moves jobs s l u)
    (hl : l.isCancel = false) : u.remaining jobs < s.remaining jobs := by
  cases h with
  | @hand w hw hopen hlt =>
    have hsum := sum_set_add Worker.remaining hw (.working s.next)
    simp only [State.remaining, State.move, Worker.remaining] at hsum ⊢
    omega
  | closeJobs hopen =>
    simp [State.remaining, hopen]
  | @answer w job r hw =>
    have hsum := sum_set_add Worker.remaining hw (.answered job r)
    simp only [State.remaining, State.move, Worker.remaining] at hsum ⊢
    omega
  | send hw =>
    have hsum := sum_set_add Worker.remaining hw .free
    simp only [State.remaining, State.move, Worker.remaining, List.length_append, List.length_singleton]
      at hsum ⊢
    omega
  | leave hw =>
    have hsum := sum_set_add Worker.remaining hw .ended
    simp only [State.remaining, State.move, Worker.remaining] at hsum ⊢
    omega
  | closeResults hgroup hopen => simp [State.remaining, hopen]
  | receive hresults =>
    simp only [State.remaining, hresults, List.length_cons]
    omega
  | cancel => cases hl

theorem steps_le {jobs workers : ℕ} {s : State R} {ls : List (Label R)}
    (h : Runs (Fires (step jobs)) (start workers) ls s) :
    ls.countP (fun l => !l.isCancel) + s.remaining jobs ≤ 4 * jobs + workers + 2 := by
  induction h with
  | refl => simp [State.remaining, start, Worker.remaining]
  | @tail u v ls l run last ih =>
    obtain ⟨hcounted, hplaced⟩ := of_runs run
    have hmove := hcounted.moves hplaced last
    rw [List.countP_append, List.countP_singleton]
    cases hl : l.isCancel with
    | true =>
      have hsame : v.remaining jobs = u.remaining jobs := by
        cases hmove with
        | cancel => rfl
        | _ => cases hl
      simpa [hsame] using ih
    | false =>
      have hlt := hmove.remaining_lt hl
      simp only [Bool.not_false, if_true]
      omega

theorem can_step [Nonempty R] {jobs : ℕ} {s : State R} {ls : List (Label R)} (h : Counted jobs s)
    (hplaced : Placed ls s) (hopen : ¬ s.isOver) :
    ∃ l, l.isCancel = false ∧ (step jobs s l).isSome = true := by
  cases hresults : s.results with
  | cons result rest => exact ⟨.receive, rfl, by simp [step, hresults]⟩
  | nil =>
    have hclosed : s.resultsClosed = false := by
      rw [Bool.eq_false_iff]
      exact fun hc => hopen ⟨hc, hresults⟩
    by_cases hgroup : s.waitGroup = 0
    · exact ⟨.closeResults, rfl, by simp [step, hgroup, hclosed]⟩
    have hpos : 0 < s.workers.countP Worker.active := by
      have hcount := h.waitGroup
      omega
    obtain ⟨a, ha, hactive⟩ := List.countP_pos_iff.mp hpos
    obtain ⟨w, hw⟩ := List.mem_iff_getElem?.mp ha
    cases a with
    | free =>
      cases hjobs : s.jobsClosed with
      | true => exact ⟨.leave w, rfl, by simp [step, hw, hjobs, h.active_pos hw rfl]⟩
      | false =>
        by_cases hlt : s.next < jobs
        · exact ⟨.hand w, rfl, by simp [step, hw, hjobs, hlt]⟩
        · have hdone : s.next = jobs := Nat.le_antisymm h.bound (not_lt.mp hlt)
          exact ⟨.closeJobs, rfl, by simp [step, hjobs, hdone]⟩
    | working job =>
      obtain ⟨r⟩ := ‹Nonempty R›
      exact ⟨.answer w job r, rfl, by simp [step, hw]⟩
    | answered job r =>
      obtain ⟨hunclosed, hroom⟩ := h.can_send hplaced hw
      exact ⟨.send w, rfl, by simp [step, hw, hunclosed, hroom]⟩
    | ended => cases hactive

end SubscriptionRouter.WorkerPool
