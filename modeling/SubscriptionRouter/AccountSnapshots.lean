import Mathlib
import SubscriptionRouter.AccountFanouts
import SubscriptionRouter.WorkerPool

set_option autoImplicit false

/-!
# Snapshots of the accounts

`accountSnapshots` has a pool of workers make one snapshot of each account, puts them in the order of
the accounts and sorts them. A cancelled context stops the hand-out, so that snapshots of the first
accounts are left.
-/
namespace SubscriptionRouter.AccountSnapshots
open WorkerPool Transitions GoText Rankings AccountFanouts

/-- `rest` is what the sort does not read. -/
structure AccountSnapshot (D : Type) where
  id : GoString
  controller : Bool
  createdAt : ℤ
  rest : D

variable {D : Type}

/-- The comparison of the sort: the controller, then the older account. -/
def less (left right : AccountSnapshot D) : Bool :=
  if left.controller ≠ right.controller then left.controller
  else left.createdAt < right.createdAt

def workerCount (accounts : ℕ) : ℕ := min maximumConcurrentChildren accounts

abbrev SnapshotRun (accounts : ℕ) (ls : List (Label (AccountSnapshot D)))
    (s : State (AccountSnapshot D)) : Prop :=
  Runs (Fires (step accounts)) (start (workerCount accounts)) ls s

def ordered (accounts : ℕ) (results : List (ℕ × AccountSnapshot D)) : List (Option (AccountSnapshot D)) :=
  results.foldl (fun ordered result => ordered.set result.1 (some result.2)) (List.replicate accounts none)

def accountSnapshots (accounts : ℕ) (results : List (ℕ × AccountSnapshot D)) : List (AccountSnapshot D) :=
  sliceStable less ((ordered accounts results).filterMap id)

theorem getElem?_foldl_set {R : Type} (results : List (ℕ × R)) (before : List (Option R)) {i : ℕ}
    (hi : i < before.length) (hdistinct : (results.map Prod.fst).Nodup) :
    (results.foldl (fun ordered result => ordered.set result.1 (some result.2)) before)[i]? =
      some (((results.find? fun e => e.1 = i).map Prod.snd).or before[i]) := by
  induction results generalizing before with
  | nil => simp [List.getElem?_eq_getElem hi]
  | cons e results ih =>
    obtain ⟨hfirst, hdistinct⟩ := List.nodup_cons.mp hdistinct
    rw [List.foldl_cons, ih _ (by rwa [List.length_set]) hdistinct, List.find?_cons, List.getElem_set]
    by_cases he : e.1 = i
    · have hnone : (results.find? fun e => e.1 = i) = none := by
        rw [List.find?_eq_none]
        intro x hx hxi
        exact hfirst (List.mem_map.mpr ⟨x, hx, (of_decide_eq_true hxi).trans he.symm⟩)
      simp [he, hnone]
    · simp [he]

theorem length_foldl_set {R : Type} (results : List (ℕ × R)) (before : List (Option R)) :
    (results.foldl (fun ordered result => ordered.set result.1 (some result.2)) before).length =
      before.length := by
  induction results generalizing before with
  | nil => rfl
  | cons e results ih => rw [List.foldl_cons, ih, List.length_set]

theorem ordered_of_runs {accounts : ℕ} {ls : List (Label (AccountSnapshot D))}
    {s : State (AccountSnapshot D)} (h : SnapshotRun accounts ls s) (hover : s.isOver) :
    ordered accounts s.received = (List.range accounts).map fun i => (answersOf i ls).head? := by
  have hworkers : accounts = 0 ∨ 0 < workerCount accounts := by
    rw [workerCount, maximumConcurrentChildren]
    omega
  obtain ⟨hkeys, -, -, hanswers, hlater⟩ := received_of_runs hworkers h hover
  have hdistinct := hkeys.nodup_iff.mpr List.nodup_range
  refine List.ext_getElem? fun i => ?_
  by_cases hi : i < accounts
  · rw [ordered, getElem?_foldl_set _ _ (by rwa [List.length_replicate]) hdistinct, List.getElem?_map,
      List.getElem?_range hi, Option.map_some, List.getElem_replicate, Option.or_none]
    cases hfind : s.received.find? fun e => e.1 = i with
    | some e =>
      obtain rfl : e.1 = i := by simpa using List.find?_some hfind
      rw [hanswers e (List.mem_of_find?_eq_some hfind)]
      rfl
    | none =>
      have hle : s.next ≤ i := by
        by_contra hlt
        obtain ⟨e, he, hei⟩ := List.mem_map.mp (hkeys.mem_iff.mpr (List.mem_range.mpr (not_le.mp hlt)))
        exact List.find?_eq_none.mp hfind e he (decide_eq_true hei)
      rw [hlater i hle]
      rfl
  · rw [List.getElem?_eq_none, List.getElem?_eq_none]
    · rw [List.length_map, List.length_range]
      exact not_lt.mp hi
    · rw [ordered, length_foldl_set, List.length_replicate]
      exact not_lt.mp hi

/-- Nothing panics or is stuck as long as the snapshots are made, and when the caller has all results
it has, whatever the order of the steps, the one snapshot that was made of each account in the order
of the accounts, sorted; without a cancellation there is one of every account, and with one of each
of the accounts before some place. -/
theorem snapshots_of_runs [Nonempty D] {accounts : ℕ} {ls : List (Label (AccountSnapshot D))}
    {s : State (AccountSnapshot D)} (h : SnapshotRun accounts ls s) :
    s.panicked = false ∧
      ls.countP (fun l => !l.isCancel) + s.remaining accounts ≤
        4 * accounts + workerCount accounts + 2 ∧
      (¬ s.isOver → ∃ l, l.isCancel = false ∧ (step accounts s l).isSome = true) ∧
      (s.isOver → accountSnapshots accounts s.received =
          sliceStable less ((List.range accounts).filterMap fun i => (answersOf i ls).head?) ∧
        ∃ k ≤ accounts, (k = accounts ∨ s.cancelled = true) ∧ ∀ i,
          (i < k → ∃ r, answersOf i ls = [r]) ∧ (k ≤ i → answersOf i ls = [])) := by
  have hworkers : accounts = 0 ∨ 0 < workerCount accounts := by
    rw [workerCount, maximumConcurrentChildren]
    omega
  obtain ⟨hcounted, hplaced⟩ := of_runs h
  have hsnapshot : Nonempty (AccountSnapshot D) := ⟨⟨[], false, 0, Classical.arbitrary D⟩⟩
  refine ⟨hcounted.panicked, steps_le h, can_step hcounted hplaced, fun hover => ⟨?_, ?_⟩⟩
  · rw [accountSnapshots, ordered_of_runs h hover, List.filterMap_map]
    rfl
  · obtain ⟨hkeys, hdone, hbound, hanswers, hlater⟩ := received_of_runs hworkers h hover
    refine ⟨s.next, hbound, hdone, fun i => ⟨fun hi => ?_, hlater i⟩⟩
    obtain ⟨e, he, rfl⟩ := List.mem_map.mp (hkeys.mem_iff.mpr (List.mem_range.mpr hi))
    exact ⟨e.2, hanswers e he⟩

def account (name : String) (controller : Bool) (createdAt : ℤ) : AccountSnapshot Unit :=
  { id := lit name, controller, createdAt, rest := () }

def crossed : List (Label (AccountSnapshot Unit)) :=
  [.hand 1, .hand 0, .closeJobs, .answer 0 1 (account "b" true 2), .send 0, .receive, .leave 0,
   .answer 1 0 (account "a" false 1), .send 1, .leave 1, .closeResults, .receive]

theorem snapshots_of_crossed : ∃ s, SnapshotRun 2 crossed s ∧ s.panicked = false ∧
    accountSnapshots 2 s.received =
      sliceStable less ((List.range 2).filterMap fun i => (answersOf i crossed).head?) := by
  obtain ⟨s, hr, hover⟩ := @runs_of_exec_any _ _ (step 2) (start (workerCount 2)) crossed
    (fun s => s.resultsClosed && s.results.isEmpty) (by decide)
  rw [Bool.and_eq_true, List.isEmpty_iff] at hover
  obtain ⟨hpanicked, -, -, hresult⟩ := snapshots_of_runs hr
  exact ⟨s, hr, hpanicked, (hresult hover).1⟩

end SubscriptionRouter.AccountSnapshots
