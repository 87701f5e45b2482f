import Mathlib
import SubscriptionRouter.StoreState
import SubscriptionRouter.ThreadListing
import SubscriptionRouter.Transitions

set_option autoImplicit false

/-!
# Writers of thread ownership

Handling `thread/list` reads the owners one thread at a time while it merges and
writes the whole batch later, each under the store's own lock. A failover, a
response and a `thread/started` notification assign a single thread at any moment
in between. The assignments by these writers are numbered as they are committed.
-/
namespace SubscriptionRouter.OwnershipRaces
open GoText StoreState ThreadListing Transitions

/-- A merge in progress: the threads whose owner it has not read, the owners it
has chosen, and how many assignments had been committed when it read each. -/
structure Merge where
  pending : GoMap (List Candidate)
  chosen : GoMap GoString
  readAt : GoMap ℕ

/-- A batch gave a thread to another account than an assignment it had not seen. -/
structure Overwrite where
  threadID : GoString
  assigned : GoString
  chosen : GoString
  deriving DecidableEq

structure Router where
  machine : Machine
  merges : List Merge
  commits : ℕ
  /-- The latest assignment of each thread by the other writers, and its number. -/
  assigned : GoMap (ℕ × GoString)
  overwritten : List Overwrite

def Router.init (m : Machine) : Router where
  machine := m
  merges := []
  commits := 0
  assigned := ∅
  overwritten := []

/-- `mergeThreadsDeterministically` groups the results. -/
def Router.beginMerge (r : Router) (results : List ThreadListResult) : Router :=
  { r with merges := r.merges ++ [⟨groupCandidates results, ∅, ∅⟩] }

/-- One turn of its loop: read the owner of a thread and choose a copy. -/
def Merge.choose (g : Merge) (threadID : GoString) (candidates : List Candidate)
    (persistedOwner : Option GoString) (commits : ℕ) : Merge where
  pending := g.pending.erase threadID
  chosen := g.chosen.insert threadID (chosenOwner persistedOwner candidates)
  readAt := g.readAt.insert threadID commits

def Router.readOwner (r : Router) (i : ℕ) (threadID : GoString) : Option Router :=
  r.merges[i]?.bind fun g => g.pending[threadID]?.map fun candidates =>
    let persistedOwner := r.machine.store.threadOwner threadID
    { r with merges := r.merges.set i (g.choose threadID candidates persistedOwner r.commits) }

/-- The assignments a batch overwrites although they are newer than its reads. -/
def Router.lost (r : Router) (g : Merge) : List Overwrite :=
  g.chosen.toList.filterMap fun e => match r.assigned[e.1]? with
    | some (number, accountID) =>
      if (g.readAt[e.1]?).getD 0 < number ∧ accountID ≠ e.2 then some ⟨e.1, accountID, e.2⟩
      else none
    | none => none

/-- `SetThreadOwners` with the owners of a finished merge. -/
def Router.commitBatch (r : Router) (i : ℕ) (outcomes : List (Option Fault)) : Option Router :=
  r.merges[i]?.bind fun g =>
    if g.pending.isEmpty then
      let written := (r.machine.facing outcomes).setThreadOwners g.chosen
      some { r with
        machine := written.2
        merges := r.merges.eraseIdx i
        overwritten := if written.1.isOk then r.overwritten ++ r.lost g else r.overwritten }
    else none

/-- `SetThreadOwner` by `failoverTurn`, `learnThreadOwner` or a `thread/started` notification. -/
def Router.setThreadOwner (r : Router) (threadID accountID : GoString)
    (outcomes : List (Option Fault)) : Router :=
  let written := (r.machine.facing outcomes).setThreadOwner threadID accountID
  if written.1.isOk then { r with
    machine := written.2
    commits := r.commits + 1
    assigned := r.assigned.insert threadID (r.commits + 1, accountID) }
  else { r with machine := written.2 }

inductive Action where
  | beginMerge (results : List ThreadListResult)
  | readOwner (i : ℕ) (threadID : GoString)
  | commitBatch (i : ℕ) (outcomes : List (Option Fault))
  | setThreadOwner (threadID accountID : GoString) (outcomes : List (Option Fault))
  | addAccount (p : Platform) (label : GoString) (draws : ℕ → Option (Vector UInt8 8)) (now : ℤ)
      (outcomes : List (Option Fault))
  | updateAccount (id : GoString) (label : Option GoString) (enabled : Option Bool)
      (outcomes : List (Option Fault))
  | removeAccount (p : Platform) (id : GoString) (drawn : Bool) (outcomes : List (Option Fault))

def step (r : Router) : Action → Option Router
  | .beginMerge results => some (r.beginMerge results)
  | .readOwner i threadID => r.readOwner i threadID
  | .commitBatch i outcomes => r.commitBatch i outcomes
  | .setThreadOwner threadID accountID outcomes => some (r.setThreadOwner threadID accountID outcomes)
  | .addAccount p label draws now outcomes =>
    some { r with machine := ((r.machine.facing outcomes).addAccount p label draws now).2 }
  | .updateAccount id label enabled outcomes =>
    some { r with machine := ((r.machine.facing outcomes).updateAccount id label enabled).2 }
  | .removeAccount p id drawn outcomes =>
    some { r with machine := ((r.machine.facing outcomes).removeAccount p id drawn).2 }

/-! ## The law and the condition for it -/

/-- No batch has overwritten an assignment committed after the batch read the owner. -/
def NoLostAssignment (r : Router) : Prop := r.overwritten = []

/-- A thread is assigned only while no merge in progress has chosen another account for it. -/
def Unchosen (r : Router) : Action → Prop
  | .setThreadOwner threadID accountID _ => ∀ g ∈ r.merges, ∀ c, g.chosen[threadID]? = some c →
      c = accountID
  | _ => True

instance (r : Router) (action : Action) : Decidable (Unchosen r action) :=
  match action with
  | .setThreadOwner threadID accountID _ =>
    inferInstanceAs (Decidable (∀ g ∈ r.merges, ∀ c ∈ g.chosen[threadID]?, c = accountID))
  | .beginMerge _ | .readOwner _ _ | .commitBatch _ _ | .addAccount _ _ _ _ _
  | .updateAccount _ _ _ _ | .removeAccount _ _ _ _ => isTrue trivial

/-- A choice of a merge agrees with every assignment newer than its read. -/
def Agrees (r : Router) (g : Merge) : Prop :=
  ∀ (threadID c : GoString), g.chosen[threadID]? = some c →
    ∀ (number : ℕ) (accountID : GoString), r.assigned[threadID]? = some (number, accountID) →
      (g.readAt[threadID]?).getD 0 < number → accountID = c

structure Inv (r : Router) : Prop where
  numbered : ∀ (threadID accountID : GoString) (number : ℕ),
    r.assigned[threadID]? = some (number, accountID) → number ≤ r.commits
  agrees : ∀ g ∈ r.merges, Agrees r g
  kept : NoLostAssignment r

theorem lost_eq_nil {r : Router} {g : Merge} (h : Agrees r g) : r.lost g = [] := by
  refine List.filterMap_eq_nil_iff.mpr fun e he => ?_
  have hc := Std.ExtTreeMap.mem_toList_iff_getElem?_eq_some.mp he
  cases ha : r.assigned[e.1]? with
  | none => rfl
  | some assignment =>
    obtain ⟨number, accountID⟩ := assignment
    dsimp only
    split
    · rename_i hlost
      exact absurd (h e.1 e.2 hc number accountID ha hlost.1) hlost.2
    · rfl

theorem inv_init (m : Machine) : Inv (Router.init m) where
  numbered := by simp [Router.init]
  agrees := by simp [Router.init]
  kept := rfl

theorem Inv.beginMerge {r : Router} (hi : Inv r) (results : List ThreadListResult) :
    Inv (r.beginMerge results) := by
  refine { hi with agrees := ?_ }
  intro g hg
  rcases List.mem_append.mp hg with hg | hg
  · exact hi.agrees g hg
  · obtain rfl := List.mem_singleton.mp hg
    intro threadID c hc
    simp at hc

theorem Inv.readOwner {r u : Router} {i : ℕ} {threadID : GoString} (hi : Inv r)
    (h : r.readOwner i threadID = some u) : Inv u := by
  obtain ⟨g, hg, h⟩ := Option.bind_eq_some_iff.mp h
  obtain ⟨candidates, _, rfl⟩ := Option.map_eq_some_iff.mp h
  refine { hi with agrees := ?_ }
  intro g' hg'
  rcases List.mem_or_eq_of_mem_set hg' with hg' | rfl
  · exact hi.agrees g' hg'
  · intro t c hc number accountID ha hlt
    simp only [Merge.choose, Std.ExtTreeMap.getElem?_insert] at hc hlt
    by_cases ht : compare threadID t = .eq
    · -- The owner is read now, after every assignment so far.
      rw [if_pos ht] at hlt
      exact absurd (hi.numbered t accountID number ha) (Nat.not_le.mpr hlt)
    · rw [if_neg ht] at hc hlt
      exact hi.agrees g (List.mem_of_getElem? hg) t c hc number accountID ha hlt

theorem Inv.commitBatch {r u : Router} {i : ℕ} {outcomes : List (Option Fault)} (hi : Inv r)
    (h : r.commitBatch i outcomes = some u) : Inv u := by
  obtain ⟨g, hg, h⟩ := Option.bind_eq_some_iff.mp h
  split at h
  · obtain rfl := Option.some.inj h
    refine ⟨hi.numbered, fun g' hg' => ?_, ?_⟩
    · exact hi.agrees g' ((List.eraseIdx_sublist _ _).subset hg')
    · have hlost := lost_eq_nil (hi.agrees g (List.mem_of_getElem? hg))
      change (if _ then _ else _) = []
      split
      · rw [hlost, List.append_nil]
        exact hi.kept
      · exact hi.kept
  · cases h

theorem Inv.setThreadOwner {r : Router} {threadID accountID : GoString}
    {outcomes : List (Option Fault)} (hi : Inv r)
    (hs : Unchosen r (.setThreadOwner threadID accountID outcomes)) :
    Inv (r.setThreadOwner threadID accountID outcomes) := by
  unfold Router.setThreadOwner
  dsimp only
  split
  · refine ⟨?_, ?_, hi.kept⟩
    · intro t a number ha
      simp only [Std.ExtTreeMap.getElem?_insert] at ha
      split at ha
      · cases ha
        exact le_rfl
      · exact Nat.le_succ_of_le (hi.numbered t a number ha)
    · intro g hg t c hc number a ha hlt
      simp only [Std.ExtTreeMap.getElem?_insert] at ha
      split at ha
      · rename_i ht
        obtain rfl := Std.LawfulEqCmp.eq_of_compare ht
        cases ha
        exact (hs g hg c hc).symm
      · exact hi.agrees g hg t c hc number a ha hlt
  · exact ⟨hi.numbered, hi.agrees, hi.kept⟩

theorem Inv.step {r u : Router} {action : Action} (hi : Inv r)
    (h : Guarded Unchosen (Fires step) r action u) : Inv u := by
  obtain ⟨hs, h⟩ := h
  cases action with
  | beginMerge results =>
    cases h
    exact hi.beginMerge results
  | readOwner i threadID => exact hi.readOwner h
  | commitBatch i outcomes => exact hi.commitBatch h
  | setThreadOwner threadID accountID outcomes =>
    cases h
    exact hi.setThreadOwner hs
  | addAccount p label draws now outcomes =>
    cases h
    exact ⟨hi.numbered, hi.agrees, hi.kept⟩
  | updateAccount id label enabled outcomes =>
    cases h
    exact ⟨hi.numbered, hi.agrees, hi.kept⟩
  | removeAccount p id drawn outcomes =>
    cases h
    exact ⟨hi.numbered, hi.agrees, hi.kept⟩

/-- In a run in which no thread is assigned against the choice of a merge in
progress, no batch overwrites a newer assignment. -/
theorem unchosen_runs_keep_assignments {m : Machine} {u : Router} {actions : List Action}
    (h : Runs (Guarded Unchosen (Fires step)) (Router.init m) actions u) : NoLostAssignment u :=
  (h.invariant (inv_init m) fun _ _ _ hi hs => hi.step hs).kept

def listedByA : List ThreadListResult :=
  [⟨0, lit "a", [(∅ : Thread).insert (lit "id") (.string (lit "t"))], none⟩]

/-- Between the read of a listing and its batch `t` is assigned as the listing has chosen, and
another thread to the other account. -/
theorem unchosen_runs_keep_assignments_listing :
    ∃ u, NoLostAssignment u ∧ u.machine.store.threadOwner (lit "t") = some (lit "a") ∧
      u.machine.store.threadOwner (lit "u") = some (lit "b") ∧ u.merges.length = 0 := by
  have h : (exec (guard Unchosen step) (Router.init (twoAccounts (lit "b")))
      [.beginMerge listedByA, .readOwner 0 (lit "t"), .setThreadOwner (lit "t") (lit "a") [],
        .setThreadOwner (lit "u") (lit "b") [], .commitBatch 0 []]).any (fun u =>
          u.machine.store.threadOwner (lit "t") = some (lit "a") ∧
            u.machine.store.threadOwner (lit "u") = some (lit "b") ∧ u.merges.length = 0) = true := by
    decide
  obtain ⟨u, hr, ho⟩ := guarded_runs_of_exec_any h
  exact ⟨u, unchosen_runs_keep_assignments hr, of_decide_eq_true ho⟩

/-- A failover moves `t` to `b` between the read of a listing and its batch. -/
theorem listing_overwrites_failover :
    ∃ actions u, Runs (Fires step) (Router.init (twoAccounts (lit "a"))) actions u ∧ ¬ NoLostAssignment u := by
  have h : (exec step (Router.init (twoAccounts (lit "a")))
      [.beginMerge listedByA, .readOwner 0 (lit "t"), .setThreadOwner (lit "t") (lit "b") [],
        .commitBatch 0 []]).any (fun u =>
          u.machine.store.threadOwner (lit "t") = some (lit "a") ∧
            u.overwritten = [⟨lit "t", lit "b", lit "a"⟩]) = true := by
    decide
  obtain ⟨u, hr, ho⟩ := runs_of_exec_any h
  refine ⟨_, u, hr, fun hu => ?_⟩
  have hlost := (of_decide_eq_true ho).2
  rw [NoLostAssignment] at hu
  rw [hu] at hlost
  cases hlost

end SubscriptionRouter.OwnershipRaces
