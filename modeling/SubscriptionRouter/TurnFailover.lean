import Mathlib
import SubscriptionRouter.Locks
import SubscriptionRouter.Messages
import SubscriptionRouter.StoreState
import SubscriptionRouter.Tallies
import SubscriptionRouter.Transitions

set_option autoImplicit false

/-!
# Moving a thread to another account

A turn that meets a usage limit, before it is sent or in the child's response,
moves its thread: the router reads the history from a source account, resumes it
on a target and makes the target the owner. This happens under the thread's lock,
which the other writers of ownership do not take. A task below is the goroutine
of one `turn/start` request between two of its atomic steps.
-/
namespace SubscriptionRouter.TurnFailover
open GoText Locks Messages StoreState Tallies Transitions

inductive Stage where
  /-- `routeTurnStart`, waiting for the thread's lock. -/
  | queued (ownerID : GoString)
  /-- `retryTurnAfterUsageLimit`, waiting for the thread's lock. -/
  | limited (exhaustedAccountID : GoString) (excluded : Finset GoString)
  /-- `routeTurnStart` with the lock, before and after it reads the owner again. -/
  | locked (ownerID : GoString)
  | checking (ownerID : GoString)
  /-- `failoverTurn`, before it chooses an account. -/
  | choosing (sourceAccountID : GoString) (excluded : Finset GoString)
  /-- `resumeThreadOnAccount`, before `thread/read` and before `thread/resume`. -/
  | reading (sourceAccountID targetAccountID : GoString) (excluded : Finset GoString)
  | moving (sourceAccountID targetAccountID path : GoString) (excluded : Finset GoString)
  /-- Before the target becomes the owner. -/
  | saving (targetAccountID : GoString) (excluded : Finset GoString)
  | forwarding (accountID : GoString) (excluded : Finset GoString)
  /-- Sent to a child, without the lock. -/
  | sent (accountID : GoString) (excluded : Finset GoString)

structure Task where
  message : Message
  stage : Stage

def Task.threadID (t : Task) : GoString := threadIDFromParams t.message.params

def Task.at (t : Task) (stage : Stage) : Task := { t with stage := stage }

def Stage.holdsLock : Stage → Bool
  | .queued _ | .limited _ _ | .sent _ _ => false
  | _ => true

/-- The account a failover in progress is about to read and move. -/
def Stage.source : Stage → Option GoString
  | .choosing source _ | .reading source _ _ | .moving source _ _ _ => some source
  | _ => none

/-- A `thread/resume`, and the owner persisted when it was sent. -/
structure Resume where
  threadID : GoString
  source : GoString
  target : GoString
  path : GoString
  owner : Option GoString
  deriving DecidableEq

structure Router where
  requestSpending : Bool
  machine : Machine
  threadLocks : Finset GoString
  tasks : List Task
  resumes : List Resume

def Router.init (requestSpending : Bool) (m : Machine) : Router where
  requestSpending := requestSpending
  machine := m
  threadLocks := ∅
  tasks := []
  resumes := []

def Router.owner (r : Router) (threadID : GoString) : Option GoString :=
  r.machine.store.threadOwner threadID

def Router.advance (r : Router) (i : ℕ) (t : Task) (stage : Stage) : Router :=
  { r with tasks := r.tasks.eraseIdx i ++ [t.at stage] }

/-- A task ends, or is left at `stage`, and releases its thread's lock. -/
def Router.release (r : Router) (i : ℕ) (t : Task) (stage : Option Stage) : Router :=
  { r with
    threadLocks := r.threadLocks.erase t.threadID
    tasks := r.tasks.eraseIdx i ++ (stage.map t.at).toList }

/-! ## A turn -/

/-- `routeExistingRequest` on a `turn/start` that names a thread. Request spending
forwards it to the owner at once and never moves the thread. -/
def Router.turnStart (r : Router) (message : Message) : Option Router :=
  let threadID := threadIDFromParams message.params
  if message.method = lit "turn/start" ∧ threadID ≠ [] then
    match (r.owner threadID).or (r.machine.store.controller.map Account.id) with
    | none => some r
    | some ownerID =>
      let stage := if r.requestSpending then Stage.sent ownerID ∅ else .queued ownerID
      some { r with tasks := r.tasks ++ [⟨message, stage⟩] }
  else none

def Router.lockThread (r : Router) (i : ℕ) : Option Router :=
  r.tasks[i]?.bind fun t =>
    if t.threadID ∈ r.threadLocks then none
    else
      let locked := { r with threadLocks := insert t.threadID r.threadLocks }
      match t.stage with
      | .queued ownerID => some (locked.advance i t (.locked ownerID))
      | .limited exhausted excluded => some (locked.advance i t (.choosing exhausted excluded))
      | _ => none

def Router.rereadOwner (r : Router) (i : ℕ) : Option Router :=
  r.tasks[i]?.bind fun t => match t.stage with
    | .locked ownerID => some (r.advance i t (.checking ((r.owner t.threadID).getD ownerID)))
    | _ => none

/-- The snapshot of the owner; without capacity the turn fails over. -/
def Router.checkCapacity (r : Router) (i : ℕ) (proceeds : Bool) : Option Router :=
  r.tasks[i]?.bind fun t => match t.stage with
    | .checking ownerID => some (r.advance i t
        (if proceeds then .forwarding ownerID ∅ else .choosing ownerID {ownerID}))
    | _ => none

/-- `chooseAccountExcluding`, which may find no account. -/
def Router.chooseAccount (r : Router) (i : ℕ) (fallback : Option GoString) : Option Router :=
  r.tasks[i]?.bind fun t => match t.stage, fallback with
    | .choosing source excluded, some target =>
      if target ∉ excluded ∧ r.machine.store.enabled target = true then
        some (r.advance i t (.reading source target excluded))
      else none
    | .choosing _ _, none => some (r.release i t none)
    | _, _ => none

/-- `thread/read` on the source, which may fail or return no path. -/
def Router.readThread (r : Router) (i : ℕ) (path : Option GoString) : Option Router :=
  r.tasks[i]?.bind fun t => match t.stage with
    | .reading source target excluded => match path with
      | some path => if path = [] then none else some (r.advance i t (.moving source target path excluded))
      | none => some (r.release i t none)
    | _ => none

/-- `thread/resume` on the target. -/
def Router.resumeThread (r : Router) (i : ℕ) (ok : Bool) : Option Router :=
  r.tasks[i]?.bind fun t => match t.stage with
    | .moving source target path excluded =>
      let resume : Resume := ⟨t.threadID, source, target, path, r.owner t.threadID⟩
      let resumed := { r with resumes := r.resumes ++ [resume] }
      some (if ok then resumed.advance i t (.saving target excluded) else resumed.release i t none)
    | _ => none

def Router.saveOwner (r : Router) (i : ℕ) (outcomes : List (Option Fault)) : Option Router :=
  r.tasks[i]?.bind fun t => match t.stage with
    | .saving target excluded =>
      let written := (r.machine.facing outcomes).setThreadOwner t.threadID target
      let saved := { r with machine := written.2 }
      some (if written.1.isOk then saved.advance i t (.forwarding target excluded)
        else saved.release i t none)
    | _ => none

/-- `forwardRoute`, after which the deferred release unlocks the thread. -/
def Router.forward (r : Router) (i : ℕ) (ok : Bool) : Option Router :=
  r.tasks[i]?.bind fun t => match t.stage with
    | .forwarding accountID excluded =>
      some (r.release i t (if ok then some (.sent accountID excluded) else none))
    | _ => none

/-- The child's response: a usage limit starts the retry, anything else ends the turn. -/
def Router.response (r : Router) (i : ℕ) (response : Message) : Option Router :=
  r.tasks[i]?.bind fun t => match t.stage with
    | .sent accountID excluded =>
      if isUsageLimitResponse response ∧ r.requestSpending = false then
        some (r.advance i t (.limited accountID (insert accountID excluded)))
      else some { r with tasks := r.tasks.eraseIdx i }
    | _ => none

inductive Action where
  | turnStart (message : Message)
  | lockThread (i : ℕ)
  | rereadOwner (i : ℕ)
  | checkCapacity (i : ℕ) (proceeds : Bool)
  | chooseAccount (i : ℕ) (fallback : Option GoString)
  | readThread (i : ℕ) (path : Option GoString)
  | resumeThread (i : ℕ) (ok : Bool)
  | saveOwner (i : ℕ) (outcomes : List (Option Fault))
  | forward (i : ℕ) (ok : Bool)
  | response (i : ℕ) (response : Message)
  /-- A listing, `learnThreadOwner` or a `thread/started` notification. -/
  | setThreadOwners (assignments : GoMap GoString) (outcomes : List (Option Fault))
  | addAccount (p : Platform) (label : GoString) (draws : ℕ → Option (Vector UInt8 8)) (now : ℤ)
      (outcomes : List (Option Fault))
  | updateAccount (id : GoString) (label : Option GoString) (enabled : Option Bool)
      (outcomes : List (Option Fault))
  | removeAccount (p : Platform) (id : GoString) (drawn : Bool) (outcomes : List (Option Fault))

def step (r : Router) : Action → Option Router
  | .turnStart message => r.turnStart message
  | .lockThread i => r.lockThread i
  | .rereadOwner i => r.rereadOwner i
  | .checkCapacity i proceeds => r.checkCapacity i proceeds
  | .chooseAccount i fallback => r.chooseAccount i fallback
  | .readThread i path => r.readThread i path
  | .resumeThread i ok => r.resumeThread i ok
  | .saveOwner i outcomes => r.saveOwner i outcomes
  | .forward i ok => r.forward i ok
  | .response i response => r.response i response
  | .setThreadOwners assignments outcomes =>
    some { r with machine := ((r.machine.facing outcomes).setThreadOwners assignments).2 }
  | .addAccount p label draws now outcomes =>
    some { r with machine := ((r.machine.facing outcomes).addAccount p label draws now).2 }
  | .updateAccount id label enabled outcomes =>
    some { r with machine := ((r.machine.facing outcomes).updateAccount id label enabled).2 }
  | .removeAccount p id drawn outcomes =>
    some { r with machine := ((r.machine.facing outcomes).removeAccount p id drawn).2 }

/-! ## The law and the condition for it -/

/-- Every resumed thread was moved from the account that owned it at that moment. -/
def ResumesFromOwner (r : Router) : Prop := ∀ e ∈ r.resumes, e.owner = some e.source

/-- The account a task would move its thread from if it started a failover now. -/
def Stage.startsFrom : Stage → Option GoString
  | .limited exhausted _ => some exhausted
  | .checking ownerID => some ownerID
  | _ => none

/-- A failover starts from the persisted owner, and until it has resumed the thread
no other writer takes the thread from that owner. -/
def OwnerStable (r : Router) : Action → Prop
  | .lockThread i | .checkCapacity i false => ∀ t ∈ r.tasks[i]?, ∀ a ∈ t.stage.startsFrom,
      r.owner t.threadID = some a
  | .setThreadOwners assignments _ => ∀ t ∈ r.tasks, ∀ source ∈ t.stage.source,
      ∀ a ∈ assignments[t.threadID]?, a = source
  | .removeAccount _ id _ _ => ∀ t ∈ r.tasks, t.stage.source ≠ some id
  | _ => True

instance (r : Router) (action : Action) : Decidable (OwnerStable r action) :=
  match action with
  | .lockThread i | .checkCapacity i false =>
    inferInstanceAs (Decidable (∀ t ∈ r.tasks[i]?, ∀ a ∈ t.stage.startsFrom,
      r.owner t.threadID = some a))
  | .setThreadOwners assignments _ =>
    inferInstanceAs (Decidable (∀ t ∈ r.tasks, ∀ source ∈ t.stage.source,
      ∀ a ∈ assignments[t.threadID]?, a = source))
  | .removeAccount _ id _ _ => inferInstanceAs (Decidable (∀ t ∈ r.tasks, t.stage.source ≠ some id))
  | .turnStart _ | .rereadOwner _ | .checkCapacity _ true | .chooseAccount _ _ | .readThread _ _
  | .resumeThread _ _ | .saveOwner _ _ | .forward _ _ | .response _ _ | .addAccount _ _ _ _ _
  | .updateAccount _ _ _ _ => isTrue trivial

def Task.lock (t : Task) : Option GoString := if t.stage.holdsLock then some t.threadID else none

structure Inv (r : Router) : Prop where
  exclusive : Exclusive Task.lock r.threadLocks r.tasks
  current : ∀ t ∈ r.tasks, ∀ source, t.stage.source = some source →
    r.owner t.threadID = some source
  resumed : ResumesFromOwner r

theorem holdsLock_of_source {stage : Stage} {source : GoString}
    (h : stage.source = some source) : stage.holdsLock = true := by
  cases stage <;> first | rfl | cases h

theorem lock_of_holdsLock {t : Task} (h : t.stage.holdsLock = true) : t.lock = some t.threadID :=
  if_pos h

theorem lock_eq_none {t : Task} (h : t.stage.holdsLock = false) : t.lock = none := by
  rw [Task.lock, h]
  rfl

theorem lock_at {t : Task} {stage : Stage} (h : stage.holdsLock = t.stage.holdsLock) :
    (t.at stage).lock = t.lock := by
  rw [Task.lock, Task.lock, show (t.at stage).stage.holdsLock = t.stage.holdsLock from h]
  rfl

theorem inv_init (requestSpending : Bool) (m : Machine) : Inv (Router.init requestSpending m) where
  exclusive := exclusive_nil
  current := by simp [Router.init]
  resumed := by simp [Router.init, ResumesFromOwner]

/-- The failovers in progress after one task went on. -/
theorem Inv.current_concat {r : Router} (hi : Inv r) {i : ℕ} {rest : List Task}
    (hrest : ∀ t ∈ rest, ∀ source, t.stage.source = some source →
      r.owner t.threadID = some source) :
    ∀ t ∈ r.tasks.eraseIdx i ++ rest, ∀ source, t.stage.source = some source →
      r.owner t.threadID = some source := by
  intro t ht
  rcases List.mem_append.mp ht with ht | ht
  · exact hi.current t (mem_of_eraseIdx ht)
  · exact hrest t ht

theorem Inv.advance {r : Router} {i : ℕ} {t : Task} {stage : Stage} (hi : Inv r)
    (ht : r.tasks[i]? = some t) (hlock : stage.holdsLock = t.stage.holdsLock)
    (hsource : ∀ source, stage.source = some source → r.owner t.threadID = some source) :
    Inv (r.advance i t stage) where
  exclusive := hi.exclusive.advance ht (lock_at hlock)
  current := hi.current_concat fun t' ht' => by
    obtain rfl := List.mem_singleton.mp ht'
    exact hsource
  resumed := hi.resumed

theorem Inv.lock {r : Router} {i : ℕ} {t : Task} {stage : Stage} (hi : Inv r)
    (ht : r.tasks[i]? = some t) (hfree : t.threadID ∉ r.threadLocks)
    (hbefore : t.stage.holdsLock = false) (hafter : stage.holdsLock = true)
    (hsource : ∀ source, stage.source = some source → r.owner t.threadID = some source) :
    Inv (Router.advance { r with threadLocks := insert t.threadID r.threadLocks } i t stage) where
  exclusive := hi.exclusive.acquire ht hfree (lock_eq_none hbefore)
    (lock_of_holdsLock hafter)
  current := hi.current_concat fun t' ht' => by
    obtain rfl := List.mem_singleton.mp ht'
    exact hsource
  resumed := hi.resumed

theorem left_without_lock {t : Task} {stage : Option Stage}
    (hafter : ∀ s, stage = some s → s.holdsLock = false) :
    ∀ t' ∈ (stage.map t.at).toList, t'.stage.holdsLock = false := by
  intro t' ht'
  cases stage with
  | none => cases ht'
  | some s =>
    obtain rfl := List.mem_singleton.mp ht'
    exact hafter s rfl

theorem Inv.release {r : Router} {i : ℕ} {t : Task} {stage : Option Stage} (hi : Inv r)
    (ht : r.tasks[i]? = some t) (hlock : t.stage.holdsLock = true)
    (hafter : ∀ s, stage = some s → s.holdsLock = false) : Inv (r.release i t stage) where
  exclusive := hi.exclusive.release ht (lock_of_holdsLock hlock)
    fun t' ht' => lock_eq_none (left_without_lock hafter t' ht')
  current := hi.current_concat fun t' ht' source hs => by
    have := left_without_lock hafter t' ht'
    rw [holdsLock_of_source hs] at this
    cases this
  resumed := hi.resumed

/-- A change of the store that keeps the owners which failovers in progress move from. -/
theorem Inv.write {r : Router} (hi : Inv r) (m : Machine)
    (h : ∀ t ∈ r.tasks, ∀ source, t.stage.source = some source →
      r.owner t.threadID = some source → m.store.threadOwner t.threadID = some source) :
    Inv { r with machine := m } where
  exclusive := hi.exclusive
  current := fun t ht source hs => h t ht source hs (hi.current t ht source hs)
  resumed := hi.resumed

theorem Inv.enter {r : Router} {t : Task} (hi : Inv r) (h : t.stage.holdsLock = false) :
    Inv { r with tasks := r.tasks ++ [t] } where
  exclusive := hi.exclusive.enter (lock_eq_none h)
  current := fun t' ht' source hs => by
    rcases List.mem_append.mp ht' with ht' | ht'
    · exact hi.current t' ht' source hs
    · obtain rfl := List.mem_singleton.mp ht'
      rw [holdsLock_of_source hs] at h
      cases h
  resumed := hi.resumed

theorem Inv.leave {r : Router} {i : ℕ} {t : Task} (hi : Inv r) (ht : r.tasks[i]? = some t)
    (h : t.stage.holdsLock = false) : Inv { r with tasks := r.tasks.eraseIdx i } where
  exclusive := by
    have := hi.exclusive.leave ht (lock_eq_none h) fun t' (ht' : t' ∈ []) => nomatch ht'
    rwa [List.append_nil] at this
  current := fun t' ht' => hi.current t' (mem_of_eraseIdx ht')
  resumed := hi.resumed

/-! ## One step -/

theorem Inv.turnStart {r u : Router} {message : Message} (hi : Inv r)
    (h : r.turnStart message = some u) : Inv u := by
  unfold Router.turnStart at h
  dsimp only at h
  split at h
  · split at h
    · obtain rfl := Option.some.inj h
      exact hi
    · obtain rfl := Option.some.inj h
      refine hi.enter ?_
      dsimp only
      split <;> rfl
  · cases h

theorem Inv.lockThread {r u : Router} {i : ℕ} (hi : Inv r) (hs : OwnerStable r (.lockThread i))
    (h : r.lockThread i = some u) : Inv u := by
  obtain ⟨t, ht, h⟩ := Option.bind_eq_some_iff.mp h
  split at h
  · cases h
  · rename_i hfree
    dsimp only at h
    split at h
    · rename_i ownerID hstage
      obtain rfl := Option.some.inj h
      exact hi.lock ht hfree (by rw [hstage]; rfl) rfl fun _ hs => nomatch hs
    · rename_i exhausted excluded hstage
      obtain rfl := Option.some.inj h
      refine hi.lock ht hfree (by rw [hstage]; rfl) rfl fun source hsource => ?_
      obtain rfl := Option.some.inj hsource
      exact hs t ht exhausted (by rw [hstage]; rfl)
    · cases h

theorem Inv.rereadOwner {r u : Router} {i : ℕ} (hi : Inv r)
    (h : r.rereadOwner i = some u) : Inv u := by
  obtain ⟨t, ht, h⟩ := Option.bind_eq_some_iff.mp h
  split at h
  · rename_i ownerID hstage
    obtain rfl := Option.some.inj h
    exact hi.advance ht (by rw [hstage]; rfl) fun _ hs => nomatch hs
  · cases h

theorem Inv.checkCapacity {r u : Router} {i : ℕ} {proceeds : Bool} (hi : Inv r)
    (hs : OwnerStable r (.checkCapacity i proceeds)) (h : r.checkCapacity i proceeds = some u) :
    Inv u := by
  obtain ⟨t, ht, h⟩ := Option.bind_eq_some_iff.mp h
  split at h
  · rename_i ownerID hstage
    obtain rfl := Option.some.inj h
    cases proceeds with
    | true => exact hi.advance ht (by rw [hstage]; rfl) fun _ hs => nomatch hs
    | false =>
      refine hi.advance ht (by rw [hstage]; rfl) fun source hsource => ?_
      obtain rfl := Option.some.inj hsource
      exact hs t ht ownerID (by rw [hstage]; rfl)
  · cases h

theorem Inv.chooseAccount {r u : Router} {i : ℕ} {fallback : Option GoString} (hi : Inv r)
    (h : r.chooseAccount i fallback = some u) : Inv u := by
  obtain ⟨t, ht, h⟩ := Option.bind_eq_some_iff.mp h
  split at h
  · rename_i source excluded target hstage _
    split at h
    · obtain rfl := Option.some.inj h
      refine hi.advance ht (by rw [hstage]; rfl) fun source' hsource => ?_
      obtain rfl := Option.some.inj hsource
      exact hi.current t (List.mem_of_getElem? ht) source (by rw [hstage]; rfl)
    · cases h
  · rename_i hstage _
    obtain rfl := Option.some.inj h
    exact hi.release ht (by rw [hstage]; rfl) fun _ hs => nomatch hs
  · cases h

theorem Inv.readThread {r u : Router} {i : ℕ} {path : Option GoString} (hi : Inv r)
    (h : r.readThread i path = some u) : Inv u := by
  obtain ⟨t, ht, h⟩ := Option.bind_eq_some_iff.mp h
  split at h
  · rename_i source target excluded hstage
    split at h
    · split at h
      · cases h
      · obtain rfl := Option.some.inj h
        refine hi.advance ht (by rw [hstage]; rfl) fun source' hsource => ?_
        obtain rfl := Option.some.inj hsource
        exact hi.current t (List.mem_of_getElem? ht) source (by rw [hstage]; rfl)
    · obtain rfl := Option.some.inj h
      exact hi.release ht (by rw [hstage]; rfl) fun _ hs => nomatch hs
  · cases h

theorem Inv.resumeThread {r u : Router} {i : ℕ} {ok : Bool} (hi : Inv r)
    (h : r.resumeThread i ok = some u) : Inv u := by
  obtain ⟨t, ht, h⟩ := Option.bind_eq_some_iff.mp h
  split at h
  · rename_i source target path excluded hstage
    obtain rfl := Option.some.inj h
    have howner := hi.current t (List.mem_of_getElem? ht) source (by rw [hstage]; rfl)
    let resume : Resume := ⟨t.threadID, source, target, path, r.owner t.threadID⟩
    have hresumed : Inv { r with resumes := r.resumes ++ [resume] } := by
      refine ⟨hi.exclusive, hi.current, fun e he => ?_⟩
      rcases List.mem_append.mp he with he | he
      · exact hi.resumed e he
      · obtain rfl := List.mem_singleton.mp he
        exact howner
    cases ok with
    | true => exact hresumed.advance ht (by rw [hstage]; rfl) fun _ hs => nomatch hs
    | false => exact hresumed.release ht (by rw [hstage]; rfl) fun _ hs => nomatch hs
  · cases h

theorem Inv.saveOwner {r u : Router} {i : ℕ} {outcomes : List (Option Fault)} (hi : Inv r)
    (h : r.saveOwner i outcomes = some u) : Inv u := by
  obtain ⟨t, ht, h⟩ := Option.bind_eq_some_iff.mp h
  split at h
  · rename_i target excluded hstage
    obtain rfl := Option.some.inj h
    have hlock : t.stage.holdsLock = true := by rw [hstage]; rfl
    have hsaved : Inv { r with
        machine := ((r.machine.facing outcomes).setThreadOwner t.threadID target).2 } := by
      refine hi.write _ fun t' ht' source hsource howner => ?_
      -- The lock keeps the other failovers to other threads.
      have hne : t'.threadID ≠ t.threadID := by
        intro hid
        rcases mem_or_eq_of_getElem? ht ht' with ht' | rfl
        · refine hi.exclusive.alone ht (lock_of_holdsLock hlock) ht' ?_
          rw [lock_of_holdsLock (holdsLock_of_source hsource), hid]
        · rw [hstage] at hsource
          cases hsource
      rw [setThreadOwner_other _ _ _ hne]
      exact howner
    split
    · exact hsaved.advance ht (by rw [hstage]; rfl) fun _ hs => nomatch hs
    · exact hsaved.release ht hlock fun _ hs => nomatch hs
  · cases h

theorem Inv.forward {r u : Router} {i : ℕ} {ok : Bool} (hi : Inv r)
    (h : r.forward i ok = some u) : Inv u := by
  obtain ⟨t, ht, h⟩ := Option.bind_eq_some_iff.mp h
  split at h
  · rename_i accountID excluded hstage
    obtain rfl := Option.some.inj h
    refine hi.release ht (by rw [hstage]; rfl) fun s hs => ?_
    cases ok with
    | true => cases hs; rfl
    | false => cases hs
  · cases h

theorem Inv.response {r u : Router} {i : ℕ} {response : Message} (hi : Inv r)
    (h : r.response i response = some u) : Inv u := by
  obtain ⟨t, ht, h⟩ := Option.bind_eq_some_iff.mp h
  split at h
  · rename_i accountID excluded hstage
    split at h
    · obtain rfl := Option.some.inj h
      exact hi.advance ht (by rw [hstage]; rfl) fun _ hs => nomatch hs
    · obtain rfl := Option.some.inj h
      exact hi.leave ht (by rw [hstage]; rfl)
  · cases h

theorem Inv.step {r u : Router} {action : Action} (hi : Inv r)
    (h : Guarded OwnerStable (Fires step) r action u) : Inv u := by
  obtain ⟨hs, h⟩ := h
  cases action with
  | turnStart message => exact hi.turnStart h
  | lockThread i => exact hi.lockThread hs h
  | rereadOwner i => exact hi.rereadOwner h
  | checkCapacity i proceeds => exact hi.checkCapacity hs h
  | chooseAccount i fallback => exact hi.chooseAccount h
  | readThread i path => exact hi.readThread h
  | resumeThread i ok => exact hi.resumeThread h
  | saveOwner i outcomes => exact hi.saveOwner h
  | forward i ok => exact hi.forward h
  | response i response => exact hi.response h
  | setThreadOwners assignments outcomes =>
    cases h
    exact hi.write _ fun t ht source hsource howner =>
      setThreadOwners_kept _ howner (hs t ht source hsource)
  | addAccount p label draws now outcomes =>
    cases h
    refine hi.write _ fun t _ source _ howner => ?_
    rw [Store.threadOwner, addAccount_owners]
    exact howner
  | updateAccount id label enabled outcomes =>
    cases h
    refine hi.write _ fun t _ source _ howner => ?_
    rw [Store.threadOwner, updateAccount_owners]
    exact howner
  | removeAccount p id drawn outcomes =>
    cases h
    refine hi.write _ fun t ht source hsource howner => ?_
    rcases removeAccount_threadOwner p (r.machine.facing outcomes) id drawn t.threadID with hsame | hlost
    · exact hsame.trans howner
    · have hid : some id = some source := hlost.symm.trans howner
      exact absurd (hid ▸ hsource) (hs t ht)

/-- In a run in which failovers start from the persisted owner and no other writer
moves a thread away from one, every thread is resumed from its current owner. -/
theorem ownerStable_runs_resume_from_owner {requestSpending : Bool} {m : Machine} {u : Router}
    {actions : List Action}
    (h : Runs (Guarded OwnerStable (Fires step)) (Router.init requestSpending m) actions u) :
    ResumesFromOwner u :=
  (h.invariant (inv_init requestSpending m) fun _ _ _ hi hs => hi.step hs).resumed

def turn (id : String) : Message :=
  { id := lit id, method := lit "turn/start", params := lit "\x7b\"threadId\": \"t\"\x7d" }

def limitReached (id : String) : Message := failure (lit id) 429 (lit "usage limit reached")

/-- A turn finds the lock free and its account with capacity, and is sent. -/
def sendTurn (id : String) (i : ℕ) : List Action :=
  [.turnStart (turn id), .lockThread i, .rereadOwner i, .checkCapacity i true, .forward i true]

/-- The first waiting retry moves the thread to account `target`. -/
def retry (i : ℕ) (target : String) (path : String) : List Action :=
  [.lockThread i, .chooseAccount i (some (lit target)), .readThread i (some (lit path)),
    .resumeThread i true, .saveOwner i [], .forward i true]

theorem ownerStable_runs_resume_from_owner_retry :
    ∃ u, ResumesFromOwner u ∧ u.owner (lit "t") = some (lit "b") ∧ u.resumes ≠ [] := by
  have h : (exec (guard OwnerStable step) (Router.init false (twoAccounts (lit "a")))
      (sendTurn "1" 0 ++ [.response 0 (limitReached "1")] ++ retry 0 "b" "/home/t")).any
        (fun u => u.owner (lit "t") = some (lit "b") ∧ u.resumes ≠ []) = true := by
    decide
  obtain ⟨u, hr, ho⟩ := guarded_runs_of_exec_any h
  exact ⟨u, ownerStable_runs_resume_from_owner hr, of_decide_eq_true ho⟩

/-- Two turns meet the limit of `a`. The first moves the thread to `b`, and the second
then reads the history from `a` again. -/
theorem second_retry_resumes_from_former_owner :
    ∃ actions u, Runs (Fires step) (Router.init false (twoAccounts (lit "a"))) actions u ∧
      ¬ ResumesFromOwner u := by
  have h : (exec step (Router.init false (twoAccounts (lit "a")))
      (sendTurn "1" 0 ++ sendTurn "2" 1 ++ [.response 0 (limitReached "1")] ++
        retry 1 "b" "/home/t" ++ [.response 0 (limitReached "2")] ++ retry 1 "b" "/home/t")).any
        (fun u => u.resumes.map (fun e => (e.source, e.owner)) =
          [(lit "a", some (lit "a")), (lit "a", some (lit "b"))]) = true := by
    decide
  obtain ⟨u, hr, ho⟩ := runs_of_exec_any h
  refine ⟨_, u, hr, fun hu => ?_⟩
  have hresumes := of_decide_eq_true ho
  have hmem : (lit "a", some (lit "b")) ∈ u.resumes.map fun e => (e.source, e.owner) := by
    rw [hresumes]
    simp
  obtain ⟨e, he, heq⟩ := List.mem_map.mp hmem
  obtain ⟨hsource, howner⟩ := Prod.mk.inj heq
  have := hu e he
  rw [hsource, howner] at this
  exact absurd this (by decide)

end SubscriptionRouter.TurnFailover
