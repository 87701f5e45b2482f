import Mathlib
import SubscriptionRouter.Locks
import SubscriptionRouter.StoreState
import SubscriptionRouter.Transitions

set_option autoImplicit false

/-!
# The children of the accounts

Every account has a lock for the operations on its child. `UpdateAccount`,
`DeleteAccount` and `StartLogin` read the account under that lock. `AddAccount`,
`monitorChild` and `scheduleRestart` pass an account to `startChild` that they read
before it takes the lock.
-/
namespace SubscriptionRouter.ChildLifecycle
open GoText StoreState Transitions Locks

/-- A started app-server process. -/
structure Process where
  account : GoString
  exited : Bool
  /-- Its account was off when it was started. -/
  startedOff : Bool

inductive Origin where
  | addAccount
  | restart

/-- Who called `startChildLocked`. -/
inductive Caller where
  | startChild (origin : Origin)
  | update (rollbackEnabled : Bool)
  | delete
  | login

/-- The next step of `startChildLocked`. -/
inductive Start where
  | check
  | inspect (child : ℕ)
  | discard (child : ℕ)
  | circuit
  | launch
  | register (child : ℕ)
  | initializeChild (child : ℕ)
  | drop (child : ℕ)

inductive Request where
  | update (id : GoString) (label : Option GoString) (enabled : Option Bool)
  | delete (id : GoString)

def Request.id : Request → GoString
  | .update id _ _ | .delete id => id

def Request.disables : Request → Bool
  | .update _ _ enabled => enabled = some false
  | .delete _ => true

/-- Who called `stopChildLocked`. -/
inductive Stopper where
  | update
  | delete (account : Account)

/-- A goroutine and the step it takes next. -/
inductive Task where
  | monitor (id : GoString) (child : ℕ)
  | exited (id : GoString)
  | timer (id : GoString)
  | queued (origin : Origin) (account : Account)
  | start (caller : Caller) (account : Account) (next : Start)
  | started (origin : Origin) (id : GoString) (ok : Bool)
  | disable (id : GoString)
  | wait (r : Request)
  | guard (r : Request)
  | lock (r : Request)
  | lookup (r : Request)
  | apply (previous : Account) (label : Option GoString) (enabled : Option Bool)
  | rollback (id : GoString) (enabled : Bool)
  | halt (id : GoString) (stopper : Stopper)
  | close (id : GoString) (child : Option ℕ) (stopper : Stopper)
  | disableHeld (id : GoString)
  | remove (account : Account)
  | refused (account : Account)
  | snapshot (id : GoString) (disabled : Bool)
  | unlock (id : GoString) (off : Bool)
  | unlockMutation
  | login (id : GoString)
  | loginRead (id : GoString)
  | loginUnlock (id : GoString)

structure Router where
  machine : Machine
  requestSpending : Bool
  children : GoMap ℕ
  processes : List Process
  /-- `spendingMutationMu` is held. -/
  mutation : Bool
  /-- The accounts whose operation lock is held. -/
  locks : Finset GoString
  tasks : List Task
  /-- The accounts that a successful `UpdateAccount` or `DeleteAccount` has turned off
  and that have not been enabled again. -/
  off : Finset GoString

/-- The router after `Start` has started the children of some accounts. -/
def Router.init (m : Machine) (requestSpending : Bool) (started : List GoString) : Router where
  machine := m
  requestSpending := requestSpending
  children := started.zipIdx.foldl (fun children e => children.insert e.1 e.2) ∅
  processes := started.map fun id => ⟨id, false, false⟩
  mutation := false
  locks := ∅
  tasks := started.zipIdx.map fun e => .monitor e.1 e.2
  off := ∅

/-- What the environment decides for a step: the outcomes of file-system calls, and
whether whatever else the step waits for succeeds. -/
structure Choice where
  platform : Platform
  outcomes : List (Option Fault)
  ok : Bool

/-- An operation of the store ends in `m`; an account that it enables is no longer off. -/
def Router.commit (u : Router) (m : Machine) : Router :=
  { u with machine := m, off := u.off.filter fun id => m.store.enabled id = false }

def Router.exited (u : Router) (child : ℕ) : Bool := (u.processes[child]?).any (·.exited)

def Router.removeChildIfCurrent (u : Router) (id : GoString) (child : ℕ) : Router :=
  if u.children[id]? = some child then { u with children := u.children.erase id } else u

theorem removeChildIfCurrent_locks (u : Router) (id : GoString) (child : ℕ) :
    (u.removeChildIfCurrent id child).locks = u.locks := by
  unfold Router.removeChildIfCurrent
  split <;> rfl

theorem removeChildIfCurrent_off (u : Router) (id : GoString) (child : ℕ) :
    (u.removeChildIfCurrent id child).off = u.off := by
  unfold Router.removeChildIfCurrent
  split <;> rfl

/-- What follows `startChildLocked`. -/
def Caller.finish (caller : Caller) (id : GoString) (ok : Bool) : Task :=
  match caller with
  | .startChild origin => .started origin id ok
  | .update rollbackEnabled => if ok then .snapshot id false else .rollback id rollbackEnabled
  | .delete => .unlock id false
  | .login => .loginUnlock id

/-- `startChildLocked`. -/
def Router.startStep (u : Router) (c : Choice) (caller : Caller) (account : Account) :
    Start → Router × List Task
  | .check =>
    if !account.enabled then (u, [caller.finish account.id false])
    else match u.children[account.id]? with
      | some child => (u, [.start caller account (.inspect child)])
      | none => (u, [.start caller account .circuit])
  | .inspect child =>
    if u.exited child then (u, [.start caller account (.discard child)])
    else (u, [caller.finish account.id true])
  | .discard child => (u.removeChildIfCurrent account.id child, [.start caller account .circuit])
  | .circuit =>
    if c.ok then (u, [.start caller account .launch]) else (u, [caller.finish account.id false])
  | .launch =>
    if c.ok then
      ({ u with processes := u.processes ++ [⟨account.id, false, account.id ∈ u.off⟩] },
        [.start caller account (.register u.processes.length)])
    else (u, [caller.finish account.id false])
  | .register child =>
    ({ u with children := u.children.insert account.id child },
      [.start caller account (.initializeChild child)])
  | .initializeChild child =>
    if c.ok then (u, [caller.finish account.id true, .monitor account.id child])
    else (u, [.start caller account (.drop child)])
  | .drop child => (u.removeChildIfCurrent account.id child, [caller.finish account.id false])

/-- The next step of a task: the router after it and what becomes of the task. -/
def Router.act (u : Router) (c : Choice) : Task → Option (Router × List Task)
  | .monitor id child =>
    if u.exited child then
      if u.children[id]? = some child then some (u.removeChildIfCurrent id child, [.exited id])
      else some (u, [])
    else none
  | .exited id => match u.machine.store.account id with
    | some account => some (u, if account.enabled then [.timer id] else [])
    | none => some (u, [])
  | .timer id => match u.machine.store.account id with
    | some account => some (u, if account.enabled then [.queued .restart account] else [])
    | none => some (u, [])
  | .queued origin account =>
    if account.id ∈ u.locks then none
    else some ({ u with locks := insert account.id u.locks },
      [.start (.startChild origin) account .check])
  | .start caller account next => some (u.startStep c caller account next)
  | .started origin id ok => some ({ u with locks := u.locks.erase id }, match origin, ok with
      | _, true => []
      | .addAccount, false => [.disable id]
      | .restart, false => [.timer id])
  | .disable id => some (u.commit ((u.machine.facing c.outcomes).updateAccount id none (some false)).2, [])
  | .wait r => if u.mutation then none else some ({ u with mutation := true }, [.guard r])
  | .guard r =>
    if u.requestSpending ∧ r.disables ∧ u.machine.store.routingMode.accountID = r.id then
      some (u, [.unlockMutation])
    else some (u, [.lock r])
  | .lock r =>
    if r.id ∈ u.locks then none
    else some ({ u with locks := insert r.id u.locks }, [.lookup r])
  | .lookup r => match u.machine.store.account r.id, r with
    | none, _ => some (u, [.unlock r.id false])
    | some previous, .update id label enabled =>
      if enabled = some false ∧ previous.controller = true then some (u, [.unlock id false])
      else some (u, [.apply previous label enabled])
    | some account, .delete id =>
      if account.controller = true ∨ account.id = lit "primary" then some (u, [.unlock id false])
      else some (u, [.halt account.id (.delete account)])
  | .apply previous label enabled =>
    let written := (u.machine.facing c.outcomes).updateAccount previous.id label enabled
    some (u.commit written.2, match written.1, enabled with
      | .error _, _ => [.unlock previous.id false]
      | .ok _, none => [.snapshot previous.id false]
      | .ok _, some false => [.halt previous.id .update]
      | .ok updated, some true => [.start (.update previous.enabled) updated .check])
  | .rollback id enabled =>
    some (u.commit ((u.machine.facing c.outcomes).updateAccount id none (some enabled)).2, [.unlock id false])
  | .halt id stopper =>
    some ({ u with children := u.children.erase id }, [.close id u.children[id]? stopper])
  | .close id child stopper => match stopper, child.isNone || c.ok with
    | .update, closed => some (u, if closed then [.snapshot id true] else [.unlock id false])
    | .delete account, true => some (u, [.remove account])
    | .delete account, false =>
      some (u, if account.enabled then [.disableHeld account.id] else [.unlock account.id false])
  | .disableHeld id =>
    some (u.commit ((u.machine.facing c.outcomes).updateAccount id none (some false)).2, [.unlock id false])
  | .remove account =>
    let removed := (u.machine.facing c.outcomes).removeAccount c.platform account.id c.ok
    some (u.commit removed.2, match removed.1 with
      | .ok () => [.unlock account.id true]
      | .error _ => [.refused account])
  | .refused account =>
    if u.machine.store.accountExists account.id ∧ account.enabled then
      some (u, [.start .delete account .check])
    else some (u, [.unlock account.id false])
  | .snapshot id disabled =>
    some (u, [.unlock id (disabled && u.machine.store.accountExists id)])
  | .unlock id off =>
    some ({ u with
      locks := u.locks.erase id
      off := if off = true ∧ u.machine.store.enabled id = false then insert id u.off else u.off },
      [.unlockMutation])
  | .unlockMutation => some ({ u with mutation := false }, [])
  | .login id =>
    if id ∈ u.locks then none else some ({ u with locks := insert id u.locks }, [.loginRead id])
  | .loginRead id => match u.machine.store.account id with
    | none => some (u, [.loginUnlock id])
    | some account =>
      -- Another sign-in may be pending.
      if !c.ok || !account.enabled then some (u, [.loginUnlock id])
      else match u.children[account.id]? with
        | some _ => some (u, [.loginUnlock id])
        | none => some (u, [.start .login account .check])
  | .loginUnlock id => some ({ u with locks := u.locks.erase id }, [])

inductive Action where
  | addAccount (p : Platform) (label : GoString) (draws : ℕ → Option (Vector UInt8 8)) (now : ℤ)
      (outcomes : List (Option Fault))
  | request (r : Request)
  | startLogin (id : GoString)
  | exit (child : ℕ)
  | go (i : ℕ) (c : Choice)

def step (u : Router) : Action → Option Router
  | .addAccount p label draws now outcomes =>
    let added := { u.machine with outcomes := outcomes }.addAccount p label draws now
    let u := u.commit added.2
    some (match added.1 with
      | .ok account => { u with tasks := u.tasks ++ [.queued .addAccount account] }
      | .error _ => u)
  | .request r => some { u with tasks := u.tasks ++ [.wait r] }
  | .startLogin id => some { u with tasks := u.tasks ++ [.login id] }
  | .exit child => u.processes[child]?.map fun process =>
      { u with processes := u.processes.set child { process with exited := true } }
  | .go i c => u.tasks[i]?.bind fun t => (u.act c t).map fun r =>
      { r.1 with tasks := u.tasks.eraseIdx i ++ r.2 }

/-- No child of an account that is off is registered, and none has been started. -/
structure OffAccountsIdle (u : Router) : Prop where
  registered : ∀ id ∈ u.off, u.children[id]? = none
  started : ∀ p ∈ u.processes, p.startedOff = false

/-- The account of a `startChild` that waits for its lock is still enabled in the store,
or has a child that runs. -/
def Task.fresh (u : Router) : Task → Bool
  | .queued _ account => u.machine.store.enabled account.id ||
      (u.children[account.id]?).any fun child => !u.exited child
  | _ => true

def FreshStart (u : Router) : Action → Prop
  | .go i _ => ∀ t ∈ u.tasks[i]?, t.fresh u = true
  | _ => True

/-! ## What a task knows about the account it has locked -/

/-- The account whose operation lock a task holds. -/
def Task.holds : Task → Option GoString
  | .start _ account _ | .remove account | .refused account => some account.id
  | .apply previous _ _ => some previous.id
  | .lookup r => some r.id
  | .started _ id _ | .rollback id _ | .halt id _ | .close id _ _ | .disableHeld id
  | .snapshot id _ | .unlock id _ | .loginRead id | .loginUnlock id => some id
  | .monitor _ _ | .exited _ | .timer _ | .queued _ _ | .disable _ | .wait _ | .guard _ | .lock _
  | .unlockMutation | .login _ => none

def Task.Safe (u : Router) : Task → Prop
  | .start _ account .check | .refused account => account.enabled = true → account.id ∉ u.off
  | .start _ account _ => account.id ∉ u.off
  | .halt id (.delete account) => account.id = id ∧ (account.enabled = true → account.id ∉ u.off)
  | .close id _ (.delete account) =>
    account.id = id ∧ (account.enabled = true → account.id ∉ u.off) ∧ u.children[account.id]? = none
  | .remove account =>
    (account.enabled = true → account.id ∉ u.off) ∧ u.children[account.id]? = none
  | .close id _ .update | .snapshot id true | .unlock id true => u.children[id]? = none
  | _ => True

structure Inv (u : Router) : Prop where
  exclusive : Exclusive Task.holds u.locks u.tasks
  safe : ∀ t ∈ u.tasks, t.Safe u
  disabled : ∀ id ∈ u.off, u.machine.store.enabled id = false
  idle : OffAccountsIdle u

/-- A step from `u` to `v` neither turns an account off nor registers a child of it. -/
def Quiet (u v : Router) (id : GoString) : Prop :=
  (id ∈ v.off → id ∈ u.off) ∧ (u.children[id]? = none → v.children[id]? = none)

theorem Task.Safe.frame {u v : Router} {t : Task} (h : t.Safe u)
    (hq : ∀ id, t.holds = some id → Quiet u v id) : t.Safe v := by
  cases t with
  | start caller account next =>
    obtain ⟨hoff, _⟩ := hq _ rfl
    cases next with
    | check => exact fun he hv => h he (hoff hv)
    | _ => exact fun hv => h (hoff hv)
  | refused account => exact fun he hv => h he ((hq _ rfl).1 hv)
  | halt id stopper =>
    cases stopper with
    | update => trivial
    | delete account =>
      obtain ⟨rfl, h⟩ := h
      exact ⟨rfl, fun he hv => h he ((hq _ rfl).1 hv)⟩
  | close id child stopper =>
    cases stopper with
    | update => exact (hq _ rfl).2 h
    | delete account =>
      obtain ⟨rfl, hoff, hchild⟩ := h
      exact ⟨rfl, fun he hv => hoff he ((hq _ rfl).1 hv), (hq _ rfl).2 hchild⟩
  | remove account => exact ⟨fun he hv => h.1 he ((hq _ rfl).1 hv), (hq _ rfl).2 h.2⟩
  | snapshot id disabled =>
    cases disabled with
    | false => trivial
    | true => exact (hq _ rfl).2 h
  | unlock id off =>
    cases off with
    | false => trivial
    | true => exact (hq _ rfl).2 h
  | _ => trivial

/-! ## One step of a task -/

/-- What a step of `t` from `u` to `v` keeps, whatever becomes of the task. -/
structure Keeps (u v : Router) (t : Task) : Prop where
  disabled : ∀ id ∈ v.off, v.machine.store.enabled id = false
  idle : OffAccountsIdle v
  quiet : ∀ id, t.holds ≠ some id → Quiet u v id

section Steps
variable {u v : Router} {t : Task}

theorem Inv.move (hi : Inv u) {i : ℕ} (ht : u.tasks[i]? = some t) (hk : Keeps u v t)
    {rest : List Task} (hsafe : ∀ t' ∈ rest, t'.Safe v)
    (hlocks : Exclusive Task.holds v.locks (u.tasks.eraseIdx i ++ rest)) :
    Inv { v with tasks := u.tasks.eraseIdx i ++ rest } where
  exclusive := hlocks
  safe := fun t' ht' => by
    rcases List.mem_append.mp ht' with ht' | ht'
    · refine (hi.safe t' (List.mem_of_mem_eraseIdx ht')).frame fun id hid => ?_
      exact hk.quiet id fun hheld => hi.exclusive.alone ht hheld ht' hid
    · exact (hsafe t' ht').frame fun _ _ => ⟨fun h => h, fun h => h⟩
  disabled := hk.disabled
  idle := ⟨hk.idle.registered, hk.idle.started⟩

theorem Quiet.refl (id : GoString) : Quiet u u id := ⟨fun h => h, fun h => h⟩

theorem Keeps.refl (hi : Inv u) : Keeps u u t :=
  ⟨hi.disabled, hi.idle, fun id _ => .refl id⟩

theorem Keeps.bookkeeping (hi : Inv u) (locks : Finset GoString) (mutation : Bool) :
    Keeps u { u with locks, mutation } t :=
  ⟨hi.disabled, ⟨hi.idle.registered, hi.idle.started⟩, fun id _ => .refl id⟩

theorem Keeps.commit (hi : Inv u) (m : Machine) : Keeps u (u.commit m) t where
  disabled := fun _ hid => (Finset.mem_filter.mp hid).2
  idle := ⟨fun id hid => hi.idle.registered id (Finset.mem_filter.mp hid).1, hi.idle.started⟩
  quiet := fun _ _ => ⟨fun hid => (Finset.mem_filter.mp hid).1, fun h => h⟩

theorem erase_none {children : GoMap ℕ} {a : GoString} (h : children[a]? = none) (id : GoString) :
    (children.erase id)[a]? = none := by
  rw [Std.ExtTreeMap.getElem?_erase]
  split
  · rfl
  · exact h

theorem Keeps.erase (hi : Inv u) (id : GoString) :
    Keeps u { u with children := u.children.erase id } t where
  disabled := hi.disabled
  idle := ⟨fun a ha => erase_none (hi.idle.registered a ha) id, hi.idle.started⟩
  quiet := fun _ _ => ⟨fun h => h, fun h => erase_none h id⟩

theorem Keeps.removeChildIfCurrent (hi : Inv u) (id : GoString) (child : ℕ) :
    Keeps u (u.removeChildIfCurrent id child) t := by
  unfold Router.removeChildIfCurrent
  split
  · exact .erase hi id
  · exact .refl hi

theorem Keeps.launch (hi : Inv u) {id : GoString} (hid : id ∉ u.off) :
    Keeps u { u with processes := u.processes ++ [⟨id, false, id ∈ u.off⟩] } t where
  disabled := hi.disabled
  idle := by
    refine ⟨hi.idle.registered, fun p hp => ?_⟩
    rcases List.mem_append.mp hp with hp | hp
    · exact hi.idle.started p hp
    · obtain rfl := List.mem_singleton.mp hp
      exact decide_eq_false hid
  quiet := fun id _ => .refl id

/-- Only the holder of the lock registers a child, of an account that is not off. -/
theorem Keeps.register (hi : Inv u) {id : GoString} (hheld : t.holds = some id) (hid : id ∉ u.off)
    (child : ℕ) : Keeps u { u with children := u.children.insert id child } t := by
  have hother : ∀ a, id ≠ a → (u.children.insert id child)[a]? = u.children[a]? := fun a ha => by
    rw [Std.ExtTreeMap.getElem?_insert, if_neg fun h => ha (Std.LawfulEqCmp.eq_of_compare h)]
  refine ⟨hi.disabled, ⟨fun a ha => ?_, hi.idle.started⟩, fun a ha => ⟨fun h => h, fun h => ?_⟩⟩
  · exact (hother a fun he => hid (he ▸ ha)).trans (hi.idle.registered a ha)
  · exact (hother a fun he => ha (he ▸ hheld)).trans h

theorem Keeps.unlock (hi : Inv u) {id : GoString} {off : Bool}
    (hsafe : Task.Safe u (.unlock id off)) (hheld : t.holds = some id) :
    Keeps u { u with
      locks := u.locks.erase id
      off := if off = true ∧ u.machine.store.enabled id = false then insert id u.off else u.off }
      t := by
  have hoff : ∀ a ∈ (if off = true ∧ u.machine.store.enabled id = false then insert id u.off
      else u.off), a ∈ u.off ∨ a = id ∧ off = true ∧ u.machine.store.enabled id = false := by
    intro a ha
    split at ha
    · rcases Finset.mem_insert.mp ha with rfl | ha
      · exact .inr ⟨rfl, ‹_›⟩
      · exact .inl ha
    · exact .inl ha
  refine ⟨fun a ha => ?_, ⟨fun a ha => ?_, hi.idle.started⟩, fun a ha => ⟨fun h => ?_, fun h => h⟩⟩
  · rcases hoff a ha with ha | ⟨rfl, _, h⟩
    · exact hi.disabled a ha
    · exact h
  · rcases hoff a ha with ha | ⟨rfl, rfl, _⟩
    · exact hi.idle.registered a ha
    · exact hsafe
  · rcases hoff a h with h | ⟨rfl, _⟩
    · exact h
    · exact absurd hheld ha

/-! How the locks change with the step: kept, taken, let go, or not held. -/

theorem Inv.advance (hi : Inv u) {i : ℕ} {t' : Task} (ht : u.tasks[i]? = some t) (hk : Keeps u v t)
    (hlocks : v.locks = u.locks) (hheld : t'.holds = t.holds) (hsafe : t'.Safe v) :
    Inv { v with tasks := u.tasks.eraseIdx i ++ [t'] } :=
  hi.move ht hk (fun _ h => List.mem_singleton.mp h ▸ hsafe)
    (hlocks ▸ hi.exclusive.advance ht hheld)

theorem Inv.acquire (hi : Inv u) {i : ℕ} {t' : Task} {id : GoString} (ht : u.tasks[i]? = some t)
    (hfree : id ∉ u.locks) (hbefore : t.holds = none) (hafter : t'.holds = some id)
    (hsafe : t'.Safe u) :
    Inv { u with locks := insert id u.locks, tasks := u.tasks.eraseIdx i ++ [t'] } :=
  hi.move ht (Keeps.bookkeeping hi (insert id u.locks) u.mutation)
    (fun _ h => List.mem_singleton.mp h ▸ hsafe.frame fun id _ => .refl id)
    (hi.exclusive.acquire ht hfree hbefore hafter)

theorem Inv.release (hi : Inv u) {i : ℕ} {rest : List Task} {id : GoString}
    (ht : u.tasks[i]? = some t) (hheld : t.holds = some id) (hk : Keeps u v t)
    (hlocks : v.locks = u.locks.erase id)
    (hrest : ∀ t' ∈ rest, t'.holds = none ∧ t'.Safe v) :
    Inv { v with tasks := u.tasks.eraseIdx i ++ rest } :=
  hi.move ht hk (fun t' h => (hrest t' h).2)
    (hlocks ▸ hi.exclusive.release ht hheld fun t' h => (hrest t' h).1)

theorem Inv.leave (hi : Inv u) {i : ℕ} {rest : List Task} (ht : u.tasks[i]? = some t)
    (hheld : t.holds = none) (hk : Keeps u v t) (hlocks : v.locks = u.locks)
    (hrest : ∀ t' ∈ rest, t'.holds = none ∧ t'.Safe v) :
    Inv { v with tasks := u.tasks.eraseIdx i ++ rest } :=
  hi.move ht hk (fun t' h => (hrest t' h).2)
    (hlocks ▸ hi.exclusive.leave ht hheld fun t' h => (hrest t' h).1)

@[simp] theorem finish_holds (caller : Caller) (id : GoString) (ok : Bool) :
    (caller.finish id ok).holds = some id := by
  cases caller with
  | update rollbackEnabled => cases ok <;> rfl
  | startChild origin => rfl
  | delete => rfl
  | login => rfl

theorem finish_safe (caller : Caller) (id : GoString) (ok : Bool) : (caller.finish id ok).Safe u := by
  cases caller with
  | update rollbackEnabled => cases ok <;> trivial
  | startChild origin => trivial
  | delete => trivial
  | login => trivial

theorem Inv.startStep (hi : Inv u) {i : ℕ} {caller : Caller} {account : Account} {next : Start}
    (ht : u.tasks[i]? = some (.start caller account next)) (c : Choice) :
    Inv { (u.startStep c caller account next).1 with
      tasks := u.tasks.eraseIdx i ++ (u.startStep c caller account next).2 } := by
  have hsafe := hi.safe _ (List.mem_of_getElem? ht)
  have hfinish : ∀ ok, Inv { u with tasks := u.tasks.eraseIdx i ++ [caller.finish account.id ok] } :=
    fun ok => hi.advance ht (.refl hi) rfl (finish_holds _ _ _) (finish_safe _ _ _)
  cases next with
  | check =>
    simp only [Router.startStep]
    split
    · exact hfinish false
    · rename_i hon
      have hfresh : account.id ∉ u.off := hsafe (by simpa using hon)
      split
      · exact hi.advance ht (.refl hi) rfl rfl hfresh
      · exact hi.advance ht (.refl hi) rfl rfl hfresh
  | inspect child =>
    simp only [Router.startStep]
    split
    · exact hi.advance ht (.refl hi) rfl rfl hsafe
    · exact hfinish true
  | discard child =>
    have hk := Keeps.removeChildIfCurrent (t := .start caller account (.discard child)) hi
      account.id child
    refine hi.advance ht hk (removeChildIfCurrent_locks u _ child) rfl ?_
    change account.id ∉ (u.removeChildIfCurrent account.id child).off
    rw [removeChildIfCurrent_off]
    exact hsafe
  | circuit =>
    simp only [Router.startStep]
    split
    · exact hi.advance ht (.refl hi) rfl rfl hsafe
    · exact hfinish false
  | launch =>
    simp only [Router.startStep]
    split
    · exact hi.advance ht (.launch hi hsafe) rfl rfl hsafe
    · exact hfinish false
  | register child => exact hi.advance ht (.register hi rfl hsafe child) rfl rfl hsafe
  | initializeChild child =>
    simp only [Router.startStep]
    split
    · refine hi.move ht (.refl hi) (fun t' ht' => ?_) ?_
      · rcases List.mem_pair.mp ht' with rfl | rfl
        · exact finish_safe _ _ _
        · trivial
      · rw [List.append_cons]
        exact (hi.exclusive.advance ht (finish_holds caller account.id true)).enter rfl
    · exact hi.advance ht (.refl hi) rfl rfl hsafe
  | drop child =>
    have hk := Keeps.removeChildIfCurrent (t := .start caller account (.drop child)) hi
      account.id child
    exact hi.advance ht hk (removeChildIfCurrent_locks u _ child) (finish_holds _ _ _)
      (finish_safe _ _ _)

theorem account_id {s : Store} {id : GoString} {a : Account} (h : s.account id = some a) :
    a.id = id := by
  simpa using List.find?_some h

theorem enabled_of_account {s : Store} {id : GoString} {a : Account} (h : s.account id = some a)
    (hon : a.enabled = true) : s.enabled id = true :=
  enabled_iff.mpr ⟨a, List.mem_of_find?_eq_some h, account_id h, hon⟩

theorem Inv.notMem_off (hi : Inv u) {id : GoString} (h : u.machine.store.enabled id = true) :
    id ∉ u.off := fun hid => by
  rw [hi.disabled id hid] at h
  cases h

theorem Inv.fresh (hi : Inv u) {id : GoString} {a : Account}
    (h : u.machine.store.account id = some a) (hon : a.enabled = true) : a.id ∉ u.off :=
  account_id h ▸ hi.notMem_off (enabled_of_account h hon)

theorem apply_fresh {c : Choice} {id : GoString} {label : Option GoString} {updated : Account}
    (h : ((u.machine.facing c.outcomes).updateAccount id label (some true)).1 = .ok updated) :
    updated.id ∉ (u.commit ((u.machine.facing c.outcomes).updateAccount id label (some true)).2).off := by
  obtain ⟨_, hon, index, hindex, hset⟩ := updateAccount_ok h
  have hlt : index < (u.machine.facing c.outcomes).store.accounts.length :=
    (List.findIdx?_eq_some_iff_getElem.mp hindex).1
  have hmem : updated ∈ ((u.machine.facing c.outcomes).updateAccount id label (some true)).2.store.accounts := by
    rw [hset]
    exact List.mem_of_getElem? (List.getElem?_set_self hlt)
  intro hoff
  have hdisabled := (Finset.mem_filter.mp hoff).2
  rw [enabled_iff.mpr ⟨updated, hmem, rfl, hon true rfl⟩] at hdisabled
  cases hdisabled

theorem Inv.lookup (hi : Inv u) {i : ℕ} {r : Request} (ht : u.tasks[i]? = some (.lookup r))
    {c : Choice} {res : Router × List Task} (h : u.act c (.lookup r) = some res) :
    Inv { res.1 with tasks := u.tasks.eraseIdx i ++ res.2 } := by
  have hunlock : Inv { u with tasks := u.tasks.eraseIdx i ++ [.unlock r.id false] } :=
    hi.advance ht (.refl hi) rfl rfl trivial
  simp only [Router.act] at h
  split at h
  · cases h
    exact hunlock
  · rename_i previous id label enabled haccount
    split at h
    · cases h
      exact hunlock
    · cases h
      exact hi.advance ht (.refl hi) rfl (congrArg some (account_id haccount)) trivial
  · rename_i account id haccount
    split at h
    · cases h
      exact hunlock
    · cases h
      exact hi.advance ht (.refl hi) rfl (congrArg some (account_id haccount))
        ⟨rfl, fun hon => hi.fresh haccount hon⟩

theorem Inv.apply (hi : Inv u) {i : ℕ} {previous : Account} {label : Option GoString}
    {enabled : Option Bool} (ht : u.tasks[i]? = some (.apply previous label enabled))
    {c : Choice} {res : Router × List Task} (h : u.act c (.apply previous label enabled) = some res) :
    Inv { res.1 with tasks := u.tasks.eraseIdx i ++ res.2 } := by
  cases h
  have hk := Keeps.commit (t := .apply previous label enabled) hi
    ((u.machine.facing c.outcomes).updateAccount previous.id label enabled).2
  dsimp only
  split
  · exact hi.advance ht hk rfl rfl trivial
  · exact hi.advance ht hk rfl rfl trivial
  · exact hi.advance ht hk rfl rfl trivial
  · rename_i updated hok
    exact hi.advance ht hk rfl (congrArg some (updateAccount_ok hok).1) fun _ => apply_fresh hok

theorem Inv.halt (hi : Inv u) {i : ℕ} {id : GoString} {stopper : Stopper}
    (ht : u.tasks[i]? = some (.halt id stopper)) {c : Choice} {res : Router × List Task}
    (h : u.act c (.halt id stopper) = some res) :
    Inv { res.1 with tasks := u.tasks.eraseIdx i ++ res.2 } := by
  cases h
  have hsafe := hi.safe _ (List.mem_of_getElem? ht)
  refine hi.advance ht (.erase hi id) rfl rfl ?_
  cases stopper with
  | update => exact Std.ExtTreeMap.getElem?_erase_self
  | delete account =>
    obtain ⟨rfl, hfresh⟩ := hsafe
    exact ⟨rfl, hfresh, Std.ExtTreeMap.getElem?_erase_self⟩

theorem Inv.close (hi : Inv u) {i : ℕ} {id : GoString} {child : Option ℕ} {stopper : Stopper}
    (ht : u.tasks[i]? = some (.close id child stopper)) {c : Choice} {res : Router × List Task}
    (h : u.act c (.close id child stopper) = some res) :
    Inv { res.1 with tasks := u.tasks.eraseIdx i ++ res.2 } := by
  have hsafe := hi.safe _ (List.mem_of_getElem? ht)
  simp only [Router.act] at h
  split at h
  · cases h
    dsimp only
    split
    · exact hi.advance ht (.refl hi) rfl rfl hsafe
    · exact hi.advance ht (.refl hi) rfl rfl trivial
  · cases h
    obtain ⟨rfl, hfresh⟩ := hsafe
    exact hi.advance ht (.refl hi) rfl rfl hfresh
  · cases h
    obtain ⟨rfl, _⟩ := hsafe
    dsimp only
    split
    · exact hi.advance ht (.refl hi) rfl rfl trivial
    · exact hi.advance ht (.refl hi) rfl rfl trivial

theorem Inv.monitor (hi : Inv u) {i child : ℕ} {id : GoString} (ht : u.tasks[i]? = some (.monitor id child))
    {c : Choice} {res : Router × List Task} (h : u.act c (.monitor id child) = some res) :
    Inv { res.1 with tasks := u.tasks.eraseIdx i ++ res.2 } := by
  simp only [Router.act] at h
  split at h
  · split at h
    · cases h
      exact hi.leave ht rfl (.removeChildIfCurrent hi id child)
        (removeChildIfCurrent_locks u id child) (by simp [Task.holds, Task.Safe])
    · cases h
      exact hi.leave ht rfl (.refl hi) rfl (by simp)
  · cases h

theorem Inv.exited (hi : Inv u) {i : ℕ} {id : GoString} (ht : u.tasks[i]? = some (.exited id))
    {c : Choice} {res : Router × List Task} (h : u.act c (.exited id) = some res) :
    Inv { res.1 with tasks := u.tasks.eraseIdx i ++ res.2 } := by
  simp only [Router.act] at h
  split at h <;> cases h
  · refine hi.leave ht rfl (.refl hi) rfl ?_
    dsimp only
    split <;> simp [Task.holds, Task.Safe]
  · exact hi.leave ht rfl (.refl hi) rfl (by simp)

theorem Inv.timer (hi : Inv u) {i : ℕ} {id : GoString} (ht : u.tasks[i]? = some (.timer id))
    {c : Choice} {res : Router × List Task} (h : u.act c (.timer id) = some res) :
    Inv { res.1 with tasks := u.tasks.eraseIdx i ++ res.2 } := by
  simp only [Router.act] at h
  split at h <;> cases h
  · refine hi.leave ht rfl (.refl hi) rfl ?_
    dsimp only
    split <;> simp [Task.holds, Task.Safe]
  · exact hi.leave ht rfl (.refl hi) rfl (by simp)

/-- The account of a `startChild` that takes its lock is not off when it is fresh. -/
theorem Inv.queued (hi : Inv u) {i : ℕ} {origin : Origin} {account : Account}
    (ht : u.tasks[i]? = some (.queued origin account)) (hfresh : (Task.queued origin account).fresh u = true)
    {c : Choice} {res : Router × List Task} (h : u.act c (.queued origin account) = some res) :
    Inv { res.1 with tasks := u.tasks.eraseIdx i ++ res.2 } := by
  simp only [Router.act] at h
  split at h
  · cases h
  · rename_i hfree
    cases h
    refine hi.acquire ht hfree rfl rfl fun _ => ?_
    rcases Bool.or_eq_true_iff.mp hfresh with henabled | hruns
    · exact hi.notMem_off henabled
    · intro hoff
      rw [hi.idle.registered _ hoff] at hruns
      cases hruns

theorem Inv.remove (hi : Inv u) {i : ℕ} {account : Account} (ht : u.tasks[i]? = some (.remove account))
    {c : Choice} {res : Router × List Task} (h : u.act c (.remove account) = some res) :
    Inv { res.1 with tasks := u.tasks.eraseIdx i ++ res.2 } := by
  have hsafe := hi.safe _ (List.mem_of_getElem? ht)
  cases h
  have hk := Keeps.commit (t := .remove account) hi
    ((u.machine.facing c.outcomes).removeAccount c.platform account.id c.ok).2
  dsimp only
  split
  · exact hi.advance ht hk rfl rfl hsafe.2
  · exact hi.advance ht hk rfl rfl fun hon hoff => hsafe.1 hon (Finset.mem_filter.mp hoff).1

theorem Inv.snapshot (hi : Inv u) {i : ℕ} {id : GoString} {disabled : Bool}
    (ht : u.tasks[i]? = some (.snapshot id disabled)) {c : Choice} {res : Router × List Task}
    (h : u.act c (.snapshot id disabled) = some res) :
    Inv { res.1 with tasks := u.tasks.eraseIdx i ++ res.2 } := by
  have hsafe := hi.safe _ (List.mem_of_getElem? ht)
  cases h
  refine hi.advance ht (.refl hi) rfl rfl ?_
  cases disabled with
  | false => trivial
  | true =>
    rw [Bool.true_and]
    cases u.machine.store.accountExists id with
    | false => trivial
    | true => exact hsafe

theorem Inv.loginRead (hi : Inv u) {i : ℕ} {id : GoString} (ht : u.tasks[i]? = some (.loginRead id))
    {c : Choice} {res : Router × List Task} (h : u.act c (.loginRead id) = some res) :
    Inv { res.1 with tasks := u.tasks.eraseIdx i ++ res.2 } := by
  have hunlock : Inv { u with tasks := u.tasks.eraseIdx i ++ [.loginUnlock id] } :=
    hi.advance ht (.refl hi) rfl rfl trivial
  simp only [Router.act] at h
  split at h
  · cases h
    exact hunlock
  · rename_i account haccount
    split at h
    · cases h
      exact hunlock
    · split at h
      · cases h
        exact hunlock
      · cases h
        exact hi.advance ht (.refl hi) rfl (congrArg some (account_id haccount)) (hi.fresh haccount)

/-- A step of any task but `startChild` waiting for its lock, whose account must be fresh. -/
theorem Inv.act (hi : Inv u) {i : ℕ} (ht : u.tasks[i]? = some t) {c : Choice}
    (hfresh : FreshStart u (.go i c)) {res : Router × List Task} (h : u.act c t = some res) :
    Inv { res.1 with tasks := u.tasks.eraseIdx i ++ res.2 } := by
  have hsafe := hi.safe t (List.mem_of_getElem? ht)
  cases t with
  | monitor id child => exact hi.monitor ht h
  | exited id => exact hi.exited ht h
  | timer id => exact hi.timer ht h
  | queued origin account => exact hi.queued ht (hfresh _ ht) h
  | start caller account next =>
    cases h
    exact hi.startStep ht c
  | started origin id ok =>
    cases h
    refine hi.release ht rfl (.bookkeeping hi _ u.mutation) rfl ?_
    cases origin <;> cases ok <;> simp [Task.holds, Task.Safe]
  | disable id =>
    cases h
    exact hi.leave ht rfl (.commit hi _) rfl (by simp)
  | wait r =>
    simp only [Router.act] at h
    split at h
    · cases h
    · cases h
      exact hi.leave ht rfl (.bookkeeping hi u.locks true) rfl (by simp [Task.holds, Task.Safe])
  | guard r =>
    simp only [Router.act] at h
    split at h <;> cases h <;>
      exact hi.leave ht rfl (.refl hi) rfl (by simp [Task.holds, Task.Safe])
  | lock r =>
    simp only [Router.act] at h
    split at h
    · cases h
    · rename_i hfree
      cases h
      exact hi.acquire ht hfree rfl rfl trivial
  | lookup r => exact hi.lookup ht h
  | apply previous label enabled => exact hi.apply ht h
  | rollback id enabled =>
    cases h
    exact hi.advance ht (.commit hi _) rfl rfl trivial
  | halt id stopper => exact hi.halt ht h
  | close id child stopper => exact hi.close ht h
  | disableHeld id =>
    cases h
    exact hi.advance ht (.commit hi _) rfl rfl trivial
  | remove account => exact hi.remove ht h
  | refused account =>
    simp only [Router.act] at h
    split at h <;> cases h
    · exact hi.advance ht (.refl hi) rfl rfl hsafe
    · exact hi.advance ht (.refl hi) rfl rfl trivial
  | snapshot id disabled => exact hi.snapshot ht h
  | unlock id off =>
    cases h
    exact hi.release ht rfl (.unlock hi hsafe rfl) rfl (by simp [Task.holds, Task.Safe])
  | unlockMutation =>
    cases h
    exact hi.leave ht rfl (.bookkeeping hi u.locks false) rfl (by simp)
  | login id =>
    simp only [Router.act] at h
    split at h
    · cases h
    · rename_i hfree
      cases h
      exact hi.acquire ht hfree rfl rfl trivial
  | loginRead id => exact hi.loginRead ht h
  | loginUnlock id =>
    cases h
    exact hi.release ht rfl (.bookkeeping hi _ u.mutation) rfl (by simp)

theorem Inv.spawn (hi : Inv u) {t : Task} (hheld : t.holds = none) (hsafe : t.Safe u) :
    Inv { u with tasks := u.tasks ++ [t] } where
  exclusive := hi.exclusive.enter hheld
  safe := fun t' ht' => by
    rcases List.mem_append.mp ht' with ht' | ht'
    · exact (hi.safe t' ht').frame fun id _ => .refl id
    · exact List.mem_singleton.mp ht' ▸ hsafe.frame fun id _ => .refl id
  disabled := hi.disabled
  idle := ⟨hi.idle.registered, hi.idle.started⟩

theorem Inv.commit (hi : Inv u) (m : Machine) : Inv (u.commit m) := by
  have hk := Keeps.commit (t := .unlockMutation) hi m
  exact ⟨hi.exclusive, fun t ht => (hi.safe t ht).frame fun id _ => hk.quiet id (by simp [Task.holds]),
    hk.disabled, hk.idle⟩

theorem Inv.exit (hi : Inv u) {child : ℕ} {process : Process} (h : u.processes[child]? = some process) :
    Inv { u with processes := u.processes.set child { process with exited := true } } where
  exclusive := hi.exclusive
  safe := fun t ht => (hi.safe t ht).frame fun id _ => ⟨fun h => h, fun h => h⟩
  disabled := hi.disabled
  idle := by
    refine ⟨hi.idle.registered, fun p hp => ?_⟩
    rcases List.mem_or_eq_of_mem_set hp with hp | rfl
    · exact hi.idle.started p hp
    · exact hi.idle.started process (List.mem_of_getElem? h)

theorem Inv.step {action : Action} (hi : Inv u) (h : Guarded FreshStart (Fires step) u action v) :
    Inv v := by
  obtain ⟨hfresh, h⟩ := h
  cases action with
  | addAccount p label draws now outcomes =>
    cases h
    have hadded := hi.commit ({ u.machine with outcomes := outcomes }.addAccount p label draws now).2
    split
    · exact hadded.spawn rfl trivial
    · exact hadded
  | request r =>
    cases h
    exact hi.spawn rfl trivial
  | startLogin id =>
    cases h
    exact hi.spawn rfl trivial
  | exit child =>
    obtain ⟨process, hprocess, rfl⟩ := Option.map_eq_some_iff.mp h
    exact hi.exit hprocess
  | go i c =>
    obtain ⟨t, ht, h⟩ := Option.bind_eq_some_iff.mp h
    obtain ⟨res, hres, rfl⟩ := Option.map_eq_some_iff.mp h
    exact hi.act ht hfresh hres

end Steps

theorem inv_init (m : Machine) (requestSpending : Bool) (started : List GoString) :
    Inv (Router.init m requestSpending started) where
  exclusive := by
    intro k
    rw [countP_of_none]
    · rfl
    · intro t ht
      obtain ⟨_, _, rfl⟩ := List.mem_map.mp ht
      rfl
  safe := fun t ht => by
    obtain ⟨_, _, rfl⟩ := List.mem_map.mp ht
    trivial
  disabled := by simp [Router.init]
  idle := by
    refine ⟨by simp [Router.init], fun p hp => ?_⟩
    obtain ⟨_, _, rfl⟩ := List.mem_map.mp hp
    rfl

/-- In a run in which `startChild` always takes its lock for an account that is still
enabled, or whose child still runs, an account that is off has no child. -/
theorem fresh_runs_keep_off_accounts_idle {m : Machine} {requestSpending : Bool}
    {started : List GoString} {u : Router} {actions : List Action}
    (h : Runs (Guarded FreshStart (Fires step)) (Router.init m requestSpending started) actions u) :
    OffAccountsIdle u :=
  (h.invariant (inv_init m requestSpending started) fun _ _ _ hi hs => hi.step hs).idle

/-! ## Runs -/

instance (u : Router) (action : Action) : Decidable (FreshStart u action) :=
  match action with
  | .go i _ => inferInstanceAs (Decidable (∀ t ∈ u.tasks[i]?, t.fresh u = true))
  | .addAccount _ _ _ _ _ | .request _ | .startLogin _ | .exit _ => isTrue trivial

def go (i n : ℕ) : List Action := List.replicate n (.go i ⟨plainPlatform, [], true⟩)

def disableB : Action := .request (.update (lit "b") none (some false))

/-- The child of `b` exits and is restarted; then `b` is disabled and a sign-in refused. -/
theorem fresh_runs_keep_off_accounts_idle_restarted :
    ∃ u, OffAccountsIdle u ∧ lit "b" ∈ u.off ∧ u.processes.length = 3 := by
  have h : (exec (guard FreshStart step)
      (Router.init (twoAccounts (lit "a")) true [lit "a", lit "b"])
      (.exit 1 :: go 1 10 ++ disableB :: go 2 10 ++ .startLogin (lit "b") :: go 2 3)).any
        (fun u => lit "b" ∈ u.off ∧ u.processes.length = 3) = true := by
    decide
  obtain ⟨u, hr, hu⟩ := guarded_runs_of_exec_any h
  exact ⟨u, fresh_runs_keep_off_accounts_idle hr, of_decide_eq_true hu⟩

/-- The restart timer of `b` reads the account, `b` is disabled, and then the timer's
`startChild` takes the lock and starts a child. -/
theorem stale_restart_starts_off_account :
    ∃ actions u, Runs (Fires step) (Router.init (twoAccounts (lit "a")) true [lit "a", lit "b"])
      actions u ∧ ¬ OffAccountsIdle u := by
  have h : (exec step (Router.init (twoAccounts (lit "a")) true [lit "a", lit "b"])
      (.exit 1 :: go 1 3 ++ disableB :: go 2 10 ++ go 1 5)).any
        (fun u => lit "b" ∈ u.off ∧ u.children[lit "b"]? = some 2) = true := by
    decide
  obtain ⟨u, hr, hu⟩ := runs_of_exec_any h
  obtain ⟨hoff, hchild⟩ := of_decide_eq_true hu
  refine ⟨_, u, hr, fun hidle => ?_⟩
  rw [hidle.registered _ hoff] at hchild
  cases hchild

end SubscriptionRouter.ChildLifecycle
