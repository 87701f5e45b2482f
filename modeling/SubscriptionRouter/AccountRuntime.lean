import Mathlib
import SubscriptionRouter.Locks
import SubscriptionRouter.SpendPolicy
import SubscriptionRouter.StoreState
import SubscriptionRouter.Transitions

set_option autoImplicit false

/-!
# The runtime records of the accounts

Sign-ins, account snapshots, account updates and the supervision of the children all
write the runtime record of an account. The goroutines that hold the account's
operation lock exclude each other; snapshots, supervisors and the handler of
notifications do not take it.

A goroutine goes from one access to the shared state to the next. What it writes to
the record is an `Update`, one for each closure of the source.
-/
namespace SubscriptionRouter.AccountRuntime
open GoText StoreState SpendPolicy Transitions Locks

/-- Nanoseconds. -/
def second : ℕ := 10 ^ 9

def restartFailureLimit : ℤ := 5
def restartBaseDelay : ℕ := second
def restartMaximumDelay : ℕ := 30 * second
def restartCircuitDelay : ℕ := 60 * second

/-- The loop of `restartDelay`, with the number of rounds left. -/
def doubleDelay : ℕ → ℕ → ℕ
  | 0, delay => delay
  | rounds + 1, delay =>
    if delay < restartMaximumDelay then doubleDelay rounds (delay * 2) else delay

def restartDelay (failures : ℤ) : ℕ :=
  min (doubleDelay (failures - 1).toNat restartBaseDelay) restartMaximumDelay

def loginStarting : GoString := lit "__starting__"

/-- `accountRuntime`; a zero time is `none`. -/
structure Runtime where
  status : GoString := []
  err : GoString := []
  loginID : GoString := []
  loginCancel : Bool := false
  failures : ℤ := 0
  circuitUntil : Option ℤ := none

/-- What an operation writes to the record of an account. The circuits that had been
opened when a child answered, and the number of the circuit a timer belongs to, are
there for the history only. -/
inductive Update where
  | disabled
  | pending
  | failure (err : GoString)
  | childFailure (err : GoString)
  | healthy (status : GoString) (logout : Bool) (answered : ℕ)
  | started
  | reserve
  | clearReservation (err : Option GoString)
  | issued (loginID : GoString)
  | storeLogin (child : ℕ) (loginID : GoString)
  | cancelling (loginID : GoString) (cancel : Bool)
  | cancelled (loginID : GoString) (answered : ℕ)
  | completed (loginID : GoString) (success : Bool) (err : Option GoString)
  | openCircuit (delay : ℕ)
  | closeCircuit (own : Option ℕ)

def Update.apply (now : ℤ) (r : Runtime) : Update → Runtime
  | .disabled => { status := lit "disabled" }
  | .pending => { status := lit "pending" }
  | .failure err => { r with status := lit "error", err := err }
  | .childFailure err =>
    { r with
      status := lit "restarting"
      loginID := []
      loginCancel := false
      failures := addInt r.failures 1
      err := err }
  | .healthy status _ _ => { status := status }
  | .started => { r with status := lit "disconnected", err := [] }
  | .reserve =>
    { r with status := lit "pending", err := [], loginID := loginStarting, loginCancel := false }
  | .clearReservation err =>
    let r := if r.loginID = loginStarting then { r with loginID := [] } else r
    match err with
    | some err => { r with status := lit "error", err := err }
    | none => r
  | .issued _ => r
  | .storeLogin _ loginID => if r.loginID = loginStarting then { r with loginID := loginID } else r
  | .cancelling loginID cancel =>
    if r.loginID = loginID then { r with loginCancel := cancel } else r
  | .cancelled loginID _ =>
    { status := lit "disconnected", loginID := if r.loginID = loginID then [] else r.loginID }
  | .completed loginID success err =>
    if r.loginID ≠ loginID then r
    else if success || r.loginCancel then
      { r with loginID := [], loginCancel := false, status := lit "disconnected", err := [] }
    else
      { r with
        loginID := []
        loginCancel := false
        status := lit "error"
        err := match err with
          | some err => if trimSpace err ≠ [] then err else lit "Sign-in failed"
          | none => lit "Sign-in failed" }
  | .openCircuit delay => { r with status := lit "error", circuitUntil := some (now + delay) }
  | .closeCircuit _ => { r with circuitUntil := none }

/-! ## The goroutines -/

/-- The next step of `accountSnapshotWithProfile`. -/
inductive Snapshot where
  | account
  | runtime (enabled : Bool)
  | child (runtime : Runtime)
  | request (runtime : Runtime)
  | mark (runtime : Runtime) (connected : Bool) (answered : ℕ)
  | failed (err : GoString)

/-- Who called `startChildLocked`. -/
inductive Caller where
  | restart
  | update (rollbackEnabled : Bool)
  | login

/-- The next step of `startChildLocked`. A launch knows how many circuits had been
opened when it found the account's circuit closed. -/
inductive Start where
  | check
  | inspect (child : ℕ)
  | discard (child : ℕ)
  | circuit
  | launch (checked : ℕ)
  | register (child : ℕ)
  | initializeChild (child : ℕ)
  | drop (child : ℕ) (err : GoString)
  | settle (child : ℕ)

/-- The next step of `StartLogin`. -/
inductive Login where
  | reserve
  | account
  | child (enabled : Bool)
  | request (child : ℕ)
  | response (child : ℕ) (loginID : GoString)
  | store (child : ℕ) (loginID : GoString)
  | clear (err : Option GoString)

/-- The next step of `CancelLogin`. -/
inductive Cancel where
  | child
  | read
  | mark (loginID : GoString)
  | request (loginID : GoString)
  | undo (loginID : GoString)
  | finish (loginID : GoString) (answered : ℕ)

/-- The next step of `Logout`. -/
inductive Logout where
  | child
  | request
  | mark (answered : ℕ)

/-- The next step of `UpdateAccount`. -/
inductive Change where
  | lookup (label : Option GoString) (enabled : Option Bool)
  | apply (previous : Account) (label : Option GoString) (enabled : Option Bool)
  | stop
  | disabled (child : Option ℕ)
  | close (child : Option ℕ)
  | pending (rollbackEnabled enabled : Bool)
  | rollback (rollbackEnabled : Bool) (err : GoString)
  | failed (err : GoString)
  | snapshot (next : Snapshot)

/-- What runs under the operation lock of an account. -/
inductive Op where
  | login (next : Login)
  | cancel (next : Cancel)
  | logout (next : Logout)
  | change (next : Change)
  | start (caller : Caller) (enabled : Bool) (next : Start)

/-- What waits for the operation lock of an account. -/
inductive Request where
  | login
  | cancel
  | logout
  | change (label : Option GoString) (enabled : Option Bool)
  | restart (enabled : Bool)

def Request.op : Request → Op
  | .login => .login .reserve
  | .cancel => .cancel .child
  | .logout => .logout .child
  | .change label enabled => .change (.lookup label enabled)
  | .restart enabled => .start .restart enabled .check

/-- The next step of `monitorChild` or `scheduleRestart`. A timer knows the number of
the circuit it was set for. -/
inductive Supervise where
  | monitor (child : ℕ)
  | exited
  | failed (err : GoString)
  | openCircuit
  | arm (delay : ℕ) (own : Option ℕ)
  | timer (deadline : ℤ) (own : Option ℕ)
  | fired (own : Option ℕ)
  | clear (enabled : Bool) (own : Option ℕ)
  | restartFailed (err : GoString)

/-- A goroutine without the lock. -/
inductive Free where
  | waiting (r : Request)
  | refresh (next : Snapshot)
  | supervise (next : Supervise)

/-- A goroutine that another one starts, or becomes when it lets its lock go. -/
inductive Spawned where
  | monitor (child : ℕ)
  | restart (enabled : Bool)
  | restartFailed (err : GoString)

def Spawned.free : Spawned → Free
  | .monitor child => .supervise (.monitor child)
  | .restart enabled => .waiting (.restart enabled)
  | .restartFailed err => .supervise (.restartFailed err)

inductive Stage where
  | free (next : Free)
  | holding (op : Op)

/-- A goroutine that works on an account. -/
structure Task where
  id : GoString
  stage : Stage

/-- The account whose operation lock a task holds. -/
def Task.holds (t : Task) : Option GoString :=
  match t.stage with
  | .free _ => none
  | .holding _ => some t.id

/-- A started app-server process. -/
structure Process where
  account : GoString
  exited : Bool
  /-- A circuit of its account was in force when it was started. -/
  startedOpen : Bool

/-- What has happened, for the statements only. -/
structure History where
  /-- The sign-in that `StartLogin` has returned and the child that issued it, until it
  is cancelled or completed or the account is logged out or disabled. -/
  outstanding : GoMap (GoString × ℕ) := ∅
  /-- The sign-ins that `StartLogin` has returned since the child issued them. -/
  returned : Finset (GoString × GoString) := ∅
  /-- The sign-ins whose completion has been handled since the child issued them. -/
  handled : Finset (GoString × GoString) := ∅
  /-- How many circuits have been opened. -/
  openings : ℕ := 0
  /-- The end and the number of the last circuit opened for an account, unless the user
  has disabled or enabled the account, logged it out or cancelled its sign-in since, or
  its child has answered a health check that was asked of it. -/
  circuits : GoMap (ℤ × ℕ) := ∅

structure Router where
  requestSpending : Bool
  machine : Machine
  children : GoMap ℕ
  processes : List Process
  runtime : GoMap Runtime
  clock : ℤ
  /-- The accounts whose operation lock is held. -/
  locks : Finset GoString
  tasks : List Task
  history : History

/-- The router after `Start` has started the children of some accounts and set the
status of every account. -/
def Router.init (m : Machine) (requestSpending : Bool) (started : List GoString)
    (statuses : GoMap GoString) (clock : ℤ) : Router where
  requestSpending := requestSpending
  machine := m
  children := started.zipIdx.foldl (fun children e => children.insert e.1 e.2) ∅
  processes := started.map fun id => ⟨id, false, false⟩
  runtime := statuses.map fun _ status => { status := status }
  clock := clock
  locks := ∅
  tasks := started.zipIdx.map fun e => ⟨e.1, .free (.supervise (.monitor e.2))⟩
  history := {}

def Router.runtimeState (u : Router) (id : GoString) : Runtime := (u.runtime[id]?).getD {}

def Router.exited (u : Router) (child : ℕ) : Bool := (u.processes[child]?).any (·.exited)

/-- `circuitUntil` is not zero and lies in the future. -/
def Router.circuitOpen (u : Router) (id : GoString) : Bool :=
  (u.runtimeState id).circuitUntil.any fun circuitUntil => u.clock < circuitUntil

/-- A circuit that has not been excused ends in the future. -/
def Router.inForce (u : Router) (id : GoString) : Bool :=
  (u.history.circuits[id]?).any fun circuit => u.clock < circuit.1

def Router.signInPending (u : Router) : Bool := u.runtime.toList.any fun e => e.2.loginID ≠ []

def Router.removeChildIfCurrent (u : Router) (id : GoString) (child : ℕ) : GoMap ℕ :=
  if u.children[id]? = some child then u.children.erase id else u.children

/-- What an update adds to the history. -/
def History.note (h : History) (now : ℤ) (id : GoString) : Update → History
  | .disabled => { h with outstanding := h.outstanding.erase id, circuits := h.circuits.erase id }
  | .pending => { h with circuits := h.circuits.erase id }
  | .healthy _ logout answered =>
    { h with
      outstanding := if logout then h.outstanding.erase id else h.outstanding
      circuits := if (h.circuits[id]?).any (·.2 ≤ answered) then h.circuits.erase id
        else h.circuits }
  | .reserve => { h with handled := h.handled.erase (id, loginStarting) }
  | .issued loginID =>
    { h with
      returned := h.returned.erase (id, loginID)
      handled := h.handled.erase (id, loginID) }
  | .storeLogin child loginID =>
    { h with
      outstanding := if (id, loginID) ∈ h.handled then h.outstanding
        else h.outstanding.insert id (loginID, child)
      returned := insert (id, loginID) h.returned }
  | .cancelled loginID answered =>
    { h with
      outstanding := if (h.outstanding[id]?).any (·.1 = loginID) then h.outstanding.erase id
        else h.outstanding
      circuits := if (h.circuits[id]?).any (·.2 ≤ answered) then h.circuits.erase id
        else h.circuits }
  | .completed loginID _ _ =>
    { h with
      outstanding := if (h.outstanding[id]?).any (·.1 = loginID) then h.outstanding.erase id
        else h.outstanding
      handled := insert (id, loginID) h.handled }
  | .openCircuit delay =>
    { h with
      openings := h.openings + 1
      circuits := h.circuits.insert id (now + delay, h.openings + 1) }
  | .failure _ | .childFailure _ | .started | .clearReservation _ | .cancelling _ _
  | .closeCircuit _ => h

/-- `updateRuntime` and `setRuntime`. -/
def Router.updateRuntime (u : Router) (id : GoString) (x : Update) : Router :=
  { u with
    runtime := u.runtime.insert id (x.apply u.clock (u.runtimeState id))
    history := u.history.note u.clock id x }

/-- What the environment decides for a step: the outcomes of file-system calls, the error
of whatever else the step waits for, and the member that it reads from a response. -/
structure Choice where
  outcomes : List (Option Fault) := []
  failure : Option GoString := none
  result : Option GoString := none

/-- One step of a goroutine: what it leaves in the shared state, the goroutines it
starts, and its own next step. -/
structure Outcome (σ : Type) where
  machine : Machine
  children : GoMap ℕ
  launched : Bool := false
  update : Option Update := none
  spawned : List Spawned := []
  next : Option σ

def Outcome.map {σ τ : Type} (f : σ → τ) (o : Outcome σ) : Outcome τ :=
  { machine := o.machine
    children := o.children
    launched := o.launched
    update := o.update
    spawned := o.spawned
    next := o.next.map f }

def Router.goOn {σ : Type} (u : Router) (next : σ) : Outcome σ :=
  { machine := u.machine, children := u.children, next := some next }

def Router.done {σ : Type} (u : Router) : Outcome σ :=
  { machine := u.machine, children := u.children, next := none }

def Snapshot.act (u : Router) (id : GoString) (c : Choice) : Snapshot → Outcome Snapshot
  | .account => match u.machine.store.account id with
    | some a => u.goOn (.runtime a.enabled)
    | none => u.done
  | .runtime enabled => if enabled then u.goOn (.child (u.runtimeState id)) else u.done
  | .child r => match u.children[id]? with
    | some _ => u.goOn (.request r)
    | none => u.done
  | .request r => match c.failure, c.result with
    | some err, _ => u.goOn (.failed err)
    | none, some rawAccount =>
      u.goOn (.mark r (rawAccount ≠ lit "null" && rawAccount ≠ []) u.history.openings)
    | none, none => u.done
  | .mark r connected answered =>
    if connected then { u.done with update := some (.healthy (lit "ready") false answered) }
    else if r.loginID ≠ [] then u.done
    else if r.status = lit "error" ∧ r.err ≠ [] then u.done
    else { u.done with update := some (.healthy (lit "disconnected") false answered) }
  | .failed err => { u.done with update := some (.failure err) }

/-- What follows `startChildLocked`. -/
def Caller.finish (u : Router) : Caller → Except GoString ℕ → Outcome Op
  | .restart, .ok _ => u.done
  | .restart, .error err => { u.done with spawned := [.restartFailed err] }
  | .update _, .ok _ => u.goOn (.change (.snapshot .account))
  | .update rollbackEnabled, .error err => u.goOn (.change (.rollback rollbackEnabled err))
  | .login, .ok child => u.goOn (.login (.request child))
  | .login, .error err => u.goOn (.login (.clear (some err)))

/-- `startChildLocked`. -/
def Start.act (u : Router) (id : GoString) (c : Choice) (caller : Caller) (enabled : Bool) :
    Start → Outcome Op
  | .check =>
    if !enabled then caller.finish u (.error (lit "account " ++ id ++ lit " is disabled"))
    else match u.children[id]? with
      | some child => u.goOn (.start caller enabled (.inspect child))
      | none => u.goOn (.start caller enabled .circuit)
  | .inspect child =>
    if u.exited child then u.goOn (.start caller enabled (.discard child))
    else caller.finish u (.ok child)
  | .discard child =>
    { u.goOn (.start caller enabled .circuit) with children := u.removeChildIfCurrent id child }
  | .circuit =>
    if u.circuitOpen id then
      caller.finish u (.error (lit "account " ++ id ++ lit " restart circuit is open until " ++
        c.result.getD []))
    else u.goOn (.start caller enabled (.launch u.history.openings))
  | .launch _ => match c.failure with
    | some err => caller.finish u (.error err)
    | none => { u.goOn (.start caller enabled (.register u.processes.length)) with launched := true }
  | .register child =>
    { u.goOn (.start caller enabled (.initializeChild child)) with
      children := u.children.insert id child }
  | .initializeChild child => match c.failure with
    | some err => u.goOn (.start caller enabled (.drop child err))
    | none => u.goOn (.start caller enabled (.settle child))
  | .drop child err =>
    { caller.finish u (.error err) with children := u.removeChildIfCurrent id child }
  | .settle child =>
    { caller.finish u (.ok child) with
      update := some .started
      spawned := [.monitor child] }

def Login.act (u : Router) (id : GoString) (c : Choice) : Login → Outcome Op
  | .reserve =>
    if u.signInPending then u.done
    else { u.goOn (.login .account) with update := some .reserve }
  | .account => match u.machine.store.account id with
    | some a =>
      if a.enabled then u.goOn (.login (.child a.enabled)) else u.goOn (.login (.clear none))
    | none => u.goOn (.login (.clear none))
  | .child enabled => match u.children[id]? with
    | some process => u.goOn (.login (.request process))
    | none => u.goOn (.start .login enabled .check)
  | .request process => match c.failure with
    | some err => u.goOn (.login (.clear (some err)))
    | none =>
      if trimSpace (c.result.getD []) = [] then
        u.goOn (.login (.clear (some (lit "app-server returned no loginId"))))
      else u.goOn (.login (.response process (c.result.getD [])))
  -- The read loop of the child has the response, `StartLogin` resumes later.
  | .response process loginID =>
    { u.goOn (.login (.store process loginID)) with update := some (.issued loginID) }
  | .store process loginID => { u.done with update := some (.storeLogin process loginID) }
  | .clear err => { u.done with update := some (.clearReservation err) }

def Cancel.act (u : Router) (id : GoString) (c : Choice) : Cancel → Outcome Cancel
  | .child => match u.children[id]? with
    | some _ => u.goOn .read
    | none => u.done
  | .read =>
    if (u.runtimeState id).loginID = [] ∨ (u.runtimeState id).loginID = loginStarting then u.done
    else u.goOn (.mark (u.runtimeState id).loginID)
  | .mark loginID => { u.goOn (.request loginID) with update := some (.cancelling loginID true) }
  | .request loginID => match c.failure with
    | some _ => u.goOn (.undo loginID)
    | none => u.goOn (.finish loginID u.history.openings)
  | .undo loginID => { u.done with update := some (.cancelling loginID false) }
  | .finish loginID answered => { u.done with update := some (.cancelled loginID answered) }

def Logout.act (u : Router) (id : GoString) (c : Choice) : Logout → Outcome Logout
  | .child => match u.children[id]? with
    | some _ => u.goOn .request
    | none => u.done
  | .request => match c.failure with
    | some _ => u.done
    | none => u.goOn (.mark u.history.openings)
  | .mark answered => { u.done with update := some (.healthy (lit "disconnected") true answered) }

def Change.act (u : Router) (id : GoString) (c : Choice) : Change → Outcome Op
  | .lookup label enabled => match u.machine.store.account id with
    | some previous =>
      if enabled = some false ∧ previous.controller = true then u.done
      else u.goOn (.change (.apply previous label enabled))
    | none => u.done
  | .apply previous label enabled =>
    let written := (u.machine.facing c.outcomes).updateAccount id label enabled
    match written.1, enabled with
    | .error _, _ => { u.done with machine := written.2 }
    | .ok _, none => { u.goOn (.change (.snapshot .account)) with machine := written.2 }
    | .ok _, some false => { u.goOn (.change .stop) with machine := written.2 }
    | .ok updated, some true =>
      { u.goOn (.change (.pending previous.enabled updated.enabled)) with machine := written.2 }
  | .stop =>
    { u.goOn (.change (.disabled u.children[id]?)) with children := u.children.erase id }
  | .disabled child => { u.goOn (.change (.close child)) with update := some .disabled }
  | .close child =>
    if child.isSome && c.failure.isSome then u.done else u.goOn (.change (.snapshot .account))
  | .pending rollbackEnabled enabled =>
    { u.goOn (.start (.update rollbackEnabled) enabled .check) with update := some .pending }
  | .rollback rollbackEnabled err =>
    { u.goOn (.change (.failed err)) with
      machine := ((u.machine.facing c.outcomes).updateAccount id none (some rollbackEnabled)).2 }
  | .failed err => { u.done with update := some (.failure err) }
  | .snapshot next => (next.act u id c).map fun next => .change (.snapshot next)

def Op.act (u : Router) (id : GoString) (c : Choice) : Op → Outcome Op
  | .login next => next.act u id c
  | .cancel next => (next.act u id c).map .cancel
  | .logout next => (next.act u id c).map .logout
  | .change next => next.act u id c
  | .start caller enabled next => next.act u id c caller enabled

def Supervise.act (u : Router) (id : GoString) : Supervise → Option (Outcome Supervise)
  | .monitor child =>
    if u.exited child then
      if u.children[id]? = some child then
        some { u.goOn .exited with children := u.children.erase id }
      else some u.done
    else none
  | .exited => match u.machine.store.account id with
    | some account =>
      some (if account.enabled then u.goOn (.failed (lit "Codex app-server exited unexpectedly"))
        else u.done)
    | none => some u.done
  | .failed err =>
    let failures := ((Update.childFailure err).apply u.clock (u.runtimeState id)).failures
    some { u.goOn (if restartFailureLimit ≤ failures then .openCircuit
        else .arm (restartDelay failures) none) with update := some (.childFailure err) }
  | .openCircuit =>
    some { u.goOn (.arm restartCircuitDelay (some (u.history.openings + 1))) with
      update := some (.openCircuit restartCircuitDelay) }
  | .arm delay own => some (u.goOn (.timer (u.clock + delay) own))
  | .timer deadline own => if deadline ≤ u.clock then some (u.goOn (.fired own)) else none
  | .fired own => match u.machine.store.account id with
    | some account =>
      some (if account.enabled then u.goOn (.clear account.enabled own) else u.done)
    | none => some u.done
  | .clear enabled own =>
    some { u.done with
      update := some (.closeCircuit own)
      spawned := [.restart enabled] }
  | .restartFailed err =>
    some { u.goOn (.failed (lit "app-server restart failed")) with update := some (.failure err) }

/-- The next step of a task that does not wait for its lock. -/
def Task.act (u : Router) (c : Choice) (t : Task) : Option (Outcome Stage) :=
  match t.stage with
  | .free (.waiting _) => none
  | .free (.refresh next) => some ((next.act u t.id c).map fun next => .free (.refresh next))
  | .free (.supervise next) => (next.act u t.id).map (Outcome.map fun next => .free (.supervise next))
  | .holding op => some ((op.act u t.id c).map .holding)

/-- The shared state after a step on the account `id`. -/
def Router.after {σ : Type} (u : Router) (id : GoString) (o : Outcome σ) : Router :=
  let v := { u with
    machine := o.machine
    children := o.children
    processes := if o.launched then u.processes ++ [⟨id, false, u.inForce id⟩]
      else u.processes }
  match o.update with
  | some x => v.updateRuntime id x
  | none => v

/-- Task `i` does a step; a task that ends lets its lock go. -/
def Router.advance (u : Router) (i : ℕ) (t : Task) (o : Outcome Stage) : Router :=
  { u.after t.id o with
    locks := if o.next.isNone ∧ t.holds.isSome then u.locks.erase t.id else u.locks
    tasks := u.tasks.eraseIdx i ++
      (o.next.toList.map (Task.mk t.id) ++ o.spawned.map fun next => ⟨t.id, .free next.free⟩) }

inductive Action where
  | startLogin (id mode : GoString)
  | cancelLogin (id : GoString)
  | logout (id : GoString)
  | updateAccount (id : GoString) (label : Option GoString) (enabled : Option Bool)
  | refresh (id : GoString)
  /-- `handleLoginCompleted`. -/
  | completed (id loginID : GoString) (success : Bool) (err : Option GoString)
  /-- `setRuntimeFailure` by the client's `initialize` or by `publishAccountRefresh`. -/
  | runtimeFailure (id err : GoString)
  | exit (child : ℕ)
  | tick (elapsed : ℕ)
  | go (i : ℕ) (c : Choice)

def Router.spawn (u : Router) (id : GoString) (next : Free) : Router :=
  { u with tasks := u.tasks ++ [⟨id, .free next⟩] }

def step (u : Router) : Action → Option Router
  | .startLogin id mode =>
    some (if mode = lit "chatgpt" ∨ mode = lit "chatgptDeviceCode" then
      u.spawn id (.waiting .login) else u)
  | .cancelLogin id => some (u.spawn id (.waiting .cancel))
  | .logout id => some (u.spawn id (.waiting .logout))
  | .updateAccount id label enabled =>
    some (if u.requestSpending = true ∧ enabled = some false ∧
        u.machine.store.routingMode.accountID = id then u
      else u.spawn id (.waiting (.change label enabled)))
  | .refresh id => some (u.spawn id (.refresh .account))
  | .completed id loginID success err =>
    some (if loginID = [] then u else u.updateRuntime id (.completed loginID success err))
  | .runtimeFailure id err => some (u.updateRuntime id (.failure err))
  | .exit child => u.processes[child]?.map fun process =>
      { u with processes := u.processes.set child { process with exited := true } }
  | .tick elapsed => some { u with clock := u.clock + elapsed }
  | .go i c => u.tasks[i]?.bind fun t => match t.stage with
    | .free (.waiting r) =>
      if t.id ∈ u.locks then none
      else some { u with
        locks := insert t.id u.locks
        tasks := u.tasks.eraseIdx i ++ [⟨t.id, .holding r.op⟩] }
    | _ => (t.act u c).map (u.advance i t)

/-! ## Runs -/

def twoChildren : Router :=
  .init (twoAccounts (lit "a")) false [lit "a", lit "b"] ∅ 0

def go (i n : ℕ) (c : Choice) : List Action := List.replicate n (.go i c)

end SubscriptionRouter.AccountRuntime
