import Mathlib
import SubscriptionRouter.GoText
import SubscriptionRouter.Tallies
import SubscriptionRouter.Transitions

set_option autoImplicit false

/-!
# Starting children while the client initializes and `Close` runs

A start publishes its child in the table before it reads the handshake state. The
client's `initialize`, its `initialized` notification and `Close` each take a snapshot of
the table and work on that. Every one of them reads the list of accounts first and the
table next.
-/
namespace SubscriptionRouter.ChildStarts
open GoText Transitions Tallies

inductive Frame where
  | initializeRequest
  | initializedNotice
deriving DecidableEq

/-- A started app-server process. -/
structure Process where
  account : GoString
  exited : Bool := false
  /-- `Child.Close` has been called. -/
  closed : Bool := false
  /-- What the router has sent, in order, whether or not the process still reads it. -/
  sent : List Frame := []

/-- The next step of `startChildLocked`. A request carries whether the client had sent
`initialized` when the start read the handshake state. -/
inductive Start where
  | check (enabled : Bool)
  | inspect (child : ℕ)
  | discard (child : ℕ)
  | circuit
  | launch
  | register (child : ℕ)
  | handshake (child : ℕ)
  | request (child : ℕ) (initialized : Bool)
  | await (child : ℕ) (initialized : Bool)
  | notify (child : ℕ)
  | settle (child : ℕ)
  | drop (child : ℕ)
  | close (child : ℕ)

/-- The next step of `initialize`: the requests yet to be sent, the ones sent and the
ones that failed, by account. -/
inductive Client where
  | unsent
  | accounts
  | children (listed : List GoString)
  | asking (todo awaiting failed : GoMap ℕ)
  | dropping (failed : GoMap ℕ) (dropped : Option ℕ)
  | responded

/-- The next step of `handleClientNotification` for `initialized`. -/
inductive Notice where
  | unsent
  | accounts
  | children (listed : List GoString)
  | sending (entries : GoMap ℕ)
  | done

/-- The next step of `Close`. -/
inductive Closing where
  | unused
  | accounts
  | children (listed : List GoString)
  | replace (entries : GoMap ℕ)
  | closing (entries : GoMap ℕ)
  | returned

structure Router where
  /-- The ids of the accounts in the store. -/
  accounts : List GoString
  children : GoMap ℕ
  processes : List Process
  initializeParams : GoString
  initialized : Bool
  closing : Bool
  /-- The start that holds the operation lock of an account. -/
  starts : GoMap Start
  client : Client
  notice : Notice
  close : Closing

def Router.init (accounts : List GoString) : Router where
  accounts := accounts
  children := ∅
  processes := []
  initializeParams := []
  initialized := false
  closing := false
  starts := ∅
  client := .unsent
  notice := .unsent
  close := .unused

/-- `childEntries` for the accounts it has listed. -/
def Router.entries (u : Router) (listed : List GoString) : GoMap ℕ :=
  u.children.filter fun id _ => id ∈ listed

def Router.removeChildIfCurrent (u : Router) (id : GoString) (child : ℕ) : Router :=
  { u with
    children := if u.children[id]? = some child then u.children.erase id else u.children }

/-- The process has exited or is being closed, so that `SendRaw` fails. -/
def Router.gone (u : Router) (child : ℕ) : Bool :=
  (u.processes[child]?).any fun p => p.exited || p.closed

def Router.exited (u : Router) (child : ℕ) : Bool := (u.processes[child]?).any (·.exited)

def Router.modify (u : Router) (child : ℕ) (f : Process → Process) : Router :=
  { u with processes := u.processes.modify child f }

def Router.send (u : Router) (child : ℕ) (frame : Frame) : Router :=
  u.modify child fun p => { p with sent := p.sent ++ [frame] }

def Router.closeChild (u : Router) (child : ℕ) : Router :=
  u.modify child fun p => { p with closed := true }

/-- A step of `startChildLocked` for the account `id`; `ok` tells whether what it waits
for succeeds. -/
def Router.startStep (u : Router) (id : GoString) (ok : Bool) : Start → Router × Option Start
  | .check enabled =>
    if u.closing || !enabled then (u, none)
    else match u.children[id]? with
      | some child => (u, some (.inspect child))
      | none => (u, some .circuit)
  | .inspect child => (u, if u.exited child then some (.discard child) else none)
  | .discard child => (u.removeChildIfCurrent id child, some .circuit)
  | .circuit => (u, if ok then some .launch else none)
  | .launch =>
    if ok then
      ({ u with processes := u.processes ++ [{ account := id }] },
        some (.register u.processes.length))
    else (u, none)
  | .register child =>
    ({ u with children := u.children.insert id child }, some (.handshake child))
  | .handshake child =>
    (u, some (if u.initializeParams = [] then .settle child else .request child u.initialized))
  | .request child initialized =>
    (u.send child .initializeRequest,
      some (if u.gone child || !ok then .drop child else .await child initialized))
  | .await child initialized =>
    (u, some (if !ok then .drop child else if initialized then .notify child else .settle child))
  | .notify child => (u.send child .initializedNotice, some (.settle child))
  | .settle _ => (u, none)
  | .drop child => (u.removeChildIfCurrent id child, some (.close child))
  | .close child => (u.closeChild child, none)

/-- The start of an account goes on or lets the operation lock go. -/
def putStart (starts : GoMap Start) (id : GoString) : Option Start → GoMap Start
  | some next => starts.insert id next
  | none => starts.erase id

def Router.goStart (u : Router) (id : GoString) (ok : Bool) : Option Router :=
  (u.starts[id]?).map fun s =>
    let r := u.startStep id ok s
    { r.1 with starts := putStart r.1.starts id r.2 }

/-- The steps of `initialize` that do not concern one request. -/
def Router.goClient (u : Router) : Option Router :=
  match u.client with
  | .accounts => some { u with client := .children u.accounts }
  | .children listed => some { u with client := .asking (u.entries listed) ∅ ∅ }
  | .asking todo awaiting failed =>
    if todo.isEmpty && awaiting.isEmpty then some { u with client := .dropping failed none }
    else none
  | .dropping failed (some child) =>
    some { u.closeChild child with client := .dropping failed none }
  | .dropping failed none => if failed.isEmpty then some { u with client := .responded } else none
  | .unsent | .responded => none

/-- `initialize` sends its request to the child of an account. -/
def Router.ask (u : Router) (id : GoString) (ok : Bool) : Option Router :=
  match u.client with
  | .asking todo awaiting failed => (todo[id]?).map fun child =>
    { u.send child .initializeRequest with
      client := if u.gone child || !ok then .asking (todo.erase id) awaiting (failed.insert id child)
        else .asking (todo.erase id) (awaiting.insert id child) failed }
  | _ => none

/-- The request of `initialize` to the child of an account returns. -/
def Router.answer (u : Router) (id : GoString) (ok : Bool) : Option Router :=
  match u.client with
  | .asking todo awaiting failed => (awaiting[id]?).map fun child =>
    { u with
      client := .asking todo (awaiting.erase id)
        (if ok then failed else failed.insert id child) }
  | _ => none

/-- `initialize` takes a child that failed out of the table. -/
def Router.dropFailed (u : Router) (id : GoString) : Option Router :=
  match u.client with
  | .dropping failed none => (failed[id]?).map fun child =>
    { u.removeChildIfCurrent id child with
      client := .dropping (failed.erase id)
        (if u.children[id]? = some child then some child else none) }
  | _ => none

def Router.goNotice (u : Router) : Option Router :=
  match u.notice with
  | .accounts => some { u with notice := .children u.accounts }
  | .children listed => some { u with notice := .sending (u.entries listed) }
  | .sending entries => if entries.isEmpty then some { u with notice := .done } else none
  | .unsent | .done => none

def Router.notify (u : Router) (id : GoString) : Option Router :=
  match u.notice with
  | .sending entries => (entries[id]?).map fun child =>
    { u.send child .initializedNotice with notice := .sending (entries.erase id) }
  | _ => none

def Router.goClose (u : Router) : Option Router :=
  match u.close with
  | .accounts => some { u with close := .children u.accounts }
  | .children listed => some { u with close := .replace (u.entries listed) }
  | .replace entries => some { u with children := ∅, close := .closing entries }
  | .closing entries => if entries.isEmpty then some { u with close := .returned } else none
  | .unused | .returned => none

def Router.closeEntry (u : Router) (id : GoString) : Option Router :=
  match u.close with
  | .closing entries => (entries[id]?).map fun child =>
    { u.closeChild child with close := .closing (entries.erase id) }
  | _ => none

inductive Action where
  | addAccount (id : GoString)
  /-- `startChildLocked` is called with the operation lock of the account. -/
  | start (id : GoString) (enabled : Bool)
  | goStart (id : GoString) (ok : Bool)
  | exit (child : ℕ)
  /-- `monitorChild` finds that the process has exited. -/
  | monitor (child : ℕ)
  /-- The client sends `initialize`. -/
  | clientInitialize (params : GoString)
  | goClient
  | ask (id : GoString) (ok : Bool)
  | answer (id : GoString) (ok : Bool)
  | dropFailed (id : GoString)
  /-- The client sends `initialized`. -/
  | clientInitialized
  | goNotice
  | notify (id : GoString)
  | close
  | goClose
  | closeEntry (id : GoString)

/-- The client sends `initialize` once, and `initialized` once after the response. -/
def step (u : Router) : Action → Option Router
  | .addAccount id => if id ∈ u.accounts then none else some { u with accounts := u.accounts ++ [id] }
  | .start id enabled =>
    if id ∈ u.accounts ∧ u.starts[id]? = none then
      some { u with starts := u.starts.insert id (.check enabled) }
    else none
  | .goStart id ok => u.goStart id ok
  | .exit child => (u.processes[child]?).map fun _ => u.modify child fun p => { p with exited := true }
  | .monitor child => match u.processes[child]? with
    | some p => if p.exited then some (u.removeChildIfCurrent p.account child) else none
    | none => none
  | .clientInitialize params =>
    if u.closing then some u
    else match u.client with
      | .unsent => some { u with initializeParams := params, client := .accounts }
      | _ => none
  | .goClient => u.goClient
  | .ask id ok => u.ask id ok
  | .answer id ok => u.answer id ok
  | .dropFailed id => u.dropFailed id
  | .clientInitialized =>
    if u.closing then some u
    else match u.client, u.notice with
      | .responded, .unsent => some { u with initialized := true, notice := .accounts }
      | _, _ => none
  | .goNotice => u.goNotice
  | .notify id => u.notify id
  | .close => match u.close with
    | .unused => some { u with closing := true, close := .accounts }
    | _ => none
  | .goClose => u.goClose
  | .closeEntry id => u.closeEntry id

section Lookups
variable (u : Router) (id a : GoString) (child k : ℕ)

theorem modify_processes (f : Process → Process) : (u.modify child f).processes[k]? =
    (u.processes[k]?).map fun p => if child = k then f p else p := by
  unfold Router.modify
  rw [List.getElem?_modify]
  rfl

theorem removeChildIfCurrent_children : (u.removeChildIfCurrent id child).children[a]? =
    if id = a ∧ u.children[a]? = some child then none else u.children[a]? := by
  unfold Router.removeChildIfCurrent
  dsimp only
  by_cases ha : id = a
  · subst ha
    by_cases hc : u.children[id]? = some child
    · rw [if_pos hc, getElem?_erase_eq, if_pos rfl, if_pos ⟨rfl, hc⟩]
    · rw [if_neg hc, if_neg fun h => hc h.2]
  · have hother : ¬(id = a ∧ u.children[a]? = some child) := fun h => ha h.1
    rw [if_neg hother]
    split
    · rw [getElem?_erase_eq, if_neg ha]
    · rfl

theorem entries_eq_some (listed : List GoString) : (u.entries listed)[id]? = some child ↔
    u.children[id]? = some child ∧ id ∈ listed := by
  unfold Router.entries
  rw [Std.ExtTreeMap.getElem?_filter', Option.filter_eq_some_iff]
  simp

theorem putStart_getElem? (starts : GoMap Start) (next : Option Start) :
    (putStart starts id next)[a]? = if id = a then next else starts[a]? := by
  cases next with
  | none => exact getElem?_erase_eq starts id a
  | some next => exact getElem?_insert_eq starts id a next

end Lookups

/-! ## What the steps outside the starts can do -/

section Cases
variable {u v : Router}

theorem monitor_cases {child : ℕ} (h : step u (.monitor child) = some v) :
    ∃ p, u.processes[child]? = some p ∧ p.exited = true ∧
      v = u.removeChildIfCurrent p.account child := by
  simp only [step] at h
  split at h
  · rename_i p hp
    split at h <;> cases h
    rename_i hexited
    exact ⟨p, hp, hexited, rfl⟩
  · cases h

theorem clientInitialize_cases {params : GoString}
    (h : step u (.clientInitialize params) = some v) :
    v = u ∨ u.client = .unsent ∧ v = { u with initializeParams := params, client := .accounts } := by
  simp only [step] at h
  split at h
  · cases h
    exact .inl rfl
  · split at h
    · rename_i hc
      cases h
      exact .inr ⟨hc, rfl⟩
    · cases h

theorem clientInitialized_cases (h : step u .clientInitialized = some v) :
    v = u ∨ u.client = .responded ∧ u.notice = .unsent ∧
      v = { u with initialized := true, notice := .accounts } := by
  simp only [step] at h
  split at h
  · cases h
    exact .inl rfl
  · split at h
    · rename_i hc hn
      cases h
      exact .inr ⟨hc, hn, rfl⟩
    · cases h

end Cases

end SubscriptionRouter.ChildStarts
