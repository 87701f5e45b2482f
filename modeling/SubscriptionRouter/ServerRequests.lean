import Mathlib
import SubscriptionRouter.Messages
import SubscriptionRouter.Tallies
import SubscriptionRouter.Transitions

set_option autoImplicit false

/-!
# Server requests and their answers

A child process asks the desktop client for something, for example an approval.
The router forwards the request under an id of its own and keeps a route keyed
by that id. The client's answer, the expiry of the route and the shutdown each
take the route out and then look a child up under the route's account.

Children come and go, so the processes of an account are numbered in the order
they are launched. A `Request` is the ghost identity of one request: the process
that wrote it, its number in the order of writing, and its id.
-/
namespace SubscriptionRouter.ServerRequests
open GoText JsonText Messages Tallies Transitions

structure Request where
  number : ℕ
  process : ℕ
  id : RawMessage
  deriving DecidableEq

/-- A line on a child's stdout that its `readLoop` has not taken yet. -/
structure Line where
  process : ℕ
  message : Message
  request : Request
  deriving DecidableEq

/-- `backend.Inbound`. -/
structure Inbound where
  accountID : GoString
  message : Message
  request : Request
  deriving DecidableEq

structure ServerRequestRoute where
  accountID : GoString
  original : RawMessage
  expiresAt : ℤ
  request : Request
  deriving DecidableEq

/-- An answer whose route has been taken out of the table. -/
structure Answer where
  accountID : GoString
  message : Message
  request : Request
  deriving DecidableEq

/-- A goroutine that answers: before and after it has looked the child up. -/
inductive Task where
  | lookup (answer : Answer)
  | send (process : ℕ) (answer : Answer)
  deriving DecidableEq

def Task.request : Task → Request
  | .lookup answer => answer.request
  | .send _ answer => answer.request

structure Delivery where
  process : ℕ
  message : Message
  request : Request
  deriving DecidableEq

structure Router where
  requestTimeout : ℤ
  clock : ℤ
  closing : Bool
  /-- Processes launched so far and the account of each. -/
  launched : ℕ
  account : ℕ → GoString
  exited : ℕ → Bool
  /-- Launched under the account's operation lock, not yet in `children`. -/
  starting : GoMap ℕ
  children : GoMap ℕ
  stdout : List Line
  inbound : List Inbound
  serverSequence : ℕ
  serverRoutes : GoMap ServerRequestRoute
  tasks : List Task
  /-- Requests written so far. -/
  written : ℕ
  delivered : List Delivery

def Router.init (requestTimeout clock : ℤ) : Router where
  requestTimeout := requestTimeout
  clock := clock
  closing := false
  launched := 0
  account := fun _ => []
  exited := fun _ => false
  starting := ∅
  children := ∅
  stdout := []
  inbound := []
  serverSequence := 0
  serverRoutes := ∅
  tasks := []
  written := 0
  delivered := []

/-! ## Children -/

/-- `startChildLocked` up to `backend.Start`: a registered child that is not done is kept. -/
def Router.launch (m : Router) (accountID : GoString) : Option Router :=
  if m.starting[accountID]? = none ∧ ∀ p ∈ m.children[accountID]?, m.exited p = true then
    some { m with
      children := m.children.erase accountID
      launched := m.launched + 1
      account := Function.update m.account m.launched accountID
      starting := m.starting.insert accountID m.launched }
  else none

/-- `startChildLocked`: the new child enters the table. -/
def Router.register (m : Router) (accountID : GoString) : Option Router :=
  m.starting[accountID]?.map fun p => { m with
    starting := m.starting.erase accountID
    children := m.children.insert accountID p }

/-- `removeChildIfCurrent`, `stopChildLocked` and `Close` take a child out of the table. -/
def Router.drop (m : Router) (accountID : GoString) : Router :=
  { m with children := m.children.erase accountID }

def Router.exit (m : Router) (process : ℕ) : Option Router :=
  if process < m.launched then
    some { m with exited := Function.update m.exited process true }
  else none

/-- A live process writes a request on its stdout. -/
def Router.writeRequest (m : Router) (process : ℕ) (message : Message) : Option Router :=
  if process < m.launched ∧ m.exited process = false ∧ message.method ≠ [] ∧ message.id ≠ [] then
    some { m with
      written := m.written + 1
      stdout := m.stdout ++ [⟨process, message, ⟨m.written, process, message.id⟩⟩] }
  else none

/-- `readLoop` takes the next line of its child. -/
def Router.readLoop (m : Router) (i : ℕ) : Option Router :=
  m.stdout[i]?.bind fun line =>
    if (m.stdout.take i).all fun earlier => earlier.process ≠ line.process then
      some { m with
        stdout := m.stdout.eraseIdx i
        inbound := m.inbound ++ [⟨m.account line.process, line.message, line.request⟩] }
    else none

/-! ## Routes -/

def serverRequestID (accountID : GoString) (sequence : ℕ) : RawMessage :=
  stringID (lit "codex-mux:" ++ accountID ++ lit ":" ++ itoaNat sequence)

/-- `forwardServerRequest` on the next inbound message. -/
def Router.forwardServerRequest (m : Router) : Option Router :=
  match m.inbound with
  | [] => none
  | inbound :: rest =>
    if m.closing then
      let refusal := failure inbound.message.id (-32031) (lit "router is shutting down")
      some { m with
        inbound := rest
        tasks := m.tasks ++ [.lookup ⟨inbound.accountID, refusal, inbound.request⟩] }
    else
      let sequence := (m.serverSequence + 1) % 2 ^ 64
      let key := requestIDKey (serverRequestID inbound.accountID sequence)
      some { m with
        inbound := rest
        serverSequence := sequence
        serverRoutes := m.serverRoutes.insert key
          ⟨inbound.accountID, inbound.message.id, m.clock + m.requestTimeout, inbound.request⟩ }

/-- `handleServerRequestResponse` up to the lookup of the child. -/
def Router.handleServerRequestResponse (m : Router) (message : Message) : Router :=
  let key := requestIDKey message.id
  match m.serverRoutes[key]? with
  | none => m
  | some route => { m with
      serverRoutes := m.serverRoutes.erase key
      tasks := m.tasks ++
        [.lookup ⟨route.accountID, { message with id := route.original }, route.request⟩] }

/-- Take out the routes that satisfy `due` and answer each with a failure. -/
def Router.failRoutes (m : Router) (due : ServerRequestRoute → Bool) (reason : GoString) : Router :=
  { m with
    serverRoutes := m.serverRoutes.filter fun _ route => !due route
    tasks := m.tasks ++ ((m.serverRoutes.toList.map Prod.snd).filter due).map fun route =>
      .lookup ⟨route.accountID, failure route.original (-32031) reason, route.request⟩ }

/-- `expireRoutes` for a tick of the ticker at time `now`. -/
def Router.expireRoutes (m : Router) (now : ℤ) : Option Router :=
  if now ≤ m.clock then
    some (m.failRoutes (fun route => route.expiresAt ≤ now)
      (lit "desktop client timed out responding to app-server request"))
  else none

def Router.expireAllRoutes (m : Router) : Router :=
  m.failRoutes (fun _ => true) (lit "router shut down before desktop client responded")

/-- `m.child(route.accountID)`: without a child the answer is dropped. -/
def Router.child (m : Router) (i : ℕ) : Option Router :=
  match m.tasks[i]? with
  | some (.lookup answer) => some { m with
      tasks := m.tasks.eraseIdx i ++
        (m.children[answer.accountID]?.map fun p => Task.send p answer).toList }
  | _ => none

/-- `child.Send`, which fails on an exited process and may fail on any other. -/
def Router.send (m : Router) (i : ℕ) (ok : Bool) : Option Router :=
  match m.tasks[i]? with
  | some (.send process answer) =>
    if ok then
      if m.exited process then none
      else some { m with
        tasks := m.tasks.eraseIdx i
        delivered := m.delivered ++ [⟨process, answer.message, answer.request⟩] }
    else some { m with tasks := m.tasks.eraseIdx i }
  | _ => none

inductive Action where
  | launch (accountID : GoString)
  | register (accountID : GoString)
  | drop (accountID : GoString)
  | exit (process : ℕ)
  | writeRequest (process : ℕ) (message : Message)
  | readLoop (i : ℕ)
  | forwardServerRequest
  | handleServerRequestResponse (message : Message)
  | expireRoutes (now : ℤ)
  | close
  | expireAllRoutes
  | child (i : ℕ)
  | send (i : ℕ) (ok : Bool)
  | tick (elapsed : ℕ)

def step (m : Router) : Action → Option Router
  | .launch accountID => m.launch accountID
  | .register accountID => m.register accountID
  | .drop accountID => some (m.drop accountID)
  | .exit process => m.exit process
  | .writeRequest process message => m.writeRequest process message
  | .readLoop i => m.readLoop i
  | .forwardServerRequest => m.forwardServerRequest
  | .handleServerRequestResponse message => some (m.handleServerRequestResponse message)
  | .expireRoutes now => m.expireRoutes now
  | .close => some { m with closing := true }
  | .expireAllRoutes => some m.expireAllRoutes
  | .child i => m.child i
  | .send i ok => m.send i ok
  | .tick elapsed => some { m with clock := m.clock + elapsed }

/-! ## The law and the condition for it -/

/-- Every delivered answer reached the process that wrote the request, under the
id that process gave it, and no request was answered twice. -/
structure AnswersReachIssuer (m : Router) : Prop where
  issuer : ∀ d ∈ m.delivered, d.process = d.request.process
  original : ∀ d ∈ m.delivered, d.message.id = d.request.id
  once : (m.delivered.map fun d => d.request.number).Nodup

/-- A request that has been written and whose answer has no process yet: where
it waits, under which account it will look for a child, and the id it carries. -/
inductive Outstanding (m : Router) : GoString → RawMessage → Request → Prop where
  | unread (line : Line) (h : line ∈ m.stdout) :
      Outstanding m (m.account line.process) line.message.id line.request
  | queued (inbound : Inbound) (h : inbound ∈ m.inbound) :
      Outstanding m inbound.accountID inbound.message.id inbound.request
  | routed (key : GoString) (route : ServerRequestRoute) (h : m.serverRoutes[key]? = some route) :
      Outstanding m route.accountID route.original route.request
  | answering (answer : Answer) (h : Task.lookup answer ∈ m.tasks) :
      Outstanding m answer.accountID answer.message.id answer.request

/-- No process enters the table while a request of another process of its account
is outstanding, and none writes a request while another one holds its place. -/
def Settled (m : Router) : Action → Prop
  | .register accountID => ∀ p, m.starting[accountID]? = some p → ∀ id request,
      Outstanding m accountID id request → request.process = p
  | .writeRequest process _ => ∀ p, m.children[m.account process]? = some p → p = process
  | _ => True

/-- The accounts and requests of everything outstanding. -/
def Router.waiting (m : Router) : List (GoString × Request) :=
  m.stdout.map (fun l => (m.account l.process, l.request)) ++
    m.inbound.map (fun i => (i.accountID, i.request)) ++
    (m.serverRoutes.toList.map Prod.snd).map (fun r => (r.accountID, r.request)) ++
    m.tasks.filterMap fun t => match t with
      | .lookup answer => some (answer.accountID, answer.request)
      | .send _ _ => none

theorem outstanding_iff_waiting {m : Router} {a : GoString} {q : Request} :
    (∃ id, Outstanding m a id q) ↔ (a, q) ∈ m.waiting := by
  simp only [Router.waiting, List.mem_append, List.mem_map, List.mem_filterMap]
  constructor
  · rintro ⟨id, ⟨l, h⟩ | ⟨i, h⟩ | ⟨k, r, h⟩ | ⟨answer, h⟩⟩
    · exact .inl (.inl (.inl ⟨l, h, rfl⟩))
    · exact .inl (.inl (.inr ⟨i, h, rfl⟩))
    · exact .inl (.inr ⟨r, List.mem_map.mp (mem_values.mpr ⟨k, h⟩), rfl⟩)
    · exact .inr ⟨_, h, rfl⟩
  · rintro (((⟨l, h, e⟩ | ⟨i, h, e⟩) | ⟨r, h, e⟩) | ⟨t, h, e⟩)
    · cases e
      exact ⟨_, .unread l h⟩
    · cases e
      exact ⟨_, .queued i h⟩
    · obtain ⟨k, hk⟩ := mem_values.mp (List.mem_map.mpr h)
      cases e
      exact ⟨_, .routed k r hk⟩
    · cases t with
      | lookup answer =>
        cases e
        exact ⟨_, .answering answer h⟩
      | send p answer => cases e

instance (m : Router) (action : Action) : Decidable (Settled m action) :=
  match action with
  | .register accountID =>
    decidable_of_iff (∀ p ∈ m.starting[accountID]?, ∀ w ∈ m.waiting,
      w.1 = accountID → w.2.process = p) <| by
      constructor
      · intro h p hp id q ho
        exact h p hp (accountID, q) (outstanding_iff_waiting.mp ⟨id, ho⟩) rfl
      · rintro h p hp ⟨a, q⟩ hw rfl
        obtain ⟨id, ho⟩ := outstanding_iff_waiting.mpr hw
        exact h p hp id q ho
  | .writeRequest process _ =>
    inferInstanceAs (Decidable (∀ p ∈ m.children[m.account process]?, p = process))
  | .launch _ | .drop _ | .exit _ | .readLoop _ | .forwardServerRequest
  | .handleServerRequestResponse _ | .expireRoutes _ | .close | .expireAllRoutes | .child _
  | .send _ _ | .tick _ => isTrue trivial

/-! ## One holder for each request -/

def numbered (n : ℕ) (request : Request) : Bool := request.number = n

/-- How many places of the router hold request number `n`. -/
def Router.held (m : Router) (n : ℕ) : ℕ :=
  m.stdout.countP (fun l => numbered n l.request) +
    m.inbound.countP (fun i => numbered n i.request) +
    entryCount (fun r => numbered n r.request) m.serverRoutes +
    m.tasks.countP (fun t => numbered n t.request) +
    m.delivered.countP (fun d => numbered n d.request)

theorem held_forwardServerRequest {m u : Router} (h : m.forwardServerRequest = some u) (n : ℕ) :
    u.held n ≤ m.held n := by
  unfold Router.forwardServerRequest at h
  split at h
  · cases h
  · rename_i inbound rest hin
    split at h
    · obtain rfl := Option.some.inj h
      simp only [Router.held, hin, countP_concat, countP_cons_toNat, Task.request]
      omega
    · obtain rfl := Option.some.inj h
      simp only [Router.held, hin, entryCount_insert_erase, countP_cons_toNat]
      have := entryCount_erase_le (fun r => numbered n r.request) m.serverRoutes
        (requestIDKey (serverRequestID inbound.accountID ((m.serverSequence + 1) % 2 ^ 64)))
      omega

theorem held_handleServerRequestResponse (m : Router) (message : Message) (n : ℕ) :
    (m.handleServerRequestResponse message).held n ≤ m.held n := by
  rw [Router.handleServerRequestResponse]
  split
  · exact le_rfl
  · rename_i route hr
    simp only [Router.held, entryCount_erase (fun r => numbered n r.request) hr, countP_concat,
      Task.request]
    omega

theorem held_failRoutes (m : Router) (due : ServerRequestRoute → Bool) (reason : GoString)
    (n : ℕ) : (m.failRoutes due reason).held n = m.held n := by
  simp only [Router.failRoutes, Router.held, List.countP_append, List.countP_map,
    entryCount_filter (fun r => numbered n r.request) due m.serverRoutes, Function.comp_def,
    Task.request]
  omega

theorem held_readLoop {m u : Router} {i : ℕ} (h : m.readLoop i = some u) (n : ℕ) :
    u.held n = m.held n := by
  obtain ⟨line, hl, h⟩ := Option.bind_eq_some_iff.mp h
  split at h
  · obtain rfl := Option.some.inj h
    simp only [Router.held, countP_eraseIdx (fun l : Line => numbered n l.request) hl,
      countP_concat]
    omega
  · cases h

theorem held_writeRequest {m u : Router} {p : ℕ} {message : Message}
    (h : m.writeRequest p message = some u) (n : ℕ) :
    u.held n = m.held n + (decide (m.written = n)).toNat := by
  unfold Router.writeRequest at h
  split at h
  · obtain rfl := Option.some.inj h
    simp only [Router.held, countP_concat, numbered]
    omega
  · cases h

theorem held_child {m u : Router} {i : ℕ} (h : m.child i = some u) (n : ℕ) :
    u.held n ≤ m.held n := by
  unfold Router.child at h
  split at h
  · rename_i answer ht
    obtain rfl := Option.some.inj h
    simp only [Router.held, countP_eraseIdx (fun t : Task => numbered n t.request) ht]
    cases m.children[answer.accountID]? <;>
      simp only [Option.map_none, Option.map_some, Option.toList_none, Option.toList_some,
        List.append_nil, countP_concat, Task.request] <;> omega
  · cases h

theorem held_send {m u : Router} {i : ℕ} {ok : Bool} (h : m.send i ok = some u) (n : ℕ) :
    u.held n ≤ m.held n := by
  unfold Router.send at h
  split at h
  · rename_i process answer ht
    have hc := countP_eraseIdx (fun t : Task => numbered n t.request) ht
    change _ = _ + (numbered n answer.request).toNat at hc
    split at h
    · split at h
      · cases h
      · obtain rfl := Option.some.inj h
        simp only [Router.held, hc, countP_concat]
        omega
    · obtain rfl := Option.some.inj h
      simp only [Router.held, hc]
      omega
  · cases h

/-! ## The invariant -/

structure Inv (m : Router) : Prop where
  lines : ∀ l ∈ m.stdout, l.request.process = l.process
  outstanding : ∀ a id q, Outstanding m a id q → id = q.id ∧ q.process < m.launched ∧
    m.account q.process = a ∧ ∀ p : ℕ, m.children[a]? = some p → p = q.process
  sending : ∀ p answer, Task.send p answer ∈ m.tasks →
    p = answer.request.process ∧ answer.message.id = answer.request.id
  sent : ∀ d ∈ m.delivered, d.process = d.request.process ∧ d.message.id = d.request.id
  fresh : ∀ n, m.written ≤ n → m.held n = 0
  once : ∀ n, m.held n ≤ 1

theorem inv_init (requestTimeout clock : ℤ) : Inv (Router.init requestTimeout clock) where
  lines := by simp [Router.init]
  outstanding := by
    rintro a id q (⟨l, h⟩ | ⟨i, h⟩ | ⟨k, r, h⟩ | ⟨answer, h⟩) <;> simp [Router.init] at h
  sending := by simp [Router.init]
  sent := by simp [Router.init]
  fresh := by intro n _; rfl
  once := by intro n; exact Nat.zero_le 1

/-- A step that only moves requests along: nothing new is outstanding, no child
appears in the table and no answer goes out. -/
structure Moves (m u : Router) : Prop where
  stdout : ∀ l ∈ u.stdout, l ∈ m.stdout
  outstanding : ∀ a id q, Outstanding u a id q → Outstanding m a id q
  launched : m.launched ≤ u.launched
  account : ∀ p, p < m.launched → u.account p = m.account p
  children : ∀ (a : GoString) (p : ℕ), u.children[a]? = some p → m.children[a]? = some p
  sending : ∀ p answer, Task.send p answer ∈ u.tasks → Task.send p answer ∈ m.tasks
  written : u.written = m.written
  delivered : u.delivered = m.delivered
  held : ∀ n, u.held n ≤ m.held n

theorem Inv.moves {m u : Router} (hi : Inv m) (h : Moves m u) : Inv u where
  lines := fun l hl => hi.lines l (h.stdout l hl)
  outstanding := by
    intro a id q ho
    obtain ⟨hid, hlt, ha, hc⟩ := hi.outstanding a id q (h.outstanding a id q ho)
    exact ⟨hid, Nat.lt_of_lt_of_le hlt h.launched, (h.account _ hlt).trans ha,
      fun p hp => hc p (h.children a p hp)⟩
  sending := fun p answer hs => hi.sending p answer (h.sending p answer hs)
  sent := by rw [h.delivered]; exact hi.sent
  fresh := by
    intro n hn
    exact Nat.le_zero.mp ((hi.fresh n (h.written ▸ hn)) ▸ h.held n)
  once := fun n => (h.held n).trans (hi.once n)

/-- A step that leaves the messages on their way where they are. -/
theorem moves_frame {m u : Router} (hstdout : u.stdout = m.stdout) (hinbound : u.inbound = m.inbound)
    (hroutes : u.serverRoutes = m.serverRoutes) (htasks : u.tasks = m.tasks)
    (hlaunched : u.launched = m.launched) (haccount : u.account = m.account)
    (hwritten : u.written = m.written) (hdelivered : u.delivered = m.delivered)
    (hheld : u.held = m.held)
    (hchildren : ∀ (a : GoString) (p : ℕ), u.children[a]? = some p → m.children[a]? = some p) :
    Moves m u where
  stdout := fun l h => hstdout ▸ h
  outstanding := by
    rintro a id q (⟨l, h⟩ | ⟨i, h⟩ | ⟨k, r, h⟩ | ⟨answer, h⟩)
    · exact haccount ▸ .unread l (hstdout ▸ h)
    · exact .queued i (hinbound ▸ h)
    · exact .routed k r (hroutes ▸ h)
    · exact .answering answer (htasks ▸ h)
  launched := hlaunched.ge
  account := fun p _ => congrFun haccount p
  children := hchildren
  sending := fun p answer h => htasks ▸ h
  written := hwritten
  delivered := hdelivered
  held := fun n => (congrFun hheld n).le

theorem Inv.moves_launch {m u : Router} {a : GoString} (hi : Inv m) (h : m.launch a = some u) :
    Moves m u := by
  unfold Router.launch at h
  split at h
  · obtain rfl := Option.some.inj h
    have hacc : ∀ p, p < m.launched → Function.update m.account m.launched a p = m.account p :=
      fun p hp => Function.update_of_ne (Nat.ne_of_lt hp) _ _
    refine ⟨fun _ h => h, ?_, Nat.le_succ _, hacc, fun _ _ => getElem?_of_erase,
      fun _ _ h => h, rfl, rfl, fun _ => le_rfl⟩
    rintro b id q (⟨l, h⟩ | ⟨i, h⟩ | ⟨k, r, h⟩ | ⟨answer, h⟩)
    · have ho := Outstanding.unread l h
      have hlt := (hi.outstanding _ _ _ (.unread l h)).2.1
      rw [hi.lines l h] at hlt
      simp only [hacc _ hlt]
      exact .unread l h
    · exact .queued i h
    · exact .routed k r h
    · exact .answering answer h
  · cases h

theorem moves_drop (m : Router) (a : GoString) : Moves m (m.drop a) :=
  moves_frame rfl rfl rfl rfl rfl rfl rfl rfl rfl fun _ _ => getElem?_of_erase

theorem moves_exit {m u : Router} {p : ℕ} (h : m.exit p = some u) : Moves m u := by
  unfold Router.exit at h
  split at h
  · obtain rfl := Option.some.inj h
    exact moves_frame rfl rfl rfl rfl rfl rfl rfl rfl rfl fun _ _ h => h
  · cases h

theorem moves_readLoop {m u : Router} {i : ℕ} (h : m.readLoop i = some u) : Moves m u := by
  have hheld := held_readLoop h
  obtain ⟨line, hl, h⟩ := Option.bind_eq_some_iff.mp h
  split at h
  · obtain rfl := Option.some.inj h
    refine ⟨fun _ => mem_of_eraseIdx, ?_, le_rfl, fun _ _ => rfl, fun _ _ h => h,
      fun _ _ h => h, rfl, rfl, fun n => (hheld n).le⟩
    rintro b id q (⟨l, h⟩ | ⟨i, h⟩ | ⟨k, r, h⟩ | ⟨answer, h⟩)
    · exact .unread l (mem_of_eraseIdx h)
    · rcases List.mem_append.mp h with h | h
      · exact .queued i h
      · rw [List.mem_singleton.mp h]
        exact .unread line (List.mem_of_getElem? hl)
    · exact .routed k r h
    · exact .answering answer h
  · cases h

theorem moves_forwardServerRequest {m u : Router} (h : m.forwardServerRequest = some u) :
    Moves m u := by
  have hheld := held_forwardServerRequest h
  unfold Router.forwardServerRequest at h
  split at h
  · cases h
  · rename_i inbound rest hin
    have hrest : ∀ i ∈ rest, i ∈ m.inbound := fun i hi => hin ▸ List.mem_cons_of_mem _ hi
    have hfirst : inbound ∈ m.inbound := hin ▸ List.mem_cons_self
    split at h
    · obtain rfl := Option.some.inj h
      refine ⟨fun _ h => h, ?_, le_rfl, fun _ _ => rfl, fun _ _ h => h, ?_, rfl, rfl, hheld⟩
      · rintro b id q (⟨l, h⟩ | ⟨i, h⟩ | ⟨k, r, h⟩ | ⟨answer, h⟩)
        · exact .unread l h
        · exact .queued i (hrest i h)
        · exact .routed k r h
        · rcases List.mem_append.mp h with h | h
          · exact .answering answer h
          · cases List.mem_singleton.mp h
            exact .queued inbound hfirst
      · intro p answer hs
        simpa using hs
    · obtain rfl := Option.some.inj h
      refine ⟨fun _ h => h, ?_, le_rfl, fun _ _ => rfl, fun _ _ h => h, fun _ _ h => h, rfl, rfl,
        hheld⟩
      rintro b id q (⟨l, h⟩ | ⟨i, h⟩ | ⟨k, r, h⟩ | ⟨answer, h⟩)
      · exact .unread l h
      · exact .queued i (hrest i h)
      · rw [Std.ExtTreeMap.getElem?_insert] at h
        split at h
        · cases h
          exact .queued inbound hfirst
        · exact .routed k r h
      · exact .answering answer h

theorem moves_handleServerRequestResponse (m : Router) (message : Message) :
    Moves m (m.handleServerRequestResponse message) := by
  have hheld := held_handleServerRequestResponse m message
  rw [Router.handleServerRequestResponse] at hheld ⊢
  split at hheld
  · rename_i hr
    refine ⟨fun _ h => h, fun _ _ _ h => h, le_rfl, fun _ _ => rfl, fun _ _ h => h,
      fun _ _ h => h, rfl, rfl, hheld⟩
  · rename_i route hr
    refine ⟨fun _ h => h, ?_, le_rfl, fun _ _ => rfl, fun _ _ h => h, ?_, rfl, rfl, hheld⟩
    · rintro b id q (⟨l, h⟩ | ⟨i, h⟩ | ⟨k, r, h⟩ | ⟨answer, h⟩)
      · exact .unread l h
      · exact .queued i h
      · exact .routed k r (getElem?_of_erase h)
      · rcases List.mem_append.mp h with h | h
        · exact .answering answer h
        · cases List.mem_singleton.mp h
          exact .routed _ route hr
    · intro p answer hs
      simpa using hs

theorem moves_failRoutes (m : Router) (due : ServerRequestRoute → Bool) (reason : GoString) :
    Moves m (m.failRoutes due reason) := by
  refine ⟨fun _ h => h, ?_, le_rfl, fun _ _ => rfl, fun _ _ h => h, ?_, rfl, rfl,
    fun n => (held_failRoutes m due reason n).le⟩
  · rintro b id q (⟨l, h⟩ | ⟨i, h⟩ | ⟨k, r, h⟩ | ⟨answer, h⟩)
    · exact .unread l h
    · exact .queued i h
    · simp only [Router.failRoutes, Std.ExtTreeMap.getElem?_filter', Option.filter_eq_some_iff] at h
      exact .routed k r h.1
    · rcases List.mem_append.mp h with h | h
      · exact .answering answer h
      · obtain ⟨route, hr, ha⟩ := List.mem_map.mp h
        cases ha
        obtain ⟨k, hk⟩ := mem_values.mp (List.mem_filter.mp hr).1
        exact .routed k route hk
  · intro p answer hs
    simpa [Router.failRoutes] using hs

theorem moves_expireRoutes {m u : Router} {now : ℤ} (h : m.expireRoutes now = some u) :
    Moves m u := by
  unfold Router.expireRoutes at h
  split at h
  · obtain rfl := Option.some.inj h
    exact moves_failRoutes _ _ _
  · cases h

theorem moves_close (m : Router) : Moves m { m with closing := true } :=
  moves_frame rfl rfl rfl rfl rfl rfl rfl rfl rfl fun _ _ h => h

theorem moves_tick (m : Router) (now : ℤ) : Moves m { m with clock := now } :=
  moves_frame rfl rfl rfl rfl rfl rfl rfl rfl rfl fun _ _ h => h

theorem Inv.register {m u : Router} {a : GoString} (hi : Inv m)
    (hs : Settled m (.register a)) (h : m.register a = some u) : Inv u := by
  obtain ⟨p, hp, rfl⟩ := Option.map_eq_some_iff.mp h
  refine { hi with outstanding := ?_, fresh := hi.fresh, once := hi.once }
  intro b id q ho
  have hm : Outstanding m b id q := by
    rcases ho with ⟨l, h⟩ | ⟨i, h⟩ | ⟨k, r, h⟩ | ⟨answer, h⟩
    · exact .unread l h
    · exact .queued i h
    · exact .routed k r h
    · exact .answering answer h
  obtain ⟨hid, hlt, hb, hc⟩ := hi.outstanding b id q hm
  refine ⟨hid, hlt, hb, fun c hcc => ?_⟩
  rw [Std.ExtTreeMap.getElem?_insert] at hcc
  split at hcc
  · rename_i hab
    obtain rfl := Std.LawfulEqCmp.eq_of_compare hab
    obtain rfl := Option.some.inj hcc
    exact (hs p hp id q hm).symm
  · exact hc c hcc

theorem Inv.writeRequest {m u : Router} {p : ℕ} {message : Message} (hi : Inv m)
    (hs : Settled m (.writeRequest p message)) (h : m.writeRequest p message = some u) :
    Inv u := by
  have hheld := held_writeRequest h
  unfold Router.writeRequest at h
  split at h
  · rename_i hg
    obtain rfl := Option.some.inj h
    refine ⟨?_, ?_, hi.sending, hi.sent, ?_, ?_⟩
    · intro l hl
      rcases List.mem_append.mp hl with hl | hl
      · exact hi.lines l hl
      · rw [List.mem_singleton.mp hl]
    · rintro b id q (⟨l, h⟩ | ⟨i, h⟩ | ⟨k, r, h⟩ | ⟨answer, h⟩)
      · rcases List.mem_append.mp h with h | h
        · exact hi.outstanding _ _ _ (.unread l h)
        · rw [List.mem_singleton.mp h]
          exact ⟨rfl, hg.1, rfl, hs⟩
      · exact hi.outstanding _ _ _ (.queued i h)
      · exact hi.outstanding _ _ _ (.routed k r h)
      · exact hi.outstanding _ _ _ (.answering answer h)
    · intro n hn
      have hlt : m.written < n := hn
      rw [hheld, hi.fresh n hlt.le, decide_eq_false (Nat.ne_of_lt hlt)]
      rfl
    · intro n
      rw [hheld]
      by_cases hn : m.written = n
      · rw [hi.fresh n hn.le]
        exact Nat.zero_add _ ▸ Bool.toNat_le _
      · rw [decide_eq_false hn]
        exact hi.once n
  · cases h

theorem Inv.child {m u : Router} {i : ℕ} (hi : Inv m) (h : m.child i = some u) : Inv u := by
  have hheld := held_child h
  unfold Router.child at h
  split at h
  · rename_i answer ht
    obtain rfl := Option.some.inj h
    have hmem := List.mem_of_getElem? ht
    have hnew : ∀ t ∈ m.tasks.eraseIdx i ++
        (m.children[answer.accountID]?.map fun p => Task.send p answer).toList,
        t ∈ m.tasks ∨ ∃ p, m.children[answer.accountID]? = some p ∧ t = .send p answer := by
      intro t ht
      rcases List.mem_append.mp ht with ht | ht
      · exact .inl (mem_of_eraseIdx ht)
      · obtain ⟨p, hp, rfl⟩ := Option.map_eq_some_iff.mp (Option.mem_toList.mp ht)
        exact .inr ⟨p, hp, rfl⟩
    refine ⟨hi.lines, ?_, ?_, hi.sent, fun n hn => ?_, fun n => (hheld n).trans (hi.once n)⟩
    · rintro b id q (⟨l, h⟩ | ⟨i, h⟩ | ⟨k, r, h⟩ | ⟨answer, h⟩)
      · exact hi.outstanding _ _ _ (.unread l h)
      · exact hi.outstanding _ _ _ (.queued i h)
      · exact hi.outstanding _ _ _ (.routed k r h)
      · rcases hnew _ h with h | ⟨p, _, hp⟩
        · exact hi.outstanding _ _ _ (.answering answer h)
        · cases hp
    · intro p answer' hs
      rcases hnew _ hs with hs | ⟨c, hc, hs⟩
      · exact hi.sending p answer' hs
      · cases hs
        obtain ⟨hid, _, _, hchild⟩ := hi.outstanding _ _ _ (.answering answer hmem)
        exact ⟨hchild p hc, hid⟩
    · exact Nat.le_zero.mp (hi.fresh n hn ▸ hheld n)
  · cases h

theorem outstanding_of_tasks {m : Router} {tasks : List Task} {delivered : List Delivery}
    (hfewer : ∀ t ∈ tasks, t ∈ m.tasks) {a : GoString} {id : RawMessage} {q : Request}
    (h : Outstanding { m with tasks := tasks, delivered := delivered } a id q) :
    Outstanding m a id q := by
  rcases h with ⟨l, h⟩ | ⟨i, h⟩ | ⟨k, r, h⟩ | ⟨answer, h⟩
  · exact .unread l h
  · exact .queued i h
  · exact .routed k r h
  · exact .answering answer (hfewer _ h)

theorem Inv.send {m u : Router} {i : ℕ} {ok : Bool} (hi : Inv m) (h : m.send i ok = some u) :
    Inv u := by
  have hheld := held_send h
  unfold Router.send at h
  split at h
  · rename_i process answer ht
    have hsend := hi.sending _ _ (List.mem_of_getElem? ht)
    have hfewer : ∀ t ∈ m.tasks.eraseIdx i, t ∈ m.tasks := fun t => mem_of_eraseIdx
    split at h
    · split at h
      · cases h
      · obtain rfl := Option.some.inj h
        refine ⟨hi.lines, fun a id q ho => hi.outstanding a id q (outstanding_of_tasks hfewer ho),
          fun p answer hs => hi.sending p answer (mem_of_eraseIdx hs), ?_,
          fun n hn => Nat.le_zero.mp (hi.fresh n hn ▸ hheld n), fun n => (hheld n).trans (hi.once n)⟩
        intro d hd
        rcases List.mem_append.mp hd with hd | hd
        · exact hi.sent d hd
        · rw [List.mem_singleton.mp hd]
          exact hsend
    · obtain rfl := Option.some.inj h
      exact ⟨hi.lines, fun a id q ho => hi.outstanding a id q (outstanding_of_tasks hfewer ho),
        fun p answer hs => hi.sending p answer (mem_of_eraseIdx hs), hi.sent,
        fun n hn => Nat.le_zero.mp (hi.fresh n hn ▸ hheld n), fun n => (hheld n).trans (hi.once n)⟩
  · cases h

theorem Inv.step {m u : Router} {action : Action} (hi : Inv m)
    (h : Guarded Settled (Fires step) m action u) : Inv u := by
  obtain ⟨hs, h⟩ := h
  cases action with
  | launch a => exact hi.moves (hi.moves_launch h)
  | register a => exact hi.register hs h
  | drop a =>
    cases h
    exact hi.moves (moves_drop m a)
  | exit p => exact hi.moves (moves_exit h)
  | writeRequest p message => exact hi.writeRequest hs h
  | readLoop i => exact hi.moves (moves_readLoop h)
  | forwardServerRequest => exact hi.moves (moves_forwardServerRequest h)
  | handleServerRequestResponse message =>
    cases h
    exact hi.moves (moves_handleServerRequestResponse m message)
  | expireRoutes now => exact hi.moves (moves_expireRoutes h)
  | close =>
    cases h
    exact hi.moves (moves_close m)
  | expireAllRoutes =>
    cases h
    exact hi.moves (moves_failRoutes m _ _)
  | child i => exact hi.child h
  | send i ok => exact hi.send h
  | tick elapsed =>
    cases h
    exact hi.moves (moves_tick m _)

theorem Inv.answersReachIssuer {m : Router} (hi : Inv m) : AnswersReachIssuer m where
  issuer := fun d hd => (hi.sent d hd).1
  original := fun d hd => (hi.sent d hd).2
  once := by
    refine List.nodup_iff_count_le_one.mpr fun n => ?_
    have hc : (m.delivered.map fun d => d.request.number).count n =
        m.delivered.countP fun d => numbered n d.request := by
      simp only [List.count_eq_countP, List.countP_map]
      rfl
    have := hi.once n
    rw [hc]
    unfold Router.held at this
    omega

/-- In a run in which processes take over only settled accounts, every answer
reaches the process that asked, under the id it asked with, and only once. -/
theorem settled_runs_answers_reach_issuer {requestTimeout clock : ℤ} {u : Router}
    {actions : List Action}
    (h : Runs (Guarded Settled (Fires step)) (Router.init requestTimeout clock) actions u) :
    AnswersReachIssuer u :=
  (h.invariant (inv_init requestTimeout clock) fun _ _ _ hi hs => hi.step hs).answersReachIssuer

/-- The single child of account `a` asks with id `7`, and its request is forwarded. -/
def approvalAsked : List Action :=
  [.launch (lit "a"), .register (lit "a"),
    .writeRequest 0 { id := lit "7", method := lit "item/requestApproval" },
    .readLoop 0, .forwardServerRequest]

def approvalGiven : Action :=
  .handleServerRequestResponse { id := lit "\"codex-mux:a:1\"", result := lit "true" }

theorem settled_runs_answers_reach_issuer_once :
    ∃ u, AnswersReachIssuer u ∧
      u.delivered = [⟨0, { id := lit "7", result := lit "true" }, ⟨0, 0, lit "7"⟩⟩] := by
  have h : (exec (guard Settled step) (Router.init 30 0)
      (approvalAsked ++ [approvalGiven, .child 0, .send 0 true])).any (fun u =>
        u.delivered = [⟨0, { id := lit "7", result := lit "true" }, ⟨0, 0, lit "7"⟩⟩]) = true := by
    decide +kernel
  obtain ⟨u, hr, hd⟩ := guarded_runs_of_exec_any h
  exact ⟨u, settled_runs_answers_reach_issuer hr, of_decide_eq_true hd⟩

/-- The child exits, its account gets a new process, and only then the client answers. -/
theorem answer_reaches_successor :
    ∃ actions u, Runs (Fires step) (Router.init 30 0) actions u ∧ ¬ AnswersReachIssuer u := by
  have h : (exec step (Router.init 30 0)
      (approvalAsked ++ [.exit 0, .drop (lit "a"), .launch (lit "a"), .register (lit "a"),
        approvalGiven, .child 0, .send 0 true])).any (fun u =>
          u.delivered.any fun d => d.process = 1 ∧ d.request.process = 0) = true := by
    decide +kernel
  obtain ⟨u, hr, hd⟩ := runs_of_exec_any h
  obtain ⟨d, hmem, hp⟩ := List.any_eq_true.mp hd
  obtain ⟨h₁, h₀⟩ := of_decide_eq_true hp
  refine ⟨_, u, hr, fun hu => ?_⟩
  have := hu.issuer d hmem
  omega

end SubscriptionRouter.ServerRequests
