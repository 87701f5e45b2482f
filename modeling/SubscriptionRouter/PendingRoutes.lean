import Mathlib
import SubscriptionRouter.Messages
import SubscriptionRouter.Tallies
import SubscriptionRouter.Transitions

set_option autoImplicit false

/-!
# Pending routes of client requests

A client request is served by a goroutine that registers a route and then calls
`child.Send` outside the lock. A response, an expiry, the shutdown and a failed
send each take the route out of the table, and each leads to one answer. A task
below is one goroutine between two of its atomic steps.
-/
namespace SubscriptionRouter.PendingRoutes
open GoText JsonText Messages Tallies Transitions

structure ExternalRoute where
  accountID : GoString
  method : GoString
  message : Message
  excluded : Finset GoString
  expiresAt : ℤ

/-- Who made a response frame: a child of the account, or the router itself. -/
inductive Origin where
  | child (accountID : GoString)
  | router
  deriving DecidableEq

structure Frame where
  message : Message
  origin : Origin
  deriving DecidableEq

def Frame.key (f : Frame) : GoString := requestIDKey f.message.id

inductive Task where
  /-- Serving a request that is not routed, never or no longer. -/
  | route (message : Message) (excluded : Finset GoString)
  /-- In `child.Send`, after the route was registered. -/
  | send (accountID : GoString) (message : Message)
  /-- A turn at its usage limit whose params name no thread. -/
  | deplete (message : Message)
  /-- In `write` or `writeRaw`. -/
  | write (frame : Frame)

structure Router where
  requestSpending : Bool
  requestTimeout : ℤ
  clock : ℤ
  closing : Bool
  externalRoutes : GoMap ExternalRoute
  tasks : List Task
  output : List Frame
  /-- The keys the client has used. -/
  used : Finset GoString

def Router.init (requestSpending : Bool) (requestTimeout clock : ℤ) : Router where
  requestSpending := requestSpending
  requestTimeout := requestTimeout
  clock := clock
  closing := false
  externalRoutes := ∅
  tasks := []
  output := []
  used := ∅

def routerFailure (message : Message) (code : ℤ) (text : GoString) : Task :=
  .write ⟨failure message.id code text, .router⟩

/-! ## Serving a request -/

/-- Methods that `HandleClient` does not route to one account. -/
def unroutedMethods : List GoString :=
  [lit "initialize", lit "thread/list", lit "account/rateLimits/read"]

/-- `HandleClient` on a request that one account is to answer. The client uses
each request id at most once. -/
def Router.handleClient (m : Router) (message : Message) : Option Router :=
  let key := requestIDKey message.id
  if message.id ≠ [] ∧ message.method ≠ [] ∧ message.method ∉ unroutedMethods ∧ key ∉ m.used then
    let task := if m.closing then routerFailure message (-32034) (lit "router is shutting down")
      else .route message ∅
    some { m with used := insert key m.used, tasks := m.tasks ++ [task] }
  else none

/-- Why a request is refused before it is routed. -/
inductive Refusal where
  | noController
  | noControllerAccount
  | subscriptionsDepleted (text : GoString)
  | noAccount (error : GoString)
  | notMoved (label error : GoString)
  | ownerNotSaved (error : GoString)

def Refusal.failure : Refusal → ℤ × GoString
  | .noController => (-32022, lit "no controller configured")
  | .noControllerAccount => (-32022, lit "no controller account is configured")
  | .subscriptionsDepleted text => (-32026, text)
  | .noAccount error => (-32020, error)
  | .notMoved label error => (-32027, lit "move chat to " ++ label ++ lit ": " ++ error)
  | .ownerNotSaved error => (-32028, error)

def Router.refuse (m : Router) (i : ℕ) (refusal : Refusal) : Option Router :=
  match m.tasks[i]? with
  | some (.route message _) => some { m with
      tasks := m.tasks.eraseIdx i ++
        [routerFailure message refusal.failure.1 refusal.failure.2] }
  | some (.deplete message) => match refusal with
    | .subscriptionsDepleted text => some { m with
        tasks := m.tasks.eraseIdx i ++ [routerFailure message (-32026) text] }
    | _ => none
  | _ => none

/-- `routeTurnStart` finds the owner without capacity and fails over before sending. -/
def Router.excludeOwner (m : Router) (i : ℕ) (ownerID : GoString) : Option Router :=
  match m.tasks[i]? with
  | some (.route message excluded) =>
    if m.requestSpending = false ∧ message.method = lit "turn/start" ∧ excluded = ∅ ∧
        threadIDFromParams message.params ≠ [] then
      some { m with tasks := m.tasks.eraseIdx i ++ [.route message {ownerID}] }
    else none
  | _ => none

/-- The code the caller of `forwardRoute` reports its error under. -/
def forwardFailureCode (message : Message) : ℤ :=
  if message.method = lit "thread/start" then -32021 else -32023

inductive ForwardFailure where
  | shuttingDown
  | unavailable (accountID : GoString)

def ForwardFailure.text : ForwardFailure → GoString
  | .shuttingDown => lit "router is shutting down"
  | .unavailable accountID => lit "account " ++ accountID ++ lit " is unavailable"

/-- `forwardRoute` fails before it registers. -/
def Router.forwardFails (m : Router) (i : ℕ) (error : ForwardFailure) : Option Router :=
  match m.tasks[i]? with
  | some (.route message _) => some { m with
      tasks := m.tasks.eraseIdx i ++
        [routerFailure message (forwardFailureCode message) error.text] }
  | _ => none

def accountScopedPluginMethods : List GoString :=
  [lit "app/installed", lit "app/list", lit "app/read", lit "mcpServer/oauth/login",
    lit "mcpServerStatus/list"]

/-- `forwardRoute` registers the route. The chosen account is not an excluded
one. Request spending and a scoped plugin request rewrite the params. -/
def Router.forwardRoute (m : Router) (i : ℕ) (accountID : GoString) (params : RawMessage) :
    Option Router :=
  match m.tasks[i]? with
  | some (.route message excluded) =>
    let key := requestIDKey message.id
    if accountID ∉ excluded ∧ (m.requestSpending = true ∨
        message.method ∈ accountScopedPluginMethods ∨ params = message.params) then
      if m.externalRoutes[key]? = none then
        let sent := { message with params := params }
        some { m with
          externalRoutes := m.externalRoutes.insert key
            ⟨accountID, message.method, sent, excluded, m.clock + m.requestTimeout⟩
          tasks := m.tasks.eraseIdx i ++ [.send accountID sent] }
      else
        some { m with
          tasks := m.tasks.eraseIdx i ++ [routerFailure message (forwardFailureCode message)
            (lit "request ID " ++ key ++ lit " is already pending")] }
    else none
  | _ => none

def Router.sendSucceeds (m : Router) (i : ℕ) : Option Router :=
  match m.tasks[i]? with
  | some (.send _ _) => some { m with tasks := m.tasks.eraseIdx i }
  | _ => none

/-- `child.Send` fails: whatever the table holds under the key is deleted, and the
caller writes a failure. -/
def Router.sendFails (m : Router) (i : ℕ) (error : GoString) : Option Router :=
  match m.tasks[i]? with
  | some (.send _ message) => some { m with
      externalRoutes := m.externalRoutes.erase (requestIDKey message.id)
      tasks := m.tasks.eraseIdx i ++
        [routerFailure message (forwardFailureCode message) error] }
  | _ => none

/-! ## Answers -/

/-- What follows once a response has taken its route out. -/
def afterResponse (requestSpending : Bool) (route : ExternalRoute) (accountID : GoString)
    (response : Message) : Task :=
  if !requestSpending && isUsageLimitResponse response then
    if route.method = lit "thread/start" then
      .route route.message (insert accountID route.excluded)
    else if route.method = lit "turn/start" then
      if threadIDFromParams route.message.params = [] then .deplete route.message
      else .route route.message (insert accountID route.excluded)
    else .write ⟨response, .child accountID⟩
  else .write ⟨response, .child accountID⟩

/-- `handleInbound` on a response from a child of the account. -/
def Router.handleInbound (m : Router) (accountID : GoString) (response : Message) :
    Option Router :=
  if response.method = [] ∧ response.id ≠ [] then
    let key := requestIDKey response.id
    match m.externalRoutes[key]? with
    | some route =>
      if route.accountID = accountID then
        some { m with
          externalRoutes := m.externalRoutes.erase key
          tasks := m.tasks ++ [afterResponse m.requestSpending route accountID response] }
      else some m
    | none => some m
  else none

/-- Take out the routes that satisfy `due` and answer each with a failure. -/
def Router.failRoutes (m : Router) (due : ExternalRoute → Bool)
    (reason : ExternalRoute → GoString) : Router :=
  { m with
    externalRoutes := m.externalRoutes.filter fun _ route => !due route
    tasks := m.tasks ++ ((m.externalRoutes.toList.map Prod.snd).filter due).map fun route =>
      routerFailure route.message (-32030) (reason route) }

/-- `expireRoutes` for a tick of the ticker at time `now`. -/
def Router.expireRoutes (m : Router) (now : ℤ) : Option Router :=
  if now ≤ m.clock then
    some (m.failRoutes (fun route => route.expiresAt ≤ now)
      fun route => route.method ++ lit " timed out waiting for an app-server response")
  else none

def Router.expireAllRoutes (m : Router) : Router :=
  m.failRoutes (fun _ => true) fun _ => lit "router shut down before app-server responded"

def Router.write (m : Router) (i : ℕ) : Option Router :=
  match m.tasks[i]? with
  | some (.write frame) => some { m with
      tasks := m.tasks.eraseIdx i
      output := m.output ++ [frame] }
  | _ => none

inductive Action where
  | handleClient (message : Message)
  | refuse (i : ℕ) (refusal : Refusal)
  | excludeOwner (i : ℕ) (ownerID : GoString)
  | forwardFails (i : ℕ) (error : ForwardFailure)
  | forwardRoute (i : ℕ) (accountID : GoString) (params : RawMessage)
  | sendSucceeds (i : ℕ)
  | sendFails (i : ℕ) (error : GoString)
  | handleInbound (accountID : GoString) (response : Message)
  | expireRoutes (now : ℤ)
  | close
  | expireAllRoutes
  | write (i : ℕ)
  | tick (elapsed : ℕ)

def step (m : Router) : Action → Option Router
  | .handleClient message => m.handleClient message
  | .refuse i refusal => m.refuse i refusal
  | .excludeOwner i ownerID => m.excludeOwner i ownerID
  | .forwardFails i error => m.forwardFails i error
  | .forwardRoute i accountID params => m.forwardRoute i accountID params
  | .sendSucceeds i => m.sendSucceeds i
  | .sendFails i error => m.sendFails i error
  | .handleInbound accountID response => m.handleInbound accountID response
  | .expireRoutes now => m.expireRoutes now
  | .close => some { m with closing := true }
  | .expireAllRoutes => some m.expireAllRoutes
  | .write i => m.write i
  | .tick elapsed => some { m with clock := m.clock + elapsed }

/-! ## The law and the condition for it -/

/-- A child of the account sent the response when the route of the request was in the table and was
the account's. -/
def Answered (start : Router) (log : List Action) (accountID : GoString) (response : Message) : Prop :=
  ∃ before after m route, log = before ++ .handleInbound accountID response :: after ∧
    Runs (Fires step) start before m ∧ m.externalRoutes[requestIDKey response.id]? = some route ∧
    route.accountID = accountID

/-- A frame is the response of a child of the account that the request was routed to when the
response came, or a failure made by the router. -/
def Frame.Legitimate (start : Router) (log : List Action) (m : Router) (f : Frame) : Prop :=
  f.key ∈ m.used ∧ match f.origin with
    | .child accountID => Answered start log accountID f.message
    | .router => ∃ code text, f.message = failure f.message.id code text

structure OneResponse (start : Router) (log : List Action) (m : Router) : Prop where
  once : (m.output.map Frame.key).Nodup
  legitimate : ∀ f ∈ m.output, f.Legitimate start log m

/-- When a send fails, the request's route is still in the table. -/
def StillRouted (m : Router) : Action → Prop
  | .sendFails i _ => ∀ accountID message, m.tasks[i]? = some (.send accountID message) →
      m.externalRoutes[requestIDKey message.id]? ≠ none
  | _ => True

/-! ## One holder for each client request -/

def forKey (key : GoString) (message : Message) : Bool := requestIDKey message.id = key

/-- Whether a goroutine is going to answer a request; one in `child.Send` leaves
that to the route it registered. -/
def Task.owes (key : GoString) : Task → Bool
  | .route message _ => forKey key message
  | .send _ _ => false
  | .deplete message => forKey key message
  | .write frame => forKey key frame.message

/-- How many places of the router answer or have answered a request. -/
def Router.held (m : Router) (key : GoString) : ℕ :=
  m.tasks.countP (Task.owes key) + entryCount (fun r => forKey key r.message) m.externalRoutes +
    m.output.countP fun f => forKey key f.message

structure Inv (start : Router) (log : List Action) (m : Router) : Prop where
  run : Runs (Fires step) start log m
  keyed : ∀ (key : GoString) (route : ExternalRoute), m.externalRoutes[key]? = some route →
    requestIDKey route.message.id = key
  writing : ∀ f, Task.write f ∈ m.tasks → f.Legitimate start log m
  written : ∀ f ∈ m.output, f.Legitimate start log m
  unused : ∀ key, key ∉ m.used → m.held key = 0
  once : ∀ key, m.held key ≤ 1

variable {start : Router} {log : List Action} {action : Action}

theorem inv_init (requestSpending : Bool) (requestTimeout clock : ℤ) :
    Inv (Router.init requestSpending requestTimeout clock) []
      (Router.init requestSpending requestTimeout clock) where
  run := .refl _
  keyed := by simp [Router.init]
  writing := by simp [Router.init]
  written := by simp [Router.init]
  unused := by intro key _; rfl
  once := by intro key; exact Nat.zero_le 1

theorem Answered.concat {accountID : GoString} {response : Message}
    (h : Answered start log accountID response) : Answered start (log ++ [action]) accountID response := by
  obtain ⟨before, after, m, route, rfl, hrun, hroute, haccount⟩ := h
  exact ⟨before, after ++ [action], m, route, by simp, hrun, hroute, haccount⟩

theorem legitimate_mono {m u : Router} (hused : m.used ⊆ u.used) {f : Frame}
    (h : f.Legitimate start log m) : f.Legitimate start (log ++ [action]) u := by
  obtain ⟨hkey, ho⟩ := h
  refine ⟨hused hkey, ?_⟩
  cases horigin : f.origin with
  | child accountID =>
    simp only [horigin] at ho
    exact ho.concat
  | router => simpa only [horigin] using ho

/-- A step that takes in no request: what the table, the writers and the output
hold afterwards they held before or is legitimate, and no request gains a holder. -/
theorem Inv.moves {m u : Router} (hi : Inv start log m) (hstep : Fires step m action u)
    (hused : u.used = m.used)
    (hkeyed : ∀ (key : GoString) (route : ExternalRoute), u.externalRoutes[key]? = some route →
      m.externalRoutes[key]? = some route ∨ requestIDKey route.message.id = key)
    (hwriting : ∀ f, Task.write f ∈ u.tasks → Task.write f ∈ m.tasks ∨
      f.Legitimate start (log ++ [action]) u)
    (hwritten : ∀ f ∈ u.output, f ∈ m.output ∨ Task.write f ∈ m.tasks)
    (hheld : ∀ key, u.held key ≤ m.held key) : Inv start (log ++ [action]) u where
  run := hi.run.tail hstep
  keyed := by
    intro key route h
    rcases hkeyed key route h with h | h
    · exact hi.keyed key route h
    · exact h
  writing := by
    intro f hf
    rcases hwriting f hf with h | h
    · exact legitimate_mono hused.symm.subset (hi.writing f h)
    · exact h
  written := by
    intro f hf
    rcases hwritten f hf with h | h
    · exact legitimate_mono hused.symm.subset (hi.written f h)
    · exact legitimate_mono hused.symm.subset (hi.writing f h)
  unused := by
    intro key hk
    exact Nat.le_zero.mp (hi.unused key (hused ▸ hk) ▸ hheld key)
  once := fun key => (hheld key).trans (hi.once key)

theorem Inv.used_of_task {m : Router} (hi : Inv start log m) {i : ℕ} {t : Task} {key : GoString}
    (ht : m.tasks[i]? = some t) (ho : t.owes key = true) : key ∈ m.used := by
  by_contra hk
  have h := hi.unused key hk
  have hc := countP_eraseIdx (Task.owes key) ht
  rw [ho] at hc
  simp only [Router.held, hc, Bool.toNat_true] at h
  omega

theorem Inv.used_of_route {m : Router} (hi : Inv start log m) {key : GoString} {route : ExternalRoute}
    (h : m.externalRoutes[key]? = some route) : key ∈ m.used := by
  by_contra hk
  have hz := hi.unused key hk
  have hf : forKey key route.message = true := decide_eq_true (hi.keyed key route h)
  have hc := entryCount_erase (fun r : ExternalRoute => forKey key r.message) h
  rw [hf] at hc
  simp only [Router.held, hc, Bool.toNat_true] at hz
  omega

theorem forKey_self (message : Message) : forKey (requestIDKey message.id) message = true :=
  decide_eq_true rfl

@[simp] theorem owes_routerFailure (key : GoString) (message : Message) (code : ℤ)
    (text : GoString) : (routerFailure message code text).owes key = forKey key message := rfl

theorem held_replace {m : Router} {i : ℕ} {t t' : Task} (ht : m.tasks[i]? = some t)
    (key : GoString) (h : t'.owes key = true → t.owes key = true) :
    Router.held { m with tasks := m.tasks.eraseIdx i ++ [t'] } key ≤ m.held key := by
  have hc := countP_eraseIdx (Task.owes key) ht
  have : (t'.owes key).toNat ≤ (t.owes key).toNat := Bool.toNat_le_toNat h
  simp only [Router.held, hc, countP_concat]
  omega

theorem mem_replace {m : Router} {i : ℕ} {t' : Task} {f : Frame}
    (h : Task.write f ∈ m.tasks.eraseIdx i ++ [t']) : Task.write f ∈ m.tasks ∨ t' = .write f := by
  rcases List.mem_append.mp h with h | h
  · exact .inl (mem_of_eraseIdx h)
  · exact .inr (List.mem_singleton.mp h).symm

theorem legitimate_routerFailure {m : Router} {message : Message} {code : ℤ} {text : GoString}
    {f : Frame} (hused : requestIDKey message.id ∈ m.used)
    (h : routerFailure message code text = .write f) : f.Legitimate start log m := by
  cases h
  exact ⟨hused, code, text, rfl⟩

theorem Inv.replace {m : Router} (hi : Inv start log m) {i : ℕ} {t t' : Task} (ht : m.tasks[i]? = some t)
    (hstep : Fires step m action { m with tasks := m.tasks.eraseIdx i ++ [t'] })
    (howes : ∀ key, t'.owes key = true → t.owes key = true)
    (hwrite : ∀ f, t' = .write f →
      f.Legitimate start (log ++ [action]) { m with tasks := m.tasks.eraseIdx i ++ [t'] }) :
    Inv start (log ++ [action]) { m with tasks := m.tasks.eraseIdx i ++ [t'] } := by
  refine hi.moves hstep rfl (fun _ _ h => .inl h) ?_ (fun _ h => .inl h)
    fun key => held_replace ht key (howes key)
  exact fun f hf => (mem_replace hf).imp id (hwrite f)

theorem Inv.replaceByFailure {m : Router} (hi : Inv start log m) {i : ℕ} {t : Task} {message : Message}
    {code : ℤ} {text : GoString} (ht : m.tasks[i]? = some t)
    (hstep : Fires step m action
      { m with tasks := m.tasks.eraseIdx i ++ [routerFailure message code text] })
    (howes : ∀ key, t.owes key = forKey key message) :
    Inv start (log ++ [action])
      { m with tasks := m.tasks.eraseIdx i ++ [routerFailure message code text] } := by
  have hused : requestIDKey message.id ∈ m.used :=
    hi.used_of_task ht ((howes _).trans (forKey_self message))
  exact hi.replace ht hstep (fun key h => (howes key).trans h) fun f h =>
    legitimate_routerFailure hused h

/-! ## Each step -/

theorem Inv.keeps {m u : Router} (hi : Inv start log m) (hstep : Fires step m action u)
    (hused : u.used = m.used) (hroutes : u.externalRoutes = m.externalRoutes) (htasks : u.tasks = m.tasks)
    (houtput : u.output = m.output) : Inv start (log ++ [action]) u := by
  refine hi.moves hstep hused (fun _ _ h => .inl (hroutes ▸ h)) (fun _ h => .inl (htasks ▸ h))
    (fun _ h => .inl (houtput ▸ h)) fun key => ?_
  rw [Router.held, Router.held, hroutes, htasks, houtput]

theorem Inv.handleClient {m u : Router} {message : Message} (hi : Inv start log m)
    (h : m.handleClient message = some u) : Inv start (log ++ [.handleClient message]) u := by
  have hstep : Fires step m (.handleClient message) u := h
  rw [Router.handleClient] at h
  split at h
  · rename_i hg
    have hu := Option.some.inj h
    have hfresh : m.held (requestIDKey message.id) = 0 := hi.unused _ hg.2.2.2
    generalize ht : (if m.closing = true then routerFailure message (-32034)
      (lit "router is shutting down") else Task.route message ∅) = task at hu
    subst hu
    have howes : ∀ key, task.owes key = forKey key message := by
      intro key
      rw [← ht]
      split <;> rfl
    have hheld : ∀ key, Router.held { m with
        used := insert (requestIDKey message.id) m.used, tasks := m.tasks ++ [task] } key =
        m.held key + (forKey key message).toNat := by
      intro key
      simp only [Router.held, countP_concat, howes]
      omega
    have hgrow : ∀ f : Frame, f.Legitimate start log m →
        f.Legitimate start (log ++ [.handleClient message]) { m with
          used := insert (requestIDKey message.id) m.used, tasks := m.tasks ++ [task] } :=
      fun f hf => legitimate_mono (Finset.subset_insert _ _) hf
    refine ⟨hi.run.tail hstep, hi.keyed, ?_, fun f hf => hgrow f (hi.written f hf), ?_, ?_⟩
    · intro f hf
      rcases List.mem_append.mp hf with hf | hf
      · exact hgrow f (hi.writing f hf)
      · rw [← List.mem_singleton.mp hf] at ht
        split at ht
        · exact legitimate_routerFailure (Finset.mem_insert_self _ _) ht
        · cases ht
    · intro key hk
      have hne : requestIDKey message.id ≠ key := fun he => hk (he ▸ Finset.mem_insert_self _ _)
      rw [hheld, hi.unused key (fun hm => hk (Finset.mem_insert_of_mem hm)), forKey,
        decide_eq_false hne]
      rfl
    · intro key
      rw [hheld]
      by_cases hk : requestIDKey message.id = key
      · subst key
        rw [hfresh]
        exact Nat.zero_add _ ▸ Bool.toNat_le _
      · rw [forKey, decide_eq_false hk]
        exact hi.once key
  · cases h

theorem Inv.refuse {m u : Router} {i : ℕ} {refusal : Refusal} (hi : Inv start log m)
    (h : m.refuse i refusal = some u) : Inv start (log ++ [.refuse i refusal]) u := by
  have hstep : Fires step m (.refuse i refusal) u := h
  unfold Router.refuse at h
  split at h
  · rename_i ht
    obtain rfl := Option.some.inj h
    exact hi.replaceByFailure ht hstep fun _ => rfl
  · rename_i ht
    split at h
    · obtain rfl := Option.some.inj h
      exact hi.replaceByFailure ht hstep fun _ => rfl
    · cases h
  · cases h

theorem Inv.excludeOwner {m u : Router} {i : ℕ} {ownerID : GoString} (hi : Inv start log m)
    (h : m.excludeOwner i ownerID = some u) : Inv start (log ++ [.excludeOwner i ownerID]) u := by
  have hstep : Fires step m (.excludeOwner i ownerID) u := h
  unfold Router.excludeOwner at h
  split at h
  · rename_i ht
    split at h
    · obtain rfl := Option.some.inj h
      exact hi.replace ht hstep (fun _ h => h) fun f h => by cases h
    · cases h
  · cases h

theorem Inv.forwardFails {m u : Router} {i : ℕ} {error : ForwardFailure} (hi : Inv start log m)
    (h : m.forwardFails i error = some u) : Inv start (log ++ [.forwardFails i error]) u := by
  have hstep : Fires step m (.forwardFails i error) u := h
  unfold Router.forwardFails at h
  split at h
  · rename_i ht
    obtain rfl := Option.some.inj h
    exact hi.replaceByFailure ht hstep fun _ => rfl
  · cases h

theorem Inv.forwardRoute {m u : Router} {i : ℕ} {accountID : GoString} {params : RawMessage}
    (hi : Inv start log m) (h : m.forwardRoute i accountID params = some u) :
      Inv start (log ++ [.forwardRoute i accountID params]) u := by
  have hstep : Fires step m (.forwardRoute i accountID params) u := h
  unfold Router.forwardRoute at h
  split at h
  · rename_i message excluded ht
    dsimp only at h
    split at h
    · split at h
      · rename_i hfree
        obtain rfl := Option.some.inj h
        refine hi.moves hstep rfl ?_ ?_ (fun _ h => .inl h) ?_
        · intro key route hr
          rw [Std.ExtTreeMap.getElem?_insert] at hr
          split at hr
          · rename_i hk
            obtain rfl := Std.LawfulEqCmp.eq_of_compare hk
            cases hr
            exact .inr rfl
          · exact .inl hr
        · intro f hf
          rcases mem_replace hf with hf | hf
          · exact .inl hf
          · cases hf
        · intro key
          have hc := countP_eraseIdx (Task.owes key) ht
          simp only [Router.held, hc, entryCount_insert_fresh _ _ hfree, countP_concat, Task.owes,
            forKey, Bool.toNat_false]
          omega
      · obtain rfl := Option.some.inj h
        exact hi.replaceByFailure ht hstep fun _ => rfl
    · cases h
  · cases h

theorem Inv.sendSucceeds {m u : Router} {i : ℕ} (hi : Inv start log m) (h : m.sendSucceeds i = some u) :
    Inv start (log ++ [.sendSucceeds i]) u := by
  have hstep : Fires step m (.sendSucceeds i) u := h
  unfold Router.sendSucceeds at h
  split at h
  · rename_i ht
    obtain rfl := Option.some.inj h
    refine hi.moves hstep rfl (fun _ _ h => .inl h)
      (fun _ h => .inl (mem_of_eraseIdx h)) (fun _ h => .inl h) fun key => ?_
    have hc := countP_eraseIdx (Task.owes key) ht
    simp only [Router.held, hc]
    omega
  · cases h

theorem Inv.sendFails {m u : Router} {i : ℕ} {error : GoString} (hi : Inv start log m)
    (hs : StillRouted m (.sendFails i error)) (h : m.sendFails i error = some u) :
      Inv start (log ++ [.sendFails i error]) u := by
  have hstep : Fires step m (.sendFails i error) u := h
  unfold Router.sendFails at h
  split at h
  · rename_i accountID message ht
    obtain rfl := Option.some.inj h
    obtain ⟨route, hr⟩ := Option.ne_none_iff_exists'.mp (hs accountID message ht)
    refine hi.moves hstep rfl ?_ ?_ (fun _ h => .inl h) ?_
    · intro key route hk
      exact .inl (getElem?_of_erase hk)
    · intro f hf
      exact (mem_replace hf).imp id (legitimate_routerFailure (hi.used_of_route hr))
    · intro key
      -- The token the failed route held passes to the failure.
      have hc := countP_eraseIdx (Task.owes key) ht
      have he := entryCount_erase (fun r : ExternalRoute => forKey key r.message) hr
      have hkey : forKey key route.message = forKey key message := by
        rw [forKey, forKey, (hi.keyed _ route hr)]
      rw [hkey] at he
      simp only [Router.held, hc, he, countP_concat, owes_routerFailure]
      omega
  · cases h

theorem owes_afterResponse {requestSpending : Bool} {route : ExternalRoute} {accountID : GoString}
    {response : Message} (hid : requestIDKey route.message.id = requestIDKey response.id)
    (key : GoString) :
    (afterResponse requestSpending route accountID response).owes key = forKey key response := by
  unfold afterResponse
  split_ifs <;> simp only [Task.owes, forKey, hid]

theorem afterResponse_writes {requestSpending : Bool} {route : ExternalRoute}
    {accountID : GoString} {response : Message} {f : Frame}
    (h : afterResponse requestSpending route accountID response = .write f) :
    f = ⟨response, .child accountID⟩ := by
  unfold afterResponse at h
  split_ifs at h <;> cases h <;> rfl

theorem Inv.handleInbound {m u : Router} {accountID : GoString} {response : Message} (hi : Inv start log m)
    (h : m.handleInbound accountID response = some u) :
      Inv start (log ++ [.handleInbound accountID response]) u := by
  have hstep : Fires step m (.handleInbound accountID response) u := h
  unfold Router.handleInbound at h
  split at h
  · dsimp only at h
    split at h
    · rename_i route hr
      split at h
      · rename_i hacc
        obtain rfl := Option.some.inj h
        subst hacc
        have hkeyed := hi.keyed _ route hr
        refine hi.moves hstep rfl ?_ ?_ (fun _ h => .inl h) ?_
        · intro key route hk
          exact .inl (getElem?_of_erase hk)
        · intro f hf
          rcases List.mem_append.mp hf with hf | hf
          · exact .inl hf
          · obtain rfl := afterResponse_writes (List.mem_singleton.mp hf).symm
            exact .inr ⟨hi.used_of_route hr, log, [], m, route, rfl, hi.run, hr, rfl⟩
        · intro key
          have he := entryCount_erase (fun r : ExternalRoute => forKey key r.message) hr
          have hkey : forKey key route.message = forKey key response := by
            rw [forKey, forKey, hkeyed]
          rw [hkey] at he
          simp only [Router.held, he, countP_concat, owes_afterResponse hkeyed]
          omega
      · cases h
        exact hi.keeps hstep rfl rfl rfl rfl
    · cases h
      exact hi.keeps hstep rfl rfl rfl rfl
  · cases h

theorem Inv.failRoutes {m : Router} (hi : Inv start log m) {due : ExternalRoute → Bool}
    {reason : ExternalRoute → GoString} (hstep : Fires step m action (m.failRoutes due reason)) :
    Inv start (log ++ [action]) (m.failRoutes due reason) := by
  refine hi.moves hstep rfl ?_ ?_ (fun _ h => .inl h) ?_
  · intro key route hk
    simp only [Router.failRoutes, Std.ExtTreeMap.getElem?_filter', Option.filter_eq_some_iff] at hk
    exact .inl hk.1
  · intro f hf
    rcases List.mem_append.mp hf with hf | hf
    · exact .inl hf
    · obtain ⟨route, hr, hw⟩ := List.mem_map.mp hf
      obtain ⟨key, hk⟩ := mem_values.mp (List.mem_filter.mp hr).1
      have hused := hi.used_of_route hk
      rw [← (hi.keyed key route hk)] at hused
      exact .inr (legitimate_routerFailure hused hw)
  · intro key
    have he := entryCount_filter (fun r : ExternalRoute => forKey key r.message) due m.externalRoutes
    simp only [Router.failRoutes, Router.held, he, List.countP_append, List.countP_map,
      Function.comp_def, owes_routerFailure]
    omega

theorem Inv.expireRoutes {m u : Router} {now : ℤ} (hi : Inv start log m)
    (h : m.expireRoutes now = some u) : Inv start (log ++ [.expireRoutes now]) u := by
  have hstep : Fires step m (.expireRoutes now) u := h
  unfold Router.expireRoutes at h
  split at h
  · obtain rfl := Option.some.inj h
    exact hi.failRoutes hstep
  · cases h

theorem Inv.write {m u : Router} {i : ℕ} (hi : Inv start log m) (h : m.write i = some u) :
    Inv start (log ++ [.write i]) u := by
  have hstep : Fires step m (.write i) u := h
  unfold Router.write at h
  split at h
  · rename_i frame ht
    obtain rfl := Option.some.inj h
    refine hi.moves hstep rfl (fun _ _ h => .inl h)
      (fun _ h => .inl (mem_of_eraseIdx h)) ?_ fun key => ?_
    · intro f hf
      rcases List.mem_append.mp hf with hf | hf
      · exact .inl hf
      · rw [List.mem_singleton.mp hf]
        exact .inr (List.mem_of_getElem? ht)
    · have hc := countP_eraseIdx (Task.owes key) ht
      change _ = _ + (forKey key frame.message).toNat at hc
      simp only [Router.held, hc, countP_concat]
      omega
  · cases h

theorem Inv.step {m u : Router} (hi : Inv start log m)
    (h : Guarded StillRouted (Fires step) m action u) : Inv start (log ++ [action]) u := by
  obtain ⟨hs, h⟩ := h
  cases action with
  | handleClient message => exact hi.handleClient h
  | refuse i refusal => exact hi.refuse h
  | excludeOwner i ownerID => exact hi.excludeOwner h
  | forwardFails i error => exact hi.forwardFails h
  | forwardRoute i accountID params => exact hi.forwardRoute h
  | sendSucceeds i => exact hi.sendSucceeds h
  | sendFails i error => exact hi.sendFails hs h
  | handleInbound accountID response => exact hi.handleInbound h
  | expireRoutes now => exact hi.expireRoutes h
  | close =>
    have hstep := h
    cases h
    exact hi.keeps hstep rfl rfl rfl rfl
  | expireAllRoutes =>
    have hstep := h
    cases h
    exact hi.failRoutes hstep
  | write i => exact hi.write h
  | tick elapsed =>
    have hstep := h
    cases h
    exact hi.keeps hstep rfl rfl rfl rfl

theorem Inv.oneResponse {m : Router} (hi : Inv start log m) : OneResponse start log m where
  once := by
    refine List.nodup_iff_count_le_one.mpr fun key => ?_
    have hc : (m.output.map Frame.key).count key =
        m.output.countP fun f => forKey key f.message := by
      rw [List.count_eq_countP, List.countP_map]
      exact List.countP_congr fun f _ => by simp [forKey, Frame.key]
    have := hi.once key
    rw [hc]
    unfold Router.held at this
    omega
  legitimate := hi.written

/-- In a run in which every failing send finds its route still in the table, the
client gets at most one response to each request, and a legitimate one. -/
theorem stillRouted_runs_one_response {requestSpending : Bool} {requestTimeout clock : ℤ}
    {u : Router} {actions : List Action}
    (h : Runs (Guarded StillRouted (Fires step)) (Router.init requestSpending requestTimeout clock)
      actions u) : OneResponse (Router.init requestSpending requestTimeout clock) actions u := by
  have hinv : Inv (Router.init requestSpending requestTimeout clock) actions u := by
    induction h with
    | refl => exact inv_init requestSpending requestTimeout clock
    | tail _ last ih => exact ih.step last
  exact hinv.oneResponse

instance (m : Router) (action : Action) : Decidable (StillRouted m action) :=
  match action with
  | .sendFails i _ => match ht : m.tasks[i]? with
    | some (.send _ message) =>
      decidable_of_iff ((m.externalRoutes[requestIDKey message.id]?).isSome = true) <| by
        simp only [StillRouted, ht, Option.some.injEq, Task.send.injEq, and_imp]
        constructor
        · rintro h _ _ rfl rfl hn
          rw [hn] at h
          cases h
        · intro h
          exact Option.isSome_iff_ne_none.mpr (h _ _ rfl rfl)
    | some (.route _ _) | some (.deplete _) | some (.write _) | none =>
      isTrue fun _ _ h => by rw [ht] at h; cases h
  | .handleClient _ | .refuse _ _ | .excludeOwner _ _ | .forwardFails _ _ | .forwardRoute _ _ _
  | .sendSucceeds _ | .handleInbound _ _ | .expireRoutes _ | .close | .expireAllRoutes
  | .write _ | .tick _ => isTrue trivial

/-- A client request with id `1` that is routed to account `a`. -/
def turnSent : List Action :=
  [.handleClient { id := lit "1", method := lit "turn/interrupt", params := lit "{}" },
    .forwardRoute 0 (lit "a") (lit "{}")]

theorem stillRouted_runs_one_response_failed_send :
    ∃ actions u, OneResponse (Router.init false 30 0) actions u ∧
      u.output = [⟨failure (lit "1") (-32023) (lit "broken pipe"), .router⟩] := by
  have h : (exec (guard StillRouted step) (Router.init false 30 0)
      (turnSent ++ [.sendFails 0 (lit "broken pipe"), .write 0])).any (fun u =>
        u.output = [⟨failure (lit "1") (-32023) (lit "broken pipe"), .router⟩]) = true := by
    decide
  obtain ⟨u, hr, ho⟩ := guarded_runs_of_exec_any h
  exact ⟨_, u, stillRouted_runs_one_response hr, of_decide_eq_true ho⟩

/-- The send blocks until the route has expired, and then fails. -/
theorem late_send_failure_answers_twice :
    ∃ actions u, Runs (Fires step) (Router.init false 30 0) actions u ∧
      ¬ OneResponse (Router.init false 30 0) actions u := by
  have h : (exec step (Router.init false 30 0)
      (turnSent ++ [.tick 30, .expireRoutes 30, .write 1,
        .sendFails 0 (lit "Codex app-server is closed"), .write 0])).any (fun u =>
          u.output.map Frame.key = [lit "1", lit "1"]) = true := by
    decide
  obtain ⟨u, hr, ho⟩ := runs_of_exec_any h
  refine ⟨_, u, hr, fun hu => ?_⟩
  have := hu.once
  rw [of_decide_eq_true ho] at this
  exact absurd this (by decide)

end SubscriptionRouter.PendingRoutes
