import Mathlib
import SubscriptionRouter.AccountChooser
import SubscriptionRouter.Locks
import SubscriptionRouter.Messages
import SubscriptionRouter.PendingRoutes
import SubscriptionRouter.StoreInvariant
import SubscriptionRouter.Tallies
import SubscriptionRouter.Transitions

set_option autoImplicit false

/-!
# Where one client request is sent

A request that meets a usage limit is sent again to another account, with the accounts
that have had it excluded. The exclusion set goes from the goroutine to the route it
registers, and from the route to the goroutine that the next usage limit starts.
-/
namespace SubscriptionRouter.FailoverChains
open AccountChooser GoText Locks Messages StoreState StoreInvariant Tallies Transitions
open PendingRoutes (accountScopedPluginMethods)

/-- Who called `chooseAccountExcluding`. -/
inductive Purpose where
  | newThread
  | failover (threadID sourceAccountID : GoString)

/-- The step that the goroutine of a request takes next. -/
inductive Stage where
  | newThread (excluded : Finset GoString)
  | turnStart (threadID ownerID : GoString)
  | capacity (threadID ownerID : GoString)
  | choose (purpose : Purpose) (excluded : Finset GoString)
  | consider (purpose : Purpose) (excluded : Finset GoString) (mode : RoutingMode)
      (snapshots : List AccountSnapshot) (candidates : List GoString)
  | resume (threadID accountID : GoString) (excluded : Finset GoString)
  | saveOwner (threadID accountID : GoString) (excluded : Finset GoString)
  | forward (accountID : GoString) (excluded : Finset GoString)
  | register (accountID : GoString) (excluded : Finset GoString)
  | send (accountID : GoString)

structure Task where
  request : ℕ
  message : Message
  stage : Stage

def Task.at (t : Task) (stage : Stage) : Task := { t with stage := stage }

structure ExternalRoute where
  request : ℕ
  accountID : GoString
  message : Message
  excluded : Finset GoString

structure Dispatch where
  request : ℕ
  accountID : GoString
  deriving DecidableEq

structure Router where
  requestSpending : Bool
  closing : Bool
  machine : Machine
  /-- The accounts with a child in the table. -/
  children : Finset GoString
  externalRoutes : GoMap ExternalRoute
  tasks : List Task
  /-- The client's requests, each with the accounts that have existed since it came. -/
  requests : List (Finset GoString)
  registered : List Dispatch
  dispatched : List Dispatch

def Router.init (requestSpending : Bool) (m : Machine) : Router where
  requestSpending := requestSpending
  closing := false
  machine := m
  children := ∅
  externalRoutes := ∅
  tasks := []
  requests := []
  registered := []
  dispatched := []

def accountIDs (s : Store) : Finset GoString := (s.accounts.map Account.id).toFinset

/-- A call of the store ends in `m`. -/
def Router.commit (u : Router) (m : Machine) : Router :=
  { u with machine := m, requests := u.requests.map (· ∪ accountIDs m.store) }

/-- `HandleClient` on a request that is routed to one account; `scopedAccountID` is the account
that the params of a plugin request name. -/
def Router.firstStage (u : Router) (message : Message) (scopedAccountID : Option GoString) : Option Stage :=
  let threadID := threadIDFromParams message.params
  let owner := (if threadID = [] then none else u.machine.store.threadOwner threadID).or
    (u.machine.store.controller.map Account.id)
  if u.closing then none
  else if message.method = lit "thread/start" then some (.newThread ∅)
  else if message.method ∈ accountScopedPluginMethods ∧ scopedAccountID.any u.machine.store.enabled then
    scopedAccountID.map fun accountID => .forward accountID ∅
  else owner.map fun ownerID =>
    if message.method = lit "turn/start" ∧ threadID ≠ [] then .turnStart threadID ownerID
    else .forward ownerID ∅

def Router.handleClient (u : Router) (message : Message) (scopedAccountID : Option GoString) : Router :=
  { u with
    requests := u.requests ++ [accountIDs u.machine.store]
    tasks := u.tasks ++ ((u.firstStage message scopedAccountID).map fun stage =>
      ⟨u.requests.length, message, stage⟩).toList }

/-- What the environment decides for a step of a goroutine. -/
structure Choice where
  snapshots : List AccountSnapshot
  /-- Which of the candidates the ranking puts first. -/
  rank : ℕ
  ok : Bool
  outcomes : List (Option Fault)

/-- The account a choice ended with. -/
def Purpose.chosen (purpose : Purpose) (accountID : GoString) (excluded : Finset GoString) : Stage :=
  match purpose with
  | .newThread => .forward accountID excluded
  | .failover threadID _ => .resume threadID accountID excluded

/-- The next step of a goroutine: the router after it and the stage it is left at. -/
def Router.act (u : Router) (c : Choice) (t : Task) : Router × Option Stage :=
  match t.stage with
  | .newThread excluded =>
    if u.requestSpending then (u, u.machine.store.controller.map fun a => .forward a.id ∅)
    else (u, some (.choose .newThread excluded))
  | .turnStart threadID ownerID =>
    if u.requestSpending then (u, some (.forward ownerID ∅))
    else (u, some (.capacity threadID ((u.machine.store.threadOwner threadID).getD ownerID)))
  | .capacity threadID ownerID =>
    if c.ok then (u, some (.forward ownerID ∅))
    else (u, some (.choose (.failover threadID ownerID) {ownerID}))
  | .choose purpose excluded =>
    (u, some (.consider purpose excluded u.machine.store.routingMode c.snapshots []))
  | .consider purpose excluded _ [] candidates =>
    (u, candidates[c.rank]?.map fun accountID => purpose.chosen accountID excluded)
  | .consider purpose excluded mode (snapshot :: rest) candidates =>
    match AccountChooser.consider mode u.machine.store excluded snapshot with
    | .skip => (u, some (.consider purpose excluded mode rest candidates))
    | .preferred a => (u, some (purpose.chosen a.id excluded))
    | .candidate a => (u, some (.consider purpose excluded mode rest (candidates ++ [a.id])))
  | .resume threadID accountID excluded =>
    (u, if c.ok then some (.saveOwner threadID accountID excluded) else none)
  | .saveOwner threadID accountID excluded =>
    let saved := (u.machine.facing c.outcomes).setThreadOwner threadID accountID
    (u.commit saved.2, if saved.1.isOk then some (.forward accountID excluded) else none)
  | .forward accountID excluded =>
    (u, if u.closing = false ∧ accountID ∈ u.children then some (.register accountID excluded) else none)
  | .register accountID excluded =>
    let key := requestIDKey t.message.id
    match u.externalRoutes[key]? with
    | some _ => (u, none)
    | none => ({ u with
        externalRoutes := u.externalRoutes.insert key ⟨t.request, accountID, t.message, excluded⟩
        registered := u.registered ++ [⟨t.request, accountID⟩] }, some (.send accountID))
  | .send accountID =>
    ({ u with
      externalRoutes := if c.ok then u.externalRoutes
        else u.externalRoutes.erase (requestIDKey t.message.id)
      dispatched := u.dispatched ++ [⟨t.request, accountID⟩] }, none)

/-- What a response of the route's account starts. -/
def retry (requestSpending : Bool) (route : ExternalRoute) (response : Message) : Option Stage :=
  let excluded := insert route.accountID route.excluded
  let threadID := threadIDFromParams route.message.params
  if requestSpending = false ∧ isUsageLimitResponse response then
    if route.message.method = lit "thread/start" then some (.newThread excluded)
    else if route.message.method = lit "turn/start" ∧ threadID ≠ [] then
      some (.choose (.failover threadID route.accountID) excluded)
    else none
  else none

/-- `handleInbound` on a response. -/
def Router.handleInbound (u : Router) (accountID : GoString) (response : Message) : Router :=
  let key := requestIDKey response.id
  match u.externalRoutes[key]? with
  | some route =>
    if route.accountID = accountID then { u with
      externalRoutes := u.externalRoutes.erase key
      tasks := u.tasks ++ ((retry u.requestSpending route response).map fun stage =>
        ⟨route.request, route.message, stage⟩).toList }
    else u
  | none => u

inductive Action where
  | handleClient (message : Message) (scopedAccountID : Option GoString)
  | go (i : ℕ) (c : Choice)
  | handleInbound (accountID : GoString) (response : Message)
  /-- A route expires, or is dropped at the shutdown. -/
  | dropRoute (key : GoString)
  | setChildren (children : Finset GoString)
  | close
  | store (p : Platform) (call : Call) (outcomes : List (Option Fault))

def step (u : Router) : Action → Option Router
  | .handleClient message scopedAccountID => some (u.handleClient message scopedAccountID)
  | .go i c => u.tasks[i]?.map fun t =>
    let r := u.act c t
    { r.1 with tasks := u.tasks.eraseIdx i ++ (r.2.map t.at).toList }
  | .handleInbound accountID response => some (u.handleInbound accountID response)
  | .dropRoute key => some { u with externalRoutes := u.externalRoutes.erase key }
  | .setChildren children => some { u with children }
  | .close => some { u with closing := true }
  | .store p call outcomes => match call with
    | .openStore _ _ => none
    | call => some (u.commit (call.perform p (u.machine.facing outcomes)).2)

def accountsOf (log : List Dispatch) (request : ℕ) : List GoString :=
  (log.filter (·.request = request)).map Dispatch.accountID

/-- Every request has gone to each account at most once, and only to accounts that have
existed since it came; the next retry of a route excludes an account more. -/
structure Bounded (u : Router) : Prop where
  once : ∀ request, (accountsOf u.dispatched request).Nodup
  existed : ∀ request lived, u.requests[request]? = some lived →
    ∀ a ∈ accountsOf u.dispatched request, a ∈ lived
  bounded : ∀ request lived, u.requests[request]? = some lived →
    (accountsOf u.dispatched request).length ≤ lived.card
  grows : ∀ (key : GoString) route, u.externalRoutes[key]? = some route →
    route.excluded ⊂ insert route.accountID route.excluded

/-! ## What a goroutine and a route know -/

def Router.existed (u : Router) (request : ℕ) (a : GoString) : Prop :=
  ∃ lived, u.requests[request]? = some lived ∧ a ∈ lived

def Router.covered (u : Router) (request : ℕ) (excluded : Finset GoString) : Prop :=
  ∀ a ∈ accountsOf u.registered request, a ∈ excluded

/-- The request whose next dispatch is up to this goroutine. -/
def Task.token (t : Task) : Option ℕ :=
  match t.stage with
  | .send _ => none
  | _ => some t.request

def Task.sends (d : Dispatch) (t : Task) : Bool :=
  match t.stage with
  | .send a => d = ⟨t.request, a⟩
  | _ => false

def Stage.Good (u : Router) (request : ℕ) : Stage → Prop
  | .newThread excluded => u.covered request excluded ∧ (u.requestSpending = true → excluded = ∅)
  | .turnStart _ a | .capacity _ a => u.covered request ∅ ∧ u.existed request a
  | .choose _ excluded => u.covered request excluded
  | .consider _ excluded _ _ candidates =>
    u.covered request excluded ∧ ∀ a ∈ candidates, a ∉ excluded ∧ u.existed request a
  | .resume _ a excluded | .saveOwner _ a excluded | .forward a excluded | .register a excluded =>
    u.covered request excluded ∧ a ∉ excluded ∧ u.existed request a
  | .send a => u.existed request a

structure ExternalRoute.Good (u : Router) (route : ExternalRoute) : Prop where
  request_lt : route.request < u.requests.length
  covered : u.covered route.request (insert route.accountID route.excluded)
  fresh : route.accountID ∉ route.excluded

def liveTokens (tasks : List Task) (routes : GoMap ExternalRoute) (request : ℕ) : ℕ :=
  tasks.countP (fun t => t.token = some request) + entryCount (fun route => route.request = request) routes

/-- The accounts of the store have existed since every request that has come. -/
def Current (u : Router) : Prop :=
  ∀ (request : ℕ) (lived : Finset GoString), u.requests[request]? = some lived →
    accountIDs u.machine.store ⊆ lived

structure Inv (u : Router) : Prop where
  valid : Valid u.machine.store
  current : Current u
  tokens : ∀ request, liveTokens u.tasks u.externalRoutes request ≤ 1
  tasks : ∀ t ∈ u.tasks, t.request < u.requests.length ∧ t.stage.Good u t.request
  routes : ∀ (key : GoString) route, u.externalRoutes[key]? = some route → route.Good u
  registered : ∀ d ∈ u.registered, u.existed d.request d.accountID
  once : ∀ d, u.registered.count d ≤ 1
  sends : ∀ d, u.dispatched.count d + u.tasks.countP (Task.sends d) ≤ u.registered.count d

/-- The accounts that have existed since a request came only become more. -/
structure Extends (u v : Router) : Prop where
  spending : v.requestSpending = u.requestSpending
  length : u.requests.length ≤ v.requests.length
  existed : ∀ id a, u.existed id a → v.existed id a

section Steps
variable {u v w : Router}

theorem Extends.refl (u : Router) : Extends u u := ⟨rfl, le_rfl, fun _ _ h => h⟩

theorem Extends.trans (h : Extends u v) (h' : Extends v w) : Extends u w :=
  ⟨h'.spending.trans h.spending, h.length.trans h'.length,
    fun request a ha => h'.existed request a (h.existed request a ha)⟩

theorem extends_of_requests (hs : v.requestSpending = u.requestSpending)
    (hr : v.requests = u.requests) : Extends u v :=
  ⟨hs, hr ▸ le_rfl, fun _ _ ⟨lived, hl, ha⟩ => ⟨lived, hr ▸ hl, ha⟩⟩

theorem extends_commit (u : Router) (m : Machine) : Extends u (u.commit m) where
  spending := rfl
  length := by simp [Router.commit]
  existed := fun _ _ ⟨lived, hl, ha⟩ =>
    ⟨lived ∪ accountIDs m.store, by simp [Router.commit, hl], Finset.mem_union_left _ ha⟩

theorem Stage.Good.frame {request : ℕ} {stage : Stage} (h : stage.Good u request)
    (hx : Extends u v) (hlog : (∃ a, stage = .send a) ∨
      accountsOf v.registered request = accountsOf u.registered request) : stage.Good v request := by
  rcases hlog with ⟨a, rfl⟩ | hlog
  · exact hx.existed _ _ h
  · have hcovered : ∀ excluded, u.covered request excluded → v.covered request excluded :=
      fun excluded hc a ha => hc a (hlog ▸ ha)
    cases stage with
    | newThread excluded => exact ⟨hcovered _ h.1, fun hs => h.2 (hx.spending ▸ hs)⟩
    | turnStart threadID a => exact ⟨hcovered _ h.1, hx.existed _ _ h.2⟩
    | capacity threadID a => exact ⟨hcovered _ h.1, hx.existed _ _ h.2⟩
    | choose purpose excluded => exact hcovered _ h
    | consider purpose excluded mode snapshots candidates =>
      exact ⟨hcovered _ h.1, fun a ha => ⟨(h.2 a ha).1, hx.existed _ _ (h.2 a ha).2⟩⟩
    | resume threadID a excluded => exact ⟨hcovered _ h.1, h.2.1, hx.existed _ _ h.2.2⟩
    | saveOwner threadID a excluded => exact ⟨hcovered _ h.1, h.2.1, hx.existed _ _ h.2.2⟩
    | forward a excluded => exact ⟨hcovered _ h.1, h.2.1, hx.existed _ _ h.2.2⟩
    | register a excluded => exact ⟨hcovered _ h.1, h.2.1, hx.existed _ _ h.2.2⟩
    | send a => exact hx.existed _ _ h

theorem ExternalRoute.Good.frame {route : ExternalRoute} (h : route.Good u) (hx : Extends u v)
    (hlog : accountsOf v.registered route.request = accountsOf u.registered route.request) :
    route.Good v :=
  ⟨h.request_lt.trans_le hx.length, fun a ha => h.covered a (hlog ▸ ha), h.fresh⟩

/-! ## The steps of a goroutine -/

theorem liveTokens_eraseIdx {i : ℕ} {t : Task} (ht : u.tasks[i]? = some t) (request : ℕ) :
    liveTokens u.tasks u.externalRoutes request =
      liveTokens (u.tasks.eraseIdx i) u.externalRoutes request +
        if t.token = some request then 1 else 0 := by
  unfold liveTokens
  rw [countP_holds_eq ht]
  omega

/-- A goroutine goes on, or ends, without registering or sending. -/
theorem Inv.advance (hi : Inv u) {i : ℕ} {t : Task} (ht : u.tasks[i]? = some t)
    (hx : Extends u v) (hvalid : Valid v.machine.store) (hcurrent : Current v)
    (hroutes : v.externalRoutes = u.externalRoutes) (hregistered : v.registered = u.registered)
    (hdispatched : v.dispatched = u.dispatched) (htoken : t.token = some t.request)
    {next : Option Stage} (hnext : ∀ stage ∈ next, stage.Good v t.request ∧ ∀ a, stage ≠ .send a) :
    Inv { v with tasks := u.tasks.eraseIdx i ++ (next.map t.at).toList } := by
  have hx' : Extends u { v with tasks := u.tasks.eraseIdx i ++ (next.map t.at).toList } :=
    ⟨hx.spending, hx.length, hx.existed⟩
  have hmem : ∀ t' ∈ u.tasks.eraseIdx i ++ (next.map t.at).toList,
      t' ∈ u.tasks ∨ ∃ stage ∈ next, t' = t.at stage := fun t' ht' => by
    rcases List.mem_append.mp ht' with ht' | ht'
    · exact .inl (List.mem_of_mem_eraseIdx ht')
    · obtain ⟨stage, hstage, rfl⟩ := Option.map_eq_some_iff.mp (Option.mem_toList.mp ht')
      exact .inr ⟨stage, hstage, rfl⟩
  refine ⟨hvalid, hcurrent, fun request => ?_, fun t' ht' => ?_, fun key route h => ?_,
    fun d hd => ?_, fun d => ?_, fun d => ?_⟩
  · have hold := hi.tokens request
    rw [liveTokens_eraseIdx ht, htoken] at hold
    dsimp only
    rw [hroutes]
    unfold liveTokens at hold ⊢
    rw [List.countP_append]
    have hle : ((next.map t.at).toList.countP fun t => t.token = some request) ≤
        if some t.request = some request then 1 else 0 := by
      cases next with
      | none => exact Nat.zero_le _
      | some stage =>
        have : (t.at stage).token = some t.request := by
          have := (hnext stage rfl).2
          unfold Task.token Task.at
          cases stage with
          | send a => exact absurd rfl (this a)
          | _ => rfl
        simp [List.countP_cons, this]
    omega
  · rcases hmem t' ht' with ht' | ⟨stage, hstage, rfl⟩
    · obtain ⟨hlt, hgood⟩ := hi.tasks t' ht'
      exact ⟨hlt.trans_le hx.length, hgood.frame hx' (.inr (by rw [hregistered]))⟩
    · exact ⟨(hi.tasks t (List.mem_of_getElem? ht)).1.trans_le hx.length, (hnext stage hstage).1⟩
  · exact (hi.routes key route (hroutes ▸ h)).frame hx' (by rw [hregistered])
  · exact hx.existed _ _ (hi.registered d (hregistered ▸ hd))
  · exact hregistered ▸ hi.once d
  · have hold := hi.sends d
    rw [countP_eraseIdx _ ht] at hold
    dsimp only
    rw [hregistered, hdispatched, List.countP_append]
    have hnone : (next.map t.at).toList.countP (Task.sends d) = 0 := by
      cases next with
      | none => rfl
      | some stage =>
        have hs : Task.sends d (t.at stage) = false := by
          have := (hnext stage rfl).2
          cases stage with
          | send a => exact absurd rfl (this a)
          | _ => rfl
        simp [hs]
    omega

theorem accountsOf_append (log : List Dispatch) (d : Dispatch) (request : ℕ) :
    accountsOf (log ++ [d]) request =
      accountsOf log request ++ if d.request = request then [d.accountID] else [] := by
  unfold accountsOf
  rw [List.filter_append, List.map_append]
  by_cases h : d.request = request <;> simp [h]

theorem mem_accountsOf {log : List Dispatch} {request : ℕ} {a : GoString} :
    a ∈ accountsOf log request ↔ ⟨request, a⟩ ∈ log := by
  constructor
  · intro h
    obtain ⟨d, hd, rfl⟩ := List.mem_map.mp h
    obtain ⟨hmem, hr⟩ := List.mem_filter.mp hd
    obtain rfl : d.request = request := by simpa using hr
    exact hmem
  · exact fun h => List.mem_map.mpr ⟨_, List.mem_filter.mpr ⟨h, by simp⟩, rfl⟩

/-- A goroutine with the token of its request is the only one, and no route has it. -/
theorem Inv.alone (hi : Inv u) {i : ℕ} {t : Task} (ht : u.tasks[i]? = some t)
    (htoken : t.token = some t.request) :
    (∀ t' ∈ u.tasks.eraseIdx i, t'.request = t.request → ∃ a, t'.stage = .send a) ∧
      ∀ (key : GoString) route, u.externalRoutes[key]? = some route → route.request ≠ t.request := by
  have hone := hi.tokens t.request
  rw [liveTokens_eraseIdx ht, if_pos htoken] at hone
  unfold liveTokens at hone
  refine ⟨fun t' ht' hr => ?_, fun key route hroute hr => ?_⟩
  · have hnone : t'.token ≠ some t.request := fun h => by
      have : 0 < (u.tasks.eraseIdx i).countP fun t' => t'.token = some t.request :=
        List.countP_pos_iff.mpr ⟨t', ht', by simpa using h⟩
      omega
    unfold Task.token at hnone
    split at hnone
    · exact ⟨_, ‹_›⟩
    · exact absurd (congrArg some hr) hnone
  · have := entryCount_pos (p := fun route => route.request = t.request) hroute (by simpa using hr)
    omega

theorem Inv.register (hi : Inv u) {i : ℕ} {t : Task} (ht : u.tasks[i]? = some t) {a : GoString}
    {excluded : Finset GoString} (hstage : t.stage = .register a excluded)
    (hfree : u.externalRoutes[requestIDKey t.message.id]? = none) :
    Inv { u with
      externalRoutes := u.externalRoutes.insert (requestIDKey t.message.id)
        ⟨t.request, a, t.message, excluded⟩
      registered := u.registered ++ [⟨t.request, a⟩]
      tasks := u.tasks.eraseIdx i ++ [t.at (.send a)] } := by
  have htoken : t.token = some t.request := by unfold Task.token; rw [hstage]
  obtain ⟨hothers, hroutes⟩ := hi.alone ht htoken
  obtain ⟨hlt, hgood⟩ := hi.tasks t (List.mem_of_getElem? ht)
  rw [hstage] at hgood
  obtain ⟨hcovered, hfresh, hexisted⟩ := hgood
  have hlog : ∀ request, request ≠ t.request →
      accountsOf (u.registered ++ [⟨t.request, a⟩]) request = accountsOf u.registered request := by
    intro request hne
    rw [accountsOf_append, if_neg (Ne.symm hne), List.append_nil]
  refine ⟨hi.valid, hi.current, fun request => ?_, fun t' ht' => ?_, fun key route h => ?_,
    fun d hd => ?_, fun d => ?_, fun d => ?_⟩
  · have hold := hi.tokens request
    rw [liveTokens_eraseIdx ht, htoken] at hold
    unfold liveTokens at hold ⊢
    have hnone : [t.at (.send a)].countP (fun t => t.token = some request) = 0 := rfl
    have hroute : (decide (t.request = request)).toNat =
        if some t.request = some request then 1 else 0 := by
      by_cases hr : t.request = request <;> simp [hr]
    rw [List.countP_append, hnone, entryCount_insert_fresh _ _ hfree, hroute]
    omega
  · rcases List.mem_append.mp ht' with ht' | ht'
    · obtain ⟨hlt', hgood'⟩ := hi.tasks t' (List.mem_of_mem_eraseIdx ht')
      refine ⟨hlt', hgood'.frame (extends_of_requests rfl rfl) ?_⟩
      by_cases hr : t'.request = t.request
      · exact .inl (hothers t' ht' hr)
      · exact .inr (hlog _ hr)
    · obtain rfl := List.mem_singleton.mp ht'
      exact ⟨hlt, hexisted⟩
  · rcases getElem?_of_insert h with rfl | h
    · refine ⟨hlt, fun b hb => ?_, hfresh⟩
      rw [accountsOf_append, if_pos rfl] at hb
      rcases List.mem_append.mp hb with hb | hb
      · exact Finset.mem_insert_of_mem (hcovered b hb)
      · exact Finset.mem_insert.mpr (.inl (List.mem_singleton.mp hb))
    · exact (hi.routes key route h).frame (extends_of_requests rfl rfl) (hlog _ (hroutes key route h))
  · rcases List.mem_append.mp hd with hd | hd
    · exact hi.registered d hd
    · obtain rfl := List.mem_singleton.mp hd
      exact hexisted
  · have hold := hi.once d
    rw [List.count_append]
    by_cases hd : d = ⟨t.request, a⟩
    · subst hd
      have hnot : (⟨t.request, a⟩ : Dispatch) ∉ u.registered := fun h =>
        hfresh (hcovered a (mem_accountsOf.mpr h))
      rw [List.count_eq_zero_of_not_mem hnot]
      simp
    · rw [List.count_singleton, if_neg (by simpa using Ne.symm hd)]
      exact hold
  · have hold := hi.sends d
    rw [countP_eraseIdx _ ht] at hold
    rw [List.count_append, List.countP_append]
    have hnew : ([t.at (.send a)].countP (Task.sends d)) = List.count d [⟨t.request, a⟩] := by
      rw [List.countP_singleton, List.count_singleton]
      by_cases hd : d = ⟨t.request, a⟩
      · simp [Task.sends, Task.at, hd]
      · simp [Task.sends, Task.at, hd, Ne.symm hd]
    dsimp only
    omega

theorem Inv.dropRoutes (hi : Inv u) (key : GoString) :
    Inv { u with externalRoutes := u.externalRoutes.erase key } :=
  ⟨hi.valid, hi.current, fun request => (Nat.add_le_add_left (entryCount_erase_le _ _ _) _).trans (hi.tokens request),
    fun t ht => ⟨(hi.tasks t ht).1, (hi.tasks t ht).2.frame (extends_of_requests rfl rfl) (.inr rfl)⟩,
    fun k route h => (hi.routes k route (getElem?_of_erase h)).frame (extends_of_requests rfl rfl) rfl,
    hi.registered, hi.once, hi.sends⟩

theorem Inv.send (hi : Inv u) {i : ℕ} {t : Task} (ht : u.tasks[i]? = some t) {a : GoString}
    (hstage : t.stage = .send a) :
    Inv { u with
      dispatched := u.dispatched ++ [⟨t.request, a⟩]
      tasks := u.tasks.eraseIdx i } := by
  refine ⟨hi.valid, hi.current, fun request => ?_, fun t' ht' => ?_, fun key route h => ?_,
    hi.registered, hi.once, fun d => ?_⟩
  · have hold := hi.tokens request
    rw [liveTokens_eraseIdx ht] at hold
    dsimp only
    omega
  · obtain ⟨hlt, hgood⟩ := hi.tasks t' (List.mem_of_mem_eraseIdx ht')
    exact ⟨hlt, hgood.frame (extends_of_requests rfl rfl) (.inr rfl)⟩
  · exact (hi.routes key route h).frame (extends_of_requests rfl rfl) rfl
  · have hold := hi.sends d
    rw [countP_eraseIdx _ ht] at hold
    rw [List.count_append]
    have hsent : (Task.sends d t).toNat = List.count d [⟨t.request, a⟩] := by
      rw [List.count_singleton, Task.sends, hstage]
      by_cases hd : d = ⟨t.request, a⟩
      · simp [hd]
      · simp [hd, Ne.symm hd]
    dsimp only
    omega

theorem existed_of_mem {s : Store} {request : ℕ} {lived : Finset GoString} {a : Account}
    (hl : u.requests[request]? = some lived) (hs : accountIDs s ⊆ lived) (ha : a ∈ s.accounts) :
    u.existed request a.id :=
  ⟨lived, hl, hs (List.mem_toFinset.mpr (List.mem_map_of_mem ha))⟩

theorem controller_mem {s : Store} {a : Account} (h : s.controller = some a) : a ∈ s.accounts := by
  unfold Store.controller at h
  cases hc : s.accounts.find? (·.controller) with
  | some b =>
    rw [hc] at h
    obtain rfl : b = a := Option.some.inj h
    exact List.mem_of_find?_eq_some hc
  | none =>
    rw [hc] at h
    exact List.mem_of_head? h

theorem owner_mem {s : Store} (hv : Valid s) {t owner : GoString} (h : s.threadOwner t = some owner) :
    ∃ a ∈ s.accounts, a.id = owner :=
  accountExists_iff.mp (hv.owners t owner h)

theorem Current.existed (hc : Current u) {request : ℕ} (hlt : request < u.requests.length)
    {a : Account} (ha : a ∈ u.machine.store.accounts) : u.existed request a.id :=
  existed_of_mem (List.getElem?_eq_getElem hlt) (hc _ _ (List.getElem?_eq_getElem hlt)) ha

theorem current_commit (u : Router) (m : Machine) : Current (u.commit m) := by
  intro request lived h
  obtain ⟨old, _, rfl⟩ := Option.map_eq_some_iff.mp
    (show (u.requests[request]?).map (· ∪ accountIDs m.store) = some lived by
      rw [← List.getElem?_map]
      exact h)
  exact Finset.subset_union_right

section Stages
variable {request : ℕ} {message : Message} {purpose : Purpose} {excluded : Finset GoString}

theorem newThread_good (hc : Current u) (hlt : request < u.requests.length) (c : Choice)
    (hgood : (Stage.newThread excluded).Good u request) :
    ∀ next ∈ (u.act c ⟨request, message, .newThread excluded⟩).2,
      next.Good (u.act c ⟨request, message, .newThread excluded⟩).1 request ∧ ∀ a, next ≠ .send a := by
  intro next hnext
  simp only [Router.act] at hnext ⊢
  split at hnext
  · rename_i hs
    obtain ⟨a, ha, rfl⟩ := Option.map_eq_some_iff.mp hnext
    rw [if_pos hs]
    exact ⟨⟨hgood.2 hs ▸ hgood.1, Finset.notMem_empty _, hc.existed hlt (controller_mem ha)⟩, by simp⟩
  · rename_i hs
    obtain rfl := Option.some.inj hnext
    rw [if_neg hs]
    exact ⟨hgood.1, by simp⟩

theorem turnStart_good (hi : Inv u) (hlt : request < u.requests.length) (c : Choice)
    {threadID ownerID : GoString} (hgood : (Stage.turnStart threadID ownerID).Good u request) :
    ∀ next ∈ (u.act c ⟨request, message, .turnStart threadID ownerID⟩).2,
      next.Good (u.act c ⟨request, message, .turnStart threadID ownerID⟩).1 request ∧
        ∀ a, next ≠ .send a := by
  intro next hnext
  simp only [Router.act] at hnext ⊢
  split at hnext
  · rename_i hs
    obtain rfl := Option.some.inj hnext
    rw [if_pos hs]
    exact ⟨⟨hgood.1, Finset.notMem_empty _, hgood.2⟩, by simp⟩
  · rename_i hs
    obtain rfl := Option.some.inj hnext
    rw [if_neg hs]
    refine ⟨⟨hgood.1, ?_⟩, by simp⟩
    cases ho : u.machine.store.threadOwner threadID with
    | none => exact hgood.2
    | some owner =>
      obtain ⟨a, ha, rfl⟩ := owner_mem hi.valid ho
      exact hi.current.existed hlt ha

theorem capacity_good (c : Choice) {threadID ownerID : GoString}
    (hgood : (Stage.capacity threadID ownerID).Good u request) :
    ∀ next ∈ (u.act c ⟨request, message, .capacity threadID ownerID⟩).2,
      next.Good (u.act c ⟨request, message, .capacity threadID ownerID⟩).1 request ∧
        ∀ a, next ≠ .send a := by
  intro next hnext
  simp only [Router.act] at hnext ⊢
  split at hnext
  · rename_i hs
    obtain rfl := Option.some.inj hnext
    rw [if_pos hs]
    exact ⟨⟨hgood.1, Finset.notMem_empty _, hgood.2⟩, by simp⟩
  · rename_i hs
    obtain rfl := Option.some.inj hnext
    rw [if_neg hs]
    exact ⟨fun a ha => absurd (hgood.1 a ha) (Finset.notMem_empty a), by simp⟩

theorem chosen_good {a : GoString} (hcovered : u.covered request excluded) (hfresh : a ∉ excluded)
    (hexisted : u.existed request a) :
    (purpose.chosen a excluded).Good u request ∧ ∀ b, purpose.chosen a excluded ≠ .send b := by
  cases purpose <;> exact ⟨⟨hcovered, hfresh, hexisted⟩, by simp [Purpose.chosen]⟩

theorem consider_good (hc : Current u) (hlt : request < u.requests.length) (c : Choice) {mode : RoutingMode}
    {snapshots : List AccountSnapshot} {candidates : List GoString}
    (hgood : (Stage.consider purpose excluded mode snapshots candidates).Good u request) :
    ∀ next ∈ (u.act c ⟨request, message, .consider purpose excluded mode snapshots candidates⟩).2,
      next.Good (u.act c ⟨request, message, .consider purpose excluded mode snapshots candidates⟩).1
        request ∧ ∀ a, next ≠ .send a := by
  obtain ⟨hcovered, hcandidates⟩ := hgood
  intro next hnext
  cases snapshots with
  | nil =>
    obtain ⟨a, ha, rfl⟩ := Option.map_eq_some_iff.mp hnext
    obtain ⟨hfresh, hexisted⟩ := hcandidates a (List.mem_of_getElem? ha)
    exact chosen_good hcovered hfresh hexisted
  | cons snapshot rest =>
    have haccount : ∀ a, consider mode u.machine.store excluded snapshot = .preferred a ∨
        consider mode u.machine.store excluded snapshot = .candidate a →
        a ∈ u.machine.store.accounts ∧ a.id ∉ excluded := fun a => consider_account
    simp only [Router.act] at hnext ⊢
    split at hnext
    · obtain rfl := Option.some.inj hnext
      exact ⟨⟨hcovered, hcandidates⟩, by simp⟩
    · rename_i a hv
      obtain rfl := Option.some.inj hnext
      obtain ⟨hmem, hfresh⟩ := haccount a (.inl hv)
      exact chosen_good hcovered hfresh (hc.existed hlt hmem)
    · rename_i a hv
      obtain rfl := Option.some.inj hnext
      obtain ⟨hmem, hfresh⟩ := haccount a (.inr hv)
      refine ⟨⟨hcovered, fun b hb => ?_⟩, by simp⟩
      rcases List.mem_append.mp hb with hb | hb
      · exact hcandidates b hb
      · obtain rfl := List.mem_singleton.mp hb
        exact ⟨hfresh, hc.existed hlt hmem⟩

end Stages

theorem act_good (hi : Inv u) {t : Task} (ht : t ∈ u.tasks) (c : Choice)
    (hregister : ∀ a excluded, t.stage ≠ .register a excluded) (hsend : ∀ a, t.stage ≠ .send a) :
    ∀ stage ∈ (u.act c t).2, stage.Good (u.act c t).1 t.request ∧ ∀ a, stage ≠ .send a := by
  obtain ⟨hlt, hgood⟩ := hi.tasks t ht
  obtain ⟨request, message, stage⟩ := t
  dsimp only at hlt hgood hregister hsend ⊢
  cases stage with
  | newThread excluded => exact newThread_good hi.current hlt c hgood
  | turnStart threadID ownerID => exact turnStart_good hi hlt c hgood
  | capacity threadID ownerID => exact capacity_good c hgood
  | choose purpose excluded =>
    intro next hnext
    obtain rfl := Option.some.inj hnext
    exact ⟨⟨hgood, by simp⟩, by simp⟩
  | consider purpose excluded mode snapshots candidates => exact consider_good hi.current hlt c hgood
  | resume threadID a excluded =>
    intro next hnext
    simp only [Router.act] at hnext
    split at hnext
    · obtain rfl := Option.some.inj hnext
      exact ⟨hgood, by simp⟩
    · cases hnext
  | saveOwner threadID a excluded =>
    intro next hnext
    simp only [Router.act] at hnext
    split at hnext
    · obtain rfl := Option.some.inj hnext
      have hgood' : (Stage.saveOwner threadID a excluded).Good (u.commit
          ((u.machine.facing c.outcomes).setThreadOwner threadID a).2) request :=
        hgood.frame (extends_commit u _) (.inr rfl)
      exact ⟨hgood', by simp⟩
    · cases hnext
  | forward a excluded =>
    intro next hnext
    simp only [Router.act] at hnext
    split at hnext
    · obtain rfl := Option.some.inj hnext
      exact ⟨hgood, by simp⟩
    · cases hnext
  | register a excluded => exact absurd rfl (hregister a excluded)
  | send a => exact absurd rfl (hsend a)

theorem Inv.act (hi : Inv u) {i : ℕ} {t : Task} (ht : u.tasks[i]? = some t) (c : Choice) :
    Inv { (u.act c t).1 with tasks := u.tasks.eraseIdx i ++ ((u.act c t).2.map t.at).toList } := by
  have hmem := List.mem_of_getElem? ht
  by_cases hregister : ∃ a excluded, t.stage = .register a excluded
  · obtain ⟨a, excluded, hstage⟩ := hregister
    simp only [Router.act, hstage]
    split
    · refine hi.advance ht (.refl u) hi.valid hi.current rfl rfl rfl ?_ (by simp)
      unfold Task.token
      rw [hstage]
    · rename_i hfree
      exact hi.register ht hstage hfree
  · by_cases hsend : ∃ a, t.stage = .send a
    · obtain ⟨a, hstage⟩ := hsend
      have hsent := hi.send ht hstage
      simp only [Router.act, hstage, Option.map_none, Option.toList_none, List.append_nil]
      split
      · exact hsent
      · exact hsent.dropRoutes _
    · have hnext := act_good hi hmem c (fun a excluded h => hregister ⟨a, excluded, h⟩)
        fun a h => hsend ⟨a, h⟩
      have htoken : t.token = some t.request := by
        unfold Task.token
        split
        · exact absurd ⟨_, ‹_›⟩ hsend
        · rfl
      have hsame : (u.act c t).1 = u ∨ ∃ a threadID excluded, t.stage = .saveOwner threadID a excluded ∧
          (u.act c t).1 = u.commit ((u.machine.facing c.outcomes).setThreadOwner threadID a).2 := by
        obtain ⟨request, message, stage⟩ := t
        cases stage with
        | saveOwner threadID a excluded => exact .inr ⟨a, threadID, excluded, rfl, rfl⟩
        | register a excluded => exact absurd ⟨a, excluded, rfl⟩ hregister
        | send a => exact absurd ⟨a, rfl⟩ hsend
        | newThread excluded =>
          simp only [Router.act]
          split <;> exact .inl rfl
        | turnStart threadID a =>
          simp only [Router.act]
          split <;> exact .inl rfl
        | capacity threadID a =>
          simp only [Router.act]
          split <;> exact .inl rfl
        | consider purpose excluded mode snapshots candidates =>
          cases snapshots with
          | nil => exact .inl rfl
          | cons snapshot rest =>
            simp only [Router.act]
            split <;> exact .inl rfl
        | _ => exact .inl rfl
      rcases hsame with hsame | ⟨a, threadID, excluded, hstage, hsame⟩
      · rw [hsame] at hnext ⊢
        exact hi.advance ht (.refl u) hi.valid hi.current rfl rfl rfl htoken hnext
      · rw [hsame] at hnext ⊢
        refine hi.advance ht (extends_commit u _) ?_ (current_commit u _) rfl rfl rfl htoken hnext
        exact hi.valid.setThreadOwners (m := u.machine.facing c.outcomes) _

/-! ## Requests, responses and the store -/

theorem accountsOf_eq_nil (hi : Inv u) {request : ℕ} (h : u.requests.length ≤ request) :
    accountsOf u.registered request = [] := by
  refine List.eq_nil_iff_forall_not_mem.mpr fun a ha => ?_
  obtain ⟨lived, hl, _⟩ := hi.registered _ (mem_accountsOf.mp ha)
  have hlt := (List.getElem?_eq_some_iff.mp hl).1
  exact absurd hlt (Nat.not_lt.mpr h)

theorem liveTokens_eq_zero (hi : Inv u) {request : ℕ} (h : u.requests.length ≤ request) :
    liveTokens u.tasks u.externalRoutes request = 0 := by
  unfold liveTokens
  have htasks : u.tasks.countP (fun t => t.token = some request) = 0 := by
    refine List.countP_eq_zero.mpr fun t ht htoken => ?_
    have hlt := (hi.tasks t ht).1
    have htoken : t.token = some request := by simpa using htoken
    unfold Task.token at htoken
    split at htoken
    · cases htoken
    · obtain rfl := Option.some.inj htoken
      omega
  have hroutes : entryCount (fun route : ExternalRoute => route.request = request) u.externalRoutes = 0 := by
    refine List.countP_eq_zero.mpr fun e he hr => ?_
    have hlt := (hi.routes e.1 e.2 (Std.ExtTreeMap.mem_toList_iff_getElem?_eq_some.mp he)).request_lt
    have hr : e.2.request = request := by simpa using hr
    omega
  rw [htasks, hroutes]

theorem extends_handleClient (u : Router) (tasks : List Task) :
    Extends u { u with requests := u.requests ++ [accountIDs u.machine.store], tasks } where
  spending := rfl
  length := by simp
  existed := fun _ _ ⟨lived, hl, ha⟩ =>
    ⟨lived, (List.getElem?_append_left (List.getElem?_eq_some_iff.mp hl).1).trans hl, ha⟩

theorem firstStage_good (hi : Inv u) {message : Message} {scopedAccountID : Option GoString}
    {stage : Stage} (h : u.firstStage message scopedAccountID = some stage)
    (hv : v.requests = u.requests ++ [accountIDs u.machine.store]) (hlog : v.registered = u.registered) :
    stage.Good v u.requests.length ∧ ∀ a, stage ≠ .send a := by
  have hnew : v.requests[u.requests.length]? = some (accountIDs u.machine.store) := by
    rw [hv]
    exact List.getElem?_concat_length
  have hexisted : ∀ a ∈ u.machine.store.accounts, v.existed u.requests.length a.id :=
    fun a ha => existed_of_mem hnew le_rfl ha
  have hcovered : v.covered u.requests.length ∅ := fun a ha => by
    rw [hlog, accountsOf_eq_nil hi le_rfl] at ha
    cases ha
  unfold Router.firstStage at h
  dsimp only at h
  split at h
  · cases h
  · split at h
    · obtain rfl := Option.some.inj h
      exact ⟨⟨hcovered, fun _ => rfl⟩, by simp⟩
    · split at h
      · rename_i hscoped
        obtain ⟨accountID, haccount, rfl⟩ := Option.map_eq_some_iff.mp h
        have henabled := hscoped.2
        rw [haccount] at henabled
        obtain ⟨a, ha, rfl, _⟩ := enabled_iff.mp henabled
        exact ⟨⟨hcovered, Finset.notMem_empty _, hexisted a ha⟩, by simp⟩
      · obtain ⟨ownerID, howner, rfl⟩ := Option.map_eq_some_iff.mp h
        have howner : v.existed u.requests.length ownerID := by
          rcases Option.or_eq_some_iff.mp howner with ho | ⟨_, ho⟩
          · split at ho
            · cases ho
            · obtain ⟨a, ha, rfl⟩ := owner_mem hi.valid ho
              exact hexisted a ha
          · obtain ⟨a, ha, rfl⟩ := Option.map_eq_some_iff.mp ho
            exact hexisted a (controller_mem ha)
        split
        · exact ⟨⟨hcovered, howner⟩, by simp⟩
        · exact ⟨⟨hcovered, Finset.notMem_empty _, howner⟩, by simp⟩

/-- A goroutine starts with the token of its request, which nobody has. -/
theorem Inv.spawn (hi : Inv u) {request : ℕ} {message : Message} {stage : Option Stage}
    (hfree : stage.isSome = true → liveTokens u.tasks u.externalRoutes request = 0)
    (hstage : ∀ s ∈ stage, request < u.requests.length ∧ s.Good u request ∧ ∀ a, s ≠ .send a) :
    Inv { u with tasks := u.tasks ++ (stage.map fun s => ⟨request, message, s⟩).toList } := by
  cases stage with
  | none =>
    rw [Option.map_none, Option.toList_none, List.append_nil]
    exact hi
  | some s =>
    obtain ⟨hlt, hgood, hsend⟩ := hstage s rfl
    have hfree := hfree rfl
    simp only [Option.map_some, Option.toList_some]
    refine ⟨hi.valid, hi.current, fun r => ?_, fun t ht => ?_, fun key route h => ?_, hi.registered,
      hi.once, fun d => ?_⟩
    · have hold := hi.tokens r
      unfold liveTokens at hold hfree ⊢
      rw [List.countP_append, List.countP_singleton]
      by_cases hr : request = r
      · subst hr
        dsimp only
        split <;> omega
      · have htoken : (⟨request, message, s⟩ : Task).token ≠ some r := by
          unfold Task.token
          split
          · simp
          · simpa using hr
        rw [if_neg (by simpa using htoken)]
        exact hold
    · rcases List.mem_append.mp ht with ht | ht
      · exact ⟨(hi.tasks t ht).1, (hi.tasks t ht).2.frame (extends_of_requests rfl rfl) (.inr rfl)⟩
      · obtain rfl := List.mem_singleton.mp ht
        exact ⟨hlt, hgood.frame (extends_of_requests rfl rfl) (.inr rfl)⟩
    · exact (hi.routes key route h).frame (extends_of_requests rfl rfl) rfl
    · have hold := hi.sends d
      have hnone : Task.sends d ⟨request, message, s⟩ = false := by
        cases s with
        | send a => exact absurd rfl (hsend a)
        | _ => rfl
      rw [List.countP_append, List.countP_singleton, hnone]
      exact hold

theorem Inv.extend (hi : Inv u) {m : Machine} {requests : List (Finset GoString)}
    (hx : Extends u { u with machine := m, requests }) (hvalid : Valid m.store)
    (hcurrent : Current { u with machine := m, requests }) :
    Inv { u with machine := m, requests } :=
  ⟨hvalid, hcurrent, hi.tokens,
    fun t ht => ⟨(hi.tasks t ht).1.trans_le hx.length, (hi.tasks t ht).2.frame hx (.inr rfl)⟩,
    fun key route h => (hi.routes key route h).frame hx rfl,
    fun d hd => hx.existed _ _ (hi.registered d hd), hi.once, hi.sends⟩

theorem Inv.handleClient (hi : Inv u) (message : Message) (scopedAccountID : Option GoString) :
    Inv (u.handleClient message scopedAccountID) := by
  have hcurrent : Current { u with requests := u.requests ++ [accountIDs u.machine.store] } := by
    intro request lived h
    rcases Nat.lt_or_ge request u.requests.length with hlt | hge
    · exact hi.current request lived ((List.getElem?_append_left hlt).symm.trans h)
    · rw [List.getElem?_append_right hge] at h
      rw [List.mem_singleton.mp (List.mem_of_getElem? h)]
  have hnew := hi.extend (m := u.machine) (extends_handleClient u u.tasks) hi.valid hcurrent
  refine hnew.spawn (fun _ => liveTokens_eq_zero hi le_rfl) fun s hs => ?_
  exact ⟨by simp, firstStage_good hi hs rfl rfl⟩

theorem retry_good {route : ExternalRoute} (hroute : route.Good u) {response : Message} {stage : Stage}
    (h : retry u.requestSpending route response = some stage) :
    stage.Good u route.request ∧ ∀ a, stage ≠ .send a := by
  unfold retry at h
  dsimp only at h
  split at h
  · rename_i hs
    split at h
    · obtain rfl := Option.some.inj h
      exact ⟨⟨hroute.covered, fun hon => by rw [hs.1] at hon; cases hon⟩, by simp⟩
    · split at h
      · obtain rfl := Option.some.inj h
        exact ⟨hroute.covered, by simp⟩
      · cases h
  · cases h

theorem Inv.handleInbound (hi : Inv u) (accountID : GoString) (response : Message) :
    Inv (u.handleInbound accountID response) := by
  unfold Router.handleInbound
  dsimp only
  split
  · rename_i route hroute
    split
    · have hgood := hi.routes _ route hroute
      refine (hi.dropRoutes (requestIDKey response.id)).spawn (fun _ => ?_) fun s hs => ?_
      · have hold := hi.tokens route.request
        unfold liveTokens at hold ⊢
        rw [entryCount_erase _ hroute] at hold
        simp only [decide_true, Bool.toNat_true] at hold
        dsimp only
        omega
      · obtain ⟨hs, hsend⟩ := retry_good hgood hs
        exact ⟨hgood.request_lt, hs.frame (extends_of_requests rfl rfl) (.inr rfl), hsend⟩
    · exact hi
  · exact hi

theorem Inv.step (hi : Inv u) {action : Action} (h : Fires step u action v) : Inv v := by
  cases action with
  | handleClient message scopedAccountID =>
    cases h
    exact hi.handleClient message scopedAccountID
  | go i c =>
    obtain ⟨t, ht, rfl⟩ := Option.map_eq_some_iff.mp h
    exact hi.act ht c
  | handleInbound accountID response =>
    cases h
    exact hi.handleInbound accountID response
  | dropRoute key =>
    cases h
    exact hi.dropRoutes key
  | setChildren children =>
    cases h
    exact ⟨hi.valid, hi.current, hi.tokens,
      fun t ht => ⟨(hi.tasks t ht).1, (hi.tasks t ht).2.frame (extends_of_requests rfl rfl) (.inr rfl)⟩,
      fun key route h => (hi.routes key route h).frame (extends_of_requests rfl rfl) rfl,
      hi.registered, hi.once, hi.sends⟩
  | close =>
    cases h
    exact ⟨hi.valid, hi.current, hi.tokens,
      fun t ht => ⟨(hi.tasks t ht).1, (hi.tasks t ht).2.frame (extends_of_requests rfl rfl) (.inr rfl)⟩,
      fun key route h => (hi.routes key route h).frame (extends_of_requests rfl rfl) rfl,
      hi.registered, hi.once, hi.sends⟩
  | store p call outcomes =>
    have hvalid : ∀ call : Call, Valid (call.perform p (u.machine.facing outcomes)).2.store :=
      fun call => hi.valid.perform (m := u.machine.facing outcomes) p call
    cases call with
    | openStore primaryCodexHome now => cases h
    | _ =>
      cases h
      exact hi.extend (extends_commit u _) (hvalid _) (current_commit u _)

end Steps

theorem inv_init (requestSpending : Bool) {m : Machine} (h : Valid m.store) :
    Inv (Router.init requestSpending m) where
  valid := h
  current := fun request lived hl => by simp [Router.init] at hl
  tokens := fun request => by simp [liveTokens, Router.init, entryCount_empty]
  tasks := fun t ht => nomatch ht
  routes := fun key route hr => by simp [Router.init] at hr
  registered := fun d hd => nomatch hd
  once := fun d => Nat.zero_le _
  sends := fun d => le_rfl

theorem Inv.bounded {u : Router} (hi : Inv u) : Bounded u := by
  have hdispatched : ∀ d, u.dispatched.count d ≤ u.registered.count d := fun d =>
    (Nat.le_add_right _ _).trans (hi.sends d)
  have hnodup : u.dispatched.Nodup :=
    List.nodup_iff_count_le_one.mpr fun d => (hdispatched d).trans (hi.once d)
  have honce : ∀ request, (accountsOf u.dispatched request).Nodup := fun request => by
    refine (hnodup.filter _).map_on fun d hd e he hde => ?_
    have hdr : d.request = request := by simpa using (List.mem_filter.mp hd).2
    have her : e.request = request := by simpa using (List.mem_filter.mp he).2
    obtain ⟨r, a⟩ := d
    obtain ⟨r', b⟩ := e
    simp only at hdr her hde
    rw [hdr, her, hde]
  have hexisted : ∀ request lived, u.requests[request]? = some lived →
      ∀ a ∈ accountsOf u.dispatched request, a ∈ lived := fun request lived hl a ha => by
    have hcount := List.count_pos_iff.mpr (mem_accountsOf.mp ha)
    have hmem := List.count_pos_iff.mp (hcount.trans_le (hdispatched _))
    obtain ⟨lived', hl', hlived⟩ := hi.registered _ hmem
    obtain rfl := Option.some.inj (hl.symm.trans hl')
    exact hlived
  refine ⟨honce, hexisted, fun request lived hl => ?_, fun key route h => ?_⟩
  · rw [← List.toFinset_card_of_nodup (honce request)]
    exact Finset.card_le_card fun a ha => hexisted request lived hl a (List.mem_toFinset.mp ha)
  · exact Finset.ssubset_insert (hi.routes key route h).fresh

/-- In every run of a router on a store that calls have left open, every client request is
sent to each account at most once. -/
theorem runs_stay_bounded {m : Machine} {session : Session} {events : List Event}
    {requestSpending : Bool} {u : Router} {actions : List Action}
    (hs : Runs (Fires StoreInvariant.step) ⟨m, false⟩ events session) (ho : session.opened = true)
    (h : Runs (Fires step) (Router.init requestSpending session.machine) actions u) : Bounded u :=
  (h.invariant (inv_init requestSpending (opened_valid hs ho)) fun _ _ _ hi hf => hi.step hf).bounded

/-! ## A run -/

def addedID : GoString := lit "0000000000000000"

def openedWithTwo : List Event :=
  [succeeding (.openStore (lit "/home") 0),
    succeeding (.addAccount (lit "Work") (fun _ => some (Vector.replicate 8 0)) 1)]

def ready (id : GoString) : AccountSnapshot := ⟨id, true, true, lit "chatgpt", none⟩

def go (n : ℕ) : List Action :=
  List.replicate n (.go 0 ⟨[ready (lit "primary"), ready addedID], 0, true, []⟩)

def newThreadRetried : List Action :=
  .setChildren {lit "primary", addedID} ::
    .handleClient (request (lit "thread/start") (lit "1") []) none :: go 8 ++
    .handleInbound (lit "primary") (failure (lit "1") 429 (lit "usage limit")) :: go 8

/-- A new thread goes to the primary account and, at its usage limit, to the other one. -/
theorem runs_stay_bounded_retried : ∃ u : Router, Bounded u ∧
    u.dispatched = [⟨0, lit "primary"⟩, ⟨0, addedID⟩] := by
  have h : ((exec StoreInvariant.step ⟨emptyMachine, false⟩ openedWithTwo).filter
      (·.opened)).any (fun session => (exec step (Router.init false session.machine)
        newThreadRetried).any fun u =>
          u.dispatched = [⟨0, lit "primary"⟩, ⟨0, addedID⟩]) = true := by
    decide
  obtain ⟨hsome, hrun⟩ := (Option.any_eq_true_iff_get _ _).mp h
  obtain ⟨hsession, ho⟩ := Option.filter_eq_some_iff.mp (Option.some_get hsome).symm
  obtain ⟨u, hr, hu⟩ := runs_of_exec_any hrun
  exact ⟨u, runs_stay_bounded (exec_runs hsession) ho hr, of_decide_eq_true hu⟩

end SubscriptionRouter.FailoverChains
