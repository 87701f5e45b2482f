import Mathlib
import SubscriptionRouter.SpendGateway
import SubscriptionRouter.SpendPolicy
import SubscriptionRouter.StoreState
import SubscriptionRouter.Transitions

set_option autoImplicit false

/-!
# Two copies of the routing mode

The store holds the routing mode and the spend policy enforces it. `SetRoutingMode`,
`UpdateAccount` and `DeleteAccount` change the store and copy the mode to the policy
before they let `spendingMutationMu` go. `AddAccount` takes no such lock. Gateway
requests read candidates through a cache, reserve, look credentials up and send.
-/
namespace SubscriptionRouter.SpendingMode
open GoText StoreState SpendPolicy SpendGateway Transitions

/-- `updateSpendMode` reads the strict account out of the store's mode. -/
def spendMode (mode : RoutingMode) : SpendPolicy.Mode :=
  ⟨if mode.mode = lit "account" then mode.accountID else []⟩

/-- The operation that holds `spendingMutationMu`, and what it does next. `target` is
the mode a successful `SetRoutingMode` was asked for. -/
inductive Mutation where
  | setRoutingMode (mode : RoutingMode)
  | update (id : GoString) (label : Option GoString) (enabled : Option Bool)
  | delete (id : GoString)
  | lookup (id : GoString) (label : Option GoString) (enabled : Option Bool)
  | apply (previous : Account) (label : Option GoString) (enabled : Option Bool)
  | start (previous : Account)
  | find (id : GoString)
  | stop (account : Account)
  | remove (id : GoString)
  | publish (target : Option RoutingMode)
  | set (mode : SpendPolicy.Mode) (target : Option RoutingMode)
  | unlock (target : Option RoutingMode)

structure Cache where
  candidates : List Candidate
  mode : GoString
  refreshedAt : ℤ

structure Router where
  machine : Machine
  policy : Policy
  clock : ℤ
  mutation : Option Mutation
  /-- The accounts of calls of `AddAccount` that have not started their child. -/
  adding : List GoString
  cache : Cache
  /-- The request that holds `spendCacheMu` and the account it refreshes for. -/
  refreshing : Option (ℕ × GoString)
  requests : List (Request × Handler)
  /-- The mode of the last successful `SetRoutingMode`, until the store's mode changes. -/
  selected : Option RoutingMode

/-- The router after `startSpendGateway`. -/
def Router.init (m : Machine) (clock : ℤ) : Router where
  machine := m
  policy := (Policy.new (5 * 10 ^ 9)).set (spendMode m.store.routingMode)
  clock := clock
  mutation := none
  adding := []
  cache := ⟨[], [], 0⟩
  refreshing := none
  requests := []
  selected := none

/-- An operation of the store ends in `m`. -/
def Router.commit (u : Router) (m : Machine) : Router :=
  { u with
    machine := m
    selected := if m.store.routingMode = u.machine.store.routingMode then u.selected else none }

def Router.next (u : Router) (mutation : Option Mutation) : Router := { u with mutation := mutation }

/-! ## Changes of accounts and of the mode -/

def Router.lock (u : Router) (mutation : Mutation) : Option Router :=
  match u.mutation, mutation with
  | none, .setRoutingMode _ | none, .update _ _ _ | none, .delete _ => some (u.next (some mutation))
  | _, _ => none

/-- The next step of the operation that holds the lock. `ok` says whether a child could
be started or stopped, or a name be drawn for the directory of a removed account. -/
def Router.proceed (u : Router) (p : Platform) (outcomes : List (Option Fault)) (ok : Bool) :
    Option Router :=
  let m := u.machine.facing outcomes
  u.mutation.map fun mutation => match mutation with
    | .setRoutingMode mode =>
      let written := m.setRoutingMode mode
      (u.commit written.2).next (if written.1.isOk then some (.publish (some mode)) else none)
    | .update id label enabled =>
      -- The spending account cannot be disabled.
      if enabled = some false ∧ u.machine.store.routingMode.accountID = id then u.next none
      else u.next (some (.lookup id label enabled))
    | .lookup id label enabled => match u.machine.store.account id with
      | none => u.next (some (.publish none))
      | some previous =>
        if enabled = some false ∧ previous.controller = true then u.next (some (.publish none))
        else u.next (some (.apply previous label enabled))
    | .apply previous label enabled =>
      let written := m.updateAccount previous.id label enabled
      (u.commit written.2).next (some (if written.1.isOk ∧ enabled = some true then .start previous
        else .publish none))
    | .start previous =>
      if ok then u.next (some (.publish none))
      else (u.commit (m.updateAccount previous.id none (some previous.enabled)).2).next
        (some (.publish none))
    | .delete id =>
      if u.machine.store.routingMode.accountID = id then u.next none
      else u.next (some (.find id))
    | .find id => match u.machine.store.account id with
      | none => u.next (some (.publish none))
      | some account =>
        if account.controller = true ∨ account.id = lit "primary" then u.next (some (.publish none))
        else u.next (some (.stop account))
    | .stop account =>
      if ok then u.next (some (.remove account.id))
      else if account.enabled then
        (u.commit (m.updateAccount account.id none (some false)).2).next (some (.publish none))
      else u.next (some (.publish none))
    | .remove id => (u.commit (m.removeAccount p id ok).2).next (some (.publish none))
    | .publish target => u.next (some (.set (spendMode u.machine.store.routingMode) target))
    | .set mode target => { u with policy := u.policy.set mode }.next (some (.unlock target))
    | .unlock target => { u with selected := target.or u.selected }.next none

/-! ## Gateway requests -/

/-- The environment's answer reaches a request; its deferred releases reach the policy. -/
def Router.answer (g : Gateway) (u : Router) (i : ℕ) (answer : Answer) : Option Router :=
  u.requests[i]?.bind fun e => (SpendGateway.step g e.1 e.2 answer).map fun h =>
    { u with
      requests := u.requests.set i (e.1, h)
      policy := ((releases h.log).drop (releases e.2.log).length).foldl
        (fun p d => p.release d.accountID) u.policy }

def waitsForCandidates (h : Handler) : Bool :=
  match h.stage with
  | .candidates _ _ => true
  | _ => false

/-- `spendCandidates` with a fresh cache, or up to its read of the accounts. -/
def Router.readCache (g : Gateway) (u : Router) (i : ℕ) : Option Router :=
  u.requests[i]?.bind fun e =>
    if u.refreshing = none ∧ waitsForCandidates e.2 then
      let selected := (spendMode u.machine.store.routingMode).accountID
      if u.cache.mode = selected ∧ u.clock - u.cache.refreshedAt < 2 * 10 ^ 9 ∧ u.cache.candidates ≠ [] then
        u.answer g i (.candidates (.ok u.cache.candidates) false)
      else some { u with refreshing := some (i, selected) }
    else none

/-- The accounts have been read, for the mode of the time the refresh began. -/
def Router.fillCache (g : Gateway) (u : Router) (result : Except Failure (List Candidate))
    (contextDone : Bool) : Option Router :=
  u.refreshing.bind fun e =>
    let filled := match result with
      | .ok candidates => { u with refreshing := none, cache := ⟨candidates, e.2, u.clock⟩ }
      | .error _ => { u with refreshing := none }
    filled.answer g e.1 (.candidates result contextDone)

def Router.cancelCandidates (g : Gateway) (u : Router) (i : ℕ) (e : Failure) : Option Router :=
  if u.refreshing.map Prod.fst = some i then none else u.answer g i (.candidates (.error e) true)

def Router.reserve (g : Gateway) (u : Router) (i : ℕ) : Option Router :=
  u.requests[i]?.bind fun e => match e.2.stage with
    | .reserve _ candidates =>
      let reserved := u.policy.reserve u.clock candidates
      { u with policy := reserved.2 }.answer g i (.reserve reserved.1)
    | _ => none

/-- `spendCredentials`: the auth file below the account's home, once its child has
refreshed it. -/
def spendCredentials (s : Store) (refresh : GoString → Except Failure Unit)
    (authFile : GoString → Except Failure Credentials) (id : GoString) : Except Failure Credentials :=
  match s.account id with
  | none => .error []
  | some account =>
    if !account.enabled then .error []
    else (refresh id).bind fun _ => authFile account.codexHome

def Router.credentials (g : Gateway) (u : Router) (i : ℕ) (refresh : GoString → Except Failure Unit)
    (authFile : GoString → Except Failure Credentials) : Option Router :=
  u.requests[i]?.bind fun e => match e.2.stage with
    | .credentials _ decision => u.answer g i
        (.credentials (spendCredentials u.machine.store refresh authFile decision.accountID))
    | _ => none

def fromRouter : Answer → Bool
  | .candidates _ _ | .reserve _ | .credentials _ => true
  | _ => false

inductive Action where
  | lock (mutation : Mutation)
  | proceed (p : Platform) (outcomes : List (Option Fault)) (ok : Bool)
  | request (r : Request)
  | answer (i : ℕ) (answer : Answer)
  | readCache (i : ℕ)
  | fillCache (result : Except Failure (List Candidate)) (contextDone : Bool)
  | cancelCandidates (i : ℕ) (e : Failure)
  | reserve (i : ℕ)
  | credentials (i : ℕ) (refresh : GoString → Except Failure Unit)
      (authFile : GoString → Except Failure Credentials)
  | tick (elapsed : ℕ)

def step (g : Gateway) (lib : Library) (u : Router) : Action → Option Router
  | .lock mutation => u.lock mutation
  | .proceed p outcomes ok => u.proceed p outcomes ok
  | .request r => some { u with requests := u.requests ++ [(r, serveHTTP g lib r)] }
  | .answer i answer => if fromRouter answer then none else u.answer g i answer
  | .readCache i => u.readCache g i
  | .fillCache result contextDone => u.fillCache g result contextDone
  | .cancelCandidates i e => u.cancelCandidates g i e
  | .reserve i => u.reserve g i
  | .credentials i refresh authFile => u.credentials g i refresh authFile
  | .tick elapsed => some { u with clock := u.clock + elapsed }

/-! ## Adding accounts -/

inductive AddAction where
  | other (action : Action)
  | addAccount (p : Platform) (label : GoString) (draws : ℕ → Option (Vector UInt8 8)) (now : ℤ)
      (outcomes : List (Option Fault))
  | childStarted (i : ℕ)
  /-- The child of a new account could not be started. -/
  | disable (i : ℕ) (outcomes : List (Option Fault))

def addStep (g : Gateway) (lib : Library) (u : Router) : AddAction → Option Router
  | .other action => step g lib u action
  | .addAccount p label draws now outcomes =>
    let added := (u.machine.facing outcomes).addAccount p label draws now
    let u := u.commit added.2
    some (match added.1 with
      | .ok account => { u with adding := u.adding ++ [account.id] }
      | .error _ => u)
  | .childStarted i => if i < u.adding.length then some { u with adding := u.adding.eraseIdx i } else none
  | .disable i outcomes => u.adding[i]?.map fun id =>
      { u.commit ((u.machine.facing outcomes).updateAccount id none (some false)).2 with
        adding := u.adding.eraseIdx i }

/-! ## The laws -/

/-- While the last selected mode is the store's, reservations are for its account, and
every request is sent with the credentials of the account it reserved. -/
structure StrictSpending (g : Gateway) (u : Router) : Prop where
  reserve : ∀ mode, u.selected = some mode → mode.mode = lit "account" → ∀ now candidates d,
    (u.policy.reserve now candidates).1 = .ok d → d.accountID = mode.accountID
  dispatch : ∀ e ∈ u.requests, Protocol g e.1 e.2

def Router.idle (u : Router) : Prop := u.mutation = none ∧ u.adding = []

def Converged (u : Router) : Prop :=
  u.idle → u.policy.mode = spendMode u.machine.store.routingMode

/-- The policy is strict on no account that is disabled or gone. -/
def StrictOnEnabled (u : Router) : Prop :=
  u.idle → u.policy.mode.accountID ≠ [] → u.machine.store.enabled u.policy.mode.accountID = true

/-- A new account whose child could not be started is disabled only while it is not selected. -/
def Unselected (u : Router) : AddAction → Prop
  | .disable i _ => ∀ id ∈ u.adding[i]?, u.machine.store.routingMode.accountID ≠ id
  | _ => True

/-! ## What links the two copies -/

/-- The mode the lock's holder has asked the store for and not yet reported. -/
def Mutation.target : Mutation → Option RoutingMode
  | .publish target | .set _ target | .unlock target => target
  | _ => none

def Synced (u : Router) : Prop :=
  match u.mutation with
  | none | some (.setRoutingMode _) | some (.update _ _ _) | some (.delete _)
  | some (.unlock _) => u.policy.mode = spendMode u.machine.store.routingMode
  | some (.set mode _) => mode = spendMode u.machine.store.routingMode
  | _ => True

structure Inv (g : Gateway) (u : Router) : Prop where
  requests : ∀ e ∈ u.requests, SpendGateway.Inv g e.1 e.2
  synced : Synced u
  /-- The selected mode is the store's and the policy's. -/
  chosen : ∀ mode, u.selected = some mode → u.machine.store.routingMode = mode ∧
    mode.validate = true ∧ u.policy.mode = spendMode mode
  target : ∀ mutation mode, u.mutation = some mutation → mutation.target = some mode →
    u.machine.store.routingMode = mode ∧ mode.validate = true

theorem inv_init (g : Gateway) (m : Machine) (clock : ℤ) : Inv g (Router.init m clock) where
  requests := by simp [Router.init]
  synced := set_mode _ _
  chosen := by simp [Router.init]
  target := by simp [Router.init]

section Steps
variable {g : Gateway} {u : Router}

theorem chosen_commit (hi : Inv g u) (m : Machine) {mode : RoutingMode}
    (h : (u.commit m).selected = some mode) : m.store.routingMode = mode ∧
      mode.validate = true ∧ u.policy.mode = spendMode mode := by
  unfold Router.commit at h
  dsimp only at h
  split at h
  · rename_i hsame
    obtain ⟨hstore, hvalid, hpolicy⟩ := hi.chosen mode h
    exact ⟨hsame.trans hstore, hvalid, hpolicy⟩
  · cases h

theorem Inv.commit (hi : Inv g u) {m : Machine}
    (hm : m.store.routingMode = u.machine.store.routingMode) : Inv g (u.commit m) := by
  have hmode : (u.commit m).machine.store.routingMode = u.machine.store.routingMode := hm
  refine ⟨hi.requests, ?_, fun _ => chosen_commit hi m, ?_⟩
  · have hs := hi.synced
    unfold Synced at hs ⊢
    rw [hmode]
    exact hs
  · rw [hmode]
    exact hi.target

/-- A store operation by the holder of the lock, which still has to publish. -/
theorem Inv.commitNext (hi : Inv g u) (m : Machine) {mutation : Mutation}
    (hsynced : Synced ((u.commit m).next (some mutation)))
    (htarget : ∀ mode, mutation.target = some mode →
      m.store.routingMode = mode ∧ mode.validate = true) :
    Inv g ((u.commit m).next (some mutation)) where
  requests := hi.requests
  synced := hsynced
  chosen := fun _ => chosen_commit hi m
  target := fun mutation' mode hm ht => by
    obtain rfl := Option.some.inj hm
    exact htarget mode ht

theorem Inv.next (hi : Inv g u) {mutation : Option Mutation} (hsynced : Synced (u.next mutation))
    (htarget : ∀ mutation' mode, mutation = some mutation' → mutation'.target = some mode →
      u.machine.store.routingMode = mode ∧ mode.validate = true) : Inv g (u.next mutation) :=
  ⟨hi.requests, hsynced, hi.chosen, htarget⟩

theorem Inv.nextSome (hi : Inv g u) {mutation : Mutation} (hsynced : Synced (u.next (some mutation)))
    (htarget : mutation.target = none) : Inv g (u.next (some mutation)) := by
  refine hi.next hsynced fun mutation' mode hm ht => ?_
  obtain rfl := Option.some.inj hm
  rw [htarget] at ht
  cases ht

theorem Inv.unlock (hi : Inv g u) (hsynced : u.policy.mode = spendMode u.machine.store.routingMode) :
    Inv g (u.next none) :=
  hi.next hsynced fun _ _ hm => nomatch hm

theorem Inv.lock {u' : Router} {mutation : Mutation} (hi : Inv g u)
    (h : u.lock mutation = some u') : Inv g u' := by
  unfold Router.lock at h
  have hs := hi.synced
  split at h <;> cases h
  all_goals
    rename_i hnone
    rw [Synced, hnone] at hs
    exact hi.nextSome hs rfl

theorem Inv.proceed {u' : Router} {p : Platform} {outcomes : List (Option Fault)} {ok : Bool}
    (hi : Inv g u) (h : u.proceed p outcomes ok = some u') : Inv g u' := by
  obtain ⟨mutation, hmutation, rfl⟩ := Option.map_eq_some_iff.mp h
  have hs := hi.synced
  rw [Synced, hmutation] at hs
  cases mutation with
  | setRoutingMode mode =>
    rcases setRoutingMode_cases (u.machine.facing outcomes) mode with ⟨hok, hstore, hvalid, _⟩ | ⟨⟨e, he⟩, hstore⟩
    · simp only [hok]
      refine hi.commitNext _ trivial fun mode' hmode => ?_
      obtain rfl := Option.some.inj hmode
      exact ⟨by rw [hstore], hvalid⟩
    · simp only [he]
      have hsame : ((u.machine.facing outcomes).setRoutingMode mode).2.store.routingMode =
        u.machine.store.routingMode := by rw [hstore]; rfl
      refine (hi.commit hsame).unlock ?_
      exact hs.trans (congrArg spendMode hsame.symm)
  | update id label enabled =>
    dsimp only
    split
    · exact hi.unlock hs
    · exact hi.nextSome trivial rfl
  | delete id =>
    dsimp only
    split
    · exact hi.unlock hs
    · exact hi.nextSome trivial rfl
  | lookup id label enabled =>
    dsimp only
    split
    · exact hi.nextSome trivial rfl
    · split <;> exact hi.nextSome trivial rfl
  | apply previous label enabled =>
    dsimp only
    split <;> exact hi.commitNext _ trivial fun _ h => nomatch h
  | start previous =>
    dsimp only
    split
    · exact hi.nextSome trivial rfl
    · exact hi.commitNext _ trivial fun _ h => nomatch h
  | find id =>
    dsimp only
    split
    · exact hi.nextSome trivial rfl
    · split <;> exact hi.nextSome trivial rfl
  | stop account =>
    dsimp only
    split
    · exact hi.nextSome trivial rfl
    · split
      · exact hi.commitNext _ trivial fun _ h => nomatch h
      · exact hi.nextSome trivial rfl
  | remove id => exact hi.commitNext _ trivial fun _ h => nomatch h
  | publish target =>
    refine hi.next rfl fun mutation' mode hm ht => ?_
    obtain rfl := Option.some.inj hm
    exact hi.target _ mode hmutation ht
  | set mode target =>
    have hpolicy : (u.policy.set mode).mode = spendMode u.machine.store.routingMode :=
      (set_mode _ _).trans hs
    refine ⟨hi.requests, hpolicy, fun mode' hmode => ?_, fun mutation' mode' hm ht => ?_⟩
    · obtain ⟨hstore, hvalid, _⟩ := hi.chosen mode' hmode
      exact ⟨hstore, hvalid, hpolicy.trans (congrArg spendMode hstore)⟩
    · obtain rfl := Option.some.inj hm
      exact hi.target _ mode' hmutation ht
  | unlock target =>
    refine ⟨hi.requests, hs, fun mode hmode => ?_, fun _ _ hm => nomatch hm⟩
    cases target with
    | none => exact hi.chosen mode hmode
    | some target =>
      obtain rfl := Option.some.inj hmode
      obtain ⟨hstore, hvalid⟩ := hi.target _ target hmutation rfl
      exact ⟨hstore, hvalid, hs.trans (congrArg spendMode hstore)⟩

theorem Inv.ofPolicy (hi : Inv g u) {policy : Policy} (hmode : policy.mode = u.policy.mode) :
    Inv g { u with policy } := by
  refine ⟨hi.requests, ?_, fun mode hm => ?_, hi.target⟩
  · have hs := hi.synced
    unfold Synced at hs ⊢
    rw [show ({ u with policy } : Router).policy.mode = u.policy.mode from hmode]
    exact hs
  · obtain ⟨hstore, hvalid, hpolicy⟩ := hi.chosen mode hm
    exact ⟨hstore, hvalid, hmode.trans hpolicy⟩

theorem foldl_release_mode (l : List Decision) (p : Policy) :
    (l.foldl (fun p d => p.release d.accountID) p).mode = p.mode := by
  induction l generalizing p with
  | nil => rfl
  | cons d l ih => exact ih _

theorem Inv.answer {u' : Router} {i : ℕ} {answer : Answer} (hi : Inv g u)
    (h : u.answer g i answer = some u') : Inv g u' := by
  obtain ⟨e, he, h⟩ := Option.bind_eq_some_iff.mp h
  obtain ⟨h', hstep, rfl⟩ := Option.map_eq_some_iff.mp h
  have hmode := foldl_release_mode ((releases h'.log).drop (releases e.2.log).length) u.policy
  refine { hi.ofPolicy hmode with requests := fun e' he' => ?_ }
  rcases List.mem_or_eq_of_mem_set he' with he' | rfl
  · exact hi.requests e' he'
  · exact (hi.requests e (List.mem_of_getElem? he)).step hstep

theorem Inv.readCache {u' : Router} {i : ℕ} (hi : Inv g u) (h : u.readCache g i = some u') :
    Inv g u' := by
  obtain ⟨e, _, h⟩ := Option.bind_eq_some_iff.mp h
  split at h
  · dsimp only at h
    split at h
    · exact hi.answer h
    · obtain rfl := Option.some.inj h
      exact { hi with }
  · cases h

theorem Inv.fillCache {u' : Router} {result : Except Failure (List Candidate)} {contextDone : Bool}
    (hi : Inv g u) (h : u.fillCache g result contextDone = some u') : Inv g u' := by
  obtain ⟨e, _, h⟩ := Option.bind_eq_some_iff.mp h
  cases result with
  | ok candidates =>
    have hfilled : Inv g { u with refreshing := none, cache := ⟨candidates, e.2, u.clock⟩ } :=
      { hi with }
    exact hfilled.answer h
  | error failure =>
    have hfilled : Inv g { u with refreshing := none } := { hi with }
    exact hfilled.answer h

theorem Inv.reserve {u' : Router} {i : ℕ} (hi : Inv g u) (h : u.reserve g i = some u') :
    Inv g u' := by
  obtain ⟨e, _, h⟩ := Option.bind_eq_some_iff.mp h
  split at h
  · exact (hi.ofPolicy (reserve_mode _ _ _)).answer h
  · cases h

theorem Inv.step {lib : Library} {u' : Router} {action : Action} (hi : Inv g u)
    (h : step g lib u action = some u') : Inv g u' := by
  cases action with
  | lock mutation => exact hi.lock h
  | proceed p outcomes ok => exact hi.proceed h
  | request r =>
    obtain rfl := Option.some.inj h
    refine { hi with requests := fun e he => ?_ }
    rcases List.mem_append.mp he with he | he
    · exact hi.requests e he
    · obtain rfl := List.mem_singleton.mp he
      exact inv_serveHTTP lib
  | answer i answer =>
    simp only [SpendingMode.step] at h
    split at h
    · cases h
    · exact hi.answer h
  | readCache i => exact hi.readCache h
  | fillCache result contextDone => exact hi.fillCache h
  | cancelCandidates i e =>
    simp only [SpendingMode.step, Router.cancelCandidates] at h
    split at h
    · cases h
    · exact hi.answer h
  | reserve i => exact hi.reserve h
  | credentials i refresh authFile =>
    obtain ⟨e, _, h⟩ := Option.bind_eq_some_iff.mp h
    split at h
    · exact hi.answer h
    · cases h
  | tick elapsed =>
    obtain rfl := Option.some.inj h
    exact { hi with }

theorem Inv.addStep {lib : Library} {u' : Router} {action : AddAction} (hi : Inv g u)
    (h : Guarded Unselected (Fires (addStep g lib)) u action u') : Inv g u' := by
  obtain ⟨hs, h⟩ := h
  cases action with
  | other action => exact hi.step h
  | addAccount p label draws now outcomes =>
    obtain rfl := Option.some.inj h
    have hadded := hi.commit (addAccount_routingMode p (u.machine.facing outcomes) label draws now)
    split
    · exact { hadded with }
    · exact hadded
  | childStarted i =>
    simp only [Fires, SpendingMode.addStep] at h
    split at h
    · obtain rfl := Option.some.inj h
      exact { hi with }
    · cases h
  | disable i outcomes =>
    obtain ⟨id, hid, rfl⟩ := Option.map_eq_some_iff.mp h
    have hother := hs id hid
    have hdisabled := hi.commit (m := ((u.machine.facing outcomes).updateAccount id none (some false)).2)
      (updateAccount_routingMode _ none fun hoff => hother hoff.2)
    exact { hdisabled with }

theorem Inv.strictSpending (hi : Inv g u) : StrictSpending g u where
  reserve := fun mode hmode haccount now candidates d hd => by
    obtain ⟨_, hvalid, hpolicy⟩ := hi.chosen mode hmode
    have hid : u.policy.mode.accountID = mode.accountID := by
      rw [hpolicy, spendMode, if_pos haccount]
    rw [← hid]
    exact reserve_strict (hid ▸ accountID_of_validate hvalid haccount) hd
  dispatch := fun e he => (hi.requests e he).protocol

theorem Inv.converged (hi : Inv g u) : Converged u := by
  intro hidle
  have hs := hi.synced
  rw [Synced, hidle.1] at hs
  exact hs

end Steps

section Routable
variable {g : Gateway} {lib : Library} {u u' : Router}

theorem answer_machine {i : ℕ} {answer : Answer} (h : u.answer g i answer = some u') :
    u'.machine = u.machine := by
  obtain ⟨e, _, h⟩ := Option.bind_eq_some_iff.mp h
  obtain ⟨_, _, rfl⟩ := Option.map_eq_some_iff.mp h
  rfl

theorem proceed_routable {p : Platform} {outcomes : List (Option Fault)} {ok : Bool}
    (hu : u.machine.store.routable) (h : u.proceed p outcomes ok = some u') :
    u'.machine.store.routable := by
  obtain ⟨mutation, _, rfl⟩ := Option.map_eq_some_iff.mp h
  have hm : (u.machine.facing outcomes).store.routable := hu
  cases mutation with
  | setRoutingMode mode => exact setRoutingMode_routable mode hm
  | update id label enabled =>
    dsimp only
    split <;> exact hu
  | delete id =>
    dsimp only
    split <;> exact hu
  | lookup id label enabled =>
    dsimp only
    split
    · exact hu
    · split <;> exact hu
  | apply previous label enabled => exact updateAccount_routable previous.id label enabled hm
  | start previous =>
    dsimp only
    split
    · exact hu
    · exact updateAccount_routable previous.id none (some previous.enabled) hm
  | find id =>
    dsimp only
    split
    · exact hu
    · split <;> exact hu
  | stop account =>
    dsimp only
    split
    · exact hu
    · split
      · exact updateAccount_routable account.id none (some false) hm
      · exact hu
  | remove id => exact removeAccount_routable p id ok hm
  | publish target => exact hu
  | set mode target => exact hu
  | unlock target => exact hu

theorem step_routable {action : Action} (hu : u.machine.store.routable)
    (h : step g lib u action = some u') : u'.machine.store.routable := by
  cases action with
  | lock mutation =>
    simp only [step, Router.lock] at h
    split at h <;> cases h <;> exact hu
  | proceed p outcomes ok => exact proceed_routable hu h
  | request r =>
    cases h
    exact hu
  | answer i answer =>
    simp only [step] at h
    split at h
    · cases h
    · exact answer_machine h ▸ hu
  | readCache i =>
    obtain ⟨e, _, h⟩ := Option.bind_eq_some_iff.mp h
    split at h
    · dsimp only at h
      split at h
      · exact answer_machine h ▸ hu
      · cases h
        exact hu
    · cases h
  | fillCache result contextDone =>
    obtain ⟨e, _, h⟩ := Option.bind_eq_some_iff.mp h
    cases result <;> exact answer_machine h ▸ hu
  | cancelCandidates i e =>
    simp only [step, Router.cancelCandidates] at h
    split at h
    · cases h
    · exact answer_machine h ▸ hu
  | reserve i =>
    obtain ⟨e, _, h⟩ := Option.bind_eq_some_iff.mp h
    split at h
    · exact answer_machine h ▸ hu
    · cases h
  | credentials i refresh authFile =>
    obtain ⟨e, _, h⟩ := Option.bind_eq_some_iff.mp h
    split at h
    · exact answer_machine h ▸ hu
    · cases h
  | tick elapsed =>
    cases h
    exact hu

theorem addStep_routable {action : AddAction} (hu : u.machine.store.routable)
    (h : addStep g lib u action = some u') : u'.machine.store.routable := by
  cases action with
  | other action => exact step_routable hu h
  | addAccount p label draws now outcomes =>
    cases h
    have hm : (u.machine.facing outcomes).store.routable := hu
    have hadded := addAccount_routable p label draws now hm
    split <;> exact hadded
  | childStarted i =>
    simp only [addStep] at h
    split at h
    · cases h
      exact hu
    · cases h
  | disable i outcomes =>
    obtain ⟨id, _, rfl⟩ := Option.map_eq_some_iff.mp h
    have hm : (u.machine.facing outcomes).store.routable := hu
    exact updateAccount_routable id none (some false) hm

end Routable

theorem Converged.strictOnEnabled {u : Router} (h : Converged u) (hu : u.machine.store.routable) :
    StrictOnEnabled u := by
  intro hidle hstrict
  have hmode := h hidle
  rw [hmode, spendMode] at hstrict ⊢
  split at hstrict
  · rename_i haccount
    rw [if_pos haccount]
    exact hu haccount
  · exact absurd rfl hstrict

/-- In a run in which no selected account is disabled because its child could not be
started, the policy and the store agree whenever no operation is in progress. -/
theorem unselected_runs_converge {g : Gateway} {lib : Library} {m : Machine} {clock : ℤ}
    {u : Router} {actions : List AddAction}
    (h : Runs (Guarded Unselected (Fires (addStep g lib))) (Router.init m clock) actions u) :
    Converged u ∧ (m.store.routable → StrictOnEnabled u) := by
  have hi := h.invariant (inv_init g m clock) fun _ _ _ hi hs => hi.addStep hs
  refine ⟨hi.converged, fun hm => hi.converged.strictOnEnabled ?_⟩
  exact h.invariant (I := fun u : Router => u.machine.store.routable) hm
    fun _ _ _ hu hs => addStep_routable hu hs.2

/-! ## Runs -/

def selectAccount (id : GoString) : List Action :=
  [.lock (.setRoutingMode ⟨lit "account", id⟩), .proceed plainPlatform [] true,
    .proceed plainPlatform [] true, .proceed plainPlatform [] true, .proceed plainPlatform [] true]

def spendCandidate (id : GoString) (remaining : ℚ) : Candidate :=
  ⟨id, true, true, true, .finite remaining, .finite 1, 0⟩

/-- A request that finds the accounts `a` and `b`, and sends with the credentials it is given. -/
def inferenceRun : List Action :=
  [.request inferenceRequest, .answer 0 (.body (.ok (lit "{}"))), .readCache 0,
    .fillCache (.ok [spendCandidate (lit "b") 90, spendCandidate (lit "a") 10]) false, .reserve 0,
    .credentials 0 (fun _ => .ok ()) (fun home => .ok ⟨lit "token", home⟩),
    .answer 0 (.newRequest true), .answer 0 (.roundTrip (.ok ⟨200, ∅⟩))]

instance (u : Router) (action : AddAction) : Decidable (Unselected u action) :=
  match action with
  | .disable i _ => inferInstanceAs (Decidable (∀ id ∈ u.adding[i]?,
      u.machine.store.routingMode.accountID ≠ id))
  | .other _ | .addAccount _ _ _ _ _ | .childStarted _ => isTrue trivial

def addThird : AddAction :=
  .addAccount plainPlatform (lit "C") (fun _ => some (Vector.replicate 8 0)) 0 []

def thirdID : GoString := lit "0000000000000000"

theorem unselected_runs_converge_disabled :
    ∃ u, (Converged u ∧ ((twoAccounts (lit "a")).store.routable → StrictOnEnabled u)) ∧ u.idle ∧
      u.policy.mode = ⟨lit "a"⟩ ∧ u.machine.store.enabled thirdID = false := by
  have h : (exec (guard Unselected (addStep chatgptGateway noLibrary))
      (Router.init (twoAccounts (lit "a")) 0)
      (addThird :: (selectAccount (lit "a")).map .other ++ [.disable 0 []])).any (fun u =>
        u.mutation.isNone ∧ u.adding = [] ∧ u.policy.mode = ⟨lit "a"⟩ ∧
          u.machine.store.enabled thirdID = false) = true := by
    decide
  obtain ⟨u, hr, hu⟩ := guarded_runs_of_exec_any h
  obtain ⟨hmutation, hadding, hu⟩ := of_decide_eq_true hu
  exact ⟨u, unselected_runs_converge hr, ⟨Option.isNone_iff_eq_none.mp hmutation, hadding⟩, hu⟩

/-- The new account is selected before its child fails to start: the store falls back
to automatic routing and the policy stays strict on the disabled account. -/
theorem failed_start_leaves_policy_strict :
    ∃ actions u, Runs (Fires (addStep chatgptGateway noLibrary))
      (Router.init (twoAccounts (lit "a")) 0) actions u ∧ ¬ Converged u := by
  have h : (exec (addStep chatgptGateway noLibrary) (Router.init (twoAccounts (lit "a")) 0)
      (addThird :: (selectAccount thirdID).map .other ++ [.disable 0 []])).any (fun u =>
        u.mutation.isNone ∧ u.adding = [] ∧ u.policy.mode = ⟨thirdID⟩ ∧
          u.machine.store.routingMode = .auto) = true := by
    decide
  obtain ⟨u, hr, hu⟩ := runs_of_exec_any h
  obtain ⟨hmutation, hadding, hpolicy, hauto⟩ := of_decide_eq_true hu
  refine ⟨_, u, hr, fun hc => ?_⟩
  have hmode := hc ⟨Option.isNone_iff_eq_none.mp hmutation, hadding⟩
  rw [hpolicy, hauto] at hmode
  exact absurd hmode (by decide)

end SubscriptionRouter.SpendingMode
