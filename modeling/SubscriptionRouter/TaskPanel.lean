import Mathlib
import SubscriptionRouter.ThreadSpending
import SubscriptionRouter.Transitions

set_option autoImplicit false

/-!
# The subscription panel of a task

`CodexMuxThreadSubscription` shows the account of the last request of the open thread. It learns
of requests in two ways: the router publishes an event for each one, and answers a fetch with
the last one. A fetch is ignored once another one has started or the thread was left.
-/
namespace SubscriptionRouter.TaskPanel
open GoText StoreState StoreOpen ThreadSpending Transitions

variable {D : Type}

/-- The identity of an account, and the quota and profile that may be known of it. -/
structure AccountSnapshot (D : Type) where
  id : GoString
  label : GoString
  details : Option D
  deriving DecidableEq

structure ThreadSpendingStatus (D : Type) where
  enabled : Bool
  request : Option ThreadSpend
  account : Option (AccountSnapshot D)
  persisted : Bool
  error : GoString
  deriving DecidableEq

/-! ## The router -/

/-- What this process has observed and published, and the sidecar file of each thread. -/
structure Router where
  requestSpending : Bool
  observed : Observations
  sidecars : GoMap ThreadSpend
  published : List Event

/-- `acceptThreadSpend` with what it writes and publishes. -/
def Router.acceptThreadSpend (r : Router) (s : Store) (d : Delivery) : Router :=
  let accepted := ThreadSpending.acceptThreadSpend s r.observed d
  match accepted.2 with
  | none => { r with observed := accepted.1 }
  | some event => { r with
      observed := accepted.1
      sidecars :=
        if saveFails event.data d.writeFails then r.sidecars
        else r.sidecars.insert event.data.threadID event.data
      published := r.published ++ [event] }

/-- `Store.ThreadSpend`; `none` is an error, which any unreadable file gives. -/
def Router.storedThreadSpend (r : Router) (threadID : GoString) (readable : Bool) :
    Option (Option ThreadSpend) :=
  if !validThreadID threadID || 64 < threadID.length || !readable then none
  else match r.sidecars[threadID]? with
    | none => some none
    | some input =>
      if input.threadID ≠ threadID || !input.validate then none else some (some input)

/-- `ThreadSpending`; the snapshot of the account is an error or whatever the account has. -/
def Router.threadSpending (r : Router) (threadID : GoString) (readable : Bool)
    (snapshot : Option (AccountSnapshot D)) : ThreadSpendingStatus D :=
  let result : ThreadSpendingStatus D :=
    match r.observed.threadSpending[threadID]? with
    | some latest =>
      ⟨r.requestSpending, some latest, none, !(r.observed.threadSpendUnsaved[threadID]?.getD false), []⟩
    | none =>
      match r.storedThreadSpend threadID readable with
      | none => ⟨r.requestSpending, none, none, false, lit "Last request unavailable"⟩
      | some request => ⟨r.requestSpending, request, none, request.isSome, []⟩
  match result.request with
  | none => result
  | some request => { result with
      error :=
        if !result.persisted then lit "Last request could not be saved for restart" else result.error
      account := some (snapshot.getD ⟨request.accountID, request.accountLabel, none⟩) }

/-! ## The panel -/

/-- The state `spending`: the fields of an answer or of an event, under the thread they are for. -/
structure Spending (D : Type) where
  threadId : GoString
  enabled : Option Bool
  request : Option ThreadSpend
  account : Option (AccountSnapshot D)
  persisted : Option Bool
  error : GoString
  unavailable : Bool
  deriving DecidableEq

/-- A fetch, by the run of the effect and the generation it belongs to, and its answer. -/
structure Fetch (D : Type) where
  effect : ℕ
  generation : ℕ
  threadId : GoString
  body : Option (ThreadSpendingStatus D)
  deriving DecidableEq

/-- The thread of the last render, and the closure of the last run of the effect. -/
structure Panel (D : Type) where
  route : Option GoString
  effect : ℕ
  threadId : Option GoString
  generation : ℕ
  spending : Option (Spending D)
  fetches : List (Fetch D)
  deriving DecidableEq

def Panel.refresh (p : Panel D) (threadId : GoString) : Panel D :=
  { p with
    generation := p.generation + 1
    fetches := p.fetches ++ [⟨p.effect, p.generation + 1, threadId, none⟩] }

/-- The clean-up of the last effect, whose fetches are dead from now on, and a new closure. -/
def Panel.remount (p : Panel D) : Panel D :=
  { p with effect := p.effect + 1, threadId := p.route, generation := 0, spending := none }

def Panel.runEffect (p : Panel D) : Panel D :=
  match p.route with
  | none => p.remount
  | some threadId => p.remount.refresh threadId

def Panel.forget (p : Panel D) (i : ℕ) : Panel D := { p with fetches := p.fetches.eraseIdx i }

/-- `active && current === generation` -/
def Panel.awaits (p : Panel D) (f : Fetch D) : Bool :=
  f.effect = p.effect && f.generation = p.generation

def Panel.complete (p : Panel D) (f : Fetch D) (body : ThreadSpendingStatus D) : Panel D :=
  if p.awaits f then
    { p with
      spending := some ⟨f.threadId, some body.enabled, body.request, body.account, some body.persisted,
        body.error, false⟩ }
  else p

def Panel.fail (p : Panel D) (f : Fetch D) : Panel D :=
  if p.awaits f then
    { p with
      spending := some <| match p.spending.filter (·.threadId = f.threadId) with
        | some previous => { previous with unavailable := true }
        | none => ⟨f.threadId, none, none, none, none, [], true⟩ }
  else p

/-- `onMessage` of the closure for `threadId`. -/
def Panel.onMessage (p : Panel D) (threadId : GoString) (event : Event) : Panel D :=
  if event.type = lit "thread-spending-updated" ∧ event.data.threadID = threadId ∧
      event.data.accountID ≠ [] then
    let label := if event.data.accountLabel = [] then event.data.accountID else event.data.accountLabel
    let updated : Spending D :=
      ⟨threadId, some true, some event.data, some ⟨event.data.accountID, label, none⟩, none, [], false⟩
    { p with spending := some updated }.refresh threadId
  else p

/-- What is rendered; an account comes with the state it is read from. -/
inductive View (D : Type) where
  | hidden
  | loading
  | unavailable
  | noRequest
  | subscription (account : AccountSnapshot D) (request : ThreadSpend) (current : Spending D)

def Spending.noAccount (c : Spending D) : View D :=
  if c.unavailable || c.error ≠ [] then .unavailable else .noRequest

def Spending.view (c : Spending D) : View D :=
  match c.request, c.account with
  | some request, some account =>
    if account.id = request.accountID then .subscription account request c else c.noAccount
  | _, _ => c.noAccount

/-- The state of another thread is left over from before a navigation. -/
def Panel.current (p : Panel D) (threadId : GoString) : Option (Spending D) :=
  p.spending.filter (·.threadId = threadId)

def Panel.render (p : Panel D) : View D :=
  match p.route with
  | none => .hidden
  | some threadId =>
    match p.current threadId with
    | none => .loading
    | some c => c.view

/-! ## Runs -/

structure State (D : Type) where
  router : Router
  panel : Panel D
  /-- How many of the published events have been delivered to the panel or lost. -/
  passed : ℕ

inductive Action (D : Type) where
  | accept (s : Store) (d : Delivery)
  | navigate (route : Option GoString)
  | runEffect
  | refresh
  | answer (i : ℕ) (readable : Bool) (snapshot : Option (AccountSnapshot D))
  | complete (i : ℕ)
  | fail (i : ℕ)
  | deliver
  | lose

def State.event (s : State D) : Option Event := s.router.published[s.passed]?

/-- A timer or an event of another kind refreshes at any time; a fetch may be answered, complete
and fail at any time; an event may be lost on its way. -/
def step (s : State D) : Action D → Option (State D)
  | .accept store d => some { s with router := s.router.acceptThreadSpend store d }
  | .navigate route => some { s with panel.route := route }
  | .runEffect =>
    if s.panel.effect = 0 ∨ s.panel.route ≠ s.panel.threadId then
      some { s with panel := s.panel.runEffect, passed := s.router.published.length }
    else none
  | .refresh => s.panel.threadId.map fun threadId => { s with panel := s.panel.refresh threadId }
  | .answer i readable snapshot => s.panel.fetches[i]?.bind fun f =>
      if f.body.isSome then none
      else
        let body := s.router.threadSpending f.threadId readable snapshot
        some { s with panel.fetches := s.panel.fetches.set i { f with body := some body } }
  | .complete i => s.panel.fetches[i]?.bind fun f => f.body.map fun body =>
      { s with panel := (s.panel.complete f body).forget i }
  | .fail i => s.panel.fetches[i]?.map fun f =>
      { s with panel := (s.panel.fail f).forget i }
  | .deliver => s.event.bind fun event => s.panel.threadId.map fun threadId =>
      { s with panel := s.panel.onMessage threadId event, passed := s.passed + 1 }
  | .lose => s.event.map fun _ => { s with passed := s.passed + 1 }

/-- The router has just started; of the threads it knows what their files hold. -/
structure Initial (s : State D) : Prop where
  observed : s.router.observed = .empty
  published : s.router.published = []
  effect : s.panel.effect = 0
  threadId : s.panel.threadId = none
  spending : s.panel.spending = none
  fetches : s.panel.fetches = []
  passed : s.passed = 0

/-- The request and the account on the screen. -/
def State.displayed (s : State D) : Option (ThreadSpend × AccountSnapshot D) :=
  match s.panel.render with
  | .subscription account request _ => some (request, account)
  | _ => none

def Router.requests (r : Router) : List ThreadSpend := r.published.map Event.data

def State.underway (s : State D) : List ThreadSpend := (s.router.published.drop s.passed).map Event.data

/-- A fetch does not complete with a request of this process while the event of an earlier request
of the thread is still on its way. -/
def Timely (s : State D) : Action D → Prop
  | .complete i => ∀ f ∈ s.panel.fetches[i]?, s.panel.awaits f = true → ∀ body ∈ f.body,
      ∀ r ∈ body.request, r ∈ s.router.requests →
        ∀ e ∈ s.underway, e.threadID = f.threadId → r.sequence ≤ e.sequence
  | _ => True

instance (s : State D) (a : Action D) : Decidable (Timely s a) :=
  match a with
  | .complete i => inferInstanceAs (Decidable (∀ f ∈ s.panel.fetches[i]?, s.panel.awaits f = true →
      ∀ body ∈ f.body, ∀ r ∈ body.request, r ∈ s.router.requests →
        ∀ e ∈ s.underway, e.threadID = f.threadId → r.sequence ≤ e.sequence))
  | .accept _ _ | .navigate _ | .runEffect | .refresh | .answer _ _ _ | .fail _ | .deliver | .lose =>
    isTrue trivial

/-! ## What the router answers -/

/-- The request that an answer for the thread may hold. -/
def Router.Answers (r : Router) (threadID : GoString) (request : ThreadSpend) : Prop :=
  r.observed.threadSpending[threadID]? = some request ∨
    r.observed.threadSpending[threadID]? = none ∧ r.sidecars[threadID]? = some request ∧
      request.threadID = threadID

theorem storedThreadSpend_some {r : Router} {threadID : GoString} {readable : Bool} {request : ThreadSpend}
    (h : r.storedThreadSpend threadID readable = some (some request)) :
    r.sidecars[threadID]? = some request ∧ request.threadID = threadID := by
  unfold Router.storedThreadSpend at h
  split at h
  · cases h
  · split at h
    · cases h
    · rename_i input hinput
      split at h
      · cases h
      · rename_i hvalid
        cases h
        simp only [Bool.or_eq_true, decide_eq_true_eq, not_or, not_not] at hvalid
        exact ⟨hinput, hvalid.1⟩

theorem threadSpending_request {r : Router} {threadID : GoString} {readable : Bool}
    {snapshot : Option (AccountSnapshot D)} {request : ThreadSpend}
    (h : (r.threadSpending threadID readable snapshot).request = some request) :
    r.Answers threadID request := by
  unfold Router.threadSpending at h
  cases hlatest : r.observed.threadSpending[threadID]? with
  | some latest =>
    rw [hlatest] at h
    exact .inl (hlatest.trans h)
  | none =>
    rw [hlatest] at h
    cases hstored : r.storedThreadSpend threadID readable with
    | none =>
      rw [hstored] at h
      cases h
    | some stored =>
      rw [hstored] at h
      cases stored with
      | none => cases h
      | some input =>
        cases h
        exact .inr ⟨hlatest, storedThreadSpend_some hstored⟩

/-- The observation of a thread is the last of its requests, which are published in order. -/
structure RouterInv (r : Router) : Prop where
  observed : ∀ t m, r.observed.threadSpending[t]? = some m →
    m ∈ r.requests ∧ m.threadID = t ∧ ∀ e ∈ r.requests, e.threadID = t → e.sequence ≤ m.sequence
  unseen : ∀ t, r.observed.threadSpending[t]? = none → ∀ e ∈ r.requests, e.threadID ≠ t
  sorted : r.requests.Pairwise fun a b => a.threadID = b.threadID → a.sequence < b.sequence

/-- The two outcomes of `acceptThreadSpend`. -/
theorem acceptThreadSpend_cases (r : Router) (s : Store) (d : Delivery) :
    r.acceptThreadSpend s d = r ∨ ∃ obs : ThreadSpend,
      (∀ m, r.observed.threadSpending[obs.threadID]? = some m → m.sequence < obs.sequence) ∧
      (r.acceptThreadSpend s d).observed.threadSpending =
        r.observed.threadSpending.insert obs.threadID obs ∧
      (r.acceptThreadSpend s d).requests = r.requests ++ [obs] ∧
      ((r.acceptThreadSpend s d).sidecars = r.sidecars ∨
        (r.acceptThreadSpend s d).sidecars = r.sidecars.insert obs.threadID obs) := by
  unfold Router.acceptThreadSpend
  cases hobs : d.observation s with
  | none =>
    rw [accept_of_none hobs]
    exact .inl rfl
  | some obs =>
    rw [accept_of_some hobs]
    split_ifs with hstale
    · exact .inl rfl
    · refine .inr ⟨obs, fun m hm => ?_, rfl, ?_, ?_⟩
      · rw [hm] at hstale
        simpa using hstale
      · exact List.map_append
      · dsimp only
        split
        · exact .inl rfl
        · exact .inr rfl

theorem RouterInv.acceptThreadSpend {r : Router} (h : RouterInv r) (s : Store) (d : Delivery) :
    RouterInv (r.acceptThreadSpend s d) := by
  obtain heq | ⟨obs, hfresh, hobserved, hrequests, -⟩ := acceptThreadSpend_cases r s d
  · rwa [heq]
  have hlast : ∀ e ∈ r.requests, e.threadID = obs.threadID → e.sequence < obs.sequence := by
    intro e he hthread
    cases hm : r.observed.threadSpending[obs.threadID]? with
    | none => exact absurd hthread (h.unseen _ hm e he)
    | some m => exact ((h.observed _ m hm).2.2 e he hthread).trans_lt (hfresh m hm)
  refine ⟨fun t m hm => ?_, fun t hnone e he => ?_, ?_⟩
  · rw [hobserved, Std.ExtTreeMap.getElem?_insert] at hm
    rw [hrequests]
    split at hm
    · rename_i ht
      cases hm
      have ht' : obs.threadID = t := by simpa using ht
      refine ⟨List.mem_append_right _ (List.mem_singleton_self _), ht', fun e he hthread => ?_⟩
      obtain he | he := List.mem_append.mp he
      · exact (hlast e he (hthread.trans ht'.symm)).le
      · rw [List.mem_singleton.mp he]
    · rename_i ht
      obtain ⟨hmem, hthread, hmax⟩ := h.observed t m hm
      refine ⟨List.mem_append_left _ hmem, hthread, fun e he hte => ?_⟩
      obtain he | he := List.mem_append.mp he
      · exact hmax e he hte
      · rw [List.mem_singleton.mp he] at hte
        exact absurd (by simpa using hte) ht
  · rw [hobserved, Std.ExtTreeMap.getElem?_insert] at hnone
    rw [hrequests] at he
    split at hnone
    · cases hnone
    · rename_i ht
      obtain he | he := List.mem_append.mp he
      · exact h.unseen t hnone e he
      · rw [List.mem_singleton.mp he]
        simpa using ht
  · rw [hrequests, List.pairwise_append]
    refine ⟨h.sorted, List.pairwise_singleton _ _, fun a ha b hb hthread => ?_⟩
    rw [List.mem_singleton.mp hb] at hthread ⊢
    exact hlast a ha hthread

/-! ## What the panel holds -/

def Fetch.tag (f : Fetch D) : ℕ × ℕ := (f.effect, f.generation)

/-- The fetches of the closure are for its thread, and the last one started is awaited. -/
structure PanelInv (p : Panel D) : Prop where
  mounted : p.effect = 0 → p.threadId = none
  effects : ∀ f ∈ p.fetches, f.effect ≤ p.effect
  closure : ∀ f ∈ p.fetches, f.effect = p.effect → p.threadId = some f.threadId ∧ f.generation ≤ p.generation
  tags : (p.fetches.map Fetch.tag).Nodup
  bodies : ∀ f ∈ p.fetches, ∀ body r, f.body = some body → body.request = some r → r.threadID = f.threadId
  spending : ∀ c, p.spending = some c → p.threadId = some c.threadId
  request : ∀ c r, p.spending = some c → c.request = some r → r.threadID = c.threadId

variable {p : Panel D} {f : Fetch D} {s u : State D} {a : Action D}

theorem awaits_iff : p.awaits f = true ↔ f.effect = p.effect ∧ f.generation = p.generation := by
  simp [Panel.awaits]

theorem PanelInv.refresh (h : PanelInv p) {threadId : GoString} (ht : p.threadId = some threadId) :
    PanelInv (p.refresh threadId) where
  mounted := h.mounted
  effects f hf := by
    obtain hf | hf := List.mem_append.mp hf
    · exact h.effects f hf
    · rw [List.mem_singleton.mp hf]
      exact le_refl _
  closure f hf heffect := by
    obtain hf | hf := List.mem_append.mp hf
    · exact ⟨(h.closure f hf heffect).1, (h.closure f hf heffect).2.trans (Nat.le_succ _)⟩
    · rw [List.mem_singleton.mp hf]
      exact ⟨ht, le_refl _⟩
  tags := by
    rw [Panel.refresh, List.map_append, List.nodup_append]
    refine ⟨h.tags, List.nodup_singleton _, fun tag htag tag' htag' heq => ?_⟩
    obtain ⟨f, hf, rfl⟩ := List.mem_map.mp htag
    rw [List.map_singleton, List.mem_singleton] at htag'
    obtain ⟨heffect, hgeneration⟩ := Prod.mk.inj (heq.trans htag')
    have := (h.closure f hf heffect).2
    change f.generation = p.generation + 1 at hgeneration
    omega
  bodies f hf body r hbody := by
    obtain hf | hf := List.mem_append.mp hf
    · exact h.bodies f hf body r hbody
    · rw [List.mem_singleton.mp hf] at hbody
      cases hbody
  spending := h.spending
  request := h.request

theorem refresh_awaits (h : PanelInv p) {threadId : GoString} (hf : f ∈ (p.refresh threadId).fetches)
    (hawaits : (p.refresh threadId).awaits f = true) : f.body = none := by
  obtain ⟨heffect, hgeneration⟩ := awaits_iff.mp hawaits
  obtain hf | hf := List.mem_append.mp hf
  · have := (h.closure f hf heffect).2
    change f.generation = p.generation + 1 at hgeneration
    omega
  · rw [List.mem_singleton.mp hf]

theorem PanelInv.remount (h : PanelInv p) : PanelInv p.remount where
  mounted he := absurd he (Nat.succ_ne_zero _)
  effects f hf := (h.effects f hf).trans (Nat.le_succ _)
  closure f hf he := absurd he (Nat.ne_of_lt (Nat.lt_succ_of_le (h.effects f hf)))
  tags := h.tags
  bodies := h.bodies
  spending c hc := by cases hc
  request c r hc := by cases hc

theorem PanelInv.runEffect (h : PanelInv p) : PanelInv p.runEffect := by
  unfold Panel.runEffect
  cases hroute : p.route with
  | none => exact h.remount
  | some threadId => exact h.remount.refresh hroute

theorem runEffect_awaits (h : PanelInv p) (hf : f ∈ p.runEffect.fetches) (ha : p.runEffect.awaits f = true) :
    f.body = none := by
  unfold Panel.runEffect at hf ha
  cases hroute : p.route with
  | none =>
    rw [hroute] at hf ha
    exact absurd (awaits_iff.mp ha).1 (Nat.ne_of_lt (Nat.lt_succ_of_le (h.effects f hf)))
  | some threadId =>
    rw [hroute] at hf ha
    exact refresh_awaits h.remount hf ha

theorem runEffect_closure (p : Panel D) : p.runEffect.threadId = p.route ∧ p.runEffect.spending = none := by
  unfold Panel.runEffect
  split
  · exact ⟨rfl, rfl⟩
  · exact ⟨rfl, rfl⟩

theorem PanelInv.setSpending (h : PanelInv p) {c : Spending D} (ht : p.threadId = some c.threadId)
    (hr : ∀ r, c.request = some r → r.threadID = c.threadId) : PanelInv { p with spending := some c } :=
  { h with
    spending := fun c' hc => by
      cases hc
      exact ht
    request := fun c' r hc => by
      cases hc
      exact hr r }

theorem PanelInv.forget (h : PanelInv p) (i : ℕ) : PanelInv (p.forget i) :=
  { h with
    effects := fun f hf => h.effects f (List.mem_of_mem_eraseIdx hf)
    closure := fun f hf => h.closure f (List.mem_of_mem_eraseIdx hf)
    tags := h.tags.sublist ((List.eraseIdx_sublist _ i).map _)
    bodies := fun f hf => h.bodies f (List.mem_of_mem_eraseIdx hf) }

theorem PanelInv.complete (h : PanelInv p) (hf : f ∈ p.fetches) {body : ThreadSpendingStatus D}
    (hbody : f.body = some body) : PanelInv (p.complete f body) := by
  unfold Panel.complete
  split
  · rename_i hawaits
    exact h.setSpending (h.closure f hf (awaits_iff.mp hawaits).1).1 fun r hr => h.bodies f hf body r hbody hr
  · exact h

theorem PanelInv.fail (h : PanelInv p) (hf : f ∈ p.fetches) : PanelInv (p.fail f) := by
  unfold Panel.fail
  split
  · rename_i hawaits
    have ht := (h.closure f hf (awaits_iff.mp hawaits).1).1
    cases hprevious : p.spending.filter (·.threadId = f.threadId) with
    | none => exact h.setSpending ht fun r hr => by cases hr
    | some previous =>
      obtain ⟨hspending, hthread⟩ := Option.filter_eq_some_iff.mp hprevious
      rw [decide_eq_true_eq] at hthread
      exact h.setSpending (c := { previous with unavailable := true }) (ht.trans (congrArg some hthread.symm))
        fun r hr => h.request previous r hspending hr
  · exact h

theorem PanelInv.onMessage (h : PanelInv p) {threadId : GoString} (ht : p.threadId = some threadId)
    (event : Event) : PanelInv (p.onMessage threadId event) := by
  unfold Panel.onMessage
  split
  · rename_i hevent
    exact (h.setSpending ht fun r hr => by cases hr; exact hevent.2.1).refresh ht
  · exact h

theorem map_tag_set {fetches : List (Fetch D)} {i : ℕ} {f g : Fetch D} (hf : fetches[i]? = some f)
    (htag : g.tag = f.tag) : (fetches.set i g).map Fetch.tag = fetches.map Fetch.tag := by
  obtain ⟨hi, rfl⟩ := List.getElem?_eq_some_iff.mp hf
  rw [List.map_set, htag, ← List.getElem_map Fetch.tag (h := by simpa using hi), List.set_getElem_self]

theorem PanelInv.answer (h : PanelInv p) {i : ℕ} (hf : p.fetches[i]? = some f) {body : ThreadSpendingStatus D}
    (hbody : ∀ r, body.request = some r → r.threadID = f.threadId) :
    PanelInv { p with fetches := p.fetches.set i { f with body := some body } } := by
  have hmem := List.mem_of_getElem? hf
  refine { h with effects := ?_, closure := ?_, tags := ?_, bodies := ?_ }
  · intro g hg
    obtain hg | rfl := List.mem_or_eq_of_mem_set hg
    · exact h.effects g hg
    · exact h.effects f hmem
  · intro g hg
    obtain hg | rfl := List.mem_or_eq_of_mem_set hg
    · exact h.closure g hg
    · exact h.closure f hmem
  · have htags : (p.fetches.set i { f with body := some body }).map Fetch.tag = p.fetches.map Fetch.tag :=
      map_tag_set hf rfl
    exact htags ▸ h.tags
  · intro g hg b r hb hr
    obtain hg | rfl := List.mem_or_eq_of_mem_set hg
    · exact h.bodies g hg b r hb hr
    · cases hb
      exact hbody r hr

theorem PanelInv.navigate (h : PanelInv p) (route : Option GoString) : PanelInv { p with route := route } :=
  { h with }

structure Inv (s : State D) : Prop where
  router : RouterInv s.router
  panel : PanelInv s.panel

theorem answers_thread {r : Router} (h : RouterInv r) {t : GoString} {request : ThreadSpend}
    (ha : r.Answers t request) : request.threadID = t := by
  obtain hm | ⟨-, -, ht⟩ := ha
  · exact (h.observed t request hm).2.1
  · exact ht

theorem Inv.step (h : Inv s) (hs : step s a = some u) : Inv u := by
  cases a with
  | accept store d =>
    cases hs
    exact ⟨h.router.acceptThreadSpend store d, h.panel⟩
  | navigate route =>
    cases hs
    exact ⟨h.router, h.panel.navigate route⟩
  | runEffect =>
    simp only [TaskPanel.step] at hs
    split at hs
    · cases hs
      exact ⟨h.router, h.panel.runEffect⟩
    · cases hs
  | refresh =>
    obtain ⟨threadId, ht, rfl⟩ := Option.map_eq_some_iff.mp hs
    exact ⟨h.router, h.panel.refresh ht⟩
  | answer i readable snapshot =>
    obtain ⟨f, hf, hs⟩ := Option.bind_eq_some_iff.mp hs
    split at hs
    · cases hs
    · cases hs
      exact ⟨h.router, h.panel.answer hf fun r hr => answers_thread h.router (threadSpending_request hr)⟩
  | complete i =>
    obtain ⟨f, hf, hs⟩ := Option.bind_eq_some_iff.mp hs
    obtain ⟨body, hbody, rfl⟩ := Option.map_eq_some_iff.mp hs
    exact ⟨h.router, (h.panel.complete (List.mem_of_getElem? hf) hbody).forget i⟩
  | fail i =>
    obtain ⟨f, hf, rfl⟩ := Option.map_eq_some_iff.mp hs
    exact ⟨h.router, (h.panel.fail (List.mem_of_getElem? hf)).forget i⟩
  | deliver =>
    obtain ⟨event, -, hs⟩ := Option.bind_eq_some_iff.mp hs
    obtain ⟨threadId, ht, rfl⟩ := Option.map_eq_some_iff.mp hs
    exact ⟨h.router, h.panel.onMessage ht event⟩
  | lose =>
    obtain ⟨event, -, rfl⟩ := Option.map_eq_some_iff.mp hs
    exact ⟨h.router, h.panel⟩

theorem Initial.inv (h : Initial s) : Inv s where
  router :=
    { observed := fun t m hm => by
        rw [h.observed] at hm
        cases (Std.ExtTreeMap.getElem?_empty).symm.trans hm
      unseen := fun t _ e he => by
        rw [Router.requests, h.published] at he
        cases he
      sorted := by
        rw [Router.requests, h.published]
        exact .nil }
  panel :=
    { mounted := fun _ => h.threadId
      effects := fun f hf => by
        rw [h.fetches] at hf
        cases hf
      closure := fun f hf => by
        rw [h.fetches] at hf
        cases hf
      tags := by
        rw [h.fetches]
        exact .nil
      bodies := fun f hf => by
        rw [h.fetches] at hf
        cases hf
      spending := fun c hc => by
        rw [h.spending] at hc
        cases hc
      request := fun c r hc => by
        rw [h.spending] at hc
        cases hc }

/-! ## What may be shown next -/

/-- A request that the panel shows for the thread, or may come to show without a new one. -/
inductive Source (s : State D) (t : GoString) (r : ThreadSpend) : Prop where
  | shown (c : Spending D) (hc : s.panel.spending = some c) (hr : c.request = some r)
  | awaited (f : Fetch D) (body : ThreadSpendingStatus D) (hf : f ∈ s.panel.fetches)
      (ha : s.panel.awaits f = true) (hbody : f.body = some body) (hr : body.request = some r)
  | underway (hr : r ∈ s.underway) (ht : r.threadID = t)
  | kept (h : s.router.Answers t r)

/-- The steps that leave the open thread open. -/
def Action.stays : Action D → Prop
  | .navigate _ => False
  | .runEffect => False
  | _ => True

theorem source_accept {t : GoString} {r : ThreadSpend} (h : RouterInv s.router) (store : Store) (d : Delivery)
    (hr : Source { s with router := s.router.acceptThreadSpend store d } t r) :
    Source s t r ∨ (r ∈ (s.router.acceptThreadSpend store d).requests ∧ r.threadID = t ∧
      ∀ e ∈ s.router.requests, e.threadID = t → e.sequence < r.sequence) := by
  obtain heq | ⟨obs, hfresh, hobserved, hrequests, hsidecars⟩ := acceptThreadSpend_cases s.router store d
  · rw [heq] at hr
    exact .inl hr
  have hnew : obs.threadID = t → ∀ e ∈ s.router.requests, e.threadID = t → e.sequence < obs.sequence := by
    rintro rfl e he hthread
    cases hm : s.router.observed.threadSpending[obs.threadID]? with
    | none => exact absurd hthread (h.unseen _ hm e he)
    | some m => exact ((h.observed _ m hm).2.2 e he hthread).trans_lt (hfresh m hm)
  have hmem : obs ∈ (s.router.acceptThreadSpend store d).requests :=
    hrequests ▸ List.mem_append_right _ (List.mem_singleton_self obs)
  cases hr with
  | shown c hc hr => exact .inl (.shown c hc hr)
  | awaited f body hf ha hbody hr => exact .inl (.awaited f body hf ha hbody hr)
  | underway hr ht =>
    have hdrop : (s.router.requests ++ [obs]).drop s.passed =
        ({ s with router := s.router.acceptThreadSpend store d } : State D).underway := by
      rw [← hrequests, State.underway, List.map_drop]
      rfl
    rw [← hdrop, List.drop_append, List.mem_append] at hr
    obtain hr | hr := hr
    · refine .inl (.underway ?_ ht)
      rwa [State.underway, List.map_drop]
    · obtain rfl := List.mem_singleton.mp (List.mem_of_mem_drop hr)
      exact .inr ⟨hmem, ht, hnew ht⟩
  | kept hr =>
    by_cases ht : obs.threadID = t
    · obtain hr | ⟨hr, -⟩ := hr
      · rw [hobserved, ← ht, Std.ExtTreeMap.getElem?_insert_self] at hr
        cases hr
        exact .inr ⟨hmem, ht, hnew ht⟩
      · rw [hobserved, ← ht, Std.ExtTreeMap.getElem?_insert_self] at hr
        cases hr
    · have hne : compare obs.threadID t ≠ .eq := by simpa using ht
      refine .inl (.kept ?_)
      obtain hr | ⟨hnone, hstored, hthread⟩ := hr
      · rw [hobserved, Std.ExtTreeMap.getElem?_insert, if_neg hne] at hr
        exact .inl hr
      · rw [hobserved, Std.ExtTreeMap.getElem?_insert, if_neg hne] at hnone
        refine .inr ⟨hnone, ?_, hthread⟩
        obtain hs | hs := hsidecars
        · rwa [hs] at hstored
        · rwa [hs, Std.ExtTreeMap.getElem?_insert, if_neg hne] at hstored

theorem complete_spending {body : ThreadSpendingStatus D} {c : Spending D}
    (h : (p.complete f body).spending = some c) :
    (p.awaits f = true ∧ c.request = body.request) ∨ p.spending = some c := by
  unfold Panel.complete at h
  split at h
  · rename_i ha
    cases h
    exact .inl ⟨ha, rfl⟩
  · exact .inr h

theorem complete_fetches (p : Panel D) (f : Fetch D) (body : ThreadSpendingStatus D) :
    (p.complete f body).fetches = p.fetches ∧ (p.complete f body).awaits = p.awaits := by
  unfold Panel.complete
  split
  · exact ⟨rfl, rfl⟩
  · exact ⟨rfl, rfl⟩

theorem fail_spending {c : Spending D} {r : ThreadSpend} (h : (p.fail f).spending = some c)
    (hr : c.request = some r) : ∃ c', p.spending = some c' ∧ c'.request = some r := by
  unfold Panel.fail at h
  split at h
  · cases h
    cases hprevious : p.spending.filter (·.threadId = f.threadId) with
    | none =>
      rw [hprevious] at hr
      cases hr
    | some previous =>
      rw [hprevious] at hr
      exact ⟨previous, (Option.filter_eq_some_iff.mp hprevious).1, hr⟩
  · exact ⟨c, h, hr⟩

theorem fail_fetches (p : Panel D) (f : Fetch D) :
    (p.fail f).fetches = p.fetches ∧ (p.fail f).awaits = p.awaits := by
  unfold Panel.fail
  split
  · exact ⟨rfl, rfl⟩
  · exact ⟨rfl, rfl⟩

theorem underway_cons {event : Event} (h : s.event = some event) :
    s.underway = event.data :: (s.router.published.drop (s.passed + 1)).map Event.data := by
  obtain ⟨hi, rfl⟩ := List.getElem?_eq_some_iff.mp h
  rw [State.underway, List.drop_eq_getElem_cons hi, List.map_cons]

section Sources
variable {t : GoString} {r : ThreadSpend}

theorem source_refresh (h : Inv s) (hs : step s .refresh = some u) (hr : Source u t r) : Source s t r := by
  obtain ⟨threadId, hthread, rfl⟩ := Option.map_eq_some_iff.mp hs
  cases hr with
  | shown c hc hr => exact .shown c hc hr
  | awaited f body hf ha hbody hr =>
    rw [refresh_awaits h.panel hf ha] at hbody
    cases hbody
  | underway hr ht => exact .underway hr ht
  | kept hr => exact .kept hr

theorem source_answer (h : Inv s) {i : ℕ} {readable : Bool} {snapshot : Option (AccountSnapshot D)}
    (hs : step s (.answer i readable snapshot) = some u) (ht : s.panel.threadId = some t)
    (hr : Source u t r) : Source s t r := by
  obtain ⟨f, hf, hs⟩ := Option.bind_eq_some_iff.mp hs
  split at hs
  · cases hs
  cases hs
  cases hr with
  | shown c hc hr => exact .shown c hc hr
  | awaited g body hg ha hbody hr =>
    obtain hg | rfl := List.mem_or_eq_of_mem_set hg
    · exact .awaited g body hg ha hbody hr
    · cases hbody
      have hclosure := (h.panel.closure f (List.mem_of_getElem? hf) (awaits_iff.mp ha).1).1
      cases ht.symm.trans hclosure
      exact .kept (threadSpending_request hr)
  | underway hr ht => exact .underway hr ht
  | kept hr => exact .kept hr

theorem source_complete {i : ℕ} (hs : step s (.complete i) = some u) (hr : Source u t r) :
    Source s t r := by
  obtain ⟨f, hf, hs⟩ := Option.bind_eq_some_iff.mp hs
  obtain ⟨body, hbody, rfl⟩ := Option.map_eq_some_iff.mp hs
  obtain ⟨hfetches, hawaits⟩ := complete_fetches s.panel f body
  cases hr with
  | shown c hc hr =>
    obtain ⟨ha, hrequest⟩ | hc := complete_spending hc
    · exact .awaited f body (List.mem_of_getElem? hf) ha hbody (hrequest.symm.trans hr)
    · exact .shown c hc hr
  | awaited g body hg ha hbody hr =>
    exact .awaited g body (hfetches ▸ List.mem_of_mem_eraseIdx hg) (hawaits ▸ ha) hbody hr
  | underway hr ht => exact .underway hr ht
  | kept hr => exact .kept hr

theorem source_fail {i : ℕ} (hs : step s (.fail i) = some u) (hr : Source u t r) : Source s t r := by
  obtain ⟨f, hf, rfl⟩ := Option.map_eq_some_iff.mp hs
  obtain ⟨hfetches, hawaits⟩ := fail_fetches s.panel f
  cases hr with
  | shown c hc hr =>
    obtain ⟨c', hc', hr'⟩ := fail_spending hc hr
    exact .shown c' hc' hr'
  | awaited g body hg ha hbody hr =>
    exact .awaited g body (hfetches ▸ List.mem_of_mem_eraseIdx hg) (hawaits ▸ ha) hbody hr
  | underway hr ht => exact .underway hr ht
  | kept hr => exact .kept hr

theorem source_deliver (h : Inv s) (hs : step s .deliver = some u) (ht : s.panel.threadId = some t)
    (hr : Source u t r) : Source s t r := by
  obtain ⟨event, hevent, hs⟩ := Option.bind_eq_some_iff.mp hs
  obtain ⟨threadId, hthread, rfl⟩ := Option.map_eq_some_iff.mp hs
  have hunderway := underway_cons hevent
  unfold Panel.onMessage at hr
  split at hr
  · rename_i hmessage
    cases hr with
    | shown c hc hr =>
      cases hc
      cases hr
      cases ht.symm.trans hthread
      exact .underway (hunderway ▸ List.mem_cons_self) hmessage.2.1
    | awaited f body hf ha hbody hr =>
      have hset := h.panel.setSpending (c := ⟨threadId, some true, some event.data, none, none, [], false⟩)
        hthread (fun r hr => by cases hr; exact hmessage.2.1)
      rw [refresh_awaits (p := _) hset hf ha] at hbody
      cases hbody
    | underway hr ht => exact .underway (hunderway ▸ List.mem_cons_of_mem _ hr) ht
    | kept hr => exact .kept hr
  · cases hr with
    | shown c hc hr => exact .shown c hc hr
    | awaited f body hf ha hbody hr => exact .awaited f body hf ha hbody hr
    | underway hr ht => exact .underway (hunderway ▸ List.mem_cons_of_mem _ hr) ht
    | kept hr => exact .kept hr

theorem source_lose (hs : step s .lose = some u) (hr : Source u t r) : Source s t r := by
  obtain ⟨event, hevent, rfl⟩ := Option.map_eq_some_iff.mp hs
  cases hr with
  | shown c hc hr => exact .shown c hc hr
  | awaited f body hf ha hbody hr => exact .awaited f body hf ha hbody hr
  | underway hr ht => exact .underway (underway_cons hevent ▸ List.mem_cons_of_mem _ hr) ht
  | kept hr => exact .kept hr

end Sources

/-- What one step can do to the sources: a new one is a request that was just accepted. -/
theorem source_step {t : GoString} {r : ThreadSpend} (h : Inv s) (hs : step s a = some u) (ha : a.stays)
    (ht : s.panel.threadId = some t) (hr : Source u t r) :
    Source s t r ∨ (r ∈ u.router.requests ∧ r.threadID = t ∧
      ∀ e ∈ s.router.requests, e.threadID = t → e.sequence < r.sequence) := by
  cases a with
  | accept store d =>
    cases hs
    exact source_accept h.router store d hr
  | navigate route => exact ha.elim
  | runEffect => exact ha.elim
  | refresh => exact .inl (source_refresh h hs hr)
  | answer i readable snapshot => exact .inl (source_answer h hs ht hr)
  | complete i => exact .inl (source_complete hs hr)
  | fail i => exact .inl (source_fail hs hr)
  | deliver => exact .inl (source_deliver h hs ht hr)
  | lose => exact .inl (source_lose hs hr)

/-! ## The order of what is shown -/

/-- `r'` may be shown after `r`: a request of this process, and not an earlier one; only the record
that an earlier process left, `old`, may be followed by itself and by every request. -/
def Follows (old : GoMap ThreadSpend) (s : State D) (r r' : ThreadSpend) : Prop :=
  (r' ∈ s.router.requests ∧ (r.sequence ≤ r'.sequence ∨ old[r.threadID]? = some r)) ∨
    (r' = r ∧ old[r.threadID]? = some r)

structure OrderInv (old : GoMap ThreadSpend) (s : State D) : Prop extends Inv s where
  sidecars : ∀ t : GoString, s.router.observed.threadSpending[t]? = none → s.router.sidecars[t]? = old[t]?
  origin : ∀ (t : GoString) r, s.panel.threadId = some t → Source s t r → r ∈ s.router.requests ∨ old[t]? = some r
  order : ∀ t c r r', s.panel.threadId = some t → s.panel.spending = some c → c.request = some r →
    Source s t r' → Follows old s r r'

theorem step_frame (hs : step s a = some u) (ha : a.stays) :
    u.panel.route = s.panel.route ∧ u.panel.threadId = s.panel.threadId ∧
      (u.router = s.router ∨ ∃ store d, u.router = s.router.acceptThreadSpend store d) := by
  cases a with
  | accept store d =>
    cases hs
    exact ⟨rfl, rfl, .inr ⟨store, d, rfl⟩⟩
  | navigate route => exact ha.elim
  | runEffect => exact ha.elim
  | refresh =>
    obtain ⟨threadId, -, rfl⟩ := Option.map_eq_some_iff.mp hs
    exact ⟨rfl, rfl, .inl rfl⟩
  | answer i readable snapshot =>
    obtain ⟨f, -, hs⟩ := Option.bind_eq_some_iff.mp hs
    split at hs
    · cases hs
    · cases hs
      exact ⟨rfl, rfl, .inl rfl⟩
  | complete i =>
    obtain ⟨f, -, hs⟩ := Option.bind_eq_some_iff.mp hs
    obtain ⟨body, -, rfl⟩ := Option.map_eq_some_iff.mp hs
    simp only [Panel.forget, Panel.complete]
    split
    · exact ⟨rfl, rfl, .inl trivial⟩
    · exact ⟨rfl, rfl, .inl trivial⟩
  | fail i =>
    obtain ⟨f, -, rfl⟩ := Option.map_eq_some_iff.mp hs
    simp only [Panel.forget, Panel.fail]
    split
    · exact ⟨rfl, rfl, .inl trivial⟩
    · exact ⟨rfl, rfl, .inl trivial⟩
  | deliver =>
    obtain ⟨event, -, hs⟩ := Option.bind_eq_some_iff.mp hs
    obtain ⟨threadId, -, rfl⟩ := Option.map_eq_some_iff.mp hs
    simp only [Panel.onMessage]
    split
    · exact ⟨rfl, rfl, .inl trivial⟩
    · exact ⟨rfl, rfl, .inl trivial⟩
  | lose =>
    obtain ⟨event, -, rfl⟩ := Option.map_eq_some_iff.mp hs
    exact ⟨rfl, rfl, .inl rfl⟩

theorem runEffect_step (hs : step s .runEffect = some u) :
    (s.panel.effect = 0 ∨ s.panel.route ≠ s.panel.threadId) ∧
      u = { s with panel := s.panel.runEffect, passed := s.router.published.length } := by
  unfold step at hs
  dsimp only at hs
  split at hs
  · rename_i hmounts
    exact ⟨hmounts, (Option.some.inj hs).symm⟩
  · cases hs

theorem router_step (hs : step s a = some u) :
    u.router = s.router ∨ ∃ store d, u.router = s.router.acceptThreadSpend store d := by
  by_cases ha : a.stays
  · exact (step_frame hs ha).2.2
  cases a with
  | navigate route =>
    cases hs
    exact .inl rfl
  | runEffect =>
    obtain ⟨-, rfl⟩ := runEffect_step hs
    exact .inl rfl
  | _ => exact (ha trivial).elim

theorem requests_step {r : ThreadSpend} (hs : step s a = some u) (hr : r ∈ s.router.requests) :
    r ∈ u.router.requests := by
  obtain heq | ⟨store, d, heq⟩ := router_step hs
  · rwa [heq]
  · rw [heq]
    obtain heq | ⟨obs, -, -, hrequests, -⟩ := acceptThreadSpend_cases s.router store d
    · rwa [heq]
    · exact hrequests ▸ List.mem_append_left _ hr

theorem sidecars_step {old : GoMap ThreadSpend} (hs : step s a = some u)
    (h : ∀ t : GoString, s.router.observed.threadSpending[t]? = none → s.router.sidecars[t]? = old[t]?)
    (t : GoString) (ht : u.router.observed.threadSpending[t]? = none) : u.router.sidecars[t]? = old[t]? := by
  obtain heq | ⟨store, d, heq⟩ := router_step hs
  · rw [heq] at ht ⊢
    exact h t ht
  · rw [heq] at ht ⊢
    obtain heq | ⟨obs, -, hobserved, -, hsidecars⟩ := acceptThreadSpend_cases s.router store d
    · rw [heq] at ht ⊢
      exact h t ht
    · rw [hobserved, Std.ExtTreeMap.getElem?_insert] at ht
      split at ht
      · cases ht
      · rename_i hne
        obtain hsame | hsame := hsidecars
        · rw [hsame]
          exact h t ht
        · rw [hsame, Std.ExtTreeMap.getElem?_insert, if_neg hne]
          exact h t ht

theorem Follows.step {old : GoMap ThreadSpend} {r r' : ThreadSpend} (hs : step s a = some u)
    (h : Follows old s r r') : Follows old u r r' :=
  h.imp_left fun ⟨hr, horder⟩ => ⟨requests_step hs hr, horder⟩

variable {old : GoMap ThreadSpend} {t : GoString} {c : Spending D} {r r' : ThreadSpend}

theorem follows_step (h : Inv s) (hs : step s a = some u) (ha : a.stays) (ht : s.panel.threadId = some t)
    (hthread : r.threadID = t) (horigin : r ∈ s.router.requests ∨ old[t]? = some r)
    (hbefore : ∀ r', Source s t r' → Follows old s r r') (hr' : Source u t r') : Follows old u r r' := by
  obtain hr' | ⟨hmem, -, hlater⟩ := source_step h hs ha ht hr'
  · exact (hbefore r' hr').step hs
  · refine .inl ⟨hmem, ?_⟩
    obtain hr | hr := horigin
    · exact .inl (hlater r hr hthread).le
    · exact .inr (hthread ▸ hr)

theorem answers_origin (h : OrderInv old s) (hr : s.router.Answers t r) :
    r ∈ s.router.requests ∨ old[t]? = some r := by
  obtain hr | ⟨hnone, hr, -⟩ := hr
  · exact .inl (h.router.observed t r hr).1
  · exact .inr (h.sidecars t hnone ▸ hr)

theorem answers_follow (h : OrderInv old s) (hthread : r.threadID = t)
    (horigin : r ∈ s.router.requests ∨ old[t]? = some r) (hr' : s.router.Answers t r') : Follows old s r r' := by
  obtain hr' | ⟨hnone, hr', -⟩ := hr'
  · obtain ⟨hmem, -, hmax⟩ := h.router.observed t r' hr'
    refine .inl ⟨hmem, ?_⟩
    obtain hr | hr := horigin
    · exact .inl (hmax r hr hthread)
    · exact .inr (hthread ▸ hr)
  · obtain hr | hr := horigin
    · exact absurd hthread (h.router.unseen t hnone r hr)
    · rw [h.sidecars t hnone, hr] at hr'
      exact .inr ⟨(Option.some.inj hr').symm, hthread ▸ hr⟩

theorem follows_refl (hthread : r.threadID = t) (horigin : r ∈ s.router.requests ∨ old[t]? = some r) :
    Follows old s r r :=
  horigin.imp (fun hr => ⟨hr, .inl le_rfl⟩) fun hr => ⟨rfl, hthread ▸ hr⟩

theorem underway_request (hr : r ∈ s.underway) : r ∈ s.router.requests := by
  rw [State.underway, List.map_drop] at hr
  exact List.mem_of_mem_drop hr

theorem complete_awaits {i : ℕ} {g : Fetch D} (h : PanelInv p) (hf : p.fetches[i]? = some f)
    (ha : p.awaits f = true) (hg : g ∈ p.fetches.eraseIdx i) : p.awaits g = false := by
  obtain ⟨hi, rfl⟩ := List.getElem?_eq_some_iff.mp hf
  have hsplit : p.fetches = p.fetches.take i ++ p.fetches[i] :: p.fetches.drop (i + 1) := by
    rw [List.getElem_cons_drop, List.take_append_drop]
  have htags := h.tags
  rw [hsplit, List.map_append, List.map_cons, List.nodup_middle, List.nodup_cons, ← List.map_append,
    ← List.eraseIdx_eq_take_drop_succ] at htags
  by_contra hawaits
  obtain ⟨heffect, hgeneration⟩ := awaits_iff.mp (Bool.eq_true_of_not_eq_false hawaits)
  obtain ⟨heffect', hgeneration'⟩ := awaits_iff.mp ha
  exact htags.1 (List.mem_map.mpr ⟨g, hg,
    Prod.ext (heffect.trans heffect'.symm) (hgeneration.trans hgeneration'.symm)⟩)

/-- What follows the request of a fetch that completes in time. -/
theorem order_complete {i : ℕ} {body : ThreadSpendingStatus D} (h : OrderInv old s)
    (htimely : Timely s (.complete i)) (hf : s.panel.fetches[i]? = some f) (hbody : f.body = some body)
    (ha : s.panel.awaits f = true) (ht : s.panel.threadId = some t) (hr : body.request = some r)
    (hr' : Source { s with panel := (s.panel.complete f body).forget i } t r') : Follows old s r r' := by
  have hmem := List.mem_of_getElem? hf
  have hclosure := (h.panel.closure f hmem (awaits_iff.mp ha).1).1
  cases ht.symm.trans hclosure
  have hthread := h.panel.bodies f hmem body r hbody hr
  have horigin := h.origin _ r ht (.awaited f body hmem ha hbody hr)
  obtain ⟨hfetches, hawaits⟩ := complete_fetches s.panel f body
  cases hr' with
  | shown c hc hr' =>
    rw [Panel.complete, if_pos ha] at hc
    cases hc
    cases hr.symm.trans hr'
    exact follows_refl hthread horigin
  | awaited g body' hg ha' hbody' hr' =>
    have hgone := complete_awaits (g := g) h.panel hf ha (hfetches ▸ hg)
    rw [← hawaits] at hgone
    cases hgone.symm.trans ha'
  | underway hr' ht' =>
    refine .inl ⟨underway_request hr', ?_⟩
    obtain hmem | hold := horigin
    · exact .inl (htimely f hf ha body hbody r hr hmem r' hr' ht')
    · exact .inr (hthread ▸ hold)
  | kept hr' => exact answers_follow h hthread horigin hr'

/-- What follows the request of an event. -/
theorem order_message {event : Event} (h : OrderInv old s) (hevent : s.event = some event)
    (ht : s.panel.threadId = some t) (hthread : event.data.threadID = t) {c : Spending D}
    (hc : c.threadId = t) (hrequest : c.request = some event.data)
    (hr' : Source { s with
      panel := { s.panel with spending := some c }.refresh t, passed := s.passed + 1 } t r') :
    Follows old s event.data r' := by
  have hunderway := underway_cons hevent
  have hmem : event.data ∈ s.router.requests := underway_request (hunderway ▸ List.mem_cons_self)
  cases hr' with
  | shown c' hc' hr' =>
    cases hc'
    cases hrequest.symm.trans hr'
    exact .inl ⟨hmem, .inl le_rfl⟩
  | awaited f body hf ha hbody hr' =>
    have hset := h.panel.setSpending (c := c) (hc ▸ ht) fun r hr => by
      cases hrequest.symm.trans hr
      exact hthread.trans hc.symm
    rw [refresh_awaits hset hf ha] at hbody
    cases hbody
  | underway hr' ht' =>
    have hsorted : s.underway.Pairwise fun a b => a.threadID = b.threadID → a.sequence < b.sequence := by
      rw [State.underway, List.map_drop]
      exact h.router.sorted.sublist (List.drop_sublist _ _)
    rw [hunderway, List.pairwise_cons] at hsorted
    exact .inl ⟨underway_request (hunderway ▸ List.mem_cons_of_mem _ hr'),
      .inl (hsorted.1 r' hr' (hthread.trans ht'.symm)).le⟩
  | kept hr' => exact answers_follow h hthread (.inl hmem) hr'

theorem order_kept (h : OrderInv old s) (hs : step s a = some u) (ha : a.stays) (ht : s.panel.threadId = some t)
    (hc : s.panel.spending = some c) (hr : c.request = some r) (hr' : Source u t r') : Follows old u r r' := by
  have hthread : r.threadID = t := by
    cases ht.symm.trans (h.panel.spending c hc)
    exact h.panel.request c r hc hr
  exact follows_step h.toInv hs ha ht hthread (h.origin t r ht (.shown c hc hr))
    (fun r' => h.order t c r r' ht hc hr) hr'

theorem order_step (h : OrderInv old s) (htimely : Timely s a) (hs : step s a = some u) (ha : a.stays)
    (ht : s.panel.threadId = some t) (hc : u.panel.spending = some c) (hr : c.request = some r)
    (hr' : Source u t r') : Follows old u r r' := by
  cases a with
  | accept store d =>
    have hsame := hs
    cases hs
    exact order_kept h hsame ha ht hc hr hr'
  | navigate route => exact ha.elim
  | runEffect => exact ha.elim
  | refresh =>
    have hsame := hs
    obtain ⟨threadId, -, rfl⟩ := Option.map_eq_some_iff.mp hs
    exact order_kept h hsame ha ht hc hr hr'
  | answer i readable snapshot =>
    have hsame := hs
    obtain ⟨f, -, hs⟩ := Option.bind_eq_some_iff.mp hs
    split at hs
    · cases hs
    · cases hs
      exact order_kept h hsame ha ht hc hr hr'
  | complete i =>
    have hsame := hs
    obtain ⟨f, hf, hs⟩ := Option.bind_eq_some_iff.mp hs
    obtain ⟨body, hbody, rfl⟩ := Option.map_eq_some_iff.mp hs
    obtain ⟨hawaits, hrequest⟩ | hc := complete_spending hc
    · exact (order_complete h htimely hf hbody hawaits ht (hrequest ▸ hr) hr').step hsame
    · exact order_kept h hsame ha ht hc hr hr'
  | fail i =>
    have hsame := hs
    obtain ⟨f, hf, rfl⟩ := Option.map_eq_some_iff.mp hs
    obtain ⟨c', hc', hr''⟩ := fail_spending hc hr
    exact order_kept h hsame ha ht hc' hr'' hr'
  | deliver =>
    have hsame := hs
    obtain ⟨event, hevent, hs⟩ := Option.bind_eq_some_iff.mp hs
    obtain ⟨threadId, hthread, rfl⟩ := Option.map_eq_some_iff.mp hs
    cases ht.symm.trans hthread
    simp only [Panel.onMessage] at hc hr'
    split at hc
    · rename_i hmessage
      rw [if_pos hmessage] at hr'
      cases hc
      cases hr
      exact (order_message h hevent ht hmessage.2.1 rfl rfl hr').step hsame
    · exact order_kept h hsame ha ht hc hr (by simpa only [Panel.onMessage] using hr')
  | lose =>
    have hsame := hs
    obtain ⟨event, -, rfl⟩ := Option.map_eq_some_iff.mp hs
    exact order_kept h hsame ha ht hc hr hr'

theorem source_runEffect (h : Inv s)
    (hr : Source { s with panel := s.panel.runEffect, passed := s.router.published.length } t r) :
    s.router.Answers t r := by
  cases hr with
  | shown c hc hr => cases (runEffect_closure s.panel).2.symm.trans hc
  | awaited f body hf ha hbody hr => cases (runEffect_awaits h.panel hf ha).symm.trans hbody
  | underway hr ht =>
    rw [State.underway, List.drop_length] at hr
    cases hr
  | kept hr => exact hr

theorem source_navigate {route : Option GoString} (hr : Source { s with panel.route := route } t r) :
    Source s t r := by
  cases hr with
  | shown c hc hr => exact .shown c hc hr
  | awaited f body hf ha hbody hr => exact .awaited f body hf ha hbody hr
  | underway hr ht => exact .underway hr ht
  | kept hr => exact .kept hr

theorem OrderInv.stays (h : OrderInv old s) (htimely : Timely s a) (hs : TaskPanel.step s a = some u)
    (ha : a.stays) : OrderInv old u := by
  refine { h.toInv.step hs with sidecars := sidecars_step hs h.sidecars, origin := ?_, order := ?_ }
  · intro t r ht hr
    rw [(step_frame hs ha).2.1] at ht
    obtain hr | ⟨hmem, -⟩ := source_step h.toInv hs ha ht hr
    · exact (h.origin t r ht hr).imp_left (requests_step hs)
    · exact .inl hmem
  · intro t c r r' ht hc hr hr'
    rw [(step_frame hs ha).2.1] at ht
    exact order_step h htimely hs ha ht hc hr hr'

theorem OrderInv.step (h : OrderInv old s) (htimely : Timely s a) (hs : TaskPanel.step s a = some u) :
    OrderInv old u := by
  by_cases ha : a.stays
  · exact h.stays htimely hs ha
  cases a with
  | navigate route =>
    have hinv := h.toInv.step hs
    cases hs
    exact { hinv with
      sidecars := h.sidecars
      origin := fun t r ht hr => h.origin t r ht (source_navigate hr)
      order := fun t c r r' ht hc hr hr' => h.order t c r r' ht hc hr (source_navigate hr') }
  | runEffect =>
    have hinv := h.toInv.step hs
    obtain ⟨-, rfl⟩ := runEffect_step hs
    exact { hinv with
      sidecars := h.sidecars
      origin := fun t r _ hr => answers_origin (s := s) h (source_runEffect (s := s) h.toInv hr)
      order := fun t c r r' _ hc => by cases (runEffect_closure s.panel).2.symm.trans hc }
  | _ => exact (ha trivial).elim

theorem Initial.orderInv (h : Initial s) : OrderInv s.router.sidecars s where
  toInv := h.inv
  sidecars t _ := rfl
  origin t r ht := by cases h.threadId.symm.trans ht
  order t c r r' ht := by cases h.threadId.symm.trans ht

/-! ## Whole runs -/

theorem view_subscription {account : AccountSnapshot D} {c c' : Spending D}
    (h : c.view = .subscription account r c') : c.request = some r ∧ account.id = r.accountID := by
  have hno : c.noAccount ≠ .subscription account r c' := by
    unfold Spending.noAccount
    split
    · exact fun h => by cases h
    · exact fun h => by cases h
  unfold Spending.view at h
  split at h
  · rename_i request account' hrequest haccount
    split at h
    · rename_i hid
      cases h
      exact ⟨hrequest, hid⟩
    · exact absurd h hno
  · exact absurd h hno

theorem displayed_current {account : AccountSnapshot D} (h : s.displayed = some (r, account)) :
    account.id = r.accountID ∧
      ∃ c, s.panel.spending = some c ∧ s.panel.route = some c.threadId ∧ c.request = some r := by
  unfold State.displayed at h
  split at h
  · rename_i account' request c' hview
    cases h
    unfold Panel.render at hview
    split at hview
    · cases hview
    · rename_i threadId hroute
      split at hview
      · cases hview
      · rename_i c hc
        obtain ⟨hspending, hthread⟩ := Option.filter_eq_some_iff.mp hc
        obtain ⟨hrequest, haccount⟩ := view_subscription hview
        rw [decide_eq_true_eq] at hthread
        exact ⟨haccount, c, hspending, hthread ▸ hroute, hrequest⟩
  · cases h

theorem displayed_runs {s₀ : State D} {as : List (Action D)} {account : AccountSnapshot D} (h : Initial s₀)
    (hrun : Runs (Fires step) s₀ as s) (hs : s.displayed = some (r, account)) :
    account.id = r.accountID ∧ s.panel.route = some r.threadID := by
  have hinv : Inv s := hrun.invariant h.inv fun _ _ _ hi hstep => hi.step hstep
  obtain ⟨haccount, c, hc, hroute, hr⟩ := displayed_current hs
  exact ⟨haccount, hroute.trans (congrArg some (hinv.panel.request c r hc hr).symm)⟩

/-- After `r` was shown for the thread `t`, which stays open. -/
structure Shown (old : GoMap ThreadSpend) (t : GoString) (r : ThreadSpend) (s : State D) : Prop
    extends OrderInv old s where
  route : s.panel.route = some t
  threadId : s.panel.threadId = some t
  thread : r.threadID = t
  before : r ∈ s.router.requests ∨ old[t]? = some r
  follows : ∀ r', Source s t r' → Follows old s r r'

theorem Shown.of_displayed {account : AccountSnapshot D} (h : OrderInv old s)
    (hs : s.displayed = some (r, account)) : Shown old r.threadID r s := by
  obtain ⟨-, c, hc, hroute, hr⟩ := displayed_current hs
  have hthread := h.panel.request c r hc hr
  have ht := h.panel.spending c hc
  rw [← hthread] at hroute ht
  exact { h with
    route := hroute
    threadId := ht
    thread := rfl
    before := h.origin _ r ht (.shown c hc hr)
    follows := fun r' => h.order _ c r r' ht hc hr }

theorem Shown.step (h : Shown old t r s) (htimely : Timely s a) (hs : TaskPanel.step s a = some u)
    (ha : ∀ route, a = .navigate route → route = some t) : Shown old t r u := by
  have horder := h.toOrderInv.step htimely hs
  have hbefore := h.before.imp_left (requests_step hs)
  by_cases hstays : a.stays
  · obtain ⟨hroute, hthreadId, -⟩ := step_frame hs hstays
    exact { horder with
      route := hroute.trans h.route
      threadId := hthreadId.trans h.threadId
      thread := h.thread
      before := hbefore
      follows := fun r' => follows_step h.toInv hs hstays h.threadId h.thread h.before h.follows }
  cases a with
  | navigate route =>
    cases hs
    exact { horder with
      route := ha route rfl
      threadId := h.threadId
      thread := h.thread
      before := hbefore
      follows := fun r' hr' => h.follows r' (source_navigate hr') }
  | runEffect =>
    -- The effect has run for this thread already.
    obtain ⟨hmounts | hmounts, -⟩ := runEffect_step hs
    · cases (h.panel.mounted hmounts).symm.trans h.threadId
    · exact absurd (h.route.trans h.threadId.symm) hmounts
  | _ => exact (hstays trivial).elim

theorem Shown.run {as : List (Action D)} (hrun : Runs (Guarded Timely (Fires TaskPanel.step)) s as u)
    (h : Shown old t r s) (has : ∀ a ∈ as, ∀ route, a = .navigate route → route = some t) :
    Shown old t r u := by
  induction hrun with
  | refl => exact h
  | tail _ last ih =>
    exact (ih fun a ha => has a (List.mem_append_left _ ha)).step last.1 last.2
      (has _ (List.mem_append_right _ (List.mem_singleton_self _)))

theorem follows_runs {s₀ : State D} {as bs : List (Action D)} {account account' : AccountSnapshot D}
    (h : Initial s₀) (hrun : Runs (Guarded Timely (Fires step)) s₀ as s)
    (hs : s.displayed = some (r, account)) (hrun' : Runs (Guarded Timely (Fires step)) s bs u)
    (hopen : ∀ b ∈ bs, ∀ route, b = .navigate route → route = some r.threadID)
    (hu : u.displayed = some (r', account')) : Follows s₀.router.sidecars u r r' := by
  have horder : OrderInv s₀.router.sidecars s :=
    hrun.invariant h.orderInv fun _ _ _ hi hstep => hi.step hstep.1 hstep.2
  have hshown := (Shown.of_displayed horder hs).run hrun' hopen
  obtain ⟨-, c, hc, -, hr⟩ := displayed_current hu
  exact hshown.follows r' (.shown c hc hr)

/-- The screen shows no account but that of the request and no request but one of the open thread;
as long as no fetch overtakes an event, it never goes back to an earlier request of this process,
nor from one to what an earlier process has left. -/
theorem panel_runs {s₀ : State D} (h : Initial s₀) :
    (∀ as s r account, Runs (Fires step) s₀ as s → s.displayed = some (r, account) →
      account.id = r.accountID ∧ s.panel.route = some r.threadID) ∧
    (∀ as s bs u r r' account account', Runs (Guarded Timely (Fires step)) s₀ as s →
      s.displayed = some (r, account) → Runs (Guarded Timely (Fires step)) s bs u →
      (∀ b ∈ bs, ∀ route, b = .navigate route → route = s.panel.route) →
      u.displayed = some (r', account') → Follows s₀.router.sidecars u r r') := by
  refine ⟨fun as s r account hrun hs => displayed_runs h hrun hs,
    fun as s bs u r r' account account' hrun hs hrun' hopen hu => ?_⟩
  have hroute := (displayed_runs h hrun.of_guarded hs).2
  exact follows_runs h hrun hs hrun' (fun b hb route hnavigate => (hopen b hb route hnavigate).trans hroute) hu

/-- An earlier process has left a record with a high number for the thread `t`. -/
def restarted : State Unit :=
  ⟨⟨true, .empty, (∅ : GoMap ThreadSpend).insert (lit "t") ⟨lit "t", lit "b", lit "B", 57, 1⟩, []⟩,
    ⟨none, 0, none, 0, none, []⟩, 0⟩

def opening : List (Action Unit) :=
  [.navigate (some (lit "t")), .runEffect, .answer 0 true none, .complete 0]

def request (sequence : ℕ) : List (Action Unit) :=
  [.accept (twoAccounts (lit "b")).store (spent sequence false), .deliver]

theorem restarted_initial : Initial restarted := ⟨rfl, rfl, rfl, rfl, rfl, rfl, rfl⟩

def earlierSpend : ThreadSpend := ⟨lit "t", lit "b", lit "B", 57, 1⟩

def firstSpend : ThreadSpend := ⟨lit "t", lit "a", lit "A", 1, 1⟩

def secondSpend : ThreadSpend := ⟨lit "t", lit "a", lit "A", 2, 1⟩

theorem runs_of_shown {as bs : List (Action Unit)} {r r' : ThreadSpend} {account account' : AccountSnapshot Unit}
    (h : (exec (guard Timely step) restarted as).any (fun s => s.displayed = some (r, account) ∧
      (exec (guard Timely step) s bs).any fun u => u.displayed = some (r', account')) = true) :
    ∃ s u, Runs (Guarded Timely (Fires step)) restarted as s ∧ s.displayed = some (r, account) ∧
      Runs (Guarded Timely (Fires step)) s bs u ∧ u.displayed = some (r', account') := by
  obtain ⟨s, hs, htest⟩ := guarded_runs_of_exec_any h
  obtain ⟨hdisplayed, h⟩ := of_decide_eq_true htest
  obtain ⟨u, hu, htest⟩ := guarded_runs_of_exec_any h
  exact ⟨s, u, hs, hdisplayed, hu, of_decide_eq_true htest⟩

/-- Both requests are shown, and the second one has the lower number. -/
theorem restarted_run : ∃ s u : State Unit,
    Runs (Guarded Timely (Fires step)) restarted opening s ∧
    s.displayed = some (earlierSpend, ⟨lit "b", lit "B", none⟩) ∧
    Runs (Guarded Timely (Fires step)) s (request 1) u ∧
    u.displayed = some (firstSpend, ⟨lit "a", lit "A", none⟩) :=
  runs_of_shown (by decide)

theorem second_run : ∃ s u : State Unit,
    Runs (Guarded Timely (Fires step)) restarted (opening ++ request 1) s ∧
    s.displayed = some (firstSpend, ⟨lit "a", lit "A", none⟩) ∧
    Runs (Guarded Timely (Fires step)) s (request 2) u ∧
    u.displayed = some (secondSpend, ⟨lit "a", lit "A", none⟩) :=
  runs_of_shown (by decide)

theorem request_stays (s : State Unit) (sequence : ℕ) :
    ∀ b ∈ request sequence, ∀ route, b = .navigate route → route = s.panel.route := by
  intro b hb route hroute
  simp [request, hroute] at hb

/-- What the earlier process has left, and then two requests of this one. -/
theorem panel_restarted : (∃ u : State Unit, Follows restarted.router.sidecars u earlierSpend firstSpend) ∧
    ∃ u : State Unit, Follows restarted.router.sidecars u firstSpend secondSpend := by
  obtain ⟨s, u, hs, hdisplayed, hu, hdisplayed'⟩ := restarted_run
  obtain ⟨s₂, u₂, hs₂, hdisplayed₂, hu₂, hdisplayed₂'⟩ := second_run
  exact ⟨⟨u, (panel_runs restarted_initial).2 _ s _ u _ _ _ _ hs hdisplayed hu (request_stays s 1) hdisplayed'⟩,
    u₂, (panel_runs restarted_initial).2 _ s₂ _ u₂ _ _ _ _ hs₂ hdisplayed₂ hu₂ (request_stays s₂ 2) hdisplayed₂'⟩

/-- The hypothesis on fetches is needed: here the answer with the second request overtakes the event of
the first one, which then takes its place. -/
example : (exec step { restarted with router.sidecars := ∅ } [.navigate (some (lit "t")), .runEffect,
    .accept (twoAccounts (lit "b")).store (spent 1 false),
    .accept (twoAccounts (lit "b")).store (spent 2 false), .answer 0 true none, .complete 0, .deliver]).any
    (fun s => s.displayed = some (firstSpend, ⟨lit "a", lit "A", none⟩)) = true := by
  decide

theorem number_decreases : ¬ ∀ (s₀ : State Unit), Initial s₀ → ∀ as s bs u r r' account account',
    Runs (Fires step) s₀ as s → s.displayed = some (r, account) → Runs (Fires step) s bs u →
    (∀ b ∈ bs, ∀ route, b = .navigate route → route = s.panel.route) →
    u.displayed = some (r', account') → r.sequence ≤ r'.sequence := by
  intro h
  obtain ⟨s, u, hs, hdisplayed, hu, hdisplayed'⟩ := restarted_run
  have := h restarted restarted_initial _ s _ u _ _ _ _ hs.of_guarded hdisplayed hu.of_guarded
    (request_stays s 1) hdisplayed'
  exact absurd this (by decide)

end SubscriptionRouter.TaskPanel
