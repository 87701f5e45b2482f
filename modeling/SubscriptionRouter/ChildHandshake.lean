import Mathlib
import SubscriptionRouter.ChildTable

set_option autoImplicit false

/-!
# Each child is initialized once

A child is owed frames by its start, by the client's `initialize` and by the notification
`initialized`. What it has been sent together with what it is owed is `promised`, and a
send leaves that alone.
-/
namespace SubscriptionRouter.ChildHandshake
open GoText Transitions Tallies ChildStarts ChildTable

variable {u v : Router} {id : GoString} {child k : ℕ} {ok : Bool}

def sentTo (u : Router) (k : ℕ) : List Frame := (u.processes[k]?).elim [] (·.sent)

/-- The frames that a start sends when it goes on in the state `u` without failing. -/
def owed (u : Router) : Start → List Frame
  | .handshake _ =>
    if u.initializeParams = [] then []
    else .initializeRequest :: if u.initialized then [.initializedNotice] else []
  | .request _ initialized => .initializeRequest :: if initialized then [.initializedNotice] else []
  | .await _ initialized => if initialized then [.initializedNotice] else []
  | .notify _ => [.initializedNotice]
  | _ => []

def ownDue (u : Router) (id : GoString) : List Frame := (u.starts[id]?).elim [] (owed u)

def clientDue (u : Router) (id : GoString) (k : ℕ) : List Frame :=
  match u.client with
  | .asking todo _ _ => if todo[id]? = some k then [.initializeRequest] else []
  | _ => []

def noticeDue (u : Router) (id : GoString) (k : ℕ) : List Frame :=
  match u.notice with
  | .sending entries => if entries[id]? = some k then [.initializedNotice] else []
  | _ => []

def promised (u : Router) (id : GoString) (k : ℕ) : List Frame :=
  sentTo u k ++ ownDue u id ++ clientDue u id k ++ noticeDue u id k

def failing : Start → Bool
  | .drop _ | .close _ => true
  | _ => false

/-- How far a fan-out to the children has come. -/
inductive Fanout where
  | unsent
  | accounts
  | children (listed : List GoString)
  | sent

def clientFanout : Client → Fanout
  | .unsent => .unsent
  | .accounts => .accounts
  | .children listed => .children listed
  | .asking _ _ _ | .dropping _ _ | .responded => .sent

def noticeFanout : Notice → Fanout
  | .unsent => .unsent
  | .accounts => .accounts
  | .children listed => .children listed
  | .sending _ | .done => .sent

/-- The client has its response, the children have been notified, and no start is on its
way. -/
def completed (u : Router) : Bool :=
  match u.client, u.notice with
  | .responded, .done => u.starts.isEmpty
  | _, _ => false

/-- Every child that is registered when all has completed has been sent one initialize
request and then one initialized notification. -/
def InitializedOnce (u : Router) : Prop :=
  completed u = true → ∀ (id : GoString) (k : ℕ), u.children[id]? = some k →
    sentTo u k = [.initializeRequest, .initializedNotice]

/-- The start of the child's account has failed, or neither has it sent the child the
frame nor does it owe the child any. -/
def ready (u : Router) (frame : Frame) (e : GoString × ℕ) : Bool :=
  (u.starts[e.1]?).any failing || ((ownDue u e.1).isEmpty && frame ∉ sentTo u e.2)

/-- A fan-out finds its children ready when it takes its snapshot of the table, and a
child that `initialize` misses can be initialized from the stored parameters. -/
def ordered (u : Router) : Action → Bool
  | .goClient => match u.client with
    | .children listed => u.children.toList.all fun e =>
      if e.1 ∈ listed then ready u .initializeRequest e else !u.initializeParams.isEmpty
    | _ => true
  | .goNotice => match u.notice with
    | .children listed => (u.entries listed).toList.all (ready u .initializedNotice)
    | _ => true
  | .goStart id _ => match u.starts[id]?, clientFanout u.client with
    | some (.register _), .sent => !u.initializeParams.isEmpty
    | _, _ => true
  | _ => true

def Ordered (u : Router) (l : Action) : Prop := ordered u l = true

instance (u : Router) (l : Action) : Decidable (Ordered u l) :=
  inferInstanceAs (Decidable (ordered u l = true))

/-! ## The invariant -/

/-- What the child of an account may have been promised. -/
def Allowed (client notice : Fanout) (params id : GoString) (frames : List Frame) : Prop :=
  match client with
  | .unsent => frames = []
  | .accounts => frames = [] ∨ frames = [.initializeRequest]
  | .children listed =>
    frames = [.initializeRequest] ∨ (frames = [] ∧ (id ∈ listed ∨ params = []))
  | .sent => match notice with
    | .unsent => frames = [.initializeRequest]
    | .accounts =>
      frames = [.initializeRequest] ∨ frames = [.initializeRequest, .initializedNotice]
    | .children listed => frames = [.initializeRequest, .initializedNotice] ∨
      (frames = [.initializeRequest] ∧ id ∈ listed)
    | .sent => frames = [.initializeRequest, .initializedNotice]

/-- The child `k` of an account and what it is owed. -/
structure Kept (u : Router) (id : GoString) (k : ℕ) : Prop where
  due : clientDue u id k ≠ [] ∨ noticeDue u id k ≠ [] → ownDue u id = []
  allowed : (u.starts[id]?).any failing = false →
    Allowed (clientFanout u.client) (noticeFanout u.notice) u.initializeParams id
      (promised u id k)

/-- A child that is not registered yet. -/
structure Fresh (u : Router) (id : GoString) (k : ℕ) : Prop where
  sent : sentTo u k = []
  client : clientDue u id k = []
  notice : noticeDue u id k = []

structure HandshakeInv (u : Router) : Prop where
  table : TableInv u
  kept : ∀ (id : GoString) (k : ℕ), u.children[id]? = some k → Kept u id k
  fresh : ∀ (id : GoString) (k : ℕ), u.starts[id]? = some (.register k) → Fresh u id k
  closes : ∀ (id : GoString) (k : ℕ), u.starts[id]? = some (.close k) → u.children[id]? = none
  dueOwner : ∀ (id : GoString) (k : ℕ), clientDue u id k ≠ [] ∨ noticeDue u id k ≠ [] →
    ∃ p, u.processes[k]? = some p ∧ p.account = id
  unset : u.client = .unsent → u.initializeParams = []
  flag : u.initialized = false ↔ u.notice = .unsent
  responded : u.notice ≠ .unsent → u.client = .responded

theorem clientDue_ne (h : clientDue u id k ≠ []) : ∃ todo awaiting failed,
    u.client = .asking todo awaiting failed ∧ todo[id]? = some k := by
  unfold clientDue at h
  split at h
  · rename_i todo awaiting failed hc
    split at h
    · exact ⟨todo, awaiting, failed, hc, ‹_›⟩
    · exact absurd rfl h
  · exact absurd rfl h

theorem noticeDue_ne (h : noticeDue u id k ≠ []) : ∃ entries,
    u.notice = .sending entries ∧ entries[id]? = some k := by
  unfold noticeDue at h
  split at h
  · rename_i entries hc
    split at h
    · exact ⟨entries, hc, ‹_›⟩
    · exact absurd rfl h
  · exact absurd rfl h

theorem sentTo_modify {f : Process → Process} (hf : ∀ p, (f p).sent = p.sent) :
    sentTo (u.modify child f) k = sentTo u k := by
  unfold sentTo
  rw [modify_processes]
  cases u.processes[k]? with
  | none => rfl
  | some p =>
    change (if child = k then f p else p).sent = p.sent
    split
    · exact hf p
    · rfl

theorem sentTo_send {frame : Frame} {p : Process} (hp : u.processes[child]? = some p) :
    sentTo (u.send child frame) k =
      if child = k then sentTo u k ++ [frame] else sentTo u k := by
  unfold sentTo Router.send
  rw [modify_processes]
  by_cases h : child = k
  · rw [if_pos h, ← h, hp]
    change (if child = child then _ else p).sent = _
    rw [if_pos rfl]
    rfl
  · rw [if_neg h]
    cases u.processes[k]? with
    | none => rfl
    | some q =>
      change (if child = k then _ else q).sent = q.sent
      rw [if_neg h]

theorem owed_congr (hparams : v.initializeParams = u.initializeParams)
    (hinitialized : v.initialized = u.initialized) (s : Start) : owed v s = owed u s := by
  unfold owed
  rw [hparams, hinitialized]

theorem ownDue_congr (hstarts : v.starts[id]? = u.starts[id]?)
    (hparams : v.initializeParams = u.initializeParams)
    (hinitialized : v.initialized = u.initialized) : ownDue v id = ownDue u id := by
  unfold ownDue
  rw [hstarts]
  cases u.starts[id]? with
  | none => rfl
  | some s => exact owed_congr hparams hinitialized s

theorem fanout_unsent {c : Client} : clientFanout c = .unsent ↔ c = .unsent := by
  cases c <;> simp [clientFanout]

theorem noticeFanout_unsent {n : Notice} : noticeFanout n = .unsent ↔ n = .unsent := by
  cases n <;> simp [noticeFanout]

/-- Children may leave the table, and a fan-out may go on without sending anything. -/
theorem HandshakeInv.frame (hi : HandshakeInv u) (htable : TableInv v)
    (hsub : ∀ (a : GoString) (k : ℕ), v.children[a]? = some k → u.children[a]? = some k)
    (hstarts : v.starts = u.starts) (hparams : v.initializeParams = u.initializeParams)
    (hinitialized : v.initialized = u.initialized)
    (hevolves : Evolves u.processes v.processes) (hsent : ∀ k, sentTo v k = sentTo u k)
    (hclient : clientFanout v.client = clientFanout u.client)
    (hclientDue : ∀ a k, clientDue v a k = clientDue u a k)
    (hnotice : noticeFanout v.notice = noticeFanout u.notice)
    (hnoticeDue : ∀ a k, noticeDue v a k = noticeDue u a k)
    (hresponded : v.notice ≠ .unsent → v.client = .responded) : HandshakeInv v := by
  have hown : ∀ a, ownDue v a = ownDue u a := fun a =>
    ownDue_congr (by rw [hstarts]) hparams hinitialized
  have hnone : ∀ a : GoString, u.children[a]? = none → v.children[a]? = none := fun a h => by
    cases hk : v.children[a]? with
    | none => rfl
    | some k =>
      rw [hsub a k hk] at h
      cases h
  exact {
    table := htable
    kept := fun a k hk => by
      have hkept := hi.kept a k (hsub a k hk)
      refine ⟨?_, ?_⟩
      · rw [hclientDue, hnoticeDue, hown]
        exact hkept.due
      · unfold promised
        rw [hstarts, hclient, hnotice, hparams, hsent, hown, hclientDue, hnoticeDue]
        exact hkept.allowed
    fresh := fun a k hs => by
      rw [hstarts] at hs
      have hfresh := hi.fresh a k hs
      exact ⟨(hsent k).trans hfresh.sent, (hclientDue a k).trans hfresh.client,
        (hnoticeDue a k).trans hfresh.notice⟩
    closes := fun a k hs => by
      rw [hstarts] at hs
      exact hnone a (hi.closes a k hs)
    dueOwner := fun a k h => by
      rw [hclientDue, hnoticeDue] at h
      exact hevolves.owned (hi.dueOwner a k h)
    unset := fun h => by
      rw [hparams]
      exact hi.unset (fanout_unsent.mp (hclient.symm.trans (fanout_unsent.mpr h)))
    flag := by
      rw [hinitialized, hi.flag, ← noticeFanout_unsent, ← hnotice, noticeFanout_unsent]
    responded := hresponded }

/-- Nothing that concerns the handshake changes. -/
theorem HandshakeInv.quiet (hi : HandshakeInv u) (htable : TableInv v)
    (hsub : ∀ (a : GoString) (k : ℕ), v.children[a]? = some k → u.children[a]? = some k)
    (hstarts : v.starts = u.starts) (hparams : v.initializeParams = u.initializeParams)
    (hinitialized : v.initialized = u.initialized)
    (hevolves : Evolves u.processes v.processes) (hsent : ∀ k, sentTo v k = sentTo u k)
    (hclient : v.client = u.client) (hnotice : v.notice = u.notice) : HandshakeInv v := by
  refine hi.frame htable hsub hstarts hparams hinitialized hevolves hsent (by rw [hclient])
    (fun a k => ?_) (by rw [hnotice]) (fun a k => ?_) (by rw [hclient, hnotice]; exact hi.responded)
  · unfold clientDue
    rw [hclient]
  · unfold noticeDue
    rw [hnotice]

/-! ## The starts -/

theorem HandshakeInv.setStart (hi : HandshakeInv u) (next : Option Start)
    (htable : TableInv { u with starts := putStart u.starts id next })
    (hkept : ∀ k, u.children[id]? = some k →
      Kept { u with starts := putStart u.starts id next } id k)
    (hfresh : ∀ k, next = some (.register k) → Fresh u id k)
    (hcloses : ∀ k, next = some (.close k) → u.children[id]? = none) :
    HandshakeInv { u with starts := putStart u.starts id next } := by
  have hput := fun a => putStart_getElem? id a u.starts next
  exact {
    table := htable
    kept := fun a k hk => by
      by_cases ha : id = a
      · exact ha ▸ hkept k (ha ▸ hk)
      · have hkept := hi.kept a k hk
        have hsame : (putStart u.starts id next)[a]? = u.starts[a]? := by rw [hput, if_neg ha]
        have hown : ownDue { u with starts := putStart u.starts id next } a = ownDue u a :=
          ownDue_congr hsame rfl rfl
        refine ⟨fun h => hown.trans (hkept.due h), ?_⟩
        unfold promised
        rw [hown]
        exact fun h => hkept.allowed (by rw [← hsame]; exact h)
    fresh := fun a k hs => by
      rw [hput] at hs
      split at hs
      · rename_i ha
        obtain ⟨hsent, hclient, hnotice⟩ := hfresh k hs
        exact ha ▸ ⟨hsent, hclient, hnotice⟩
      · obtain ⟨hsent, hclient, hnotice⟩ := hi.fresh a k hs
        exact ⟨hsent, hclient, hnotice⟩
    closes := fun a k hs => by
      rw [hput] at hs
      split at hs
      · rename_i ha
        exact ha ▸ hcloses k hs
      · exact hi.closes a k hs
    dueOwner := hi.dueOwner
    unset := hi.unset
    flag := hi.flag
    responded := hi.responded }

theorem HandshakeInv.moveStart (hi : HandshakeInv u) {s : Start} (hs : u.starts[id]? = some s)
    (next : Option Start) (htable : TableInv { u with starts := putStart u.starts id next })
    (hgoes : failing s = false) (howed : next.any failing = false → next.elim [] (owed u) = owed u s)
    (hfails : next.any failing = true → next.elim [] (owed u) = [])
    (hregister : ∀ k, next ≠ some (.register k)) (hclose : ∀ k, next ≠ some (.close k)) :
    HandshakeInv { u with starts := putStart u.starts id next } := by
  refine hi.setStart next htable (fun k hk => ?_) (fun k h => absurd h (hregister k))
    fun k h => absurd h (hclose k)
  have hkept := hi.kept id k hk
  have hself := putStart_getElem? id id u.starts next
  rw [if_pos rfl] at hself
  have hbefore : ownDue u id = owed u s := by rw [ownDue, hs]; rfl
  have hafter : ownDue { u with starts := putStart u.starts id next } id =
      next.elim [] (owed u) := by
    rw [ownDue, hself]
    rfl
  refine ⟨fun h => ?_, fun h => ?_⟩
  · rw [hafter]
    cases hn : next.any failing with
    | true => exact hfails hn
    | false => exact (howed hn).trans (hbefore.symm.trans (hkept.due h))
  · rw [hself] at h
    unfold promised
    rw [hafter, howed h, ← hbefore]
    exact hkept.allowed (by rw [hs]; exact hgoes)

/-- Stages at which no child is stored or closed and no request has failed. -/
def passing : Start → Bool
  | .register _ | .drop _ | .close _ => false
  | _ => true

theorem failing_of_passing {s : Start} (h : passing s = true) : failing s = false := by
  cases s with
  | drop child => cases h
  | close child => cases h
  | _ => rfl

theorem HandshakeInv.passStart (hi : HandshakeInv u) {s : Start} (hs : u.starts[id]? = some s)
    (next : Option Start) (htable : TableInv { u with starts := putStart u.starts id next })
    (hgoes : failing s = false) (howed : next.elim [] (owed u) = owed u s)
    (hpass : next.all passing = true) :
    HandshakeInv { u with starts := putStart u.starts id next } := by
  refine hi.moveStart hs next htable hgoes (fun _ => howed) (fun h => ?_) (fun k h => ?_)
    fun k h => ?_
  · cases next with
    | none => cases h
    | some s =>
      have hgoes' := failing_of_passing hpass
      rw [show failing s = true from h] at hgoes'
      cases hgoes'
  · rw [h] at hpass
    cases hpass
  · rw [h] at hpass
    cases hpass

/-! ## Sends -/

/-- A start sends a frame that it owes, and goes on owing the rest or fails. -/
theorem HandshakeInv.sendStart (hi : HandshakeInv u) {s next : Start} {frame : Frame}
    {rest : List Frame} (hs : u.starts[id]? = some s) (hlaunched : launched s = some child)
    (hknown : known s = some child) (hgoes : failing s = false) (howed : owed u s = frame :: rest)
    (htable : TableInv { u.send child frame with starts := putStart u.starts id (some next) })
    (hnext : failing next = false → owed u next = rest)
    (hregister : ∀ k, next ≠ .register k) (hclose : ∀ k, next ≠ .close k) :
    HandshakeInv { u.send child frame with starts := putStart u.starts id (some next) } := by
  have hput := fun a => putStart_getElem? id a u.starts (some next)
  obtain ⟨p, hp, haccount⟩ := hi.table.startOwner id s child hs hlaunched
  have hsent : ∀ k, child ≠ k → sentTo (u.send child frame) k = sentTo u k := fun k hk => by
    rw [sentTo_send hp, if_neg hk]
  have hother : ∀ {a k}, id ≠ a → (∃ q, u.processes[k]? = some q ∧ q.account = a) → child ≠ k := by
    rintro a k ha ⟨q, hq, hqa⟩ rfl
    obtain rfl := Option.some.inj (hp.symm.trans hq)
    exact ha (haccount.symm.trans hqa)
  have hbefore : ownDue u id = frame :: rest := by rw [ownDue, hs]; exact howed
  exact {
    table := htable
    kept := fun a k hk => by
      by_cases ha : id = a
      · subst ha
        obtain rfl := hi.table.current id s child k hs hknown hk
        have hkept := hi.kept id k hk
        refine ⟨fun h => ?_, fun h => ?_⟩
        · have hnone := hkept.due h
          rw [hbefore] at hnone
          cases hnone
        · have hstart : (putStart u.starts id (some next))[id]? = some next := by
            rw [hput, if_pos rfl]
          have hgoes' : failing next = false := by
            rw [hstart] at h
            exact h
          have hpromised := hkept.allowed (by rw [hs]; exact hgoes)
          have hafter : ownDue { u.send k frame with starts := putStart u.starts id (some next) }
              id = rest := by
            rw [ownDue, hstart]
            exact hnext hgoes'
          unfold promised at hpromised ⊢
          rw [hbefore] at hpromised
          rw [hafter]
          change Allowed _ _ _ _ (sentTo (u.send k frame) k ++ rest ++ clientDue u id k ++
            noticeDue u id k)
          rw [sentTo_send hp, if_pos rfl, List.append_assoc (sentTo u k), List.singleton_append]
          exact hpromised
      · have hkept := hi.kept a k hk
        have hsame : (putStart u.starts id (some next))[a]? = u.starts[a]? := by rw [hput, if_neg ha]
        have hown : ownDue { u.send child frame with starts := putStart u.starts id (some next) } a =
            ownDue u a := ownDue_congr hsame rfl rfl
        refine ⟨fun h => hown.trans (hkept.due h), fun h => ?_⟩
        unfold promised
        rw [hown]
        change Allowed _ _ _ _ (sentTo (u.send child frame) k ++ _ ++ clientDue u a k ++
          noticeDue u a k)
        rw [hsent k (hother ha (hi.table.owner a k hk))]
        exact hkept.allowed (by rw [← hsame]; exact h)
    fresh := fun a k hs' => by
      rw [hput] at hs'
      split at hs'
      · exact absurd (Option.some.inj hs') (hregister k)
      · rename_i ha
        obtain ⟨hnone, hclient, hnotice⟩ := hi.fresh a k hs'
        exact ⟨(hsent k (hother ha (hi.table.startOwner a _ k hs' rfl))).trans hnone, hclient,
          hnotice⟩
    closes := fun a k hs' => by
      rw [hput] at hs'
      split at hs'
      · exact absurd (Option.some.inj hs') (hclose k)
      · exact hi.closes a k hs'
    dueOwner := fun a k h => (Evolves.send u child frame).owned (hi.dueOwner a k h)
    unset := hi.unset
    flag := hi.flag
    responded := hi.responded }

/-- A fan-out sends a child the frame that it owes the child. -/
theorem HandshakeInv.sendDue (hi : HandshakeInv u) {frame : Frame} (htable : TableInv v)
    (hdue : clientDue u id child ++ noticeDue u id child = [frame])
    (hpaid : clientDue v id child = [] ∧ noticeDue v id child = [])
    (hclientDue : ∀ a k, ¬(id = a ∧ child = k) → clientDue v a k = clientDue u a k)
    (hnoticeDue : ∀ a k, ¬(id = a ∧ child = k) → noticeDue v a k = noticeDue u a k)
    (hprocesses : v.processes = (u.send child frame).processes)
    (hchildren : v.children = u.children) (hstarts : v.starts = u.starts)
    (hparams : v.initializeParams = u.initializeParams)
    (hinitialized : v.initialized = u.initialized)
    (hclient : clientFanout v.client = clientFanout u.client)
    (hnotice : noticeFanout v.notice = noticeFanout u.notice)
    (hresponded : v.notice ≠ .unsent → v.client = .responded) : HandshakeInv v := by
  have hne : clientDue u id child ≠ [] ∨ noticeDue u id child ≠ [] := by
    by_contra hempty
    rw [not_or, not_not, not_not] at hempty
    rw [hempty.1, hempty.2] at hdue
    cases hdue
  obtain ⟨p, hp, haccount⟩ := hi.dueOwner id child hne
  have hown : ∀ a, ownDue v a = ownDue u a := fun a =>
    ownDue_congr (by rw [hstarts]) hparams hinitialized
  have hsent : ∀ k, sentTo v k = if child = k then sentTo u k ++ [frame] else sentTo u k := by
    intro k
    rw [← sentTo_send hp, sentTo, sentTo, hprocesses]
  have hother : ∀ {a k}, ¬(id = a ∧ child = k) →
      (∃ q, u.processes[k]? = some q ∧ q.account = a) → child ≠ k := by
    rintro a k hpair ⟨q, hq, hqa⟩ rfl
    obtain rfl := Option.some.inj (hp.symm.trans hq)
    exact hpair ⟨haccount.symm.trans hqa, rfl⟩
  have hweak : ∀ a k, clientDue v a k ≠ [] ∨ noticeDue v a k ≠ [] →
      clientDue u a k ≠ [] ∨ noticeDue u a k ≠ [] := by
    intro a k h
    by_cases hpair : id = a ∧ child = k
    · obtain ⟨rfl, rfl⟩ := hpair
      exact hne
    · rwa [hclientDue a k hpair, hnoticeDue a k hpair] at h
  exact {
    table := htable
    kept := fun a k hk => by
      rw [hchildren] at hk
      have hkept := hi.kept a k hk
      refine ⟨fun h => (hown a).trans (hkept.due (hweak a k h)), fun h => ?_⟩
      rw [hstarts] at h
      have hpromised := hkept.allowed h
      rw [hclient, hnotice, hparams]
      unfold promised at hpromised ⊢
      rw [hown, hsent]
      by_cases hpair : id = a ∧ child = k
      · obtain ⟨rfl, rfl⟩ := hpair
        rw [hkept.due hne, List.append_assoc, hdue, List.append_nil] at hpromised
        rw [hkept.due hne, if_pos rfl, hpaid.1, hpaid.2, List.append_nil, List.append_nil,
          List.append_nil]
        exact hpromised
      · rw [if_neg (hother hpair (hi.table.owner a k hk)), hclientDue a k hpair,
          hnoticeDue a k hpair]
        exact hpromised
    fresh := fun a k hs => by
      rw [hstarts] at hs
      obtain ⟨hnone, hfresh, hfresh'⟩ := hi.fresh a k hs
      have hpair : ¬(id = a ∧ child = k) := by
        rintro ⟨rfl, rfl⟩
        exact hne.elim (fun h => h hfresh) fun h => h hfresh'
      refine ⟨?_, (hclientDue a k hpair).trans hfresh, (hnoticeDue a k hpair).trans hfresh'⟩
      rw [hsent, if_neg (hother hpair (hi.table.startOwner a _ k hs rfl))]
      exact hnone
    closes := by rw [hchildren, hstarts]; exact hi.closes
    dueOwner := fun a k h => by
      rw [hprocesses]
      exact (Evolves.send u child frame).owned (hi.dueOwner a k (hweak a k h))
    unset := fun h => by
      rw [hparams]
      exact hi.unset (fanout_unsent.mp (hclient.symm.trans (fanout_unsent.mpr h)))
    flag := by
      rw [hinitialized, hi.flag, ← noticeFanout_unsent, ← hnotice, noticeFanout_unsent]
    responded := hresponded }

/-! ## The steps of a start -/

theorem HandshakeInv.launch (hi : HandshakeInv u) (hs : u.starts[id]? = some .launch) :
    HandshakeInv { u with
      processes := u.processes ++ [{ account := id }]
      starts := putStart u.starts id (some (.register u.processes.length)) } := by
  have hput := fun a => putStart_getElem? id a u.starts (some (.register u.processes.length))
  have hkeep : ∀ {a : GoString} {k : ℕ}, (∃ p, u.processes[k]? = some p ∧ p.account = a) →
      (u.processes ++ [{ account := id }])[k]? = u.processes[k]? := by
    rintro a k ⟨p, hp, _⟩
    rw [getElem?_concat_of_some _ hp, hp]
  have hnew : ¬∃ p, u.processes[u.processes.length]? = some p ∧ p.account = id := by
    rintro ⟨p, hp, _⟩
    exact absurd (List.getElem?_eq_some_iff.mp hp).1 (lt_irrefl _)
  exact {
    table := hi.table.launch hs
    kept := fun a k hk => by
      have hkept := hi.kept a k hk
      have ha : id ≠ a := by
        rintro rfl
        have hnone := hi.table.vacancy id _ hs rfl
        rw [hnone] at hk
        cases hk
      have hsame : (putStart u.starts id (some (.register u.processes.length)))[a]? =
          u.starts[a]? := by rw [hput, if_neg ha]
      have hown : ownDue { u with
          processes := u.processes ++ [{ account := id }]
          starts := putStart u.starts id (some (.register u.processes.length)) } a = ownDue u a :=
        ownDue_congr hsame rfl rfl
      refine ⟨fun h => hown.trans (hkept.due h), fun h => ?_⟩
      rw [hsame] at h
      unfold promised sentTo
      rw [hown, hkeep (hi.table.owner a k hk)]
      exact hkept.allowed h
    fresh := fun a k hs' => by
      rw [hput] at hs'
      split at hs'
      · rename_i ha
        subst ha
        cases hs'
        refine ⟨?_, ?_, ?_⟩
        · rw [sentTo, List.getElem?_concat_length]
          rfl
        · exact by_contra fun h => hnew (hi.dueOwner id _ (.inl h))
        · exact by_contra fun h => hnew (hi.dueOwner id _ (.inr h))
      · obtain ⟨hsent, hclient, hnotice⟩ := hi.fresh a k hs'
        refine ⟨?_, hclient, hnotice⟩
        rw [sentTo, hkeep (hi.table.startOwner a _ k hs' rfl)]
        exact hsent
    closes := fun a k hs' => by
      rw [hput] at hs'
      split at hs'
      · cases hs'
      · exact hi.closes a k hs'
    dueOwner := fun a k h => by
      obtain ⟨p, hp, haccount⟩ := hi.dueOwner a k h
      exact ⟨p, getElem?_concat_of_some _ hp, haccount⟩
    unset := hi.unset
    flag := hi.flag
    responded := hi.responded }

/-- A child registered now is promised what its start owes it. -/
theorem HandshakeInv.allowed_handshake (hi : HandshakeInv u) (id : GoString) (child : ℕ)
    (hparams : clientFanout u.client = .sent → u.initializeParams ≠ []) :
    Allowed (clientFanout u.client) (noticeFanout u.notice) u.initializeParams id
      (owed u (.handshake child)) := by
  have hquiet : clientFanout u.client ≠ .sent → u.initialized = false := fun h => by
    refine hi.flag.mpr (by_contra fun hn => h ?_)
    rw [hi.responded hn]
    rfl
  unfold Allowed owed
  cases hc : clientFanout u.client with
  | unsent => exact if_pos (hi.unset (fanout_unsent.mp hc))
  | accounts =>
    rw [hquiet (by rw [hc]; nofun)]
    by_cases hempty : u.initializeParams = []
    · exact .inl (if_pos hempty)
    · exact .inr (if_neg hempty)
  | children listed =>
    rw [hquiet (by rw [hc]; nofun)]
    by_cases hempty : u.initializeParams = []
    · exact .inr ⟨if_pos hempty, .inr hempty⟩
    · exact .inl (if_neg hempty)
  | sent =>
    simp only [if_neg (hparams hc)]
    cases hn : noticeFanout u.notice with
    | unsent =>
      rw [hi.flag.mpr (noticeFanout_unsent.mp hn)]
      rfl
    | accounts | children listed | sent =>
      have hset : u.initialized = true := by
        cases hinit : u.initialized with
        | true => rfl
        | false =>
          rw [noticeFanout_unsent.mpr (hi.flag.mp hinit)] at hn
          cases hn
      rw [hset]
      simp

theorem HandshakeInv.register (hi : HandshakeInv u) (hs : u.starts[id]? = some (.register child))
    (hparams : clientFanout u.client = .sent → u.initializeParams ≠ []) :
    HandshakeInv { u with
      children := u.children.insert id child
      starts := putStart u.starts id (some (.handshake child)) } := by
  have hput := fun a => putStart_getElem? id a u.starts (some (.handshake child))
  have hins := getElem?_insert_eq u.children id
  exact {
    table := hi.table.register hs
    kept := fun a k hk => by
      rw [hins] at hk
      split at hk
      · rename_i ha
        subst ha
        cases hk
        obtain ⟨hsent, hclient, hnotice⟩ := hi.fresh id child hs
        refine ⟨fun h => ?_, fun _ => ?_⟩
        · exact (h.elim (fun h => h hclient) fun h => h hnotice).elim
        · have hown : ownDue { u with
              children := u.children.insert id child
              starts := putStart u.starts id (some (.handshake child)) } id =
              owed u (.handshake child) := by
            rw [ownDue, hput, if_pos rfl]
            rfl
          unfold promised
          rw [hown]
          change Allowed _ _ _ _ (sentTo u child ++ _ ++ clientDue u id child ++
            noticeDue u id child)
          rw [hsent, hclient, hnotice, List.append_nil, List.append_nil, List.nil_append]
          exact hi.allowed_handshake id child hparams
      · rename_i ha
        have hkept := hi.kept a k hk
        have hsame : (putStart u.starts id (some (.handshake child)))[a]? = u.starts[a]? := by
          rw [hput, if_neg ha]
        have hown : ownDue { u with
            children := u.children.insert id child
            starts := putStart u.starts id (some (.handshake child)) } a = ownDue u a :=
          ownDue_congr hsame rfl rfl
        refine ⟨fun h => hown.trans (hkept.due h), fun h => ?_⟩
        rw [hsame] at h
        unfold promised
        rw [hown]
        exact hkept.allowed h
    fresh := fun a k hs' => by
      rw [hput] at hs'
      split at hs'
      · cases hs'
      · obtain ⟨hsent, hclient, hnotice⟩ := hi.fresh a k hs'
        exact ⟨hsent, hclient, hnotice⟩
    closes := fun a k hs' => by
      rw [hput] at hs'
      rw [hins]
      split at hs'
      · cases hs'
      · rename_i ha
        rw [if_neg ha]
        exact hi.closes a k hs'
    dueOwner := hi.dueOwner
    unset := hi.unset
    flag := hi.flag
    responded := hi.responded }

theorem HandshakeInv.removeChildIfCurrent (hi : HandshakeInv u) (id : GoString) (child : ℕ) :
    HandshakeInv (u.removeChildIfCurrent id child) :=
  hi.quiet (hi.table.removeChildIfCurrent id child) (removed_sub u id child) rfl rfl rfl (.refl _)
    (fun _ => rfl) rfl rfl

theorem HandshakeInv.closeChild (hi : HandshakeInv u) (child : ℕ) :
    HandshakeInv (u.closeChild child) :=
  hi.quiet (hi.table.frame rfl rfl (fun _ h => h) (.closeChild u child)) (fun _ _ h => h) rfl rfl
    rfl (.closeChild u child) (fun _ => sentTo_modify fun _ => rfl) rfl rfl

theorem HandshakeInv.goStart (hi : HandshakeInv u)
    (hguard : ordered u (.goStart id ok) = true) (h : u.goStart id ok = some v) :
    HandshakeInv v := by
  have htable := hi.table.goStart h
  obtain ⟨s, hs, rfl⟩ := Option.map_eq_some_iff.mp h
  dsimp only at htable ⊢
  cases s with
  | check enabled =>
    have hnew : ∀ next : Option Start, TableInv { u with starts := putStart u.starts id next } →
        next.any failing = false → next.elim [] (owed u) = [] → (∀ k, next ≠ some (.register k)) →
        (∀ k, next ≠ some (.close k)) →
        HandshakeInv { u with starts := putStart u.starts id next } :=
      fun next htable hgoes howed => hi.moveStart hs next htable rfl (fun _ => howed) fun h => by
        rw [hgoes] at h
        cases h
    simp only [Router.startStep] at htable ⊢
    by_cases hopen : (u.closing || !enabled) = true
    · rw [if_pos hopen] at htable ⊢
      exact hnew none htable rfl rfl (fun _ h => by cases h) fun _ h => by cases h
    · rw [if_neg hopen] at htable ⊢
      split at htable <;>
        exact hnew _ htable rfl rfl (fun _ h => by cases h) fun _ h => by cases h
  | inspect child =>
    simp only [Router.startStep] at htable ⊢
    by_cases hexited : u.exited child = true
    · rw [if_pos hexited] at htable ⊢
      exact hi.passStart hs (some (.discard child)) htable rfl rfl rfl
    · rw [if_neg hexited] at htable ⊢
      exact hi.passStart hs none htable rfl rfl rfl
  | discard child =>
    exact (hi.removeChildIfCurrent id child).passStart (s := .discard child) hs (some .circuit)
      htable rfl rfl rfl
  | circuit =>
    cases ok with
    | true => exact hi.passStart hs (some .launch) htable rfl rfl rfl
    | false => exact hi.passStart hs none htable rfl rfl rfl
  | launch =>
    cases ok with
    | true => exact hi.launch hs
    | false => exact hi.passStart hs none htable rfl rfl rfl
  | register child =>
    refine hi.register hs fun hsent hempty => ?_
    simp [ordered, hs, hsent, hempty] at hguard
  | handshake child =>
    simp only [Router.startStep] at htable ⊢
    by_cases hempty : u.initializeParams = []
    · rw [if_pos hempty] at htable ⊢
      exact hi.passStart hs (some (.settle child)) htable rfl (if_pos hempty).symm rfl
    · rw [if_neg hempty] at htable ⊢
      exact hi.passStart hs (some (.request child u.initialized)) htable rfl
        (if_neg hempty).symm rfl
  | request child initialized =>
    simp only [Router.startStep] at htable ⊢
    by_cases hfails : (u.gone child || !ok) = true
    · rw [if_pos hfails] at htable ⊢
      exact hi.sendStart hs rfl rfl rfl rfl htable (fun h => by cases h)
        (fun _ h => by cases h) fun _ h => by cases h
    · rw [if_neg hfails] at htable ⊢
      exact hi.sendStart hs rfl rfl rfl rfl htable (fun _ => rfl) (fun _ h => by cases h)
        fun _ h => by cases h
  | await child initialized =>
    cases ok with
    | false =>
      exact hi.moveStart hs (some (.drop child)) htable rfl (fun h => by cases h) (fun _ => rfl)
        (fun _ h => by cases h) fun _ h => by cases h
    | true =>
      cases initialized with
      | true => exact hi.passStart hs (some (.notify child)) htable rfl rfl rfl
      | false => exact hi.passStart hs (some (.settle child)) htable rfl rfl rfl
  | notify child =>
    exact hi.sendStart hs rfl rfl rfl rfl htable (fun _ => rfl) (fun _ h => by cases h)
      fun _ h => by cases h
  | settle child => exact hi.passStart hs none htable rfl rfl rfl
  | drop child =>
    have hnone := hi.table.removed_none hs rfl
    refine (hi.removeChildIfCurrent id child).setStart (some (.close child)) htable
      (fun k hk => ?_) (fun _ h => by cases h) fun _ _ => hnone
    rw [hnone] at hk
    cases hk
  | close child =>
    refine (hi.closeChild child).setStart none htable (fun k hk => ?_)
      (fun _ h => by cases h) fun _ h => by cases h
    have hnone := hi.closes id child hs
    rw [show u.children[id]? = some k from hk] at hnone
    cases hnone

/-! ## The client's messages and their fan-outs -/

/-- A message of the client arrives or its fan-out goes on, and may owe frames to
registered children. -/
theorem HandshakeInv.talk (hi : HandshakeInv u) {params : GoString} {initialized : Bool}
    {client : Client} {notice : Notice}
    (hkept : ∀ a k, u.children[a]? = some k → Kept u a k →
      Kept { u with initializeParams := params, initialized, client, notice } a k)
    (hdues : ∀ a k,
      clientDue { u with initializeParams := params, initialized, client, notice } a k ≠ [] ∨
      noticeDue { u with initializeParams := params, initialized, client, notice } a k ≠ [] →
      u.children[a]? = some k)
    (hunset : client = .unsent → params = []) (hflag : initialized = false ↔ notice = .unsent)
    (hresponded : notice ≠ .unsent → client = .responded) :
    HandshakeInv { u with initializeParams := params, initialized, client, notice } where
  table := hi.table.frame rfl rfl (fun _ h => h) (.refl _)
  kept := fun a k hk => hkept a k hk (hi.kept a k hk)
  fresh := fun a k hs => by
    have hnone : u.children[a]? ≠ some k := by
      rw [hi.table.vacancy a _ hs rfl]
      nofun
    exact ⟨(hi.fresh a k hs).sent, by_contra fun h => hnone (hdues a k (.inl h)),
      by_contra fun h => hnone (hdues a k (.inr h))⟩
  closes := hi.closes
  dueOwner := fun a k h => hi.table.owner a k (hdues a k h)
  unset := hunset
  flag := hflag
  responded := hresponded

theorem ownDue_failing (h : (u.starts[id]?).any failing = true) : ownDue u id = [] := by
  unfold ownDue
  cases hs : u.starts[id]? with
  | none => rfl
  | some s =>
    rw [hs] at h
    cases s <;> first | rfl | cases h

theorem ownDue_initialize (u : Router) (hinitialized : u.initialized = false) (params : GoString)
    (client : Client) (hnone : ownDue u id = []) :
    ownDue { u with initializeParams := params, client } id = [] ∨
      ownDue { u with initializeParams := params, client } id = [.initializeRequest] := by
  unfold ownDue at hnone ⊢
  change (u.starts[id]?).elim [] _ = [] ∨ (u.starts[id]?).elim [] _ = _
  cases hs : u.starts[id]? with
  | none => exact .inl rfl
  | some s =>
    rw [hs] at hnone
    cases s with
    | handshake child =>
      simp only [Option.elim_some, owed, hinitialized]
      by_cases hempty : params = []
      · exact .inl (if_pos hempty)
      · exact .inr (if_neg hempty)
    | _ => exact .inl hnone

theorem ownDue_initialized (u : Router) (id : GoString) (hinitialized : u.initialized = false)
    (notice : Notice) :
    ownDue { u with initialized := true, notice } id = ownDue u id ∨
      (ownDue u id = [.initializeRequest] ∧ ownDue { u with initialized := true, notice } id =
        [.initializeRequest, .initializedNotice]) := by
  unfold ownDue
  change (u.starts[id]?).elim [] _ = _ ∨ _ ∧ (u.starts[id]?).elim [] _ = _
  cases hs : u.starts[id]? with
  | none => exact .inl rfl
  | some s =>
    cases s with
    | handshake child =>
      simp only [Option.elim_some, owed, hinitialized]
      by_cases hempty : u.initializeParams = []
      · exact .inl (by rw [if_pos hempty, if_pos hempty])
      · exact .inr ⟨if_neg hempty, if_neg hempty⟩
    | _ => exact .inl rfl

theorem noDues (hclient : ∀ todo awaiting failed, u.client ≠ .asking todo awaiting failed)
    (hnotice : ∀ entries, u.notice ≠ .sending entries) (id : GoString) (k : ℕ) :
    clientDue u id k = [] ∧ noticeDue u id k = [] := by
  refine ⟨by_contra fun h => ?_, by_contra fun h => ?_⟩
  · obtain ⟨todo, awaiting, failed, hc, _⟩ := clientDue_ne h
    exact hclient todo awaiting failed hc
  · obtain ⟨entries, hn, _⟩ := noticeDue_ne h
    exact hnotice entries hn

theorem promised_eq (h : clientDue u id k = [] ∧ noticeDue u id k = []) :
    promised u id k = sentTo u k ++ ownDue u id := by
  rw [promised, h.1, h.2, List.append_nil, List.append_nil]

theorem HandshakeInv.clientInitialize (hi : HandshakeInv u) (hc : u.client = .unsent)
    (params : GoString) :
    HandshakeInv { u with initializeParams := params, client := .accounts } := by
  have hn : u.notice = .unsent := by_contra fun hn => by
    have h := hi.responded hn
    rw [hc] at h
    cases h
  have hinitialized := hi.flag.mpr hn
  have hbefore : ∀ a k, clientDue u a k = [] ∧ noticeDue u a k = [] :=
    noDues (by rw [hc]; nofun) (by rw [hn]; nofun)
  have hafter : ∀ a k,
      clientDue { u with initializeParams := params, client := .accounts } a k = [] ∧
      noticeDue { u with initializeParams := params, client := .accounts } a k = [] :=
    noDues nofun (by rw [show (_ : Router).notice = u.notice from rfl, hn]; nofun)
  refine hi.talk (fun a k _ hkept => ⟨fun h => ?_, fun h => ?_⟩) (fun a k h => ?_) nofun hi.flag
    fun h => absurd hn h
  · exact (h.elim (fun h => h (hafter a k).1) fun h => h (hafter a k).2).elim
  · have hpromised := hkept.allowed h
    rw [hc, promised_eq (hbefore a k)] at hpromised
    obtain ⟨hsent, hown⟩ := List.append_eq_nil_iff.mp hpromised
    rw [promised_eq (hafter a k)]
    change _ ∨ _
    rw [show sentTo { u with initializeParams := params, client := .accounts } k = [] from hsent]
    exact ownDue_initialize u hinitialized params .accounts hown
  · exact (h.elim (fun h => h (hafter a k).1) fun h => h (hafter a k).2).elim

theorem HandshakeInv.clientInitialized (hi : HandshakeInv u) (hc : u.client = .responded)
    (hn : u.notice = .unsent) :
    HandshakeInv { u with initialized := true, notice := .accounts } := by
  have hbefore : ∀ a k, clientDue u a k = [] ∧ noticeDue u a k = [] :=
    noDues (by rw [hc]; nofun) (by rw [hn]; nofun)
  have hafter : ∀ a k,
      clientDue { u with initialized := true, notice := .accounts } a k = [] ∧
      noticeDue { u with initialized := true, notice := .accounts } a k = [] :=
    noDues (by rw [show (_ : Router).client = u.client from rfl, hc]; nofun) nofun
  refine hi.talk (fun a k _ hkept => ⟨fun h => ?_, fun h => ?_⟩) (fun a k h => ?_)
    (fun h => ?_) ⟨nofun, nofun⟩ fun _ => hc
  · exact (h.elim (fun h => h (hafter a k).1) fun h => h (hafter a k).2).elim
  · have hpromised := hkept.allowed h
    rw [hc, hn, promised_eq (hbefore a k)] at hpromised
    rw [promised_eq (hafter a k)]
    have hfan : clientFanout u.client = .sent := by rw [hc]; rfl
    change Allowed (clientFanout u.client) .accounts _ _ (sentTo u k ++ _)
    rw [hfan]
    change _ ∨ _
    rcases ownDue_initialized u a (hi.flag.mpr hn) .accounts with hown | ⟨hown, hown'⟩
    · rw [hown]
      exact .inl hpromised
    · rw [hown] at hpromised
      rw [hown', List.append_left_eq_self.mp hpromised]
      exact .inr rfl
  · exact (h.elim (fun h => h (hafter a k).1) fun h => h (hafter a k).2).elim
  · rw [hc] at h
    cases h

theorem ready_iff {frame : Frame} {e : GoString × ℕ} : ready u frame e = true ↔
    (u.starts[e.1]?).any failing = true ∨ (ownDue u e.1 = [] ∧ frame ∉ sentTo u e.2) := by
  simp [ready]

/-- The client's `initialize` takes its snapshot of the table. -/
theorem HandshakeInv.askEntries (hi : HandshakeInv u) {listed : List GoString}
    (hc : u.client = .children listed) (hn : u.notice = .unsent)
    (hguard : ordered u .goClient = true) :
    HandshakeInv { u with client := .asking (u.entries listed) ∅ ∅ } := by
  have hbefore : ∀ a k, clientDue u a k = [] ∧ noticeDue u a k = [] :=
    noDues (by rw [hc]; nofun) (by rw [hn]; nofun)
  have hready : ∀ a k, u.children[a]? = some k → if a ∈ listed then
      ready u .initializeRequest (a, k) = true else u.initializeParams ≠ [] := by
    intro a k hk
    rw [ordered, hc] at hguard
    have h := List.all_eq_true.mp hguard (a, k)
      (Std.ExtTreeMap.mem_toList_iff_getElem?_eq_some.mpr hk)
    split
    · rwa [if_pos ‹_›] at h
    · rw [if_neg ‹_›] at h
      simpa using h
  have hdue : ∀ a k, clientDue { u with client := .asking (u.entries listed) ∅ ∅ } a k =
      if (u.entries listed)[a]? = some k then [.initializeRequest] else [] := fun a k => rfl
  have hnotice : ∀ a k, noticeDue { u with client := .asking (u.entries listed) ∅ ∅ } a k = [] :=
    fun a k => (hbefore a k).2
  have hentry : ∀ a k, clientDue { u with client := .asking (u.entries listed) ∅ ∅ } a k ≠ [] ∨
      noticeDue { u with client := .asking (u.entries listed) ∅ ∅ } a k ≠ [] →
      u.children[a]? = some k ∧ a ∈ listed := by
    intro a k h
    rw [hnotice, hdue] at h
    refine (entries_eq_some u a k listed).mp (by_contra fun hnone => ?_)
    rw [if_neg hnone] at h
    exact h.elim (fun h => h rfl) fun h => h rfl
  refine hi.talk (fun a k hk hkept => ⟨fun h => ?_, fun h => ?_⟩) (fun a k h => (hentry a k h).1)
    nofun hi.flag fun h => absurd hn h
  · obtain ⟨_, hlisted⟩ := hentry a k h
    have hr := hready a k hk
    rw [if_pos hlisted] at hr
    exact (ready_iff.mp hr).elim ownDue_failing fun h => h.1
  · have hpromised := hkept.allowed h
    rw [hc, promised_eq (hbefore a k)] at hpromised
    unfold promised
    rw [hnotice, hdue, List.append_nil]
    change Allowed .sent (noticeFanout u.notice) _ _ (sentTo u k ++ ownDue u a ++ _)
    rw [hn]
    have hr := hready a k hk
    by_cases hlisted : a ∈ listed
    · rw [if_pos hlisted] at hr
      obtain ⟨hown, hsent⟩ := (ready_iff.mp hr).resolve_left (by rw [show _ = false from h]; nofun)
      rw [if_pos ((entries_eq_some u a k listed).mpr ⟨hk, hlisted⟩), hown, List.append_nil]
      rw [hown, List.append_nil] at hpromised
      rcases hpromised with hone | ⟨hnone, _⟩
      · rw [hone] at hsent
        exact absurd (List.mem_singleton_self _) hsent
      · rw [hnone]
        rfl
    · rw [if_neg hlisted] at hr
      rw [if_neg fun h => hlisted ((entries_eq_some u a k listed).mp h).2, List.append_nil]
      exact hpromised.resolve_right fun h => h.2.elim hlisted hr

theorem HandshakeInv.goClient (hi : HandshakeInv u) (htable : TableInv v)
    (hguard : ordered u .goClient = true) (h : u.goClient = some v) : HandshakeInv v := by
  have hquiet : u.client ≠ .responded → u.notice = .unsent := fun h =>
    by_contra fun hn => h (hi.responded hn)
  unfold Router.goClient at h
  split at h
  · rename_i hc
    cases h
    have hn := hquiet (by rw [hc]; nofun)
    have hbefore : ∀ a k, clientDue u a k = [] ∧ noticeDue u a k = [] :=
      noDues (by rw [hc]; nofun) (by rw [hn]; nofun)
    have hafter : ∀ a k, clientDue { u with client := .children u.accounts } a k = [] ∧
        noticeDue { u with client := .children u.accounts } a k = [] :=
      fun a k => ⟨rfl, (hbefore a k).2⟩
    refine hi.talk (fun a k hk hkept => ⟨fun h => ?_, fun h => ?_⟩) (fun a k h => ?_) nofun hi.flag
      fun h => absurd hn h
    · exact (h.elim (fun h => h (hafter a k).1) fun h => h (hafter a k).2).elim
    · have hpromised := hkept.allowed h
      rw [hc, promised_eq (hbefore a k)] at hpromised
      rw [promised_eq (hafter a k)]
      have hstored := hi.table.stored a (.inl (by rw [hk]; rfl))
      exact hpromised.symm.imp_right fun hnone => ⟨hnone, .inl hstored⟩
    · exact (h.elim (fun h => h (hafter a k).1) fun h => h (hafter a k).2).elim
  · rename_i listed hc
    cases h
    exact hi.askEntries hc (hquiet (by rw [hc]; nofun)) hguard
  · rename_i todo awaiting failed hc
    split at h <;> cases h
    rename_i hempty
    have hn := hquiet (by rw [hc]; nofun)
    refine hi.frame htable (fun _ _ h => h) rfl rfl rfl (.refl _) (fun _ => rfl) (by rw [hc]; rfl)
      (fun a k => ?_) rfl (fun _ _ => rfl) fun h => absurd hn h
    have htodo := (Bool.and_eq_true_iff.mp hempty).1
    rw [Std.ExtTreeMap.isEmpty_iff] at htodo
    unfold clientDue
    rw [hc, htodo]
    simp
  · rename_i failed child hc
    cases h
    have hn := hquiet (by rw [hc]; nofun)
    refine hi.frame htable (fun _ _ h => h) rfl rfl rfl (Evolves.closeChild u child)
      (fun _ => sentTo_modify fun _ => rfl) (by rw [hc]; rfl) (fun a k => ?_) rfl (fun _ _ => rfl)
      fun h => absurd hn h
    unfold clientDue
    rw [hc]
  · rename_i failed hc
    split at h <;> cases h
    have hn := hquiet (by rw [hc]; nofun)
    refine hi.frame htable (fun _ _ h => h) rfl rfl rfl (.refl _) (fun _ => rfl) (by rw [hc]; rfl)
      (fun a k => ?_) rfl (fun _ _ => rfl) fun _ => rfl
    unfold clientDue
    rw [hc]
  · cases h
  · cases h

theorem erase_entry_iff {entries : GoMap ℕ} {id a : GoString} {child k : ℕ}
    (hchild : entries[id]? = some child) (hpair : ¬(id = a ∧ child = k)) :
    (entries.erase id)[a]? = some k ↔ entries[a]? = some k := by
  rw [getElem?_erase_eq]
  by_cases ha : id = a
  · subst ha
    rw [if_pos rfl, hchild]
    exact iff_of_false nofun fun h => hpair ⟨rfl, Option.some.inj h⟩
  · rw [if_neg ha]

theorem HandshakeInv.ask (hi : HandshakeInv u) (htable : TableInv v) (h : u.ask id ok = some v) :
    HandshakeInv v := by
  unfold Router.ask at h
  split at h
  · rename_i todo awaiting failed hc
    obtain ⟨child, hchild, rfl⟩ := Option.map_eq_some_iff.mp h
    have hn : u.notice = .unsent := by_contra fun hn => by
      have h := hi.responded hn
      rw [hc] at h
      cases h
    have hnotice : ∀ a k, noticeDue u a k = [] := fun a k => by rw [noticeDue, hn]
    have hbefore : ∀ a k, clientDue u a k = if todo[a]? = some k then [.initializeRequest] else [] :=
      fun a k => by rw [clientDue, hc]
    have hasks : ∀ client, (∃ awaiting failed, client = .asking (todo.erase id) awaiting failed) →
        TableInv { u.send child .initializeRequest with client } →
        HandshakeInv { u.send child .initializeRequest with client } := by
      rintro _ ⟨awaiting', failed', rfl⟩ htable
      have hafter : ∀ a k, clientDue { u.send child .initializeRequest with
          client := .asking (todo.erase id) awaiting' failed' } a k =
          if (todo.erase id)[a]? = some k then [.initializeRequest] else [] := fun a k => rfl
      have hdue : clientDue u id child ++ noticeDue u id child = [.initializeRequest] := by
        rw [hnotice, hbefore, if_pos hchild, List.append_nil]
      refine hi.sendDue htable hdue ⟨?_, hnotice id child⟩ (fun a k hpair => ?_)
        (fun a k _ => rfl) rfl rfl rfl rfl rfl (by rw [hc]; rfl) rfl fun h => absurd hn h
      · rw [hafter, getElem?_erase_eq, if_pos rfl, if_neg nofun]
      · rw [hafter, hbefore]
        exact if_congr (erase_entry_iff hchild hpair) rfl rfl
    refine hasks _ ?_ htable
    split
    · exact ⟨_, _, rfl⟩
    · exact ⟨_, _, rfl⟩
  · cases h

theorem HandshakeInv.answer (hi : HandshakeInv u) (htable : TableInv v)
    (h : u.answer id ok = some v) : HandshakeInv v := by
  unfold Router.answer at h
  split at h
  · rename_i todo awaiting failed hc
    obtain ⟨child, _, rfl⟩ := Option.map_eq_some_iff.mp h
    refine hi.frame htable (fun _ _ h => h) rfl rfl rfl (.refl _) (fun _ => rfl) (by rw [hc]; rfl)
      (fun a k => ?_) rfl (fun _ _ => rfl) fun h => ?_
    · unfold clientDue
      rw [hc]
    · have h := hi.responded h
      rw [hc] at h
      cases h
  · cases h

theorem HandshakeInv.dropFailed (hi : HandshakeInv u) (htable : TableInv v)
    (h : u.dropFailed id = some v) : HandshakeInv v := by
  unfold Router.dropFailed at h
  split at h
  · rename_i failed hc
    obtain ⟨child, _, rfl⟩ := Option.map_eq_some_iff.mp h
    refine hi.frame htable (removed_sub u id child) rfl rfl rfl (.refl _) (fun _ => rfl)
      (by rw [hc]; rfl) (fun a k => ?_) rfl (fun _ _ => rfl) fun h => ?_
    · unfold clientDue
      rw [hc]
    · have h := hi.responded h
      rw [hc] at h
      cases h
  · cases h

/-- The notification `initialized` takes its snapshot of the table. -/
theorem HandshakeInv.notifyEntries (hi : HandshakeInv u) {listed : List GoString}
    (hn : u.notice = .children listed) (hc : u.client = .responded)
    (hguard : ordered u .goNotice = true) :
    HandshakeInv { u with notice := .sending (u.entries listed) } := by
  have hbefore : ∀ a k, clientDue u a k = [] ∧ noticeDue u a k = [] :=
    noDues (by rw [hc]; nofun) (by rw [hn]; nofun)
  have hready : ∀ a k, (u.entries listed)[a]? = some k →
      ready u .initializedNotice (a, k) = true := by
    intro a k hk
    rw [ordered, hn] at hguard
    exact List.all_eq_true.mp hguard (a, k) (Std.ExtTreeMap.mem_toList_iff_getElem?_eq_some.mpr hk)
  have hclient : ∀ a k, clientDue { u with notice := .sending (u.entries listed) } a k = [] :=
    fun a k => (hbefore a k).1
  have hdue : ∀ a k, noticeDue { u with notice := .sending (u.entries listed) } a k =
      if (u.entries listed)[a]? = some k then [.initializedNotice] else [] := fun a k => rfl
  have hentry : ∀ a k, clientDue { u with notice := .sending (u.entries listed) } a k ≠ [] ∨
      noticeDue { u with notice := .sending (u.entries listed) } a k ≠ [] →
      (u.entries listed)[a]? = some k := by
    intro a k h
    rw [hclient, hdue] at h
    refine by_contra fun hnone => ?_
    rw [if_neg hnone] at h
    exact h.elim (fun h => h rfl) fun h => h rfl
  refine hi.talk (fun a k hk hkept => ⟨fun h => ?_, fun h => ?_⟩)
    (fun a k h => ((entries_eq_some u a k listed).mp (hentry a k h)).1)
    (fun h => by rw [hc] at h; cases h)
    ⟨fun h => by (rw [hi.flag, hn] at h; cases h), nofun⟩ fun _ => hc
  · exact (ready_iff.mp (hready a k (hentry a k h))).elim ownDue_failing fun h => h.1
  · have hpromised := hkept.allowed h
    rw [hc, hn, promised_eq (hbefore a k)] at hpromised
    unfold promised
    rw [hclient, hdue, List.append_nil]
    change Allowed (clientFanout u.client) .sent _ _ (sentTo u k ++ ownDue u a ++ _)
    rw [hc]
    by_cases hlisted : a ∈ listed
    · have hchild := (entries_eq_some u a k listed).mpr ⟨hk, hlisted⟩
      obtain ⟨hown, hsent⟩ := (ready_iff.mp (hready a k hchild)).resolve_left
        (by rw [show _ = false from h]; nofun)
      rw [if_pos hchild, hown, List.append_nil]
      rw [hown, List.append_nil] at hpromised
      rcases hpromised with hfull | ⟨hone, _⟩
      · rw [hfull] at hsent
        simp at hsent
      · rw [hone]
        rfl
    · rw [if_neg fun h => hlisted ((entries_eq_some u a k listed).mp h).2, List.append_nil]
      exact hpromised.resolve_right fun h => hlisted h.2

theorem HandshakeInv.goNotice (hi : HandshakeInv u) (htable : TableInv v)
    (hguard : ordered u .goNotice = true) (h : u.goNotice = some v) : HandshakeInv v := by
  unfold Router.goNotice at h
  split at h
  · rename_i hn
    cases h
    have hc := hi.responded (by rw [hn]; nofun)
    have hbefore : ∀ a k, clientDue u a k = [] ∧ noticeDue u a k = [] :=
      noDues (by rw [hc]; nofun) (by rw [hn]; nofun)
    have hafter : ∀ a k, clientDue { u with notice := .children u.accounts } a k = [] ∧
        noticeDue { u with notice := .children u.accounts } a k = [] :=
      fun a k => ⟨(hbefore a k).1, rfl⟩
    refine hi.talk (fun a k hk hkept => ⟨fun h => ?_, fun h => ?_⟩) (fun a k h => ?_)
      (fun h => by rw [hc] at h; cases h)
      ⟨fun h => by (rw [hi.flag, hn] at h; cases h), nofun⟩ fun _ => hc
    · exact (h.elim (fun h => h (hafter a k).1) fun h => h (hafter a k).2).elim
    · have hpromised := hkept.allowed h
      rw [hc, hn, promised_eq (hbefore a k)] at hpromised
      rw [promised_eq (hafter a k)]
      change Allowed (clientFanout u.client) (.children u.accounts) _ _ (sentTo u k ++ ownDue u a)
      rw [hc]
      have hstored := hi.table.stored a (.inl (by rw [hk]; rfl))
      exact hpromised.symm.imp_right fun hone => ⟨hone, hstored⟩
    · exact (h.elim (fun h => h (hafter a k).1) fun h => h (hafter a k).2).elim
  · rename_i listed hn
    cases h
    exact hi.notifyEntries hn (hi.responded (by rw [hn]; nofun)) hguard
  · rename_i entries hn
    split at h <;> cases h
    rename_i hempty
    refine hi.frame htable (fun _ _ h => h) rfl rfl rfl (.refl _) (fun _ => rfl) rfl
      (fun _ _ => rfl) (by rw [hn]; rfl) (fun a k => ?_) fun _ => hi.responded (by rw [hn]; nofun)
    unfold noticeDue
    rw [hn, Std.ExtTreeMap.isEmpty_iff.mp hempty]
    simp
  · cases h
  · cases h

theorem HandshakeInv.notify (hi : HandshakeInv u) (htable : TableInv v)
    (h : u.notify id = some v) : HandshakeInv v := by
  unfold Router.notify at h
  split at h
  · rename_i entries hn
    obtain ⟨child, hchild, rfl⟩ := Option.map_eq_some_iff.mp h
    have hc := hi.responded (by rw [hn]; nofun)
    have hclient : ∀ a k, clientDue u a k = [] := fun a k => by rw [clientDue, hc]
    have hbefore : ∀ a k, noticeDue u a k =
        if entries[a]? = some k then [.initializedNotice] else [] :=
      fun a k => by rw [noticeDue, hn]
    have hafter : ∀ a k, noticeDue { u.send child .initializedNotice with
        notice := .sending (entries.erase id) } a k =
        if (entries.erase id)[a]? = some k then [.initializedNotice] else [] := fun a k => rfl
    have hdue : clientDue u id child ++ noticeDue u id child = [.initializedNotice] := by
      rw [hclient, hbefore, if_pos hchild, List.nil_append]
    refine hi.sendDue htable hdue ⟨hclient id child, ?_⟩ (fun a k _ => rfl)
      (fun a k hpair => ?_) rfl rfl rfl rfl rfl rfl (by rw [hn]; rfl) fun _ => hc
    · rw [hafter, getElem?_erase_eq, if_pos rfl, if_neg nofun]
    · rw [hafter, hbefore]
      exact if_congr (erase_entry_iff hchild hpair) rfl rfl
  · cases h

theorem HandshakeInv.step {l : Action} (hi : HandshakeInv u)
    (h : Guarded Ordered (Fires step) u l v) : HandshakeInv v := by
  obtain ⟨hguard, h⟩ := h
  have htable := hi.table.step h
  cases l with
  | addAccount id =>
    simp only [Fires, ChildStarts.step] at h
    split at h <;> cases h
    exact hi.quiet htable (fun _ _ h => h) rfl rfl rfl (.refl _) (fun _ => rfl) rfl rfl
  | start id enabled =>
    simp only [Fires, ChildStarts.step] at h
    split at h <;> cases h
    rename_i hidle
    refine hi.setStart (some (.check enabled)) htable (fun k hk => ?_)
      (fun _ h => by cases h) fun _ h => by cases h
    have hkept := hi.kept id k hk
    have hbefore : ownDue u id = [] := by rw [ownDue, hidle.2]; rfl
    have hafter : ownDue { u with starts := u.starts.insert id (.check enabled) } id = [] := by
      rw [ownDue, getElem?_insert_eq, if_pos rfl]
      rfl
    refine ⟨fun _ => hafter, fun _ => ?_⟩
    have hpromised := hkept.allowed (by rw [hidle.2]; rfl)
    unfold promised at hpromised ⊢
    rw [hbefore] at hpromised
    exact hafter ▸ hpromised
  | goStart id ok => exact hi.goStart hguard h
  | exit child =>
    obtain ⟨p, _, rfl⟩ := Option.map_eq_some_iff.mp h
    exact hi.quiet htable (fun _ _ h => h) rfl rfl rfl
      (.modify u child (fun _ => rfl) (fun _ _ => rfl) fun _ h => h)
      (fun _ => sentTo_modify fun _ => rfl) rfl rfl
  | monitor child =>
    obtain ⟨p, _, _, rfl⟩ := monitor_cases h
    exact hi.removeChildIfCurrent p.account child
  | clientInitialize params =>
    obtain rfl | ⟨hc, rfl⟩ := clientInitialize_cases h
    · exact hi
    · exact hi.clientInitialize hc params
  | goClient => exact hi.goClient htable hguard h
  | ask id ok => exact hi.ask htable h
  | answer id ok => exact hi.answer htable h
  | dropFailed id => exact hi.dropFailed htable h
  | clientInitialized =>
    obtain rfl | ⟨hc, hn, rfl⟩ := clientInitialized_cases h
    · exact hi
    · exact hi.clientInitialized hc hn
  | goNotice => exact hi.goNotice htable hguard h
  | notify id => exact hi.notify htable h
  | close =>
    simp only [Fires, ChildStarts.step] at h
    split at h <;> cases h
    exact hi.quiet htable (fun _ _ h => h) rfl rfl rfl (.refl _) (fun _ => rfl) rfl rfl
  | goClose =>
    simp only [Fires, ChildStarts.step, Router.goClose] at h
    split at h
    · cases h
      exact hi.quiet htable (fun _ _ h => h) rfl rfl rfl (.refl _) (fun _ => rfl) rfl rfl
    · cases h
      exact hi.quiet htable (fun _ _ h => h) rfl rfl rfl (.refl _) (fun _ => rfl) rfl rfl
    · cases h
      exact hi.quiet htable (fun a k h => by simp at h) rfl rfl rfl (.refl _) (fun _ => rfl) rfl rfl
    · split at h <;> cases h
      exact hi.quiet htable (fun _ _ h => h) rfl rfl rfl (.refl _) (fun _ => rfl) rfl rfl
    · cases h
    · cases h
  | closeEntry id =>
    simp only [Fires, ChildStarts.step, Router.closeEntry] at h
    split at h
    · obtain ⟨child, _, rfl⟩ := Option.map_eq_some_iff.mp h
      exact hi.quiet htable (fun _ _ h => h) rfl rfl rfl (Evolves.closeChild u child)
        (fun _ => sentTo_modify fun _ => rfl) rfl rfl
    · cases h

theorem init_handshake (accounts : List GoString) : HandshakeInv (.init accounts) where
  table := init_table accounts
  kept := fun a k hk => by simp [Router.init] at hk
  fresh := fun a k hs => by simp [Router.init] at hs
  closes := fun a k hs => by simp [Router.init] at hs
  dueOwner := fun a k h => absurd rfl (h.elim (fun h => h) fun h => h)
  unset := fun _ => rfl
  flag := ⟨fun _ => rfl, fun _ => rfl⟩
  responded := fun h => absurd rfl h

theorem HandshakeInv.initializedOnce (hi : HandshakeInv u) : InitializedOnce u := by
  intro hdone id k hk
  unfold completed at hdone
  split at hdone
  · rename_i hc hn
    have hnone : u.starts[id]? = none := by
      rw [Std.ExtTreeMap.isEmpty_iff.mp hdone]
      exact Std.ExtTreeMap.getElem?_empty
    have hpromised := (hi.kept id k hk).allowed (by rw [hnone]; rfl)
    rw [promised_eq (noDues (by rw [hc]; nofun) (by rw [hn]; nofun) id k), ownDue, hnone, hc,
      hn] at hpromised
    exact (List.append_nil _).symm.trans hpromised
  · cases hdone

/-- In a run in which both fan-outs find their children ready, every registered child is
initialized exactly once and then notified exactly once. -/
theorem ordered_runs_initialize_once {accounts : List GoString} {ls : List Action}
    (h : Runs (Guarded Ordered (Fires step)) (.init accounts) ls u) : InitializedOnce u :=
  (h.invariant (init_handshake accounts) fun _ _ _ hi => hi.step).initializedOnce

def go (id : GoString) (n : ℕ) : List Action := List.replicate n (.goStart id true)

def twoAccounts : Router := .init [lit "a", lit "b"]

/-- The client's `initialize` up to its snapshot. -/
def initializes : List Action := [.clientInitialize (lit "{}"), .goClient, .goClient]

/-- The rest of `initialize` for a snapshot with the child of `a`. -/
def responds : List Action :=
  [.ask (lit "a") true, .answer (lit "a") true, .goClient, .goClient]

/-- The child of `a` runs when the client initializes, and the child of `b` is started
later. -/
theorem ordered_runs_initialize_once_late :
    ∃ u, InitializedOnce u ∧ completed u = true ∧ u.children[lit "b"]? = some 1 := by
  have h : (exec (guard Ordered step) twoAccounts
      (.start (lit "a") true :: go (lit "a") 6 ++ initializes ++ responds ++
        .start (lit "b") true :: go (lit "b") 8 ++
        [.clientInitialized, .goNotice, .goNotice, .notify (lit "a"), .notify (lit "b"),
          .goNotice])).any
        (fun u => completed u = true ∧ u.children[lit "b"]? = some 1) = true := by
    decide +kernel
  obtain ⟨u, hr, hu⟩ := guarded_runs_of_exec_any h
  exact ⟨u, ordered_runs_initialize_once hr, of_decide_eq_true hu⟩

/-- A start registers its child, the client's `initialize` stores the parameters and finds
the child in the table, and then the start reads the parameters. -/
theorem start_replays_initialize_of_fanout :
    ∃ ls u, Runs (Fires step) twoAccounts ls u ∧ ¬ InitializedOnce u := by
  have h : (exec step twoAccounts
      (.start (lit "a") true :: go (lit "a") 4 ++ initializes ++ go (lit "a") 4 ++ responds ++
        [.clientInitialized, .goNotice, .goNotice, .notify (lit "a"), .goNotice])).any
        (fun u => completed u = true ∧ u.children[lit "a"]? = some 0 ∧ sentTo u 0 =
          [.initializeRequest, .initializeRequest, .initializedNotice]) = true := by
    decide +kernel
  obtain ⟨u, hr, hu⟩ := runs_of_exec_any h
  obtain ⟨hdone, hchild, hsent⟩ := of_decide_eq_true hu
  refine ⟨_, u, hr, fun honce => ?_⟩
  have hone := honce hdone _ _ hchild
  rw [hsent] at hone
  cases hone

end SubscriptionRouter.ChildHandshake
