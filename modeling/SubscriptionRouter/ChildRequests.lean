import Mathlib
import SubscriptionRouter.Messages
import SubscriptionRouter.Tallies
import SubscriptionRouter.Transitions

set_option autoImplicit false

/-!
# Requests to one child

Every call of `Child.Request` has a channel of capacity one. It is sent to by the read
loop, once it has taken the call out of the pending table, or by the wait loop, which
holds the table's lock while it sends.
-/
namespace SubscriptionRouter.ChildRequests
open GoText Messages Tallies Transitions

inductive Response where
  | message (m : Message)
  | exited

inductive Result where
  | response (m : Message)
  | failed

inductive Stage where
  | register
  | send
  | waiting
  | removing
  | returned (result : Result)

/-- A call of `Request` with its channel. -/
structure Request where
  id : RawMessage
  stage : Stage
  buffer : List Response
  /-- How many values have been sent to the channel. -/
  sent : ℕ

def Request.key (r : Request) : GoString := requestIDKey r.id

inductive Reader where
  | idle
  | lookup (m : Message)
  | deliver (i : ℕ) (m : Message)
  | inbound (m : Message)

inductive Waiter where
  | running
  | close
  | lock
  | draining
  | deleting (key : GoString)
  | done

structure Child where
  sequence : ℕ
  requests : List Request
  /-- The calls by their keys. -/
  pending : GoMap ℕ
  reader : Reader
  waiter : Waiter
  closed : Bool

def Child.start : Child := ⟨0, [], ∅, .idle, .running, false⟩

/-- `pendingMu` is free; only the wait loop keeps it for more than one step. -/
def Waiter.unlocked : Waiter → Bool
  | .draining | .deleting _ => false
  | _ => true

def Child.update (c : Child) (i : ℕ) (r : Request) : Child :=
  { c with requests := c.requests.set i r }

def Request.offer (r : Request) (response : Response) : Option Request :=
  if r.buffer.length < 1 then some { r with buffer := r.buffer ++ [response], sent := r.sent + 1 }
  else none

/-- The steps of a call of `Request`. -/
inductive RequestStep where
  | register
  | send (ok : Bool)
  | receive
  | cancel
  | observeClosed
  | removePending

inductive ReadStep where
  | read (m : Message)
  | lookup
  | deliver
  | inbound

inductive WaitStep where
  | exit
  | close
  | lock
  | drain (key : GoString)
  | delete
  | unlock

def Child.request (c : Child) (i : ℕ) (r : Request) : RequestStep → Option Child
  | .register => match r.stage with
    | .register =>
      if c.waiter.unlocked then
        some { c.update i { r with stage := .send } with pending := c.pending.insert r.key i }
      else none
    | _ => none
  | .send ok => match r.stage with
    | .send => some (c.update i { r with stage := if ok then .waiting else .removing })
    | _ => none
  | .receive => match r.stage, r.buffer with
    | .waiting, .message m :: rest =>
      some (c.update i { r with stage := .returned (.response m), buffer := rest })
    | .waiting, .exited :: rest =>
      some (c.update i { r with stage := .returned .failed, buffer := rest })
    | _, _ => none
  | .cancel => match r.stage with
    | .waiting => some (c.update i { r with stage := .removing })
    | _ => none
  | .observeClosed => match r.stage with
    | .waiting => if c.closed then some (c.update i { r with stage := .removing }) else none
    | _ => none
  | .removePending => match r.stage with
    | .removing =>
      if c.waiter.unlocked then
        some { c.update i { r with stage := .returned .failed } with pending := c.pending.erase r.key }
      else none
    | _ => none

def Child.readLoop (c : Child) : ReadStep → Option Child
  | .read m => match c.reader with
    | .idle => some { c with reader := if m.method = [] ∧ m.id ≠ [] then .lookup m else .inbound m }
    | _ => none
  | .lookup => match c.reader with
    | .lookup m =>
      if c.waiter.unlocked then match c.pending[requestIDKey m.id]? with
        | some i => some { c with pending := c.pending.erase (requestIDKey m.id), reader := .deliver i m }
        | none => some { c with reader := .inbound m }
      else none
    | _ => none
  | .deliver => match c.reader with
    | .deliver i m => c.requests[i]?.bind fun r => (r.offer (.message m)).map fun r =>
      { c.update i r with reader := .idle }
    | _ => none
  | .inbound => match c.reader with
    | .inbound _ => some { c with reader := .idle }
    | _ => none

def Child.waitLoop (c : Child) : WaitStep → Option Child
  | .exit => match c.waiter with
    | .running => some { c with waiter := .close }
    | _ => none
  | .close => match c.waiter with
    | .close => some { c with closed := true, waiter := .lock }
    | _ => none
  | .lock => match c.waiter with
    | .lock => some { c with waiter := .draining }
    | _ => none
  | .drain key => match c.waiter with
    | .draining => c.pending[key]?.bind fun i => c.requests[i]?.bind fun r =>
      (r.offer .exited).map fun r => { c.update i r with waiter := .deleting key }
    | _ => none
  | .delete => match c.waiter with
    | .deleting key => some { c with pending := c.pending.erase key, waiter := .draining }
    | _ => none
  | .unlock => match c.waiter with
    | .draining => if c.pending.isEmpty then some { c with waiter := .done } else none
    | _ => none

inductive Action where
  | call
  | request (i : ℕ) (s : RequestStep)
  | readLoop (s : ReadStep)
  | waitLoop (s : WaitStep)

def step (c : Child) : Action → Option Child
  | .call =>
    let sequence := (c.sequence + 1) % 2 ^ 64
    some { c with
      sequence := sequence
      requests := c.requests ++
        [⟨stringID (lit "__codex_mux_" ++ itoaNat sequence), .register, [], 0⟩] }
  | .request i s => c.requests[i]?.bind fun r => c.request i r s
  | .readLoop s => c.readLoop s
  | .waitLoop s => c.waitLoop s

structure Correlated (c : Child) : Prop where
  once : ∀ r ∈ c.requests, r.sent ≤ 1
  /-- The read loop's delivery does not block. -/
  delivers : ∀ i m, c.reader = .deliver i m → ∃ d, step c (.readLoop .deliver) = some d
  /-- No delivery under the lock blocks. -/
  drains : ∀ (key : GoString) i, c.waiter = .draining → c.pending[key]? = some i →
    ∃ d, step c (.waitLoop (.drain key)) = some d
  own : ∀ r ∈ c.requests, ∀ m, r.stage = .returned (.response m) → requestIDKey m.id = r.key

/-! ## Who may still send to a channel -/

def Reader.holds (i : ℕ) : Reader → ℕ
  | .deliver j _ => if j = i then 1 else 0
  | _ => 0

/-- The wait loop has sent to call `i` and has yet to delete it. -/
def Waiter.answered (pending : GoMap ℕ) (i : ℕ) : Waiter → ℕ
  | .deleting key => if pending[key]? = some i then 1 else 0
  | _ => 0

def registered (pending : GoMap ℕ) (i : ℕ) : ℕ := entryCount (fun j => j = i) pending

def Child.keyed (c : Child) (i : ℕ) (key : GoString) : Prop :=
  ∃ r, c.requests[i]? = some r ∧ r.key = key

/-- What call `i` has in store: entries in the table, a delivery, values sent. -/
structure Tickets (c : Child) (i : ℕ) (r : Request) : Prop where
  atMostOne : registered c.pending i + c.reader.holds i + r.sent ≤ 1 + c.waiter.answered c.pending i
  unused : r.stage = .register → registered c.pending i + c.reader.holds i + r.sent = 0
  buffered : r.buffer.length ≤ r.sent
  own : ∀ m, .message m ∈ r.buffer ∨ r.stage = .returned (.response m) → requestIDKey m.id = r.key

structure Inv (c : Child) : Prop where
  tickets : ∀ i r, c.requests[i]? = some r → Tickets c i r
  entries : ∀ (key : GoString) i, c.pending[key]? = some i → c.keyed i key
  delivery : ∀ i m, c.reader = .deliver i m → c.keyed i (requestIDKey m.id)

section Steps
variable {c d : Child}

theorem answered_of_unlocked {w : Waiter} (h : w.unlocked = true) (pending : GoMap ℕ) (i : ℕ) :
    w.answered pending i = 0 := by
  cases w with
  | deleting key => cases h
  | _ => rfl

theorem answered_le_registered (w : Waiter) (pending : GoMap ℕ) (i : ℕ) :
    w.answered pending i ≤ registered pending i := by
  cases w with
  | deleting key =>
    simp only [Waiter.answered]
    split
    · rename_i hp
      rw [registered, entryCount_erase _ hp]
      simp
    · exact Nat.zero_le _
  | _ => exact Nat.zero_le _

theorem registered_erase_le (pending : GoMap ℕ) (key : GoString) (i : ℕ) :
    registered (pending.erase key) i ≤ registered pending i := entryCount_erase_le _ _ _

theorem registered_erase {pending : GoMap ℕ} {key : GoString} {j : ℕ} (h : pending[key]? = some j)
    (i : ℕ) : registered pending i = registered (pending.erase key) i + if j = i then 1 else 0 := by
  rw [registered, entryCount_erase _ h, registered]
  by_cases hj : j = i <;> simp [hj]

theorem registered_insert_le (pending : GoMap ℕ) (key : GoString) (j i : ℕ) :
    registered (pending.insert key j) i ≤ registered pending i + if j = i then 1 else 0 := by
  rw [registered, entryCount_insert_erase]
  refine Nat.add_le_add (entryCount_erase_le _ _ _) ?_
  by_cases hj : j = i <;> simp [hj]

theorem Tickets.transfer {i : ℕ} {r : Request} (h : Tickets c i r)
    (hheld : registered d.pending i + d.reader.holds i ≤ registered c.pending i + c.reader.holds i)
    (hanswered : registered d.pending i + d.reader.holds i + c.waiter.answered c.pending i ≤
      registered c.pending i + c.reader.holds i + d.waiter.answered d.pending i) : Tickets d i r where
  atMostOne := by
    have := h.atMostOne
    omega
  unused := fun hs => by
    have := h.unused hs
    omega
  buffered := h.buffered
  own := h.own

/-- A step that leaves every call alone. -/
theorem Inv.keep (hi : Inv c) (hreq : d.requests = c.requests)
    (hheld : ∀ i, registered d.pending i + d.reader.holds i ≤ registered c.pending i + c.reader.holds i)
    (hanswered : ∀ i, registered d.pending i + d.reader.holds i + c.waiter.answered c.pending i ≤
      registered c.pending i + c.reader.holds i + d.waiter.answered d.pending i)
    (hentries : ∀ (key : GoString) i, d.pending[key]? = some i → c.pending[key]? = some i)
    (hdelivery : ∀ i m, d.reader = .deliver i m → c.reader = .deliver i m ∨
      c.pending[requestIDKey m.id]? = some i) : Inv d where
  tickets := fun i r hr => (hi.tickets i r (hreq ▸ hr)).transfer (hheld i) (hanswered i)
  entries := fun key i h => by
    rw [Child.keyed, hreq]
    exact hi.entries key i (hentries key i h)
  delivery := fun i m h => by
    rw [Child.keyed, hreq]
    rcases hdelivery i m h with h | h
    · exact hi.delivery i m h
    · exact hi.entries _ i h

/-- A step of call `i`, or a delivery to it. -/
theorem Inv.change (hi : Inv c) {i : ℕ} {r r' : Request} (hr : c.requests[i]? = some r)
    (hreq : d.requests = c.requests.set i r') (hid : r'.id = r.id) (hself : Tickets d i r')
    (hheld : ∀ j ≠ i, registered d.pending j + d.reader.holds j ≤ registered c.pending j + c.reader.holds j)
    (hanswered : ∀ j ≠ i, registered d.pending j + d.reader.holds j + c.waiter.answered c.pending j ≤
      registered c.pending j + c.reader.holds j + d.waiter.answered d.pending j)
    (hentries : ∀ (key : GoString) j, d.pending[key]? = some j →
      c.pending[key]? = some j ∨ j = i ∧ key = r.key)
    (hdelivery : ∀ j m, d.reader = .deliver j m → c.reader = .deliver j m) : Inv d := by
  have hlt : i < c.requests.length := (List.getElem?_eq_some_iff.mp hr).1
  have hkeyed : ∀ j (key : GoString), c.keyed j key → d.keyed j key := by
    rintro j key ⟨rj, hj, hk⟩
    rw [Child.keyed, hreq]
    by_cases hij : i = j
    · subst hij
      obtain rfl := Option.some.inj (hr.symm.trans hj)
      exact ⟨r', List.getElem?_set_self hlt, (congrArg requestIDKey hid).trans hk⟩
    · exact ⟨rj, (List.getElem?_set_ne hij).trans hj, hk⟩
  refine ⟨fun j rj hj => ?_, fun key j h => ?_, fun j m h => hkeyed j _ (hi.delivery j m (hdelivery j m h))⟩
  · rw [hreq] at hj
    by_cases hij : i = j
    · subst hij
      rw [List.getElem?_set_self hlt] at hj
      exact Option.some.inj hj ▸ hself
    · rw [List.getElem?_set_ne hij] at hj
      exact (hi.tickets j rj hj).transfer (hheld j (Ne.symm hij)) (hanswered j (Ne.symm hij))
  · rcases hentries key j h with h | ⟨rfl, rfl⟩
    · exact hkeyed j key (hi.entries key j h)
    · exact hkeyed j r.key ⟨r, hr, rfl⟩

theorem registered_eq_zero {i : ℕ} (h : ∀ key : GoString, c.pending[key]? ≠ some i) :
    registered c.pending i = 0 := by
  refine List.countP_eq_zero.mpr fun e he => ?_
  obtain ⟨key, j⟩ := e
  have hj := Std.ExtTreeMap.mem_toList_iff_getElem?_eq_some.mp he
  simp only [decide_eq_true_eq]
  rintro rfl
  exact h key hj

theorem Inv.call (hi : Inv c) (sequence : ℕ) (id : RawMessage) :
    Inv { c with sequence := sequence, requests := c.requests ++ [⟨id, .register, [], 0⟩] } := by
  have hkeyed : ∀ i key, c.keyed i key → ∃ r,
      (c.requests ++ [⟨id, .register, [], 0⟩])[i]? = some r ∧ r.key = key := by
    rintro i key ⟨r, hr, hk⟩
    exact ⟨r, by rw [List.getElem?_append_left (List.getElem?_eq_some_iff.mp hr).1]; exact hr, hk⟩
  refine ⟨fun i r hr => ?_, fun key i h => hkeyed i key (hi.entries key i h),
    fun i m h => hkeyed i _ (hi.delivery i m h)⟩
  rcases Nat.lt_or_ge i c.requests.length with hlt | hge
  · rw [List.getElem?_append_left hlt] at hr
    exact (hi.tickets i r hr).transfer le_rfl le_rfl
  · have hfresh : ∀ key, ¬ c.keyed i key := by
      rintro key ⟨r', hr', _⟩
      exact absurd (List.getElem?_eq_some_iff.mp hr').1 (Nat.not_lt.mpr hge)
    have hregistered : registered c.pending i = 0 :=
      registered_eq_zero fun key h => hfresh key (hi.entries key i h)
    have hholds : c.reader.holds i = 0 := by
      unfold Reader.holds
      split
      · rename_i j m hreader
        exact if_neg fun hj => hfresh _ (hj ▸ hi.delivery j m hreader)
      · rfl
    have hnew : r = ⟨id, .register, [], 0⟩ := by
      rw [List.getElem?_append_right hge] at hr
      exact List.mem_singleton.mp (List.mem_of_getElem? hr)
    subst hnew
    refine ⟨?_, fun _ => ?_, le_refl _, fun m h => by simp at h⟩ <;> dsimp only <;> omega

/-- The call goes on to a later stage, and may take what is in its channel. -/
theorem Inv.restage (hi : Inv c) {i : ℕ} {r : Request} (hr : c.requests[i]? = some r)
    {stage : Stage} {buffer : List Response} (hstage : stage ≠ .register)
    (hbuffer : buffer.length ≤ r.buffer.length)
    (hown : ∀ m, .message m ∈ buffer ∨ stage = .returned (.response m) → .message m ∈ r.buffer) :
    Inv (c.update i { r with stage, buffer }) := by
  have h := hi.tickets i r hr
  have hself : Tickets c i { r with stage, buffer } :=
    ⟨h.atMostOne, fun hs => absurd hs hstage, hbuffer.trans h.buffered,
      fun m hm => h.own m (.inl (hown m hm))⟩
  exact hi.change hr rfl rfl (hself.transfer le_rfl le_rfl) (fun _ _ => le_rfl)
    (fun _ _ => le_rfl) (fun _ _ h => .inl h) fun _ _ h => h

theorem Inv.register (hi : Inv c) {i : ℕ} {r : Request} (hr : c.requests[i]? = some r)
    (hstage : r.stage = .register) (hfree : c.waiter.unlocked = true) :
    Inv { c.update i { r with stage := .send } with pending := c.pending.insert r.key i } := by
  have h := hi.tickets i r hr
  have hunused := h.unused hstage
  have hinsert := registered_insert_le c.pending r.key i
  have hanswered := answered_of_unlocked hfree
  refine hi.change hr rfl rfl ⟨?_, fun hs => (nomatch hs), h.buffered, ?_⟩ (fun j hj => ?_)
    (fun j hj => ?_) (fun key j hp => ?_) fun _ _ h => h
  · have := hinsert i
    dsimp only [Child.update]
    rw [if_pos rfl] at this
    omega
  · rintro m (hm | hm)
    · exact h.own m (.inl hm)
    · cases hm
  · have := hinsert j
    dsimp only [Child.update]
    rw [if_neg (Ne.symm hj)] at this
    omega
  · have := hinsert j
    dsimp only [Child.update]
    rw [if_neg (Ne.symm hj)] at this
    rw [hanswered, hanswered]
    omega
  · change (c.pending.insert r.key i)[key]? = some j at hp
    rw [Std.ExtTreeMap.getElem?_insert] at hp
    split at hp
    · rename_i hk
      cases hp
      exact .inr ⟨rfl, (Std.LawfulEqCmp.eq_of_compare hk).symm⟩
    · exact .inl hp

theorem Inv.request (hi : Inv c) {i : ℕ} {r : Request} (hr : c.requests[i]? = some r)
    {s : RequestStep} (h : c.request i r s = some d) : Inv d := by
  cases s with
  | register =>
    simp only [Child.request] at h
    split at h
    · split at h
      · cases h
        exact hi.register hr ‹_› ‹_›
      · cases h
    · cases h
  | send ok =>
    simp only [Child.request] at h
    split at h
    · cases h
      refine hi.restage hr (by cases ok <;> simp) le_rfl fun m hm => ?_
      rcases hm with hm | hm
      · exact hm
      · cases ok <;> cases hm
    · cases h
  | receive =>
    simp only [Child.request] at h
    split at h
    · rename_i m rest hstage hbuffer
      cases h
      refine hi.restage hr (by simp) (by simp [hbuffer]) fun m' hm => ?_
      rw [hbuffer]
      rcases hm with hm | hm
      · exact List.mem_cons_of_mem _ hm
      · cases hm
        exact List.mem_cons_self
    · rename_i rest hstage hbuffer
      cases h
      refine hi.restage hr (by simp) (by simp [hbuffer]) fun m' hm => ?_
      rw [hbuffer]
      rcases hm with hm | hm
      · exact List.mem_cons_of_mem _ hm
      · cases hm
    · cases h
  | cancel =>
    simp only [Child.request] at h
    split at h
    · cases h
      exact hi.restage hr (by simp) le_rfl (by simp)
    · cases h
  | observeClosed =>
    simp only [Child.request] at h
    split at h
    · split at h
      · cases h
        exact hi.restage hr (by simp) le_rfl (by simp)
      · cases h
    · cases h
  | removePending =>
    simp only [Child.request] at h
    split at h
    · split at h
      · rename_i hfree
        cases h
        have hremoved : Inv (c.update i { r with stage := .returned .failed }) :=
          hi.restage hr (by simp) le_rfl (by simp)
        have herase := registered_erase_le c.pending r.key
        refine hremoved.keep rfl (fun j => ?_) (fun j => ?_) (fun key j hp => getElem?_of_erase hp)
          fun _ _ h => .inl h
        · exact Nat.add_le_add_right (herase j) _
        · dsimp only [Child.update]
          rw [answered_of_unlocked hfree, answered_of_unlocked hfree]
          exact Nat.add_le_add_right (Nat.add_le_add_right (herase j) _) _
      · cases h
    · cases h

theorem Inv.sent_of_delivery (hi : Inv c) {i : ℕ} {m : Message} (h : c.reader = .deliver i m)
    {r : Request} (hr : c.requests[i]? = some r) : r.sent = 0 := by
  have hone := (hi.tickets i r hr).atMostOne
  have hle := answered_le_registered c.waiter c.pending i
  rw [h, Reader.holds, if_pos rfl] at hone
  omega

theorem Inv.sent_of_pending (hi : Inv c) {key : GoString} {i : ℕ} (hw : c.waiter = .draining)
    (h : c.pending[key]? = some i) {r : Request} (hr : c.requests[i]? = some r) : r.sent = 0 := by
  have hone := (hi.tickets i r hr).atMostOne
  have hentry := registered_erase h i
  rw [if_pos rfl] at hentry
  simp only [hw, Waiter.answered] at hone
  omega

theorem offer_of_sent {r : Request} (h : r.sent = 0) (hbuffer : r.buffer.length ≤ r.sent)
    (response : Response) :
    r.offer response = some { r with buffer := [response], sent := 1 } := by
  have hnil : r.buffer = [] := List.eq_nil_of_length_eq_zero (by omega)
  simp [Request.offer, hnil, h]

theorem Inv.lookup (hi : Inv c) {m : Message} (hreader : c.reader = .lookup m)
    (hfree : c.waiter.unlocked = true) {i : ℕ} (hp : c.pending[requestIDKey m.id]? = some i) :
    Inv { c with pending := c.pending.erase (requestIDKey m.id), reader := .deliver i m } := by
  have hmoved := registered_erase hp
  refine hi.keep rfl (fun j => ?_) (fun j => ?_) (fun key j h => getElem?_of_erase h) ?_
  · rw [hmoved j, hreader]
    exact le_rfl
  · dsimp only
    rw [hmoved j, hreader, answered_of_unlocked hfree, answered_of_unlocked hfree]
    exact le_rfl
  · rintro j m' h
    cases h
    exact .inr hp

theorem Inv.deliver (hi : Inv c) {i : ℕ} {m : Message} {r : Request}
    (hreader : c.reader = .deliver i m) (hr : c.requests[i]? = some r) :
    Inv { c.update i { r with buffer := [.message m], sent := 1 } with reader := .idle } := by
  have h := hi.tickets i r hr
  have hone := h.atMostOne
  rw [hreader, Reader.holds, if_pos rfl] at hone
  have hle := answered_le_registered c.waiter c.pending i
  refine hi.change hr rfl rfl ⟨?_, fun hs => ?_, le_refl _, fun m' hm => ?_⟩ (fun j hj => ?_)
    (fun j hj => ?_) (fun _ _ h => .inl h) fun _ _ h => (nomatch h)
  · dsimp only [Child.update, Reader.holds]
    omega
  · have := h.unused hs
    rw [hreader, Reader.holds, if_pos rfl] at this
    omega
  · rcases hm with hm | hm
    · obtain ⟨rfl⟩ := List.mem_singleton.mp hm
      obtain ⟨r', hr', hk⟩ := hi.delivery i m hreader
      obtain rfl := Option.some.inj (hr.symm.trans hr')
      exact hk.symm
    · exact h.own m' (.inr hm)
  · dsimp only [Child.update, Reader.holds]
    omega
  · dsimp only [Child.update, Reader.holds]
    omega

theorem Inv.drain (hi : Inv c) {key : GoString} {i : ℕ} {r : Request} (hw : c.waiter = .draining)
    (hp : c.pending[key]? = some i) (hr : c.requests[i]? = some r) :
    Inv { c.update i { r with buffer := [.exited], sent := 1 } with waiter := .deleting key } := by
  have h := hi.tickets i r hr
  have hone := h.atMostOne
  have hentry := registered_erase hp i
  rw [if_pos rfl] at hentry
  simp only [hw, Waiter.answered] at hone
  refine hi.change hr rfl rfl ⟨?_, fun hs => ?_, le_refl _, fun m hm => ?_⟩ (fun j hj => ?_)
    (fun j hj => ?_) (fun _ _ h => .inl h) fun _ _ h => h
  · dsimp only [Child.update, Waiter.answered]
    rw [if_pos hp]
    omega
  · have := h.unused hs
    omega
  · rcases hm with hm | hm
    · cases List.mem_singleton.mp hm
    · exact h.own m (.inr hm)
  · exact le_rfl
  · rw [hw]
    exact Nat.add_le_add_left (Nat.zero_le _) _

theorem Inv.turn (hi : Inv c) {reader : Reader} (h : ∀ i m, reader ≠ .deliver i m) :
    Inv { c with reader } := by
  have hnone : ∀ i, reader.holds i = 0 := by
    intro i
    cases reader with
    | deliver j m => exact absurd rfl (h j m)
    | _ => rfl
  refine hi.keep rfl (fun j => ?_) (fun j => ?_) (fun _ _ h => h) fun j m hd => absurd hd (h j m)
  · rw [hnone]
    exact Nat.add_le_add_left (Nat.zero_le _) _
  · rw [hnone]
    exact Nat.add_le_add_right (Nat.add_le_add_left (Nat.zero_le _) _) _

theorem Inv.readLoop (hi : Inv c) {s : ReadStep} (h : c.readLoop s = some d) : Inv d := by
  cases s with
  | read m =>
    simp only [Child.readLoop] at h
    split at h
    · cases h
      refine hi.turn fun i m' => ?_
      split <;> simp
    · cases h
  | lookup =>
    simp only [Child.readLoop] at h
    split at h
    · rename_i m hreader
      split at h
      · rename_i hfree
        split at h
        · rename_i i hp
          cases h
          exact hi.lookup hreader hfree hp
        · cases h
          exact hi.turn (by simp)
      · cases h
    · cases h
  | deliver =>
    simp only [Child.readLoop] at h
    split at h
    · rename_i i m hreader
      obtain ⟨r, hr, h⟩ := Option.bind_eq_some_iff.mp h
      rw [offer_of_sent (hi.sent_of_delivery hreader hr) (hi.tickets i r hr).buffered] at h
      cases h
      exact hi.deliver hreader hr
    · cases h
  | inbound =>
    simp only [Child.readLoop] at h
    split at h
    · cases h
      exact hi.turn (by simp)
    · cases h

theorem Inv.await (hi : Inv c) (h : ∀ key, c.waiter ≠ .deleting key) (waiter : Waiter) (closed : Bool) :
    Inv { c with waiter, closed } := by
  have hnone : ∀ j, c.waiter.answered c.pending j = 0 := by
    intro j
    cases hw : c.waiter with
    | deleting key => exact absurd hw (h key)
    | _ => rfl
  refine hi.keep rfl (fun _ => le_rfl) (fun j => ?_) (fun _ _ h => h) fun _ _ h => .inl h
  rw [hnone]
  exact Nat.add_le_add_left (Nat.zero_le _) _

theorem Inv.delete (hi : Inv c) {key : GoString} (hw : c.waiter = .deleting key) :
    Inv { c with pending := c.pending.erase key, waiter := .draining } := by
  refine hi.keep rfl (fun j => ?_) (fun j => ?_) (fun _ _ h => getElem?_of_erase h)
    fun _ _ h => .inl h
  · exact Nat.add_le_add_right (registered_erase_le _ _ _) _
  · simp only [hw, Waiter.answered]
    split
    · rename_i hp
      have := registered_erase hp j
      rw [if_pos rfl] at this
      omega
    · exact Nat.add_le_add_right (Nat.add_le_add_right (registered_erase_le _ _ _) _) _

theorem Inv.waitLoop (hi : Inv c) {s : WaitStep} (h : c.waitLoop s = some d) : Inv d := by
  cases s with
  | exit =>
    simp only [Child.waitLoop] at h
    split at h
    · rename_i hw
      cases h
      exact hi.await (by simp [hw]) _ _
    · cases h
  | close =>
    simp only [Child.waitLoop] at h
    split at h
    · rename_i hw
      cases h
      exact hi.await (by simp [hw]) _ _
    · cases h
  | lock =>
    simp only [Child.waitLoop] at h
    split at h
    · rename_i hw
      cases h
      exact hi.await (by simp [hw]) _ _
    · cases h
  | drain key =>
    simp only [Child.waitLoop] at h
    split at h
    · rename_i hw
      obtain ⟨i, hp, h⟩ := Option.bind_eq_some_iff.mp h
      obtain ⟨r, hr, h⟩ := Option.bind_eq_some_iff.mp h
      rw [offer_of_sent (hi.sent_of_pending hw hp hr) (hi.tickets i r hr).buffered] at h
      cases h
      exact hi.drain hw hp hr
    · cases h
  | delete =>
    simp only [Child.waitLoop] at h
    split at h
    · rename_i key hw
      cases h
      exact hi.delete hw
    · cases h
  | unlock =>
    simp only [Child.waitLoop] at h
    split at h
    · rename_i hw
      split at h
      · cases h
        exact hi.await (by simp [hw]) _ _
      · cases h
    · cases h

theorem Inv.step (hi : Inv c) {action : Action} (h : Fires step c action d) : Inv d := by
  cases action with
  | call =>
    cases h
    exact hi.call _ _
  | request i s =>
    obtain ⟨r, hr, h⟩ := Option.bind_eq_some_iff.mp h
    exact hi.request hr h
  | readLoop s => exact hi.readLoop h
  | waitLoop s => exact hi.waitLoop h

theorem Inv.correlated (hi : Inv c) : Correlated c where
  once := fun r hr => by
    obtain ⟨i, hi'⟩ := List.mem_iff_getElem?.mp hr
    have hone := (hi.tickets i r hi').atMostOne
    have hle := answered_le_registered c.waiter c.pending i
    omega
  delivers := fun i m h => by
    obtain ⟨r, hr, _⟩ := hi.delivery i m h
    have hoffer := offer_of_sent (hi.sent_of_delivery h hr) (hi.tickets i r hr).buffered (.message m)
    refine ⟨{ c.update i { r with buffer := [.message m], sent := 1 } with reader := .idle }, ?_⟩
    simp only [ChildRequests.step, Child.readLoop, h, hr, Option.bind_some, hoffer, Option.map_some]
  drains := fun key i hw hp => by
    obtain ⟨r, hr, _⟩ := hi.entries key i hp
    have hoffer := offer_of_sent (hi.sent_of_pending hw hp hr) (hi.tickets i r hr).buffered .exited
    refine ⟨{ c.update i { r with buffer := [.exited], sent := 1 } with waiter := .deleting key }, ?_⟩
    simp only [ChildRequests.step, Child.waitLoop, hw, hp, hr, Option.bind_some, hoffer,
      Option.map_some]
  own := fun r hr m hm => by
    obtain ⟨i, hi'⟩ := List.mem_iff_getElem?.mp hr
    exact (hi.tickets i r hi').own m (.inr hm)

end Steps

theorem inv_start : Inv Child.start where
  tickets := fun i r h => by simp [Child.start] at h
  entries := fun key i h => by simp [Child.start] at h
  delivery := fun i m h => nomatch h

theorem runs_stay_correlated {c : Child} {actions : List Action}
    (h : Runs (Fires step) Child.start actions c) : Correlated c :=
  (h.invariant inv_start fun _ _ _ hi hs => hi.step hs).correlated

def answerTwo : Message := { id := lit "\"__codex_mux_2\"" }

/-- Two calls, two responses to the second of them, and the end of the process. -/
def twoCalls : List Action :=
  [.call, .call, .request 0 .register, .request 1 .register, .request 0 (.send true),
    .request 1 (.send true), .readLoop (.read answerTwo), .readLoop .lookup, .readLoop .deliver,
    .request 1 .receive, .readLoop (.read answerTwo), .readLoop .lookup, .readLoop .inbound,
    .waitLoop .exit, .waitLoop .close, .waitLoop .lock,
    .waitLoop (.drain (lit "\"__codex_mux_1\"")), .waitLoop .delete, .waitLoop .unlock,
    .request 0 .receive]

theorem runs_stay_correlated_exit :
    ∃ c, Correlated c ∧ c.requests.map Request.sent = [1, 1] := by
  have h : (exec step Child.start twoCalls).any (fun c => c.requests.map Request.sent = [1, 1]) =
      true := by
    decide
  obtain ⟨c, hr, hc⟩ := runs_of_exec_any h
  exact ⟨c, runs_stay_correlated hr, of_decide_eq_true hc⟩

end SubscriptionRouter.ChildRequests
