import Mathlib
import SubscriptionRouter.PendingRoutes
import SubscriptionRouter.StoreState
import SubscriptionRouter.WrittenJson

set_option autoImplicit false

/-!
# Plugin requests for one account

The renderer marks a plugin request with the account it is for. `routeExistingRequest` is
to take the marker out before a child sees the request; a request without a usable marker
goes to the owner of its thread or to the controller. Params are given as they are written:
the decoder replaces what in the names of members is no character, and keeps the values.
-/
namespace SubscriptionRouter.ScopedRequests
open GoText JsonText Messages JsonValues PendingRoutes StoreState Tallies WrittenJson

structure Request where
  id : GoString
  method : GoString
  params : Option Json

def scopedAccountParameter : GoString := lit "codexMuxAccountId"

/-- `json.Unmarshal` into `map[string]json.RawMessage`. -/
def decodeNames (ms : List (GoString × Json)) : GoMap Json := settle (ms.map fun m => (received m.1, m.2))

/-- The account that a request is marked for, and its params without the marker. -/
def scopedPluginRequest (method : GoString) (params : Option Json) : Option (GoString × Json) :=
  if method ∉ accountScopedPluginMethods then none
  else match params with
    | some (.object ms) => match (decodeNames ms)[scopedAccountParameter]? with
      | some (.string accountID) =>
        if received accountID = [] then none
        else some (received accountID, .object ((decodeNames ms).erase scopedAccountParameter).toList)
      | _ => none
    | _ => none

/-- `threadIDFromParams` of a document. -/
def threadID (params : Option Json) : GoString :=
  match params.map (mapStrings received) with
  | some (.object ms) =>
    if decodesToAnyMembers ms then
      ((stringMember (lit "threadId") ms).orElse fun _ => stringMember (lit "thread_id") ms).getD []
    else []
  | _ => []

theorem threadID_written (params : RawMessage) : threadIDFromParams params = threadID (written params) := by
  unfold threadIDFromParams threadID
  rewrite [parse_eq]
  rfl

/-- What decides whether a request reaches a child. -/
structure Children where
  closing : Bool
  running : GoString → Bool
  pending : Bool
  sendError : GoString → Option GoString

def forward (c : Children) (accountID : GoString) (message : Request) : Except GoString Unit :=
  if c.closing then .error (lit "router is shutting down")
  else if !c.running accountID then .error (lit "account " ++ accountID ++ lit " is unavailable")
  else if c.pending then
    .error (lit "request ID " ++ requestIDKey message.id ++ lit " is already pending")
  else match c.sendError accountID with
    | some error => .error error
    | none => .ok ()

inductive Outcome where
  | sent (accountID : GoString) (params : Option Json)
  | rejected (code : ℤ) (message : GoString)
  /-- `routeTurnStart` goes on with the turn. -/
  | turnStart (threadID accountID : GoString)

def forwardOrReject (c : Children) (accountID : GoString) (message : Request) : Outcome :=
  match forward c accountID message with
  | .ok () => .sent accountID message.params
  | .error text => .rejected (-32023) text

/-- The owner of the thread that the params name, else the controller. -/
def accountFor (s : Store) (message : Request) : GoString :=
  let owner := if threadID message.params = [] then []
    else (s.threadOwner (threadID message.params)).getD []
  if owner = [] then (s.controller.map Account.id).getD [] else owner

def routeToOwner (s : Store) (c : Children) (message : Request) : Outcome :=
  let accountID := accountFor s message
  if accountID = [] then .rejected (-32022) (lit "no controller account is configured")
  else if message.method = lit "turn/start" ∧ threadID message.params ≠ [] then
    .turnStart (threadID message.params) accountID
  else forwardOrReject c accountID message

def routeExistingRequest (s : Store) (c : Children) (message : Request) : Outcome :=
  match scopedPluginRequest message.method message.params with
  | some (scopedAccountID, cleanedParams) =>
    if (s.account scopedAccountID).any Account.enabled then
      forwardOrReject c scopedAccountID { message with params := some cleanedParams }
    else routeToOwner s c message
  | none => routeToOwner s c message

/-! ## The marker -/

def marker (params : Option Json) : Option Json :=
  match params with
  | some (.object ms) => (settle ms)[scopedAccountParameter]?
  | _ => none

/-- No child sees the marker: a marked request is rejected, or it is sent to the account it
names with its other members. -/
structure StripsOrRejects (message : Request) (o : Outcome) : Prop where
  stripped : ∀ accountID params, o = .sent accountID params → marker params = none
  named : marker message.params ≠ none → (∃ code text, o = .rejected code text) ∨
    ∃ accountID ms cleaned, message.params = some (.object ms) ∧
      (settle ms)[scopedAccountParameter]? = some (.string accountID) ∧
      o = .sent accountID (some (.object cleaned)) ∧
      settle cleaned = (settle ms).erase scopedAccountParameter

/-- The marker names an enabled account, as it is read. -/
def Usable (s : Store) (params : Option Json) (accountID : GoString) : Prop :=
  ∃ named, marker params = some (.string named) ∧ accountID = received named ∧ accountID ≠ [] ∧
    (s.account accountID).any Account.enabled = true

/-- The names of the members and the account that the marker names consist of characters. -/
def Readable (params : Option Json) : Prop :=
  (∀ ms, params = some (.object ms) → ∀ m ∈ ms, Characters m.1) ∧
    ∀ accountID, marker params = some (.string accountID) → Characters accountID

/-- The request cannot reach the account it would be sent to without its marker. -/
def Unreachable (s : Store) (c : Children) (message : Request) : Prop :=
  accountFor s message = [] ∨ ∃ text, forward c (accountFor s message) message = .error text

theorem forwardOrReject_cases (c : Children) (accountID : GoString) (message : Request) :
    (forward c accountID message = .ok () ∧
      forwardOrReject c accountID message = .sent accountID message.params) ∨
    ∃ text, forward c accountID message = .error text ∧
      forwardOrReject c accountID message = .rejected (-32023) text := by
  unfold forwardOrReject
  cases h : forward c accountID message with
  | ok => exact .inl ⟨rfl, rfl⟩
  | error text => exact .inr ⟨text, rfl, rfl⟩

theorem routeToOwner_cases {s : Store} {c : Children} {message : Request}
    (hmethod : message.method ∈ accountScopedPluginMethods) :
    (Unreachable s c message ∧ ∃ code text, routeToOwner s c message = .rejected code text) ∨
    (¬ Unreachable s c message ∧
      routeToOwner s c message = .sent (accountFor s message) message.params) := by
  have hturn : ¬ (message.method = lit "turn/start" ∧ threadID message.params ≠ []) := by
    rintro ⟨he, _⟩
    rw [he] at hmethod
    exact absurd hmethod (by decide)
  unfold routeToOwner
  dsimp only
  by_cases hnone : accountFor s message = []
  · rw [if_pos hnone]
    exact .inl ⟨.inl hnone, _, _, rfl⟩
  · rw [if_neg hnone, if_neg hturn]
    rcases forwardOrReject_cases c (accountFor s message) message with
      ⟨hok, hsent⟩ | ⟨text, herror, hrejected⟩
    · refine .inr ⟨?_, hsent⟩
      rintro (h | ⟨text, h⟩)
      · exact hnone h
      · rw [hok] at h
        cases h
    · exact .inl ⟨.inr ⟨text, herror⟩, _, _, hrejected⟩

theorem received_eq_parameter {name : GoString} :
    received name = scopedAccountParameter ↔ name = scopedAccountParameter := by
  constructor
  · intro h
    by_cases hname : Characters name
    · rwa [received_of_characters hname] at h
    · have hreplaced := mem_received (not_not.mp hname)
      rw [h] at hreplaced
      exact absurd hreplaced (by decide)
  · rintro rfl
    exact received_of_characters (by decide)

theorem decodeNames_marker (ms : List (GoString × Json)) :
    (decodeNames ms)[scopedAccountParameter]? = marker (some (.object ms)) := by
  have hwritten := settle_map id id ms scopedAccountParameter
  simp only [id, Prod.mk.eta, List.map_id'] at hwritten
  rw [marker, hwritten]
  refine (settle_map received id ms scopedAccountParameter).trans ?_
  simp only [received_eq_parameter]
  rfl

theorem decodeNames_eq_iff (ms : List (GoString × Json)) :
    (decodeNames ms).erase scopedAccountParameter = (settle ms).erase scopedAccountParameter ↔
      ∀ m ∈ ms, Characters m.1 := by
  constructor
  · intro h m hm
    by_cases hmarker : scopedAccountParameter = m.1
    · rw [← hmarker]
      decide
    · obtain ⟨v, hv⟩ := exists_settle_of_mem hm
      have hdecoded := congrArg (fun n : GoMap Json => n[m.1]?) h
      simp only [getElem?_erase_eq, if_neg hmarker] at hdecoded
      obtain ⟨n, hn, hname⟩ := List.mem_map.mp (mem_of_settle (hdecoded.trans hv))
      rw [← (Prod.mk.inj hname).1]
      exact characters_received n.1
  · intro h
    have hnames : (ms.map fun m => (received m.1, m.2)) = ms := by
      refine (List.map_congr_left fun m hm => ?_).trans (List.map_id ms)
      rw [received_of_characters (h m hm)]
      rfl
    rw [decodeNames, hnames]

theorem scopedPluginRequest_some {method : GoString} {params : Option Json} {accountID : GoString}
    {cleaned : Json} (h : scopedPluginRequest method params = some (accountID, cleaned)) :
    ∃ ms named, params = some (.object ms) ∧ accountID ≠ [] ∧ marker params = some (.string named) ∧
      accountID = received named ∧
      cleaned = .object ((decodeNames ms).erase scopedAccountParameter).toList := by
  unfold scopedPluginRequest at h
  split at h
  · cases h
  · split at h
    · rename_i ms
      split at h
      · rename_i named hmarker
        split at h
        · cases h
        · rename_i hne
          cases h
          exact ⟨ms, named, rfl, hne, (decodeNames_marker ms).symm.trans hmarker, rfl, rfl⟩
      · cases h
    · cases h

theorem scopedPluginRequest_usable {s : Store} {method : GoString} {params : Option Json}
    {accountID : GoString} (hmethod : method ∈ accountScopedPluginMethods)
    (h : Usable s params accountID) :
    ∃ cleaned, scopedPluginRequest method params = some (accountID, cleaned) := by
  obtain ⟨named, hmarker, rfl, hne, _⟩ := h
  cases params with
  | none => cases hmarker
  | some v =>
    cases v with
    | object ms =>
      rw [scopedPluginRequest, if_neg (not_not.mpr hmethod), decodeNames_marker, hmarker]
      exact ⟨_, if_neg hne⟩
    | _ => cases hmarker

/-- A usable marker: the request goes to the account that it names, if it can be sent. -/
theorem routeExistingRequest_usable {s : Store} {c : Children} {message : Request}
    {accountID : GoString} (hmethod : message.method ∈ accountScopedPluginMethods)
    (h : Usable s message.params accountID) :
    StripsOrRejects message (routeExistingRequest s c message) ↔
      Readable message.params ∨ ∃ text, forward c accountID message = .error text := by
  obtain ⟨cleaned, hscoped⟩ := scopedPluginRequest_usable hmethod h
  obtain ⟨ms, named, hparams, _, hmarker, hnamed, rfl⟩ := scopedPluginRequest_some hscoped
  have hroute : routeExistingRequest s c message = forwardOrReject c accountID { message with
      params := some (.object ((decodeNames ms).erase scopedAccountParameter).toList) } := by
    rw [routeExistingRequest, hscoped]
    exact if_pos h.choose_spec.2.2.2
  have hreadable : Readable message.params ↔ (∀ m ∈ ms, Characters m.1) ∧ Characters named := by
    rw [Readable, hparams] at *
    constructor
    · intro h
      exact ⟨h.1 ms rfl, h.2 named hmarker⟩
    · rintro ⟨hnames, hcharacters⟩
      refine ⟨fun ms' he => ?_, fun accountID' he => ?_⟩
      · cases he
        exact hnames
      · rw [hmarker] at he
        cases he
        exact hcharacters
  rw [hroute]
  rcases forwardOrReject_cases c accountID { message with
      params := some (.object ((decodeNames ms).erase scopedAccountParameter).toList) } with
    ⟨hok, hsent⟩ | ⟨text, herror, hrejected⟩
  · rw [hsent, or_iff_left, hreadable]
    · constructor
      · intro hstrips
        have hmarked : marker message.params ≠ none := by
          rw [hmarker]
          exact Option.some_ne_none _
        rcases hstrips.named hmarked with ⟨_, _, he⟩ | ⟨id, ms', cleaned, hparams', hid, he, hcleaned⟩
        · cases he
        · rw [hparams] at hparams'
          cases hparams'
          cases he
          rw [settle_toList] at hcleaned
          refine ⟨(decodeNames_eq_iff ms).mp hcleaned, ?_⟩
          rw [hparams] at hmarker
          have hsame : accountID = named := Json.string.inj (Option.some.inj (hid.symm.trans hmarker))
          rw [← hsame, hnamed]
          exact characters_received named
      · rintro ⟨hnames, hcharacters⟩
        have hkept := (decodeNames_eq_iff ms).mpr hnames
        refine ⟨fun id params he => ?_, fun _ => .inr ⟨accountID, ms, _, hparams, ?_, rfl, ?_⟩⟩
        · cases he
          rw [marker, settle_toList, getElem?_erase_eq, if_pos rfl]
        · rw [hnamed, received_of_characters hcharacters, ← hmarker, hparams]
          rfl
        · rw [settle_toList, hkept]
    · rintro ⟨text, herror⟩
      have hok' : forward c accountID message = .ok () := hok
      rw [hok'] at herror
      cases herror
  · rw [hrejected]
    refine iff_of_true ⟨fun _ _ he => (by cases he), fun _ => .inl ⟨_, _, rfl⟩⟩ (.inr ⟨text, herror⟩)

/-- The marker is kept from the children, and all else reaches the account it names, exactly when
there is no marker, it names an enabled account and can be read or not be sent on, or it names none
and the request reaches no child. -/
theorem routeExistingRequest_iff (s : Store) (c : Children) {message : Request}
    (hmethod : message.method ∈ accountScopedPluginMethods) :
    StripsOrRejects message (routeExistingRequest s c message) ↔
      marker message.params = none ∨
      (∃ accountID, Usable s message.params accountID ∧
        (Readable message.params ∨ ∃ text, forward c accountID message = .error text)) ∨
      ((∀ accountID, ¬ Usable s message.params accountID) ∧ Unreachable s c message) := by
  by_cases husable : ∃ accountID, Usable s message.params accountID
  · obtain ⟨accountID, husable⟩ := husable
    rw [routeExistingRequest_usable hmethod husable]
    constructor
    · exact fun h => .inr (.inl ⟨accountID, husable, h⟩)
    · rintro (hnone | ⟨other, hother, h⟩ | ⟨hnot, _⟩)
      · obtain ⟨named, hmarker, _⟩ := husable
        rw [hnone] at hmarker
        cases hmarker
      · obtain ⟨named, hmarker, rfl, _⟩ := husable
        obtain ⟨named', hmarker', rfl, _⟩ := hother
        rw [hmarker] at hmarker'
        cases hmarker'
        exact h
      · exact absurd husable (hnot accountID)
  · have hnone := not_exists.mp husable
    have hroute : routeExistingRequest s c message = routeToOwner s c message := by
      unfold routeExistingRequest
      split
      · rename_i accountID cleaned hscoped
        obtain ⟨ms, named, _, hne, hmarker, hnamed, _⟩ := scopedPluginRequest_some hscoped
        exact if_neg fun henabled => hnone accountID ⟨named, hmarker, hnamed, hne, henabled⟩
      · rfl
    rw [hroute]
    rcases routeToOwner_cases (s := s) (c := c) hmethod with
      ⟨hunreachable, code, text, hrejected⟩ | ⟨hreachable, hsent⟩
    · refine iff_of_true ?_ (.inr (.inr ⟨hnone, hunreachable⟩))
      rw [hrejected]
      exact ⟨fun _ _ he => (by cases he), fun _ => .inl ⟨_, _, rfl⟩⟩
    · rw [hsent]
      constructor
      · intro h
        exact .inl (h.stripped _ _ rfl)
      · rintro (habsent | ⟨accountID, h, _⟩ | h)
        · refine ⟨fun id params he => ?_, fun hne => absurd habsent hne⟩
          cases he
          exact habsent
        · exact absurd h (hnone accountID)
        · exact absurd h.2 hreachable

/-! ## A store with a disabled account -/

def controllerAndSpare : Store :=
  ⟨[], [⟨lit "a", lit "A", [], true, true, 0⟩, ⟨lit "b", lit "B", [], false, false, 0⟩], ∅, .auto⟩

def allRunning : Children := ⟨false, fun _ => true, false, fun _ => none⟩

def listApps (accountID : GoString) : Request :=
  ⟨lit "1", lit "app/list",
    some (.object [(scopedAccountParameter, .string accountID), (lit "limit", .number (lit "5"))])⟩

theorem readable_listApps : Readable (listApps (lit "a")).params := by
  refine ⟨fun ms he => ?_, fun accountID he => ?_⟩
  · cases he
    decide
  · cases he
    decide

theorem routeExistingRequest_enabled :
    StripsOrRejects (listApps (lit "a"))
      (routeExistingRequest controllerAndSpare allRunning (listApps (lit "a"))) :=
  (routeExistingRequest_iff controllerAndSpare allRunning (by decide)).mpr
    (.inr (.inl ⟨lit "a", ⟨lit "a", rfl, rfl, by decide, by decide⟩, .inl readable_listApps⟩))

theorem disabled_marker_unscoped :
    routeExistingRequest controllerAndSpare allRunning (listApps (lit "b")) =
      routeToOwner controllerAndSpare allRunning (listApps (lit "b")) := by
  have hdisabled : (controllerAndSpare.account (lit "b")).any Account.enabled = false := by
    decide
  have hmarker : marker (listApps (lit "b")).params = some (.string (lit "b")) := rfl
  unfold routeExistingRequest
  split
  · rename_i accountID cleaned hscoped
    obtain ⟨ms, named, _, _, hnamed, rfl, _⟩ := scopedPluginRequest_some hscoped
    rw [hmarker] at hnamed
    cases hnamed
    rw [show received (lit "b") = lit "b" from rfl, hdisabled]
    rfl
  · rfl

/-- The controller gets a request that is marked for a disabled account, marker included. -/
theorem disabled_marker_forwarded :
    (listApps (lit "b")).method ∈ accountScopedPluginMethods ∧
      ¬ StripsOrRejects (listApps (lit "b"))
        (routeExistingRequest controllerAndSpare allRunning (listApps (lit "b"))) := by
  have hmethod : (listApps (lit "b")).method ∈ accountScopedPluginMethods := by decide
  refine ⟨hmethod, fun h => ?_⟩
  rw [disabled_marker_unscoped] at h
  have hforward : forward allRunning (accountFor controllerAndSpare (listApps (lit "b")))
      (listApps (lit "b")) = .ok () := rfl
  rcases routeToOwner_cases (s := controllerAndSpare) (c := allRunning) hmethod with
    ⟨hunreachable, _⟩ | ⟨_, hsent⟩
  · rcases hunreachable with hnone | ⟨text, herror⟩
    · revert hnone
      decide
    · rw [hforward] at herror
      cases herror
  · have hnone : marker (listApps (lit "b")).params = none := h.stripped _ _ hsent
    revert hnone
    decide

end SubscriptionRouter.ScopedRequests
