import Mathlib
import SubscriptionRouter.StoreState
import SubscriptionRouter.WrittenJson

set_option autoImplicit false

/-!
# The threads of one account, page by page

`listAllThreads` sends `thread/list` to a child until a page has no further cursor. The
params are the client's, with the cursor and the limit replaced. A reply is given as what
the request and the decoder make of it.
-/
namespace SubscriptionRouter.ThreadPages
open GoText JsonText Messages JsonValues StoreState Tallies WrittenJson

variable {T : Type}

def threadListPageSize : ℕ := 100

def maximumThreadsPerAccount : ℕ := 2000

def maximumThreadListPages : ℕ := maximumThreadsPerAccount / threadListPageSize

inductive Reply (T : Type) where
  | failed (err : Error)
  | undecodable (err : Error)
  | page (data : List T) (nextCursor : Option GoString)

/-- The params of the requests that were sent, and what is returned. -/
structure Pages (T : Type) where
  requests : List Value
  threads : List T
  err : Option Error

/-- Writing to a nil map is a fault, which ends the router. -/
inductive Outcome (T : Type) where
  | fault
  | returned (p : Pages T)

def cursorParam (cursor : GoString) : Value := if cursor = [] then .null else .string cursor

/-- The loop, with so many pages left. -/
def listPages (params : GoMap Value) (replies : ℕ → Reply T) :
    ℕ → ℕ → List GoString → GoString → Pages T
  | 0, _, _, _ => ⟨[], [], some ⟨"thread history exceeded the per-account safety limit", []⟩⟩
  | left + 1, page, seenCursors, cursor =>
    let request := marshalMap (params.insert (lit "cursor") (cursorParam cursor))
    match replies page with
    | .failed err => ⟨[request], [], some err⟩
    | .undecodable err => ⟨[request], [], some (err.wrap "decode thread/list response: ")⟩
    | .page data none => ⟨[request], data, none⟩
    | .page data (some next) =>
      if next = [] then ⟨[request], data, none⟩
      else if next ∈ seenCursors then
        ⟨[request], data, some ⟨"app-server repeated thread/list cursor %q", [next]⟩⟩
      else
        let rest := listPages params replies left (page + 1) (next :: seenCursors) next
        ⟨request :: rest.requests, data ++ rest.threads, rest.err⟩

def pageThrough (params : GoMap Value) (replies : ℕ → Reply T) : Pages T :=
  listPages ((params.erase (lit "cursor")).insert (lit "limit") (.number threadListPageSize))
    replies maximumThreadListPages 0 [] []

/-- Absent params are the empty text. -/
def listAllThreads (originalParams : RawMessage) (replies : ℕ → Reply T) : Outcome T :=
  match unmarshalMap (parse originalParams) with
  | none => .returned (pageThrough ∅ replies)
  | some none => .fault
  | some (some params) => .returned (pageThrough params replies)

/-! ## What a listing is to do -/

def Reply.data : Reply T → List T
  | .page data _ => data
  | _ => []

def Reply.cursor : Reply T → Option GoString
  | .page _ next => next
  | _ => none

def cursorBefore (first : GoString) (replies : ℕ → Reply T) : ℕ → GoString
  | 0 => first
  | i + 1 => ((replies i).cursor).getD []

/-- The reply has a cursor that no reply before it had. -/
def Fresh (replies : ℕ → Reply T) (i : ℕ) : Prop :=
  ∃ next, (replies i).cursor = some next ∧ next ≠ [] ∧ ∀ j < i, (replies j).cursor ≠ some next

structure Listed (params : Option Json) (replies : ℕ → Reply T) (p : Pages T) : Prop where
  bounded : p.requests.length ≤ maximumThreadListPages
  carried : ∀ (i : ℕ) (request : Value), p.requests[i]? = some request →
    (∃ ms, request = .object ms) ∧ membersOf (some request) =
      ((membersOf (params.map valueOf)).insert (lit "limit") (.number threadListPageSize)).insert
        (lit "cursor") (cursorParam (cursorBefore [] replies i))
  concatenated : p.threads = (List.range p.requests.length).flatMap fun i => (replies i).data
  stops : ∀ i, i + 1 < p.requests.length → Fresh replies i

/-- Params that are not `null`, and whose members the listing can send on: they consist of
characters and of numbers that come back from `float64`, or none but the cursor and the limit
are there. -/
def Listable : Option Json → Prop
  | some .null => False
  | some (.object ms) =>
    if decodesToAnyMembers ms then
      ∀ name v, name ≠ lit "cursor" ∧ name ≠ lit "limit" →
        (settle (memberValues ms))[name]? = some v → Survives name v
    else ∀ name v, (settle (memberValues ms))[name]? = some v → name = lit "cursor" ∨ name = lit "limit"
  | _ => True

/-! ## The loop -/

theorem listPages_length (params : GoMap Value) (replies : ℕ → Reply T) (left page : ℕ)
    (seen : List GoString) (cursor : GoString) :
    (listPages params replies left page seen cursor).requests.length ≤ left := by
  induction left generalizing page seen cursor with
  | zero => exact Nat.zero_le 0
  | succ left ih =>
    rw [listPages]
    split
    · exact Nat.succ_le_succ (Nat.zero_le left)
    · exact Nat.succ_le_succ (Nat.zero_le left)
    · exact Nat.succ_le_succ (Nat.zero_le left)
    · split_ifs
      · exact Nat.succ_le_succ (Nat.zero_le left)
      · exact Nat.succ_le_succ (Nat.zero_le left)
      · exact Nat.succ_le_succ (ih _ _ _)

theorem listPages_succ (params : GoMap Value) (replies : ℕ → Reply T) (left page : ℕ)
    (seen : List GoString) (cursor : GoString) :
    let request := marshalMap (params.insert (lit "cursor") (cursorParam cursor))
    let p := listPages params replies (left + 1) page seen cursor
    (p.requests = [request] ∧ p.threads = (replies page).data) ∨
    ∃ next, (replies page).cursor = some next ∧ next ≠ [] ∧ next ∉ seen ∧
      let rest := listPages params replies left (page + 1) (next :: seen) next
      p.requests = request :: rest.requests ∧ p.threads = (replies page).data ++ rest.threads := by
  dsimp only
  rw [listPages]
  cases hreply : replies page with
  | failed err => exact .inl ⟨rfl, rfl⟩
  | undecodable err => exact .inl ⟨rfl, rfl⟩
  | page data next =>
    cases next with
    | none => exact .inl ⟨rfl, rfl⟩
    | some next =>
      dsimp only
      split_ifs with hempty hseen
      · exact .inl ⟨rfl, rfl⟩
      · exact .inl ⟨rfl, rfl⟩
      · exact .inr ⟨next, rfl, hempty, hseen, rfl, rfl⟩

theorem listPages_requests (params : GoMap Value) (replies : ℕ → Reply T) (left page : ℕ)
    (seen : List GoString) (cursor : GoString) (i : ℕ) (request : Value)
    (h : (listPages params replies left page seen cursor).requests[i]? = some request) :
    request = marshalMap (params.insert (lit "cursor")
      (cursorParam (cursorBefore cursor (fun j => replies (page + j)) i))) := by
  induction left generalizing page seen cursor i with
  | zero => simp [listPages] at h
  | succ left ih =>
    rcases listPages_succ params replies left page seen cursor with
      ⟨hrequests, _⟩ | ⟨next, hnext, _, _, hrequests, _⟩
    · rw [hrequests] at h
      cases i with
      | zero => exact (Option.some.inj h).symm
      | succ i => cases h
    · rw [hrequests] at h
      cases i with
      | zero => exact (Option.some.inj h).symm
      | succ i =>
        rw [ih (page + 1) (next :: seen) next i h]
        congr 3
        cases i with
        | zero => rw [cursorBefore, cursorBefore, Nat.add_zero, hnext, Option.getD_some]
        | succ i => rw [cursorBefore, cursorBefore, Nat.add_right_comm, Nat.add_assoc]

theorem listPages_threads (params : GoMap Value) (replies : ℕ → Reply T) (left page : ℕ)
    (seen : List GoString) (cursor : GoString) :
    (listPages params replies left page seen cursor).threads =
      (List.range (listPages params replies left page seen cursor).requests.length).flatMap
        fun i => (replies (page + i)).data := by
  induction left generalizing page seen cursor with
  | zero => rfl
  | succ left ih =>
    rcases listPages_succ params replies left page seen cursor with
      ⟨hrequests, hthreads⟩ | ⟨next, _, _, _, hrequests, hthreads⟩
    · rw [hrequests, hthreads]
      simp
    · rw [hrequests, hthreads, ih, List.length_cons, List.range_succ_eq_map, List.flatMap_cons,
        List.flatMap_map]
      simp only [Nat.add_zero, Nat.succ_eq_add_one, Nat.add_assoc, Nat.add_comm 1]

theorem listPages_stops (params : GoMap Value) (replies : ℕ → Reply T) (left page : ℕ)
    (seen : List GoString) (cursor : GoString) (i : ℕ)
    (h : i + 1 < (listPages params replies left page seen cursor).requests.length) :
    ∃ next, (replies (page + i)).cursor = some next ∧ next ≠ [] ∧ next ∉ seen ∧
      ∀ j < i, (replies (page + j)).cursor ≠ some next := by
  induction left generalizing page seen cursor i with
  | zero => simp [listPages] at h
  | succ left ih =>
    rcases listPages_succ params replies left page seen cursor with
      ⟨hrequests, _⟩ | ⟨next, hnext, hne, hseen, hrequests, _⟩
    · rw [hrequests, List.length_singleton] at h
      omega
    · rw [hrequests, List.length_cons] at h
      cases i with
      | zero => exact ⟨next, hnext, hne, hseen, fun j hj => absurd hj (Nat.not_lt_zero j)⟩
      | succ i =>
        obtain ⟨later, hlater, hlne, hlseen, hbefore⟩ :=
          ih (page + 1) (next :: seen) next i (by omega)
        rw [Nat.add_assoc, Nat.add_comm 1] at hlater
        refine ⟨later, hlater, hlne, fun hmem => hlseen (List.mem_cons_of_mem next hmem), fun j hj => ?_⟩
        cases j with
        | zero =>
          rw [Nat.add_zero, hnext]
          intro he
          exact hlseen (Option.some.inj he ▸ List.mem_cons_self)
        | succ j =>
          have hj' := hbefore j (by omega)
          rwa [Nat.add_assoc, Nat.add_comm 1] at hj'

/-! ## What is sent -/

/-- The members of a request, as they come back from `float64`. -/
theorem membersOf_request (m : GoMap Value) (cursor name : GoString) :
    (membersOf (some (marshalMap ((((m.map fun _ v => mapNumbers Float64.nearestFloat64 v).erase
      (lit "cursor")).insert (lit "limit") (.number threadListPageSize)).insert (lit "cursor")
        (cursorParam cursor)))))[name]? =
      if lit "cursor" = name then some (cursorParam cursor)
      else if lit "limit" = name then some (.number threadListPageSize)
      else (m[name]?).map fun v =>
        mapNumbers Float64.shortestDecimal (mapNumbers Float64.nearestFloat64 v) := by
  have hcursor : mapNumbers Float64.shortestDecimal (cursorParam cursor) = cursorParam cursor := by
    unfold cursorParam
    split <;> rfl
  have hlimit : Float64.shortestDecimal (threadListPageSize : ℤ) = (threadListPageSize : ℤ) :=
    Float64.shortestDecimal_int (by decide)
  rw [membersOf_marshalMap, Std.ExtTreeMap.getElem?_map, getElem?_insert_eq, getElem?_insert_eq,
    getElem?_erase_eq]
  split_ifs
  · rw [Option.map_some, hcursor]
  · rw [Option.map_some, mapNumbers]
    exact congrArg (fun q => some (Value.number q)) (by exact_mod_cast hlimit)
  · rw [Std.ExtTreeMap.getElem?_map, Option.map_map]
    rfl

/-- Paging with some members is as it should be exactly when they come back as the client's. -/
theorem listed_iff {params : Option Json} {client : GoMap Value}
    (hclient : membersOf (params.map valueOf) = client) (m : GoMap Value) (replies : ℕ → Reply T) :
    Listed params replies
        (pageThrough (m.map fun _ v => mapNumbers Float64.nearestFloat64 v) replies) ↔
      ∀ name, name ≠ lit "cursor" → name ≠ lit "limit" →
        ((m[name]?).map fun v => mapNumbers Float64.shortestDecimal
          (mapNumbers Float64.nearestFloat64 v)) = client[name]? := by
  constructor
  · intro h name hcursor hlimit
    obtain ⟨request, hrequest⟩ : ∃ request, (pageThrough (m.map fun _ v =>
        mapNumbers Float64.nearestFloat64 v) replies).requests[0]? = some request := by
      unfold pageThrough
      rcases listPages_succ _ replies 19 0 [] [] with ⟨hrequests, _⟩ | ⟨_, _, _, _, hrequests, _⟩
      · exact ⟨_, congrArg (fun l : List Value => l[0]?) hrequests⟩
      · exact ⟨_, congrArg (fun l : List Value => l[0]?) hrequests⟩
    obtain ⟨_, hcarried⟩ := h.carried 0 request hrequest
    have hname := congrArg (fun n : GoMap Value => n[name]?) hcarried
    rw [listPages_requests _ _ _ _ _ _ 0 request hrequest, membersOf_request, hclient,
      getElem?_insert_eq, getElem?_insert_eq, if_neg hcursor.symm, if_neg hlimit.symm,
      if_neg hcursor.symm, if_neg hlimit.symm] at hname
    exact hname
  · intro h
    refine ⟨listPages_length _ _ _ _ _ _, fun i request hrequest => ?_, ?_, fun i hi => ?_⟩
    · rw [listPages_requests _ _ _ _ _ _ i request hrequest]
      refine ⟨⟨_, rfl⟩, Std.ExtTreeMap.ext_getElem? fun name => ?_⟩
      rw [membersOf_request, hclient, getElem?_insert_eq, getElem?_insert_eq]
      simp only [Nat.zero_add]
      split_ifs with hcursor hlimit
      · rfl
      · rfl
      · exact h name (Ne.symm hcursor) (Ne.symm hlimit)
    · have hthreads := listPages_threads ((((m.map fun _ v => mapNumbers Float64.nearestFloat64 v).erase
        (lit "cursor")).insert (lit "limit") (.number threadListPageSize))) replies
        maximumThreadListPages 0 [] []
      simp only [Nat.zero_add] at hthreads
      exact hthreads
    · obtain ⟨next, hnext, hne, _, hbefore⟩ := listPages_stops _ _ _ _ _ _ i hi
      simp only [Nat.zero_add] at hnext hbefore
      exact ⟨next, hnext, hne, hbefore⟩

/-- The listing of an account is without a fault and as it should be exactly when the
client's params are listable, whatever the child replies. -/
theorem listAllThreads_iff (params : RawMessage) (replies : ℕ → Reply T) :
    (∃ p, listAllThreads params replies = .returned p ∧ Listed (written params) replies p) ↔
      Listable (written params) := by
  have hfresh : (∅ : GoMap Value) = (∅ : GoMap Value).map fun _ v =>
      mapNumbers Float64.nearestFloat64 v := by
    refine Std.ExtTreeMap.ext_getElem? fun name => ?_
    rw [Std.ExtTreeMap.getElem?_map, Std.ExtTreeMap.getElem?_empty]
    rfl
  rw [listAllThreads, parse_eq]
  generalize written params = document
  have hreturned : ∀ p, (∃ p', Outcome.returned p = .returned p' ∧ Listed document replies p') ↔
      Listed document replies p := by
    intro p
    exact ⟨fun ⟨_, he, hl⟩ => by cases he; exact hl, fun hl => ⟨p, rfl, hl⟩⟩
  -- Params that are no object have no members to carry.
  have hempty : membersOf (document.map valueOf) = ∅ →
      Listed document replies (pageThrough ∅ replies) := by
    intro hclient
    rw [hfresh, listed_iff hclient]
    intro name _ _
    rw [Std.ExtTreeMap.getElem?_empty]
    rfl
  cases document with
  | none =>
    exact iff_of_true ((hreturned _).mpr (hempty rfl)) trivial
  | some v =>
    cases v with
    | null =>
      refine iff_of_false ?_ id
      rintro ⟨_, he, _⟩
      cases he
    | object ms =>
      have hclient : membersOf ((some (Json.object ms)).map valueOf) = settle (memberValues ms) :=
        membersOf_valueOf ms
      rw [Option.map_some, mapStrings, unmarshalMap, decodesToAnyMembers_mapped, Listable]
      by_cases hfits : decodesToAnyMembers ms = true
      · rw [if_pos hfits, if_pos hfits]
        dsimp only
        rw [hreturned, listed_iff hclient, ← carried_iff fun name hname => ?_]
        · exact forall_congr' fun name => and_imp.symm
        · rcases not_and_or.mp hname with hcursor | hlimit
          · rw [not_not.mp hcursor]
            decide
          · rw [not_not.mp hlimit]
            decide
      · rw [if_neg hfits, if_neg hfits]
        dsimp only
        rw [hreturned, hfresh, listed_iff hclient]
        constructor
        · intro h name v hv
          by_contra hother
          obtain ⟨hcursor, hlimit⟩ := not_or.mp hother
          have hname := h name hcursor hlimit
          rw [hv] at hname
          simp at hname
        · intro h name hcursor hlimit
          cases hv : (settle (memberValues ms))[name]? with
          | none => simp
          | some v => exact absurd (h name v hv) (not_or.mpr ⟨hcursor, hlimit⟩)
    | _ =>
      exact iff_of_true ((hreturned _).mpr (hempty rfl)) trivial

def Outcome.firstMember (name : GoString) : Outcome T → Option Value
  | .fault => none
  | .returned p => (membersOf p.requests.head?)[name]?

def searchParams : RawMessage := lit "\x7b\"searchTerm\":\"\\ud800\"\x7d"

def datedParams : RawMessage := lit "\x7b\"archived\":true,\"since\":1e999\x7d"

/-- The params `null` stop the router, params with a number out of range are dropped, and an
unpaired surrogate is replaced. -/
theorem null_params_fault :
    listAllThreads (lit "null") (fun _ => Reply.page ([] : List Unit) none) = .fault ∧
      (¬ ∃ p, listAllThreads datedParams (fun _ => Reply.page ([] : List Unit) none) = .returned p ∧
        Listed (written datedParams) (fun _ => Reply.page ([] : List Unit) none) p) ∧
      ¬ ∃ p, listAllThreads searchParams (fun _ => Reply.page ([] : List Unit) none) = .returned p ∧
        Listed (written searchParams) (fun _ => Reply.page ([] : List Unit) none) p := by
  have hlost : ∀ (params : RawMessage) (name : GoString), name ≠ lit "cursor" → name ≠ lit "limit" →
      ((listAllThreads params fun _ => Reply.page ([] : List Unit) none).firstMember name).map texts ≠
        ((membersOf ((written params).map valueOf))[name]?).map texts →
      ¬ ∃ p, listAllThreads params (fun _ => Reply.page ([] : List Unit) none) = .returned p ∧
        Listed (written params) (fun _ => Reply.page ([] : List Unit) none) p := by
    rintro params name hcursor hlimit hne ⟨p, hp, hlisted⟩
    have hfirst : ∃ m, p = pageThrough m fun _ => Reply.page ([] : List Unit) none := by
      unfold listAllThreads at hp
      cases hparams : unmarshalMap (parse params) with
      | none =>
        rw [hparams] at hp
        exact ⟨∅, (Outcome.returned.inj hp).symm⟩
      | some decoded =>
        rw [hparams] at hp
        cases decoded with
        | none => cases hp
        | some m => exact ⟨m, (Outcome.returned.inj hp).symm⟩
    obtain ⟨m, rfl⟩ := hfirst
    have hcarried := congrArg (fun n : GoMap Value => (n[name]?).map texts) (hlisted.carried 0 _ rfl).2
    simp only [getElem?_insert_eq, if_neg hcursor.symm, if_neg hlimit.symm] at hcarried
    rw [hp] at hne
    exact hne hcarried
  exact ⟨rfl, hlost datedParams (lit "archived") (by decide) (by decide) (by decide),
    hlost searchParams (lit "searchTerm") (by decide) (by decide) (by decide)⟩

end SubscriptionRouter.ThreadPages
