import Mathlib
import SubscriptionRouter.StoreState

set_option autoImplicit false

/-!
# Listing threads

`thread/list` asks every running child for its threads, merges the listings and
persists the account of the copy it kept of each thread. Conversations are
sticky: a known owner is meant to keep its threads.
-/
namespace SubscriptionRouter.ThreadListing
open GoText JsonText StoreState

/-- A decoded JSON value; a JSON number is finite. -/
inductive Any where
  | string (text : GoString)
  | number (value : ℚ)
  /-- A null, a boolean, an array or an object, none of which the merge looks into. -/
  | other (value : Json)

abbrev Thread := GoMap Any

def stringField (value : Thread) (key : GoString) : GoString :=
  match value[key]? with
  | some (.string text) => text
  | _ => []

def numericField (value : Thread) : List GoString → ℚ
  | [] => 0
  | key :: keys => match value[key]? with
    | some (.number number) => number
    | _ => numericField value keys

def threadID (thread : Thread) : GoString := stringField thread (lit "id")

def threadTime (thread : Thread) : ℚ := numericField thread [lit "updatedAt", lit "createdAt"]

/-- The threads received from one account, and the error that cut the listing short. -/
structure Listing where
  threads : List Thread
  err : Option Error

structure ThreadListResult where
  index : ℕ
  accountID : GoString
  threads : List Thread
  err : Option Error

def childEntries (s : Store) (running : GoString → Bool) : List Account :=
  s.accounts.filter fun a => running a.id

/-- One result for each account with a running child, in the order of the accounts. -/
def orderedResults (s : Store) (running : GoString → Bool) (listing : ℕ → Listing) :
    List ThreadListResult :=
  (childEntries s running).mapIdx fun i a => ⟨i, a.id, (listing i).threads, (listing i).err⟩

/-! ## The merge -/

structure Candidate where
  accountID : GoString
  accountIndex : ℕ
  thread : Thread

def resultCandidates (result : ThreadListResult) : List Candidate :=
  result.threads.map fun thread => ⟨result.accountID, result.index, thread⟩

/-- Append a candidate to those of its thread; a thread without an id has none. -/
def addCandidate (byID : GoMap (List Candidate)) (c : Candidate) : GoMap (List Candidate) :=
  if threadID c.thread = [] then byID
  else byID.insert (threadID c.thread) ((byID[threadID c.thread]?).getD [] ++ [c])

def groupCandidates (results : List ThreadListResult) : GoMap (List Candidate) :=
  (results.flatMap resultCandidates).foldl addCandidate ∅

def newer (c selected : Candidate) : Bool :=
  threadTime selected.thread < threadTime c.thread ||
    threadTime c.thread = threadTime selected.thread && c.accountIndex < selected.accountIndex

/-- The persisted owner's copy, else a newest copy. -/
def selectCandidate (persistedOwner : Option GoString) (first : Candidate)
    (others : List Candidate) : Candidate :=
  match (first :: others).find? fun c => some c.accountID = persistedOwner with
  | some c => c
  | none => others.foldl (fun selected c => if newer c selected then c else selected) first

def chosenOwner (persistedOwner : Option GoString) : List Candidate → GoString
  | [] => []
  | first :: others => (selectCandidate persistedOwner first others).accountID

/-- The owners that `mergeThreadsDeterministically` returns. -/
def mergedOwners (s : Store) (results : List ThreadListResult) : GoMap GoString :=
  (groupCandidates results).map fun id candidates => chosenOwner (s.threadOwner id) candidates

/-- What `aggregateThreadList` does to the store: an error of the write is only published. -/
def aggregateThreadList (m : Machine) (running : GoString → Bool) (listing : ℕ → Listing) :
    Machine :=
  (m.setThreadOwners (mergedOwners m.store (orderedResults m.store running listing))).2

/-! ## What the merge chooses -/

def candidatesOf (results : List ThreadListResult) (id : GoString) : List Candidate :=
  (results.flatMap resultCandidates).filter fun c => threadID c.thread = id

def group (candidates : List Candidate) (id : GoString) : Option (List Candidate) :=
  if id = [] ∨ (candidates.filter fun c => threadID c.thread = id) = [] then none
  else some (candidates.filter fun c => threadID c.thread = id)

theorem addCandidate_group {byID : GoMap (List Candidate)} {seen : List Candidate}
    (h : ∀ id, byID[id]? = group seen id) (c : Candidate) (id : GoString) :
    (addCandidate byID c)[id]? = group (seen ++ [c]) id := by
  by_cases hc : threadID c.thread = []
  · rw [addCandidate, if_pos hc, h, group, group, List.filter_append]
    by_cases hid : id = []
    · rw [if_pos (.inl hid), if_pos (.inl hid)]
    · have hne : threadID c.thread ≠ id := fun he => hid (he.symm.trans hc)
      simp [hne]
  · rw [addCandidate, if_neg hc, Std.ExtTreeMap.getElem?_insert]
    by_cases hid : threadID c.thread = id
    · subst hid
      rw [if_pos Std.ReflCmp.compare_self, h, group, group, List.filter_append]
      by_cases hs : (seen.filter fun x => threadID x.thread = threadID c.thread) = []
      · simp [hc, hs]
      · simp [hc, hs]
    · rw [if_neg (fun he => hid (Std.LawfulEqCmp.eq_of_compare he)), h, group, group,
        List.filter_append]
      simp [hid]

theorem foldl_addCandidate_group (candidates seen : List Candidate)
    {byID : GoMap (List Candidate)} (h : ∀ id, byID[id]? = group seen id) (id : GoString) :
    (candidates.foldl addCandidate byID)[id]? = group (seen ++ candidates) id := by
  induction candidates generalizing byID seen with
  | nil => simpa using h id
  | cons c cs ih => simpa using ih (seen ++ [c]) (addCandidate_group h c)

theorem getElem?_groupCandidates (results : List ThreadListResult) (id : GoString) :
    (groupCandidates results)[id]? =
      if id = [] ∨ candidatesOf results id = [] then none else some (candidatesOf results id) :=
  foldl_addCandidate_group (results.flatMap resultCandidates) []
    (fun id => by simp [group]) id

theorem mem_candidatesOf {results : List ThreadListResult} {id : GoString} {c : Candidate} :
    c ∈ candidatesOf results id ↔ ∃ r ∈ results, ∃ thread ∈ r.threads,
      threadID thread = id ∧ c = ⟨r.accountID, r.index, thread⟩ := by
  simp only [candidatesOf, List.mem_filter, List.mem_flatMap, resultCandidates, List.mem_map,
    decide_eq_true_eq]
  constructor
  · rintro ⟨⟨r, hr, thread, ht, rfl⟩, hid⟩
    exact ⟨r, hr, thread, ht, hid, rfl⟩
  · rintro ⟨r, hr, thread, ht, hid, rfl⟩
    exact ⟨⟨r, hr, thread, ht, rfl⟩, hid⟩

theorem foldl_newer_mem (others : List Candidate) (first : Candidate) :
    others.foldl (fun selected c => if newer c selected then c else selected) first ∈
      first :: others := by
  induction others generalizing first with
  | nil => exact List.mem_cons_self
  | cons c cs ih =>
    rw [List.foldl_cons]
    rcases List.mem_cons.mp (ih (if newer c first then c else first)) with h | h
    · rw [h]
      split
      · exact List.mem_cons_of_mem _ List.mem_cons_self
      · exact List.mem_cons_self
    · exact List.mem_cons_of_mem _ (List.mem_cons_of_mem _ h)

theorem selectCandidate_mem (owner : Option GoString) (first : Candidate)
    (others : List Candidate) : selectCandidate owner first others ∈ first :: others := by
  unfold selectCandidate
  split
  · exact List.mem_of_find?_eq_some ‹_›
  · exact foldl_newer_mem others first

theorem chosenOwner_mem (owner : Option GoString) {l : List Candidate} (h : l ≠ []) :
    ∃ c ∈ l, chosenOwner owner l = c.accountID := by
  cases l with
  | nil => exact absurd rfl h
  | cons first others => exact ⟨_, selectCandidate_mem owner first others, rfl⟩

theorem chosenOwner_eq_owner {owner : GoString} {l : List Candidate}
    (h : ∃ c ∈ l, c.accountID = owner) : chosenOwner (some owner) l = owner := by
  obtain ⟨c, hc, ho⟩ := h
  cases l with
  | nil => cases hc
  | cons first others =>
    change (selectCandidate (some owner) first others).accountID = owner
    unfold selectCandidate
    split
    · rename_i found hf
      exact Option.some.inj (by simpa using List.find?_some hf)
    · rename_i hf
      rw [List.find?_eq_none] at hf
      exact absurd (by simp [ho]) (hf c hc)

theorem getElem?_mergedOwners (s : Store) (results : List ThreadListResult) (id : GoString) :
    (mergedOwners s results)[id]? = if id = [] ∨ candidatesOf results id = [] then none
      else some (chosenOwner (s.threadOwner id) (candidatesOf results id)) := by
  rw [mergedOwners, Std.ExtTreeMap.getElem?_map, getElem?_groupCandidates]
  split <;> rfl

theorem accountExists_of_result {s : Store} {running : GoString → Bool} {listing : ℕ → Listing}
    {r : ThreadListResult} (h : r ∈ orderedResults s running listing) :
    s.accountExists r.accountID = true := by
  obtain ⟨i, hi, rfl⟩ := List.mem_mapIdx.mp h
  have hmem : (childEntries s running)[i] ∈ s.accounts :=
    (List.mem_filter.mp (List.getElem_mem hi)).1
  exact List.any_eq_true.mpr ⟨_, hmem, by simp⟩

/-! ## Sticky owners -/

def Complete (results : List ThreadListResult) (accountID : GoString) : Prop :=
  ∃ r ∈ results, r.accountID = accountID ∧ r.err = none

def Received (results : List ThreadListResult) (accountID id : GoString) : Prop :=
  ∃ r ∈ results, r.accountID = accountID ∧ ∃ thread ∈ r.threads, threadID thread = id

def Listed (results : List ThreadListResult) (id : GoString) : Prop :=
  ∃ r ∈ results, ∃ thread ∈ r.threads, threadID thread = id

/-- A thread whose persisted owner errored, was cut short or was not asked keeps it. -/
def StickyOwners (m : Machine) (running : GoString → Bool) (listing : ℕ → Listing) : Prop :=
  ∀ id owner, m.store.threadOwner id = some owner →
    ¬ Complete (orderedResults m.store running listing) owner →
    (aggregateThreadList m running listing).store.threadOwner id = some owner

theorem listed_iff {results : List ThreadListResult} {id : GoString} :
    Listed results id ↔ candidatesOf results id ≠ [] := by
  rw [List.ne_nil_iff_exists_cons]
  constructor
  · rintro ⟨r, hr, thread, ht, hid⟩
    have hc := mem_candidatesOf.mpr ⟨r, hr, thread, ht, hid, rfl⟩
    exact List.exists_cons_of_ne_nil (List.ne_nil_of_mem hc)
  · rintro ⟨c, cs, h⟩
    obtain ⟨r, hr, thread, ht, hid, _⟩ :=
      mem_candidatesOf.mp (h ▸ List.mem_cons_self : c ∈ candidatesOf results id)
    exact ⟨r, hr, thread, ht, hid⟩

theorem received_iff {results : List ThreadListResult} {accountID id : GoString} :
    Received results accountID id ↔ ∃ c ∈ candidatesOf results id, c.accountID = accountID := by
  constructor
  · rintro ⟨r, hr, ha, thread, ht, hid⟩
    exact ⟨_, mem_candidatesOf.mpr ⟨r, hr, thread, ht, hid, rfl⟩, ha⟩
  · rintro ⟨c, hc, ha⟩
    obtain ⟨r, hr, thread, ht, hid, rfl⟩ := mem_candidatesOf.mp hc
    exact ⟨r, hr, ha, thread, ht, hid⟩

theorem merged_batch_rejected {s : Store} {running : GoString → Bool} {listing : ℕ → Listing}
    (h : checkAssignments s (mergedOwners s (orderedResults s running listing)).toList ≠ .ok ()) :
    ∃ id, id ≠ [] ∧ Listed (orderedResults s running listing) id ∧ validThreadID id = false := by
  by_contra hnone
  refine h (checkAssignments_ok_iff.mpr fun e he => ?_)
  obtain ⟨id, accountID⟩ := e
  rw [Std.ExtTreeMap.mem_toList_iff_getElem?_eq_some, getElem?_mergedOwners] at he
  split at he
  · cases he
  · rename_i hl
    obtain ⟨hid, hl⟩ := not_or.mp hl
    obtain ⟨c, hc, ha⟩ := chosenOwner_mem (s.threadOwner id) hl
    obtain ⟨r, hr, _, _, _, rfl⟩ := mem_candidatesOf.mp hc
    refine ⟨?_, ?_⟩
    · by_contra hv
      exact hnone ⟨id, hid, listed_iff.mpr hl, by simpa using hv⟩
    · rw [← Option.some.inj he, ha]
      exact accountExists_of_result hr

theorem rejected_of_invalid {s : Store} {results : List ThreadListResult} {id : GoString}
    (hid : id ≠ []) (hl : Listed results id) (hv : validThreadID id = false) :
    checkAssignments s (mergedOwners s results).toList ≠ .ok () := by
  intro hok
  have he := getElem?_mergedOwners s results id
  rw [if_neg (not_or.mpr ⟨hid, listed_iff.mp hl⟩)] at he
  have := (checkAssignments_ok_iff.mp hok _
    (Std.ExtTreeMap.mem_toList_iff_getElem?_eq_some.mpr he)).1
  rw [hv] at this
  cases this

/-- Listing threads keeps the owners whose listings are not complete exactly when
its batch is not committed, because a listed id is invalid or the write fails, or
each such owner of a listed thread did send that thread. -/
theorem sticky_owners_iff (m : Machine) (running : GoString → Bool) (listing : ℕ → Listing) :
    StickyOwners m running listing ↔
      (∃ id, id ≠ [] ∧ Listed (orderedResults m.store running listing) id ∧
        validThreadID id = false) ∨
      m.nextFails ∨
      ∀ id owner, id ≠ [] → Listed (orderedResults m.store running listing) id →
        m.store.threadOwner id = some owner →
        ¬ Complete (orderedResults m.store running listing) owner →
        Received (orderedResults m.store running listing) owner id := by
  constructor
  · intro hsticky
    by_contra hcon
    obtain ⟨hvalid, hcon⟩ := not_or.mp hcon
    obtain ⟨hwrite, hcon⟩ := not_or.mp hcon
    refine hcon fun id owner hid hl ho hc => ?_
    have hkept := hsticky id owner ho hc
    have hentry := getElem?_mergedOwners m.store (orderedResults m.store running listing) id
    rw [if_neg (not_or.mpr ⟨hid, listed_iff.mp hl⟩)] at hentry
    -- Committed or not, the owner chosen for the thread is the one it has.
    have hchosen : chosenOwner (m.store.threadOwner id)
        (candidatesOf (orderedResults m.store running listing) id) = owner := by
      rcases setThreadOwners_owners m (mergedOwners m.store (orderedResults m.store running listing))
        id with ⟨_, hr | hf | hsame⟩ | ⟨_, _, hnew⟩
      · exact absurd (merged_batch_rejected hr) hvalid
      · exact absurd hf hwrite
      · have h := hsame _ (Std.ExtTreeMap.mem_toList_iff_getElem?_eq_some.mpr hentry)
        rw [ho] at h
        rw [ho]
        exact h.symm
      · have h : (aggregateThreadList m running listing).store.threadOwner id = _ := hnew
        rw [hkept, hentry] at h
        exact (Option.some.inj h).symm
    obtain ⟨c, hc, ha⟩ := chosenOwner_mem (m.store.threadOwner id) (listed_iff.mp hl)
    exact received_iff.mpr ⟨c, hc, ha.symm.trans hchosen⟩
  · intro h id owner ho hc
    rcases setThreadOwners_owners m (mergedOwners m.store (orderedResults m.store running listing))
      id with ⟨hsame, _⟩ | ⟨hok, hf, hnew⟩
    · exact hsame.trans ho
    · change (aggregateThreadList m running listing).store.threadOwner id = _ at hnew
      rw [hnew, getElem?_mergedOwners]
      split
      · exact ho
      · rename_i hl
        obtain ⟨hid, hl⟩ := not_or.mp hl
        rcases h with ⟨id', hid', hl', hv⟩ | hfails | hreceived
        · exact absurd hok (rejected_of_invalid hid' hl' hv)
        · exact absurd hfails hf
        · have hr := received_iff.mp (hreceived id owner hid (listed_iff.mpr hl) ho hc)
          rw [ho, chosenOwner_eq_owner hr]
          rfl

/-- Account `a` still lists the thread `t`, and the listing of `b` fails. -/
def staleListing (i : ℕ) : Listing :=
  if i = 0 then ⟨[(∅ : Thread).insert (lit "id") (.string (lit "t"))], none⟩
  else ⟨[], some ⟨"context deadline exceeded", []⟩⟩

theorem partial_listing_moves_thread :
    ∃ m running listing, ¬ StickyOwners m running listing := by
  refine ⟨twoAccounts (lit "b"), fun _ => true, staleListing, fun h => ?_⟩
  have hkept := h (lit "t") (lit "b") (by decide) (by
    rintro ⟨r, hr, ha, he⟩
    obtain ⟨i, hi, rfl⟩ := List.mem_mapIdx.mp hr
    change i < 2 at hi
    interval_cases i
    · exact absurd (show lit "a" = lit "b" from ha) (by decide)
    · cases he)
  have hmoved : (aggregateThreadList (twoAccounts (lit "b")) (fun _ => true) staleListing).store.threadOwner
      (lit "t") = some (lit "a") := by
    decide
  rw [hmoved] at hkept
  exact absurd hkept (by decide)

/-! ## One invalid thread among the others -/

/-- Every listed thread with a valid id has the owner that the merge selects for it. -/
def OwnersPersisted (m : Machine) (running : GoString → Bool) (listing : ℕ → Listing) : Prop :=
  ∀ id, validThreadID id = true → Listed (orderedResults m.store running listing) id →
    (aggregateThreadList m running listing).store.threadOwner id =
      (mergedOwners m.store (orderedResults m.store running listing))[id]?

theorem validThreadID_ne_nil {id : GoString} (h : validThreadID id = true) : id ≠ [] := by
  rintro rfl
  exact absurd h (by decide)

theorem mergedOwners_of_listed {s : Store} {results : List ThreadListResult} {id : GoString}
    (hv : validThreadID id = true) (hl : Listed results id) :
    (mergedOwners s results)[id]? =
      some (chosenOwner (s.threadOwner id) (candidatesOf results id)) := by
  rw [getElem?_mergedOwners,
    if_neg (not_or.mpr ⟨validThreadID_ne_nil hv, listed_iff.mp hl⟩)]

/-- The merge leaves a thread where it is exactly when its owner has listed it. -/
theorem chosenOwner_kept_iff {s : Store} {results : List ThreadListResult} {id : GoString}
    (hl : Listed results id) :
    s.threadOwner id = some (chosenOwner (s.threadOwner id) (candidatesOf results id)) ↔
      ∃ owner, s.threadOwner id = some owner ∧ Received results owner id := by
  constructor
  · intro h
    obtain ⟨c, hc, ha⟩ := chosenOwner_mem (s.threadOwner id) (listed_iff.mp hl)
    exact ⟨_, h, received_iff.mpr ⟨c, hc, ha.symm⟩⟩
  · rintro ⟨owner, ho, hr⟩
    rw [ho, chosenOwner_eq_owner (received_iff.mp hr)]

theorem chosenOwner_ne_nil {s : Store} (hids : ∀ a ∈ s.accounts, a.id ≠ [])
    {running : GoString → Bool} {listing : ℕ → Listing} {id : GoString}
    (hl : Listed (orderedResults s running listing) id) :
    chosenOwner (s.threadOwner id) (candidatesOf (orderedResults s running listing) id) ≠ [] := by
  obtain ⟨c, hc, ha⟩ := chosenOwner_mem (s.threadOwner id) (listed_iff.mp hl)
  obtain ⟨r, hr, _, _, _, rfl⟩ := mem_candidatesOf.mp hc
  obtain ⟨a, hmem, hid⟩ := List.any_eq_true.mp (accountExists_of_result hr)
  rw [ha, show r.accountID = a.id from (of_decide_eq_true hid).symm]
  exact hids a hmem

/-- Where the file can be written, the owners of the valid threads are persisted exactly
when no listed id is invalid, or each of these threads was listed by its owner. -/
theorem owners_persisted_iff {m : Machine} (hids : ∀ a ∈ m.store.accounts, a.id ≠ [])
    (hwrite : ¬ m.nextFails) (running : GoString → Bool) (listing : ℕ → Listing) :
    OwnersPersisted m running listing ↔
      (∀ id, id ≠ [] → Listed (orderedResults m.store running listing) id →
        validThreadID id = true) ∨
      ∀ id, validThreadID id = true → Listed (orderedResults m.store running listing) id →
        ∃ owner, m.store.threadOwner id = some owner ∧
          Received (orderedResults m.store running listing) owner id := by
  constructor
  · intro h
    by_contra hcon
    obtain ⟨hinvalid, hcon⟩ := not_or.mp hcon
    refine hcon fun id hv hl => (chosenOwner_kept_iff hl).mp ?_
    have hpersisted := h id hv hl
    rw [mergedOwners_of_listed hv hl] at hpersisted
    -- A batch with an invalid id is rejected, and the thread has the owner it had.
    rcases setThreadOwners_owners m (mergedOwners m.store (orderedResults m.store running listing))
      id with ⟨hsame, _⟩ | ⟨hok, _, _⟩
    · exact hsame.symm.trans hpersisted
    · refine absurd (fun id' hid' hl' => ?_) hinvalid
      by_contra hv'
      exact rejected_of_invalid hid' hl' (Bool.eq_false_of_not_eq_true hv') hok
  · intro h id hv hl
    have hmerged := mergedOwners_of_listed (s := m.store) hv hl
    rw [hmerged]
    rcases setThreadOwners_owners m (mergedOwners m.store (orderedResults m.store running listing))
      id with ⟨hsame, hwhy⟩ | ⟨_, _, hnew⟩
    · refine hsame.trans ?_
      rcases h with hvalid | hlisted
      · rcases hwhy with hrejected | hfails | hequal
        · obtain ⟨id', hid', hl', hv'⟩ := merged_batch_rejected hrejected
          rw [hvalid id' hid' hl'] at hv'
          cases hv'
        · exact absurd hfails hwrite
        · have hentry := hequal _ (Std.ExtTreeMap.mem_toList_iff_getElem?_eq_some.mpr hmerged)
          have hne := chosenOwner_ne_nil hids hl
          dsimp only at hentry
          cases ho : m.store.threadOwner id with
          | none =>
            rw [ho] at hentry hne
            exact absurd hentry.symm hne
          | some owner =>
            rw [ho] at hentry
            exact congrArg some hentry
      · exact (chosenOwner_kept_iff hl).mpr (hlisted id hv hl)
    · rw [show (aggregateThreadList m running listing).store.threadOwner id = _ from hnew, hmerged]
      rfl

/-- Account `a` lists the thread `u` and account `b` a thread whose id has a blank. -/
def malformedListing (i : ℕ) : Listing :=
  ⟨[(∅ : Thread).insert (lit "id") (.string (if i = 0 then lit "u" else lit " v"))], none⟩

theorem owners_persisted_without_malformed :
    OwnersPersisted (twoAccounts (lit "b")) (fun id => id = lit "a") malformedListing := by
  refine (owners_persisted_iff (by decide) (by rintro ⟨_, _, h⟩; cases h) _ _).mpr
    (.inl fun id _ hl => ?_)
  obtain ⟨r, hr, thread, ht, hid⟩ := hl
  have hresults : orderedResults (twoAccounts (lit "b")).store (fun id => id = lit "a")
      malformedListing = [⟨0, lit "a", (malformedListing 0).threads, none⟩] := by
    rfl
  rw [hresults, List.mem_singleton] at hr
  rw [hr] at ht
  rw [← hid, List.mem_singleton.mp ht]
  decide

/-- The thread of account `a` is lost with the malformed one of account `b`. -/
theorem malformed_thread_blocks_others :
    ¬ (twoAccounts (lit "b")).nextFails ∧
      ¬ OwnersPersisted (twoAccounts (lit "b")) (fun _ => true) malformedListing := by
  refine ⟨(by rintro ⟨_, _, h⟩; cases h), fun h => ?_⟩
  have hlisted : Listed (orderedResults (twoAccounts (lit "b")).store (fun _ => true)
      malformedListing) (lit "u") :=
    ⟨⟨0, lit "a", (malformedListing 0).threads, none⟩, .head _, _, .head _, by decide⟩
  have hpersisted := h (lit "u") (by decide) hlisted
  rw [mergedOwners_of_listed (by decide) hlisted] at hpersisted
  have hlost : (aggregateThreadList (twoAccounts (lit "b")) (fun _ => true) malformedListing).store.threadOwner
      (lit "u") = none := by
    decide
  rw [hlost] at hpersisted
  cases hpersisted

end SubscriptionRouter.ThreadListing
