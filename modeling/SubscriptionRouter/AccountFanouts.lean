import Mathlib
import SubscriptionRouter.BoundedFanout
import SubscriptionRouter.ThreadMerge

set_option autoImplicit false

/-!
# Fan-outs over the accounts

Starting, initializing, listing and closing the children of all accounts are fan-outs with the same
bound. What comes out of them does not depend on the order in which the goroutines went.
-/
namespace SubscriptionRouter.AccountFanouts
open BoundedFanout Transitions GoText StoreState ThreadListing ThreadMerge

def maximumConcurrentChildren : ℕ := 4

/-- `clientInitialize` is the function `initialize`. -/
inductive Fanout where
  | forEachAccountBounded
  | closeChildrenBounded
  | clientInitialize
  | aggregateThreadList

def Fanout.config (n : ℕ) : Fanout → Config
  | .forEachAccountBounded => ⟨n, maximumConcurrentChildren, true, true⟩
  | .closeChildrenBounded => ⟨n, maximumConcurrentChildren, false, false⟩
  | .clientInitialize => ⟨n, maximumConcurrentChildren, false, true⟩
  | .aggregateThreadList => ⟨n, maximumConcurrentChildren, true, true⟩

variable {R E : Type}

abbrev FanoutRun (f : Fanout) (n : ℕ) (ls : List (Label R)) (s : State R) : Prop :=
  Runs (Fires (step (f.config n))) (start (f.config n)) ls s

theorem config_tasks (f : Fanout) (n : ℕ) : (f.config n).tasks = n := by
  cases f <;> rfl

theorem config_capacity (f : Fanout) (n : ℕ) : (f.config n).capacity = maximumConcurrentChildren := by
  cases f <;> rfl

/-- At most four operations are under way at any time, no goroutine panics or is stuck after its
operation, and while the operations answer the caller comes to the results after at most five steps
of each goroutine. Then every operation has been called once, and has answered, but for those whose
goroutine gave up after the context was cancelled. -/
theorem fanout_ends [Nonempty R] {f : Fanout} {n : ℕ} {ls : List (Label R)} {s : State R}
    (h : FanoutRun f n ls s) :
    s.stages.countP Stage.isRunning ≤ maximumConcurrentChildren ∧ Orderly (f.config n) s ∧
      ls.countP (fun l => !l.isCancel) + s.remaining ≤ 5 * n + 1 ∧
      (s.closed = false → ∃ l, l.isCancel = false ∧ (step (f.config n) s l).isSome = true) ∧
      (s.closed = true → ∀ i < n, calls i ls = 1 ∧ (∃ r, answersOf i ls = [r]) ∨
        calls i ls = 0 ∧ answersOf i ls = [] ∧ (f.config n).cancellable = true ∧ s.cancelled = true) := by
  have hcounted := counted_of_runs h
  refine ⟨config_capacity f n ▸ hcounted.orderly.bound, hcounted.orderly, ?_, ?_, ?_⟩
  · have hsteps := steps_le h
    rwa [config_tasks] at hsteps
  · refine hcounted.can_step ?_
    rw [config_capacity]
    exact Nat.zero_lt_succ 3
  · intro hclosed i hi
    obtain ⟨houtcome, -⟩ := outcome_of_closed h hclosed (by rwa [config_tasks])
    have hanswers := houtcome.answers
    have hcalls := houtcome.calls
    cases ho : (outcome ls i).2 with
    | some r =>
      rw [ho] at hanswers hcalls
      exact .inl ⟨hcalls, r, hanswers⟩
    | none =>
      rw [ho] at hanswers hcalls
      obtain ⟨hcancellable, hcancelled⟩ := houtcome.refused ho
      exact .inr ⟨hcalls, hanswers, hcancellable, hcancelled⟩

/-- The operation of a goroutine answers, and the goroutine ends. -/
def ending (i r : ℕ) : List (Label ℕ) := [.answer i r, .send i, .release i, .done i]

/-- Four operations are under way when the context is cancelled. The last account's goroutine gives up,
and the one before it still takes the slot of the second account. -/
def cancelled : List (Label ℕ) :=
  [.acquire 1, .acquire 0, .acquire 2, .acquire 3, .cancel, .refuse 5, .send 5, .done 5] ++ ending 1 7 ++
    [.acquire 4] ++ ending 4 8 ++ ending 0 7 ++ ending 3 9 ++ ending 2 7 ++ [.close]

theorem fanout_ends_cancelled : ∃ s : State ℕ, FanoutRun .forEachAccountBounded 6 cancelled s ∧
    Orderly (Fanout.forEachAccountBounded.config 6) s ∧
    cancelled.countP (fun l => !l.isCancel) + s.remaining ≤ 5 * 6 + 1 ∧
    ∀ i < 6, calls i cancelled = 1 ∧ (∃ r, answersOf i cancelled = [r]) ∨
      calls i cancelled = 0 ∧ answersOf i cancelled = [] ∧
        (Fanout.forEachAccountBounded.config 6).cancellable = true ∧ s.cancelled = true := by
  obtain ⟨s, hr, hclosed⟩ := @runs_of_exec_any _ _ (step (Fanout.forEachAccountBounded.config 6))
    (start (Fanout.forEachAccountBounded.config 6)) cancelled (fun s => s.closed) (by decide)
  obtain ⟨-, horderly, hsteps, -, hcalls⟩ := fanout_ends hr
  exact ⟨s, hr, horderly, hsteps, hcalls hclosed⟩

/-! ## The errors of the accounts -/

def accountID (accounts : List Account) (i : ℕ) : GoString := ((accounts[i]?).map Account.id).getD []

/-- The error of a result; a goroutine that gave up has the context's. -/
def resultErr (ctxErr : E) (result : Option (Option E)) : Option E := result.getD (some ctxErr)

/-- The loop over the results. -/
def errorsByAccount (accounts : List Account) (ctxErr : E) (results : List (ℕ × Option (Option E))) :
    GoMap E :=
  results.foldl (fun errors result => match resultErr ctxErr result.2 with
    | none => errors
    | some err => errors.insert (accountID accounts result.1) err) ∅

def failure (accounts : List Account) (ctxErr : E) (result : ℕ × Option (Option E)) :
    Option (GoString × E) :=
  (resultErr ctxErr result.2).map fun err => (accountID accounts result.1, err)

theorem errorsByAccount_eq (accounts : List Account) (ctxErr : E)
    (results : List (ℕ × Option (Option E))) : errorsByAccount accounts ctxErr results =
      (results.filterMap (failure accounts ctxErr)).foldl (fun errors e => errors.insert e.1 e.2) ∅ := by
  rw [errorsByAccount, List.foldl_filterMap]
  congr 1
  funext errors result
  rw [failure]
  cases resultErr ctxErr result.2 <;> rfl

theorem accountID_eq {accounts : List Account} {i : ℕ} {a : Account} (h : accounts[i]? = some a) :
    accountID accounts i = a.id := by
  rw [accountID, h]
  rfl

theorem failures_distinct {accounts : List Account} (hids : (accounts.map Account.id).Nodup) (ctxErr : E)
    {results : List (ℕ × Option (Option E))} (hresults : (results.map Prod.fst).Nodup)
    (hbound : ∀ e ∈ results, e.1 < accounts.length) :
    ((results.filterMap (failure accounts ctxErr)).map Prod.fst).Nodup := by
  rw [List.Nodup, List.pairwise_map, List.pairwise_filterMap]
  refine (List.pairwise_map.mp hresults).imp_of_mem fun {e e'} he he' hne x hx y hy hxy => hne ?_
  obtain ⟨_, -, rfl⟩ := Option.map_eq_some_iff.mp hx
  obtain ⟨_, -, rfl⟩ := Option.map_eq_some_iff.mp hy
  have hid : (accounts.map Account.id)[e.1]? = (accounts.map Account.id)[e'.1]? := by
    have hxy : accountID accounts e.1 = accountID accounts e'.1 := hxy
    rw [List.getElem?_map, List.getElem?_map, List.getElem?_eq_getElem (hbound e he),
      List.getElem?_eq_getElem (hbound e' he'), Option.map_some, Option.map_some,
      ← accountID_eq (List.getElem?_eq_getElem (hbound e he)),
      ← accountID_eq (List.getElem?_eq_getElem (hbound e' he')), hxy]
  exact (List.getElem?_inj (by rw [List.length_map]; exact hbound e he) hids).mp hid

/-- The caller has the error of every account whose operation failed, the context's for every
account that was not come to, and none for any other. -/
theorem errors_of_runs {accounts : List Account} (hids : (accounts.map Account.id).Nodup) {ctxErr : E}
    {ls : List (Label (Option E))} {s : State (Option E)}
    (h : FanoutRun .forEachAccountBounded accounts.length ls s) (hclosed : s.closed = true)
    {id : GoString} {err : E} : (errorsByAccount accounts ctxErr s.results)[id]? = some err ↔
      ∃ i a, accounts[i]? = some a ∧ a.id = id ∧
        (answersOf i ls = [some err] ∨ answersOf i ls = [] ∧ err = ctxErr) := by
  have hperm := results_perm h hclosed rfl
  rw [config_tasks] at hperm
  have hbound : ∀ e ∈ s.results, e.1 < accounts.length := by
    intro e he
    obtain ⟨i, hi, rfl⟩ := List.mem_map.mp (hperm.mem_iff.mp he)
    exact List.mem_range.mp hi
  rw [errorsByAccount_eq, Tallies.getElem?_foldl_insert_of_distinct
    (failures_distinct hids ctxErr (recorded_of_runs h).once hbound), List.mem_filterMap]
  have houtcome : ∀ i, i < accounts.length → (resultErr ctxErr (outcome ls i).2 = some err ↔
      (answersOf i ls = [some err] ∨ answersOf i ls = [] ∧ err = ctxErr)) := by
    intro i hi
    obtain ⟨ho, -⟩ := outcome_of_closed h hclosed (show i < _ by rwa [config_tasks])
    rw [ho.answers]
    cases (outcome ls i).2 with
    | none => simp [resultErr, eq_comm]
    | some r => simp [resultErr]
  constructor
  · rintro ⟨e, he, hfail⟩
    obtain ⟨i, hi, rfl⟩ := List.mem_map.mp (hperm.mem_iff.mp he)
    obtain ⟨err', herr, heq⟩ := Option.map_eq_some_iff.mp hfail
    obtain ⟨rfl, rfl⟩ := Prod.mk.inj heq
    have hlt := List.mem_range.mp hi
    exact ⟨i, accounts[i], List.getElem?_eq_getElem hlt,
      (accountID_eq (List.getElem?_eq_getElem hlt)).symm, (houtcome i hlt).mp herr⟩
  · rintro ⟨i, a, ha, rfl, hanswer⟩
    have hlt := (List.getElem?_eq_some_iff.mp ha).1
    refine ⟨outcome ls i, hperm.mem_iff.mpr (List.mem_map_of_mem (List.mem_range.mpr hlt)), ?_⟩
    refine Option.map_eq_some_iff.mpr ⟨err, (houtcome i hlt).mpr hanswer, ?_⟩
    rw [outcome, accountID_eq ha]

def bothAnswer (first second : R) : List (Label R) :=
  [.acquire 0, .acquire 1, .answer 1 second, .send 1, .answer 0 first, .release 1, .send 0, .done 1,
   .release 0, .done 0, .close]

theorem errors_of_bothAnswer : ∃ s, FanoutRun .forEachAccountBounded 2
      (bothAnswer none (some "exited")) s ∧
    (errorsByAccount (twoAccounts (lit "b")).store.accounts "canceled" s.results)[lit "b"]? =
      some "exited" := by
  obtain ⟨s, hr, hclosed⟩ := @runs_of_exec_any _ _ (step (Fanout.forEachAccountBounded.config 2))
    (start (Fanout.forEachAccountBounded.config 2)) (bothAnswer none (some "exited")) State.closed (by decide)
  exact ⟨s, hr, (@errors_of_runs _ (twoAccounts (lit "b")).store.accounts (by decide) _ _ _ hr hclosed _ _).mpr
    ⟨1, _, rfl, rfl, .inl rfl⟩⟩

/-! ## The listings of the accounts -/

def listingOf (ctxErr : Error) (result : Option Listing) : Listing :=
  result.getD { threads := [], err := some ctxErr }

def toResult (entries : List Account) (ctxErr : Error) (result : ℕ × Option Listing) : ThreadListResult where
  index := result.1
  accountID := accountID entries result.1
  threads := (listingOf ctxErr result.2).threads
  err := (listingOf ctxErr result.2).err

theorem map_toResult (st : Store) (running : GoString → Bool) (ctxErr : Error) (ls : List (Label Listing)) :
    ((List.range (childEntries st running).length).map (outcome ls)).map
        (toResult (childEntries st running) ctxErr) =
      orderedResults st running fun i => listingOf ctxErr (outcome ls i).2 := by
  refine List.ext_getElem? fun i => ?_
  rw [orderedResults, List.getElem?_mapIdx, List.map_map, List.getElem?_map]
  by_cases hi : i < (childEntries st running).length
  · have hat := List.getElem?_eq_getElem hi
    rw [List.getElem?_range hi, hat, Option.map_some, Option.map_some, Function.comp_apply, toResult,
      outcome, accountID_eq hat]
  · rw [List.getElem?_eq_none (by rw [List.length_range]; exact not_lt.mp hi),
      List.getElem?_eq_none (not_lt.mp hi)]
    rfl

/-- In whatever order the listings arrive and the map of threads is gone through, the merged list
and its owners are those of the accounts' answers in the order of the accounts. -/
theorem listing_of_runs (st : Store) (running : GoString → Bool) (ctxErr : Error)
    {ls : List (Label Listing)} {s : State Listing}
    (h : FanoutRun .aggregateThreadList (childEntries st running).length ls s) (hclosed : s.closed = true)
    {entries : List (GoString × List Candidate)}
    (hentries : entries.Perm (groupCandidates (collect (childEntries st running).length
      (s.results.map (toResult (childEntries st running) ctxErr)))).toList) :
    sortThreads (mergeThreads st entries (collect (childEntries st running).length
        (s.results.map (toResult (childEntries st running) ctxErr)))).1 =
      mergedThreads st (orderedResults st running fun i => listingOf ctxErr (outcome ls i).2) ∧
    (mergeThreads st entries (collect (childEntries st running).length
        (s.results.map (toResult (childEntries st running) ctxErr)))).2 =
      mergedOwners st (orderedResults st running fun i => listingOf ctxErr (outcome ls i).2) := by
  have hperm := (results_perm h hclosed rfl).map (toResult (childEntries st running) ctxErr)
  rw [config_tasks, map_toResult] at hperm
  have hcollect := collect_eq (indexed_orderedResults st running _) hperm
  have hlength : (orderedResults st running fun i => listingOf ctxErr (outcome ls i).2).length =
      (childEntries st running).length := List.length_mapIdx
  rw [hlength] at hcollect
  rw [hcollect] at hentries ⊢
  exact ⟨sortThreads_mergeThreads st hentries, owners_mergeThreads st hentries⟩

def twoListings : List (Label Listing) :=
  bothAnswer { threads := [thread "t" 1], err := none } { threads := [thread "t" 2], err := none }

def canceled : Error := { format := "context canceled" }

theorem listing_of_twoListings : ∃ s, FanoutRun .aggregateThreadList 2 twoListings s ∧
    ∃ entries : List (GoString × List Candidate),
      sortThreads (mergeThreads (twoAccounts (lit "b")).store entries (collect 2 (s.results.map
        (toResult (twoAccounts (lit "b")).store.accounts canceled)))).1 =
      mergedThreads (twoAccounts (lit "b")).store (orderedResults (twoAccounts (lit "b")).store
        (fun _ => true) fun i => listingOf canceled (outcome twoListings i).2) := by
  obtain ⟨s, hr, hclosed⟩ := @runs_of_exec_any _ _ (step (Fanout.aggregateThreadList.config 2))
    (start (Fanout.aggregateThreadList.config 2)) twoListings State.closed (by decide)
  exact ⟨s, hr, _, (listing_of_runs (twoAccounts (lit "b")).store (fun _ => true) canceled
    hr hclosed (List.reverse_perm _)).1⟩

end SubscriptionRouter.AccountFanouts
