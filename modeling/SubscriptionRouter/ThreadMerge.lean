import Mathlib
import SubscriptionRouter.Rankings
import SubscriptionRouter.Tallies
import SubscriptionRouter.ThreadListing

set_option autoImplicit false

/-!
# Merging the thread listings

The listings arrive in any order and `mergeThreadsDeterministically` goes through a map in
any order. After the sort the list depends on neither.
-/
namespace SubscriptionRouter.ThreadMerge
open GoText StoreState ThreadListing Rankings Tallies

def collect (n : ℕ) (arrivals : List ThreadListResult) : List ThreadListResult :=
  arrivals.foldl (fun ordered result => ordered.set result.index result)
    (List.replicate n ⟨0, [], [], none⟩)

def anonymousThreads (results : List ThreadListResult) : List Thread :=
  (results.flatMap ThreadListResult.threads).filter fun thread => threadID thread = []

/-- The candidate that the loop selects for an entry of the map. -/
def selected (s : Store) (entry : GoString × List Candidate) : Option Candidate :=
  match entry.2 with
  | [] => none
  | first :: others => some (selectCandidate (s.threadOwner entry.1) first others)

/-- The threads and the owners, with the entries of the map in the order `entries`. -/
def mergeThreads (s : Store) (entries : List (GoString × List Candidate))
    (results : List ThreadListResult) : List Thread × GoMap GoString :=
  (entries.filterMap (fun entry => (selected s entry).map Candidate.thread) ++
      anonymousThreads results,
    (entries.filterMap fun entry => (selected s entry).map fun c => (entry.1, c.accountID)).foldl
      (fun owners e => owners.insert e.1 e.2) ∅)

/-- The comparison of `sortThreads`. -/
def less (left right : Thread) : Bool :=
  if threadTime left ≠ threadTime right then threadTime right < threadTime left
  else threadID left < threadID right

def sortThreads (threads : List Thread) : List Thread := sliceStable less threads

def mergedThreads (s : Store) (results : List ThreadListResult) : List Thread :=
  sortThreads (mergeThreads s (groupCandidates results).toList results).1

def Indexed (results : List ThreadListResult) : Prop :=
  ∀ (i : ℕ) (r : ThreadListResult), results[i]? = some r → r.index = i

/-- The copy `c` is not older than `d`, and of an earlier account if it is as old. -/
def Precedes (c d : Candidate) : Prop :=
  threadTime d.thread ≤ threadTime c.thread ∧
    (threadTime d.thread = threadTime c.thread → c.accountIndex ≤ d.accountIndex)

/-- A copy from the persisted owner, or without one a newest copy. -/
def Kept (owner : Option GoString) (candidates : List Candidate) (c : Candidate) : Prop :=
  some c.accountID = owner ∨
    (∀ d ∈ candidates, some d.accountID ≠ owner) ∧ ∀ d ∈ candidates, Precedes c d

/-- What the merge promises: every id once, every thread without an id, and the owners. -/
structure Merged (s : Store) (results : List ThreadListResult) (threads : List Thread)
    (owners : GoMap GoString) : Prop where
  copies : ∀ id, id ≠ [] → Listed results id → ∃ c ∈ candidatesOf results id,
    threads.filter (fun thread => threadID thread = id) = [c.thread] ∧
      owners[id]? = some c.accountID ∧ Kept (s.threadOwner id) (candidatesOf results id) c
  anonymous : (threads.filter fun thread => threadID thread = []).Perm (anonymousThreads results)
  listed : ∀ thread ∈ threads, Listed results (threadID thread)
  owned : ∀ id accountID, owners[id]? = some accountID → id ≠ [] ∧ Listed results id

/-! ## The order of arrival -/

theorem foldl_set {i : ℕ} {r : ThreadListResult} (arrivals ordered : List ThreadListResult)
    (hi : i < ordered.length) (hr : r.index = i)
    (hone : ∀ x ∈ arrivals, x.index = i → x = r) (h : r ∈ arrivals ∨ ordered[i]? = some r) :
    (arrivals.foldl (fun ordered result => ordered.set result.index result) ordered)[i]? = some r := by
  induction arrivals generalizing ordered with
  | nil => exact h.resolve_left (by simp)
  | cons x rest ih =>
    refine ih (ordered.set x.index x) (by simpa using hi)
      (fun y hy => hone y (List.mem_cons_of_mem x hy)) ?_
    by_cases hx : x.index = i
    · right
      rw [hone x List.mem_cons_self hx, hr]
      exact List.getElem?_set_self hi
    · rw [List.getElem?_set_ne hx]
      rcases h with h | h
      · rcases List.mem_cons.mp h with rfl | h
        · exact absurd hr hx
        · exact .inl h
      · exact .inr h

theorem length_foldl_set (arrivals ordered : List ThreadListResult) :
    (arrivals.foldl (fun ordered result => ordered.set result.index result) ordered).length =
      ordered.length := by
  induction arrivals generalizing ordered with
  | nil => rfl
  | cons x rest ih => rw [List.foldl_cons, ih, List.length_set]

theorem collect_eq {results arrivals : List ThreadListResult} (hi : Indexed results)
    (h : arrivals.Perm results) : collect results.length arrivals = results := by
  refine List.ext_getElem? fun i => ?_
  by_cases hlt : i < results.length
  · have hat : results[i]? = some results[i] := List.getElem?_eq_getElem hlt
    rw [hat]
    refine foldl_set arrivals _ (by simpa using hlt) (hi i _ hat) (fun x hx hxi => ?_)
      (.inl (h.mem_iff.mpr (List.getElem_mem hlt)))
    obtain ⟨j, hj⟩ := List.mem_iff_getElem?.mp (h.mem_iff.mp hx)
    rw [← hi j x hj, hxi, hat] at hj
    exact (Option.some.inj hj).symm
  · rw [List.getElem?_eq_none (not_lt.mp hlt), List.getElem?_eq_none]
    rw [collect, length_foldl_set, List.length_replicate]
    exact not_lt.mp hlt

/-! ## The copy that is kept -/

theorem Precedes.refl (c : Candidate) : Precedes c c := ⟨le_rfl, fun _ => le_rfl⟩

theorem Precedes.trans {c d e : Candidate} (h : Precedes c d) (h' : Precedes d e) :
    Precedes c e := by
  refine ⟨h'.1.trans h.1, fun heq => ?_⟩
  have hmid : threadTime d.thread = threadTime c.thread :=
    le_antisymm h.1 (heq.symm.le.trans h'.1)
  exact (h.2 hmid).trans (h'.2 (heq.trans hmid.symm))

theorem newer_iff {c d : Candidate} : newer c d = true ↔ ¬ Precedes d c := by
  simp only [newer, Precedes, Bool.or_eq_true, Bool.and_eq_true, decide_eq_true_eq, not_and_or,
    not_le, Classical.not_imp]

theorem precedes_newer (c first : Candidate) :
    Precedes (if newer c first then c else first) first ∧
      Precedes (if newer c first then c else first) c := by
  split
  · rename_i h
    refine ⟨?_, .refl c⟩
    simp only [newer, Bool.or_eq_true, Bool.and_eq_true, decide_eq_true_eq] at h
    rcases h with hlater | ⟨htie, hindex⟩
    · exact ⟨hlater.le, fun heq => absurd heq hlater.ne⟩
    · exact ⟨htie.symm.le, fun _ => hindex.le⟩
  · rename_i h
    exact ⟨.refl first, not_not.mp fun hnot => h (newer_iff.mpr hnot)⟩

theorem precedes_foldl (others : List Candidate) (first : Candidate) :
    ∀ d ∈ first :: others,
      Precedes (others.foldl (fun selected c => if newer c selected then c else selected) first) d := by
  induction others generalizing first with
  | nil =>
    intro d hd
    rw [List.mem_singleton.mp hd]
    exact .refl first
  | cons c rest ih =>
    obtain ⟨hfirst, hc⟩ := precedes_newer c first
    have hrest := ih (if newer c first then c else first)
    have hstep := hrest _ List.mem_cons_self
    intro d hd
    rw [List.foldl_cons]
    rcases List.mem_cons.mp hd with rfl | hd
    · exact hstep.trans hfirst
    · rcases List.mem_cons.mp hd with rfl | hd
      · exact hstep.trans hc
      · exact hrest d (List.mem_cons_of_mem _ hd)

theorem kept_selectCandidate (owner : Option GoString) (first : Candidate)
    (others : List Candidate) :
    Kept owner (first :: others) (selectCandidate owner first others) := by
  unfold selectCandidate
  split
  · rename_i c hc
    exact .inl (by simpa using List.find?_some hc)
  · rename_i hnone
    rw [List.find?_eq_none] at hnone
    exact .inr ⟨fun d hd => by simpa using hnone d hd, precedes_foldl others first⟩

/-! ## The entries of the map -/

theorem mem_entries {results : List ThreadListResult} {e : GoString × List Candidate} :
    e ∈ (groupCandidates results).toList ↔
      e.1 ≠ [] ∧ e.2 = candidatesOf results e.1 ∧ Listed results e.1 := by
  obtain ⟨id, candidates⟩ := e
  rw [Std.ExtTreeMap.mem_toList_iff_getElem?_eq_some, getElem?_groupCandidates, listed_iff]
  split
  · rename_i h
    simp only [reduceCtorEq, false_iff]
    rintro ⟨hid, -, hl⟩
    exact h.elim hid hl
  · rename_i h
    obtain ⟨hid, hl⟩ := not_or.mp h
    simp only [Option.some_inj]
    exact ⟨fun he => ⟨hid, he.symm, hl⟩, fun he => he.2.1.symm⟩

theorem exists_selected {s : Store} {results : List ThreadListResult} {id : GoString}
    (hl : Listed results id) : ∃ c ∈ candidatesOf results id,
      selected s (id, candidatesOf results id) = some c ∧
        chosenOwner (s.threadOwner id) (candidatesOf results id) = c.accountID ∧
        Kept (s.threadOwner id) (candidatesOf results id) c := by
  obtain ⟨first, others, he⟩ := List.exists_cons_of_ne_nil (listed_iff.mp hl)
  rw [he]
  exact ⟨_, selectCandidate_mem _ first others, rfl, rfl, kept_selectCandidate _ first others⟩

theorem threadID_of_mem {results : List ThreadListResult} {id : GoString} {c : Candidate}
    (h : c ∈ candidatesOf results id) : threadID c.thread = id := by
  obtain ⟨_, _, _, _, hid, rfl⟩ := mem_candidatesOf.mp h
  exact hid

def copies (s : Store) (entries : List (GoString × List Candidate)) : List Thread :=
  entries.filterMap fun entry => (selected s entry).map Candidate.thread

theorem map_copies {s : Store} {results : List ThreadListResult}
    {entries : List (GoString × List Candidate)}
    (h : ∀ e ∈ entries, e ∈ (groupCandidates results).toList) :
    (copies s entries).map threadID = entries.map Prod.fst := by
  induction entries with
  | nil => rfl
  | cons e rest ih =>
    obtain ⟨-, hcandidates, hl⟩ := mem_entries.mp (h e List.mem_cons_self)
    obtain ⟨c, hc, hselected, -⟩ := exists_selected (s := s) hl
    rw [← hcandidates] at hselected
    have hrest := ih fun x hx => h x (List.mem_cons_of_mem e hx)
    have hfirst : copies s (e :: rest) = c.thread :: copies s rest :=
      List.filterMap_cons_some (congrArg (Option.map Candidate.thread) hselected)
    rw [hfirst, List.map_cons, List.map_cons, hrest, threadID_of_mem hc]

theorem nodup_copies {s : Store} {results : List ThreadListResult}
    {entries : List (GoString × List Candidate)}
    (h : entries.Perm (groupCandidates results).toList) :
    ((copies s entries).map threadID).Nodup := by
  have hkeys : ((groupCandidates results).toList.map Prod.fst).Nodup :=
    List.pairwise_map.mpr (toList_distinct _)
  rw [map_copies fun e he => h.mem_iff.mp he]
  exact (h.map Prod.fst).nodup_iff.mpr hkeys

theorem mem_copies {s : Store} {results : List ThreadListResult}
    {entries : List (GoString × List Candidate)}
    (h : entries.Perm (groupCandidates results).toList) {thread : Thread} :
    thread ∈ copies s entries ↔ ∃ id c, id ≠ [] ∧ Listed results id ∧
      selected s (id, candidatesOf results id) = some c ∧ c.thread = thread := by
  simp only [copies, List.mem_filterMap, Option.map_eq_some_iff]
  constructor
  · rintro ⟨e, he, c, hc, ht⟩
    obtain ⟨hid, hcandidates, hl⟩ := mem_entries.mp (h.mem_iff.mp he)
    exact ⟨e.1, c, hid, hl, hcandidates ▸ hc, ht⟩
  · rintro ⟨id, c, hid, hl, hc, ht⟩
    exact ⟨_, h.mem_iff.mpr (mem_entries.mpr ⟨hid, rfl, hl⟩), c, hc, ht⟩

theorem filter_of_nodup {l : List Thread} (h : (l.map threadID).Nodup) {t : Thread} (ht : t ∈ l) :
    l.filter (fun thread => threadID thread = threadID t) = [t] := by
  induction l with
  | nil => cases ht
  | cons a rest ih =>
    obtain ⟨ha, hrest⟩ := List.nodup_cons.mp h
    rcases List.mem_cons.mp ht with rfl | ht
    · have hnone : rest.filter (fun thread => threadID thread = threadID t) = [] := by
        refine List.filter_eq_nil_iff.mpr fun x hx => ?_
        simpa using fun hid : threadID x = threadID t => ha (hid ▸ List.mem_map_of_mem hx)
      rw [List.filter_cons_of_pos (by simp), hnone]
    · have hne : threadID a ≠ threadID t := fun hid => ha (hid ▸ List.mem_map_of_mem ht)
      rw [List.filter_cons_of_neg (by simpa using hne), ih hrest ht]

/-! ## The owners -/

theorem getElem?_of_distinct {l : List (GoString × GoString)}
    (hl : (l.map Prod.fst).Nodup) {id accountID : GoString} :
    (l.foldl (fun owners e => owners.insert e.1 e.2) (∅ : GoMap GoString))[id]? = some accountID ↔
      (id, accountID) ∈ l := by
  rw [getElem?_foldl_insert, find?_reverse_of_distinct (List.pairwise_map.mp hl), Std.ExtTreeMap.getElem?_empty,
    Option.or_none, Option.map_eq_some_iff]
  constructor
  · rintro ⟨e, he, rfl⟩
    have hid : e.1 = id := by simpa using List.find?_some he
    exact hid ▸ List.mem_of_find?_eq_some he
  · intro hmem
    cases hf : l.find? fun e => e.1 = id with
    | none => exact absurd (by simp) (List.find?_eq_none.mp hf _ hmem)
    | some e =>
      have hid : e.1 = id := by simpa using List.find?_some hf
      have he := List.inj_on_of_nodup_map hl (List.mem_of_find?_eq_some hf) hmem hid
      exact ⟨e, rfl, by rw [he]⟩

/-- In whatever order the map is gone through, the owners are the merged ones. -/
theorem owners_mergeThreads (s : Store) {results : List ThreadListResult}
    {entries : List (GoString × List Candidate)}
    (h : entries.Perm (groupCandidates results).toList) :
    (mergeThreads s entries results).2 = mergedOwners s results := by
  have hdistinct : entries.Pairwise fun a b => a.1 ≠ b.1 :=
    h.symm.pairwise (toList_distinct _) Ne.symm
  have hl : (entries.filterMap fun entry =>
      (selected s entry).map fun c => (entry.1, c.accountID)).map Prod.fst |>.Nodup := by
    refine List.pairwise_map.mpr (List.pairwise_filterMap.mpr (hdistinct.imp ?_))
    intro a b hab x hx y hy
    obtain ⟨_, -, rfl⟩ := Option.map_eq_some_iff.mp hx
    obtain ⟨_, -, rfl⟩ := Option.map_eq_some_iff.mp hy
    exact hab
  refine Std.ExtTreeMap.ext_getElem? fun id => Option.ext fun accountID => ?_
  rw [mergeThreads, getElem?_of_distinct hl, getElem?_mergedOwners]
  simp only [List.mem_filterMap, Option.map_eq_some_iff, Prod.mk.injEq]
  constructor
  · rintro ⟨e, he, c, hc, rfl, rfl⟩
    obtain ⟨hid, hcandidates, hlisted⟩ := mem_entries.mp (h.mem_iff.mp he)
    obtain ⟨c', -, hc', hchosen, -⟩ := exists_selected (s := s) hlisted
    rw [← hcandidates] at hc'
    obtain rfl := Option.some.inj (hc'.symm.trans hc)
    rw [if_neg (not_or.mpr ⟨hid, listed_iff.mp hlisted⟩), hchosen]
  · intro howner
    split at howner
    · cases howner
    · rename_i hcond
      obtain ⟨hid, hlisted⟩ := not_or.mp hcond
      obtain ⟨c, -, hc, hchosen, -⟩ := exists_selected (s := s) (listed_iff.mpr hlisted)
      rw [hchosen] at howner
      exact ⟨_, h.mem_iff.mpr (mem_entries.mpr ⟨hid, rfl, listed_iff.mpr hlisted⟩), c, hc, rfl,
        Option.some.inj howner⟩

/-! ## The sorted list -/

theorem less_eq_rank : less =
    rank (fun left right => threadID left < threadID right) [⟨threadTime, 0, le_rfl⟩] := by
  funext left right
  simp only [less, rank, Key.apart, abs_pos, sub_ne_zero, ne_eq, decide_eq_true_eq]

theorem strictTotal_less {l : List Thread} (h : (l.map threadID).Nodup) : StrictTotal less l := by
  rw [less_eq_rank]
  refine strictTotal_rank ⟨fun x _ => ?_, fun x _ y _ z _ hxy hyz => ?_, fun x hx y hy hxy hyx => ?_⟩
    fun x _ y _ z _ => not_straddled_of_exact (by simp)
  · exact decide_eq_false (List.lt_irrefl (threadID x))
  · exact decide_eq_true (List.lt_trans (of_decide_eq_true hxy) (of_decide_eq_true hyz))
  · have hle := List.not_lt.mp (of_decide_eq_false hxy)
    have hge := List.not_lt.mp (of_decide_eq_false hyx)
    exact List.inj_on_of_nodup_map h hx hy (List.le_antisymm hge hle)

/-- In whatever order the map is gone through, the sorted list is the same. -/
theorem sortThreads_mergeThreads (s : Store) {results : List ThreadListResult}
    {entries : List (GoString × List Candidate)}
    (h : entries.Perm (groupCandidates results).toList) :
    sortThreads (mergeThreads s entries results).1 = mergedThreads s results := by
  have hsorted := (strictTotal_less (nodup_copies (s := s) h)).sliceStable_eq
    (h.filterMap fun entry => (selected s entry).map Candidate.thread)
  exact sliceStable_append hsorted (anonymousThreads results)

theorem perm_mergedThreads (s : Store) (results : List ThreadListResult) :
    (mergedThreads s results).Perm
      (copies s (groupCandidates results).toList ++ anonymousThreads results) :=
  perm_sliceStable less _

theorem filter_mergedThreads {s : Store} {results : List ThreadListResult} {id : GoString}
    {c : Candidate} (hid : id ≠ []) (hl : Listed results id)
    (hc : selected s (id, candidatesOf results id) = some c) :
    (mergedThreads s results).filter (fun thread => threadID thread = id) = [c.thread] := by
  have hperm := (perm_mergedThreads s results).filter fun thread => threadID thread = id
  have hmem : c.thread ∈ copies s (groupCandidates results).toList :=
    (mem_copies (.refl _)).mpr ⟨id, c, hid, hl, hc, rfl⟩
  obtain ⟨c', hc', hselected, -⟩ := exists_selected (s := s) hl
  obtain rfl := Option.some.inj (hselected.symm.trans hc)
  have hcid := threadID_of_mem hc'
  have hcopies := filter_of_nodup (nodup_copies (s := s) (.refl _)) hmem
  have hanonymous : (anonymousThreads results).filter (fun thread => threadID thread = id) = [] := by
    refine List.filter_eq_nil_iff.mpr fun thread ht => ?_
    have hnone : threadID thread = [] := by simpa using (List.mem_filter.mp ht).2
    simpa [hnone] using hid.symm
  rw [hcid] at hcopies
  rw [List.filter_append, hcopies, hanonymous, List.append_nil] at hperm
  exact List.perm_singleton.mp hperm

theorem merged_mergedThreads (s : Store) (results : List ThreadListResult) :
    Merged s results (mergedThreads s results) (mergedOwners s results) where
  copies id hid hl := by
    obtain ⟨c, hc, hselected, hchosen, hkept⟩ := exists_selected (s := s) hl
    refine ⟨c, hc, filter_mergedThreads hid hl hselected, ?_, hkept⟩
    rw [getElem?_mergedOwners, if_neg (not_or.mpr ⟨hid, listed_iff.mp hl⟩), hchosen]
  anonymous := by
    have hperm := (perm_mergedThreads s results).filter fun thread => threadID thread = []
    have hcopies : (copies s (groupCandidates results).toList).filter
        (fun thread => threadID thread = []) = [] := by
      refine List.filter_eq_nil_iff.mpr fun thread ht => ?_
      obtain ⟨id, c, hid, hl, hc, rfl⟩ := (mem_copies (.refl _)).mp ht
      obtain ⟨c', hc', hselected, -⟩ := exists_selected (s := s) hl
      obtain rfl := Option.some.inj (hselected.symm.trans hc)
      simpa [threadID_of_mem hc'] using hid
    rw [List.filter_append, hcopies, List.nil_append, anonymousThreads, List.filter_filter] at hperm
    simpa [anonymousThreads] using hperm
  listed thread ht := by
    rcases List.mem_append.mp ((perm_mergedThreads s results).mem_iff.mp ht) with ht | ht
    · obtain ⟨id, c, -, hl, hc, rfl⟩ := (mem_copies (.refl _)).mp ht
      obtain ⟨c', hc', hselected, -⟩ := exists_selected (s := s) hl
      obtain rfl := Option.some.inj (hselected.symm.trans hc)
      rwa [threadID_of_mem hc']
    · obtain ⟨r, hr, ht⟩ := List.mem_flatMap.mp (List.mem_filter.mp ht).1
      exact ⟨r, hr, thread, ht, rfl⟩
  owned id accountID howner := by
    rw [getElem?_mergedOwners] at howner
    split at howner
    · cases howner
    · rename_i hcond
      obtain ⟨hid, hl⟩ := not_or.mp hcond
      exact ⟨hid, listed_iff.mpr hl⟩

def thread (id : String) (updatedAt : ℚ) : Thread :=
  ((∅ : Thread).insert (lit "id") (.string (lit id))).insert (lit "updatedAt") (.number updatedAt)

def twoResults : List ThreadListResult :=
  [⟨0, lit "a", [thread "t" 1, thread "t" 2], none⟩, ⟨1, lit "b", [thread "" 3, thread "u" 1], none⟩]

/-- Merging the same results again after the owners were persisted. -/
def RelistsTheSame (m : Machine) (running : GoString → Bool) (listing : ℕ → Listing) : Prop :=
  mergedThreads (aggregateThreadList m running listing).store (orderedResults m.store running listing) =
      mergedThreads m.store (orderedResults m.store running listing) ∧
    mergedOwners (aggregateThreadList m running listing).store (orderedResults m.store running listing) =
      mergedOwners m.store (orderedResults m.store running listing)

/-- The account with a newest copy lists a copy as new before any other of its copies. -/
def FirstIsNewest (candidates : List Candidate) : Prop :=
  ∀ c ∈ candidates, (∀ d ∈ candidates, Precedes c d) →
    ∀ f, (candidates.find? fun d => d.accountID = c.accountID) = some f →
      threadTime f.thread = threadTime c.thread

theorem find?_unique {α : Type} {p q : α → Bool} {l : List α} {x y : α} (hx : l.find? p = some x)
    (hy : l.find? q = some y) (hpy : p y = true) (hqx : q x = true) : x = y := by
  induction l with
  | nil => cases hx
  | cons a l ih =>
    rw [List.find?_cons] at hx hy
    cases hp : p a with
    | true =>
      rw [hp] at hx
      obtain rfl := Option.some.inj hx
      rw [hqx] at hy
      exact Option.some.inj hy
    | false =>
      cases hq : q a with
      | true =>
        rw [hq] at hy
        obtain rfl := Option.some.inj hy
        rw [hp] at hpy
        cases hpy
      | false =>
        rw [hp] at hx
        rw [hq] at hy
        exact ih hx hy

theorem find?_pairwise {α : Type} {R : α → α → Prop} {p : α → Bool} {l : List α} {x y : α}
    (hl : l.Pairwise R) (hrefl : ∀ a, R a a) (hx : l.find? p = some x) (hy : y ∈ l)
    (hpy : p y = true) : R x y := by
  obtain ⟨-, before, after, rfl, hbefore⟩ := List.find?_eq_some_iff_append.mp hx
  rcases List.mem_append.mp hy with hy | hy
  · have hnot := hbefore y hy
    rw [hpy] at hnot
    cases hnot
  · rcases List.mem_cons.mp hy with rfl | hy
    · exact hrefl y
    · exact (List.pairwise_cons.mp (List.pairwise_append.mp hl).2.1).1 y hy

/-- The loop ends with the first of the copies that are as good as the one it ends with. -/
theorem find?_foldl_newer (others : List Candidate) (first best : Candidate)
    (h : others.foldl (fun selected c => if newer c selected then c else selected) first = best)
    (p : Candidate → Bool) (hp : ∀ d, p d = true ↔ Precedes d best) :
    (first :: others).find? p = some best := by
  induction others generalizing first with
  | nil =>
    obtain rfl : first = best := h
    rw [List.find?_cons, (hp first).mpr (.refl first)]
  | cons c rest ih =>
    have hrest := ih (if newer c first then c else first) h
    have hbest := precedes_foldl rest (if newer c first then c else first) _ List.mem_cons_self
    rw [← List.foldl_cons, h] at hbest
    cases hn : newer c first with
    | true =>
      rw [hn] at hrest hbest
      have hfirst : p first = false := by
        rw [Bool.eq_false_iff, Ne, hp]
        exact fun hpre => newer_iff.mp hn (hpre.trans hbest)
      rw [List.find?_cons, hfirst]
      exact hrest
    | false =>
      rw [hn] at hrest
      have hle : Precedes first c := not_not.mp fun hnot => by
        rw [newer_iff.mpr hnot] at hn
        cases hn
      rw [if_neg Bool.false_ne_true, List.find?_cons] at hrest
      cases hf : p first with
      | true =>
        rw [List.find?_cons, hf]
        rwa [hf] at hrest
      | false =>
        have hc : p c = false := by
          rw [Bool.eq_false_iff, Ne, hp]
          intro hpre
          rw [(hp first).mpr (hle.trans hpre)] at hf
          cases hf
        rw [List.find?_cons, hf, List.find?_cons, hc]
        rwa [hf] at hrest

theorem indexed_orderedResults (s : Store) (running : GoString → Bool) (listing : ℕ → Listing) :
    Indexed (orderedResults s running listing) := by
  intro i r hr
  rw [orderedResults, List.getElem?_mapIdx] at hr
  obtain ⟨a, -, rfl⟩ := Option.map_eq_some_iff.mp hr
  rfl

theorem pairwise_candidatesOf {results : List ThreadListResult} (h : Indexed results)
    (id : GoString) :
    (candidatesOf results id).Pairwise fun c d => c.accountIndex ≤ d.accountIndex := by
  have hresults : results.Pairwise fun r r' => r.index < r'.index := by
    refine List.pairwise_iff_getElem.mpr fun i j hi hj hij => ?_
    rwa [h i _ (List.getElem?_eq_getElem hi), h j _ (List.getElem?_eq_getElem hj)]
  refine List.Pairwise.filter _ (List.pairwise_flatMap.mpr ⟨fun r _ => ?_, hresults.imp ?_⟩)
  · exact List.pairwise_map.mpr (List.pairwise_of_forall fun _ _ => le_rfl)
  · intro r r' hlt c hc d hd
    obtain ⟨_, -, rfl⟩ := List.mem_map.mp hc
    obtain ⟨_, -, rfl⟩ := List.mem_map.mp hd
    exact hlt.le

theorem accountID_of_index {results : List ThreadListResult} (h : Indexed results) {id : GoString}
    {c d : Candidate} (hc : c ∈ candidatesOf results id) (hd : d ∈ candidatesOf results id)
    (hindex : c.accountIndex = d.accountIndex) : c.accountID = d.accountID := by
  obtain ⟨r, hr, _, -, -, rfl⟩ := mem_candidatesOf.mp hc
  obtain ⟨r', hr', _, -, -, rfl⟩ := mem_candidatesOf.mp hd
  obtain ⟨i, hi⟩ := List.mem_iff_getElem?.mp hr
  obtain ⟨j, hj⟩ := List.mem_iff_getElem?.mp hr'
  have hij : i = j := (h i r hi).symm.trans (hindex.trans (h j r' hj))
  rw [hij] at hi
  rw [Option.some.inj (hi.symm.trans hj)]

theorem selectCandidate_of_owner {owner : Option GoString} {first f : Candidate}
    {others : List Candidate}
    (h : ((first :: others).find? fun c => some c.accountID = owner) = some f) :
    selectCandidate owner first others = f := by
  unfold selectCandidate
  rw [h]

theorem selectCandidate_of_none {owner : Option GoString} {first : Candidate}
    {others : List Candidate} (h : ∀ d ∈ first :: others, some d.accountID ≠ owner) :
    selectCandidate owner first others =
      others.foldl (fun selected c => if newer c selected then c else selected) first := by
  have hnone : ((first :: others).find? fun c => some c.accountID = owner) = none :=
    List.find?_eq_none.mpr fun d hd => by simpa using h d hd
  unfold selectCandidate
  rw [hnone]

/-- The persisted account's first copy is the newest one that was selected before. -/
theorem reselect {first : Candidate} {others : List Candidate} {owner : Option GoString}
    (hpair : (first :: others).Pairwise fun c d => c.accountIndex ≤ d.accountIndex)
    (hnone : ∀ d ∈ first :: others, some d.accountID ≠ owner)
    (hfirst : FirstIsNewest (first :: others)) :
    selectCandidate (some (selectCandidate owner first others).accountID) first others =
      selectCandidate owner first others := by
  have hmem := selectCandidate_mem owner first others
  rw [selectCandidate_of_none hnone] at hmem ⊢
  generalize hbest : others.foldl (fun selected c => if newer c selected then c else selected) first =
    best at hmem ⊢
  have hprecedes : ∀ d ∈ first :: others, Precedes best d := hbest ▸ precedes_foldl others first
  cases hf : (first :: others).find? fun d => d.accountID = best.accountID with
  | none => exact absurd (by simp) (List.find?_eq_none.mp hf best hmem)
  | some f =>
    have htime := hfirst best hmem hprecedes f hf
    have hindex := find?_pairwise hpair (fun _ => le_rfl) hf hmem (by simp)
    classical
    have hfind := find?_foldl_newer others first best hbest (fun d => Precedes d best)
      (fun d => decide_eq_true_iff)
    have hfbest := find?_unique hf hfind (by simp)
      (decide_eq_true ⟨htime.symm.le, fun _ => hindex⟩)
    exact selectCandidate_of_owner (by simpa [hfbest] using hf)

theorem selected_of_owner {s s' : Store} {id : GoString} (candidates : List Candidate)
    (h : s'.threadOwner id = s.threadOwner id) : selected s' (id, candidates) = selected s (id, candidates) := by
  unfold selected
  rw [h]

/-- The merge depends on the store only through the copies it selects. -/
theorem merged_congr {s s' : Store} {results : List ThreadListResult}
    (h : ∀ id, id ≠ [] → Listed results id →
      selected s' (id, candidatesOf results id) = selected s (id, candidatesOf results id)) :
    mergedThreads s' results = mergedThreads s results ∧
      mergedOwners s' results = mergedOwners s results := by
  have hentries : ∀ e ∈ (groupCandidates results).toList, selected s' e = selected s e := by
    intro e he
    obtain ⟨hid, hcandidates, hl⟩ := mem_entries.mp he
    have := h e.1 hid hl
    rwa [← hcandidates] at this
  have hmerge : mergeThreads s' (groupCandidates results).toList results =
      mergeThreads s (groupCandidates results).toList results := by
    unfold mergeThreads
    rw [List.filterMap_congr fun e he => congrArg (Option.map Candidate.thread) (hentries e he),
      List.filterMap_congr fun e he =>
        congrArg (Option.map fun c : Candidate => (e.1, c.accountID)) (hentries e he)]
  rw [mergedThreads, mergedThreads, ← owners_mergeThreads s (.refl _),
    ← owners_mergeThreads s' (.refl _), hmerge]
  exact ⟨rfl, rfl⟩

/-- The owner of a listed thread after its listing was merged. -/
theorem threadOwner_after {m : Machine} (hids : ∀ a ∈ m.store.accounts, a.id ≠ [])
    {running : GoString → Bool} {listing : ℕ → Listing} {id : GoString} (hid : id ≠ [])
    (hl : Listed (orderedResults m.store running listing) id) :
    (((∃ id, id ≠ [] ∧ Listed (orderedResults m.store running listing) id ∧
          validThreadID id = false) ∨ m.nextFails) ∧
        (aggregateThreadList m running listing).store.threadOwner id = m.store.threadOwner id) ∨
      (aggregateThreadList m running listing).store.threadOwner id =
        some (chosenOwner (m.store.threadOwner id)
          (candidatesOf (orderedResults m.store running listing) id)) := by
  have hmerged := getElem?_mergedOwners m.store (orderedResults m.store running listing) id
  rw [if_neg (not_or.mpr ⟨hid, listed_iff.mp hl⟩)] at hmerged
  rcases setThreadOwners_owners m (mergedOwners m.store (orderedResults m.store running listing))
    id with ⟨hsame, hrejected | hfails | hequal⟩ | ⟨-, -, hnew⟩
  · exact .inl ⟨.inl (merged_batch_rejected hrejected), hsame⟩
  · exact .inl ⟨.inr hfails, hsame⟩
  · have hentry := hequal _ (Std.ExtTreeMap.mem_toList_iff_getElem?_eq_some.mpr hmerged)
    have hne := chosenOwner_ne_nil hids hl
    right
    refine hsame.trans ?_
    cases ho : m.store.threadOwner id with
    | none =>
      rw [ho] at hentry hne
      exact absurd hentry.symm hne
    | some owner =>
      rw [ho] at hentry
      exact congrArg some hentry
  · right
    change (aggregateThreadList m running listing).store.threadOwner id = _ at hnew
    rw [hnew, hmerged]
    rfl

theorem threadOwner_uncommitted {m : Machine} {running : GoString → Bool} {listing : ℕ → Listing}
    (h : (∃ id, id ≠ [] ∧ Listed (orderedResults m.store running listing) id ∧
      validThreadID id = false) ∨ m.nextFails) (id : GoString) :
    (aggregateThreadList m running listing).store.threadOwner id = m.store.threadOwner id := by
  rcases setThreadOwners_owners m (mergedOwners m.store (orderedResults m.store running listing))
    id with ⟨hsame, -⟩ | ⟨hok, hwrite, -⟩
  · exact hsame
  · rcases h with ⟨id', hid', hl', hv⟩ | hfails
    · exact absurd hok (rejected_of_invalid hid' hl' hv)
    · exact absurd hfails hwrite

/-- Merging the same results again, after the owners were persisted, gives the same copies and
owners exactly when the batch was not committed, because of a listed invalid id or because the
write failed, or for every thread that its owner has not listed the account with the newest
copy lists a copy as new first. -/
theorem relists_iff {m : Machine} (hids : ∀ a ∈ m.store.accounts, a.id ≠ [])
    (running : GoString → Bool) (listing : ℕ → Listing) :
    RelistsTheSame m running listing ↔
      (∃ id, id ≠ [] ∧ Listed (orderedResults m.store running listing) id ∧
        validThreadID id = false) ∨
      m.nextFails ∨
      ∀ id, id ≠ [] → Listed (orderedResults m.store running listing) id →
        (∀ owner, m.store.threadOwner id = some owner →
          ¬ Received (orderedResults m.store running listing) owner id) →
        FirstIsNewest (candidatesOf (orderedResults m.store running listing) id) := by
  have hindexed := indexed_orderedResults m.store running listing
  constructor
  · rintro ⟨hthreads, -⟩
    by_contra hcon
    obtain ⟨hinvalid, hcon⟩ := not_or.mp hcon
    obtain ⟨hwrite, hcon⟩ := not_or.mp hcon
    refine hcon fun id hid hl hunlisted c hc hbest f hf => ?_
    have howner := (threadOwner_after hids hid hl).resolve_left
      fun h => not_or.mpr ⟨hinvalid, hwrite⟩ h.1
    obtain ⟨c', hc', hselected, hchosen, hkept⟩ := exists_selected (s := m.store) hl
    rw [hchosen] at howner
    -- The owner did not list the thread, so a newest copy was kept: of the account of `c`.
    have hnewest : ∀ d ∈ candidatesOf (orderedResults m.store running listing) id, Precedes c' d := by
      rcases hkept with hkept | ⟨-, hkept⟩
      · exact absurd (received_iff.mpr ⟨c', hc', rfl⟩) (hunlisted _ hkept.symm)
      · exact hkept
    have htime : threadTime c'.thread = threadTime c.thread :=
      le_antisymm (hbest c' hc').1 (hnewest c hc).1
    have hindex : c'.accountIndex = c.accountIndex :=
      le_antisymm ((hnewest c hc).2 htime.symm) ((hbest c' hc').2 htime)
    have haccount := accountID_of_index hindexed hc' hc hindex
    -- The second merge takes that account's first copy.
    have hagain : selected (aggregateThreadList m running listing).store
        (id, candidatesOf (orderedResults m.store running listing) id) = some f := by
      obtain ⟨first, others, he⟩ := List.exists_cons_of_ne_nil (listed_iff.mp hl)
      rw [he] at hf ⊢
      unfold selected
      rw [howner, haccount]
      exact congrArg some (selectCandidate_of_owner (by simpa using hf))
    have hfirst := filter_mergedThreads hid hl hselected
    have hsecond := filter_mergedThreads hid hl hagain
    rw [hthreads, hfirst] at hsecond
    rw [← (List.cons.inj hsecond).1, htime]
  · intro h
    refine merged_congr fun id hid hl => ?_
    rcases threadOwner_after hids hid hl with ⟨-, hsame⟩ | hchosen
    · exact selected_of_owner _ hsame
    · rw [← or_assoc] at h
      rcases h with huncommitted | hfirst
      · exact selected_of_owner _ (threadOwner_uncommitted huncommitted id)
      · obtain ⟨first, others, he⟩ := List.exists_cons_of_ne_nil (listed_iff.mp hl)
        have hpair := pairwise_candidatesOf hindexed id
        rw [he] at hpair hchosen
        by_cases hreceived : ∃ owner, m.store.threadOwner id = some owner ∧
            Received (orderedResults m.store running listing) owner id
        · obtain ⟨owner, ho, hr⟩ := hreceived
          have hkept := chosenOwner_eq_owner (received_iff.mp hr)
          rw [he] at hkept
          rw [ho, hkept] at hchosen
          exact selected_of_owner _ (hchosen.trans ho.symm)
        · have hunlisted : ∀ owner, m.store.threadOwner id = some owner →
              ¬ Received (orderedResults m.store running listing) owner id :=
            fun owner ho hr => hreceived ⟨owner, ho, hr⟩
          have hnewest := hfirst id hid hl hunlisted
          rw [he] at hnewest
          have hnone : ∀ d ∈ first :: others, some d.accountID ≠ m.store.threadOwner id :=
            fun d hd ho => hunlisted _ ho.symm (received_iff.mpr ⟨d, he ▸ hd, rfl⟩)
          rw [he]
          unfold selected
          rw [hchosen]
          exact congrArg some (reselect hpair hnone hnewest)

def shiftedListing (_ : ℕ) : Listing := ⟨[thread "t" 1, thread "t" 2], none⟩

def settledListing (_ : ℕ) : Listing := ⟨[thread "t" 2, thread "t" 1], none⟩

theorem relists_settled : RelistsTheSame (twoAccounts (lit "b")) (fun id => id = lit "a") settledListing := by
  refine (relists_iff (by decide) _ _).mpr (.inr (.inr fun id hid hl _ => ?_))
  obtain ⟨r, hr, t, ht, rfl⟩ := hl
  have hresults : orderedResults (twoAccounts (lit "b")).store (fun id => id = lit "a") settledListing =
      [⟨0, lit "a", [thread "t" 2, thread "t" 1], none⟩] := rfl
  rw [hresults] at hr ⊢
  rw [List.mem_singleton.mp hr] at ht
  have hid : threadID t = lit "t" := by
    rcases List.mem_cons.mp ht with rfl | ht
    · decide
    · rw [List.mem_singleton.mp ht]
      decide
  have hcandidates : candidatesOf [⟨0, lit "a", [thread "t" 2, thread "t" 1], none⟩] (threadID t) =
      [⟨lit "a", 0, thread "t" 2⟩, ⟨lit "a", 0, thread "t" 1⟩] := by
    rw [hid]
    rfl
  rw [hcandidates]
  intro c hc hbest f hf
  rcases List.mem_cons.mp hc with rfl | hc
  · exact congrArg (fun c : Candidate => threadTime c.thread) (Option.some.inj hf).symm
  · rw [List.mem_singleton.mp hc] at hbest
    exact absurd (hbest _ List.mem_cons_self).1 (by decide)

/-- The newer copy is kept first, and the older one when the same listing is merged again. -/
theorem relisting_returns_older_copy :
    ¬ RelistsTheSame (twoAccounts (lit "b")) (fun id => id = lit "a") shiftedListing := by
  rintro ⟨hthreads, -⟩
  have hold : (mergedThreads (aggregateThreadList (twoAccounts (lit "b")) (fun id => id = lit "a")
      shiftedListing).store (orderedResults (twoAccounts (lit "b")).store (fun id => id = lit "a")
        shiftedListing)).map threadTime = [1] := by
    decide
  have hnew : (mergedThreads (twoAccounts (lit "b")).store (orderedResults (twoAccounts (lit "b")).store
      (fun id => id = lit "a") shiftedListing)).map threadTime = [2] := by
    decide
  rw [hthreads, hnew] at hold
  exact absurd hold (by decide)

end SubscriptionRouter.ThreadMerge
