import Mathlib
import SubscriptionRouter.GoText
import SubscriptionRouter.Locks
import SubscriptionRouter.Transitions

set_option autoImplicit false

/-!
# One lock for each thread

`lockThread` makes the lock of a thread when it is first asked for, counts who has a reference to
it, and lets the last one take it out of the table. The table has a lock of its own, so what is done
under it is one step, and locking or unlocking a thread's mutex is another.
-/
namespace SubscriptionRouter.ThreadLocks
open GoText Locks Tallies Transitions

/-- What a call of `lockThread`, or the release it gave, does next. -/
inductive Stage where
  | find
  | lock (k : ℕ)
  | unlock (k : ℕ)
  | drop (k : ℕ)
  deriving DecidableEq

structure Call where
  threadID : GoString
  stage : Stage
  deriving DecidableEq

/-- The locks that were made are numbered. -/
structure State where
  refs : List ℤ
  locked : Finset ℕ
  threadLocks : GoMap ℕ
  calls : List Call

def initial : State := ⟨[], ∅, ∅, []⟩

/-- The lock in the table, or a new one, with one reference more. -/
def find (s : State) (threadID : GoString) : ℕ × State :=
  match s.threadLocks[threadID]? with
  | some k => (k, { s with refs := s.refs.modify k (· + 1) })
  | none => (s.refs.length, { s with
      refs := s.refs ++ [1], threadLocks := s.threadLocks.insert threadID s.refs.length })

/-- One reference less, and without the last one the entry goes. -/
def drop (s : State) (threadID : GoString) (k : ℕ) : State :=
  let refs := s.refs.modify k (· - 1)
  { s with
    refs := refs
    threadLocks := if refs[k]? = some 0 then s.threadLocks.erase threadID else s.threadLocks }

inductive Label where
  | enter (threadID : GoString)
  | run (i : ℕ)

/-- A goroutine calls `lockThread`, or a call goes on. It goes to the end of the list. -/
def step (s : State) : Label → Option State
  | .enter threadID => some { s with calls := s.calls ++ [⟨threadID, .find⟩] }
  | .run i => do
    let c ← s.calls[i]?
    let others := s.calls.eraseIdx i
    match c.stage with
    | .find =>
      let found := find s c.threadID
      some { found.2 with calls := others ++ [⟨c.threadID, .lock found.1⟩] }
    | .lock k =>
      if k ∈ s.locked then none
      else some { s with locked := insert k s.locked, calls := others ++ [⟨c.threadID, .unlock k⟩] }
    | .unlock k => some { s with locked := s.locked.erase k, calls := others ++ [⟨c.threadID, .drop k⟩] }
    | .drop k => some { drop s c.threadID k with calls := others }

/-! ## What the calls have -/

/-- The lock that a call has a reference to. -/
def Call.ref (c : Call) : Option ℕ :=
  match c.stage with
  | .find => none
  | .lock k | .unlock k | .drop k => some k

/-- The lock whose mutex a call holds. -/
def Call.holds (c : Call) : Option ℕ :=
  match c.stage with
  | .unlock k => some k
  | _ => none

/-- The lock whose mutex a call is about to take. -/
def Call.waits (c : Call) : Option ℕ :=
  match c.stage with
  | .lock k => some k
  | _ => none

/-- The lock that a call has unlocked, and whose reference it still has. -/
def Call.leaves (c : Call) : Option ℕ :=
  match c.stage with
  | .drop k => some k
  | _ => none

def references (calls : List Call) (k : ℕ) : ℕ := calls.countP fun c => c.ref = some k

structure Inv (s : State) : Prop where
  exclusive : Exclusive Call.holds s.locked s.calls
  entered : ∀ c ∈ s.calls, ∀ k : ℕ, c.ref = some k → s.threadLocks[c.threadID]? = some k
  counted : ∀ (threadID : GoString) (k : ℕ), s.threadLocks[threadID]? = some k →
    s.refs[k]? = some (references s.calls k : ℤ) ∧ 0 < references s.calls k
  apart : ∀ (threadID threadID' : GoString) (k : ℕ),
    s.threadLocks[threadID]? = some k → s.threadLocks[threadID']? = some k → threadID = threadID'

theorem holds_ref {c : Call} {k : ℕ} (h : c.holds = some k) : c.ref = some k := by
  obtain ⟨threadID, stage⟩ := c
  cases stage with
  | unlock k' => exact h
  | _ => cases h

theorem inv_initial : Inv initial where
  exclusive := exclusive_nil
  entered := nofun
  counted := by simp [initial]
  apart := by simp [initial]

section Steps
variable {s s' : State} {i k : ℕ} {c c' : Call} {threadID : GoString}

theorem references_same (hc : s.calls[i]? = some c) (hsame : c'.ref = c.ref) (j : ℕ) :
    references (s.calls.eraseIdx i ++ [c']) j = references s.calls j := by
  unfold references
  rw [countP_eraseIdx _ hc, countP_concat, hsame]

theorem references_gained (hc : s.calls[i]? = some c) (hnone : c.ref = none)
    (hgained : c'.ref = some k) (j : ℕ) :
    references (s.calls.eraseIdx i ++ [c']) j = references s.calls j + if j = k then 1 else 0 := by
  unfold references
  rw [countP_eraseIdx _ hc, countP_concat, hnone, hgained]
  by_cases h : j = k
  · simp [h]
  · simp [h, Ne.symm h]

theorem references_lost (hc : s.calls[i]? = some c) (hlost : c.ref = some k) (j : ℕ) :
    references s.calls j = references (s.calls.eraseIdx i) j + if j = k then 1 else 0 := by
  unfold references
  rw [countP_eraseIdx _ hc, hlost]
  by_cases h : j = k
  · simp [h]
  · simp [h, Ne.symm h]

/-- A call takes or gives back the mutex, and keeps its reference. -/
theorem Inv.move (h : Inv s) (hc : s.calls[i]? = some c) {locked : Finset ℕ}
    (hexclusive : Exclusive Call.holds locked (s.calls.eraseIdx i ++ [c']))
    (hthread : c'.threadID = c.threadID) (hsame : c'.ref = c.ref) :
    Inv { s with locked := locked, calls := s.calls.eraseIdx i ++ [c'] } where
  exclusive := hexclusive
  entered := by
    intro d hd k hk
    rcases List.mem_append.mp hd with hd | hd
    · exact h.entered d (mem_of_eraseIdx hd) k hk
    · obtain rfl := List.mem_singleton.mp hd
      rw [hthread]
      exact h.entered c (List.mem_of_getElem? hc) k (hsame ▸ hk)
  counted := by
    intro threadID k hk
    rw [references_same hc hsame]
    exact h.counted threadID k hk
  apart := h.apart

theorem Inv.find_entry (h : Inv s) (hc : s.calls[i]? = some ⟨threadID, .find⟩)
    (hk : s.threadLocks[threadID]? = some k) :
    Inv { s with refs := s.refs.modify k (· + 1), calls := s.calls.eraseIdx i ++ [⟨threadID, .lock k⟩] } where
  exclusive := h.exclusive.advance hc rfl
  entered := by
    intro d hd j hj
    rcases List.mem_append.mp hd with hd | hd
    · exact h.entered d (mem_of_eraseIdx hd) j hj
    · obtain rfl := List.mem_singleton.mp hd
      obtain rfl := Option.some.inj hj
      exact hk
  counted := by
    intro threadID' j hj
    obtain ⟨hrefs, hpos⟩ := h.counted threadID' j hj
    rw [references_gained hc rfl rfl, List.getElem?_modify, hrefs]
    by_cases hjk : k = j
    · subst hjk
      simp
    · simp [hjk, Ne.symm hjk, hpos]
  apart := h.apart

theorem Inv.find_new (h : Inv s) (hc : s.calls[i]? = some ⟨threadID, .find⟩)
    (hnone : s.threadLocks[threadID]? = none) :
    Inv { s with refs := s.refs ++ [1], threadLocks := s.threadLocks.insert threadID s.refs.length,
                 calls := s.calls.eraseIdx i ++ [⟨threadID, .lock s.refs.length⟩] } := by
  have hbelow {threadID : GoString} {k : ℕ} (hk : s.threadLocks[threadID]? = some k) : k < s.refs.length :=
    (List.getElem?_eq_some_iff.mp (h.counted threadID k hk).1).choose
  have hfresh : references s.calls s.refs.length = 0 := by
    refine List.countP_eq_zero.mpr fun d hd href => ?_
    exact absurd (hbelow (h.entered d hd _ (of_decide_eq_true href))) (lt_irrefl _)
  have hlookup (threadID' : GoString) (j : ℕ) :
      (s.threadLocks.insert threadID s.refs.length)[threadID']? = some j ↔
        (threadID' = threadID ∧ j = s.refs.length) ∨ s.threadLocks[threadID']? = some j := by
    rw [Std.ExtTreeMap.getElem?_insert]
    by_cases hsame : threadID = threadID'
    · subst hsame
      simp [hnone, eq_comm]
    · have hne : ¬ compare threadID threadID' = .eq := fun heq => hsame (Std.LawfulEqCmp.eq_of_compare heq)
      rw [if_neg hne]
      simp [Ne.symm hsame]
  refine ⟨h.exclusive.advance hc rfl, fun d hd j hj => ?_, fun threadID' j hj => ?_, fun a b j ha hb => ?_⟩
  · rw [hlookup]
    rcases List.mem_append.mp hd with hd | hd
    · exact .inr (h.entered d (mem_of_eraseIdx hd) j hj)
    · obtain rfl := List.mem_singleton.mp hd
      exact .inl ⟨rfl, (Option.some.inj hj).symm⟩
  · rw [references_gained hc rfl rfl]
    rcases (hlookup threadID' j).mp hj with ⟨-, rfl⟩ | hj
    · rw [hfresh]
      simp
    · have hlt := hbelow hj
      obtain ⟨hrefs, hpos⟩ := h.counted threadID' j hj
      rw [List.getElem?_append_left hlt, hrefs, if_neg (Nat.ne_of_lt hlt)]
      exact ⟨rfl, hpos⟩
  · rcases (hlookup a j).mp ha with ⟨rfl, rfl⟩ | ha'
    · rcases (hlookup b _).mp hb with ⟨rfl, -⟩ | hb'
      · rfl
      · exact absurd (hbelow hb') (lt_irrefl _)
    · rcases (hlookup b j).mp hb with ⟨rfl, rfl⟩ | hb'
      · exact absurd (hbelow ha') (lt_irrefl _)
      · exact h.apart a b j ha' hb'

/-- The entry stays exactly while another call has a reference to its lock. -/
theorem drop_lookup (hrefs : s.refs[k]? = some (references s.calls k : ℤ))
    (hc : s.calls[i]? = some ⟨threadID, .drop k⟩) (threadID' : GoString) (j : ℕ) :
    (drop s threadID k).threadLocks[threadID']? = some j ↔
      s.threadLocks[threadID']? = some j ∧
        (threadID' = threadID → 0 < references (s.calls.eraseIdx i) k) := by
  have hk := references_lost hc (k := k) rfl k
  rw [if_pos rfl] at hk
  have hafter : (s.refs.modify k (· - 1))[k]? = some (references (s.calls.eraseIdx i) k : ℤ) := by
    rw [List.getElem?_modify, hrefs, hk]
    simp
  unfold drop
  simp only [hafter, Option.some.injEq, Nat.cast_eq_zero]
  by_cases hlast : references (s.calls.eraseIdx i) k = 0
  · rw [if_pos hlast, Std.ExtTreeMap.getElem?_erase, hlast]
    by_cases hsame : threadID = threadID'
    · simp [hsame]
    · have hne : ¬ compare threadID threadID' = .eq := fun heq => hsame (Std.LawfulEqCmp.eq_of_compare heq)
      simp [hne, Ne.symm hsame]
  · rw [if_neg hlast]
    simp [Nat.pos_of_ne_zero hlast]

theorem Inv.dropped (h : Inv s) (hc : s.calls[i]? = some ⟨threadID, .drop k⟩) :
    Inv { drop s threadID k with calls := s.calls.eraseIdx i } := by
  have hentry : s.threadLocks[threadID]? = some k := h.entered _ (List.mem_of_getElem? hc) k rfl
  have hrefs := (h.counted threadID k hentry).1
  have hlookup := drop_lookup hrefs hc
  have hlost := references_lost hc (k := k) rfl
  have hexclusive : Exclusive Call.holds s.locked (s.calls.eraseIdx i) := by
    rw [← List.append_nil (s.calls.eraseIdx i)]
    exact h.exclusive.leave hc rfl (List.forall_mem_nil _)
  refine ⟨hexclusive, fun d hd j hj => ?_, fun threadID' j hj => ?_, fun a b j ha hb => ?_⟩
  · have hd' := h.entered d (mem_of_eraseIdx hd) j hj
    refine (hlookup _ _).mpr ⟨hd', fun hsame => ?_⟩
    -- the call that stays has the lock of the same thread
    rw [hsame, hentry] at hd'
    obtain rfl := Option.some.inj hd'
    exact List.countP_pos_iff.mpr ⟨d, hd, decide_eq_true hj⟩
  · obtain ⟨hj', hstays⟩ := (hlookup _ _).mp hj
    have hcount := hlost j
    obtain ⟨hrefs', hpos'⟩ := h.counted threadID' j hj'
    by_cases hsame : threadID' = threadID
    · subst hsame
      obtain rfl : j = k := Option.some.inj (hj'.symm.trans hentry)
      refine ⟨?_, hstays rfl⟩
      change (s.refs.modify j (· - 1))[j]? = _
      rw [List.getElem?_modify, hrefs', hcount, if_pos rfl]
      simp
    · have hne : j ≠ k := by
        rintro rfl
        exact hsame (h.apart _ _ _ hj' hentry)
      rw [if_neg hne, Nat.add_zero] at hcount
      refine ⟨?_, hcount ▸ hpos'⟩
      change (s.refs.modify k (· - 1))[j]? = _
      rw [List.getElem?_modify, hrefs', hcount]
      simp [Ne.symm hne]
  · exact h.apart a b j ((hlookup a j).mp ha).1 ((hlookup b j).mp hb).1

theorem Inv.enter (h : Inv s) (threadID : GoString) :
    Inv { s with calls := s.calls ++ [⟨threadID, .find⟩] } where
  exclusive := h.exclusive.enter rfl
  entered := by
    intro d hd k hk
    rcases List.mem_append.mp hd with hd | hd
    · exact h.entered d hd k hk
    · obtain rfl := List.mem_singleton.mp hd
      cases hk
  counted := by
    intro threadID' k hk
    have hcount : references (s.calls ++ [⟨threadID, .find⟩]) k = references s.calls k :=
      countP_concat _ _ _
    rw [hcount]
    exact h.counted threadID' k hk
  apart := h.apart

end Steps

theorem inv_step {s s' : State} {l : Label} (h : Inv s) (hstep : step s l = some s') : Inv s' := by
  cases l with
  | enter threadID =>
    obtain rfl := Option.some.inj hstep
    exact h.enter threadID
  | run i =>
    cases hc : s.calls[i]? with
    | none => simp [step, hc] at hstep
    | some c =>
      obtain ⟨threadID, stage⟩ := c
      cases stage with
      | find =>
        simp only [step, hc, Option.bind_eq_bind, Option.bind_some, Option.some.injEq] at hstep
        subst hstep
        cases hk : s.threadLocks[threadID]? with
        | some k =>
          simp only [find, hk]
          exact h.find_entry hc hk
        | none =>
          simp only [find, hk]
          exact h.find_new hc hk
      | lock k =>
        simp only [step, hc, Option.bind_eq_bind, Option.bind_some] at hstep
        by_cases hfree : k ∈ s.locked
        · rw [if_pos hfree] at hstep
          cases hstep
        · rw [if_neg hfree, Option.some.injEq] at hstep
          subst hstep
          have hexclusive : Exclusive Call.holds (insert k s.locked)
              (s.calls.eraseIdx i ++ [⟨threadID, .unlock k⟩]) := h.exclusive.acquire hc hfree rfl rfl
          exact h.move hc hexclusive rfl rfl
      | unlock k =>
        simp only [step, hc, Option.bind_eq_bind, Option.bind_some, Option.some.injEq] at hstep
        subst hstep
        have hexclusive : Exclusive Call.holds (s.locked.erase k)
            (s.calls.eraseIdx i ++ [⟨threadID, .drop k⟩]) :=
          h.exclusive.release hc rfl (List.forall_mem_singleton.mpr rfl)
        exact h.move hc hexclusive rfl rfl
      | drop k =>
        simp only [step, hc, Option.bind_eq_bind, Option.bind_some, Option.some.injEq] at hstep
        subst hstep
        exact h.dropped hc

theorem reachable_inv {s : State} (h : Reachable (Fires step) (· = initial) s) : Inv s :=
  h.invariant (fun _ hs => hs ▸ inv_initial) fun _ _ _ => inv_step

/-! ## The calls for one thread -/

def State.holders (s : State) (threadID : GoString) : ℕ :=
  s.calls.countP fun c => c.threadID = threadID ∧ c.holds.isSome

def State.waiters (s : State) (threadID : GoString) : ℕ :=
  s.calls.countP fun c => c.threadID = threadID ∧ c.waits.isSome

def State.leaving (s : State) (threadID : GoString) : ℕ :=
  s.calls.countP fun c => c.threadID = threadID ∧ c.leaves.isSome

section Calls
variable {s : State} {threadID : GoString} {k : ℕ}

theorem countP_ref (calls : List Call) (threadID : GoString) :
    calls.countP (fun c => c.threadID = threadID ∧ c.ref.isSome) =
      calls.countP (fun c => c.threadID = threadID ∧ c.holds.isSome) +
      calls.countP (fun c => c.threadID = threadID ∧ c.waits.isSome) +
      calls.countP (fun c => c.threadID = threadID ∧ c.leaves.isSome) := by
  induction calls with
  | nil => rfl
  | cons c calls ih =>
    simp only [countP_cons_toNat, ih]
    obtain ⟨threadID', stage⟩ := c
    cases stage <;> simp [Call.ref, Call.holds, Call.waits, Call.leaves] <;> omega

theorem Inv.references_eq (h : Inv s) (hk : s.threadLocks[threadID]? = some k) :
    references s.calls k = s.holders threadID + s.waiters threadID + s.leaving threadID := by
  unfold State.holders State.waiters State.leaving
  rw [← countP_ref]
  refine List.countP_congr fun c hc => ?_
  rw [decide_eq_true_iff, decide_eq_true_iff, Option.isSome_iff_exists]
  constructor
  · intro href
    exact ⟨h.apart _ _ k (h.entered c hc k href) hk, k, href⟩
  · rintro ⟨rfl, j, hj⟩
    rw [hj, ← hk, h.entered c hc j hj]

theorem Inv.no_calls (h : Inv s) (hnone : s.threadLocks[threadID]? = none) :
    s.holders threadID + s.waiters threadID + s.leaving threadID = 0 := by
  unfold State.holders State.waiters State.leaving
  rw [← countP_ref, List.countP_eq_zero]
  intro c hc hcall
  obtain ⟨rfl, hsome⟩ := of_decide_eq_true hcall
  obtain ⟨k, hk⟩ := Option.isSome_iff_exists.mp hsome
  rw [h.entered c hc k hk] at hnone
  cases hnone

theorem Inv.one_holder (h : Inv s) (threadID : GoString) : s.holders threadID ≤ 1 := by
  cases hk : s.threadLocks[threadID]? with
  | none =>
    have := h.no_calls hk
    omega
  | some k =>
    have hle : s.holders threadID ≤ s.calls.countP fun c => c.holds = some k := by
      refine List.countP_mono_left fun c hc hcall => ?_
      obtain ⟨rfl, hsome⟩ := of_decide_eq_true hcall
      obtain ⟨j, hj⟩ := Option.isSome_iff_exists.mp hsome
      have hentry := h.entered c hc j (holds_ref hj)
      rw [hk] at hentry
      rw [hj, ← hentry]
      exact decide_eq_true rfl
    rw [h.exclusive k] at hle
    by_cases hlocked : k ∈ s.locked
    · rwa [if_pos hlocked] at hle
    · rw [if_neg hlocked] at hle
      omega

end Calls

/-- Between unlocking and giving its reference back a call neither holds nor waits. -/
theorem named_mutex {s : State} (h : Reachable (Fires step) (· = initial) s) (threadID : GoString) :
    s.holders threadID ≤ 1 ∧
      (∀ c ∈ s.calls, c.threadID = threadID → ∀ k, c.ref = some k → s.threadLocks[threadID]? = some k) ∧
      (∀ k, s.threadLocks[threadID]? = some k →
        s.refs[k]? = some (s.holders threadID + s.waiters threadID + s.leaving threadID : ℤ)) ∧
      (s.threadLocks[threadID]?.isSome ↔
        0 < s.holders threadID + s.waiters threadID + s.leaving threadID) := by
  have hinv := reachable_inv h
  refine ⟨hinv.one_holder threadID, ?_, ?_, ?_⟩
  · rintro c hc rfl k hk
    exact hinv.entered c hc k hk
  · intro k hk
    rw [(hinv.counted threadID k hk).1, hinv.references_eq hk]
    push_cast
    rfl
  · cases hk : s.threadLocks[threadID]? with
    | none => simp [hinv.no_calls hk]
    | some k =>
      have hpos := (hinv.counted threadID k hk).2
      rw [hinv.references_eq hk] at hpos
      simpa using hpos

/-- One call has unlocked and has not given its reference back. -/
theorem counted_while_leaving :
    ∃ s, Reachable (Fires step) (· = initial) s ∧ s.threadLocks[lit "a"]? = some 0 ∧
      s.refs[0]? = some 1 ∧ s.holders (lit "a") + s.waiters (lit "a") = 0 := by
  have h : (exec step initial [.enter (lit "a"), .run 0, .run 0, .run 0]).any
      (fun s => s.threadLocks[lit "a"]? = some 0 ∧ s.refs[0]? = some 1 ∧
        s.holders (lit "a") + s.waiters (lit "a") = 0) = true := by decide
  obtain ⟨s, hr, hs⟩ := runs_of_exec_any h
  exact ⟨s, ⟨_, _, rfl, hr⟩, of_decide_eq_true hs⟩

/-- While one call for a thread waits, another holds its lock. -/
theorem named_mutex_waiting :
    ∃ s : State, s.holders (lit "a") ≤ 1 ∧ 0 < s.waiters (lit "a") ∧ s.threadLocks[lit "a"]?.isSome := by
  have h : (exec step initial [.enter (lit "a"), .enter (lit "a"), .run 0, .run 0, .run 0]).any
      (fun s => s.waiters (lit "a") = 1) = true := by decide
  obtain ⟨s, hr, hs⟩ := runs_of_exec_any h
  have hwaiters : s.waiters (lit "a") = 1 := of_decide_eq_true hs
  have hmutex := named_mutex ⟨_, _, rfl, hr⟩ (lit "a")
  refine ⟨s, hmutex.1, by omega, hmutex.2.2.2.mpr (by omega)⟩

end SubscriptionRouter.ThreadLocks
