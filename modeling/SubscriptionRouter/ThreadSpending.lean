import Mathlib
import SubscriptionRouter.SpendGateway
import SubscriptionRouter.StoreOpen
import SubscriptionRouter.Tallies

set_option autoImplicit false

/-!
# Who paid for a thread

`acceptThreadSpend` keeps, for each thread, the accepted request that was dispatched last.
The records arrive in the order in which the responses finish, and writing the sidecar
file of a thread may fail.
-/
namespace SubscriptionRouter.ThreadSpending
open GoText SpendGateway StoreState StoreOpen Tallies

structure ThreadSpend where
  threadID : GoString
  accountID : GoString
  accountLabel : GoString
  sequence : ℕ
  acceptedAt : ℤ
  deriving DecidableEq

def ThreadSpend.validate (r : ThreadSpend) : Bool :=
  validThreadID r.threadID && r.threadID.length ≤ 64 && validAccountID r.accountID &&
    r.accountLabel.length ≤ 256 && r.sequence ≠ 0 && r.acceptedAt ≠ 0

/-- Whether `SaveThreadSpend` returns an error. -/
def saveFails (r : ThreadSpend) (writeFails : Bool) : Bool := !r.validate || writeFails

structure Observations where
  threadSpending : GoMap ThreadSpend
  threadSpendUnsaved : GoMap Bool

def Observations.empty : Observations := ⟨∅, ∅⟩

structure Event where
  type : GoString
  accountID : GoString
  data : ThreadSpend
  deriving DecidableEq

/-- A record, the time at which it is accepted and what becomes of its file. -/
structure Delivery where
  record : Record
  acceptedAt : ℤ
  writeFails : Bool

def updated (observation : ThreadSpend) : Event :=
  ⟨lit "thread-spending-updated", observation.accountID, observation⟩

def acceptThreadSpend (s : Store) (o : Observations) (d : Delivery) : Observations × Option Event :=
  let record := d.record
  if record.status < 200 ∨ 300 ≤ record.status ∨ record.outcome ≠ .accepted ∨
      record.threadID = [] ∨ 64 < record.threadID.length ∨ record.decision.sequence = 0 then
    (o, none)
  else match s.account record.decision.accountID with
    | none => (o, none)
    | some account =>
      -- The order of dispatch counts, not the order in which the responses finish.
      if (o.threadSpending[record.threadID]?).any fun previous =>
          record.decision.sequence ≤ previous.sequence then (o, none)
      else
        let observation : ThreadSpend :=
          ⟨record.threadID, account.id, account.label, record.decision.sequence, d.acceptedAt⟩
        (⟨o.threadSpending.insert record.threadID observation,
          o.threadSpendUnsaved.insert record.threadID (saveFails observation d.writeFails)⟩,
          some (updated observation))

def acceptEach (s : Store) (o : Observations) : List Delivery → Observations × List (Option Event)
  | [] => (o, [])
  | d :: ds =>
    let accepted := acceptThreadSpend s o d
    let rest := acceptEach s accepted.1 ds
    (rest.1, accepted.2 :: rest.2)

/-! ## The observation of a record -/

/-- What a valid record would be kept as. -/
def Delivery.observation (s : Store) (d : Delivery) : Option ThreadSpend :=
  if d.record.status < 200 ∨ 300 ≤ d.record.status ∨ d.record.outcome ≠ .accepted ∨
      d.record.threadID = [] ∨ 64 < d.record.threadID.length ∨ d.record.decision.sequence = 0 then
    none
  else (s.account d.record.decision.accountID).map fun account =>
    ⟨d.record.threadID, account.id, account.label, d.record.decision.sequence, d.acceptedAt⟩

variable {s : Store} {o : Observations} {d : Delivery} {ds : List Delivery} {obs : ThreadSpend}

theorem accept_of_none (h : d.observation s = none) : acceptThreadSpend s o d = (o, none) := by
  unfold Delivery.observation at h
  unfold acceptThreadSpend
  dsimp only
  split
  · rfl
  · rename_i hok
    rw [if_neg hok, Option.map_eq_none_iff] at h
    rw [h]

theorem accept_of_some (h : d.observation s = some obs) : acceptThreadSpend s o d =
    if (o.threadSpending[obs.threadID]?).any fun previous => obs.sequence ≤ previous.sequence then
      (o, none)
    else (⟨o.threadSpending.insert obs.threadID obs,
      o.threadSpendUnsaved.insert obs.threadID (saveFails obs d.writeFails)⟩,
      some (updated obs)) := by
  unfold Delivery.observation at h
  split at h
  · cases h
  · rename_i hok
    obtain ⟨account, haccount, rfl⟩ := Option.map_eq_some_iff.mp h
    unfold acceptThreadSpend
    dsimp only
    rw [if_neg hok, haccount]

theorem observation_sequence (h : d.observation s = some obs) :
    obs.sequence = d.record.decision.sequence := by
  unfold Delivery.observation at h
  split at h
  · cases h
  · obtain ⟨account, _, rfl⟩ := Option.map_eq_some_iff.mp h
    rfl

/-! ## What the deliveries leave -/

/-- The delivery is the one dispatched last among the valid ones of its thread. -/
def Latest (s : Store) (ds : List Delivery) (d : Delivery) (obs : ThreadSpend) : Prop :=
  d ∈ ds ∧ d.observation s = some obs ∧ ∀ e ∈ ds, ∀ other, e.observation s = some other →
    other.threadID = obs.threadID → other.sequence ≤ obs.sequence

def Unseen (s : Store) (ds : List Delivery) (t : GoString) : Prop :=
  ∀ d ∈ ds, ∀ obs, d.observation s = some obs → obs.threadID ≠ t

structure Settled (s : Store) (ds : List Delivery) (o : Observations)
    (events : List (Option Event)) : Prop where
  latest : ∀ d obs, Latest s ds d obs → o.threadSpending[obs.threadID]? = some obs ∧
    o.threadSpendUnsaved[obs.threadID]? = some (saveFails obs d.writeFails)
  unseen : ∀ t, Unseen s ds t →
    o.threadSpending[t]? = none ∧ o.threadSpendUnsaved[t]? = none
  length : events.length = ds.length
  published : ∀ (i : ℕ) (d : Delivery) (event : Event), ds[i]? = some d →
    (events[i]? = some (some event) ↔ ∃ obs, d.observation s = some obs ∧ event = updated obs ∧
      ∀ e ∈ ds.take i, ∀ other, e.observation s = some other → other.threadID = obs.threadID →
        other.sequence < obs.sequence)

/-- What the maps hold for a thread while the deliveries go on. -/
def Covered (s : Store) (ds : List Delivery) (o : Observations) (t : GoString) : Prop :=
  (o.threadSpending[t]? = none ∧ o.threadSpendUnsaved[t]? = none ∧ Unseen s ds t) ∨
  ∃ d obs, Latest s ds d obs ∧ obs.threadID = t ∧ o.threadSpending[t]? = some obs ∧
    o.threadSpendUnsaved[t]? = some (saveFails obs d.writeFails)

theorem unseen_concat {t : GoString} (h : Unseen s ds t)
    (hd : ∀ obs, d.observation s = some obs → obs.threadID ≠ t) : Unseen s (ds ++ [d]) t := by
  intro e he
  rcases List.mem_append.mp he with he | he
  · exact h e he
  · rw [List.mem_singleton.mp he]
    exact hd

theorem latest_concat {e : Delivery} {other : ThreadSpend} (h : Latest s ds e other)
    (hd : ∀ obs, d.observation s = some obs → obs.threadID = other.threadID →
      obs.sequence ≤ other.sequence) : Latest s (ds ++ [d]) e other := by
  obtain ⟨hmem, hobs, hmax⟩ := h
  refine ⟨List.mem_append_left _ hmem, hobs, fun f hf => ?_⟩
  rcases List.mem_append.mp hf with hf | hf
  · exact hmax f hf
  · rw [List.mem_singleton.mp hf]
    exact hd

theorem Covered.accept (h : ∀ t, Covered s ds o t) (d : Delivery) (t : GoString) :
    Covered s (ds ++ [d]) (acceptThreadSpend s o d).1 t := by
  cases hobs : d.observation s with
  | none =>
    rw [accept_of_none hobs]
    have hskip : ∀ obs, d.observation s ≠ some obs := by simp [hobs]
    rcases h t with ⟨hnone, hflag, hunseen⟩ | ⟨e, other, hlatest, ht, hkept, hflag⟩
    · exact .inl ⟨hnone, hflag, unseen_concat hunseen fun obs ho => absurd ho (hskip obs)⟩
    · exact .inr ⟨e, other, latest_concat hlatest fun obs ho => absurd ho (hskip obs), ht, hkept,
        hflag⟩
  | some obs =>
    rw [accept_of_some hobs]
    have honly : ∀ obs', d.observation s = some obs' → obs' = obs := by simp [hobs]
    split
    · rename_i hstale
      rcases h t with ⟨hnone, hflag, hunseen⟩ | ⟨e, other, hlatest, ht, hkept, hflag⟩
      · refine .inl ⟨hnone, hflag, unseen_concat hunseen fun obs' ho => ?_⟩
        rintro rfl
        rw [← honly obs' ho, hnone] at hstale
        cases hstale
      · refine .inr ⟨e, other, latest_concat hlatest fun obs' ho hthread => ?_, ht, hkept, hflag⟩
        rw [← honly obs' ho, hthread, ht, hkept] at hstale
        simpa using hstale
    · rename_i hnew
      by_cases ht : obs.threadID = t
      · refine .inr ⟨d, obs, ⟨List.mem_append_right _ (List.mem_singleton_self d), hobs, ?_⟩, ht,
          by rw [← ht, getElem?_insert_eq, if_pos rfl], by rw [← ht, getElem?_insert_eq, if_pos rfl]⟩
        intro e he other ho hthread
        rcases List.mem_append.mp he with he | he
        · rcases h t with ⟨_, _, hunseen⟩ | ⟨f, kept, hlatest, hkt, hkept, _⟩
          · exact absurd (hthread.trans ht) (hunseen e he other ho)
          · rw [ht, hkept] at hnew
            have hlt : kept.sequence < obs.sequence := by simpa using hnew
            exact (hlatest.2.2 e he other ho (hthread.trans (ht.trans hkt.symm))).trans hlt.le
        · rw [List.mem_singleton.mp he] at ho
          rw [honly other ho]
      · dsimp only
        rw [Covered, getElem?_insert_eq, if_neg ht, getElem?_insert_eq, if_neg ht]
        rcases h t with ⟨hnone, hflag, hunseen⟩ | ⟨e, other, hlatest, hot, hkept, hflag⟩
        · refine .inl ⟨hnone, hflag, unseen_concat hunseen fun obs' ho => ?_⟩
          rw [honly obs' ho]
          exact ht
        · refine .inr ⟨e, other, latest_concat hlatest fun obs' ho hthread => ?_, hot, hkept, hflag⟩
          rw [honly obs' ho, hot] at hthread
          exact absurd hthread ht

theorem acceptEach_append (o : Observations) (xs ys : List Delivery) :
    acceptEach s o (xs ++ ys) = ((acceptEach s (acceptEach s o xs).1 ys).1,
      (acceptEach s o xs).2 ++ (acceptEach s (acceptEach s o xs).1 ys).2) := by
  induction xs generalizing o with
  | nil => rfl
  | cons d xs ih => simp only [List.cons_append, acceptEach, ih]

theorem acceptEach_length (o : Observations) (ds : List Delivery) :
    (acceptEach s o ds).2.length = ds.length := by
  induction ds generalizing o with
  | nil => rfl
  | cons d ds ih => simp only [acceptEach, List.length_cons, ih]

theorem acceptEach_covered (ds : List Delivery) (t : GoString) :
    Covered s ds (acceptEach s .empty ds).1 t := by
  induction ds using List.reverseRecOn generalizing t with
  | nil => exact .inl ⟨rfl, rfl, fun d hd => absurd hd List.not_mem_nil⟩
  | append_singleton ds d ih =>
    rw [acceptEach_append]
    exact Covered.accept ih d t

theorem accept_publishes_iff (h : ∀ t, Covered s ds o t) (d : Delivery) (event : Event) :
    (acceptThreadSpend s o d).2 = some event ↔ ∃ obs, d.observation s = some obs ∧
      event = updated obs ∧ ∀ e ∈ ds, ∀ other, e.observation s = some other →
        other.threadID = obs.threadID → other.sequence < obs.sequence := by
  cases hobs : d.observation s with
  | none => simp [accept_of_none hobs]
  | some obs =>
    rw [accept_of_some hobs]
    simp only [Option.some.injEq, exists_eq_left']
    split
    · rename_i hstale
      refine ⟨fun hevent => (nomatch hevent), fun ⟨_, hnew⟩ => ?_⟩
      rcases h obs.threadID with ⟨hnone, _⟩ | ⟨e, kept, hlatest, hthread, hkept, _⟩
      · rw [hnone] at hstale
        cases hstale
      · rw [hkept] at hstale
        have hle : obs.sequence ≤ kept.sequence := by simpa using hstale
        exact absurd (hnew e hlatest.1 kept hlatest.2.1 hthread) hle.not_gt
    · rename_i hfresh
      rw [Option.some.injEq]
      refine ⟨fun hevent => ⟨hevent.symm, fun e he other ho hother => ?_⟩, fun ⟨hevent, _⟩ => hevent.symm⟩
      rcases h obs.threadID with ⟨_, _, hunseen⟩ | ⟨f, kept, hlatest, hthread, hkept, _⟩
      · exact absurd hother (hunseen e he other ho)
      · rw [hkept] at hfresh
        have hlt : kept.sequence < obs.sequence := by simpa using hfresh
        exact (hlatest.2.2 e he other ho (hother.trans hthread.symm)).trans_lt hlt

/-- In whatever order the records of distinct dispatches are delivered, and whichever writes
fail, each thread keeps its last one, and each newer one is published. -/
theorem deliveries_settle (s : Store) {ds : List Delivery}
    (h : (ds.map fun d => d.record.decision.sequence).Nodup) :
    Settled s ds (acceptEach s .empty ds).1 (acceptEach s .empty ds).2 := by
  refine ⟨fun d obs hlatest => ?_, fun t hunseen => ?_, acceptEach_length _ ds, ?_⟩
  · rcases acceptEach_covered ds obs.threadID with
      ⟨_, _, hunseen⟩ | ⟨e, kept, hkept, hthread, hmap, hflag⟩
    · exact absurd rfl (hunseen d hlatest.1 obs hlatest.2.1)
    · -- Two last records have one sequence number, so they are one delivery.
      have hsequence : d.record.decision.sequence = e.record.decision.sequence := by
        rw [← observation_sequence hlatest.2.1, ← observation_sequence hkept.2.1]
        exact le_antisymm (hkept.2.2 d hlatest.1 obs hlatest.2.1 hthread.symm)
          (hlatest.2.2 e hkept.1 kept hkept.2.1 hthread)
      have hsame : d = e := List.inj_on_of_nodup_map h hlatest.1 hkept.1 hsequence
      have hobs : obs = kept := by
        have hd := hlatest.2.1
        rw [hsame, hkept.2.1] at hd
        exact (Option.some.inj hd).symm
      rw [hmap, hflag, hsame, hobs]
      exact ⟨rfl, rfl⟩
  · rcases acceptEach_covered ds t with ⟨hnone, hflag, _⟩ | ⟨e, kept, hkept, hthread, _⟩
    · exact ⟨hnone, hflag⟩
    · exact absurd hthread (hunseen e hkept.1 kept hkept.2.1)
  · intro i d event hd
    obtain ⟨hi, rfl⟩ := List.getElem?_eq_some_iff.mp hd
    have hsplit : ds = ds.take i ++ ds[i] :: ds.drop (i + 1) := by
      rw [List.getElem_cons_drop, List.take_append_drop]
    have hevent : (acceptEach s .empty ds).2[i]? =
        some (acceptThreadSpend s (acceptEach s .empty (ds.take i)).1 ds[i]).2 := by
      conv_lhs => rw [hsplit]
      have hlength : (acceptEach s .empty (ds.take i)).2.length = i := by
        rw [acceptEach_length, List.length_take, min_eq_left hi.le]
      rw [acceptEach_append, List.getElem?_append_right hlength.le, hlength, Nat.sub_self]
      rfl
    rw [hevent, Option.some_inj]
    exact accept_publishes_iff (acceptEach_covered _) ds[i] event

/-- An accepted request of account `a` for the thread `t`. -/
def spent (sequence : ℕ) (writeFails : Bool) : Delivery :=
  ⟨{ decision := ⟨sequence, 0, lit "a", lit "auto"⟩, status := 200, outcome := .accepted,
      threadID := lit "t" }, 1, writeFails⟩

theorem deliveries_settle_late :
    Settled (twoAccounts (lit "b")).store [spent 2 false, spent 1 false, spent 3 true]
      (acceptEach (twoAccounts (lit "b")).store .empty
        [spent 2 false, spent 1 false, spent 3 true]).1
      (acceptEach (twoAccounts (lit "b")).store .empty
        [spent 2 false, spent 1 false, spent 3 true]).2 :=
  deliveries_settle _ (by decide)

example : (acceptEach (twoAccounts (lit "b")).store .empty
    [spent 2 false, spent 1 false, spent 3 true]).1.threadSpendUnsaved[lit "t"]? = some true := by
  decide

end SubscriptionRouter.ThreadSpending
