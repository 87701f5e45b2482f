import Mathlib
import SubscriptionRouter.SpendPolicy
import SubscriptionRouter.Transitions

set_option autoImplicit false

/-!
# The accounts of the spend policy

`Set`, `Reserve` and the release closures take the policy's lock, so a run is a list
of their calls. Each successful reservation leaves a closure behind that may be
called at any time and any number of times.
-/
namespace SubscriptionRouter.SpendLeases
open GoText SpendPolicy Transitions

/-- A successful reservation, and whether its closure has been called. -/
structure Lease where
  decision : Decision
  released : Bool

structure Ledger where
  policy : Policy
  /-- In the order of reservation. -/
  leases : List Lease
  /-- How often the mode has changed. -/
  changes : ℕ

def Ledger.init (maxAge : ℤ) : Ledger := ⟨.new maxAge, [], 0⟩

inductive Call where
  | set (mode : Mode)
  | reserve (now : ℤ) (candidates : List Candidate)
  | release (i : ℕ)

def step (u : Ledger) : Call → Option Ledger
  | .set mode => some { u with
      policy := u.policy.set mode
      changes := if u.policy.mode ≠ mode then u.changes + 1 else u.changes }
  | .reserve now candidates =>
    let reserved := u.policy.reserve now candidates
    some { u with
      policy := reserved.2
      leases := match reserved.1 with
        | .ok d => u.leases ++ [⟨d, false⟩]
        | .error _ => u.leases }
  | .release i => u.leases[i]?.map fun lease =>
      if lease.released then u
      else { u with
        policy := u.policy.release lease.decision.accountID
        leases := u.leases.set i { lease with released := true } }

/-- The number of reservations for `id` whose release has not been called. -/
def outstanding (leases : List Lease) (id : GoString) : ℕ :=
  leases.countP fun lease => lease.decision.accountID = id ∧ lease.released = false

structure Accounted (u : Ledger) : Prop where
  inflight : ∀ id, u.policy.load id = outstanding u.leases id
  positive : ∀ (id : GoString) (n : ℤ), u.policy.inflight[id]? = some n → 0 < n
  ordered : (u.leases.map Lease.decision).Pairwise fun a b =>
    a.sequence < b.sequence ∧ a.policyRevision ≤ b.policyRevision

structure Within (u : Ledger) : Prop where
  reservations : u.leases.length < 2 ^ 64
  changes : u.changes < 2 ^ 64
  unreleased : ∀ id, outstanding u.leases id < 2 ^ 63

/-- The call leaves fewer than `2 ^ 64` reservations and mode changes behind, and fewer
than `2 ^ 63` reservations for one account that are not released. -/
def InRange (u : Ledger) (call : Call) : Prop := ∀ v, step u call = some v → Within v

/-! ## Sixty-four bits -/

theorem addInt_one {a : ℤ} (h : 0 ≤ a) (hmax : a + 1 < 2 ^ 63) : addInt a 1 = a + 1 := by
  rw [addInt, Int.bmod]
  split <;> omega

theorem addInt_neg_one {a : ℤ} (h : 0 < a) (hmax : a < 2 ^ 63) : addInt a (-1) = a - 1 := by
  rw [addInt, Int.bmod]
  split <;> omega

/-! ## What a call leaves -/

theorem load_insert (p : Policy) (id : GoString) (n : ℤ) (a : GoString) :
    Policy.load { p with inflight := p.inflight.insert id n } a = if id = a then n else p.load a := by
  unfold Policy.load
  rw [Std.ExtTreeMap.getElem?_insert]
  by_cases h : id = a
  · subst h
    simp
  · rw [if_neg fun he => h (Std.LawfulEqCmp.eq_of_compare he), if_neg h]

theorem load_erase (p : Policy) (id a : GoString) :
    Policy.load { p with inflight := p.inflight.erase id } a = if id = a then 0 else p.load a := by
  unfold Policy.load
  rw [Std.ExtTreeMap.getElem?_erase]
  by_cases h : id = a
  · subst h
    simp
  · rw [if_neg fun he => h (Std.LawfulEqCmp.eq_of_compare he), if_neg h]

theorem load_release (p : Policy) (id a : GoString) :
    (p.release id).load a = if id = a then addInt (p.load id) (-1) else p.load a := by
  unfold Policy.release
  dsimp only
  split
  · rename_i hzero
    rw [load_erase, hzero]
  · rw [load_insert]

/-! ## The counters below their limits -/

structure Inv (u : Ledger) : Prop where
  accounted : Accounted u
  sequence : u.policy.sequence = u.leases.length
  revision : u.policy.revision = u.changes
  issued : ∀ d ∈ u.leases.map Lease.decision,
    d.sequence ≤ u.leases.length ∧ d.policyRevision ≤ u.changes
  within : Within u

theorem inv_init (maxAge : ℤ) : Inv (Ledger.init maxAge) where
  accounted := ⟨fun _ => rfl, fun id n h => by simp [Ledger.init, Policy.new] at h, List.Pairwise.nil⟩
  sequence := rfl
  revision := rfl
  issued := fun _ h => nomatch h
  within := {
    reservations := by simp [Ledger.init]
    changes := by simp [Ledger.init]
    unreleased := fun _ => by simp [outstanding, Ledger.init] }

theorem outstanding_append (leases : List Lease) (d : Decision) (id : GoString) :
    outstanding (leases ++ [⟨d, false⟩]) id =
      outstanding leases id + if d.accountID = id then 1 else 0 := by
  unfold outstanding
  rw [List.countP_append]
  by_cases h : d.accountID = id <;> simp [h]

theorem outstanding_release {leases : List Lease} {i : ℕ} {lease : Lease}
    (hl : leases[i]? = some lease) (hopen : lease.released = false) (id : GoString) :
    outstanding leases id = outstanding (leases.set i { lease with released := true }) id +
      if lease.decision.accountID = id then 1 else 0 := by
  unfold outstanding
  obtain ⟨hi, rfl⟩ := List.getElem?_eq_some_iff.mp hl
  rw [List.countP_set hi]
  by_cases h : leases[i].decision.accountID = id
  · have hpos : 0 < leases.countP fun lease => lease.decision.accountID = id ∧ lease.released = false :=
      List.countP_pos_iff.mpr ⟨_, List.getElem_mem hi, by simp [h, hopen]⟩
    simp only [h, hopen, decide_true, and_self, if_true, Bool.true_eq_false, and_false,
      decide_false, Bool.false_eq_true, if_false, Nat.add_zero]
    omega
  · simp [h]

theorem decisions_release {leases : List Lease} {i : ℕ} {lease : Lease}
    (hl : leases[i]? = some lease) :
    (leases.set i { lease with released := true }).map Lease.decision =
      leases.map Lease.decision := by
  obtain ⟨hi, rfl⟩ := List.getElem?_eq_some_iff.mp hl
  refine List.ext_getElem? fun j => ?_
  by_cases hij : i = j
  · subst hij
    simp [hi]
  · simp [List.getElem?_set_ne hij]

section Steps
variable {u v : Ledger}

theorem Inv.set (hi : Inv u) {mode : Mode} (hrange : InRange u (.set mode)) :
    Inv { u with
      policy := u.policy.set mode
      changes := if u.policy.mode ≠ mode then u.changes + 1 else u.changes } := by
  have hwithin := hrange _ rfl
  have hchanges := hwithin.changes
  unfold Policy.set at hwithin ⊢
  split
  · rename_i hne
    simp only [if_pos hne] at hwithin hchanges
    exact {
      accounted := ⟨hi.accounted.inflight, hi.accounted.positive, hi.accounted.ordered⟩
      sequence := hi.sequence
      revision := by
        change (u.policy.revision + 1) % 2 ^ 64 = u.changes + 1
        rw [hi.revision, Nat.mod_eq_of_lt hchanges]
      issued := fun d hd => ⟨(hi.issued d hd).1, Nat.le_succ_of_le (hi.issued d hd).2⟩
      within := hwithin }
  · exact hi

theorem Inv.reserve (hi : Inv u) {id reason : GoString} (hwithin : Within { u with
      policy := { u.policy with
        inflight := u.policy.inflight.insert id (addInt (u.policy.load id) 1)
        sequence := (u.policy.sequence + 1) % 2 ^ 64 }
      leases := u.leases ++
        [⟨⟨(u.policy.sequence + 1) % 2 ^ 64, u.policy.revision, id, reason⟩, false⟩] }) :
    Inv { u with
      policy := { u.policy with
        inflight := u.policy.inflight.insert id (addInt (u.policy.load id) 1)
        sequence := (u.policy.sequence + 1) % 2 ^ 64 }
      leases := u.leases ++
        [⟨⟨(u.policy.sequence + 1) % 2 ^ 64, u.policy.revision, id, reason⟩, false⟩] } := by
  have hlength : u.leases.length + 1 < 2 ^ 64 := by
    simpa using hwithin.reservations
  have hout : outstanding u.leases id + 1 < 2 ^ 63 := by
    simpa only [outstanding_append, if_true] using hwithin.unreleased id
  have hload := hi.accounted.inflight id
  have hadd : addInt (u.policy.load id) 1 = u.policy.load id + 1 := by
    refine addInt_one ?_ ?_ <;> omega
  have hseq : (u.policy.sequence + 1) % 2 ^ 64 = u.leases.length + 1 := by
    rw [hi.sequence, Nat.mod_eq_of_lt hlength]
  rw [hadd, hseq, hi.revision] at hwithin ⊢
  let d : Decision := ⟨u.leases.length + 1, u.changes, id, reason⟩
  have hdecisions : (u.leases ++ ([⟨d, false⟩] : List Lease)).map Lease.decision =
      u.leases.map Lease.decision ++ [d] := List.map_append
  refine ⟨⟨fun a => ?_, fun a n ha => ?_, ?_⟩, ?_, hi.revision, fun e he => ?_, hwithin⟩
  · refine (load_insert _ id _ a).trans ?_
    rw [outstanding_append]
    by_cases h : id = a
    · subst h
      rw [if_pos rfl, if_pos rfl, hload]
      rfl
    · rw [if_neg h, if_neg h]
      exact hi.accounted.inflight a
  · change (u.policy.inflight.insert id _)[a]? = some n at ha
    rw [Std.ExtTreeMap.getElem?_insert] at ha
    split at ha
    · cases ha
      omega
    · exact hi.accounted.positive a n ha
  · rw [hdecisions]
    refine List.pairwise_append.mpr ⟨hi.accounted.ordered, List.pairwise_singleton _ _, ?_⟩
    intro a ha b hb
    obtain rfl := List.mem_singleton.mp hb
    exact ⟨Nat.lt_succ_of_le (hi.issued a ha).1, (hi.issued a ha).2⟩
  · simp
  · rw [hdecisions] at he
    rw [List.length_append]
    rcases List.mem_append.mp he with he | he
    · exact ⟨Nat.le_succ_of_le (hi.issued e he).1, (hi.issued e he).2⟩
    · obtain rfl := List.mem_singleton.mp he
      exact ⟨le_refl _, le_refl _⟩

theorem Inv.release (hi : Inv u) {i : ℕ} {lease : Lease} (hl : u.leases[i]? = some lease)
    (hopen : lease.released = false) (hwithin : Within { u with
      policy := u.policy.release lease.decision.accountID
      leases := u.leases.set i { lease with released := true } }) :
    Inv { u with
      policy := u.policy.release lease.decision.accountID
      leases := u.leases.set i { lease with released := true } } := by
  have hself := outstanding_release hl hopen
  have hdecisions := decisions_release hl
  generalize hid : lease.decision.accountID = id at hself hwithin ⊢
  have hload := hi.accounted.inflight id
  have hfew := hi.within.unreleased id
  have hone := hself id
  rw [if_pos rfl] at hone
  have hadd : addInt (u.policy.load id) (-1) = u.policy.load id - 1 := by
    refine addInt_neg_one ?_ ?_ <;> omega
  have hcount : ∀ a, (u.policy.release id).load a =
      outstanding (u.leases.set i { lease with released := true }) a := by
    intro a
    have ha := hi.accounted.inflight a
    rw [load_release, hadd]
    by_cases h : id = a
    · subst h
      rw [if_pos rfl]
      omega
    · rw [if_neg h, ha, hself a, if_neg h]
      rfl
  refine ⟨⟨hcount, fun a n ha => ?_, ?_⟩, ?_, hi.revision, fun d hd => ?_, hwithin⟩
  · change (u.policy.release id).inflight[a]? = some n at ha
    unfold Policy.release at ha
    rw [hadd] at ha
    dsimp only at ha
    split at ha
    · rw [Std.ExtTreeMap.getElem?_erase] at ha
      split at ha
      · cases ha
      · exact hi.accounted.positive a n ha
    · rw [Std.ExtTreeMap.getElem?_insert] at ha
      split at ha
      · cases ha
        omega
      · exact hi.accounted.positive a n ha
  · rw [hdecisions]
    exact hi.accounted.ordered
  · rw [List.length_set]
    exact hi.sequence
  · rw [hdecisions] at hd
    rw [List.length_set]
    exact hi.issued d hd

theorem Within.release (hwithin : Within u) {i : ℕ} (h : step u (.release i) = some v) : Within v := by
  obtain ⟨lease, hl, rfl⟩ := Option.map_eq_some_iff.mp h
  by_cases hreleased : lease.released
  · rw [if_pos hreleased]
    exact hwithin
  · rw [if_neg hreleased]
    refine ⟨(List.length_set ..).trans_lt hwithin.reservations, hwithin.changes, fun id => ?_⟩
    have hself := outstanding_release hl (by simpa using hreleased) id
    exact (Nat.le_of_add_right_le hself.ge).trans_lt (hwithin.unreleased id)

theorem Inv.step (hi : Inv u) {call : Call} (h : Guarded InRange (Fires step) u call v) : Inv v := by
  obtain ⟨hrange, h⟩ := h
  have hwithin := hrange v h
  cases call with
  | set mode =>
    cases h
    exact hi.set hrange
  | reserve now candidates =>
    cases h
    rcases reserve_cases u.policy now candidates with ⟨e, he⟩ | ⟨id, reason, hr⟩
    · rw [he]
      exact hi
    · rw [hr] at hwithin ⊢
      exact hi.reserve hwithin
  | release i =>
    obtain ⟨lease, hl, rfl⟩ := Option.map_eq_some_iff.mp h
    by_cases hreleased : lease.released
    · rw [if_pos hreleased]
      exact hi
    · rw [if_neg hreleased] at hwithin ⊢
      exact hi.release hl (by simpa using hreleased) hwithin

end Steps

/-- In a run that stays within the range of the counters the policy's accounts are right. -/
theorem runs_stay_accounted {maxAge : ℤ} {u : Ledger} {calls : List Call}
    (h : Runs (Guarded InRange (Fires step)) (Ledger.init maxAge) calls u) : Accounted u :=
  (h.invariant (inv_init maxAge) fun _ _ _ hi hs => hi.step hs).accounted

/-! ## Runs -/

def accountA : GoString := lit "a"

def idleA : Candidate := ⟨accountA, true, true, true, .finite 50, .finite 1, 0⟩

theorem idleA_usable : idleA.usable 0 0 = true := by decide

/-- A candidate that the mode admits is charged when it is the only one. -/
theorem reserve_idleA {u : Ledger} (hmode : u.policy.mode.admits accountA = true)
    (hage : u.policy.maxAge = 0) :
    ∃ v d, step u (.reserve 0 [idleA]) = some v ∧ v.leases = u.leases ++ [⟨d, false⟩] ∧
      d.accountID = accountA ∧ d.policyRevision = u.policy.revision ∧
      v.policy = { u.policy with
        inflight := u.policy.inflight.insert accountA (addInt (u.policy.load accountA) 1)
        sequence := (u.policy.sequence + 1) % 2 ^ 64 } := by
  have hid : ¬ (idleA.id = [] ∨ idleA.id ∈ ([] : List GoString)) := by decide
  have heligible : u.policy.eligible 0 [] [idleA] = some [idleA] := by
    have hadmits : u.policy.mode.admits idleA.id = true := hmode
    simp only [Policy.eligible, if_neg hid, Option.map_some, hage, idleA_usable, hadmits,
      Bool.and_self, if_true]
  have hchosen : u.policy.choose [idleA] = some idleA := by
    simp [Policy.choose]
  obtain ⟨reason, hreserve⟩ : ∃ reason, u.policy.reserve 0 [idleA] =
      (.ok ⟨(u.policy.sequence + 1) % 2 ^ 64, u.policy.revision, accountA, reason⟩, { u.policy with
        inflight := u.policy.inflight.insert accountA (addInt (u.policy.load accountA) 1)
        sequence := (u.policy.sequence + 1) % 2 ^ 64 }) := by
    rw [Policy.reserve, heligible]
    dsimp only
    rw [hchosen]
    exact ⟨_, rfl⟩
  refine ⟨_, ⟨(u.policy.sequence + 1) % 2 ^ 64, u.policy.revision, accountA, reason⟩, rfl, ?_⟩
  rw [hreserve]
  exact ⟨rfl, rfl, rfl, rfl⟩

theorem reserve_run {n : ℕ} (h : n < 2 ^ 63) :
    ∃ u, Runs (Guarded InRange (Fires step)) (Ledger.init 0)
        (List.replicate n (.reserve 0 [idleA])) u ∧
      u.policy.mode = ⟨[]⟩ ∧ u.policy.maxAge = 0 ∧ u.leases.length = n ∧
      ∀ id, outstanding u.leases id = if accountA = id then n else 0 := by
  induction n with
  | zero => exact ⟨_, .refl _, rfl, rfl, rfl, fun id => by simp [Ledger.init, outstanding]⟩
  | succ n ih =>
    obtain ⟨u, hr, hmode, hage, hlength, hout⟩ := ih (by omega)
    obtain ⟨v, d, hstep, hleases, hid, _, hpolicy⟩ := reserve_idleA (by rw [hmode]; rfl) hage
    have hi := hr.invariant (inv_init 0) fun _ _ _ hi hs => hi.step hs
    have hvlength : v.leases.length = n + 1 := by simp [hleases, hlength]
    have hvout : ∀ id, outstanding v.leases id = if accountA = id then n + 1 else 0 := by
      intro id
      rw [hleases, outstanding_append, hout, hid]
      split <;> rfl
    have hrange : InRange u (.reserve 0 [idleA]) := by
      rintro v' hv'
      obtain rfl := Option.some.inj (hstep.symm.trans hv')
      have hchanges : v.changes = u.changes := by
        cases hstep
        rfl
      refine ⟨by omega, hchanges ▸ hi.within.changes, fun id => ?_⟩
      rw [hvout]
      split <;> omega
    rw [List.replicate_succ']
    exact ⟨v, hr.tail ⟨hrange, hstep⟩, by rw [hpolicy, hmode], by rw [hpolicy, hage], hvlength, hvout⟩

/-- Two reservations, the first of which is released. -/
theorem runs_stay_accounted_released :
    ∃ u, Accounted u ∧ u.leases.length = 2 ∧ u.policy.load accountA = 1 := by
  obtain ⟨u, hr, hmode, hage, hlength, hout⟩ := reserve_run (n := 2) (by omega)
  have hall : u.leases.countP (fun lease => lease.decision.accountID = accountA ∧
      lease.released = false) = u.leases.length := (hout accountA).trans hlength.symm
  obtain ⟨lease, hl⟩ : ∃ lease, u.leases[0]? = some lease :=
    ⟨_, List.getElem?_eq_getElem (by omega)⟩
  obtain ⟨hid, hopen⟩ : lease.decision.accountID = accountA ∧ lease.released = false := by
    simpa using List.countP_eq_length.mp hall lease (List.mem_of_getElem? hl)
  have hreleased := outstanding_release hl hopen accountA
  rw [hout, if_pos rfl, if_pos hid] at hreleased
  have hstep : step u (.release 0) = some { u with
      policy := u.policy.release lease.decision.accountID
      leases := u.leases.set 0 { lease with released := true } } := by
    simp [step, hl, hopen]
  have hi := hr.invariant (inv_init 0) fun _ _ _ hi hs => hi.step hs
  have hrange : InRange u (.release 0) := fun _ hv => hi.within.release hv
  have haccounted := runs_stay_accounted (hr.tail ⟨hrange, hstep⟩)
  refine ⟨_, haccounted, by simp [hlength], ?_⟩
  rw [haccounted.inflight]
  dsimp only
  omega

theorem overflow_run : ∃ calls u, Runs (Fires step) (Ledger.init 0) calls u ∧
    u.leases.length = 2 ^ 63 ∧ u.policy.inflight[accountA]? = some (-2 ^ 63) := by
  obtain ⟨u, hr, hmode, hage, hlength, hout⟩ := reserve_run (n := 2 ^ 63 - 1) (by omega)
  have hi := hr.invariant (inv_init 0) fun _ _ _ hi hs => hi.step hs
  obtain ⟨v, d, hstep, hleases, _, _, hpolicy⟩ := reserve_idleA (by rw [hmode]; rfl) hage
  have hload : u.policy.load accountA = 2 ^ 63 - 1 := by
    rw [hi.accounted.inflight, hout, if_pos rfl]
    rfl
  refine ⟨_, v, hr.of_guarded.tail hstep, by simp [hleases, hlength], ?_⟩
  rw [hpolicy, hload]
  exact Std.ExtTreeMap.getElem?_insert_self

/-- The mode goes back and forth. -/
theorem toggle_run {u : Ledger} (hadmits : u.policy.mode.admits accountA = true)
    (hsmall : u.policy.revision < 2 ^ 64) (n : ℕ) :
    ∃ calls v, Runs (Fires step) u calls v ∧ v.leases = u.leases ∧
      v.policy.maxAge = u.policy.maxAge ∧ v.policy.mode.admits accountA = true ∧
      v.policy.revision = (u.policy.revision + n) % 2 ^ 64 := by
  induction n with
  | zero => exact ⟨[], u, .refl u, rfl, rfl, hadmits, (Nat.mod_eq_of_lt hsmall).symm⟩
  | succ n ih =>
    obtain ⟨calls, v, hr, hleases, hage, _, hrevision⟩ := ih
    have hother : ∃ mode : Mode, v.policy.mode ≠ mode ∧ mode.admits accountA = true := by
      by_cases h : v.policy.mode = ⟨[]⟩
      · exact ⟨⟨accountA⟩, by rw [h]; decide, by decide⟩
      · exact ⟨⟨[]⟩, h, by decide⟩
    obtain ⟨mode, hne, hadmits⟩ := hother
    refine ⟨_, _, hr.tail (show step v (.set mode) = some _ from rfl), hleases, ?_⟩
    simp only [Policy.set, if_pos hne]
    refine ⟨hage, hadmits, ?_⟩
    omega

theorem revision_run : ∃ calls u, Runs (Fires step) (Ledger.init 0) calls u ∧
    (u.leases.map Lease.decision).map Decision.policyRevision = [1, 0] := by
  have hset : Runs (Fires step) (Ledger.init 0) [.set ⟨accountA⟩]
      ⟨(Policy.new 0).set ⟨accountA⟩, [], 1⟩ := Runs.single rfl
  obtain ⟨u, d, hfirst, huleases, _, hd, hupolicy⟩ :=
    reserve_idleA (u := ⟨(Policy.new 0).set ⟨accountA⟩, [], 1⟩) (by decide) (by decide)
  have hone : u.policy.revision = 1 := by rw [hupolicy]; decide
  obtain ⟨calls, v, hr, hvleases, hage, hadmits, hrevision⟩ :=
    toggle_run (u := u) (by rw [hupolicy]; decide) (by omega) (2 ^ 64 - 1)
  obtain ⟨w, e, hsecond, hwleases, _, he, _⟩ :=
    reserve_idleA hadmits (hage.trans (by rw [hupolicy]; decide))
  refine ⟨_, w, ((hset.tail hfirst).trans hr).tail hsecond, ?_⟩
  have hzero : v.policy.revision = 0 := by omega
  have hpolicy : d.policyRevision = 1 := hd
  simp [hwleases, hvleases, huleases, hpolicy, he, hzero]

/-- Fewer than `2 ^ 64` reservations do not keep the count from becoming negative, nor
the revisions from going back. -/
theorem runs_leave_accounts :
    (∃ calls u, Runs (Fires step) (Ledger.init 0) calls u ∧ u.leases.length < 2 ^ 64 ∧
      ∃ n < 0, u.policy.inflight[accountA]? = some n) ∧
    ∃ calls u, Runs (Fires step) (Ledger.init 0) calls u ∧ u.leases.length < 2 ^ 64 ∧
      (u.leases.map Lease.decision).map Decision.policyRevision = [1, 0] := by
  constructor
  · obtain ⟨calls, u, hr, hlength, hinflight⟩ := overflow_run
    exact ⟨calls, u, hr, by omega, _, by norm_num, hinflight⟩
  · obtain ⟨calls, u, hr, hrevisions⟩ := revision_run
    have hlength := congrArg List.length hrevisions
    simp only [List.length_map, List.length_cons, List.length_nil] at hlength
    exact ⟨calls, u, hr, by omega, hrevisions⟩

end SubscriptionRouter.SpendLeases
