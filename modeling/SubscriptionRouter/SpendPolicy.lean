import Mathlib
import SubscriptionRouter.GoText

set_option autoImplicit false

/-!
# The spend policy

`internal/spend/policy.go`: which subscription pays for the next inference. A
`float64` is a rational number, an infinity or a NaN, and the clock is an integer.
-/
namespace SubscriptionRouter.SpendPolicy
open GoText

inductive Quantity where
  | finite (q : ℚ)
  | infinite (negative : Bool)
  | nan
  deriving DecidableEq

def Quantity.value : Quantity → ℚ
  | .finite q => q
  | _ => 0

structure Mode where
  accountID : GoString
  deriving DecidableEq

structure Candidate where
  id : GoString
  enabled : Bool
  connected : Bool
  known : Bool
  remaining : Quantity
  urgency : Quantity
  observedAt : ℤ
  deriving DecidableEq

structure Decision where
  sequence : ℕ
  policyRevision : ℕ
  accountID : GoString
  reason : GoString
  deriving DecidableEq

inductive ReserveError where
  | invalidIdentity
  | unavailable
  | noCapacity
  deriving DecidableEq

def ReserveError.text : ReserveError → GoString
  | .invalidIdentity => lit "invalid duplicate or empty subscription identity"
  | .unavailable => lit "selected subscription is unavailable; no other subscription was charged"
  | .noCapacity => lit "no subscription has known available capacity"

structure Policy where
  mode : Mode
  revision : ℕ
  sequence : ℕ
  inflight : GoMap ℤ
  maxAge : ℤ

def Policy.new (maxAge : ℤ) : Policy := ⟨⟨[]⟩, 0, 0, ∅, maxAge⟩

def Policy.set (p : Policy) (mode : Mode) : Policy :=
  if p.mode ≠ mode then { p with mode := mode, revision := (p.revision + 1) % 2 ^ 64 } else p

/-- A candidate that could pay under any mode. -/
def Candidate.usable (c : Candidate) (now maxAge : ℤ) : Bool :=
  let age := now - c.observedAt
  c.enabled && c.connected && c.known && 0 ≤ age && age ≤ maxAge &&
    (match c.remaining with
      | .finite q => 0 < q && q ≤ 100
      | _ => false) &&
    (match c.urgency with
      | .finite _ => true
      | _ => false)

def Mode.admits (m : Mode) (id : GoString) : Bool := m.accountID = [] || m.accountID = id

/-- The loop over the candidates, which stops at an empty or repeated identity. -/
def Policy.eligible (p : Policy) (now : ℤ) (seen : List GoString) :
    List Candidate → Option (List Candidate)
  | [] => some []
  | c :: cs =>
    if c.id = [] ∨ c.id ∈ seen then none
    else (p.eligible now (c.id :: seen) cs).map fun rest =>
      if c.usable now p.maxAge && p.mode.admits c.id then c :: rest else rest

def Policy.load (p : Policy) (id : GoString) : ℤ := (p.inflight[id]?).getD 0

/-- Addition of the 64-bit type `int`. -/
def addInt (a b : ℤ) : ℤ := (a + b).bmod (2 ^ 64)

/-- The order of the sort: each response in flight lowers the urgency of its account. -/
def Policy.before (p : Policy) (a b : Candidate) : Bool :=
  let x := a.urgency.value / addInt 1 (p.load a.id)
  let y := b.urgency.value / addInt 1 (p.load b.id)
  if x ≠ y then y < x
  else if p.load a.id ≠ p.load b.id then p.load a.id < p.load b.id
  else if a.remaining.value ≠ b.remaining.value then b.remaining.value < a.remaining.value
  else a.id < b.id

def Policy.choose (p : Policy) (eligible : List Candidate) : Option Candidate :=
  (eligible.insertionSort fun a b => p.before b a = false).head?

def Policy.reserve (p : Policy) (now : ℤ) (candidates : List Candidate) :
    Except ReserveError Decision × Policy :=
  match p.eligible now [] candidates with
  | none => (.error .invalidIdentity, p)
  | some eligible => match p.choose eligible with
    | none => (.error (if p.mode.accountID ≠ [] then .unavailable else .noCapacity), p)
    | some c =>
      let sequence := (p.sequence + 1) % 2 ^ 64
      let reason := if p.mode.accountID ≠ [] then lit "strict" else lit "auto"
      (.ok ⟨sequence, p.revision, c.id, reason⟩, { p with
        inflight := p.inflight.insert c.id (addInt (p.load c.id) 1)
        sequence := sequence })

/-- The body of a release closure, which its `sync.Once` runs one time only. -/
def Policy.release (p : Policy) (id : GoString) : Policy :=
  let count := addInt (p.load id) (-1)
  { p with inflight := if count = 0 then p.inflight.erase id else p.inflight.insert id count }

@[simp] theorem set_mode (p : Policy) (mode : Mode) : (p.set mode).mode = mode := by
  unfold Policy.set
  split
  · rfl
  · rename_i h
    exact not_not.mp h

@[simp] theorem release_mode (p : Policy) (id : GoString) : (p.release id).mode = p.mode := rfl

@[simp] theorem reserve_mode (p : Policy) (now : ℤ) (candidates : List Candidate) :
    (p.reserve now candidates).2.mode = p.mode := by
  unfold Policy.reserve
  split
  · rfl
  · split <;> rfl

theorem mem_eligible {p : Policy} {now : ℤ} {seen : List GoString} {candidates l : List Candidate}
    (h : p.eligible now seen candidates = some l) {c : Candidate} (hc : c ∈ l) :
    c ∈ candidates ∧ c.usable now p.maxAge = true ∧ p.mode.admits c.id = true := by
  induction candidates generalizing seen l with
  | nil =>
    cases h
    cases hc
  | cons d ds ih =>
    simp only [Policy.eligible] at h
    split at h
    · cases h
    · obtain ⟨rest, hrest, rfl⟩ := Option.map_eq_some_iff.mp h
      split at hc
      · rename_i hd
        rcases List.mem_cons.mp hc with rfl | hc
        · exact ⟨List.mem_cons_self, Bool.and_eq_true_iff.mp hd⟩
        · exact (ih hrest hc).imp_left (List.mem_cons_of_mem _)
      · exact (ih hrest hc).imp_left (List.mem_cons_of_mem _)

theorem choose_mem {p : Policy} {eligible : List Candidate} {c : Candidate}
    (h : p.choose eligible = some c) : c ∈ eligible :=
  (List.perm_insertionSort _ eligible).mem_iff.mp (List.mem_of_mem_head? h)

/-- A reservation that fails changes nothing. -/
theorem reserve_cases (p : Policy) (now : ℤ) (candidates : List Candidate) :
    (∃ e, p.reserve now candidates = (.error e, p)) ∨
    ∃ id reason, p.reserve now candidates =
      (.ok ⟨(p.sequence + 1) % 2 ^ 64, p.revision, id, reason⟩, { p with
        inflight := p.inflight.insert id (addInt (p.load id) 1)
        sequence := (p.sequence + 1) % 2 ^ 64 }) := by
  unfold Policy.reserve
  split
  · exact .inl ⟨_, rfl⟩
  · split
    · exact .inl ⟨_, rfl⟩
    · rename_i c _
      exact .inr ⟨c.id, _, rfl⟩

theorem reserve_strict {p : Policy} {now : ℤ} {candidates : List Candidate} {d : Decision}
    (hmode : p.mode.accountID ≠ []) (h : (p.reserve now candidates).1 = .ok d) :
    d.accountID = p.mode.accountID := by
  unfold Policy.reserve at h
  split at h
  · cases h
  · rename_i eligible he
    split at h
    · cases h
    · rename_i c hc
      cases h
      obtain ⟨_, _, hadmits⟩ := mem_eligible he (choose_mem hc)
      simp only [Mode.admits, Bool.or_eq_true, decide_eq_true_eq] at hadmits
      exact (hadmits.resolve_left hmode).symm

end SubscriptionRouter.SpendPolicy
