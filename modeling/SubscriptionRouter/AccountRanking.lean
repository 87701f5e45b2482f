import Mathlib
import SubscriptionRouter.AccountChooser
import SubscriptionRouter.Rankings

set_option autoImplicit false

/-!
# The ranking of the accounts

`chooseAccountExcluding` sorts the accounts that its loop has accepted and selects the
first one. Urgencies and usages are compared with a tolerance, here rational numbers in
place of `float64`.
-/
namespace SubscriptionRouter.AccountRanking
open GoText StoreState Rankings

structure RouteReason where
  selection : GoString
  threadCount : ℤ
  deriving DecidableEq

structure Candidate where
  account : Account
  reason : RouteReason
  weeklyUsed : ℚ
  shortUsed : ℚ
  urgency : ℚ
  deriving DecidableEq

def errNoSubscriptionCapacity : GoString := lit "no enabled ChatGPT subscription has capacity"

/-- The comparison that the sort is given. -/
def less (left right : Candidate) : Bool :=
  if 0.000001 < |left.urgency - right.urgency| then right.urgency < left.urgency
  else if 0.001 < |left.shortUsed - right.shortUsed| then left.shortUsed < right.shortUsed
  else if 0.001 < |left.weeklyUsed - right.weeklyUsed| then left.weeklyUsed < right.weeklyUsed
  else if left.reason.threadCount ≠ right.reason.threadCount then
    left.reason.threadCount < right.reason.threadCount
  else left.account.createdAt < right.account.createdAt

def chooseRanked (mode : RoutingMode) (candidates : List Candidate) :
    Except GoString (Account × RouteReason) :=
  match sliceStable less candidates with
  | [] => .error errNoSubscriptionCapacity
  | first :: _ => .ok (first.account, { first.reason with
      selection := if mode.mode = lit "account" then lit "preferred-fallback" else lit "auto" })

/-- The comparison orders the candidates, and the selection depends on nothing else. -/
structure Consistent (candidates : List Candidate) : Prop where
  order : StrictWeak less candidates
  same : ∀ mode : RoutingMode, ∀ candidates', candidates.Perm candidates' →
    chooseRanked mode candidates' = chooseRanked mode candidates
  best : ∀ c, (sliceStable less candidates).head? = some c → ∀ d ∈ candidates, less d c = false

def createdBefore (left right : Candidate) : Bool :=
  left.account.createdAt < right.account.createdAt

def keys : List (Key Candidate) :=
  [⟨fun c => c.urgency, 0.000001, by norm_num⟩, ⟨fun c => -c.shortUsed, 0.001, by norm_num⟩,
    ⟨fun c => -c.weeklyUsed, 0.001, by norm_num⟩, ⟨fun c => -c.reason.threadCount, 0, le_rfl⟩]

theorem less_eq_rank : less = rank createdBefore keys := by
  funext left right
  have hneg : ∀ a b : ℚ, |-a - -b| = |a - b| := by
    intro a b
    rw [neg_sub_neg, abs_sub_comm]
  simp only [less, keys, rank, Key.apart, hneg, abs_pos, sub_ne_zero, ne_eq, decide_eq_true_eq,
    neg_lt_neg_iff, Int.cast_inj, Int.cast_lt, createdBefore]

theorem createdBefore_total {candidates : List Candidate}
    (h : (candidates.map fun c => c.account.createdAt).Nodup) :
    StrictTotal createdBefore candidates where
  irrefl x _ := decide_eq_false (lt_irrefl x.account.createdAt)
  trans x _ y _ z _ hxy hyz :=
    decide_eq_true (lt_trans (of_decide_eq_true hxy) (of_decide_eq_true hyz))
  separates x hx y hy hxy hyx := by
    have hle := not_lt.mp (of_decide_eq_false hxy)
    have hge := not_lt.mp (of_decide_eq_false hyx)
    exact List.inj_on_of_nodup_map h hx hy (le_antisymm hge hle)

/-- The ranking is consistent exactly when no three candidates are straddled by a tolerance. -/
theorem consistent_iff {candidates : List Candidate}
    (h : (candidates.map fun c => c.account.createdAt).Nodup) :
    Consistent candidates ↔ ∀ x ∈ candidates, ∀ y ∈ candidates, ∀ z ∈ candidates,
      straddled createdBefore keys x y z = false := by
  have hlast := createdBefore_total h
  constructor
  · intro hc
    exact (strictWeak_rank_iff hlast).mp (less_eq_rank ▸ hc.order)
  · intro hs
    have htotal : StrictTotal less candidates := less_eq_rank ▸ strictTotal_rank hlast hs
    refine ⟨htotal.weak, fun mode candidates' hp => ?_, fun c hc d hd => ?_⟩
    · rw [chooseRanked, chooseRanked, htotal.sliceStable_eq hp]
    · have hperm := perm_sliceStable less candidates
      exact head_unbeaten (htotal.of_perm hperm.symm).irrefl htotal.weak.pairwise_sliceStable hc d
        (hperm.mem_iff.mpr hd)

/-- The urgency of an account with 60 percent left whose weekly window ends after so many seconds. -/
def urgencyAfter (seconds : ℚ) : ℚ := 60 / (seconds / 3600)

/-- The weekly windows of the three accounts end one second apart. -/
def first : Candidate :=
  ⟨⟨lit "a", lit "a", lit "a", true, true, 1⟩, ⟨[], 0⟩, 40, 30, urgencyAfter 604798⟩

def second : Candidate :=
  ⟨⟨lit "b", lit "b", lit "b", true, false, 2⟩, ⟨[], 0⟩, 40, 20, urgencyAfter 604799⟩

def third : Candidate :=
  ⟨⟨lit "c", lit "c", lit "c", true, false, 3⟩, ⟨[], 0⟩, 40, 10, urgencyAfter 604800⟩

theorem consistent_two : Consistent [first, second] :=
  (consistent_iff (by decide +kernel)).mpr (by decide +kernel)

/-- The first is ahead of the third by its urgency, and behind it by way of the second. -/
theorem ranking_cycles :
    ¬ Consistent [first, second, third] ∧ less third second = true ∧
      chooseRanked .auto [first, second, third] =
        .ok (second.account, ⟨lit "auto", 0⟩) ∧
      chooseRanked .auto [second, third, first] =
        .ok (third.account, ⟨lit "auto", 0⟩) := by
  refine ⟨fun h => ?_, by decide +kernel⟩
  have hcycle := h.order.trans first (by decide +kernel) third (by decide +kernel) second
    (by decide +kernel) (by decide +kernel) (by decide +kernel)
  revert hcycle
  decide +kernel

end SubscriptionRouter.AccountRanking
