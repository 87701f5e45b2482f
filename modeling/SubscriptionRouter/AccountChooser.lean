import Mathlib
import SubscriptionRouter.StoreState

set_option autoImplicit false

/-!
# Which accounts may serve a request

`chooseAccountExcluding` looks at the snapshots of the accounts one after the other. The
first snapshot of the preferred account ends the search; the other accounts it accepts are
ranked afterwards.
-/
namespace SubscriptionRouter.AccountChooser
open GoText StoreState

structure RateLimitWindow where
  usedPercent : ℚ
  windowDurationMins : Option ℤ

structure RateLimits where
  primary : Option RateLimitWindow
  secondary : Option RateLimitWindow

structure AccountSnapshot where
  id : GoString
  enabled : Bool
  connected : Bool
  authType : GoString
  rateLimits : Option RateLimits

def duration (w : RateLimitWindow) : ℤ := w.windowDurationMins.getD 0

/-- The windows that are there, sorted by their duration. -/
def windows (limits : RateLimits) : List RateLimitWindow :=
  match limits.primary, limits.secondary with
  | some p, some s => if duration s < duration p then [s, p] else [p, s]
  | p, s => p.toList ++ s.toList

def longestAndShortestWindow (limits : Option RateLimits) :
    Option RateLimitWindow × Option RateLimitWindow :=
  match limits with
  | none => (none, none)
  | some limits => ((windows limits).getLast?, (windows limits).head?)

def accountHasCapacity (s : AccountSnapshot) : Bool :=
  s.enabled && s.connected && s.authType = lit "chatgpt" &&
    (longestAndShortestWindow s.rateLimits).1.all fun weekly => weekly.usedPercent < 100

inductive Verdict where
  | skip
  | preferred (a : Account)
  | candidate (a : Account)

/-- What the loop over the snapshots does with one of them. -/
def consider (mode : RoutingMode) (s : Store) (excluded : Finset GoString)
    (snapshot : AccountSnapshot) : Verdict :=
  if snapshot.id ∈ excluded then .skip
  else if !snapshot.enabled || !snapshot.connected || snapshot.authType ≠ lit "chatgpt" then .skip
  else match s.account snapshot.id with
    | none => .skip
    | some account =>
      let (weekly, short) := longestAndShortestWindow snapshot.rateLimits
      if !account.enabled then .skip
      else if weekly.any fun w => 100 ≤ w.usedPercent then .skip
      else if mode.mode = lit "account" ∧ mode.accountID = account.id then
        -- A depleted short window must not select it through the ranking either.
        if short.all fun w => w.usedPercent < 100 then .preferred account else .skip
      else .candidate account

/-- An account that is accepted is in the store and is not excluded. -/
theorem consider_account {mode : RoutingMode} {s : Store} {excluded : Finset GoString}
    {snapshot : AccountSnapshot} {a : Account}
    (h : consider mode s excluded snapshot = .preferred a ∨
      consider mode s excluded snapshot = .candidate a) :
    a ∈ s.accounts ∧ a.id ∉ excluded := by
  unfold consider at h
  split_ifs at h with hskip hready
  · simp at h
  · simp at h
  · split at h
    · simp at h
    · rename_i account haccount
      have hid : account.id = snapshot.id := by simpa using List.find?_some haccount
      have haccepted : account = a := by
        dsimp only at h
        split_ifs at h <;> simp_all
      subst haccepted
      exact ⟨List.mem_of_find?_eq_some haccount, hid ▸ hskip⟩

end SubscriptionRouter.AccountChooser
