import Mathlib

set_option autoImplicit false

/-!
# Programs that throw

What a program has done to the state stays when it throws, so a condition on how a program
ends has a part for its values and a part for its exceptions.
-/
namespace SubscriptionRouter.Exceptions

variable {σ ε α β : Type}

/-- The program ends with a value and a state in `q`, or with an exception and a state in `r`. -/
def Ends (x : EStateM ε σ α) (s : σ) (q : α → σ → Prop) (r : ε → σ → Prop) : Prop :=
  match x s with
  | .ok a s' => q a s'
  | .error e s' => r e s'

variable {q : α → σ → Prop} {r : ε → σ → Prop} {s : σ}

theorem Ends.mono {x : EStateM ε σ α} {q' : α → σ → Prop} {r' : ε → σ → Prop} (h : Ends x s q r)
    (hq : ∀ a s', q a s' → q' a s') (hr : ∀ e s', r e s' → r' e s') : Ends x s q' r' := by
  unfold Ends at h ⊢
  cases hx : x s with
  | ok a s' =>
    rw [hx] at h
    exact hq a s' h
  | error e s' =>
    rw [hx] at h
    exact hr e s' h

theorem not_ends {x : EStateM ε σ α} :
    ¬ Ends x s q r ↔ Ends x s (fun a s' => ¬ q a s') fun e s' => ¬ r e s' := by
  unfold Ends
  cases x s <;> rfl

@[simp]
theorem ends_pure (a : α) : Ends (pure a : EStateM ε σ α) s q r ↔ q a s := Iff.rfl

@[simp]
theorem ends_throw (e : ε) : Ends (throw e : EStateM ε σ α) s q r ↔ r e s := Iff.rfl

@[simp]
theorem ends_get {q : σ → σ → Prop} : Ends (get : EStateM ε σ σ) s q r ↔ q s s := Iff.rfl

@[simp]
theorem ends_modify {q : PUnit → σ → Prop} (f : σ → σ) :
    Ends (modify f : EStateM ε σ PUnit) s q r ↔ q ⟨⟩ (f s) := Iff.rfl

@[simp]
theorem ends_bind {q : β → σ → Prop} (x : EStateM ε σ α) (f : α → EStateM ε σ β) :
    Ends (x >>= f) s q r ↔ Ends x s (fun a s' => Ends (f a) s' q r) r := by
  change (match EStateM.bind x f s with | .ok a s' => q a s' | .error e s' => r e s') ↔ _
  unfold EStateM.bind Ends
  cases x s <;> rfl

@[simp]
theorem ends_tryCatch (x : EStateM ε σ α) (h : ε → EStateM ε σ α) :
    Ends (tryCatch x h) s q r ↔ Ends x s q (fun e s' => Ends (h e) s' q r) := by
  change (match EStateM.tryCatch x h s with | .ok a s' => q a s' | .error e s' => r e s') ↔ _
  unfold EStateM.tryCatch Ends
  cases x s <;> rfl

/-- An exception of the last part replaces the one it follows. -/
@[simp]
theorem ends_tryFinally (x : EStateM ε σ α) (y : EStateM ε σ β) :
    Ends (tryFinally x y) s q r ↔
      Ends x s (fun a s' => Ends y s' (fun _ s'' => q a s'') r)
        (fun e s' => Ends y s' (fun _ s'' => r e s'') r) := by
  change (match EStateM.map Prod.fst (MonadFinally.tryFinally' x fun _ => y) s with
    | .ok a s' => q a s' | .error e s' => r e s') ↔ _
  unfold EStateM.map Ends
  simp only [MonadFinally.tryFinally']
  cases x s with
  | ok a s' => cases hy : y s' <;> simp [hy]
  | error e s' => cases hy : y s' <;> simp [hy]

theorem ends_ite {c : Prop} [Decidable c] (x y : EStateM ε σ α) :
    Ends (if c then x else y) s q r ↔ (c → Ends x s q r) ∧ (¬ c → Ends y s q r) := by
  by_cases h : c
  · simp [h]
  · simp [h]

end SubscriptionRouter.Exceptions
