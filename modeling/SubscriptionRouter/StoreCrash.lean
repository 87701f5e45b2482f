import Mathlib
import SubscriptionRouter.StoreReopen
import SubscriptionRouter.Transitions

set_option autoImplicit false

/-!
# Stopping in the middle of an operation

Each operation makes a fixed sequence of file-system steps, of which a failing call or a
crash leaves a prefix. After every prefix the files open, with the accounts and owners from
before or after the operation, as long as the loader takes what the operation writes. It
does not take everything.
-/
namespace SubscriptionRouter.StoreCrash
open GoText JsonText StoreState StoreOpen StoreInvariant StateFile StoreReopen Transitions

/-! ## The steps of an operation -/

section Steps
variable {m : Machine}

theorem commit_succeeds (h : failing m.outcomes 0 = false) (s before : Store) :
    ({ m with store := s }.saveLocked.orElse fun e m => (.error e, { m with store := before })) =
      (.ok (), after m 1 [.writeState (stateContents s)] s) := by
  rw [Machine.saveLocked, wrap_pair (perform_succeeds (m := { m with store := s }) h _)]
  rfl

theorem commit_fails (h : failing m.outcomes 0 = true) (ha : Atomic m.outcomes) (s before : Store) :
    ∃ e, ({ m with store := s }.saveLocked.orElse fun e m => (.error e, { m with store := before })) =
      (.error e, after m 1 [] before) := by
  obtain ⟨e, hperform⟩ := perform_fails (m := { m with store := s }) h ha (.writeState (stateContents s))
  exact ⟨e.wrap "commit state: ", by rw [Machine.saveLocked, hperform]; rfl⟩

/-- The routing mode is written, or nothing is. -/
theorem saveRoutingMode_after (ha : Atomic m.outcomes) (mode : RoutingMode) :
    (∃ e n, m.saveRoutingModeLocked mode = (.error e, after m n [] m.store)) ∨
      m.saveRoutingModeLocked mode = (.ok (), after m 2 [.writeRoutingMode (routingModeContents mode)]
        { m.store with routingMode := mode }) := by
  cases hf : failing m.outcomes 0 with
  | true =>
    obtain ⟨fault, _, hprobe⟩ := probe_fails hf
    exact .inl ⟨fault.error, 1, by rw [Machine.saveRoutingModeLocked, hprobe]; rfl⟩
  | false =>
    cases hw : failing m.outcomes 1 with
    | true =>
      obtain ⟨e, hperform⟩ := perform_fails (m := after m 1 [] m.store)
        ((failing_drop m.outcomes 1 0).trans hw) (ha.drop 1)
        (.writeRoutingMode (routingModeContents mode))
      refine .inl ⟨e.wrap "commit routing mode: ", 1 + 1, ?_⟩
      rw [Machine.saveRoutingModeLocked, probe_succeeds hf, Result.andThen, hperform,
        after_after]
      rfl
    | false =>
      have hperform := perform_succeeds (m := after m 1 [] m.store)
        ((failing_drop m.outcomes 1 0).trans hw) (.writeRoutingMode (routingModeContents mode))
      refine .inr (saveRoutingMode_done ?_)
      rw [Machine.saveRoutingModeLocked, probe_succeeds hf, Result.andThen, wrap_pair hperform]
      rfl

end Steps

def grown (p : Platform) (s : Store) (id label : GoString) (now : ℤ) : Store :=
  { s with accounts := s.accounts ++
      [⟨id, newLabel s label, p.canonicalHome id, true, false, now⟩] }

theorem addAccount_after (p : Platform) {m : Machine} (ha : Atomic m.outcomes) (label : GoString)
    (draws : ℕ → Option (Vector UInt8 8)) (now : ℤ) :
    ∃ n l s, (m.addAccount p label draws now).2 = after m n l s ∧
      (l = [] ∧ s = m.store ∨
        ∃ id, freshID m.store draws 8 = .ok id ∧ validLabel (newLabel m.store label) = true ∧
          ((l = [.createHome id] ∨ l = [.createHome id, .removeHome id]) ∧ s = m.store ∨
            l = [.createHome id, .writeState (stateContents (grown p m.store id label now))] ∧
              s = grown p m.store id label now)) := by
  unfold Machine.addAccount
  dsimp only
  split
  · exact ⟨0, [], m.store, after_zero.symm, .inl ⟨rfl, rfl⟩⟩
  · rename_i hlabel
    have hlabel : validLabel (newLabel m.store label) = true := by simpa using hlabel
    split
    · exact ⟨0, [], m.store, after_zero.symm, .inl ⟨rfl, rfl⟩⟩
    · rename_i id hid
      cases hf : failing m.outcomes 0 with
      | true =>
        obtain ⟨e, hperform⟩ := perform_fails hf ha (.createHome id)
        rw [hperform]
        exact ⟨1, [], m.store, rfl, .inl ⟨rfl, rfl⟩⟩
      | false =>
        rw [wrap_pair (perform_succeeds hf (.createHome id)), Result.andThen]
        set m₁ := after m 1 [.createHome id] m.store with hm₁
        -- A home that was made is taken away again if the account cannot be saved.
        have hclean : ∀ n, ∃ k l, (after m₁ n [] m₁.store).cleanup id = after m k l m.store ∧
            (l = [.createHome id] ∨ l = [.createHome id, .removeHome id]) := by
          intro n
          have hn : Atomic (after m₁ n [] m₁.store).outcomes := (ha.drop 1).drop n
          cases hr : failing (after m₁ n [] m₁.store).outcomes 0 with
          | true =>
            obtain ⟨e, hperform⟩ := perform_fails hr hn (.removeHome id)
            refine ⟨1 + (n + 1), [.createHome id], ?_, .inl rfl⟩
            rw [Machine.cleanup, hperform, after_after, hm₁, after_after]
            rfl
          | false =>
            refine ⟨1 + (n + 1), [.createHome id, .removeHome id], ?_, .inr rfl⟩
            rw [Machine.cleanup, perform_succeeds hr, after_after, hm₁, after_after]
            rfl
        obtain ⟨r, n, hprobes, _⟩ := probeAll_after m₁ (homeChecks p id)
        unfold Machine.saveNewAccount
        rw [hprobes]
        cases r with
        | error e =>
          obtain ⟨k, l, hcleanup, hl⟩ := hclean n
          exact ⟨k, l, m.store, hcleanup, .inr ⟨id, hid, hlabel, .inl ⟨hl, rfl⟩⟩⟩
        | ok =>
          set m₂ := after m₁ n [] m₁.store with hm₂
          set g := grown p m.store id label now with hg
          cases hs : failing m₂.outcomes 0 with
          | true =>
            obtain ⟨e, hcommit⟩ := commit_fails hs ((ha.drop 1).drop n) g m₂.store
            obtain ⟨k, l, hcleanup, hl⟩ := hclean (n + 1)
            refine ⟨k, l, m.store, ?_, .inr ⟨id, hid, hlabel, .inl ⟨hl, rfl⟩⟩⟩
            rw [← hcleanup]
            change ((Result.andThen ({ m₂ with store := g }.saveLocked.orElse fun e m =>
              (.error e, { m with store := m₂.store })) _).orElse _).2 = _
            rw [hcommit, hm₂, after_after]
            rfl
          | false =>
            refine ⟨1 + (n + 1), _, g, ?_, .inr ⟨id, hid, hlabel, .inr ⟨rfl, rfl⟩⟩⟩
            change ((Result.andThen ({ m₂ with store := g }.saveLocked.orElse fun e m =>
              (.error e, { m with store := m₂.store })) _).orElse _).2 = _
            rw [commit_succeeds hs g m₂.store, hm₂, after_after, hm₁, after_after]
            rfl

/-- The store with the account changed, if the change is allowed. -/
def updated (s : Store) (id : GoString) (label : Option GoString) (enabled : Option Bool) :
    Option Store :=
  match s.accounts.findIdx? (·.id = id), s.account id with
  | some index, some previous =>
    if enabled = some false ∧ previous.controller = true then none
    else match relabel previous label with
      | .error _ => none
      | .ok relabeled =>
        let account := { relabeled with enabled := enabled.getD relabeled.enabled }
        some { s with accounts := s.accounts.set index account }
  | _, _ => none

/-- Routing goes back to automatic before the selected account is disabled or removed:
the steps of that, the store after it, and the number of calls. -/
inductive Unselect (s : Store) (gone : Prop) : List FsStep → Store → ℕ → Prop where
  | selected (h : gone) : Unselect s gone [.writeRoutingMode (routingModeContents .auto)]
      { s with routingMode := .auto } 2
  | other (h : ¬ gone) : Unselect s gone [] s 0

theorem updateAccount_after {m : Machine} (ha : Atomic m.outcomes) (id : GoString)
    (label : Option GoString) (enabled : Option Bool) :
    ∃ n l s, (m.updateAccount id label enabled).2 = after m n l s ∧
      (l = [] ∧ s = m.store ∨
        ∃ pre s₁ k, Unselect m.store (enabled = some false ∧ m.store.routingMode.accountID = id) pre s₁ k ∧
          (l = pre ∧ s = s₁ ∨ ∃ s', updated s₁ id label enabled = some s' ∧
            l = pre ++ [.writeState (stateContents s')] ∧ s = s')) := by
  unfold Machine.updateAccount
  split
  · rename_i index previous hindex hprevious
    split
    · exact ⟨0, [], m.store, after_zero.symm, .inl ⟨rfl, rfl⟩⟩
    · rename_i hcontroller
      split
      · exact ⟨0, [], m.store, after_zero.symm, .inl ⟨rfl, rfl⟩⟩
      · rename_i relabeled hrelabel
        have hupdated : ∀ mode, updated { m.store with routingMode := mode } id label enabled =
            some { m.store with
              routingMode := mode
              accounts := m.store.accounts.set index
                { relabeled with enabled := enabled.getD relabeled.enabled } } := by
          intro mode
          have hprevious' : Store.account { m.store with routingMode := mode } id = some previous :=
            hprevious
          simp only [updated, hindex, hprevious', if_neg hcontroller, hrelabel]
        dsimp only
        split
        · rename_i hoff
          rcases saveRoutingMode_after ha .auto with ⟨e, n, hmode⟩ | hmode
          · rw [hmode]
            exact ⟨n, [], m.store, rfl, .inl ⟨rfl, rfl⟩⟩
          · rw [hmode, Result.andThen]
            set m₁ := after m 2 [.writeRoutingMode (routingModeContents .auto)]
              { m.store with routingMode := .auto } with hm₁
            cases hf : failing m₁.outcomes 0 with
            | true =>
              obtain ⟨e, hcommit⟩ := commit_fails hf (ha.drop 2) _ m₁.store
              refine ⟨2 + 1, _, _, ?_, .inr ⟨_, _, _, .selected hoff, .inl ⟨rfl, rfl⟩⟩⟩
              rw [hcommit, hm₁, after_after]
              rfl
            | false =>
              refine ⟨2 + 1, _, _, ?_, .inr ⟨_, _, _, .selected hoff,
                .inr ⟨_, hupdated .auto, rfl, rfl⟩⟩⟩
              rw [commit_succeeds hf, hm₁, after_after]
              rfl
        · rename_i hoff
          cases hf : failing m.outcomes 0 with
          | true =>
            obtain ⟨e, hcommit⟩ := commit_fails hf ha _ m.store
            refine ⟨1, [], m.store, ?_, .inl ⟨rfl, rfl⟩⟩
            rw [hcommit]
            rfl
          | false =>
            refine ⟨1, _, _, ?_, .inr ⟨_, _, _, .other hoff,
              .inr ⟨_, hupdated m.store.routingMode, rfl, rfl⟩⟩⟩
            rw [commit_succeeds hf]
            rfl
  · exact ⟨0, [], m.store, after_zero.symm, .inl ⟨rfl, rfl⟩⟩

/-- The store with a batch of owners, if it is accepted and says something new. -/
def assigned (s : Store) (assignments : GoMap GoString) : Option Store :=
  match checkAssignments s assignments.toList with
  | .error _ => none
  | .ok () =>
    if assignments.toList.any fun e => (s.owners[e.1]?).getD [] ≠ e.2 then
      some { s with owners := mergeOwners s.owners assignments }
    else none

theorem setThreadOwners_after {m : Machine} (ha : Atomic m.outcomes) (assignments : GoMap GoString) :
    ∃ n l s, (m.setThreadOwners assignments).2 = after m n l s ∧
      (l = [] ∧ s = m.store ∨ ∃ s', assigned m.store assignments = some s' ∧
        l = [.writeState (stateContents s')] ∧ s = s') := by
  unfold Machine.setThreadOwners assigned
  cases hcheck : checkAssignments m.store assignments.toList with
  | error e => exact ⟨0, [], m.store, after_zero.symm, .inl ⟨rfl, rfl⟩⟩
  | ok =>
    dsimp only
    split
    · cases hf : failing m.outcomes 0 with
      | true =>
        obtain ⟨e, hcommit⟩ := commit_fails hf ha
          { m.store with owners := mergeOwners m.store.owners assignments } m.store
        exact ⟨1, [], m.store, by rw [hcommit], .inl ⟨rfl, rfl⟩⟩
      | false =>
        refine ⟨1, _, _, ?_, .inr ⟨_, rfl, rfl, rfl⟩⟩
        rw [commit_succeeds hf]
    · exact ⟨0, [], m.store, after_zero.symm, .inl ⟨rfl, rfl⟩⟩

theorem setRoutingMode_after {m : Machine} (ha : Atomic m.outcomes) (mode : RoutingMode) :
    ∃ n l s, (m.setRoutingMode mode).2 = after m n l s ∧
      (l = [] ∧ s = m.store ∨ mode.validate = true ∧
        (mode.mode = lit "account" → m.store.enabled mode.accountID = true) ∧
        l = [.writeRoutingMode (routingModeContents mode)] ∧
        s = { m.store with routingMode := mode }) := by
  unfold Machine.setRoutingMode
  split
  · exact ⟨0, [], m.store, after_zero.symm, .inl ⟨rfl, rfl⟩⟩
  · rename_i hvalid
    split
    · exact ⟨0, [], m.store, after_zero.symm, .inl ⟨rfl, rfl⟩⟩
    · rename_i hon
      rcases saveRoutingMode_after ha mode with ⟨e, n, hmode⟩ | hmode
      · exact ⟨n, [], m.store, by rw [hmode], .inl ⟨rfl, rfl⟩⟩
      · exact ⟨2, _, _, by rw [hmode], .inr ⟨by simpa using hvalid,
          fun haccount => Bool.of_not_eq_false (not_and.mp hon haccount), rfl, rfl⟩⟩

/-- The write that puts a removed account back. -/
theorem rollbackRemoval_after {m : Machine} {previous : Store} {id : GoString}
    (hstore : m.store = withoutAccount previous id) (ha : Atomic m.outcomes) (cause : Error) :
    (failing m.outcomes 0 = true ∧ (m.rollbackRemoval previous cause).2 = after m 1 [] previous) ∨
      (m.rollbackRemoval previous cause).2 =
        after m 1 [.writeState (stateContents previous)] previous := by
  have hback : { m.store with accounts := previous.accounts, owners := previous.owners } =
      previous := by
    rw [hstore]
    rfl
  unfold Machine.rollbackRemoval
  dsimp only
  rw [hback]
  cases hf : failing m.outcomes 0 with
  | true =>
    obtain ⟨e, hperform⟩ := perform_fails (m := { m with store := previous }) hf ha
      (.writeState (stateContents previous))
    left
    rw [Machine.saveLocked, hperform]
    exact ⟨rfl, rfl⟩
  | false =>
    right
    rw [Machine.saveLocked, wrap_pair (perform_succeeds (m := { m with store := previous }) hf _)]
    rfl

/-- The removal cannot go on once the account is out of the state file, at call `i`. -/
def Stuck (outcomes : List (Option Fault)) (i : ℕ) (drawn : Bool) : Prop :=
  drawn = false ∨ failing outcomes i = true

/-- What is left of a removal after the state file was written. -/
inductive Removal (previous : Store) (id : GoString) (outcomes : List (Option Fault)) (i : ℕ)
    (drawn : Bool) : List FsStep → Store → Prop where
  | unrestored (h : Stuck outcomes i drawn)
      (hf : failing outcomes (if drawn then i + 1 else i) = true) :
      Removal previous id outcomes i drawn [] previous
  | restored (h : Stuck outcomes i drawn) :
      Removal previous id outcomes i drawn [.writeState (stateContents previous)] previous
  | quarantined (h : ¬ Stuck outcomes i drawn) :
      Removal previous id outcomes i drawn [.quarantine id] (withoutAccount previous id)
  | discarded (h : ¬ Stuck outcomes i drawn) :
      Removal previous id outcomes i drawn [.quarantine id, .discard id]
        (withoutAccount previous id)

theorem removeHome_after {m : Machine} {previous : Store} {id : GoString}
    (hstore : m.store = withoutAccount previous id) (ha : Atomic m.outcomes) (drawn : Bool) :
    ∃ n l s, (m.removeHome previous id drawn).2 = after m n l s ∧
      Removal previous id m.outcomes 0 drawn l s := by
  unfold Machine.removeHome
  cases drawn with
  | false =>
    rw [if_pos (by decide)]
    rcases rollbackRemoval_after hstore ha ⟨"generate cleanup ID: generate account ID: ", []⟩ with
      ⟨hf, hback⟩ | hback
    · exact ⟨1, [], previous, hback, .unrestored (.inl rfl) hf⟩
    · exact ⟨1, _, previous, hback, .restored (.inl rfl)⟩
  | true =>
    rw [if_neg (by decide)]
    cases hf : failing m.outcomes 0 with
    | true =>
      obtain ⟨e, hperform⟩ := perform_fails hf ha (.quarantine id)
      rw [hperform]
      dsimp only
      rcases rollbackRemoval_after (m := after m 1 [] m.store) hstore (ha.drop 1)
        (e.wrap "quarantine account directory: ") with ⟨hr, hback⟩ | hback
      · refine ⟨1 + 1, [], previous, ?_, .unrestored (.inr hf) ((failing_drop _ 1 0).symm.trans hr)⟩
        rw [hback, after_after]
        rfl
      · refine ⟨1 + 1, _, previous, ?_, .restored (.inr hf)⟩
        rw [hback, after_after]
        rfl
    | false =>
      have hgo : ¬ Stuck m.outcomes 0 true := by
        rintro (h | h)
        · cases h
        · rw [hf] at h
          cases h
      rw [perform_succeeds hf]
      dsimp only
      cases hd : failing (after m 1 [.quarantine id] m.store).outcomes 0 with
      | true =>
        obtain ⟨e, hperform⟩ := perform_fails hd (ha.drop 1) (.discard id)
        refine ⟨1 + 1, _, _, ?_, .quarantined hgo⟩
        rw [hperform, after_after, ← hstore]
        rfl
      | false =>
        refine ⟨1 + 1, _, _, ?_, .discarded hgo⟩
        rw [perform_succeeds hd, after_after, ← hstore]
        rfl

theorem Removal.drop {previous : Store} {id : GoString} {outcomes : List (Option Fault)} {n i : ℕ}
    {drawn : Bool} {l : List FsStep} {s : Store}
    (h : Removal previous id (outcomes.drop n) i drawn l s) :
    Removal previous id outcomes (n + i) drawn l s := by
  have hstuck : Stuck (outcomes.drop n) i drawn ↔ Stuck outcomes (n + i) drawn := by
    unfold Stuck
    rw [failing_drop]
  cases h with
  | unrestored h hf =>
    refine .unrestored (hstuck.mp h) ?_
    rw [failing_drop] at hf
    cases drawn with
    | false => exact hf
    | true => exact hf
  | restored h => exact .restored (hstuck.mp h)
  | quarantined h => exact .quarantined (hstuck.not.mp h)
  | discarded h => exact .discarded (hstuck.not.mp h)

theorem validateSecondaryHome_after (p : Platform) (m : Machine) (a : Account) :
    (∃ e n, m.validateSecondaryHome p a = (.error e, after m n [] m.store)) ∨
      ∃ home, m.validateSecondaryHome p a = (.ok home, after m 3 [] m.store) := by
  unfold Machine.validateSecondaryHome
  split
  · exact .inl ⟨_, 0, by rw [after_zero]⟩
  · split
    · exact .inl ⟨_, 0, by rw [after_zero]⟩
    · obtain ⟨r, n, hprobes, hn⟩ := probeAll_after m [("inspect account %q home: ", [a.id]),
        ("account %q home is not trusted: ", [a.id]), ("canonicalize account %q home: ", [a.id])]
      rw [hprobes]
      cases r with
      | error e => exact .inl ⟨e, n, rfl⟩
      | ok =>
        obtain rfl := hn rfl
        exact .inr ⟨_, rfl⟩

theorem removeAccount_after (p : Platform) {m : Machine} (ha : Atomic m.outcomes) (id : GoString)
    (drawn : Bool) :
    ∃ n l s, (m.removeAccount p id drawn).2 = after m n l s ∧
      (l = [] ∧ s = m.store ∨
        (pathFree id = true ∧ ∃ a, m.store.account id = some a ∧ a.id ≠ lit "primary" ∧
          a.controller = false) ∧
        ∃ pre s₁ k, Unselect m.store (m.store.routingMode.accountID = id) pre s₁ k ∧
          (l = pre ∧ s = s₁ ∨
            ∃ rest, l = pre ++ .writeState (stateContents (withoutAccount s₁ id)) :: rest ∧
              Removal s₁ id m.outcomes (3 + k + 1) drawn rest s)) := by
  unfold Machine.removeAccount
  split
  · exact ⟨0, [], m.store, after_zero.symm, .inl ⟨rfl, rfl⟩⟩
  · rename_i hpath
    split
    · exact ⟨0, [], m.store, after_zero.symm, .inl ⟨rfl, rfl⟩⟩
    · rename_i a hfound
      split
      · exact ⟨0, [], m.store, after_zero.symm, .inl ⟨rfl, rfl⟩⟩
      · rename_i hprimary
        obtain ⟨hid, hcontroller⟩ := not_or.mp hprimary
        have hremovable : pathFree id = true ∧ ∃ a, m.store.account id = some a ∧
            a.id ≠ lit "primary" ∧ a.controller = false :=
          ⟨by simpa using hpath, a, hfound, hid, by simpa using hcontroller⟩
        rcases validateSecondaryHome_after p m a with ⟨e, n, hhome⟩ | ⟨home, hhome⟩
        · rw [hhome]
          exact ⟨n, [], m.store, rfl, .inl ⟨rfl, rfl⟩⟩
        · rw [wrap_pair hhome, Result.andThen]
          set m₁ := after m 3 [] m.store with hm₁
          -- The account is taken out of the state file of the machine that routes elsewhere.
          have hfinish : ∀ {pre s₁ k}, Unselect m.store (m.store.routingMode.accountID = id) pre s₁ k →
              ∃ n l s, ((({ after m₁ k pre s₁ with store := withoutAccount s₁ id }.saveLocked.orElse
                fun e m => (.error e, { m with store := s₁ })).andThen
                  fun _ m => m.removeHome s₁ id drawn) : Result Unit).2 = after m n l s ∧
                (l = pre ∧ s = s₁ ∨
                  ∃ rest, l = pre ++ .writeState (stateContents (withoutAccount s₁ id)) :: rest ∧
                    Removal s₁ id m.outcomes (3 + k + 1) drawn rest s) := by
            intro pre s₁ k _
            set m₂ := after m₁ k pre s₁ with hm₂
            have ha₂ : Atomic m₂.outcomes := (ha.drop 3).drop k
            cases hf : failing m₂.outcomes 0 with
            | true =>
              obtain ⟨e, hcommit⟩ := commit_fails hf ha₂ (withoutAccount s₁ id) s₁
              refine ⟨3 + (k + 1), pre, s₁, ?_, .inl ⟨rfl, rfl⟩⟩
              rw [hcommit, hm₂, after_after, hm₁, Result.andThen, after_after]
              rw [List.append_nil, List.nil_append]
            | false =>
              rw [commit_succeeds hf, Result.andThen]
              obtain ⟨n, l, s, hgone, hremoval⟩ := removeHome_after
                (m := after m₂ 1 [.writeState (stateContents (withoutAccount s₁ id))]
                  (withoutAccount s₁ id)) (show _ = withoutAccount s₁ id from rfl) (ha₂.drop 1) drawn
              refine ⟨3 + (k + (1 + n)), _, s, ?_, .inr ⟨l, rfl, ?_⟩⟩
              · rw [hgone, after_after, hm₂, after_after, hm₁, after_after]
                rfl
              · exact hremoval.drop.drop.drop
          split
          · rename_i hselected
            rcases saveRoutingMode_after (m := m₁) (ha.drop 3) .auto with ⟨e, n, hmode⟩ | hmode
            · rw [hmode, hm₁, after_after]
              exact ⟨3 + n, [], m.store, rfl, .inl ⟨rfl, rfl⟩⟩
            · obtain ⟨n, l, s, hafter, htrace⟩ := hfinish (.selected hselected)
              refine ⟨n, l, s, ?_, .inr ⟨hremovable, _, _, _, .selected hselected, htrace⟩⟩
              rw [← hafter, hmode]
              rfl
          · rename_i hselected
            obtain ⟨n, l, s, hafter, htrace⟩ := hfinish (.other hselected)
            refine ⟨n, l, s, ?_, .inr ⟨hremovable, _, _, _, .other hselected, htrace⟩⟩
            rw [← hafter, hm₁, after_after]
            rfl

/-! ## The stores that are written -/

section Stores
variable {p : Platform} {homes : List GoString} {s : Store}

theorem valid_on (h : Valid s) {a : Account} (ha : a ∈ s.accounts) (hcontroller : a.controller = true) :
    a.enabled = true := by
  obtain ⟨primary, hprimary, hid, hon⟩ := h.primary
  have hsame := List.inj_on_of_nodup_map h.ids ha hprimary
    (((h.controller a ha).mp hcontroller).trans hid.symm)
  rw [hsame]
  exact hon

theorem digit_plain : ∀ b : UInt8, 0x30 ≤ b → b ≤ 0x39 → b < 0x80 ∧ isSpace [b] = false := by
  decide +kernel

theorem trimSpace_numbered (n : ℕ) :
    trimSpace (lit "Subscription " ++ itoaNat n) = lit "Subscription " ++ itoaNat n := by
  have hdigits : ∀ b ∈ itoaNat n, b < 0x80 ∧ isSpace [b] = false := fun b hb =>
    digit_plain b (digits_digit _ _ b hb).1 (digits_digit _ _ b hb).2
  have hascii : ∀ b ∈ lit "Subscription " ++ itoaNat n, b < 0x80 := by
    intro b hb
    rcases List.mem_append.mp hb with hb | hb
    · have hlit : (lit "Subscription ").all (· < 0x80) = true := by decide
      exact of_decide_eq_true (List.all_eq_true.mp hlit b hb)
    · exact (hdigits b hb).1
  refine trimSpace_eq_self (fun u hu => ?_) fun u hu => ?_
  · have hlit : lit "Subscription " = 0x53 :: lit "ubscription " := by decide
    rw [units_ascii hascii, hlit] at hu
    obtain rfl := Option.some.inj hu
    decide
  · rw [units_ascii hascii, List.getLast?_map, List.getLast?_append_of_ne_nil _ (itoaNat_ne_nil n)] at hu
    obtain ⟨b, hb, rfl⟩ := Option.map_eq_some_iff.mp hu
    exact (hdigits b (List.mem_of_getLast? hb)).2

theorem trimmed_newLabel (s : Store) (label : GoString) :
    trimSpace (newLabel s label) ≠ [] ∧ newLabel s label = trimSpace (newLabel s label) := by
  unfold newLabel
  split
  · rw [trimSpace_numbered]
    exact ⟨List.append_ne_nil_of_right_ne_nil _ (itoaNat_ne_nil _), rfl⟩
  · rename_i hblank
    rw [trimSpace_trimSpace]
    exact ⟨hblank, rfl⟩

theorem hexDigit_idByte : ∀ n < 16, idByte (hexDigit n) = true := by decide

theorem validAccountID_hexEncode (bytes : Vector UInt8 8) :
    validAccountID (hexEncode bytes.toList) = true := by
  have hlength : (hexEncode bytes.toList).length = 16 := by
    rw [length_hexEncode, Vector.length_toList]
  have hne : hexEncode bytes.toList ≠ [] := by
    intro hnil
    rw [hnil] at hlength
    cases hlength
  have hbytes : ∀ b ∈ hexEncode bytes.toList, idByte b = true := by
    intro b hb
    obtain ⟨byte, _, hdigit⟩ := List.mem_flatMap.mp hb
    have hhigh := hexDigit_idByte (byte.toNat / 16) (by have := byte.toNat_lt; omega)
    have hlow := hexDigit_idByte (byte.toNat % 16) (by omega)
    rcases List.mem_pair.mp hdigit with rfl | rfl
    · exact hhigh
    · exact hlow
  simp only [validAccountID, Bool.and_eq_true, decide_eq_true_eq]
  exact ⟨⟨hne, by rw [hlength]; decide⟩, List.all_eq_true.mpr hbytes⟩

/-- Room for a new account: not too many, an id and a home of its own, and a clock that is
not before 1970. -/
def room (p : Platform) (s : Store) (now : ℤ) : Bool :=
  decide (s.accounts.length ≤ maxAccounts) &&
  decide (s.accounts.map fun a => asciiLower a.id).Nodup &&
  decide ((s.accounts.map Account.codexHome).Pairwise fun x y => p.samePath x y = false) &&
  decide (0 ≤ now)

theorem sound_grown (h : Sound p homes s) {id label : GoString} {now : ℤ} {homes' : List GoString}
    (hvalid : Valid (grown p s id label now)) (hid : ∃ bytes : Vector UInt8 8, id = hexEncode bytes.toList)
    (hlabel : validLabel (newLabel s label) = true) (hroom : room p (grown p s id label now) now = true)
    (hhomes : ∀ x, x ∈ homes ∨ x = id → x ∈ homes') : Sound p homes' (grown p s id label now) := by
  simp only [room, Bool.and_eq_true, decide_eq_true_eq] at hroom
  obtain ⟨⟨⟨hcount, hdistinct⟩, hapart⟩, hnow⟩ := hroom
  refine ⟨h.home, hvalid, hcount, fun a ha => ?_, hdistinct, hapart, h.threads⟩
  rcases List.mem_append.mp ha with ha | ha
  · obtain ⟨hwell, hsettled, hhomed⟩ := h.each a ha
    exact ⟨hwell, hsettled, fun hne => hhomes a.id (.inl (hhomed hne))⟩
  · obtain rfl := List.mem_singleton.mp ha
    obtain ⟨bytes, rfl⟩ := hid
    obtain ⟨hblank, htrimmed⟩ := trimmed_newLabel s label
    refine ⟨⟨validAccountID_hexEncode bytes, ⟨hblank, htrimmed⟩, hlabel, hnow, fun hc => (nomatch hc)⟩,
      ?_, fun _ => hhomes _ (.inr rfl)⟩
    rw [settledHome, if_neg (hexEncode_ne_primary bytes)]

theorem wellFormed_relabel {a b : Account} {label : Option GoString} (h : relabel a label = .ok b)
    (ha : WellFormed a) : trimSpace b.label ≠ [] ∧ b.label = trimSpace b.label ∧
      validLabel b.label = true := by
  unfold relabel at h
  split at h
  · obtain rfl := Except.ok.inj h
    exact ⟨ha.trimmed.1, ha.trimmed.2, ha.label⟩
  · split at h
    · cases h
    · rename_i label hblank
      split at h
      · cases h
      · rename_i hvalid
        obtain rfl := Except.ok.inj h
        refine ⟨?_, (trimSpace_trimSpace label).symm, by simpa using hvalid⟩
        rw [trimSpace_trimSpace]
        exact hblank

theorem sound_updated (h : Sound p homes s) {id : GoString} {label : Option GoString}
    {enabled : Option Bool} {s' : Store} (hs' : updated s id label enabled = some s')
    (hvalid : Valid s') : Sound p homes s' := by
  unfold updated at hs'
  split at hs'
  · rename_i index previous hindex hprevious
    split at hs'
    · cases hs'
    · split at hs'
      · cases hs'
      · rename_i relabeled hrelabel
        obtain rfl := Option.some.inj hs'
        have hat := getElem?_of_findIdx? hindex hprevious
        have hmem : previous ∈ s.accounts := List.mem_of_getElem? hat
        obtain ⟨hid, _, _, hhome, hcreated⟩ := relabel_spec hrelabel
        obtain ⟨hwell, hsettled, hhomed⟩ := h.each previous hmem
        obtain ⟨hblank, htrimmed, hlabel⟩ := wellFormed_relabel hrelabel hwell
        have hids := map_id_set (b := { relabeled with
          enabled := enabled.getD relabeled.enabled }) hat hid
        have hhomes : (s.accounts.set index { relabeled with
            enabled := enabled.getD relabeled.enabled }).map Account.codexHome =
            s.accounts.map Account.codexHome := by
          obtain ⟨hlt, rfl⟩ := List.getElem?_eq_some_iff.mp hat
          rw [List.map_set]
          dsimp only
          rw [hhome, ← List.getElem_map (h := by simpa using hlt) Account.codexHome,
            List.set_getElem_self]
        refine ⟨h.home, hvalid, ?_, fun a ha => ?_, ?_, ?_, h.threads⟩
        · rw [List.length_set]
          exact h.count
        · have hon := valid_on hvalid ha
          rcases List.mem_or_eq_of_mem_set ha with ha | rfl
          · exact h.each a ha
          · refine ⟨⟨?_, ⟨hblank, htrimmed⟩, hlabel, ?_, hon⟩, ?_, fun hne => ?_⟩
            · change validAccountID relabeled.id = true
              rw [hid]
              exact hwell.id
            · change 0 ≤ relabeled.createdAt
              rw [hcreated]
              exact hwell.clock
            · change relabeled.codexHome = settledHome p s.primaryCodexHome _
              rw [hhome, hsettled]
              unfold settledHome
              dsimp only
              rw [hid]
            · change relabeled.id ∈ homes
              rw [hid]
              exact hhomed (hid ▸ hne)
        · have hfold : ∀ l : List Account, l.map (fun a => asciiLower a.id) =
              (l.map Account.id).map asciiLower := fun l => by rw [List.map_map]; rfl
          rw [hfold, hids, ← hfold]
          exact h.distinct
        · rw [hhomes]
          exact h.apart
  · cases hs'

theorem sound_assigned (h : Sound p homes s) {assignments : GoMap GoString} {s' : Store}
    (hs' : assigned s assignments = some s') (hvalid : Valid s') : Sound p homes s' := by
  unfold assigned at hs'
  split at hs'
  · cases hs'
  · rename_i hcheck
    split at hs'
    · obtain rfl := Option.some.inj hs'
      refine ⟨h.home, hvalid, h.count, h.each, h.distinct, h.apart, fun t owner ho => ?_⟩
      change (mergeOwners s.owners assignments)[t]? = some owner at ho
      rw [getElem?_mergeOwners] at ho
      rcases Option.or_eq_some_iff.mp ho with ho | ⟨_, ho⟩
      · exact (checkAssignments_ok_iff.mp hcheck (t, owner)
          (Std.ExtTreeMap.mem_toList_iff_getElem?_eq_some.mpr ho)).1
      · exact h.threads t owner ho
    · cases hs'

theorem sound_without (h : Sound p homes s) {id : GoString} (hvalid : Valid (withoutAccount s id)) :
    Sound p homes (withoutAccount s id) where
  home := h.home
  valid := hvalid
  count := (List.eraseP_sublist.length_le).trans h.count
  each := fun a ha => h.each a (List.mem_of_mem_eraseP ha)
  distinct := h.distinct.sublist (List.eraseP_sublist.map _)
  apart := h.apart.sublist (List.eraseP_sublist.map _)
  threads := fun t owner ho => by
    change (s.owners.filter _)[t]? = some owner at ho
    rw [Std.ExtTreeMap.getElem?_filter', Option.filter_eq_some_iff] at ho
    exact h.threads t owner ho.1

theorem accountExists_without (h : (s.accounts.map Account.id).Nodup) (id : GoString) :
    (withoutAccount s id).accountExists id = false := by
  have hfree : ∀ l : List Account, (l.map Account.id).Nodup → ∀ a ∈ l.eraseP (·.id = id), a.id ≠ id := by
    intro l
    induction l with
    | nil => exact fun _ _ ha => (nomatch ha)
    | cons b l ih =>
      intro hnodup a ha
      obtain ⟨hb, hl⟩ := List.nodup_cons.mp hnodup
      by_cases hid : b.id = id
      · rw [List.eraseP_cons_of_pos (by simpa using hid)] at ha
        rintro rfl
        exact hb (hid ▸ List.mem_map_of_mem ha)
      · rw [List.eraseP_cons_of_neg (by simpa using hid)] at ha
        rcases List.mem_cons.mp ha with rfl | ha
        · exact hid
        · exact ih hl a ha
  refine Bool.eq_false_iff.mpr fun hexists => ?_
  obtain ⟨a, ha, hid⟩ := accountExists_iff.mp hexists
  exact hfree s.accounts h a ha hid

end Stores

/-! ## Every prefix opens -/

/-- A store with the accounts and owners of one of two stores, that routes like one of them
or automatically. -/
structure Between (before after s : Store) : Prop where
  home : s.primaryCodexHome = before.primaryCodexHome
  contents : s.accounts = before.accounts ∧ s.owners = before.owners ∨
    s.accounts = after.accounts ∧ s.owners = after.owners
  mode : s.routingMode = before.routingMode ∨ s.routingMode = after.routingMode ∨
    s.routingMode = .auto

/-- Wherever the steps stop, the disk opens as a store between the two. -/
def Recovers (p : Platform) (d : Disk) (l : List FsStep) (before after : Store) : Prop :=
  ∀ k, ∃ s, Opens p ((l.take k).foldl Disk.apply d) s ∧ Between before after s

section Recovery
variable {p : Platform} {d : Disk} {s before now' : Store} {m : Machine}

theorem recovers_nil (h : Opens p d s) (hs : Between before now' s) :
    Recovers p d [] before now' := fun k => ⟨s, by rwa [List.take_nil], hs⟩

theorem recovers_cons {x : FsStep} {l : List FsStep} (h : Opens p d s) (hs : Between before now' s)
    (hl : Recovers p (d.apply x) l before now') : Recovers p d (x :: l) before now' := by
  intro k
  cases k with
  | zero => exact ⟨s, h, hs⟩
  | succ k => exact hl k

theorem between_before {before now' : Store} (h : now'.primaryCodexHome = before.primaryCodexHome) :
    Between before now' before ∧ Between before now' now' :=
  ⟨⟨rfl, .inl ⟨rfl, rfl⟩, .inl rfl⟩, ⟨h, .inr ⟨rfl, rfl⟩, .inr (.inl rfl)⟩⟩

/-- A machine whose disk opened as its store, after an operation whose prefixes all open. -/
def Lands (p : Platform) (m m' : Machine) : Prop :=
  ∃ n l, m' = after m n l m'.store ∧ Opens p m'.disk m'.store ∧ Recovers p m.disk l m.store m'.store

theorem lands_same (h : Opens p m.disk m.store) (n : ℕ) : Lands p m (after m n [] m.store) :=
  ⟨n, [], rfl, h, recovers_nil h (between_before rfl).1⟩

theorem addAccount_lands (h : Opens p m.disk m.store) (ha : Atomic m.outcomes) {label : GoString}
    {draws : ℕ → Option (Vector UInt8 8)} {now : ℤ}
    (hfits : ∀ id, freshID m.store draws 8 = .ok id → validLabel (newLabel m.store label) = true →
      room p (grown p m.store id label now) now = true ∧
        readable p (grown p m.store id label now) = true) :
    Lands p m (m.addAccount p label draws now).2 := by
  have hvalid := h.valid.addAccount p label draws now
  obtain ⟨n, l, s, hafter, ⟨rfl, rfl⟩ | ⟨id, hid, hlabel, ⟨hl, rfl⟩ | ⟨rfl, rfl⟩⟩⟩ :=
    addAccount_after p ha label draws now
  · rw [hafter]
    exact lands_same h n
  · rw [hafter]
    have hfree := (freshID_fresh hid).1
    have hsame : Between m.store m.store m.store := (between_before rfl).1
    have hmade := h.createHome id
    rcases hl with rfl | rfl
    · exact ⟨n, _, rfl, hmade, recovers_cons h hsame (recovers_nil hmade hsame)⟩
    · have hgone := hmade.removeHome hfree
      exact ⟨n, _, rfl, hgone, recovers_cons h hsame (recovers_cons hmade hsame
        (recovers_nil hgone hsame))⟩
  · rw [hafter] at hvalid ⊢
    obtain ⟨hroom, hread⟩ := hfits id hid hlabel
    have hmade := h.createHome id
    have hsound : Sound p (m.disk.apply (.createHome id)).homes (grown p m.store id label now) := by
      refine sound_grown h.sound hvalid (freshID_fresh hid).2 hlabel hroom fun x hx => ?_
      by_cases hxid : x = id
      · exact hxid ▸ List.mem_cons_self
      · exact List.mem_cons_of_mem id ((List.mem_erase_of_ne hxid).mpr (hx.resolve_right hxid))
    have hwritten := Opens.writeState hsound hread hmade.mode
    obtain ⟨hbefore, hnow⟩ := between_before
      (show (grown p m.store id label now).primaryCodexHome = m.store.primaryCodexHome from rfl)
    exact ⟨n, _, rfl, hwritten, recovers_cons h hbefore (recovers_cons hmade hbefore
      (recovers_nil hwritten hnow))⟩

/-- Before the account goes, its selection may go. -/
theorem Unselect.recovers {gone : Prop} {pre : List FsStep} {s₁ : Store} {k : ℕ}
    (hpre : Unselect m.store gone pre s₁ k) (h : Opens p m.disk m.store) :
    Opens p (pre.foldl Disk.apply m.disk) s₁ ∧ ∀ l now', now'.primaryCodexHome = m.store.primaryCodexHome →
      Recovers p (pre.foldl Disk.apply m.disk) l m.store now' → Recovers p m.disk (pre ++ l) m.store now' := by
  cases hpre with
  | selected hgone =>
    exact ⟨h.writeAuto, fun l now' hhome hl => recovers_cons h (between_before hhome).1 hl⟩
  | other hgone => exact ⟨h, fun l now' _ hl => hl⟩

theorem Unselect.between {gone : Prop} {pre : List FsStep} {s₁ : Store} {k : ℕ}
    (hpre : Unselect before gone pre s₁ k) (now' : Store) : Between before now' s₁ := by
  cases hpre with
  | selected hgone => exact ⟨rfl, .inl ⟨rfl, rfl⟩, .inr (.inr rfl)⟩
  | other hgone => exact ⟨rfl, .inl ⟨rfl, rfl⟩, .inl rfl⟩

theorem Unselect.lands {gone : Prop} {pre : List FsStep} {s₁ : Store} {k : ℕ}
    (hpre : Unselect m.store gone pre s₁ k) (h : Opens p m.disk m.store) (n : ℕ) :
    Lands p m (after m n pre s₁) := by
  obtain ⟨hopens, hrecovers⟩ := hpre.recovers h
  have hl := hrecovers [] s₁ (hpre.between s₁).home (recovers_nil hopens (hpre.between s₁))
  rw [List.append_nil] at hl
  exact ⟨n, pre, rfl, hopens, hl⟩

theorem updated_home {id : GoString} {label : Option GoString} {enabled : Option Bool} {s' : Store}
    (hs' : updated s id label enabled = some s') :
    s'.primaryCodexHome = s.primaryCodexHome ∧ s'.routingMode = s.routingMode := by
  unfold updated at hs'
  split at hs'
  · split at hs'
    · cases hs'
    · split at hs'
      · cases hs'
      · obtain rfl := Option.some.inj hs'
        exact ⟨rfl, rfl⟩
  · cases hs'

theorem updated_mode (s : Store) (mode : RoutingMode) (id : GoString) (label : Option GoString)
    (enabled : Option Bool) : updated { s with routingMode := mode } id label enabled =
      (updated s id label enabled).map fun s' => { s' with routingMode := mode } := by
  unfold updated
  have haccount : Store.account { s with routingMode := mode } id = s.account id := rfl
  rw [haccount]
  dsimp only
  split
  · split
    · rfl
    · split <;> rfl
  · rfl

theorem updateAccount_lands (h : Opens p m.disk m.store) (ha : Atomic m.outcomes) {id : GoString}
    {label : Option GoString} {enabled : Option Bool}
    (hfits : ∀ s', updated m.store id label enabled = some s' → readable p s' = true) :
    Lands p m (m.updateAccount id label enabled).2 := by
  have hvalid := h.valid.updateAccount id label enabled
  obtain ⟨n, l, s, hafter, ⟨rfl, rfl⟩ | ⟨pre, s₁, k, hpre, ⟨rfl, rfl⟩ | ⟨s', hs', rfl, rfl⟩⟩⟩ :=
    updateAccount_after ha id label enabled
  · rw [hafter]
    exact lands_same h n
  · rw [hafter]
    exact hpre.lands h n
  · rw [hafter] at hvalid ⊢
    obtain ⟨hopens, hrecovers⟩ := hpre.recovers h
    obtain ⟨hhome, hmode⟩ := updated_home hs'
    have hread : readable p s = true := by
      cases hpre with
      | selected hgone =>
        rw [updated_mode] at hs'
        obtain ⟨s₂, hs₂, rfl⟩ := Option.map_eq_some_iff.mp hs'
        exact hfits s₂ hs₂
      | other hgone => exact hfits s hs'
    have hwritten := Opens.writeState (sound_updated hopens.sound hs' hvalid) hread (hmode ▸ hopens.mode)
    have hnow : Between m.store s s :=
      (between_before (hhome.trans (hpre.between s).home)).2
    refine ⟨n, _, rfl, ?_, hrecovers _ s hnow.home
      (recovers_cons hopens (hpre.between s) (recovers_nil hwritten hnow))⟩
    change Opens p ((pre ++ [FsStep.writeState (stateContents s)]).foldl Disk.apply m.disk) s
    rw [List.foldl_append]
    exact hwritten

theorem setThreadOwners_lands (h : Opens p m.disk m.store) (ha : Atomic m.outcomes)
    {assignments : GoMap GoString}
    (hfits : ∀ s', assigned m.store assignments = some s' → readable p s' = true) :
    Lands p m (m.setThreadOwners assignments).2 := by
  have hvalid := h.valid.setThreadOwners assignments
  obtain ⟨n, l, s, hafter, ⟨rfl, rfl⟩ | ⟨s', hs', rfl, rfl⟩⟩ := setThreadOwners_after ha assignments
  · rw [hafter]
    exact lands_same h n
  · rw [hafter] at hvalid ⊢
    have hmode : s.primaryCodexHome = m.store.primaryCodexHome ∧ s.routingMode = m.store.routingMode := by
      unfold assigned at hs'
      split at hs'
      · cases hs'
      · split at hs'
        · obtain rfl := Option.some.inj hs'
          exact ⟨rfl, rfl⟩
        · cases hs'
    have hwritten := Opens.writeState (sound_assigned h.sound hs' hvalid) (hfits s hs') (hmode.2 ▸ h.mode)
    obtain ⟨hbefore, hnow⟩ := between_before hmode.1
    exact ⟨n, _, rfl, hwritten, recovers_cons h hbefore (recovers_nil hwritten hnow)⟩

theorem setRoutingMode_lands (h : Opens p m.disk m.store) (ha : Atomic m.outcomes)
    (mode : RoutingMode) : Lands p m (m.setRoutingMode mode).2 := by
  obtain ⟨n, l, s, hafter, ⟨rfl, rfl⟩ | ⟨hmode, hon, rfl, rfl⟩⟩ := setRoutingMode_after ha mode
  · rw [hafter]
    exact lands_same h n
  · rw [hafter]
    have hwritten := h.writeRoutingMode hmode hon
    obtain ⟨hbefore, hnow⟩ := between_before (show
      { m.store with routingMode := mode }.primaryCodexHome = m.store.primaryCodexHome from rfl)
    exact ⟨n, _, rfl, hwritten, recovers_cons h hbefore (recovers_nil hwritten hnow)⟩

end Recovery

/-! ## Removals -/

/-- The file-system call of a removal that moves the directory away. -/
def quarantineCall (s : Store) (id : GoString) : ℕ :=
  if s.routingMode.accountID = id then 6 else 4

def removable (s : Store) (id : GoString) : Bool :=
  pathFree id && (s.account id).any fun a => a.id ≠ lit "primary" && !a.controller

section Removing
variable {p : Platform} {m : Machine} {id : GoString} {drawn : Bool}

theorem Unselect.call {pre : List FsStep} {s₁ : Store} {k : ℕ}
    (hpre : Unselect m.store (m.store.routingMode.accountID = id) pre s₁ k) :
    3 + k + 1 = quarantineCall m.store id := by
  unfold quarantineCall
  cases hpre with
  | selected hgone => rw [if_pos hgone]
  | other hgone => rw [if_neg hgone]

theorem Unselect.readable {gone : Prop} {pre : List FsStep} {s₁ : Store} {k : ℕ}
    (hpre : Unselect m.store gone pre s₁ k) (p : Platform) (id : GoString) :
    readable p s₁ = readable p m.store ∧
      readable p (withoutAccount s₁ id) = readable p (withoutAccount m.store id) := by
  cases hpre with
  | selected hgone => exact ⟨rfl, rfl⟩
  | other hgone => exact ⟨rfl, rfl⟩

theorem removable_of (h : pathFree id = true ∧ ∃ a, m.store.account id = some a ∧
    a.id ≠ lit "primary" ∧ a.controller = false) : removable m.store id = true := by
  obtain ⟨hpath, a, hfound, hid, hcontroller⟩ := h
  simp [removable, hpath, hfound, hid, hcontroller]

/-- A removal that is put back leaves the files as it found them, or with the account gone
from them as well. -/
theorem removeAccount_opens (h : Opens p m.disk m.store) (ha : Atomic m.outcomes)
    (hfits : removable m.store id = true → readable p (withoutAccount m.store id) = true ∧
      (Stuck m.outcomes (quarantineCall m.store id) drawn → readable p m.store = true ∧
        failing m.outcomes (quarantineCall m.store id + if drawn then 1 else 0) = false)) :
    Opens p (m.removeAccount p id drawn).2.disk (m.removeAccount p id drawn).2.store := by
  have hvalid := h.valid.removeAccount p id drawn
  obtain ⟨n, l, s, hafter, ⟨rfl, rfl⟩ | ⟨hremovable, pre, s₁, k, hpre, ⟨rfl, rfl⟩ | ⟨rest, rfl, hrest⟩⟩⟩ :=
    removeAccount_after p ha id drawn
  · rw [hafter]
    exact h
  · rw [hafter]
    exact (hpre.recovers h).1
  · rw [hafter] at hvalid ⊢
    obtain ⟨hwithout, hback⟩ := hfits (removable_of hremovable)
    rw [← hpre.call] at hback
    have hopens := (hpre.recovers h).1
    change Opens p ((pre ++ .writeState (stateContents (withoutAccount s₁ id)) :: rest).foldl
      Disk.apply m.disk) s
    rw [List.foldl_append, List.foldl_cons]
    cases hrest with
    | unrestored hstuck hf =>
      have hok := (hback hstuck).2
      cases drawn with
      | false =>
        rw [if_neg (by decide)] at hf hok
        rw [Nat.add_zero, hf] at hok
        cases hok
      | true =>
        rw [if_pos rfl] at hf hok
        rw [hf] at hok
        cases hok
    | restored hstuck =>
      exact Opens.writeState (d := Disk.apply _ _) hopens.sound
        ((hpre.readable p id).1.trans (hback hstuck).1) hopens.mode
    | quarantined _ =>
      have hsound := sound_without hopens.sound hvalid
      have hwritten := Opens.writeState hsound ((hpre.readable p id).2.trans hwithout)
        hopens.mode
      exact hwritten.quarantine (accountExists_without hopens.valid.ids id)
    | discarded _ =>
      have hsound := sound_without hopens.sound hvalid
      have hwritten := Opens.writeState hsound ((hpre.readable p id).2.trans hwithout)
        hopens.mode
      exact (hwritten.quarantine (accountExists_without hopens.valid.ids id)).discard id

theorem removeAccount_lands (h : Opens p m.disk m.store) (ha : Atomic m.outcomes)
    (hfits : removable m.store id = true → readable p (withoutAccount m.store id) = true)
    (hgo : ¬ Stuck m.outcomes (quarantineCall m.store id) drawn) :
    Lands p m (m.removeAccount p id drawn).2 := by
  have hvalid := h.valid.removeAccount p id drawn
  obtain ⟨n, l, s, hafter, ⟨rfl, rfl⟩ | ⟨hremovable, pre, s₁, k, hpre, ⟨rfl, rfl⟩ | ⟨rest, rfl, hrest⟩⟩⟩ :=
    removeAccount_after p ha id drawn
  · rw [hafter]
    exact lands_same h n
  · rw [hafter]
    exact hpre.lands h n
  · rw [hafter] at hvalid ⊢
    rw [hpre.call] at hrest
    obtain ⟨hopens, hrecovers⟩ := hpre.recovers h
    have hs : s = withoutAccount s₁ id ∧
        (rest = [.quarantine id] ∨ rest = [.quarantine id, .discard id]) := by
      cases hrest with
      | unrestored hstuck _ => exact absurd hstuck hgo
      | restored hstuck => exact absurd hstuck hgo
      | quarantined _ => exact ⟨rfl, .inl rfl⟩
      | discarded _ => exact ⟨rfl, .inr rfl⟩
    obtain ⟨rfl, hsteps⟩ := hs
    clear hrest
    have hwritten := Opens.writeState (sound_without hopens.sound hvalid)
      ((hpre.readable p id).2.trans (hfits (removable_of hremovable))) hopens.mode
    have hfree := accountExists_without hopens.valid.ids id
    have hmoved := hwritten.quarantine hfree
    have hgone := hmoved.discard id
    have hnow : Between m.store (withoutAccount s₁ id) (withoutAccount s₁ id) :=
      (between_before (show (withoutAccount s₁ id).primaryCodexHome = m.store.primaryCodexHome from
        (hpre.between s₁).home)).2
    have hfirst := hpre.between (withoutAccount s₁ id)
    refine ⟨n, _, rfl, ?_, hrecovers _ _ hnow.home (recovers_cons hopens hfirst ?_)⟩
    · change Opens p ((pre ++ .writeState (stateContents (withoutAccount s₁ id)) :: rest).foldl
        Disk.apply m.disk) _
      rw [List.foldl_append, List.foldl_cons]
      rcases hsteps with rfl | rfl
      · exact hmoved
      · exact hgone
    · rcases hsteps with rfl | rfl
      · exact recovers_cons hwritten hnow (recovers_nil hmoved hnow)
      · exact recovers_cons hwritten hnow (recovers_cons hmoved hnow (recovers_nil hgone hnow))

end Removing

/-! ## Runs -/

/-- A call with the outcomes of the file-system calls that it makes. -/
structure Move where
  call : Call
  outcomes : List (Option Fault)

/-- A process opens its store once and then works on it. -/
def life (p : Platform) (u : Session) (e : Move) : Option Session :=
  match e.call with
  | .openStore _ _ => if u.opened then none else step u ⟨e.call, p, e.outcomes⟩
  | _ => step u ⟨e.call, p, e.outcomes⟩

instance (outcomes : List (Option Fault)) (i : ℕ) (drawn : Bool) :
    Decidable (Stuck outcomes i drawn) :=
  inferInstanceAs (Decidable (_ ∨ _))

/-- The loader will take what the call writes. A removal that gets stuck is put back. -/
def taken (p : Platform) (s : Store) (outcomes : List (Option Fault)) : Call → Bool
  | .openStore _ _ => true
  | .addAccount label draws now =>
    match freshID s draws 8 with
    | .error _ => true
    | .ok id => !validLabel (newLabel s label) ||
      room p (grown p s id label now) now && readable p (grown p s id label now)
  | .updateAccount id label enabled => (updated s id label enabled).all (readable p)
  | .setThreadOwners assignments => (assigned s assignments).all (readable p)
  | .removeAccount id drawn =>
    !removable s id || readable p (withoutAccount s id) &&
      (!decide (Stuck outcomes (quarantineCall s id) drawn) ||
        readable p s && !failing outcomes (quarantineCall s id + if drawn then 1 else 0))
  | .setRoutingMode _ => true

/-- The condition on a call. A file is not said to be missing when it is there, and a call
that fails has changed nothing. -/
def careful (p : Platform) (u : Session) (e : Move) : Bool :=
  match e.call with
  | .openStore home now =>
    (e.outcomes.all fun o => o.all fun fault => !isNotExist fault.error) &&
      (u.machine.disk.stateFile.isSome || startable p home now)
  | call => (e.outcomes.all fun o => o.all fun fault => !fault.applied) &&
      taken p u.machine.store e.outcomes call

/-- A removal is not put back. -/
def goesThrough (u : Session) (e : Move) : Bool :=
  match e.call with
  | .removeAccount id drawn =>
    !decide (Stuck e.outcomes (quarantineCall u.machine.store id) drawn)
  | _ => true

section Runs
variable {p : Platform} {u v : Session} {e : Move}

theorem atomic_of_all {outcomes : List (Option Fault)}
    (h : (outcomes.all fun o => o.all fun fault => !fault.applied) = true) : Atomic outcomes := by
  intro fault hmem
  have hfault := List.all_eq_true.mp h (some fault) hmem
  simpa using hfault

theorem honest_of_all {outcomes : List (Option Fault)}
    (h : (outcomes.all fun o => o.all fun fault => !isNotExist fault.error) = true) :
    Honest outcomes := by
  intro fault hmem
  have hfault := List.all_eq_true.mp h (some fault) hmem
  simpa using hfault

theorem andThen_unit {α : Type} (r : Result α) :
    (r.andThen fun _ m => ((.ok (), m) : Result Unit)).2 = r.2 := by
  obtain ⟨e | a, m⟩ := r <;> rfl

/-- An operation that is not put back stops only where its files open. -/
theorem perform_lands {m : Machine} {call : Call} (h : Opens p m.disk m.store) (ha : Atomic m.outcomes)
    (hcall : ∀ home now, call ≠ .openStore home now) (ht : taken p m.store m.outcomes call = true)
    (hgo : ∀ id drawn, call = .removeAccount id drawn →
      ¬ Stuck m.outcomes (quarantineCall m.store id) drawn) : Lands p m (call.perform p m).2 := by
  cases call with
  | openStore home now => exact absurd rfl (hcall home now)
  | addAccount label draws now =>
    rw [Call.perform, andThen_unit]
    refine addAccount_lands h ha fun id hid hlabel => ?_
    simp only [taken, hid, hlabel, Bool.not_true, Bool.false_or, Bool.and_eq_true] at ht
    exact ht
  | updateAccount id label enabled =>
    rw [Call.perform, andThen_unit]
    refine updateAccount_lands h ha fun s' hs' => ?_
    simpa only [taken, hs', Option.all_some] using ht
  | setThreadOwners assignments =>
    refine setThreadOwners_lands h ha fun s' hs' => ?_
    simpa only [taken, hs', Option.all_some] using ht
  | removeAccount id drawn =>
    refine removeAccount_lands h ha (fun hremovable => ?_) (hgo id drawn rfl)
    simp only [taken, hremovable, Bool.not_true, Bool.false_or, Bool.and_eq_true] at ht
    exact ht.1
  | setRoutingMode mode => exact setRoutingMode_lands h ha mode

theorem perform_opens {m : Machine} {call : Call} (h : Opens p m.disk m.store) (ha : Atomic m.outcomes)
    (hcall : ∀ home now, call ≠ .openStore home now) (ht : taken p m.store m.outcomes call = true) :
    Opens p (call.perform p m).2.disk (call.perform p m).2.store := by
  by_cases hremoval : ∃ id drawn, call = .removeAccount id drawn
  · obtain ⟨id, drawn, rfl⟩ := hremoval
    refine removeAccount_opens h ha fun hremovable => ?_
    simp only [taken, hremovable, Bool.not_true, Bool.false_or, Bool.and_eq_true,
      Bool.or_eq_true] at ht
    refine ⟨ht.1, fun hstuck => ?_⟩
    have hback := ht.2.resolve_left (by simp [hstuck])
    simpa using hback
  · obtain ⟨_, _, _, hopens, _⟩ := perform_lands h ha hcall ht fun id drawn hr =>
      absurd ⟨id, drawn, hr⟩ hremoval
    exact hopens

theorem careful_opens (h : u.opened = true → Opens p u.machine.disk u.machine.store)
    (hc : careful p u e = true) (hs : life p u e = some v) :
    v.opened = true → Opens p v.machine.disk v.machine.store := by
  obtain ⟨call, outcomes⟩ := e
  cases call with
  | openStore home now =>
    simp only [life] at hs
    split at hs
    · cases hs
    · rename_i hclosed
      simp only [careful, Bool.and_eq_true, Bool.or_eq_true] at hc
      obtain rfl := Option.some.inj hs
      intro ho
      have hok : (openStore p (u.machine.facing outcomes) home now).1 = .ok () := by
        have hr : (openStore p (u.machine.facing outcomes) home now).1.isOk = true := by
          simpa [hclosed, Call.perform] using ho
        cases hopen : (openStore p (u.machine.facing outcomes) home now).1 with
        | ok => rfl
        | error e =>
          rw [hopen] at hr
          cases hr
      refine openStore_taken (m := u.machine.facing outcomes) (honest_of_all hc.1) hok fun hnone => ?_
      refine hc.2.resolve_left fun hsome => ?_
      rw [show u.machine.disk.stateFile = none from hnone] at hsome
      cases hsome
  | _ =>
    simp only [life, step] at hs
    split at hs
    · rename_i ho
      obtain rfl := Option.some.inj hs
      intro _
      simp only [careful, Bool.and_eq_true] at hc
      exact perform_opens (m := u.machine.facing outcomes) (h ho) (atomic_of_all hc.1)
        (fun _ _ h => by cases h) hc.2
    · cases hs

theorem runs_open {m : Machine} {events : List Move}
    (h : Runs (Guarded (fun u e => careful p u e = true) (Fires (life p))) ⟨m, false⟩ events u) :
    u.opened = true → Opens p u.machine.disk u.machine.store :=
  h.invariant (I := fun u => u.opened = true → Opens p u.machine.disk u.machine.store)
    (fun hf => nomatch hf) fun _ _ _ hi ⟨hc, hs⟩ => careful_opens hi hc hs

end Runs

/-! ## Opening again -/

/-- `Open` in a new process, on the files as they are. -/
def reopen (p : Platform) (d : Disk) (home : GoString) (now : ℤ) : Result Unit :=
  openStore p ⟨⟨[], [], ∅, .auto⟩, d, [], []⟩ home now

/-- A call that succeeds; its file-system calls have all succeeded. -/
def succeed (p : Platform) (u : Session) (call : Call) : Option Session :=
  if (call.perform p (u.machine.facing [])).1.isOk then life p u ⟨call, []⟩ else none

theorem life_of_succeed {p : Platform} {u v : Session} {call : Call}
    (h : succeed p u call = some v) : life p u ⟨call, []⟩ = some v := by
  unfold succeed at h
  split at h
  · exact h
  · cases h

theorem careful_runs_life {p : Platform} {u v : Session} {calls : List Call}
    (h : Runs (Guarded (fun u call => careful p u ⟨call, []⟩ = true) (Fires (succeed p))) u calls v) :
    Runs (Guarded (fun u e => careful p u e = true) (Fires (life p))) u (calls.map (⟨·, []⟩)) v := by
  induction h with
  | refl => exact .refl u
  | tail _ last ih =>
    rw [List.map_append]
    exact .tail ih ⟨last.1, life_of_succeed last.2⟩

/-- Whatever succeeds, as long as the loader takes what is written, the files open again as
the store that wrote them. -/
theorem careful_runs_reopen {p : Platform} {m : Machine} {u : Session} {calls : List Call}
    (h : Runs (Guarded (fun u call => careful p u ⟨call, []⟩ = true) (Fires (succeed p)))
      ⟨m, false⟩ calls u) (ho : u.opened = true) (now : ℤ) :
    (reopen p u.machine.disk u.machine.store.primaryCodexHome now).1 = .ok () ∧
      (reopen p u.machine.disk u.machine.store.primaryCodexHome now).2.store = u.machine.store := by
  have hopens := runs_open (careful_runs_life h) ho
  have hreopen := hopens.openStore
    (m := ⟨⟨[], [], ∅, .auto⟩, u.machine.disk, [], []⟩) rfl now
  unfold reopen
  rw [hreopen]
  exact ⟨rfl, rfl⟩

/-- The steps that an operation has made, cut off after `k` of them. -/
def crashed (u v : Session) (k : ℕ) : Disk :=
  ((v.machine.steps.drop u.machine.steps.length).take k).foldl Disk.apply u.machine.disk

theorem life_lands {p : Platform} {u v : Session} {e : Move}
    (h : Opens p u.machine.disk u.machine.store) (ho : u.opened = true)
    (hc : careful p u e = true) (hgo : goesThrough u e = true) (hs : life p u e = some v) :
    Lands p (u.machine.facing e.outcomes) v.machine := by
  obtain ⟨call, outcomes⟩ := e
  cases call with
  | openStore home now =>
    simp only [life, ho, if_true] at hs
    cases hs
  | removeAccount id drawn =>
    simp only [life, step, ho, if_true] at hs
    obtain rfl := Option.some.inj hs
    simp only [careful, Bool.and_eq_true] at hc
    refine perform_lands (m := u.machine.facing outcomes) h (atomic_of_all hc.1)
      (fun _ _ h => by cases h) hc.2 fun _ _ hr => ?_
    obtain ⟨rfl, rfl⟩ := Call.removeAccount.inj hr
    exact of_decide_eq_false (Bool.not_eq_true' _ ▸ hgo)
  | _ =>
    simp only [life, step, ho, if_true] at hs
    obtain rfl := Option.some.inj hs
    simp only [careful, Bool.and_eq_true] at hc
    exact perform_lands (m := u.machine.facing outcomes) h (atomic_of_all hc.1)
      (fun _ _ h => by cases h) hc.2 fun _ _ h => by cases h

/-- A process that stops in the middle of an operation leaves files that open, with the
accounts and owners from before or after it. -/
theorem careful_runs_recover {p : Platform} {m : Machine} {u v : Session} {events : List Move}
    (h : Runs (Guarded (fun u e => careful p u e = true) (Fires (life p))) ⟨m, false⟩ events u)
    (ho : u.opened = true) {e : Move} (hc : careful p u e = true) (hgo : goesThrough u e = true)
    (hs : life p u e = some v) (k : ℕ) (now : ℤ) :
    (reopen p (crashed u v k) u.machine.store.primaryCodexHome now).1 = .ok () ∧
      Valid (reopen p (crashed u v k) u.machine.store.primaryCodexHome now).2.store ∧
      Between u.machine.store v.machine.store
        (reopen p (crashed u v k) u.machine.store.primaryCodexHome now).2.store := by
  obtain ⟨n, l, hafter, _, hrecovers⟩ := life_lands (runs_open h ho) ho hc hgo hs
  have hcrashed : crashed u v k = (l.take k).foldl Disk.apply u.machine.disk := by
    rw [crashed, hafter]
    simp only [after, Machine.facing, List.drop_left]
  obtain ⟨s, hopens, hbetween⟩ := hrecovers k
  rw [show (l.take k).foldl Disk.apply (u.machine.facing e.outcomes).disk = crashed u v k from
    hcrashed.symm] at hopens
  have hreopen := hopens.openStore (m := ⟨⟨[], [], ∅, .auto⟩, crashed u v k, [], []⟩) rfl now
  rw [show s.primaryCodexHome = u.machine.store.primaryCodexHome from hbetween.home] at hreopen
  unfold reopen
  rw [hreopen]
  exact ⟨rfl, hopens.valid, hbetween⟩

/-- A second account is added, selected, renamed and given a thread. -/
theorem careful_runs_reopen_two : ∃ u : Session, u.machine.store.accounts.length = 2 ∧
    (reopen plainPlatform u.machine.disk u.machine.store.primaryCodexHome 9).1 = .ok () ∧
    (reopen plainPlatform u.machine.disk u.machine.store.primaryCodexHome 9).2.store =
      u.machine.store := by
  have h : (exec (guard (fun u call => careful plainPlatform u ⟨call, []⟩ = true)
      (succeed plainPlatform)) ⟨emptyMachine, false⟩
      [.openStore (lit "/home") 0,
        .addAccount (lit "Work") (fun _ => some (Vector.replicate 8 0)) 1,
        .setRoutingMode ⟨lit "account", lit "0000000000000000"⟩,
        .updateAccount (lit "0000000000000000") (some (lit "Job")) none,
        .setThreadOwners ((∅ : GoMap GoString).insert (lit "t") (lit "0000000000000000"))]).any
      (fun u => u.opened && decide (u.machine.store.accounts.length = 2)) = true := by
    decide +kernel
  obtain ⟨u, hr, hu⟩ := guarded_runs_of_exec_any h
  obtain ⟨ho, haccounts⟩ := Bool.and_eq_true _ _ ▸ hu
  exact ⟨u, of_decide_eq_true haccounts, careful_runs_reopen hr ho 9⟩

/-- The second account is removed, and the process stops when it is out of the state file
but its directory is still there. -/
theorem careful_runs_recover_removal : ∃ u v : Session, u.machine.store.accounts.length = 2 ∧
    v.machine.store.accounts.length = 1 ∧
    (reopen plainPlatform (crashed u v 2) u.machine.store.primaryCodexHome 9).1 = .ok () := by
  have h : (exec (guard (fun u e => careful plainPlatform u e = true) (life plainPlatform))
      ⟨emptyMachine, false⟩
      [⟨.openStore (lit "/home") 0, []⟩,
        ⟨.addAccount (lit "Work") (fun _ => some (Vector.replicate 8 0)) 1, []⟩,
        ⟨.setRoutingMode ⟨lit "account", lit "0000000000000000"⟩, []⟩]).any
      (fun u => u.opened && decide (u.machine.store.accounts.length = 2) &&
        careful plainPlatform u ⟨.removeAccount (lit "0000000000000000") true, []⟩ &&
        goesThrough u ⟨.removeAccount (lit "0000000000000000") true, []⟩ &&
        (life plainPlatform u ⟨.removeAccount (lit "0000000000000000") true, []⟩).any fun v =>
          decide (v.machine.store.accounts.length = 1)) = true := by
    decide +kernel
  obtain ⟨u, hr, hu⟩ := guarded_runs_of_exec_any h
  simp only [Bool.and_eq_true, decide_eq_true_eq] at hu
  obtain ⟨⟨⟨⟨ho, htwo⟩, hc⟩, hgo⟩, hnext⟩ := hu
  obtain ⟨v, hs, hone⟩ := Option.any_eq_true _ _ |>.mp hnext
  exact ⟨u, v, htwo, of_decide_eq_true hone, (careful_runs_recover hr ho hc hgo hs 2 9).1⟩

/-- The home directory of the primary account is not UTF-8. Its label is changed, and
wherever that stops, the store does not open again. -/
theorem update_leaves_unreadable_home : ∃ u v : Session,
    Runs (Fires (life plainPlatform)) ⟨emptyMachine, false⟩ [⟨.openStore [0x2F, 0xFF] 0, []⟩] u ∧
    u.opened = true ∧ u.machine.store.accounts.length = 1 ∧
    life plainPlatform u ⟨.updateAccount (lit "primary") (some (lit "Main")) none, []⟩ = some v ∧
    (reopen plainPlatform (crashed u v 0) u.machine.store.primaryCodexHome 9).1.isOk = false ∧
    (reopen plainPlatform (crashed u v 1) u.machine.store.primaryCodexHome 9).1.isOk = false := by
  have h : (exec (life plainPlatform) ⟨emptyMachine, false⟩ [⟨.openStore [0x2F, 0xFF] 0, []⟩]).any
      (fun u => u.opened && decide (u.machine.store.accounts.length = 1) &&
        (life plainPlatform u ⟨.updateAccount (lit "primary") (some (lit "Main")) none, []⟩).any fun v =>
          !(reopen plainPlatform (crashed u v 0) u.machine.store.primaryCodexHome 9).1.isOk &&
          !(reopen plainPlatform (crashed u v 1) u.machine.store.primaryCodexHome 9).1.isOk) = true := by
    decide +kernel
  obtain ⟨u, hr, hu⟩ := runs_of_exec_any h
  simp only [Bool.and_eq_true, decide_eq_true_eq] at hu
  obtain ⟨⟨ho, hone⟩, hnext⟩ := hu
  obtain ⟨v, hs, hv⟩ := Option.any_eq_true _ _ |>.mp hnext
  simp only [Bool.and_eq_true, Bool.not_eq_true'] at hv
  exact ⟨u, v, hr, ho, hone, hs, hv⟩

/-! ## One account too many -/

/-- The loader rejects a state file with more than 64 accounts, which the writer does not. -/
theorem reopen_over_limit {p : Platform} {d : Disk} {s : Store} (hs : Encodable s)
    (hfile : d.stateFile = some (stateContents s)) (hcount : maxAccounts < s.accounts.length)
    (home : GoString) (now : ℤ) : (reopen p d home now).1 ≠ .ok () := by
  intro h
  unfold reopen at h
  set m : Machine := ⟨⟨[], [], ∅, .auto⟩, d, [], []⟩
  have hopening : (opening p m home now).1 = .ok () := by
    unfold openStore at h
    split at h
    · rename_i hr
      exact congrArg Prod.fst hr
    · cases h
  unfold opening at hopening
  rw [probeAll_quiet (m := m) rfl, Result.andThen] at hopening
  dsimp only at hopening
  split at hopening
  · cases hopening
  · rw [probe_quiet (m := m) rfl, Result.andThen] at hopening
    obtain ⟨loaded, hloaded, _⟩ := andThen_ok hopening
    rcases loadState_taken (fun _ hf => absurd hf List.not_mem_nil) hloaded with ⟨_, _, hloads⟩ | ⟨hnone, _⟩
    · obtain ⟨data, persisted, hdata, _, hdecode, haccepts, _⟩ := hloads
      obtain rfl := Option.some.inj (hdata.symm.trans hfile)
      rw [decode_stateContents hs] at hdecode
      have hsame : s.accounts.map asRead = persisted :=
        congrArg PersistedState.accounts (Option.some.inj hdecode)
      have hle := haccepts.count
      rw [← hsame, List.length_map] at hle
      omega
    · rw [hfile] at hnone
      cases hnone

def adds (n : ℕ) : List Call := (List.range n).map fun i =>
  .addAccount [] (fun _ => some (Vector.replicate 8 (UInt8.ofNat i))) 1

/-- What is asked of the accounts of a store so that its file can be decoded. -/
def decodable (s : Store) : Bool :=
  (s.accounts.all fun a => validString a.id && validString a.label &&
    decide (0 ≤ a.createdAt) && decide (a.createdAt < 2 ^ 63)) && s.owners.toList.isEmpty

theorem encodable_of_decodable {s : Store} (h : decodable s = true) : Encodable s := by
  simp only [decodable, Bool.and_eq_true, List.all_eq_true, decide_eq_true_eq,
    List.isEmpty_iff] at h
  obtain ⟨haccounts, howners⟩ := h
  refine ⟨fun a ha => (haccounts a ha).1.1, fun a ha => ⟨(haccounts a ha).1.2, (haccounts a ha).2⟩,
    fun e he => ?_⟩
  rw [howners] at he
  cases he

/-- The store is opened and 64 accounts are added, each with success; it does not open again. -/
theorem added_accounts_brick : ∃ (u : Session) (calls : List Call),
    Runs (Fires (succeed plainPlatform)) ⟨emptyMachine, false⟩ (.openStore (lit "/home") 0 :: calls) u ∧
    calls.length = 64 ∧ u.opened = true ∧
    ∀ now, (reopen plainPlatform u.machine.disk u.machine.store.primaryCodexHome now).1 ≠ .ok () := by
  let last : Call := .addAccount [] (fun _ => some (Vector.replicate 8 64)) 1
  have h : (exec (succeed plainPlatform) ⟨emptyMachine, false⟩ (.openStore (lit "/home") 0 :: adds 63)).any
      (fun u => u.opened && decide (u.machine.store.accounts.length = 64) &&
        (succeed plainPlatform u last).any fun v => v.opened &&
          decide (v.machine.store.accounts.length = 65) && decodable v.machine.store) = true := by
    decide +kernel
  obtain ⟨u, hr, hu⟩ := runs_of_exec_any h
  simp only [Bool.and_eq_true, decide_eq_true_eq] at hu
  obtain ⟨⟨ho, hcount⟩, hnext⟩ := hu
  obtain ⟨v, hs, hv⟩ := (Option.any_eq_true _ _).mp hnext
  simp only [Bool.and_eq_true, decide_eq_true_eq] at hv
  obtain ⟨⟨hopened, hmany⟩, hdecodable⟩ := hv
  refine ⟨v, adds 63 ++ [last], hr.tail hs, rfl, hopened, fun now => ?_⟩
  have hv : v.machine = ((u.machine.facing []).addAccount plainPlatform [] (fun _ =>
      some (Vector.replicate 8 64)) 1).2 := by
    have hlife := life_of_succeed hs
    simp only [life, step, ho, if_true] at hlife
    obtain rfl := Option.some.inj hlife
    exact andThen_unit _
  have hfile : v.machine.disk.stateFile = some (stateContents v.machine.store) := by
    obtain ⟨n, l, s, hafter, htrace⟩ := addAccount_after plainPlatform (m := u.machine.facing [])
      (fun _ hf => (nomatch hf)) [] (fun _ => some (Vector.replicate 8 64)) 1
    rw [hafter] at hv
    have hgrew : s ≠ u.machine.store := by
      rintro rfl
      rw [hv] at hmany
      exact absurd (hcount.symm.trans hmany) (by decide)
    rcases htrace with ⟨_, hsame⟩ | ⟨id, _, _, ⟨_, hsame⟩ | ⟨rfl, rfl⟩⟩
    · exact absurd hsame hgrew
    · exact absurd hsame hgrew
    · rw [hv]
      rfl
  exact reopen_over_limit (encodable_of_decodable hdecodable) hfile (by rw [hmany]; decide) _ now

end SubscriptionRouter.StoreCrash
