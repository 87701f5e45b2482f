import Mathlib
import SubscriptionRouter.RuntimeSteps

set_option autoImplicit false

/-!
# Pending sign-ins

`StartLogin` reserves the record with a placeholder, asks the child and stores the
login id of its answer. The notification that completes the sign-in and the snapshots
of the account write the same record without the account's lock.
-/
namespace SubscriptionRouter.PendingLogins
open GoText StoreState Transitions Locks AccountRuntime

variable {u v : Router} {t : Task} {c : Choice}

/-- The pending sign-in after an update. -/
def loginAfter (loginID : GoString) : Update → GoString
  | .disabled | .pending | .childFailure _ | .healthy _ _ _ => []
  | .reserve => loginStarting
  | .clearReservation _ => if loginID = loginStarting then [] else loginID
  | .storeLogin _ stored => if loginID = loginStarting then stored else loginID
  | .cancelled ended _ | .completed ended _ _ => if loginID = ended then [] else loginID
  | .failure _ | .started | .issued _ | .cancelling _ _ | .openCircuit _ | .closeCircuit _ => loginID

theorem apply_loginID (now : ℤ) (r : Runtime) (x : Update) :
    (x.apply now r).loginID = loginAfter r.loginID x := by
  cases x with
  | clearReservation err =>
    by_cases h : r.loginID = loginStarting <;> cases err <;> simp [Update.apply, loginAfter, h]
  | storeLogin child stored =>
    simp only [Update.apply, loginAfter]
    split <;> rfl
  | cancelling loginID cancel =>
    simp only [Update.apply, loginAfter]
    split <;> rfl
  | completed ended success err =>
    simp only [Update.apply, loginAfter, ne_eq, ite_not]
    split
    · split <;> rfl
    · rfl
  | _ => rfl

/-! ## A completed sign-in does not stay pending -/

/-- A sign-in that `StartLogin` has returned and whose completion has been handled is
not pending. -/
def CompletedEnded (u : Router) : Prop :=
  ∀ p ∈ u.history.returned, p ∈ u.history.handled → (u.runtimeState p.1).loginID ≠ p.2

def storing (t : Task) : Option GoString :=
  match t.stage with
  | .free _ => none
  | .holding op => op.storing

/-- A completion is handled when no `StartLogin` has been answered with its login id and
has yet to store it. -/
def StoredFirst (u : Router) : Action → Prop
  | .completed id loginID _ _ => ∀ t ∈ u.tasks, t.id = id → storing t ≠ some loginID
  | _ => True

instance (u : Router) (l : Action) : Decidable (StoredFirst u l) := by
  cases l <;> unfold StoredFirst <;> infer_instance

structure CompletedInv (u : Router) : Prop where
  named : ∀ p ∈ u.history.handled, p.2 ≠ []
  ended : ∀ p ∈ u.history.handled, (u.runtimeState p.1).loginID ≠ p.2
  unhandled : ∀ t ∈ u.tasks, ∀ loginID, storing t = some loginID →
    (t.id, loginID) ∉ u.history.handled

theorem note_handled {h : History} {now : ℤ} {id : GoString} {x : Update} (hx : x.Written u t) :
    (h.note now id x).handled ⊆ h.handled := by
  cases x with
  | reserve | issued => exact Finset.erase_subset _ _
  | completed => exact hx.elim
  | _ => exact subset_rfl

theorem CompletedInv.update (hi : CompletedInv u) {x : Update} (ht : t ∈ u.tasks)
    (hx : x.Written u t) {p : GoString × GoString}
    (hp : p ∈ (u.history.note u.clock t.id x).handled) :
    ((u.updateRuntime t.id x).runtimeState p.1).loginID ≠ p.2 := by
  have hmem := note_handled hx hp
  have hnamed := hi.named p hmem
  have hended := hi.ended p hmem
  rw [runtimeState_updateRuntime]
  split
  · rename_i hid
    rw [apply_loginID, hid]
    cases x with
    | disabled | pending | childFailure | healthy => exact hnamed.symm
    | reserve =>
      intro he
      refine (Finset.mem_erase.mp hp).1 ?_
      rw [hid]
      exact Prod.ext rfl he.symm
    | clearReservation | cancelled =>
      simp only [loginAfter]
      split
      · exact hnamed.symm
      · exact hended
    | storeLogin child stored =>
      simp only [loginAfter]
      split
      · intro he
        have hstage : t.stage = .holding (.login (.store child stored)) := hx
        refine hi.unhandled t ht stored (by simp [storing, hstage, Op.storing]) ?_
        rw [hid, he]
        exact hmem
      · exact hended
    | completed => exact hx.elim
    | _ => exact hended
  · exact hended

theorem CompletedInv.advance (hi : CompletedInv u) {i : ℕ} (ht : u.tasks[i]? = some t)
    {o : Outcome Stage} (ho : t.act u c = some o) : CompletedInv (u.advance i t o) := by
  have hmem := List.mem_of_getElem? ht
  have hsub : (u.advance i t o).history.handled ⊆ u.history.handled := by
    cases hx : o.update with
    | none =>
      rw [(advance_none hx).2.1]
    | some x =>
      rw [(advance_update hx).2.1]
      exact note_handled (act_update ho hx)
  refine ⟨fun p hp => hi.named p (hsub hp), fun p hp => ?_, fun t' ht' loginID hL hin => ?_⟩
  · cases hx : o.update with
    | none =>
      obtain ⟨hr, hh, _⟩ := advance_none (u := u) (t := t) (i := i) hx
      rw [hh] at hp
      unfold Router.runtimeState
      rw [hr]
      exact hi.ended p hp
    | some x =>
      obtain ⟨hr, hh, _⟩ := advance_update (u := u) (t := t) (i := i) hx
      rw [hh] at hp
      unfold Router.runtimeState
      rw [hr]
      exact hi.update hmem (act_update ho hx) hp
  · rcases mem_advance ht' with ht' | ⟨s, hs, rfl⟩ | ⟨next, _, rfl⟩
    · exact hi.unhandled t' (List.mem_of_mem_eraseIdx ht') loginID hL (hsub hin)
    · cases s with
      | free => cases hL
      | holding op =>
        obtain ⟨_, _, hfollows⟩ := act_next ho hs
        have hx := hfollows.storing loginID hL
        rw [(advance_update hx).2.1] at hin
        exact Finset.notMem_erase _ _ hin
    · cases hL

theorem CompletedInv.step {l : Action} (hi : CompletedInv u)
    (h : Guarded StoredFirst (Fires step) u l v) : CompletedInv v := by
  obtain ⟨hfirst, hs⟩ := h
  have hspawn : ∀ id next, CompletedInv (u.spawn id next) := fun id next =>
    ⟨hi.named, hi.ended, fun t ht loginID hL => by
      rcases List.mem_append.mp ht with ht | ht
      · exact hi.unhandled t ht loginID hL
      · obtain rfl := List.mem_singleton.mp ht
        cases hL⟩
  cases l with
  | startLogin id mode =>
    cases hs
    split
    · exact hspawn _ _
    · exact hi
  | updateAccount id label enabled =>
    cases hs
    split
    · exact hi
    · exact hspawn _ _
  | cancelLogin | logout | refresh =>
    cases hs
    exact hspawn _ _
  | completed id loginID success err =>
    cases hs
    split
    · exact hi
    · rename_i hne
      refine ⟨fun p hp => ?_, fun p hp => ?_, fun t ht L hL hin => ?_⟩
      · rcases Finset.mem_insert.mp hp with rfl | hp
        · exact hne
        · exact hi.named p hp
      · rw [runtimeState_updateRuntime]
        split
        · rename_i hid
          rw [apply_loginID]
          simp only [loginAfter]
          rcases Finset.mem_insert.mp hp with rfl | hmem
          · split
            · exact Ne.symm hne
            · assumption
          · subst hid
            split
            · exact (hi.named p hmem).symm
            · exact hi.ended p hmem
        · rename_i hid
          rcases Finset.mem_insert.mp hp with rfl | hmem
          · exact absurd rfl hid
          · exact hi.ended p hmem
      · rcases Finset.mem_insert.mp hin with he | hin
        · obtain ⟨hid, rfl⟩ := Prod.mk.inj he
          exact hfirst t ht hid hL
        · exact hi.unhandled t ht L hL hin
  | runtimeFailure id err =>
    cases hs
    refine ⟨hi.named, fun p hp => ?_, hi.unhandled⟩
    rw [runtimeState_updateRuntime]
    split
    · rename_i hid
      subst hid
      exact hi.ended p hp
    · exact hi.ended p hp
  | exit child =>
    obtain ⟨process, _, rfl⟩ := Option.map_eq_some_iff.mp hs
    exact ⟨hi.named, hi.ended, hi.unhandled⟩
  | tick elapsed =>
    cases hs
    exact ⟨hi.named, hi.ended, hi.unhandled⟩
  | go i c =>
    obtain ⟨t, ht, ⟨r, hstage, hfree, rfl⟩ | ⟨o, ho, rfl⟩⟩ := go_cases hs
    · refine ⟨hi.named, hi.ended, fun t' ht' loginID hL => ?_⟩
      rcases List.mem_append.mp ht' with ht' | ht'
      · exact hi.unhandled t' (List.mem_of_mem_eraseIdx ht') loginID hL
      · obtain rfl := List.mem_singleton.mp ht'
        cases r <;> cases hL
    · exact hi.advance ht ho

theorem init_completed (m : Machine) (requestSpending : Bool) (started : List GoString)
    (statuses : GoMap GoString) (clock : ℤ) :
    CompletedInv (.init m requestSpending started statuses clock) := by
  refine ⟨nofun, nofun, fun t ht loginID hL => ?_⟩
  obtain ⟨e, _, rfl⟩ := List.mem_map.mp ht
  cases hL

/-- In a run in which every completion is handled after `StartLogin` has stored the login
id, a completed sign-in is not pending. -/
theorem storedFirst_runs_end_logins {m : Machine} {requestSpending : Bool}
    {started : List GoString} {statuses : GoMap GoString} {clock : ℤ} {ls : List Action}
    (h : Runs (Guarded StoredFirst (Fires step))
      (.init m requestSpending started statuses clock) ls u) : CompletedEnded u := fun p _ hp =>
  (h.invariant (init_completed m requestSpending started statuses clock)
    fun _ _ _ hi => hi.step).ended p hp

/-- `StartLogin` of `b`, until the child has answered with the login id `x`. -/
def answeredLogin : List Action :=
  .startLogin (lit "b") (lit "chatgpt") :: go 2 6 { result := some (lit "x") }

def completedX : Action := .completed (lit "b") (lit "x") true none

theorem storedFirst_runs_end_logins_completed :
    ∃ u, CompletedEnded u ∧ (lit "b", lit "x") ∈ u.history.returned ∩ u.history.handled := by
  have h : (exec (guard StoredFirst step) twoChildren
      (answeredLogin ++ go 2 1 {} ++ [completedX])).any
        (fun u => (lit "b", lit "x") ∈ u.history.returned ∩ u.history.handled) = true := by
    decide
  obtain ⟨u, hr, hu⟩ := guarded_runs_of_exec_any h
  exact ⟨u, storedFirst_runs_end_logins hr, of_decide_eq_true hu⟩

/-- The completion of `x` is handled while the record still holds the placeholder, and
then `StartLogin` stores `x`. -/
theorem early_completion_leaves_login_pending :
    ∃ ls u, Runs (Fires step) twoChildren ls u ∧ ¬ CompletedEnded u := by
  have h : (exec step twoChildren (answeredLogin ++ [completedX] ++ go 2 1 {})).any
      (fun u => (lit "b", lit "x") ∈ u.history.returned ∩ u.history.handled ∧
        (u.runtimeState (lit "b")).loginID = lit "x") = true := by
    decide
  obtain ⟨u, hr, hu⟩ := runs_of_exec_any h
  obtain ⟨hmem, hid⟩ := of_decide_eq_true hu
  obtain ⟨hreturned, hhandled⟩ := Finset.mem_inter.mp hmem
  exact ⟨_, u, hr, fun hended => hended _ hreturned hhandled hid⟩

/-! ## An outstanding sign-in stays pending -/

/-- The login id that `StartLogin` has returned for an account, while the sign-in has not
ended and the child that issued the id runs. -/
def awaited (u : Router) (id : GoString) : Option GoString :=
  match u.history.outstanding[id]? with
  | some (loginID, child) => if u.exited child then none else some loginID
  | none => none

/-- An outstanding sign-in is pending, so no other one can be started, and its completion
and its cancellation take effect. -/
structure Remembered (u : Router) : Prop where
  pending : ∀ id loginID, awaited u id = some loginID → (u.runtimeState id).loginID = loginID
  exclusive : ∀ id, (awaited u id).isSome = true → u.signInPending = true
  completes : ∀ id loginID, awaited u id = some loginID → ∀ success err,
    ((u.updateRuntime id (.completed loginID success err)).runtimeState id).loginID = []
  cancels : ∀ id loginID, awaited u id = some loginID → ∀ answered,
    ((u.updateRuntime id (.cancelled loginID answered)).runtimeState id).loginID = []

/-- An update that takes a sign-in away that goes on. -/
def forgets : Update → Bool
  | .pending | .childFailure _ => true
  | .healthy _ logout _ => !logout
  | .completed loginID _ _ => loginID = loginStarting
  | _ => false

/-- A `StartLogin` that holds its reservation and whose child, if it has one, runs. -/
def signingIn (u : Router) (t : Task) : Bool :=
  match t.stage with
  | .free _ => false
  | .holding op => op.signIn.any fun child => !child.any u.exited

/-- The account and the update that an action writes. -/
def written (u : Router) : Action → Option (GoString × Update)
  | .completed id loginID success err => some (id, .completed loginID success err)
  | .go i c => u.tasks[i]?.bind fun t => (t.act u c).bind fun o => o.update.map fun x => (t.id, x)
  | _ => none

/-- An account is marked healthy by a snapshot, reset by an enabling `UpdateAccount` or
charged with the failure of a child only while no sign-in of it is outstanding or on
its way with a child that has not exited. -/
def Undisturbed (u : Router) (l : Action) : Prop :=
  ∀ w ∈ written u l, forgets w.2 = true →
    awaited u w.1 = none ∧ ∀ t ∈ u.tasks, t.id = w.1 → signingIn u t = false

structure RememberedInv (u : Router) : Prop where
  exclusive : Exclusive Task.holds u.locks u.tasks
  pending : ∀ id loginID, awaited u id = some loginID → (u.runtimeState id).loginID = loginID
  named : ∀ id loginID, awaited u id = some loginID → loginID ≠ []
  responses : ∀ t ∈ u.tasks, ∀ op loginID, t.stage = .holding op → op.response = some loginID →
    trimSpace loginID ≠ []
  reserving : ∀ t ∈ u.tasks, ∀ op, t.stage = .holding op → op.reserving = true →
    awaited u t.id = none
  placed : ∀ t ∈ u.tasks, ∀ op child, t.stage = .holding op → op.signIn = some child →
    (u.runtimeState t.id).loginID = loginStarting ∨ child.any u.exited = true

theorem awaited_eq_some {id loginID : GoString} : awaited u id = some loginID ↔
    ∃ child, u.history.outstanding[id]? = some (loginID, child) ∧ u.exited child = false := by
  unfold awaited
  cases h : u.history.outstanding[id]? with
  | none => simp
  | some e =>
    obtain ⟨L, child⟩ := e
    by_cases hc : u.exited child = true <;> simp [hc]

/-- A sign-in is outstanding until a child exits. -/
theorem awaited_of_exits {id loginID : GoString}
    (hout : v.history.outstanding[id]? = u.history.outstanding[id]?)
    (hexits : ∀ child, u.exited child = true → v.exited child = true)
    (h : awaited v id = some loginID) : awaited u id = some loginID := by
  obtain ⟨child, he, hruns⟩ := awaited_eq_some.mp h
  refine awaited_eq_some.mpr ⟨child, hout ▸ he, ?_⟩
  cases hu : u.exited child with
  | false => rfl
  | true =>
    rw [hexits child hu] at hruns
    cases hruns

theorem RememberedInv.remembered (hi : RememberedInv u) : Remembered u where
  pending := hi.pending
  exclusive := fun id hid => by
    obtain ⟨loginID, h⟩ := Option.isSome_iff_exists.mp hid
    exact signInPending_iff.mpr ⟨id, hi.pending id loginID h ▸ hi.named id loginID h⟩
  completes := fun id loginID h success err => by
    rw [runtimeState_updateRuntime, if_pos rfl, apply_loginID, hi.pending id loginID h]
    exact if_pos rfl
  cancels := fun id loginID h answered => by
    rw [runtimeState_updateRuntime, if_pos rfl, apply_loginID, hi.pending id loginID h]
    exact if_pos rfl

/-- An update that ends a sign-in. -/
def ends (loginID : GoString) : Update → Bool
  | .disabled => true
  | .healthy _ logout _ => logout
  | .cancelled ended _ | .completed ended _ _ => ended = loginID
  | _ => false

/-- The updates of `StartLogin`. -/
def starts : Update → Bool
  | .reserve | .clearReservation _ | .storeLogin _ _ => true
  | _ => false

theorem note_outstanding {h : History} {now : ℤ} {id a : GoString} {x : Update}
    {e : GoString × ℕ} (he : (h.note now id x).outstanding[a]? = some e) :
    (h.outstanding[a]? = some e ∧ (id = a → ends e.1 x = false)) ∨
      (id = a ∧ x = .storeLogin e.2 e.1 ∧ (id, e.1) ∉ h.handled) := by
  have herase : (h.outstanding.erase id)[a]? = some e →
      h.outstanding[a]? = some e ∧ (id = a → ends e.1 x = false) := fun he =>
    (getElem?_erase_some he).imp_right fun hne hid => absurd hid hne
  have hended : ∀ ended, (if (h.outstanding[id]?).any (·.1 = ended) then h.outstanding.erase id
      else h.outstanding)[a]? = some e →
        h.outstanding[a]? = some e ∧ (id = a → decide (ended = e.1) = false) := by
    intro ended he
    split at he
    · exact (getElem?_erase_some he).imp_right fun hne hid => absurd hid hne
    · rename_i hother
      refine ⟨he, ?_⟩
      rintro rfl
      rw [he] at hother
      simpa [eq_comm] using hother
  cases x with
  | disabled => exact .inl (herase he)
  | healthy status logout answered =>
    cases logout with
    | true => exact .inl (herase he)
    | false => exact .inl ⟨he, fun _ => rfl⟩
  | storeLogin child loginID =>
    simp only [History.note] at he
    split at he
    · exact .inl ⟨he, fun _ => rfl⟩
    · rename_i hnew
      rw [Std.ExtTreeMap.getElem?_insert] at he
      split at he
      · rename_i hid
        cases he
        exact .inr ⟨Std.LawfulEqCmp.eq_of_compare hid, rfl, hnew⟩
      · exact .inl ⟨he, fun _ => rfl⟩
  | cancelled ended answered => exact .inl (hended ended he)
  | completed ended success err => exact .inl (hended ended he)
  | _ => exact .inl ⟨he, fun _ => rfl⟩

theorem loginAfter_kept {loginID : GoString} {x : Update} (hends : ends loginID x = false)
    (hforgets : forgets x = false) (hstarts : starts x = false) : loginAfter loginID x = loginID := by
  cases x with
  | disabled => cases hends
  | pending | childFailure => cases hforgets
  | healthy status logout answered => cases logout <;> simp_all [ends, forgets]
  | reserve | clearReservation | storeLogin => cases hstarts
  | cancelled ended answered | completed ended success err =>
    exact if_neg fun he => by simp [ends, he] at hends
  | _ => rfl

/-- An outstanding sign-in stays pending under an update that is not of its own
`StartLogin` and does not forget it. -/
theorem RememberedInv.pending_update (hi : RememberedInv u) {id : GoString} {x : Update}
    (hforgets : forgets x = true → awaited u id = none)
    (hstarts : starts x = true → awaited u id = none)
    {a loginID : GoString} (ha : awaited u a = some loginID)
    (hends : id = a → ends loginID x = false) :
    ((u.updateRuntime id x).runtimeState a).loginID = loginID := by
  rw [runtimeState_updateRuntime]
  split
  · rename_i hid
    subst hid
    have hnot : ∀ {b : Bool}, (b = true → awaited u id = none) → b = false := fun {b} hb => by
      cases b with
      | false => rfl
      | true =>
        rw [hb rfl] at ha
        cases ha
    rw [apply_loginID, hi.pending _ _ ha]
    exact loginAfter_kept (hends rfl) (hnot hforgets) (hnot hstarts)
  · exact hi.pending _ _ ha

/-- The placeholder of a sign-in stays under an update of another goroutine. -/
theorem RememberedInv.placed_update (hi : RememberedInv u) {id : GoString} {x : Update}
    {t' : Task} (ht' : t' ∈ u.tasks) (hstarts : t'.id = id → starts x = false)
    (hends : t'.id = id → ends loginStarting x = true → forgets x = true)
    (hforgets : forgets x = true → t'.id = id → signingIn u t' = false)
    {op : Op} {child : Option ℕ} (hstage : t'.stage = .holding op)
    (hsignIn : op.signIn = some child) :
    ((u.updateRuntime id x).runtimeState t'.id).loginID = loginStarting ∨
      child.any u.exited = true := by
  rw [runtimeState_updateRuntime]
  split
  · rename_i hid
    subst hid
    cases hf : forgets x with
    | true =>
      have hdead := hforgets hf rfl
      simp only [signingIn, hstage, hsignIn, Option.any_some, Bool.not_eq_false'] at hdead
      exact .inr hdead
    | false =>
      rcases hi.placed t' ht' op child hstage hsignIn with hplaced | hdead
      · refine .inl ?_
        rw [apply_loginID, hplaced]
        refine loginAfter_kept ?_ hf (hstarts rfl)
        cases he : ends loginStarting x with
        | false => rfl
        | true =>
          rw [hends rfl he] at hf
          cases hf
      · exact .inr hdead
  · exact hi.placed t' ht' op child hstage hsignIn

/-- A goroutine without the lock of an account only writes updates that neither start
nor end a sign-in, or that forget one. -/
theorem written_free {x : Update} (hx : x.Written u t) (hheld : t.holds ≠ some t.id) :
    starts x = false ∧ ∀ loginID, ends loginID x = false := by
  have hno : ∀ op, t.stage ≠ .holding op := fun op hstage => hheld (by simp [Task.holds, hstage])
  cases x with
  | reserve => exact absurd hx.1 (hno _)
  | clearReservation => exact absurd hx (hno _)
  | storeLogin => exact absurd hx (hno _)
  | disabled | cancelled => exact absurd hx hheld
  | completed => exact hx.elim
  | healthy status logout answered =>
    cases logout with
    | false => exact ⟨rfl, fun _ => rfl⟩
    | true => exact absurd (hx rfl) hheld
  | _ => exact ⟨rfl, fun _ => rfl⟩

theorem RememberedInv.starts_update (hi : RememberedInv u) (ht : t ∈ u.tasks) {x : Update}
    (hx : x.Written u t) (hstarts : starts x = true) : awaited u t.id = none := by
  cases x with
  | reserve =>
    cases ha : awaited u t.id with
    | none => rfl
    | some loginID =>
      have hpending := signInPending_iff.mpr
        ⟨t.id, hi.pending _ _ ha ▸ hi.named _ _ ha⟩
      rw [hx.2] at hpending
      cases hpending
  | clearReservation err => exact hi.reserving t ht _ hx rfl
  | storeLogin child loginID => exact hi.reserving t ht _ hx rfl
  | _ => cases hstarts

/-- After a step, an outstanding sign-in was outstanding before, or `StartLogin` has just
stored it. -/
theorem awaited_advance {i : ℕ} {o : Outcome Stage} {a loginID : GoString}
    (ha : awaited (u.advance i t o) a = some loginID) :
    (awaited u a = some loginID ∧ (t.id = a → ∀ x, o.update = some x → ends loginID x = false)) ∨
      (t.id = a ∧ ∃ child, o.update = some (.storeLogin child loginID) ∧ u.exited child = false) := by
  obtain ⟨child, he, hruns⟩ := awaited_eq_some.mp ha
  have hruns' : u.exited child = false := by
    cases hu : u.exited child with
    | false => rfl
    | true =>
      rw [exited_advance o hu] at hruns
      cases hruns
  cases hx : o.update with
  | none =>
    rw [(advance_none hx).2.1] at he
    exact .inl ⟨awaited_eq_some.mpr ⟨child, he, hruns'⟩, fun _ _ h => nomatch h⟩
  | some x =>
    rw [(advance_update hx).2.1] at he
    rcases note_outstanding he with ⟨he, hends⟩ | ⟨hid, rfl, _⟩
    · refine .inl ⟨awaited_eq_some.mpr ⟨child, he, hruns'⟩, fun hid y hy => ?_⟩
      obtain rfl := Option.some.inj hy
      exact hends hid
    · exact .inr ⟨hid, child, rfl, hruns'⟩

/-- The record of an account after a step. -/
theorem advance_loginID {i : ℕ} {o : Outcome Stage} (a : GoString) :
    ((u.advance i t o).runtimeState a).loginID = match o.update with
      | some x => ((u.updateRuntime t.id x).runtimeState a).loginID
      | none => (u.runtimeState a).loginID := by
  unfold Router.runtimeState
  cases hx : o.update with
  | none => rw [(advance_none hx).1]
  | some x => rw [(advance_update hx).1]

theorem loginAfter_quiet {x : Update} (hx : x.quiet = true) (loginID : GoString) :
    loginAfter loginID x = loginID := by
  cases x with
  | started | issued => rfl
  | _ => cases hx

theorem exited_mono {i : ℕ} {o : Outcome Stage} {child : Option ℕ}
    (h : child.any u.exited = true) : child.any (u.advance i t o).exited = true := by
  cases child with
  | none => cases h
  | some child => exact exited_advance o h

section Advance
variable {i : ℕ} {o : Outcome Stage}

theorem RememberedInv.advance_pending (hi : RememberedInv u) (ht : u.tasks[i]? = some t)
    (ho : t.act u c = some o)
    (hguard : ∀ x, o.update = some x → forgets x = true → awaited u t.id = none)
    {a loginID : GoString} (ha : awaited (u.advance i t o) a = some loginID) :
    ((u.advance i t o).runtimeState a).loginID = loginID := by
  have hmem := List.mem_of_getElem? ht
  rw [advance_loginID]
  rcases awaited_advance ha with ⟨ha, hends⟩ | ⟨rfl, child, hx, hruns⟩
  · cases hx : o.update with
    | none => exact hi.pending a loginID ha
    | some x =>
      exact hi.pending_update (hguard x hx) (hi.starts_update hmem (act_update ho hx)) ha
        fun hid => hends hid x hx
  · have hstage : t.stage = .holding (.login (.store child loginID)) := act_update ho hx
    rw [hx]
    dsimp only
    rw [runtimeState_updateRuntime, if_pos rfl, apply_loginID]
    rcases hi.placed t hmem _ _ hstage rfl with hplaced | hdead
    · exact if_pos hplaced
    · rw [Option.any_some, hruns] at hdead
      cases hdead

theorem RememberedInv.advance_named (hi : RememberedInv u) (ht : u.tasks[i]? = some t)
    (ho : t.act u c = some o) {a loginID : GoString}
    (ha : awaited (u.advance i t o) a = some loginID) : loginID ≠ [] := by
  rcases awaited_advance ha with ⟨ha, _⟩ | ⟨_, child, hx, _⟩
  · exact hi.named a loginID ha
  · have hstage : t.stage = .holding (.login (.store child loginID)) := act_update ho hx
    have hresponse := hi.responses t (List.mem_of_getElem? ht) _ loginID hstage rfl
    rintro rfl
    exact hresponse rfl

theorem RememberedInv.advance_responses (hi : RememberedInv u) (ht : u.tasks[i]? = some t)
    (ho : t.act u c = some o) {t' : Task} (ht' : t' ∈ (u.advance i t o).tasks) {op : Op}
    {loginID : GoString} (hstage : t'.stage = .holding op) (hL : op.response = some loginID) :
    trimSpace loginID ≠ [] := by
  rcases mem_advance ht' with ht' | ⟨s, hs, rfl⟩ | ⟨next, _, rfl⟩
  · exact hi.responses t' (List.mem_of_mem_eraseIdx ht') op loginID hstage hL
  · obtain rfl : s = .holding op := hstage
    obtain ⟨op₀, hstage₀, hfollows⟩ := act_next ho hs
    rcases hfollows.response loginID hL with hL | hL
    · exact hi.responses t (List.mem_of_getElem? ht) op₀ loginID hstage₀ hL
    · exact hL
  · cases hstage

theorem RememberedInv.advance_reserving (hi : RememberedInv u) (ht : u.tasks[i]? = some t)
    (ho : t.act u c = some o) {t' : Task} (ht' : t' ∈ (u.advance i t o).tasks) {op : Op}
    (hstage : t'.stage = .holding op) (hr : op.reserving = true) :
    awaited (u.advance i t o) t'.id = none := by
  have hmem := List.mem_of_getElem? ht
  cases ha : awaited (u.advance i t o) t'.id with
  | none => rfl
  | some loginID =>
    exfalso
    rcases mem_advance ht' with ht' | ⟨s, hs, rfl⟩ | ⟨next, _, rfl⟩
    · have hnone := hi.reserving t' (List.mem_of_mem_eraseIdx ht') op hstage hr
      rcases awaited_advance ha with ⟨ha, _⟩ | ⟨hid, child, hx, _⟩
      · rw [hnone] at ha
        cases ha
      · have hstage₀ : t.stage = .holding (.login (.store child loginID)) := act_update ho hx
        have hheld : t.holds = some t.id := by simp [Task.holds, hstage₀]
        exact hi.exclusive.alone ht hheld ht' (by simp [Task.holds, hstage, hid])
    · obtain rfl : s = .holding op := hstage
      obtain ⟨op₀, hstage₀, hfollows⟩ := act_next ho hs
      rcases awaited_advance ha with ⟨ha, _⟩ | ⟨_, child, hx, _⟩
      · have hnone : awaited u t.id = none := by
          rcases hfollows.reserving hr with ⟨_, hx⟩ | hr
          · exact hi.starts_update hmem (act_update ho hx) rfl
          · exact hi.reserving t hmem op₀ hstage₀ hr
        rw [hnone] at ha
        cases ha
      · have hstage₁ : t.stage = .holding (.login (.store child loginID)) := act_update ho hx
        simp only [Task.act, hstage₁, Op.act, Login.act, Option.some.injEq] at ho
        subst ho
        cases hs
    · cases hstage

theorem RememberedInv.advance_placed (hi : RememberedInv u) (ht : u.tasks[i]? = some t)
    (ho : t.act u c = some o)
    (hguard : ∀ x, o.update = some x → forgets x = true →
      ∀ t' ∈ u.tasks, t'.id = t.id → signingIn u t' = false)
    {t' : Task} (ht' : t' ∈ (u.advance i t o).tasks) {op : Op} {child : Option ℕ}
    (hstage : t'.stage = .holding op) (hs : op.signIn = some child) :
    ((u.advance i t o).runtimeState t'.id).loginID = loginStarting ∨
      child.any (u.advance i t o).exited = true := by
  have hmem := List.mem_of_getElem? ht
  rw [advance_loginID]
  rcases mem_advance ht' with ht' | ⟨s, hnext, rfl⟩ | ⟨next, _, rfl⟩
  · have hmem' := List.mem_of_mem_eraseIdx ht'
    refine Or.imp_right exited_mono ?_
    cases hx : o.update with
    | none => exact hi.placed t' hmem' op child hstage hs
    | some x =>
      have hfree : t'.id = t.id → starts x = false ∧ ∀ loginID, ends loginID x = false := by
        intro hid
        refine written_free (act_update ho hx) fun hheld => ?_
        exact hi.exclusive.alone ht hheld ht' (by simp [Task.holds, hstage, hid])
      refine hi.placed_update hmem' (fun hid => (hfree hid).1) (fun hid he => ?_)
        (fun hf hid => hguard x hx hf t' hmem' hid) hstage hs
      rw [(hfree hid).2] at he
      cases he
  · obtain rfl : s = .holding op := hstage
    obtain ⟨op₀, hstage₀, hfollows⟩ := act_next ho hnext
    rcases hfollows.signIn child hs with ⟨_, hx⟩ | ⟨k, hk, hsame, hquiet⟩
    · rw [hx]
      dsimp only
      rw [runtimeState_updateRuntime, if_pos rfl]
      exact .inl rfl
    · have hplaced : (u.runtimeState t.id).loginID = loginStarting ∨
          child.any (u.advance i t o).exited = true := by
        rcases hi.placed t hmem op₀ k hstage₀ hk with hplaced | hdead
        · exact .inl hplaced
        · rcases hsame with rfl | rfl
          · cases hdead
          · exact .inr (exited_mono hdead)
      cases hx : o.update with
      | none => exact hplaced
      | some x =>
        dsimp only
        rw [runtimeState_updateRuntime, if_pos rfl, apply_loginID, loginAfter_quiet (hquiet x hx)]
        exact hplaced
  · cases hstage

theorem RememberedInv.advance (hi : RememberedInv u) (ht : u.tasks[i]? = some t)
    (ho : t.act u c = some o)
    (hguard : ∀ x, o.update = some x → forgets x = true →
      awaited u t.id = none ∧ ∀ t' ∈ u.tasks, t'.id = t.id → signingIn u t' = false) :
    RememberedInv (u.advance i t o) where
  exclusive := advance_exclusive hi.exclusive ht ho
  pending := fun _ _ => hi.advance_pending ht ho fun x hx hf => (hguard x hx hf).1
  named := fun _ _ => hi.advance_named ht ho
  responses := fun _ ht' _ _ => hi.advance_responses ht ho ht'
  reserving := fun _ ht' _ => hi.advance_reserving ht ho ht'
  placed := fun _ ht' _ _ => hi.advance_placed ht ho (fun x hx hf => (hguard x hx hf).2) ht'

end Advance

/-- The records stay and children may exit; goroutines that are not part of a sign-in may
come. -/
theorem RememberedInv.frame (hi : RememberedInv u)
    (hexclusive : Exclusive Task.holds v.locks v.tasks) (hruntime : v.runtime = u.runtime)
    (hhistory : v.history = u.history)
    (hexits : ∀ child, u.exited child = true → v.exited child = true)
    (htasks : ∀ t ∈ v.tasks, t ∈ u.tasks ∨ ∀ op, t.stage = .holding op → op.plain = true) :
    RememberedInv v := by
  have hawaited : ∀ a loginID, awaited v a = some loginID → awaited u a = some loginID :=
    fun a loginID => awaited_of_exits (by rw [hhistory]) hexits
  have hstate : ∀ a, v.runtimeState a = u.runtimeState a := fun a => by
    unfold Router.runtimeState
    rw [hruntime]
  have hplain : ∀ {op : Op}, op.plain = true → op.reserving = false ∧ op.response = none := by
    intro op h
    simp only [Op.plain, Bool.and_eq_true, Bool.not_eq_true', Option.isNone_iff_eq_none] at h
    exact ⟨h.1.1.1, h.1.1.2⟩
  refine ⟨hexclusive, fun a L ha => ?_, fun a L ha => hi.named a L (hawaited a L ha),
    fun t ht op L hstage hL => ?_, fun t ht op hstage hr => ?_, fun t ht op child hstage hs => ?_⟩
  · rw [hstate]
    exact hi.pending a L (hawaited a L ha)
  · rcases htasks t ht with ht | ht
    · exact hi.responses t ht op L hstage hL
    · rw [(hplain (ht op hstage)).2] at hL
      cases hL
  · rcases htasks t ht with ht | ht
    · cases ha : awaited v t.id with
      | none => rfl
      | some L =>
        have hnone := hi.reserving t ht op hstage hr
        rw [hawaited t.id L ha] at hnone
        cases hnone
    · rw [(hplain (ht op hstage)).1] at hr
      cases hr
  · rcases htasks t ht with ht | ht
    · rw [hstate]
      refine (hi.placed t ht op child hstage hs).imp_right fun hdead => ?_
      cases child with
      | none => cases hdead
      | some child => exact hexits child hdead
    · have hr := reserving_of_signIn hs
      rw [(hplain (ht op hstage)).1] at hr
      cases hr

/-- An update from outside the goroutines. -/
theorem RememberedInv.update (hi : RememberedInv u) {id : GoString} {x : Update}
    (hstarts : starts x = false) (hends : ends loginStarting x = true → forgets x = true)
    (hguard : forgets x = true →
      awaited u id = none ∧ ∀ t ∈ u.tasks, t.id = id → signingIn u t = false) :
    RememberedInv (u.updateRuntime id x) := by
  have hawaited : ∀ a L, awaited (u.updateRuntime id x) a = some L →
      awaited u a = some L ∧ (id = a → ends L x = false) := by
    intro a L ha
    obtain ⟨child, he, hruns⟩ := awaited_eq_some.mp ha
    rcases note_outstanding he with ⟨he, hkept⟩ | ⟨_, rfl, _⟩
    · exact ⟨awaited_eq_some.mpr ⟨child, he, hruns⟩, hkept⟩
    · cases hstarts
  refine ⟨hi.exclusive, fun a L ha => ?_, fun a L ha => hi.named a L (hawaited a L ha).1,
    hi.responses, fun t ht op hstage hr => ?_, fun t ht op child hstage hs => ?_⟩
  · obtain ⟨ha, hkept⟩ := hawaited a L ha
    refine hi.pending_update (fun hf => (hguard hf).1) (fun h => ?_) ha hkept
    rw [hstarts] at h
    cases h
  · cases ha : awaited (u.updateRuntime id x) t.id with
    | none => rfl
    | some L =>
      have hnone := hi.reserving t ht op hstage hr
      rw [(hawaited t.id L ha).1] at hnone
      cases hnone
  · exact hi.placed_update ht (fun _ => hstarts) (fun _ => hends)
      (fun hf hid => (hguard hf).2 t ht hid) hstage hs

theorem exited_set {child k : ℕ} {process : Process} (hp : u.processes[child]? = some process)
    (h : u.exited k = true) :
    ({ u with processes := u.processes.set child { process with exited := true } } : Router).exited k
      = true := by
  unfold Router.exited at h ⊢
  dsimp only
  by_cases hk : child = k
  · subst hk
    rw [List.getElem?_set_self (List.getElem?_eq_some_iff.mp hp).1]
    rfl
  · rw [List.getElem?_set_ne hk]
    exact h

theorem RememberedInv.step {l : Action} (hi : RememberedInv u)
    (h : Guarded Undisturbed (Fires step) u l v) : RememberedInv v := by
  obtain ⟨hguard, hs⟩ := h
  have hspawn : ∀ id next, RememberedInv (u.spawn id next) := fun id next => by
    refine hi.frame (hi.exclusive.enter rfl) rfl rfl (fun _ h => h) fun t ht => ?_
    rcases List.mem_append.mp ht with ht | ht
    · exact .inl ht
    · obtain rfl := List.mem_singleton.mp ht
      exact .inr fun op hstage => nomatch hstage
  have hexclusive := step_exclusive hi.exclusive hs
  cases l with
  | startLogin id mode =>
    cases hs
    split
    · exact hspawn _ _
    · exact hi
  | updateAccount id label enabled =>
    cases hs
    split
    · exact hi
    · exact hspawn _ _
  | cancelLogin | logout | refresh =>
    cases hs
    exact hspawn _ _
  | completed id loginID success err =>
    cases hs
    split
    · exact hi
    · exact hi.update rfl (fun h => h) (hguard _ rfl)
  | runtimeFailure id err =>
    cases hs
    exact hi.update rfl nofun nofun
  | exit child =>
    obtain ⟨process, hp, rfl⟩ := Option.map_eq_some_iff.mp hs
    exact hi.frame hexclusive rfl rfl (fun _ => exited_set hp) fun _ ht => .inl ht
  | tick elapsed =>
    cases hs
    exact hi.frame hexclusive rfl rfl (fun _ h => h) fun _ ht => .inl ht
  | go i c =>
    obtain ⟨t, ht, ⟨r, _, _, rfl⟩ | ⟨o, ho, rfl⟩⟩ := go_cases hs
    · refine hi.frame hexclusive rfl rfl (fun _ h => h) fun t' ht' => ?_
      rcases List.mem_append.mp ht' with ht' | ht'
      · exact .inl (List.mem_of_mem_eraseIdx ht')
      · obtain rfl := List.mem_singleton.mp ht'
        refine .inr fun op hstage => ?_
        obtain rfl := Stage.holding.inj hstage
        cases r <;> rfl
    · refine hi.advance ht ho fun x hx hf => ?_
      exact hguard (t.id, x) (by simp [written, ht, ho, hx]) hf

theorem init_remembered (m : Machine) (requestSpending : Bool) (started : List GoString)
    (statuses : GoMap GoString) (clock : ℤ) :
    RememberedInv (.init m requestSpending started statuses clock) := by
  have hawaited : ∀ a, awaited (.init m requestSpending started statuses clock) a = none := by
    intro a
    simp [awaited, Router.init]
  have hfree : ∀ t ∈ (Router.init m requestSpending started statuses clock).tasks,
      ∀ op, t.stage ≠ .holding op := by
    intro t ht op
    obtain ⟨e, _, rfl⟩ := List.mem_map.mp ht
    exact nofun
  refine ⟨fun k => ?_, fun a L ha => ?_, fun a L ha => ?_,
    fun t ht op L hstage => absurd hstage (hfree t ht op),
    fun t ht op hstage => absurd hstage (hfree t ht op),
    fun t ht op child hstage => absurd hstage (hfree t ht op)⟩
  · rw [countP_of_none]
    · rfl
    · intro t ht
      obtain ⟨e, _, rfl⟩ := List.mem_map.mp ht
      rfl
  · rw [hawaited] at ha
    cases ha
  · rw [hawaited] at ha
    cases ha

/-- In a run in which no record is marked healthy, reset or charged with a failure under a
sign-in that goes on, every outstanding sign-in is pending. -/
theorem undisturbed_runs_remember_logins {m : Machine} {requestSpending : Bool}
    {started : List GoString} {statuses : GoMap GoString} {clock : ℤ} {ls : List Action}
    (h : Runs (Guarded Undisturbed (Fires step))
      (.init m requestSpending started statuses clock) ls u) : Remembered u :=
  (h.invariant (init_remembered m requestSpending started statuses clock)
    fun _ _ _ hi => hi.step).remembered

instance (u : Router) (l : Action) : Decidable (Undisturbed u l) :=
  inferInstanceAs (Decidable (∀ w ∈ written u l, forgets w.2 = true →
    awaited u w.1 = none ∧ ∀ t ∈ u.tasks, t.id = w.1 → signingIn u t = false))

def outstandingLogin : List Action :=
  answeredLogin ++ go 2 1 {}

/-- A snapshot of `b` that begins during the sign-in leaves it alone. -/
theorem undisturbed_runs_remember_logins_snapshot :
    ∃ u, Remembered u ∧ awaited u (lit "b") = some (lit "x") := by
  have h : (exec (guard Undisturbed step) twoChildren
      (outstandingLogin ++ .refresh (lit "b") :: go 2 5 { result := some (lit "null") })).any
        (fun u => awaited u (lit "b") = some (lit "x") ∧ u.tasks.length = 2) = true := by
    decide
  obtain ⟨u, hr, hu⟩ := guarded_runs_of_exec_any h
  exact ⟨u, undisturbed_runs_remember_logins hr, (of_decide_eq_true hu).1⟩

/-- A snapshot of `b` reads the record and asks the child; then `StartLogin` returns `x`;
then the snapshot finds `b` not connected and marks the record healthy. -/
theorem stale_snapshot_forgets_login :
    ∃ ls u, Runs (Fires step) twoChildren ls u ∧ ¬ Remembered u := by
  have h : (exec step twoChildren
      (.refresh (lit "b") :: go 2 3 {} ++
        .startLogin (lit "b") (lit "chatgpt") :: go 3 7 { result := some (lit "x") } ++
        go 2 2 { result := some (lit "null") })).any
      (fun u => awaited u (lit "b") = some (lit "x") ∧ (u.runtimeState (lit "b")).loginID = []) =
        true := by
    decide
  obtain ⟨u, hr, hu⟩ := runs_of_exec_any h
  obtain ⟨ha, hid⟩ := of_decide_eq_true hu
  refine ⟨_, u, hr, fun hremembered => ?_⟩
  rw [hremembered.pending _ _ ha] at hid
  exact absurd hid (by decide)

end SubscriptionRouter.PendingLogins
