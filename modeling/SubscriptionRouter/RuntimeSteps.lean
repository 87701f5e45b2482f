import Mathlib
import SubscriptionRouter.AccountRuntime

set_option autoImplicit false

/-!
# What a step on a runtime record can do

`act_update` says which task writes which update, `act_next` where the stages of a
sign-in and of a launch come from. The invariants of the runtime records are derived
from these two, without looking at the steps again.
-/
namespace SubscriptionRouter.AccountRuntime
open GoText StoreState SpendPolicy Transitions Locks

variable {u v : Router} {t : Task} {c : Choice}

/-- The task that writes an update, and what it has found. -/
def Update.Written (u : Router) (t : Task) : Update → Prop
  | .reserve => t.stage = .holding (.login .reserve) ∧ u.signInPending = false
  | .issued loginID => ∃ child, t.stage = .holding (.login (.response child loginID))
  | .storeLogin child loginID => t.stage = .holding (.login (.store child loginID))
  | .clearReservation err => t.stage = .holding (.login (.clear err))
  | .disabled | .pending | .cancelling _ _ | .cancelled _ _ => t.holds = some t.id
  | .healthy _ logout _ => logout = true → t.holds = some t.id
  | .openCircuit delay =>
    t.stage = .free (.supervise .openCircuit) ∧ delay = restartCircuitDelay
  | .closeCircuit own => ∃ enabled, t.stage = .free (.supervise (.clear enabled own))
  | .completed _ _ _ => False
  | .failure _ | .childFailure _ | .started => True

theorem snapshot_update {id : GoString} {next : Snapshot} {x : Update}
    (h : (next.act u id c).update = some x) : x.Written u t := by
  cases next with
  | account =>
    simp only [Snapshot.act] at h
    split at h <;> cases h
  | runtime enabled =>
    simp only [Snapshot.act] at h
    split at h <;> cases h
  | child r =>
    simp only [Snapshot.act] at h
    split at h <;> cases h
  | request r =>
    simp only [Snapshot.act] at h
    split at h <;> cases h
  | mark r connected answered =>
    simp only [Snapshot.act] at h
    split at h
    · cases h
      exact fun h => nomatch h
    · split at h
      · cases h
      · split at h
        · cases h
        · cases h
          exact fun h => nomatch h
  | failed err =>
    cases h
    trivial

theorem finish_update (caller : Caller) (r : Except GoString ℕ) :
    (caller.finish u r).update = none := by
  cases caller <;> cases r <;> rfl

theorem start_update {id : GoString} {caller : Caller} {enabled : Bool} {next : Start} {x : Update}
    (h : (next.act u id c caller enabled).update = some x) : x = .started := by
  cases next with
  | check =>
    simp only [Start.act] at h
    split at h
    · rw [finish_update] at h
      cases h
    · split at h <;> cases h
  | inspect child =>
    simp only [Start.act] at h
    split at h
    · cases h
    · rw [finish_update] at h
      cases h
  | discard child => cases h
  | circuit =>
    simp only [Start.act] at h
    split at h
    · rw [finish_update] at h
      cases h
    · cases h
  | launch checked =>
    simp only [Start.act] at h
    split at h
    · rw [finish_update] at h
      cases h
    · cases h
  | register child => cases h
  | initializeChild child =>
    simp only [Start.act] at h
    split at h <;> cases h
  | drop child err =>
    simp only [Start.act, finish_update] at h
    cases h
  | settle child => exact (Option.some.inj h).symm

theorem op_update {op : Op} {x : Update} (hstage : t.stage = .holding op)
    (h : (op.act u t.id c).update = some x) : x.Written u t := by
  have hheld : t.holds = some t.id := by simp [Task.holds, hstage]
  cases op with
  | login next =>
    cases next with
    | reserve =>
      simp only [Op.act, Login.act] at h
      split at h
      · cases h
      · cases h
        exact ⟨hstage, by simpa using ‹¬u.signInPending = true›⟩
    | account =>
      simp only [Op.act, Login.act] at h
      split at h
      · split at h <;> cases h
      · cases h
    | child enabled =>
      simp only [Op.act, Login.act] at h
      split at h <;> cases h
    | request child =>
      simp only [Op.act, Login.act] at h
      split at h
      · cases h
      · split at h <;> cases h
    | response child loginID =>
      cases h
      exact ⟨child, hstage⟩
    | store child loginID =>
      cases h
      exact hstage
    | clear err =>
      cases h
      exact hstage
  | cancel next =>
    cases next with
    | child =>
      simp only [Op.act, Cancel.act, Outcome.map] at h
      split at h <;> cases h
    | read =>
      simp only [Op.act, Cancel.act, Outcome.map] at h
      split at h <;> cases h
    | request loginID =>
      simp only [Op.act, Cancel.act, Outcome.map] at h
      split at h <;> cases h
    | mark | undo | finish =>
      cases h
      exact hheld
  | logout next =>
    cases next with
    | child =>
      simp only [Op.act, Logout.act, Outcome.map] at h
      split at h <;> cases h
    | request =>
      simp only [Op.act, Logout.act, Outcome.map] at h
      split at h <;> cases h
    | mark answered =>
      cases h
      exact fun _ => hheld
  | change next =>
    cases next with
    | lookup label enabled =>
      simp only [Op.act, Change.act] at h
      split at h
      · split at h <;> cases h
      · cases h
    | apply previous label enabled =>
      simp only [Op.act, Change.act] at h
      split at h <;> cases h
    | stop => cases h
    | disabled child =>
      cases h
      exact hheld
    | close child =>
      simp only [Op.act, Change.act] at h
      split at h <;> cases h
    | pending rollbackEnabled enabled =>
      cases h
      exact hheld
    | rollback rollbackEnabled err => cases h
    | failed err =>
      cases h
      trivial
    | snapshot next => exact snapshot_update h
  | start caller enabled next =>
    obtain rfl := start_update h
    trivial

theorem supervise_update {next : Supervise} {o : Outcome Supervise} {x : Update}
    (hstage : t.stage = .free (.supervise next)) (h : next.act u t.id = some o)
    (hx : o.update = some x) : x.Written u t := by
  cases next with
  | monitor child =>
    simp only [Supervise.act] at h
    split at h
    · split at h <;> cases h <;> cases hx
    · cases h
  | exited =>
    simp only [Supervise.act] at h
    split at h <;> cases h
    · split at hx <;> cases hx
    · cases hx
  | failed err =>
    cases h
    cases hx
    trivial
  | openCircuit =>
    cases h
    cases hx
    exact ⟨hstage, rfl⟩
  | arm delay own =>
    cases h
    cases hx
  | timer deadline own =>
    simp only [Supervise.act] at h
    split at h <;> cases h
    cases hx
  | fired own =>
    simp only [Supervise.act] at h
    split at h <;> cases h
    · split at hx <;> cases hx
    · cases hx
  | clear enabled own =>
    cases h
    cases hx
    exact ⟨enabled, hstage⟩
  | restartFailed err =>
    cases h
    cases hx
    trivial

theorem act_update {o : Outcome Stage} {x : Update} (h : t.act u c = some o)
    (hx : o.update = some x) : x.Written u t := by
  unfold Task.act at h
  split at h
  · cases h
  · cases h
    exact snapshot_update hx
  · rename_i hstage
    obtain ⟨o, ho, rfl⟩ := Option.map_eq_some_iff.mp h
    exact supervise_update hstage ho hx
  · rename_i hstage
    cases h
    exact op_update hstage hx

/-- A sign-in that has its reservation and no login id yet, and its child if it has one. -/
def Op.signIn : Op → Option (Option ℕ)
  | .login .account | .login (.child _) | .start .login _ _ => some none
  | .login (.request child) | .login (.response child _) | .login (.store child _) =>
    some (some child)
  | _ => none

def Op.reserving : Op → Bool
  | .login (.clear _) => true
  | op => op.signIn.isSome

def Op.response : Op → Option GoString
  | .login (.response _ loginID) | .login (.store _ loginID) => some loginID
  | _ => none

def Op.storing : Op → Option GoString
  | .login (.store _ loginID) => some loginID
  | _ => none

/-- A launch about to happen, with the number of circuits opened at its check. -/
def Op.launching : Op → Option ℕ
  | .start _ _ (.launch checked) => some checked
  | _ => none

def Update.quiet : Update → Bool
  | .started | .issued _ => true
  | _ => false

/-- How `op'` comes after `op` in a step that does the update `x`. -/
structure Op.Follows (u : Router) (id : GoString) (x : Option Update) (op op' : Op) : Prop where
  signIn : ∀ k, op'.signIn = some k → (op = .login .reserve ∧ x = some .reserve) ∨
    ∃ k₀, op.signIn = some k₀ ∧ (k₀ = none ∨ k₀ = k) ∧ ∀ y, x = some y → y.quiet = true
  reserving : op'.reserving = true →
    (op = .login .reserve ∧ x = some .reserve) ∨ op.reserving = true
  response : ∀ loginID, op'.response = some loginID →
    op.response = some loginID ∨ trimSpace loginID ≠ []
  storing : ∀ loginID, op'.storing = some loginID → x = some (.issued loginID)
  launching : ∀ checked, op'.launching = some checked →
    checked = u.history.openings ∧ u.circuitOpen id = false

section Follows
variable {id : GoString} {x : Option Update} {op op' : Op}

def Op.plain (op : Op) : Bool :=
  !op.reserving && op.response.isNone && op.storing.isNone && op.launching.isNone

theorem reserving_of_signIn {k : Option ℕ} (h : op.signIn = some k) : op.reserving = true := by
  unfold Op.reserving
  split
  · rfl
  · rw [h]
    rfl

theorem Op.Follows.plain (h : op'.plain = true) : op.Follows u id x op' := by
  simp only [Op.plain, Bool.and_eq_true, Bool.not_eq_true', Option.isNone_iff_eq_none] at h
  obtain ⟨⟨⟨hreserving, hresponse⟩, hstoring⟩, hlaunching⟩ := h
  refine ⟨fun k hk => ?_, fun hr => ?_, fun L hL => ?_, fun L hL => ?_, fun n hn => ?_⟩
  · rw [reserving_of_signIn hk] at hreserving
    cases hreserving
  · rw [hr] at hreserving
    cases hreserving
  · rw [hresponse] at hL
    cases hL
  · rw [hstoring] at hL
    cases hL
  · rw [hlaunching] at hn
    cases hn

theorem Op.Follows.clears (hop : op.reserving = true) (err : Option GoString) :
    op.Follows u id x (.login (.clear err)) :=
  ⟨nofun, fun _ => .inr hop, nofun, nofun, nofun⟩

/-- A sign-in goes on. -/
theorem Op.Follows.signsIn {k₀ k : Option ℕ} (hop : op.signIn = some k₀)
    (hop' : op'.signIn = some k) (hk : k₀ = none ∨ k₀ = k)
    (hx : ∀ y, x = some y → y.quiet = true)
    (hresponse : ∀ loginID, op'.response = some loginID →
      op.response = some loginID ∨ trimSpace loginID ≠ [])
    (hstoring : ∀ loginID, op'.storing = some loginID → x = some (.issued loginID))
    (hlaunching : op'.launching = none) : op.Follows u id x op' where
  signIn := fun k' hk' => by
    obtain rfl := Option.some.inj (hop'.symm.trans hk')
    exact .inr ⟨k₀, hop, hk, hx⟩
  reserving := fun _ => .inr (reserving_of_signIn hop)
  response := hresponse
  storing := hstoring
  launching := fun n hn => by
    rw [hlaunching] at hn
    cases hn

/-- `startChildLocked` goes on for the same caller. -/
theorem start_follows (caller : Caller) (enabled : Bool) (next next' : Start)
    (hx : ∀ y, x = some y → y.quiet = true)
    (h : ∀ checked, next' = .launch checked →
      checked = u.history.openings ∧ u.circuitOpen id = false) :
    (Op.start caller enabled next).Follows u id x (.start caller enabled next') where
  signIn := fun k hk => by
    refine .inr ⟨k, ?_, .inr rfl, hx⟩
    cases caller with
    | login => exact hk
    | restart => cases hk
    | update rollbackEnabled => cases hk
  reserving := fun hr => by
    cases caller with
    | login => exact .inr rfl
    | restart => cases hr
    | update rollbackEnabled => cases hr
  response := nofun
  storing := nofun
  launching := fun n hn => by
    cases next' with
    | launch checked =>
      cases hn
      exact h _ rfl
    | _ => cases hn

theorem finish_follows {caller : Caller} {enabled : Bool} {next : Start} {r : Except GoString ℕ}
    (hx : ∀ y, x = some y → y.quiet = true) (h : (caller.finish u r).next = some op') :
    (Op.start caller enabled next).Follows u id x op' := by
  cases caller with
  | restart => cases r <;> cases h
  | update rollbackEnabled => cases r <;> cases h <;> exact .plain rfl
  | login =>
    cases r with
    | error err =>
      cases h
      exact .clears rfl _
    | ok child =>
      cases h
      exact .signsIn rfl rfl (.inl rfl) hx nofun nofun rfl

theorem start_next {caller : Caller} {enabled : Bool} {next : Start}
    (h : (next.act u id c caller enabled).next = some op')
    (hx : ∀ y, x = some y → y.quiet = true) :
    (Op.start caller enabled next).Follows u id x op' := by
  cases next with
  | check =>
    simp only [Start.act] at h
    split at h
    · exact finish_follows hx h
    · split at h <;> cases h <;> exact start_follows caller enabled _ _ hx nofun
  | inspect child =>
    simp only [Start.act] at h
    split at h
    · cases h
      exact start_follows caller enabled _ _ hx nofun
    · exact finish_follows hx h
  | discard child =>
    cases h
    exact start_follows caller enabled _ _ hx nofun
  | circuit =>
    simp only [Start.act] at h
    split at h
    · exact finish_follows hx h
    · rename_i hopen
      cases h
      refine start_follows caller enabled _ _ hx fun checked hc => ?_
      cases hc
      exact ⟨rfl, by simpa using hopen⟩
  | launch checked =>
    simp only [Start.act] at h
    split at h
    · exact finish_follows hx h
    · cases h
      exact start_follows caller enabled _ _ hx nofun
  | register child =>
    cases h
    exact start_follows caller enabled _ _ hx nofun
  | initializeChild child =>
    simp only [Start.act] at h
    split at h <;> cases h <;> exact start_follows caller enabled _ _ hx nofun
  | drop child err => exact finish_follows hx h
  | settle child => exact finish_follows hx h

theorem login_next {next : Login} (h : (next.act u id c).next = some op') :
    (Op.login next).Follows u id (next.act u id c).update op' := by
  cases next with
  | reserve =>
    simp only [Login.act] at h ⊢
    split at h
    · cases h
    · rename_i hfree
      rw [if_neg hfree]
      cases h
      exact ⟨fun k hk => .inl ⟨rfl, rfl⟩, fun _ => .inl ⟨rfl, rfl⟩, nofun, nofun, nofun⟩
  | account =>
    simp only [Login.act] at h ⊢
    split at h
    · split at h
      · rename_i henabled
        rw [if_pos henabled]
        cases h
        exact .signsIn rfl rfl (.inl rfl) nofun nofun nofun rfl
      · cases h
        exact .clears rfl _
    · cases h
      exact .clears rfl _
  | child enabled =>
    simp only [Login.act] at h ⊢
    split at h <;> cases h <;> exact .signsIn rfl rfl (.inl rfl) nofun nofun nofun rfl
  | request child =>
    simp only [Login.act] at h ⊢
    split at h
    · cases h
      exact .clears rfl _
    · split at h
      · cases h
        exact .clears rfl _
      · rename_i hid
        rw [if_neg hid]
        cases h
        refine .signsIn rfl rfl (.inr rfl) nofun ?_ nofun rfl
        rintro L ⟨⟩
        exact .inr hid
  | response child loginID =>
    cases h
    refine .signsIn rfl rfl (.inr rfl) ?_ ?_ ?_ rfl
    · rintro y ⟨⟩
      rfl
    · rintro L ⟨⟩
      exact .inl rfl
    · rintro L ⟨⟩
      rfl
  | store child loginID => cases h
  | clear err => cases h

theorem change_next {next : Change} (h : (next.act u id c).next = some op') :
    (Op.change next).Follows u id x op' := by
  cases next with
  | lookup label enabled =>
    simp only [Change.act] at h
    split at h
    · split at h <;> cases h
      exact .plain rfl
    · cases h
  | apply previous label enabled =>
    simp only [Change.act] at h
    split at h <;> cases h <;> exact .plain rfl
  | stop =>
    cases h
    exact .plain rfl
  | disabled child =>
    cases h
    exact .plain rfl
  | close child =>
    simp only [Change.act] at h
    split at h <;> cases h
    exact .plain rfl
  | pending rollbackEnabled enabled =>
    cases h
    exact .plain rfl
  | rollback rollbackEnabled err =>
    cases h
    exact .plain rfl
  | failed err => cases h
  | snapshot next =>
    obtain ⟨_, _, rfl⟩ := Option.map_eq_some_iff.mp h
    exact .plain rfl

theorem op_next (h : (op.act u id c).next = some op') :
    op.Follows u id (op.act u id c).update op' := by
  cases op with
  | login next => exact login_next h
  | cancel next =>
    obtain ⟨_, _, rfl⟩ := Option.map_eq_some_iff.mp h
    exact .plain rfl
  | logout next =>
    obtain ⟨_, _, rfl⟩ := Option.map_eq_some_iff.mp h
    exact .plain rfl
  | change next => exact change_next h
  | start caller enabled next => exact start_next h fun y hy => start_update hy ▸ rfl

end Follows

theorem act_next {o : Outcome Stage} {op' : Op} (h : t.act u c = some o)
    (hnext : o.next = some (.holding op')) :
    ∃ op, t.stage = .holding op ∧ op.Follows u t.id o.update op' := by
  unfold Task.act at h
  split at h
  · cases h
  · cases h
    obtain ⟨_, _, hs⟩ := Option.map_eq_some_iff.mp hnext
    cases hs
  · obtain ⟨o, _, rfl⟩ := Option.map_eq_some_iff.mp h
    obtain ⟨_, _, hs⟩ := Option.map_eq_some_iff.mp hnext
    cases hs
  · rename_i op hstage
    cases h
    obtain ⟨_, hop, hs⟩ := Option.map_eq_some_iff.mp hnext
    cases hs
    exact ⟨op, hstage, op_next hop⟩

theorem act_holds {o : Outcome Stage} {s : Stage} (h : t.act u c = some o)
    (hnext : o.next = some s) : (Task.mk t.id s).holds = t.holds := by
  unfold Task.act at h
  split at h
  · cases h
  · rename_i hstage
    cases h
    obtain ⟨_, _, rfl⟩ := Option.map_eq_some_iff.mp hnext
    simp [Task.holds, hstage]
  · rename_i hstage
    obtain ⟨o, _, rfl⟩ := Option.map_eq_some_iff.mp h
    obtain ⟨_, _, rfl⟩ := Option.map_eq_some_iff.mp hnext
    simp [Task.holds, hstage]
  · rename_i hstage
    cases h
    obtain ⟨_, _, rfl⟩ := Option.map_eq_some_iff.mp hnext
    simp [Task.holds, hstage]

theorem holds_eq {id : GoString} (h : t.holds = some id) : t.id = id := by
  unfold Task.holds at h
  split at h
  · cases h
  · exact Option.some.inj h

theorem advance_exclusive (h : Exclusive Task.holds u.locks u.tasks) {i : ℕ}
    (ht : u.tasks[i]? = some t) {o : Outcome Stage} (hact : t.act u c = some o) :
    Exclusive Task.holds (u.advance i t o).locks (u.advance i t o).tasks := by
  have hfree : ∀ t' ∈ o.spawned.map fun next => Task.mk t.id (.free next.free), t'.holds = none := by
    intro t' ht'
    obtain ⟨next, _, rfl⟩ := List.mem_map.mp ht'
    rfl
  unfold Router.advance
  cases hnext : o.next with
  | some s =>
    have hmove := h.advance ht (act_holds hact hnext)
    simp only [Option.isNone_some, Bool.false_eq_true, false_and, if_false, Option.toList_some,
      List.map_cons, List.map_nil]
    rw [← List.append_assoc]
    exact hmove.enterAll hfree
  | none =>
    simp only [Option.isNone_none, true_and, Option.toList_none, List.map_nil, List.nil_append]
    split
    · rename_i hheld
      obtain ⟨id, hid⟩ := Option.isSome_iff_exists.mp hheld
      exact h.release ht (holds_eq hid ▸ hid) hfree
    · exact h.leave ht (by simpa using ‹¬t.holds.isSome = true›) hfree

/-! ## One step of the router -/

theorem getElem?_erase_some {V : Type} {m : GoMap V} {id a : GoString} {e : V}
    (h : (m.erase id)[a]? = some e) : m[a]? = some e ∧ id ≠ a := by
  rw [Std.ExtTreeMap.getElem?_erase] at h
  split at h
  · cases h
  · rename_i hne
    exact ⟨h, fun he => hne (he ▸ Std.ReflCmp.compare_self)⟩

theorem go_cases {i : ℕ} (h : step u (.go i c) = some v) :
    ∃ t, u.tasks[i]? = some t ∧
      ((∃ r, t.stage = .free (.waiting r) ∧ t.id ∉ u.locks ∧
        v = { u with
          locks := insert t.id u.locks
          tasks := u.tasks.eraseIdx i ++ [⟨t.id, .holding r.op⟩] }) ∨
      ∃ o, t.act u c = some o ∧ v = u.advance i t o) := by
  obtain ⟨t, ht, h⟩ := Option.bind_eq_some_iff.mp h
  refine ⟨t, ht, ?_⟩
  split at h
  · rename_i r hstage
    split at h
    · cases h
    · cases h
      exact .inl ⟨r, hstage, ‹t.id ∉ u.locks›, rfl⟩
  · obtain ⟨o, ho, rfl⟩ := Option.map_eq_some_iff.mp h
    exact .inr ⟨o, ho, rfl⟩

theorem mem_advance {i : ℕ} {t' : Task} {o : Outcome Stage} (h : t' ∈ (u.advance i t o).tasks) :
    t' ∈ u.tasks.eraseIdx i ∨ (∃ s, o.next = some s ∧ t' = ⟨t.id, s⟩) ∨
      ∃ next ∈ o.spawned, t' = ⟨t.id, .free next.free⟩ := by
  rcases List.mem_append.mp h with h | h
  · exact .inl h
  · rcases List.mem_append.mp h with h | h
    · obtain ⟨s, hs, rfl⟩ := List.mem_map.mp h
      exact .inr (.inl ⟨s, Option.mem_toList.mp hs, rfl⟩)
    · obtain ⟨next, hnext, rfl⟩ := List.mem_map.mp h
      exact .inr (.inr ⟨next, hnext, rfl⟩)

theorem runtimeState_updateRuntime (u : Router) (id a : GoString) (x : Update) :
    (u.updateRuntime id x).runtimeState a =
      if id = a then x.apply u.clock (u.runtimeState id) else u.runtimeState a := by
  unfold Router.runtimeState Router.updateRuntime
  rw [Std.ExtTreeMap.getElem?_insert]
  by_cases h : id = a
  · subst h
    simp [Router.runtimeState]
  · rw [if_neg fun hc => h (Std.LawfulEqCmp.eq_of_compare hc), if_neg h]

/-- A step changes the records and their history by its update only. -/
theorem advance_update {i : ℕ} {o : Outcome Stage} {x : Update} (h : o.update = some x) :
    (u.advance i t o).runtime = (u.updateRuntime t.id x).runtime ∧
      (u.advance i t o).history = u.history.note u.clock t.id x ∧
      (u.advance i t o).clock = u.clock := by
  unfold Router.advance Router.after
  rw [h]
  exact ⟨rfl, rfl, rfl⟩

theorem advance_none {i : ℕ} {o : Outcome Stage} (h : o.update = none) :
    (u.advance i t o).runtime = u.runtime ∧ (u.advance i t o).history = u.history ∧
      (u.advance i t o).clock = u.clock := by
  unfold Router.advance Router.after
  rw [h]
  exact ⟨rfl, rfl, rfl⟩

theorem advance_processes (u : Router) (i : ℕ) (t : Task) (o : Outcome Stage) :
    (u.advance i t o).processes =
      if o.launched then u.processes ++ [⟨t.id, false, u.inForce t.id⟩] else u.processes := by
  simp only [Router.advance, Router.after]
  split <;> rfl

theorem exited_advance {i child : ℕ} (o : Outcome Stage) (h : u.exited child = true) :
    (u.advance i t o).exited child = true := by
  unfold Router.exited at h ⊢
  rw [advance_processes]
  split
  · cases hp : u.processes[child]? with
    | none =>
      rw [hp] at h
      cases h
    | some p =>
      obtain ⟨hlt, _⟩ := List.getElem?_eq_some_iff.mp hp
      rw [List.getElem?_append_left hlt]
      exact h
  · exact h

theorem signInPending_iff : u.signInPending = true ↔ ∃ id, (u.runtimeState id).loginID ≠ [] := by
  unfold Router.signInPending
  rw [List.any_eq_true]
  constructor
  · rintro ⟨⟨id, r⟩, hmem, hr⟩
    refine ⟨id, ?_⟩
    rw [Std.ExtTreeMap.mem_toList_iff_getElem?_eq_some] at hmem
    unfold Router.runtimeState
    rw [hmem]
    simpa using hr
  · rintro ⟨id, hid⟩
    unfold Router.runtimeState at hid
    cases hr : u.runtime[id]? with
    | none =>
      rw [hr] at hid
      exact absurd rfl hid
    | some r =>
      rw [hr] at hid
      exact ⟨(id, r), Std.ExtTreeMap.mem_toList_iff_getElem?_eq_some.mpr hr, by simpa using hid⟩

theorem step_exclusive {l : Action} (h : Exclusive Task.holds u.locks u.tasks)
    (hs : step u l = some v) : Exclusive Task.holds v.locks v.tasks := by
  cases l with
  | startLogin id mode =>
    cases hs
    split
    · exact h.enter rfl
    · exact h
  | updateAccount id label enabled =>
    cases hs
    split
    · exact h
    · exact h.enter rfl
  | cancelLogin | logout | refresh =>
    cases hs
    exact h.enter rfl
  | completed id loginID success err =>
    cases hs
    split <;> exact h
  | runtimeFailure | tick =>
    cases hs
    exact h
  | exit child =>
    obtain ⟨process, _, rfl⟩ := Option.map_eq_some_iff.mp hs
    exact h
  | go i c =>
    obtain ⟨t, ht, ⟨r, hstage, hfree, rfl⟩ | ⟨o, ho, rfl⟩⟩ := go_cases hs
    · exact h.acquire ht hfree (by simp [Task.holds, hstage]) rfl
    · exact advance_exclusive h ht ho

end SubscriptionRouter.AccountRuntime
