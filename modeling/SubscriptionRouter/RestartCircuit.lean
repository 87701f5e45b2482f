import Mathlib
import SubscriptionRouter.RuntimeSteps

set_option autoImplicit false

/-!
# The restart circuit

A supervisor opens the circuit of an account whose child keeps failing, and its timer
closes it again. A launch looks at the circuit before it starts the process, and the
answer of a child that marks its account healthy closes the circuit, too. Circuits are
numbered in the order they are opened.
-/
namespace SubscriptionRouter.RestartCircuit
open GoText StoreState Transitions Locks AccountRuntime

variable {u v : Router} {t : Task} {c : Choice}

/-- The number of the circuit of an account that is in force. -/
def standing (u : Router) (id : GoString) : Option ℕ :=
  match u.history.circuits[id]? with
  | some (limit, number) => if u.clock < limit then some number else none
  | none => none

/-- A circuit in force stays in the record, and no child has been started under one. -/
structure CircuitsKept (u : Router) : Prop where
  kept : ∀ (id : GoString) (limit : ℤ) (number : ℕ),
    u.history.circuits[id]? = some (limit, number) → u.clock < limit →
      (u.runtimeState id).circuitUntil = some limit
  unstarted : ∀ p ∈ u.processes, p.startedOpen = false

/-- An update that would close a circuit in force that was opened after the child had
answered, or that another timer belongs to. -/
def stale (u : Router) (id : GoString) : Update → Bool
  | .healthy _ _ answered | .cancelled _ answered => (standing u id).any (answered < ·)
  | .closeCircuit own => (standing u id).any fun number => own ≠ some number
  | _ => false

/-- A circuit in force was opened after the launch had looked at the circuit. -/
def staleLaunch (u : Router) (t : Task) : Bool :=
  match t.stage with
  | .free _ => false
  | .holding op => op.launching.any fun checked => (standing u t.id).any (checked < ·)

/-- No circuit in force has been opened between a launch's check and the launch, between
a child's answer and the update that follows it, or since a timer that closes the circuit
was set. -/
def Timely (u : Router) : Action → Prop
  | .go i c => ∀ t ∈ u.tasks[i]?, ∀ o ∈ t.act u c,
    (o.launched = true → staleLaunch u t = false) ∧ ∀ x ∈ o.update, stale u t.id x = false
  | _ => True

def own : Supervise → Option ℕ
  | .arm _ own | .timer _ own | .fired own | .clear _ own => own
  | _ => none

/-- The time by which a supervisor's timer will have fired or has fired. -/
def due (now : ℤ) : Supervise → ℤ
  | .arm delay _ => now + delay
  | .timer deadline _ => deadline
  | _ => now

structure CircuitInv (u : Router) : Prop extends CircuitsKept u where
  numbered : ∀ (id : GoString) (limit : ℤ) (number : ℕ),
    u.history.circuits[id]? = some (limit, number) → number ≤ u.history.openings
  launches : ∀ t ∈ u.tasks, ∀ op checked, t.stage = .holding op → op.launching = some checked →
    checked ≤ u.history.openings ∧ ∀ number, standing u t.id = some number → checked < number
  timers : ∀ t ∈ u.tasks, ∀ next number, t.stage = .free (.supervise next) →
    own next = some number → number ≤ u.history.openings ∧
      ∀ limit, u.history.circuits[t.id]? = some (limit, number) → limit ≤ due u.clock next

theorem standing_eq_some {id : GoString} {number : ℕ} : standing u id = some number ↔
    ∃ limit, u.history.circuits[id]? = some (limit, number) ∧ u.clock < limit := by
  unfold standing
  cases h : u.history.circuits[id]? with
  | none => simp
  | some circuit =>
    obtain ⟨limit, n⟩ := circuit
    by_cases hc : u.clock < limit <;> simp [hc]

theorem inForce_eq (u : Router) (id : GoString) : u.inForce id = (standing u id).isSome := by
  unfold Router.inForce standing
  cases u.history.circuits[id]? with
  | none => rfl
  | some circuit =>
    by_cases hc : u.clock < circuit.1 <;> simp [hc]

/-! ## What an update does to the circuits -/

/-- An update that excuses or replaces a circuit. -/
def excuses (number : ℕ) : Update → Bool
  | .disabled | .pending | .openCircuit _ => true
  | .healthy _ _ answered | .cancelled _ answered => number ≤ answered
  | _ => false

theorem note_circuits {h : History} {now : ℤ} {id a : GoString} {x : Update} {limit : ℤ}
    {number : ℕ} (he : (h.note now id x).circuits[a]? = some (limit, number)) :
    (h.circuits[a]? = some (limit, number) ∧ (id = a → excuses number x = false)) ∨
      (id = a ∧ number = h.openings + 1 ∧
        ∃ delay : ℕ, x = .openCircuit delay ∧ limit = now + delay) := by
  have herase : (h.circuits.erase id)[a]? = some (limit, number) →
      h.circuits[a]? = some (limit, number) ∧ (id = a → excuses number x = false) := fun he =>
    (getElem?_erase_some he).imp_right fun hne hid => absurd hid hne
  have hanswered : ∀ answered, (if (h.circuits[id]?).any (·.2 ≤ answered) then h.circuits.erase id
      else h.circuits)[a]? = some (limit, number) → h.circuits[a]? = some (limit, number) ∧
        (id = a → decide (number ≤ answered) = false) := by
    intro answered he
    split at he
    · exact (getElem?_erase_some he).imp_right fun hne hid => absurd hid hne
    · rename_i hlater
      refine ⟨he, ?_⟩
      rintro rfl
      rw [he] at hlater
      simpa using hlater
  cases x with
  | disabled | pending => exact .inl (herase he)
  | healthy status logout answered => exact .inl (hanswered answered he)
  | cancelled ended answered => exact .inl (hanswered answered he)
  | openCircuit delay =>
    simp only [History.note] at he
    rw [Std.ExtTreeMap.getElem?_insert] at he
    split at he
    · rename_i hid
      cases he
      exact .inr ⟨Std.LawfulEqCmp.eq_of_compare hid, rfl, delay, rfl, rfl⟩
    · rename_i hid
      exact .inl ⟨he, fun he => absurd (he ▸ Std.ReflCmp.compare_self) hid⟩
  | _ => exact .inl ⟨he, fun _ => rfl⟩

theorem note_openings (h : History) (now : ℤ) (id : GoString) (x : Update) :
    h.openings ≤ (h.note now id x).openings := by
  cases x with
  | openCircuit delay => exact Nat.le_succ _
  | _ => exact le_rfl

def leaves : Update → Bool
  | .disabled | .pending | .openCircuit _ | .healthy _ _ _ | .cancelled _ _ | .closeCircuit _ => false
  | _ => true

theorem apply_circuitUntil {now : ℤ} {r : Runtime} {x : Update} (h : leaves x = true) :
    (x.apply now r).circuitUntil = r.circuitUntil := by
  cases x with
  | clearReservation err =>
    simp only [Update.apply]
    cases err <;> by_cases hr : r.loginID = loginStarting <;> simp [hr]
  | storeLogin child stored =>
    simp only [Update.apply]
    split <;> rfl
  | cancelling loginID cancel =>
    simp only [Update.apply]
    split <;> rfl
  | completed ended success err =>
    simp only [Update.apply]
    split
    · rfl
    · split <;> rfl
  | failure | childFailure | started | reserve | issued => rfl
  | _ => cases h

/-! ## Where launches and timers come from -/

theorem snapshot_launched (id : GoString) (next : Snapshot) :
    (next.act u id c).launched = false := by
  cases next <;> simp only [Snapshot.act] <;> repeat' first | rfl | split

theorem finish_launched (caller : Caller) (r : Except GoString ℕ) :
    (caller.finish u r).launched = false := by
  cases caller <;> cases r <;> rfl

theorem start_launched {id : GoString} {caller : Caller} {enabled : Bool} {next : Start}
    (h : (next.act u id c caller enabled).launched = true) :
    ∃ checked, next = .launch checked := by
  cases next with
  | launch checked => exact ⟨checked, rfl⟩
  | check =>
    simp only [Start.act] at h
    split at h
    · rw [finish_launched] at h
      cases h
    · split at h <;> cases h
  | inspect child =>
    simp only [Start.act] at h
    split at h
    · cases h
    · rw [finish_launched] at h
      cases h
  | circuit =>
    simp only [Start.act] at h
    split at h
    · rw [finish_launched] at h
      cases h
    · cases h
  | initializeChild child =>
    simp only [Start.act] at h
    split at h <;> cases h
  | drop child err =>
    simp only [Start.act, finish_launched] at h
    cases h
  | settle child =>
    simp only [Start.act, finish_launched] at h
    cases h
  | discard | register => cases h

theorem login_launched (id : GoString) (next : Login) : (next.act u id c).launched = false := by
  cases next <;> simp only [Login.act] <;> repeat' first | rfl | split

theorem cancel_launched (id : GoString) (next : Cancel) : (next.act u id c).launched = false := by
  cases next <;> simp only [Cancel.act] <;> repeat' first | rfl | split

theorem logout_launched (id : GoString) (next : Logout) : (next.act u id c).launched = false := by
  cases next <;> simp only [Logout.act] <;> repeat' first | rfl | split

theorem change_launched (id : GoString) (next : Change) : (next.act u id c).launched = false := by
  cases next with
  | snapshot next => exact snapshot_launched id next
  | _ =>
    simp only [Change.act]
    repeat' first | rfl | split

theorem supervise_launched {id : GoString} {next : Supervise} {o : Outcome Supervise}
    (h : next.act u id = some o) : o.launched = false := by
  cases next <;> simp only [Supervise.act] at h <;> repeat' split at h
  all_goals cases h <;> rfl

theorem act_launched {o : Outcome Stage} (h : t.act u c = some o) (hl : o.launched = true) :
    ∃ op checked, t.stage = .holding op ∧ op.launching = some checked := by
  unfold Task.act at h
  split at h
  · cases h
  · cases h
    rw [Outcome.map, snapshot_launched] at hl
    cases hl
  · obtain ⟨o, ho, rfl⟩ := Option.map_eq_some_iff.mp h
    rw [Outcome.map, supervise_launched ho] at hl
    cases hl
  · rename_i op hstage
    cases h
    cases op with
    | login next =>
      rw [Outcome.map, Op.act, login_launched] at hl
      cases hl
    | cancel next =>
      rw [Outcome.map, Op.act, Outcome.map, cancel_launched] at hl
      cases hl
    | logout next =>
      rw [Outcome.map, Op.act, Outcome.map, logout_launched] at hl
      cases hl
    | change next =>
      rw [Outcome.map, Op.act, change_launched] at hl
      cases hl
    | start caller enabled next =>
      obtain ⟨checked, rfl⟩ := start_launched hl
      exact ⟨_, checked, hstage, rfl⟩

/-- A timer is the supervisor's of the circuit just opened, or is carried on. -/
theorem supervise_next {id : GoString} {next next' : Supervise} {o : Outcome Supervise}
    (h : next.act u id = some o) (hnext : o.next = some next') {number : ℕ}
    (hown : own next' = some number) :
    (o.update = some (.openCircuit restartCircuitDelay) ∧ number = u.history.openings + 1 ∧
      due u.clock next' = u.clock + restartCircuitDelay) ∨
    (o.update = none ∧ own next = some number ∧ due u.clock next ≤ due u.clock next') := by
  cases next with
  | monitor child =>
    simp only [Supervise.act] at h
    split at h
    · split at h <;> cases h <;> cases hnext
      cases hown
    · cases h
  | exited =>
    simp only [Supervise.act] at h
    split at h <;> cases h
    · split at hnext <;> cases hnext
      cases hown
    · cases hnext
  | failed err =>
    cases h
    obtain rfl := Option.some.inj hnext
    split at hown <;> cases hown
  | openCircuit =>
    cases h
    cases hnext
    cases hown
    exact .inl ⟨rfl, rfl, rfl⟩
  | arm delay own =>
    cases h
    cases hnext
    exact .inr ⟨rfl, hown, le_rfl⟩
  | timer deadline own =>
    simp only [Supervise.act] at h
    split at h <;> cases h
    cases hnext
    exact .inr ⟨rfl, hown, ‹deadline ≤ u.clock›⟩
  | fired own =>
    simp only [Supervise.act] at h
    split at h <;> cases h
    · split at hnext <;> cases hnext
      exact .inr ⟨by split <;> rfl, hown, le_rfl⟩
    · cases hnext
  | clear enabled own =>
    cases h
    cases hnext
  | restartFailed err =>
    cases h
    cases hnext
    cases hown

theorem act_supervise {o : Outcome Stage} {next' : Supervise} (h : t.act u c = some o)
    (hnext : o.next = some (.free (.supervise next'))) :
    ∃ next o', t.stage = .free (.supervise next) ∧ next.act u t.id = some o' ∧
      o'.next = some next' ∧ o.update = o'.update := by
  unfold Task.act at h
  split at h
  · cases h
  · cases h
    obtain ⟨_, _, hs⟩ := Option.map_eq_some_iff.mp hnext
    cases hs
  · rename_i next hstage
    obtain ⟨o', ho', rfl⟩ := Option.map_eq_some_iff.mp h
    obtain ⟨_, hn, hs⟩ := Option.map_eq_some_iff.mp hnext
    cases hs
    exact ⟨next, o', hstage, ho', hn, rfl⟩
  · cases h
    obtain ⟨_, _, hs⟩ := Option.map_eq_some_iff.mp hnext
    cases hs

/-! ## The invariant -/

/-- A circuit in force stays in the record under an update that is not stale. -/
theorem CircuitInv.kept_update (hi : CircuitInv u) (ht : t ∈ u.tasks) {x : Update}
    (hx : x.Written u t) (hstale : stale u t.id x = false) {limit : ℤ} {number : ℕ}
    (he : u.history.circuits[t.id]? = some (limit, number)) (hlt : u.clock < limit)
    (hex : excuses number x = false) :
    (x.apply u.clock (u.runtimeState t.id)).circuitUntil = some limit := by
  have hkept := hi.kept t.id limit number he hlt
  have hstanding : standing u t.id = some number := standing_eq_some.mpr ⟨limit, he, hlt⟩
  cases x with
  | disabled | pending | openCircuit => cases hex
  | healthy status logout answered =>
    simp only [stale, hstanding, Option.any_some, decide_eq_false_iff_not] at hstale
    simp only [excuses, decide_eq_false_iff_not] at hex
    omega
  | cancelled ended answered =>
    simp only [stale, hstanding, Option.any_some, decide_eq_false_iff_not] at hstale
    simp only [excuses, decide_eq_false_iff_not] at hex
    omega
  | closeCircuit own =>
    simp only [stale, hstanding, Option.any_some, ne_eq, decide_not, Bool.not_eq_false',
      decide_eq_true_eq] at hstale
    subst hstale
    obtain ⟨enabled, hstage⟩ := hx
    have hdue := (hi.timers t ht _ number hstage rfl).2 limit he
    simp only [due] at hdue
    omega
  | _ => exact (apply_circuitUntil rfl).trans hkept

section Advance
variable {i : ℕ} {o : Outcome Stage}

/-- Where the circuits of a step come from. -/
theorem advance_circuits {a : GoString} {limit : ℤ} {number : ℕ}
    (he : (u.advance i t o).history.circuits[a]? = some (limit, number)) :
    (u.history.circuits[a]? = some (limit, number) ∧
      (t.id = a → ∀ x, o.update = some x → excuses number x = false)) ∨
    (t.id = a ∧ number = u.history.openings + 1 ∧
      ∃ delay : ℕ, o.update = some (.openCircuit delay) ∧ limit = u.clock + delay) := by
  cases hx : o.update with
  | none =>
    rw [(advance_none hx).2.1] at he
    exact .inl ⟨he, fun _ _ h => nomatch h⟩
  | some x =>
    rw [(advance_update hx).2.1] at he
    rcases note_circuits he with ⟨he, hex⟩ | ⟨hid, hnumber, delay, rfl, hlimit⟩
    · refine .inl ⟨he, fun hid y hy => ?_⟩
      obtain rfl := Option.some.inj hy
      exact hex hid
    · exact .inr ⟨hid, hnumber, delay, rfl, hlimit⟩

theorem advance_openings : u.history.openings ≤ (u.advance i t o).history.openings := by
  cases hx : o.update with
  | none => rw [(advance_none hx).2.1]
  | some x =>
    rw [(advance_update hx).2.1]
    exact note_openings _ _ _ x

theorem advance_openCircuit {delay : ℕ} (hx : o.update = some (.openCircuit delay)) :
    (u.advance i t o).history.openings = u.history.openings + 1 := by
  rw [(advance_update hx).2.1]
  rfl

theorem advance_clock : (u.advance i t o).clock = u.clock := by
  cases hx : o.update with
  | none => exact (advance_none hx).2.2
  | some x => exact (advance_update hx).2.2

theorem CircuitInv.advance_kept (hi : CircuitInv u) (ht : u.tasks[i]? = some t)
    (ho : t.act u c = some o) (hstale : ∀ x ∈ o.update, stale u t.id x = false)
    {a : GoString} {limit : ℤ} {number : ℕ}
    (he : (u.advance i t o).history.circuits[a]? = some (limit, number))
    (hlt : (u.advance i t o).clock < limit) :
    ((u.advance i t o).runtimeState a).circuitUntil = some limit := by
  rw [advance_clock] at hlt
  unfold Router.runtimeState
  rcases advance_circuits he with ⟨he, hex⟩ | ⟨rfl, _, delay, hx, rfl⟩
  · cases hx : o.update with
    | none =>
      rw [(advance_none hx).1]
      exact hi.kept a limit number he hlt
    | some x =>
      rw [(advance_update hx).1]
      change ((u.updateRuntime t.id x).runtimeState a).circuitUntil = some limit
      rw [runtimeState_updateRuntime]
      split
      · rename_i hid
        subst hid
        exact hi.kept_update (List.mem_of_getElem? ht) (act_update ho hx) (hstale x hx) he hlt
          (hex rfl x hx)
      · exact hi.kept a limit number he hlt
  · rw [(advance_update hx).1]
    change ((u.updateRuntime t.id (.openCircuit delay)).runtimeState t.id).circuitUntil = _
    rw [runtimeState_updateRuntime, if_pos rfl]
    rfl

theorem CircuitInv.advance_unstarted (hi : CircuitInv u) (ht : u.tasks[i]? = some t)
    (ho : t.act u c = some o) (hlaunch : o.launched = true → staleLaunch u t = false) :
    ∀ p ∈ (u.advance i t o).processes, p.startedOpen = false := by
  rw [advance_processes]
  split
  · rename_i hl
    obtain ⟨op, checked, hstage, hchecked⟩ := act_launched ho hl
    have hlater := (hi.launches t (List.mem_of_getElem? ht) op checked hstage hchecked).2
    have hfresh := hlaunch hl
    simp only [staleLaunch, hstage, hchecked, Option.any_some] at hfresh
    intro p hp
    rcases List.mem_append.mp hp with hp | hp
    · exact hi.unstarted p hp
    · obtain rfl := List.mem_singleton.mp hp
      dsimp only
      rw [inForce_eq]
      cases hs : standing u t.id with
      | none => rfl
      | some number =>
        rw [hs, Option.any_some, decide_eq_false_iff_not] at hfresh
        exact absurd (hlater number hs) hfresh
  · exact hi.unstarted

theorem CircuitInv.advance_numbered (hi : CircuitInv u) {a : GoString} {limit : ℤ} {number : ℕ}
    (he : (u.advance i t o).history.circuits[a]? = some (limit, number)) :
    number ≤ (u.advance i t o).history.openings := by
  rcases advance_circuits he with ⟨he, _⟩ | ⟨_, rfl, delay, hx, _⟩
  · exact (hi.numbered a limit number he).trans advance_openings
  · rw [advance_openCircuit hx]

theorem CircuitInv.advance_launches (hi : CircuitInv u) (ho : t.act u c = some o)
    {t' : Task} (ht' : t' ∈ (u.advance i t o).tasks) {op : Op} {checked : ℕ}
    (hstage : t'.stage = .holding op) (hchecked : op.launching = some checked) :
    checked ≤ (u.advance i t o).history.openings ∧
      ∀ number, standing (u.advance i t o) t'.id = some number → checked < number := by
  have hbefore : checked ≤ u.history.openings ∧
      ∀ number, standing u t'.id = some number → checked < number := by
    rcases mem_advance ht' with ht' | ⟨s, hs, rfl⟩ | ⟨next, _, rfl⟩
    · exact hi.launches t' (List.mem_of_mem_eraseIdx ht') op checked hstage hchecked
    · obtain rfl : s = .holding op := hstage
      obtain ⟨_, _, hfollows⟩ := act_next ho hs
      obtain ⟨rfl, hclosed⟩ := hfollows.launching checked hchecked
      refine ⟨le_rfl, fun number hnumber => ?_⟩
      obtain ⟨limit, he, hlt⟩ := standing_eq_some.mp hnumber
      have hopen : u.circuitOpen t.id = true := by
        rw [Router.circuitOpen, hi.kept t.id limit number he hlt]
        exact decide_eq_true hlt
      rw [hclosed] at hopen
      cases hopen
    · cases hstage
  refine ⟨hbefore.1.trans advance_openings, fun number hnumber => ?_⟩
  obtain ⟨limit, he, hlt⟩ := standing_eq_some.mp hnumber
  rw [advance_clock] at hlt
  rcases advance_circuits he with ⟨he, _⟩ | ⟨_, rfl, _⟩
  · exact hbefore.2 number (standing_eq_some.mpr ⟨limit, he, hlt⟩)
  · exact Nat.lt_succ_of_le hbefore.1

theorem CircuitInv.advance_timers (hi : CircuitInv u) (ht : u.tasks[i]? = some t)
    (ho : t.act u c = some o) {t' : Task} (ht' : t' ∈ (u.advance i t o).tasks) {next : Supervise}
    {number : ℕ} (hstage : t'.stage = .free (.supervise next)) (hown : own next = some number) :
    number ≤ (u.advance i t o).history.openings ∧
      ∀ limit, (u.advance i t o).history.circuits[t'.id]? = some (limit, number) →
        limit ≤ due (u.advance i t o).clock next := by
  rw [advance_clock]
  rcases mem_advance ht' with ht' | ⟨s, hs, rfl⟩ | ⟨spawned, _, rfl⟩
  · obtain ⟨hnumber, hdue⟩ :=
      hi.timers t' (List.mem_of_mem_eraseIdx ht') next number hstage hown
    refine ⟨hnumber.trans advance_openings, fun limit he => ?_⟩
    rcases advance_circuits he with ⟨he, _⟩ | ⟨_, rfl, _⟩
    · exact hdue limit he
    · omega
  · obtain rfl : s = .free (.supervise next) := hstage
    obtain ⟨next₀, o', hstage₀, ho', hnext, hupdate⟩ := act_supervise ho hs
    rcases supervise_next ho' hnext hown with ⟨hx, rfl, hdue⟩ | ⟨hx, hown₀, hdue⟩
    · rw [← hupdate] at hx
      refine ⟨(advance_openCircuit hx).ge, fun limit he => ?_⟩
      rw [hdue]
      rcases advance_circuits he with ⟨he, _⟩ | ⟨_, _, delay, hy, rfl⟩
      · have := hi.numbered _ _ _ he
        omega
      · rw [hx] at hy
        cases hy
        exact le_rfl
    · rw [← hupdate] at hx
      rw [(advance_none hx).2.1]
      obtain ⟨hnumber, hbefore⟩ := hi.timers t (List.mem_of_getElem? ht) next₀ number hstage₀ hown₀
      exact ⟨hnumber, fun limit he => (hbefore limit he).trans hdue⟩
  · cases spawned with
    | restart enabled => cases hstage
    | monitor child =>
      cases hstage
      cases hown
    | restartFailed err =>
      cases hstage
      cases hown

theorem CircuitInv.advance (hi : CircuitInv u) (ht : u.tasks[i]? = some t)
    (ho : t.act u c = some o) (hlaunch : o.launched = true → staleLaunch u t = false)
    (hstale : ∀ x ∈ o.update, stale u t.id x = false) : CircuitInv (u.advance i t o) where
  kept := fun _ _ _ => hi.advance_kept ht ho hstale
  unstarted := hi.advance_unstarted ht ho hlaunch
  numbered := fun _ _ _ => hi.advance_numbered
  launches := fun _ ht' _ _ => hi.advance_launches ho ht'
  timers := fun _ ht' _ _ => hi.advance_timers ht ho ht'

end Advance

def idle (t : Task) : Prop :=
  (∀ op, t.stage = .holding op → op.launching = none) ∧
    ∀ next, t.stage = .free (.supervise next) → own next = none

theorem due_mono {now later : ℤ} (h : now ≤ later) (next : Supervise) :
    due now next ≤ due later next := by
  cases next with
  | arm delay own =>
    simp only [due]
    omega
  | timer deadline own => exact le_rfl
  | _ => exact h

/-- The circuits stay, time may pass, and idle goroutines may come. -/
theorem CircuitInv.frame (hi : CircuitInv u) (hclock : u.clock ≤ v.clock)
    (hcircuits : v.history.circuits = u.history.circuits)
    (hopenings : v.history.openings = u.history.openings)
    (hruntime : ∀ id, (v.runtimeState id).circuitUntil = (u.runtimeState id).circuitUntil)
    (hprocesses : ∀ p ∈ v.processes, p.startedOpen = false)
    (htasks : ∀ t ∈ v.tasks, t ∈ u.tasks ∨ idle t) : CircuitInv v where
  kept := fun id limit number he hlt => by
    rw [hruntime]
    rw [hcircuits] at he
    exact hi.kept id limit number he (hclock.trans_lt hlt)
  unstarted := hprocesses
  numbered := fun id limit number he => by
    rw [hcircuits] at he
    rw [hopenings]
    exact hi.numbered id limit number he
  launches := fun t ht op checked hstage hchecked => by
    rcases htasks t ht with ht | ht
    · obtain ⟨hle, hlater⟩ := hi.launches t ht op checked hstage hchecked
      refine ⟨hopenings ▸ hle, fun number hnumber => ?_⟩
      obtain ⟨limit, he, hlt⟩ := standing_eq_some.mp hnumber
      rw [hcircuits] at he
      exact hlater number (standing_eq_some.mpr ⟨limit, he, hclock.trans_lt hlt⟩)
    · rw [ht.1 op hstage] at hchecked
      cases hchecked
  timers := fun t ht next number hstage hown => by
    rcases htasks t ht with ht | ht
    · obtain ⟨hle, hdue⟩ := hi.timers t ht next number hstage hown
      refine ⟨hopenings ▸ hle, fun limit he => ?_⟩
      rw [hcircuits] at he
      exact (hdue limit he).trans (due_mono hclock next)
    · rw [ht.2 next hstage] at hown
      cases hown

/-- An update from outside the goroutines, which leaves the circuit alone. -/
theorem CircuitInv.update (hi : CircuitInv u) (id : GoString) {x : Update}
    (hx : leaves x = true)
    (hcircuits : (u.history.note u.clock id x).circuits = u.history.circuits)
    (hopenings : (u.history.note u.clock id x).openings = u.history.openings) :
    CircuitInv (u.updateRuntime id x) := by
  refine hi.frame (v := u.updateRuntime id x) le_rfl hcircuits hopenings (fun a => ?_)
    hi.unstarted fun _ ht => .inl ht
  rw [runtimeState_updateRuntime]
  split
  · rename_i hid
    subst hid
    exact apply_circuitUntil hx
  · rfl

theorem CircuitInv.step {l : Action} (hi : CircuitInv u)
    (h : Guarded Timely (Fires step) u l v) : CircuitInv v := by
  obtain ⟨htimely, hs⟩ := h
  have hspawn : ∀ id next, (∀ s, next = .supervise s → own s = none) →
      CircuitInv (u.spawn id next) := fun id next hnext => by
    refine hi.frame le_rfl rfl rfl (fun _ => rfl) hi.unstarted fun t ht => ?_
    rcases List.mem_append.mp ht with ht | ht
    · exact .inl ht
    · obtain rfl := List.mem_singleton.mp ht
      exact .inr ⟨nofun, fun s hs => hnext s (Stage.free.inj hs)⟩
  cases l with
  | startLogin id mode =>
    cases hs
    split
    · exact hspawn _ _ nofun
    · exact hi
  | updateAccount id label enabled =>
    cases hs
    split
    · exact hi
    · exact hspawn _ _ nofun
  | cancelLogin | logout | refresh =>
    cases hs
    exact hspawn _ _ nofun
  | completed id loginID success err =>
    cases hs
    split
    · exact hi
    · exact hi.update id rfl rfl rfl
  | runtimeFailure id err =>
    cases hs
    exact hi.update id rfl rfl rfl
  | exit child =>
    obtain ⟨process, hp, rfl⟩ := Option.map_eq_some_iff.mp hs
    refine hi.frame le_rfl rfl rfl (fun _ => rfl) (fun p hp' => ?_) fun _ ht => .inl ht
    rcases List.mem_or_eq_of_mem_set hp' with hp' | rfl
    · exact hi.unstarted p hp'
    · exact hi.unstarted process (List.mem_of_getElem? hp)
  | tick elapsed =>
    cases hs
    refine hi.frame ?_ rfl rfl (fun _ => rfl) hi.unstarted fun _ ht => .inl ht
    exact le_add_of_nonneg_right (Int.natCast_nonneg elapsed)
  | go i c =>
    obtain ⟨t, ht, ⟨r, _, _, rfl⟩ | ⟨o, ho, rfl⟩⟩ := go_cases hs
    · refine hi.frame le_rfl rfl rfl (fun _ => rfl) hi.unstarted fun t' ht' => ?_
      rcases List.mem_append.mp ht' with ht' | ht'
      · exact .inl (List.mem_of_mem_eraseIdx ht')
      · obtain rfl := List.mem_singleton.mp ht'
        refine .inr ⟨fun op hop => ?_, nofun⟩
        obtain rfl := Stage.holding.inj hop
        cases r <;> rfl
    · obtain ⟨hlaunch, hstale⟩ := htimely t ht o ho
      exact hi.advance ht ho hlaunch hstale

theorem init_circuits (m : Machine) (requestSpending : Bool) (started : List GoString)
    (statuses : GoMap GoString) (clock : ℤ) :
    CircuitInv (.init m requestSpending started statuses clock) := by
  refine ⟨⟨fun id limit number he => ?_, fun p hp => ?_⟩, fun id limit number he => ?_,
    fun t ht op checked hstage => ?_, fun t ht next number hstage hown => ?_⟩
  · simp [Router.init] at he
  · obtain ⟨id, _, rfl⟩ := List.mem_map.mp hp
    rfl
  · simp [Router.init] at he
  · obtain ⟨e, _, rfl⟩ := List.mem_map.mp ht
    cases hstage
  · obtain ⟨e, _, rfl⟩ := List.mem_map.mp ht
    cases hstage
    cases hown

/-- In a run without stale launches, answers and timers, a circuit in force is kept and no
child is started under it. -/
theorem timely_runs_keep_circuits {m : Machine} {requestSpending : Bool}
    {started : List GoString} {statuses : GoMap GoString} {clock : ℤ} {ls : List Action}
    (h : Runs (Guarded Timely (Fires step))
      (.init m requestSpending started statuses clock) ls u) : CircuitsKept u :=
  (h.invariant (init_circuits m requestSpending started statuses clock)
    fun _ _ _ hi => hi.step).toCircuitsKept

instance (u : Router) (l : Action) : Decidable (Timely u l) :=
  match l with
  | .go i c => inferInstanceAs (Decidable (∀ t ∈ u.tasks[i]?, ∀ o ∈ t.act u c,
      (o.launched = true → staleLaunch u t = false) ∧ ∀ x ∈ o.update, stale u t.id x = false))
  | .startLogin _ _ | .cancelLogin _ | .logout _ | .updateAccount _ _ _ | .refresh _
  | .completed _ _ _ _ | .runtimeFailure _ _ | .exit _ | .tick _ => inferInstanceAs (Decidable True)

/-- A sign-in of `b` starts child `k + 1` and fails; the child exits. -/
def restartByHand (k : ℕ) : List Action :=
  .startLogin (lit "b") (lit "chatgpt") :: go (k + 1) 10 {} ++
    go (k + 1) 1 { failure := some (lit "refused") } ++ go (k + 2) 1 {} ++
    .exit (k + 1) :: go (k + 1) 4 {}

/-- Five exits of the children of `b` in a row open the circuit. -/
def openedCircuit : List Action :=
  .exit 1 :: go 1 4 {} ++ restartByHand 1 ++ restartByHand 2 ++ restartByHand 3 ++
    restartByHand 4 ++ go 5 1 {}

/-- A sign-in is refused under the circuit; its own timer closes it after a minute. -/
theorem timely_runs_keep_circuits_probed :
    ∃ u, CircuitsKept u ∧ (u.history.circuits[lit "b"]?).isSome ∧ u.processes.length = 7 := by
  have h : (exec (guard Timely step) twoChildren
      (openedCircuit ++ .startLogin (lit "b") (lit "chatgpt") :: go 6 7 {} ++
        .tick restartCircuitDelay :: go 5 9 {})).any
      (fun u => (u.history.circuits[lit "b"]?).isSome ∧ u.processes.length = 7) = true := by
    decide
  obtain ⟨u, hr, hu⟩ := guarded_runs_of_exec_any h
  exact ⟨u, timely_runs_keep_circuits hr, of_decide_eq_true hu⟩

/-- The timer of the first exit fires after the circuit has opened and closes it. -/
theorem stale_timer_closes_circuit :
    ∃ ls u, Runs (Fires step) twoChildren ls u ∧ ¬ CircuitsKept u := by
  have h : (exec step twoChildren
      (openedCircuit ++ .tick second :: go 1 1 {} ++ go 5 2 {})).any
      (fun u => u.history.circuits[lit "b"]? = some ((restartCircuitDelay : ℤ), 1) ∧
        u.clock < (restartCircuitDelay : ℤ) ∧ (u.runtimeState (lit "b")).circuitUntil = none) =
        true := by
    decide
  obtain ⟨u, hr, hu⟩ := runs_of_exec_any h
  obtain ⟨he, hlt, hnone⟩ := of_decide_eq_true hu
  refine ⟨_, u, hr, fun hkept => ?_⟩
  rw [hkept.kept _ _ _ he hlt] at hnone
  cases hnone

end SubscriptionRouter.RestartCircuit
