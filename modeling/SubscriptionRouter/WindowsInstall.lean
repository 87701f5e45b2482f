import Mathlib
import SubscriptionRouter.Moves

set_option autoImplicit false

/-!
# The install on Windows

`atomic_install` moves the installed tree to a backup and the staged tree to the destination.
Backups stand in new containers; the destination, the staged tree and the root of the backups
lie side by side. An existence check is a step that the system can refuse too, also in the handler.
-/
namespace SubscriptionRouter.WindowsInstall
open Exceptions Moves

/-- The path `root\container\leaf`, where `root` is what its grandparent resolves to. -/
structure BackupPath (R N : Type) where
  root : R
  container : N
  leaf : N
  deriving DecidableEq

inductive Place (R N : Type) where
  | destination
  | staged
  | backup (path : BackupPath R N)
  /-- `.<name>.failed-<time>-<uuid>`, a new name. -/
  | failed
  deriving DecidableEq

/-- The steps that the system can refuse; the last two are the handler's existence checks. -/
inductive Step where
  | makeParent | findDestination | findAgain | resolveExpected | resolveBackup | makeContainer
  | setAside | publish
  | checkDestination | checkBackup
  deriving DecidableEq

/-- What does not change while the install runs: the names that it asks for, the containers
that there are, and the steps that fail. -/
structure Environment (R N : Type) where
  backupRoot : R
  name : N
  /-- The time and the eight digits of the identifier. -/
  stamp : N
  containers : R → N → Bool
  raises : Step → Bool

variable {R N T : Type} [DecidableEq R] [DecidableEq N]

def planBackupPath (e : Environment R N) : BackupPath R N := ⟨e.backupRoot, e.stamp, e.name⟩

def makeContainer (e : Environment R N) (backup : BackupPath R N) : Script (Place R N) T Unit :=
  attempt (e.raises .makeContainer || e.containers backup.root backup.container)

def moveToBackup (e : Environment R N) (backup : BackupPath R N) : Script (Place R N) T Unit := do
  attempt (e.raises .resolveExpected)
  attempt (e.raises .resolveBackup)
  require (backup.root = e.backupRoot)
  makeContainer e backup
  rename (e.raises .setAside) .destination (.backup backup)

def restore (e : Environment R N) (backup : Option (BackupPath R N)) : Script (Place R N) T Unit := do
  attempt (e.raises .checkDestination)
  renameIfPresent .destination .failed
  match backup with
  | none => pure ()
  | some backup => do
    attempt (e.raises .checkBackup)
    renameIfPresent (.backup backup) .destination

def atomicInstall (e : Environment R N) (force : Bool) (plannedBackup : Option (BackupPath R N)) :
    Script (Place R N) T (Option (BackupPath R N)) := do
  attempt (e.raises .makeParent)
  attempt (e.raises .findDestination)
  require (!(← present .destination) || force)
  attempt (e.raises .findAgain)
  let backup := if ← present .destination then some (plannedBackup.getD (planBackupPath e)) else none
  match backup with
  | none => pure ()
  | some backup => moveToBackup e backup
  tryCatch (rename (e.raises .publish) .staged .destination) fun error => do
    restore e backup
    throw error
  return backup

structure Situation (R N T : Type) where
  previous : Option T
  new : T
  backups : BackupPath R N → Option T

def Situation.places (before : Situation R N T) : Place R N → Option T
  | .destination => before.previous
  | .staged => some before.new
  | .backup path => before.backups path
  | .failed => none

/-- The installed tree can be moved to the path: nothing refuses, and the path is a new one under
the root of the backups. -/
def Movable (e : Environment R N) (before : Situation R N T) (backup : BackupPath R N) : Prop :=
  (∀ step ∈ [Step.resolveExpected, .resolveBackup, .makeContainer, .setAside], e.raises step = false) ∧
    backup.root = e.backupRoot ∧ e.containers backup.root backup.container = false ∧
    before.previous.isSome ∧ before.backups backup = none

/-- The install gets as far as the last rename, with the installed tree set aside. -/
def SetAside (e : Environment R N) (force : Bool) (plannedBackup : Option (BackupPath R N))
    (before : Situation R N T) : Prop :=
  force ∧ (∀ step ∈ [Step.makeParent, .findDestination, .findAgain], e.raises step = false) ∧
    Movable e before (plannedBackup.getD (planBackupPath e))

/-- When the install raises, the previous install is at the destination and the staged tree where
it was; when it returns, the staged tree is there and the previous install at the path it returns. -/
def Keeps (e : Environment R N) (force : Bool) (plannedBackup : Option (BackupPath R N))
    (before : Situation R N T) : Prop :=
  Ends (atomicInstall e force plannedBackup) before.places
    (fun backup s => s .destination = some before.new ∧
      backup.map (fun path => s (.backup path)) = before.previous.map some)
    (fun _ s => s .destination = before.previous ∧ s .staged = some before.new)

variable {e : Environment R N} {before : Situation R N T} {q : Unit → (Place R N → Option T) → Prop}
    {r : (Place R N → Option T) → Prop}

theorem ends_moveToBackup {backup : BackupPath R N} (hmovable : Movable e before backup) :
    Ends (moveToBackup e backup) before.places q (fun _ => r) ↔
      q () (moved before.places .destination (.backup backup)) := by
  obtain ⟨hsteps, hroot, hcontainer, hprevious, hfree⟩ := hmovable
  unfold moveToBackup makeContainer
  rw [ends_bind, ends_attempt, hsteps _ (by simp), ends_bind, ends_attempt, hsteps _ (by simp), ends_bind,
    ends_require, decide_eq_true hroot, ends_bind, ends_attempt, hsteps _ (by simp), hcontainer,
      ends_rename,
    hsteps _ (by simp)]
  exact ⟨fun h => by simpa [Situation.places, hprevious, hfree] using h,
    fun h => by simpa [Situation.places, hprevious, hfree] using h⟩

theorem ends_moveToBackup_refused {backup : BackupPath R N} (hmovable : ¬ Movable e before backup)
    (hprevious : before.previous.isSome) (hr : r before.places) :
    Ends (moveToBackup e backup) before.places q (fun _ => r) := by
  unfold moveToBackup makeContainer
  rw [ends_bind, ends_attempt, ends_bind, ends_attempt, ends_bind, ends_require, ends_bind, ends_attempt,
    ends_rename]
  split_ifs with hexpected hresolve hroot hcontainer hrename
  · exact hr
  · exact hr
  · exact hr
  · refine (hmovable ⟨?_, ?_, ?_, hprevious, hrename.2.2⟩).elim
    · simp_all
    · exact of_decide_eq_true hroot
    · simp_all
  · exact hr
  · exact hr

theorem ends_restore {s : Place R N → Option T} {backup : Option (BackupPath R N)}
    (hdestination : s .destination = none) (hfailed : s .failed = none)
    (hcheck : e.raises .checkDestination = false) (hbackup : backup.isSome → e.raises .checkBackup = false)
    (hr : ∀ s', s' .destination = backup.bind (fun path => s (.backup path)) → s' .staged = s .staged →
      q () s') : Ends (restore e backup) s q (fun _ => r) := by
  unfold restore
  rw [ends_bind, ends_attempt, hcheck, if_neg Bool.false_ne_true, ends_bind, ends_renameIfPresent hfailed,
    moved_absent hdestination hfailed]
  cases backup with
  | none => exact hr s hdestination rfl
  | some path =>
    dsimp only
    rw [ends_bind, ends_attempt, hbackup rfl, if_neg Bool.false_ne_true]
    refine (ends_renameIfPresent hdestination).mpr (hr _ ?_ ?_)
    · exact moved_target ..
    · exact moved_other s (fun h => by cases h) fun h => by cases h

theorem ends_restore_refused {s : Place R N → Option T} {backup : Option (BackupPath R N)}
    (hdestination : s .destination = none) (hfailed : s .failed = none)
    (hcheck : e.raises .checkDestination ∨ backup.isSome ∧ e.raises .checkBackup) :
    Ends (restore e backup) s q (fun _ => r) ↔ r s := by
  unfold restore
  rw [ends_bind, ends_attempt]
  by_cases hfirst : e.raises .checkDestination
  · rw [if_pos hfirst]
  · obtain ⟨hbackup, hsecond⟩ := hcheck.resolve_left hfirst
    obtain ⟨path, rfl⟩ := Option.isSome_iff_exists.mp hbackup
    rw [if_neg hfirst, ends_bind, ends_renameIfPresent hfailed, moved_absent hdestination hfailed]
    dsimp only
    rw [ends_bind, ends_attempt, if_pos hsecond]

theorem ends_publish (backup : Option (BackupPath R N)) (previous : Option T)
    {s : Place R N → Option T} {new : T} (hdestination : s .destination = none) (hstaged : s .staged = some new)
    (hfailed : s .failed = none) (hbackup : backup.map (fun path => s (.backup path)) = previous.map some) :
    Ends (do
        tryCatch (rename (e.raises .publish) .staged .destination) fun error => do
          restore e backup
          throw error
        return backup) s
      (fun backup s => s .destination = some new ∧
        backup.map (fun path => s (.backup path)) = previous.map some)
      (fun _ s => s .destination = previous ∧ s .staged = some new) ↔
    ¬ (previous.isSome ∧ e.raises .publish ∧ (e.raises .checkDestination ∨ e.raises .checkBackup)) := by
  have hsome : backup.isSome = previous.isSome := by
    cases backup <;> cases previous <;> simp_all
  rw [ends_bind, ends_tryCatch, ends_rename]
  split_ifs with hrename
  · refine iff_of_true ⟨(moved_target ..).trans hstaged, ?_⟩ fun h => ?_
    · rw [← hbackup]
      exact congrArg (backup.map ·)
        (funext fun path => moved_other s (fun h => by cases h) fun h => by cases h)
    · exact Bool.false_ne_true (hrename.1.symm.trans h.2.1)
  · have hraised : e.raises .publish = true := by
      cases hpublish : e.raises .publish with
      | true => rfl
      | false => exact (hrename ⟨hpublish, hstaged ▸ rfl, hdestination⟩).elim
    rw [ends_bind]
    by_cases hcheck : e.raises .checkDestination ∨ backup.isSome ∧ e.raises .checkBackup
    · refine (ends_restore_refused hdestination hfailed hcheck).trans ?_
      rw [hdestination]
      cases previous with
      | none => exact iff_of_true ⟨rfl, hstaged⟩ fun h => Bool.false_ne_true h.1
      | some tree =>
        refine iff_of_false (fun h => by cases h.1) (not_not_intro ⟨rfl, hraised, ?_⟩)
        exact hcheck.imp_right fun hbackup => hbackup.2
    · obtain ⟨hfirst, hsecond⟩ := not_or.mp hcheck
      refine iff_of_true (ends_restore hdestination hfailed (Bool.eq_false_of_not_eq_true hfirst)
        (fun hsome => Bool.eq_false_of_not_eq_true fun h => hsecond ⟨hsome, h⟩) fun s' hprevious hkept =>
          ⟨hprevious.trans ?_, hkept.trans hstaged⟩) fun h => ?_
      · cases backup <;> cases previous <;> simp_all
      · exact h.2.2.elim hfirst fun hbackup => hsecond ⟨hsome.trans h.1, hbackup⟩

/-- The one arrangement that the handler leaves: the installed tree is set aside, the last rename is
refused, and then one of the handler's own existence checks. -/
theorem keeps_iff (e : Environment R N) (force : Bool) (plannedBackup : Option (BackupPath R N))
    (before : Situation R N T) :
    Keeps e force plannedBackup before ↔
      ¬ (SetAside e force plannedBackup before ∧ e.raises .publish ∧
        (e.raises .checkDestination ∨ e.raises .checkBackup)) := by
  unfold Keeps atomicInstall
  rw [ends_bind, ends_attempt, ends_bind, ends_attempt, ends_bind, ends_present, ends_bind, ends_require,
    ends_bind, ends_attempt, ends_bind, ends_present]
  split_ifs with hparent hfind hforce hagain hpresent
  · exact iff_of_true ⟨rfl, rfl⟩ fun h => by simp_all [SetAside]
  · exact iff_of_true ⟨rfl, rfl⟩ fun h => by simp_all [SetAside]
  · exact iff_of_true ⟨rfl, rfl⟩ fun h => by simp_all [SetAside]
  · obtain ⟨tree, htree⟩ := Option.isSome_iff_exists.mp hpresent
    refine (ends_bind ..).trans ?_
    by_cases hmovable : Movable e before (plannedBackup.getD (planBackupPath e))
    · have hset : SetAside e force plannedBackup before := by
        refine ⟨?_, ?_, hmovable⟩
        · simp_all
        · simp_all
      refine (ends_moveToBackup hmovable).trans ((ends_publish _ before.previous
        (moved_source _ (fun h => by cases h)) (moved_other _ (fun h => by cases h) fun h => by cases h)
        (moved_other _ (fun h => by cases h) fun h => by cases h) ?_).trans ?_)
      · rw [Option.map_some, moved_target, htree]
        exact congrArg (Option.map some) htree.symm
      · exact not_congr (and_congr_left fun _ => iff_of_true hpresent hset)
    · exact iff_of_true (ends_moveToBackup_refused hmovable hpresent ⟨rfl, rfl⟩) fun h => hmovable h.1.2.2
  · have habsent : before.previous = none := Option.not_isSome_iff_eq_none.mp hpresent
    refine (ends_publish none before.previous (s := before.places) habsent rfl rfl
      (by rw [habsent]; rfl)).trans (not_congr ?_)
    exact and_congr_left fun _ => iff_of_false (fun h => hpresent h) fun h => hpresent h.2.2.2.2.2.1
  · exact iff_of_true ⟨rfl, rfl⟩ fun h => by simp_all [SetAside]

/-- The last rename is refused, and then the look at the destination: nothing is installed any more. -/
theorem installed_tree_left_in_backup :
    ¬ Keeps (R := Unit) (N := ℕ)
      ⟨(), 1, 2, fun _ _ => false, fun step => step = .publish ∨ step = .checkDestination⟩ true none
      ⟨some 1, 2, fun _ => none⟩ := by
  intro h
  have hprevious : (none : Option ℕ) = some 1 := h.1
  cases hprevious

end SubscriptionRouter.WindowsInstall
