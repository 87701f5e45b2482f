import Mathlib
import SubscriptionRouter.Installer

set_option autoImplicit false

/-!
# Failed installations

A run that fails is to leave the destination as it was. The cases below follow the build
from the patcher through the verification to the retention of the backups.
-/
namespace SubscriptionRouter.InstallerRuns
open Exceptions GoText Installer

/-! ## All or nothing -/

def situation (previous : Option Build) (backups : Option (List Container)) : Run :=
  ⟨previous.map .before, backups, [], false, none⟩

/-- A failed run leaves at the destination what was there before it. -/
def AllOrNothing (e : Environment) (previous : Option Build) (backups : Option (List Container)) :
    Prop :=
  (install e (situation previous backups)).1 ≠ 0 →
    (install e (situation previous backups)).2.destination = previous.map .before

def Succeeds (e : Environment) (step : Step) : Prop := e.fails step = none

structure UndoMovesSucceed (e : Environment) : Prop where
  setFailedAside : Succeeds e .setFailedAside
  undoSetAside : Succeeds e .undoSetAside
  moveFailed : Succeeds e .moveFailed
  moveBackup : Succeeds e .moveBackup

/-- The checks before the patcher. -/
structure Begins (e : Environment) (previous : Option Build) : Prop where
  preflight : Succeeds e .preflight
  replaceable : ∀ build, previous = some build → (e.force = true ∨ e.dryRun = true) ∧
    (e.dryRun = true ∨ e.routerRunning = false) ∧
    (e.dryRun = true ∨ (installationMarker build).isSome = true)

/-- No container has the planned name. -/
def Fresh (e : Environment) (backups : Option (List Container)) : Prop :=
  ∀ container ∈ backups.getD [], container.name ≠ e.plannedContainer

/-- The patcher moves the installed app away and its own build to the destination. -/
structure Installs (e : Environment) (previous : Option Build) (backups : Option (List Container)) :
    Prop where
  allowed : previous.isSome = true → e.force = true
  backup : previous.isSome = true →
    Succeeds e .makeContainer ∧ Succeeds e .setAside ∧ Fresh e backups
  publish : Succeeds e .publish

/-- The installed app is set aside, the build cannot be moved to its place, and one of the looks
that come before the undo moves fails. -/
structure Strands (e : Environment) (previous : Option Build) (backups : Option (List Container)) :
    Prop where
  installed : previous.isSome = true
  allowed : e.force = true
  backup : Succeeds e .makeContainer ∧ Succeeds e .setAside ∧ Fresh e backups
  publish : ¬ Succeeds e .publish
  unseen : ¬ (Succeeds e .findFailed ∧ Succeeds e .findBackup)

structure Moves (e : Environment) (previous : Option Build) (backups : Option (List Container)) : Prop
    extends Installs e previous backups where
  stage : Succeeds e .stage

structure Publishes (e : Environment) (previous : Option Build) (backups : Option (List Container)) :
    Prop where
  begins : Begins e previous
  real : e.dryRun = false
  moves : Moves e previous backups

/-- The patcher reports that it has published. -/
def Reported (e : Environment) : Prop := Succeeds e .cleanUp ∧ Succeeds e .releasePort

/-- The build at the destination is taken for one of this run. -/
structure Recognized (e : Environment) : Prop where
  test : Succeeds e .testManifest
  read : Succeeds e .readPublished
  recent : e.startedAt - 60 ≤ e.createdAtUtc
  destination : e.ignoreCase e.recordedDestination = e.ignoreCase e.destinationPath
  source : e.ignoreCase e.recordedSourceAsarSha256 = e.ignoreCase e.sourceAsarSha256

def Located (e : Environment) (previous : Option Build) : Prop :=
  previous.isSome = true → Succeeds e .findNewBackup

def SourceVerified (e : Environment) : Prop :=
  Succeeds e .fingerprint ∧ e.sourceUnchanged = true

def plannedBackup (e : Environment) (previous : Option Build) : Option GoString :=
  previous.map fun _ => e.plannedContainer

/-- The rollback is not refused. -/
structure Undoable (e : Environment) (newBackup : Option GoString) : Prop where
  testBackup : newBackup.isSome = true → Succeeds e .testBackup
  listProcesses : Succeeds e .listProcesses
  closed : e.newRouterRunning = false
  makeFailedRoot : Succeeds e .makeFailedRoot
  testDestination : Succeeds e .testDestination

/-- The backups once the patcher has published. -/
def backupsAfter (e : Environment) (previous : Option Build) (backups : Option (List Container)) :
    Option (List Container) :=
  match previous with
  | none => backups
  | some build =>
    some (backups.getD [] ++ [⟨e.plannedContainer, some (.before build), 0, e.containerTime⟩])

structure Verified (e : Environment) (backups : Option (List Container)) : Prop where
  layout : Succeeds e .layout
  selfTest : Succeeds e .selfTest
  hardenDestination : Succeeds e .hardenDestination
  hardenState : Succeeds e .hardenState
  testBackupRoot : Succeeds e .testBackupRoot
  hardenBackups : backups.isSome = true → Succeeds e .hardenBackups
  verify : Succeeds e .verify

def Removable (e : Environment) (container : Container) : Prop :=
  Succeeds e (.listContainer container.name) ∧
    (container.others = 0 → Succeeds e (.removeContainer container.name))

/-- No step of the retention fails. -/
structure Retained (e : Environment) (backups : Option (List Container)) : Prop where
  list : backups.isSome = true → Succeeds e .listBackups
  obsolete : ∀ container ∈ (backupEntries e (backups.getD [])).drop e.backupRetention,
    Removable e container
  readManifest : Succeeds e .readManifest
  writeManifest : Succeeds e .writeManifest
  getContainer : (backupEntries e (backups.getD [])).take e.backupRetention ≠ [] →
    Succeeds e .getContainer

/-- The patcher does not leave the destination empty; and once the build is published, every
later failure comes before the retention, is noticed, and finds the backup and a rollback that is
not refused. -/
structure Recovers (e : Environment) (previous : Option Build) (backups : Option (List Container)) :
    Prop where
  patcher : Begins e previous → e.dryRun = false → Succeeds e .stage → ¬ Strands e previous backups
  patch : Publishes e previous backups → ¬ (Reported e ∧ Located e previous ∧ SourceVerified e) →
    (Reported e ∨ Recognized e) ∧ Located e previous ∧ Undoable e (plannedBackup e previous)
  installed : Publishes e previous backups → Reported e ∧ Located e previous ∧ SourceVerified e →
    (¬ Verified e (backupsAfter e previous backups) → Undoable e (plannedBackup e previous)) ∧
    (Verified e (backupsAfter e previous backups) → Retained e (backupsAfter e previous backups))

/-! ## Its steps -/

theorem ends_attempt {e : Environment} {step : Step} {run : Run} {q : Unit → Run → Prop}
    {r : GoString → Run → Prop} :
    Ends (attempt e step) run q r ↔
      (Succeeds e step → q () run) ∧ (∀ error, e.fails step = some error → r error run) := by
  unfold attempt Succeeds
  cases h : e.fails step with
  | none => simp
  | some error => simp

theorem ends_ensure {condition : Bool} {error : GoString} {run : Run} {q : Unit → Run → Prop}
    {r : GoString → Run → Prop} :
    Ends (ensure condition error) run q r ↔
      (condition = true → q () run) ∧ (condition = false → r error run) := by
  unfold ensure
  cases condition <;> simp

theorem not_succeeds {e : Environment} {step : Step} {error : GoString}
    (h : e.fails step = some error) : ¬ Succeeds e step := by
  unfold Succeeds
  rw [h]
  exact Option.some_ne_none error

def published (e : Environment) (previous : Option Build) (backups : Option (List Container)) : Run :=
  ⟨some (builtTree e previous.isSome), backupsAfter e previous backups, [], false, none⟩

def asideRun (e : Environment) (previous : Option Build) (backups : Option (List Container)) : Run :=
  ⟨none, backupsAfter e previous backups, [], false, none⟩

/-- The installed app is where it was, and no new container holds an app. -/
structure Untouched (previous : Option Build) (backups : Option (List Container)) (run : Run) :
    Prop where
  destination : run.destination = previous.map .before
  patcherPublished : run.patcherPublished = false
  newBackup : run.newBackup = none
  containers : ∀ container ∈ run.containers,
    container.name ∉ (backups.getD []).map Container.name → container.app = none

theorem untouched_situation (previous : Option Build) (backups : Option (List Container)) :
    Untouched previous backups (situation previous backups) :=
  ⟨rfl, rfl, rfl, fun _ hmem hnew => absurd (List.mem_map_of_mem hmem) hnew⟩

theorem map_setApp_of_ne {containers : List Container} {name : GoString} {app : Option Tree}
    (h : ∀ container ∈ containers, container.name ≠ name) :
    (containers.map fun container =>
      if container.name = name then { container with app := app } else container) = containers := by
  conv_rhs => rw [← List.map_id containers]
  exact List.map_congr_left fun container hmem => if_neg (h container hmem)

theorem moveToBackup_ends (e : Environment) (build : Build) (backups : Option (List Container)) :
    Ends (moveToBackup e (.before build)) (situation (some build) backups)
      (fun _ run => (Succeeds e .makeContainer ∧ Succeeds e .setAside ∧ Fresh e backups) ∧
        run = asideRun e (some build) backups)
      (fun _ run => ¬ (Succeeds e .makeContainer ∧ Succeeds e .setAside ∧ Fresh e backups) ∧
        Untouched (some build) backups run) := by
  unfold moveToBackup
  simp only [ends_bind, ends_get, ends_attempt, ends_ensure, ends_modify]
  refine ⟨fun hmake => ⟨fun hfresh => ⟨fun haside => ?_, fun error herror => ?_⟩, fun htaken => ?_⟩,
    fun error herror => ?_⟩
  · have hfresh' : Fresh e backups := by simpa [Fresh, situation, Run.containers] using hfresh
    refine ⟨⟨hmake, haside, hfresh'⟩, ?_⟩
    simp only [Run.addContainer, Run.setApp, Run.containers, situation, asideRun, backupsAfter,
      Option.map_some, List.map_append, map_setApp_of_ne hfresh', List.map_cons, List.map_nil, if_true]
  · refine ⟨fun h => not_succeeds herror h.2.1, rfl, rfl, rfl, fun container hmem hnew => ?_⟩
    rcases List.mem_append.mp hmem with hmem | hmem
    · exact absurd (List.mem_map_of_mem hmem) hnew
    · rw [List.mem_singleton.mp hmem]
  · refine ⟨fun h => ?_, untouched_situation _ _⟩
    have hfresh : (situation (some build) backups).containers.all
        (·.name ≠ e.plannedContainer) = true := by
      simpa [Fresh, situation, Run.containers] using h.2.2
    rw [hfresh] at htaken
    cases htaken
  · exact ⟨fun h => not_succeeds herror h.1, untouched_situation _ _⟩

/-- The backup of the run holds the app that was installed. -/
theorem app_backupsAfter {e : Environment} {build : Build} {backups : Option (List Container)}
    (hfresh : Fresh e backups) {run : Run}
    (h : run.backups = backupsAfter e (some build) backups) :
    run.app e.plannedContainer = some (.before build) := by
  have hnone : (backups.getD []).find? (·.name = e.plannedContainer) = none := by
    rw [List.find?_eq_none]
    intro container hmem
    simpa using hfresh container hmem
  unfold Run.app Run.containers
  rw [h, backupsAfter, Option.getD_some, List.find?_append, hnone]
  simp

theorem undoInstall_none {e : Environment} {run : Run} (h : run.destination = none)
    {q : Unit → Run → Prop} {r : GoString → Run → Prop} (hq : q () run) (hr : ∀ error, r error run) :
    Ends (undoInstall e false) run q r := by
  unfold undoInstall
  rw [ends_bind, ends_attempt]
  refine ⟨fun _ => ?_, fun error _ => hr error⟩
  rw [ends_bind, ends_get, h]
  simpa using hq

theorem undoInstall_backup {e : Environment} (hundo : UndoMovesSucceed e) {build : Build}
    {backups : Option (List Container)} (hfresh : Fresh e backups) :
    Ends (undoInstall e true) (asideRun e (some build) backups)
      (fun _ run => (Succeeds e .findFailed ∧ Succeeds e .findBackup) ∧
        Untouched (some build) backups run)
      (fun _ run => ¬ (Succeeds e .findFailed ∧ Succeeds e .findBackup) ∧
        run = asideRun e (some build) backups) := by
  unfold undoInstall
  rw [ends_bind, ends_attempt]
  refine ⟨fun hfailed => ?_, fun error herror => ⟨fun h => not_succeeds herror h.1, rfl⟩⟩
  rw [ends_bind, ends_get, app_backupsAfter hfresh rfl]
  simp only [asideRun, ends_bind, if_true, ends_attempt, ends_modify]
  refine ⟨fun hbackup => ⟨fun _ => ⟨⟨hfailed, hbackup⟩, rfl, rfl, rfl, fun container hmem hnew => ?_⟩,
    fun error herror => absurd hundo.undoSetAside (not_succeeds herror)⟩,
    fun error herror => ⟨fun h => not_succeeds herror h.2, trivial⟩⟩
  simp only [Run.setApp, Run.containers, backupsAfter, Option.map_some, Option.getD_some,
    List.map_append, map_setApp_of_ne hfresh, List.map_cons, List.map_nil, if_true] at hmem
  rcases List.mem_append.mp hmem with hmem | hmem
  · exact absurd (List.mem_map_of_mem hmem) hnew
  · rw [List.mem_singleton.mp hmem]

/-- What a patcher that does not publish leaves. -/
def NotMoved (e : Environment) (previous : Option Build) (backups : Option (List Container)) (run : Run) :
    Prop :=
  (¬ Strands e previous backups ∧ Untouched previous backups run) ∨
    (Strands e previous backups ∧ run = asideRun e previous backups)

theorem atomicInstall_ends {e : Environment} (hundo : UndoMovesSucceed e) (previous : Option Build)
    (backups : Option (List Container)) :
    Ends (atomicInstall e) (situation previous backups)
      (fun _ run => Installs e previous backups ∧ run = published e previous backups)
      (fun _ run => ¬ Installs e previous backups ∧ NotMoved e previous backups run) := by
  unfold atomicInstall
  simp only [ends_bind, ends_get, ends_ensure]
  cases previous with
  | none =>
    simp only [situation, Option.map_none, Option.isSome_none, ends_bind, ends_tryCatch,
      ends_attempt, ends_modify, ends_throw]
    refine ⟨fun _ => ⟨fun hpublish => ⟨⟨(fun h => by cases h), (fun h => by cases h), hpublish⟩, rfl⟩,
      fun error herror => ?_⟩, fun h => by cases h⟩
    have hnot : ¬ Installs e none backups := fun h => not_succeeds herror h.publish
    have hleft : NotMoved e none backups (situation none backups) :=
      .inl ⟨fun h => (by cases h.installed), untouched_situation none backups⟩
    exact undoInstall_none rfl ⟨hnot, hleft⟩ fun _ => ⟨hnot, hleft⟩
  | some build =>
    simp only [situation, Option.map_some, Option.isSome_some, ends_bind, ends_tryCatch,
      ends_attempt, ends_modify, ends_throw]
    refine ⟨fun hforce => ?_, fun hforce => ⟨fun h => ?_, .inl ⟨fun h => ?_,
      untouched_situation (some build) backups⟩⟩⟩
    · refine (moveToBackup_ends e build backups).mono (fun _ run hmoved => ?_) fun _ run hfailed =>
        ⟨fun h => hfailed.1 (h.backup rfl), .inl ⟨fun h => hfailed.1 h.backup, hfailed.2⟩⟩
      obtain ⟨hbackup, rfl⟩ := hmoved
      have hallowed : e.force = true := by simpa using hforce
      refine ⟨fun hpublish => ⟨⟨fun _ => hallowed, fun _ => hbackup, hpublish⟩, rfl⟩,
        fun error herror => ?_⟩
      have hnot : ¬ Installs e (some build) backups := fun h => not_succeeds herror h.publish
      refine (undoInstall_backup hundo hbackup.2.2).mono (fun _ run hundone => ?_) fun _ run hrefused => ?_
      · exact ⟨hnot, .inl ⟨fun h => h.unseen hundone.1, hundone.2⟩⟩
      · exact ⟨hnot, .inr ⟨⟨rfl, hallowed, hbackup, not_succeeds herror, hrefused.1⟩, hrefused.2⟩⟩
    · rw [h.allowed rfl] at hforce
      cases hforce
    · rw [h.allowed] at hforce
      cases hforce

/-- What a patcher process that has not published leaves. -/
def Unpublished (e : Environment) (previous : Option Build) (backups : Option (List Container))
    (run : Run) : Prop :=
  ((Succeeds e .stage → ¬ Strands e previous backups) ∧ Untouched previous backups run) ∨
    (Succeeds e .stage ∧ Strands e previous backups ∧ run = asideRun e previous backups)

theorem patcher_ends {e : Environment} (hundo : UndoMovesSucceed e) (hreal : e.dryRun = false)
    (previous : Option Build) (backups : Option (List Container)) :
    Ends (patcher e) (situation previous backups)
      (fun _ run => Moves e previous backups ∧ Succeeds e .cleanUp ∧
        run = published e previous backups)
      (fun _ run => (¬ Moves e previous backups ∧ Unpublished e previous backups run) ∨
        (Moves e previous backups ∧ ¬ Succeeds e .cleanUp ∧ run = published e previous backups)) := by
  unfold patcher
  rw [hreal]
  simp only [ends_bind, ends_attempt, Bool.false_eq_true, if_false]
  refine ⟨fun hstage => ?_, fun error herror => .inl ⟨fun h => not_succeeds herror h.stage,
    .inl ⟨fun h => absurd h (not_succeeds herror), untouched_situation previous backups⟩⟩⟩
  refine (atomicInstall_ends hundo previous backups).mono (fun _ run hdone => ?_) fun _ run hfailed =>
    .inl ⟨fun h => hfailed.1 h.toInstalls, ?_⟩
  case refine_2 =>
    rcases hfailed.2 with ⟨hnot, huntouched⟩ | ⟨hstrands, haside⟩
    · exact .inl ⟨fun _ => hnot, huntouched⟩
    · exact .inr ⟨hstage, hstrands, haside⟩
  obtain ⟨hinstalls, rfl⟩ := hdone
  have hmoves : Moves e previous backups := ⟨hinstalls, hstage⟩
  exact ⟨fun hclean => ⟨hmoves, hclean, rfl⟩,
    fun error herror => .inr ⟨hmoves, not_succeeds herror, rfl⟩⟩

theorem patcher_dryRun {e : Environment} (hdry : e.dryRun = true) (run : Run) :
    Ends (patcher e) run (fun _ run' => run' = run) (fun _ run' => run' = run) := by
  unfold patcher
  rw [hdry]
  simp only [ends_bind, ends_attempt, if_true, ends_pure]
  exact ⟨fun _ => trivial, fun _ _ => trivial⟩

/-! ## Finding the backup -/

theorem mem_newestFirst {containers : List Container} {container : Container} :
    container ∈ newestFirst containers ↔ container ∈ containers :=
  List.mem_insertionSort _

theorem installationMarker_mem {build : Build} {marker : GoString × GoString}
    (h : installationMarker build = some marker) : build.files[marker.1]? = some marker.2 := by
  obtain ⟨path, _, hpath⟩ := List.exists_of_findSome?_eq_some h
  obtain ⟨sha256, hfile, rfl⟩ := Option.map_eq_some_iff.mp hpath
  exact hfile

theorem findNewBackupDirectory_ends {e : Environment} {build : Build}
    {backups : Option (List Container)} (hfresh : Fresh e backups) {marker : GoString × GoString}
    (hmarker : installationMarker build = some marker) {run : Run}
    (hrun : run.backups = backupsAfter e (some build) backups) :
    Ends (findNewBackupDirectory e ((backups.getD []).map Container.name) (some marker)) run
      (fun found run' => Succeeds e .findNewBackup ∧ found = some e.plannedContainer ∧ run' = run)
      (fun _ run' => ¬ Succeeds e .findNewBackup ∧ run' = run) := by
  unfold findNewBackupDirectory
  simp only [ends_bind, ends_attempt, ends_get, ends_pure]
  refine ⟨fun hfind => ⟨hfind, ?_, trivial⟩, fun error herror => ⟨not_succeeds herror, trivial⟩⟩
  have hnew : run.containers.filter (fun container =>
      container.name ∉ (backups.getD []).map Container.name) =
        [⟨e.plannedContainer, some (.before build), 0, e.containerTime⟩] := by
    have hold : (backups.getD []).filter (fun container =>
        container.name ∉ (backups.getD []).map Container.name) = [] := by
      rw [List.filter_eq_nil_iff]
      intro container hmem
      simpa using ⟨container, hmem, rfl⟩
    have hplanned : e.plannedContainer ∉ (backups.getD []).map Container.name := by
      intro hmem
      obtain ⟨container, hcontainer, hname⟩ := List.mem_map.mp hmem
      exact hfresh container hcontainer hname
    rw [Run.containers, hrun, backupsAfter, Option.getD_some, List.filter_append, hold,
      List.nil_append, List.filter_cons, if_pos (by simpa using hplanned), List.filter_nil]
  rw [hnew]
  simp [newestFirst, Tree.build, installationMarker_mem hmarker]

/-- A new container without an app is not taken for the backup. -/
theorem findNewBackupDirectory_none {e : Environment} {existing : List GoString} {run : Run}
    (h : ∀ container ∈ run.containers, container.name ∉ existing → container.app = none)
    (marker : Option (GoString × GoString)) :
    Ends (findNewBackupDirectory e existing marker) run
      (fun found run' => found = none ∧ run' = run) (fun _ run' => run' = run) := by
  unfold findNewBackupDirectory
  simp only [ends_bind, ends_attempt, ends_get, ends_pure]
  refine ⟨fun _ => ⟨?_, trivial⟩, fun _ _ => trivial⟩
  cases marker with
  | none => rfl
  | some marker =>
    rw [Option.bind_some, Option.map_eq_none_iff, List.find?_eq_none]
    intro container hmem
    obtain ⟨hcontainer, hnew⟩ := List.mem_filter.mp (mem_newestFirst.mp hmem)
    rw [h container hcontainer (by simpa using hnew)]
    simp

/-! ## Publishing -/

/-- The run once the installer knows that the patcher has published. -/
def noted (e : Environment) (previous : Option Build) (backups : Option (List Container))
    (newBackup : Option GoString) : Run :=
  { published e previous backups with patcherPublished := true, newBackup := newBackup }

def PatchSucceeds (e : Environment) (previous : Option Build) : Prop :=
  Reported e ∧ Located e previous ∧ SourceVerified e

/-- What a failure leaves once the patcher has published. -/
inductive LeftBehind (e : Environment) (previous : Option Build) (backups : Option (List Container)) :
    Run → Prop where
  | unreported (h : ¬ Reported e) : LeftBehind e previous backups (published e previous backups)
  | unlocated (h : Reported e) (hsearch : ¬ Located e previous) :
      LeftBehind e previous backups (noted e previous backups none)
  | located (h : Reported e) (hsearch : Located e previous) :
      LeftBehind e previous backups (noted e previous backups (plannedBackup e previous))

/-- The search for the backup, which is made only when there was an installation. -/
theorem noteBackup_ends {e : Environment} {previous : Option Build}
    {backups : Option (List Container)} (hmoves : Moves e previous backups)
    {marker : Option (GoString × GoString)}
    (hmarker : ∀ build, previous = some build →
      marker.isSome = true ∧ marker = installationMarker build) :
    Ends (if previous.isSome = true then do
        let newBackup ← findNewBackupDirectory e ((backups.getD []).map Container.name) marker
        modify fun run => { run with newBackup := newBackup }
      else pure ()) (noted e previous backups none)
      (fun _ run => Located e previous ∧
        run = noted e previous backups (plannedBackup e previous))
      (fun _ run => ¬ Located e previous ∧ run = noted e previous backups none) := by
  cases previous with
  | none =>
    rw [if_neg (by simp), ends_pure]
    exact ⟨nofun, rfl⟩
  | some build =>
    obtain ⟨hsome, rfl⟩ := hmarker build rfl
    obtain ⟨marker, hmarker⟩ := Option.isSome_iff_exists.mp hsome
    rw [if_pos (by simp), ends_bind, hmarker]
    refine (findNewBackupDirectory_ends (hmoves.backup rfl).2.2 hmarker rfl).mono
      (fun _ run hfound => ?_) fun _ run hlost => ?_
    · obtain ⟨hfind, rfl, rfl⟩ := hfound
      rw [ends_modify]
      exact ⟨fun _ => hfind, rfl⟩
    · obtain ⟨hfind, rfl⟩ := hlost
      exact ⟨fun h => hfind (h rfl), rfl⟩

theorem assertSourceUnchanged_ends (e : Environment) (run : Run) :
    Ends (assertSourceUnchanged e) run (fun _ run' => SourceVerified e ∧ run' = run)
      (fun _ run' => ¬ SourceVerified e ∧ run' = run) := by
  unfold assertSourceUnchanged
  simp only [ends_bind, ends_attempt, ends_ensure]
  refine ⟨fun hread => ⟨fun hsame => ⟨⟨hread, hsame⟩, trivial⟩, fun hchanged => ⟨fun h => ?_, trivial⟩⟩,
    fun _ herror => ⟨fun h => not_succeeds herror h.1, trivial⟩⟩
  rw [h.2] at hchanged
  cases hchanged

/-- After the source check a failure is still a failure. -/
theorem assertSourceUnchanged_any {e : Environment} {run : Run} {p : Run → Prop} (h : p run) :
    Ends (assertSourceUnchanged e) run (fun _ run => p run) (fun _ run => p run) :=
  (assertSourceUnchanged_ends e run).mono (fun _ _ he => he.2 ▸ h) fun _ _ he => he.2 ▸ h

theorem publish_dryRun {e : Environment} (hdry : e.dryRun = true) (previous : Option Build)
    (backups : Option (List Container)) (hadPrevious : Bool) (existing : List GoString)
    (marker : Option (GoString × GoString)) :
    Ends (publish e hadPrevious existing marker) (situation previous backups)
      (fun _ run => Untouched previous backups run) (fun _ run => Untouched previous backups run) := by
  unfold publish
  have hstart := untouched_situation previous backups
  simp only [ends_tryFinally, ends_bind, ends_modify, hdry, Bool.not_true, Bool.false_and,
    Bool.false_eq_true, if_false, ends_pure]
  refine (patcher_dryRun hdry _).mono (fun _ run he => ?_) fun _ run he => ?_
  · rw [he, ends_attempt]
    exact ⟨fun _ => assertSourceUnchanged_any ⟨hstart.destination, rfl, hstart.newBackup,
      hstart.containers⟩,
      fun _ _ => assertSourceUnchanged_any hstart⟩
  · rw [he, ends_attempt]
    exact ⟨fun _ => assertSourceUnchanged_any hstart, fun _ _ => assertSourceUnchanged_any hstart⟩

theorem publish_ends {e : Environment} (hundo : UndoMovesSucceed e) (hreal : e.dryRun = false)
    (previous : Option Build) (backups : Option (List Container))
    {marker : Option (GoString × GoString)}
    (hmarker : ∀ build, previous = some build →
      marker.isSome = true ∧ marker = installationMarker build) :
    Ends (publish e previous.isSome ((backups.getD []).map Container.name) marker)
      (situation previous backups)
      (fun _ run => Moves e previous backups ∧ PatchSucceeds e previous ∧
        run = noted e previous backups (plannedBackup e previous))
      (fun _ run => (¬ Moves e previous backups ∧ Unpublished e previous backups run) ∨
        (Moves e previous backups ∧ ¬ PatchSucceeds e previous ∧
          LeftBehind e previous backups run)) := by
  unfold publish
  simp only [ends_tryFinally, ends_bind, ends_modify, hreal, Bool.not_false, Bool.true_and]
  refine (patcher_ends hundo hreal previous backups).mono (fun _ run hdone => ?_) fun _ run hfailed => ?_
  · obtain ⟨hmoves, hclean, rfl⟩ := hdone
    rw [ends_attempt]
    refine ⟨fun hrelease => ?_, fun error herror => assertSourceUnchanged_any (.inr ⟨hmoves,
      fun h => not_succeeds herror h.1.2, .unreported fun h => not_succeeds herror h.2⟩)⟩
    have hreported : Reported e := ⟨hclean, hrelease⟩
    refine (noteBackup_ends hmoves hmarker).mono (fun _ run hfound => ?_) fun _ run hlost => ?_
    · obtain ⟨hlocated, rfl⟩ := hfound
      refine (assertSourceUnchanged_ends e _).mono (fun _ run hsource => ?_) fun _ run hsource => ?_
      · obtain ⟨hsource, rfl⟩ := hsource
        exact ⟨hmoves, ⟨hreported, hlocated, hsource⟩, rfl⟩
      · obtain ⟨hsource, rfl⟩ := hsource
        exact .inr ⟨hmoves, fun h => hsource h.2.2, .located hreported hlocated⟩
    · obtain ⟨hlost, rfl⟩ := hlost
      exact assertSourceUnchanged_any
        (.inr ⟨hmoves, fun h => hlost h.2.1, .unlocated hreported hlost⟩)
  · rw [ends_attempt]
    rcases hfailed with ⟨hmoves, huntouched⟩ | ⟨hmoves, hclean, rfl⟩
    · exact ⟨fun _ => assertSourceUnchanged_any (.inl ⟨hmoves, huntouched⟩),
        fun _ _ => assertSourceUnchanged_any (.inl ⟨hmoves, huntouched⟩)⟩
    · have hleft : LeftBehind e previous backups (published e previous backups) :=
        .unreported fun h => hclean h.1
      have hfails : ¬ PatchSucceeds e previous := fun h => hclean h.1.1
      exact ⟨fun _ => assertSourceUnchanged_any (.inr ⟨hmoves, hfails, hleft⟩),
        fun _ _ => assertSourceUnchanged_any (.inr ⟨hmoves, hfails, hleft⟩)⟩

/-! ## Rolling back -/

def Ready (e : Environment) (hadPrevious : Bool) (run : Run) : Prop :=
  (hadPrevious = true → (run.newBackup.bind run.app).isSome = true) ∧ Undoable e run.newBackup

theorem preserveFailedBuild_ends {e : Environment} (hundo : UndoMovesSucceed e) (run : Run) :
    Ends (preserveFailedBuild e) run (fun _ run' => run'.destination = none) (fun _ _ => False) := by
  unfold preserveFailedBuild
  rw [ends_bind, ends_get]
  cases hdestination : run.destination with
  | none => exact hdestination
  | some tree =>
    simp only [ends_bind, ends_attempt, ends_modify]
    exact ⟨fun _ => trivial, fun _ herror => absurd hundo.moveFailed (not_succeeds herror)⟩

theorem restoreBackup_ends {e : Environment} (hundo : UndoMovesSucceed e) {run : Run}
    (h : run.destination = none) (newBackup : Option GoString) (app : GoString → Option Tree) :
    Ends (restoreBackup e newBackup (newBackup.bind app)) run
      (fun _ run' => run'.destination = newBackup.bind app) (fun _ _ => False) := by
  cases newBackup with
  | none => exact h
  | some name =>
    rw [Option.bind_some]
    cases happ : app name with
    | none => exact h
    | some tree =>
      unfold restoreBackup
      simp only [ends_bind, ends_attempt, ends_modify]
      exact ⟨fun _ => trivial, fun _ herror => absurd hundo.moveBackup (not_succeeds herror)⟩

theorem findBackupApp_ends (e : Environment) (newBackup : Option GoString) (run : Run) :
    Ends (findBackupApp e newBackup) run
      (fun app run' => (newBackup.isSome = true → Succeeds e .testBackup) ∧
        app = newBackup.bind run.app ∧ run' = run)
      (fun _ run' => ¬ (newBackup.isSome = true → Succeeds e .testBackup) ∧ run' = run) := by
  cases newBackup with
  | none => exact ⟨(fun h => by cases h), rfl, rfl⟩
  | some name =>
    unfold findBackupApp
    simp only [ends_bind, ends_attempt, ends_get, ends_pure]
    exact ⟨fun htest => ⟨fun _ => htest, rfl, trivial⟩,
      fun _ herror => ⟨fun h => not_succeeds herror (h rfl), trivial⟩⟩

theorem restorePreviousInstallation_ends {e : Environment} (hundo : UndoMovesSucceed e)
    (hadPrevious : Bool) (run : Run) :
    Ends (restorePreviousInstallation e hadPrevious) run
      (fun _ run' => Ready e hadPrevious run ∧
        run'.destination = run.newBackup.bind run.app)
      (fun _ run' => ¬ Ready e hadPrevious run ∧ run' = run) := by
  unfold restorePreviousInstallation
  rw [ends_bind, ends_get, ends_bind]
  refine (findBackupApp_ends e run.newBackup run).mono (fun backupApp run' hbackup => ?_)
    fun _ run' hrefused => ⟨fun h => hrefused.1 h.2.testBackup, hrefused.2⟩
  obtain ⟨htest, rfl, rfl⟩ := hbackup
  rw [ends_bind, ends_ensure]
  refine ⟨fun hfound => ?_, fun hlost => ⟨fun h => ?_, rfl⟩⟩
  · rw [ends_bind, ends_attempt]
    refine ⟨fun hlist => ?_, fun _ herror => ⟨fun h => not_succeeds herror h.2.listProcesses, rfl⟩⟩
    rw [ends_bind, ends_ensure]
    refine ⟨fun hclosed => ?_, fun hopen => ⟨fun h => ?_, rfl⟩⟩
    · rw [ends_bind, ends_attempt]
      refine ⟨fun hroot => ?_, fun _ herror => ⟨fun h => not_succeeds herror h.2.makeFailedRoot, rfl⟩⟩
      rw [ends_bind, ends_attempt]
      refine ⟨fun hstands => ?_, fun _ herror => ⟨fun h => not_succeeds herror h.2.testDestination, rfl⟩⟩
      have hready : Ready e hadPrevious run' := by
        refine ⟨fun hhad => ?_, htest, hlist, by simpa using hclosed, hroot, hstands⟩
        rw [hhad] at hfound
        simpa [Option.isSome_iff_ne_none] using hfound
      rw [ends_bind]
      refine (preserveFailedBuild_ends hundo run').mono (fun _ moved hmoved => ?_) fun _ _ h => h.elim
      exact (restoreBackup_ends hundo hmoved run'.newBackup run'.app).mono
        (fun _ _ hrestored => ⟨hready, hrestored⟩) fun _ _ h => h.elim
    · rw [h.2.closed] at hopen
      cases hopen
  · cases hadPrevious with
    | false => cases hlost
    | true =>
      have happ := h.1 rfl
      rw [Option.isSome_iff_ne_none] at happ
      simp [happ] at hlost

/-- A build of this run stands at the destination. -/
def BuildLeft (run : Run) : Prop := ∃ build, run.destination = some (.built build)

theorem BuildLeft.changed {run : Run} (h : BuildLeft run) (previous : Option Build) :
    run.destination ≠ previous.map .before := by
  obtain ⟨build, hbuild⟩ := h
  rw [hbuild]
  cases previous with
  | none => exact Option.some_ne_none _
  | some old => exact fun h => by cases h

theorem rollBackPatch_ends {e : Environment} (hundo : UndoMovesSucceed e) (hadPrevious : Bool)
    (patchFailure : GoString) (run : Run) :
    Ends (rollBackPatch e hadPrevious patchFailure) run (fun _ _ => False)
      (fun _ run' => (Ready e hadPrevious run ∧
          run'.destination = run.newBackup.bind run.app) ∨
        (¬ Ready e hadPrevious run ∧ run' = run)) := by
  unfold rollBackPatch
  rw [ends_tryCatch, ends_bind]
  refine (restorePreviousInstallation_ends hundo hadPrevious run).mono (fun _ run' h => ?_)
    fun error run' h => ?_
  · rw [ends_throw, ends_ite]
    exact ⟨fun _ => .inl h, fun _ => .inl h⟩
  · rw [ends_ite]
    exact ⟨fun _ => .inr h, fun _ => .inr h⟩

theorem recognizePublished_untouched {e : Environment} {previous : Option Build}
    {backups : Option (List Container)} {run : Run} (h : Untouched previous backups run)
    (marker : Option (GoString × GoString)) :
    Ends (recognizePublished e previous.isSome ((backups.getD []).map Container.name) marker) run
      (fun _ run' => run'.destination = previous.map .before ∧ run'.newBackup = none)
      (fun _ run' => run'.destination = previous.map .before) := by
  have hend := h.destination
  unfold recognizePublished
  rw [ends_bind, ends_get, ends_ite]
  refine ⟨fun _ => ?_, fun _ => ⟨hend, h.newBackup⟩⟩
  unfold testDestinationPublishedThisRun
  simp only [ends_bind, ends_attempt, ends_get, ends_pure]
  refine ⟨fun _ => ?_, fun _ _ => hend⟩
  rw [ends_ite]
  refine ⟨fun _ => ?_, fun _ => ⟨hend, h.newBackup⟩⟩
  rw [ends_bind, ends_modify, ends_ite]
  refine ⟨fun _ => ?_, fun _ => ⟨hend, h.newBackup⟩⟩
  rw [ends_bind]
  have hcontainers : ∀ container ∈ ({ run with patcherPublished := true } : Run).containers,
      container.name ∉ (backups.getD []).map Container.name → container.app = none := h.containers
  have hfind := findNewBackupDirectory_none (e := e) hcontainers marker
  refine hfind.mono (fun found run' hfound => ?_) fun _ run' he => ?_
  · rw [ends_modify, hfound.2, hfound.1]
    exact ⟨hend, rfl⟩
  · rw [he]
    exact hend

theorem handlePatchFailure_untouched {e : Environment} (hundo : UndoMovesSucceed e)
    {previous : Option Build} {backups : Option (List Container)} {run : Run}
    (h : Untouched previous backups run) (marker : Option (GoString × GoString))
    (patchFailure : GoString) :
    Ends (handlePatchFailure e previous.isSome ((backups.getD []).map Container.name) marker
        patchFailure) run
      (fun _ _ => False) (fun _ run' => run'.destination = previous.map .before) := by
  unfold handlePatchFailure
  rw [ends_bind]
  refine (recognizePublished_untouched h marker).mono (fun _ run' hrun' => ?_) fun _ _ hrun' => hrun'
  rw [ends_bind, ends_get, ends_ite]
  refine ⟨fun _ => ?_, fun _ => hrun'.1⟩
  refine (rollBackPatch_ends hundo _ patchFailure run').mono (fun _ _ h => h) fun _ run'' hend => ?_
  rcases hend with ⟨hready, hrestored⟩ | ⟨_, rfl⟩
  · have hnone : run'.newBackup.bind run'.app = none := by rw [hrun'.2, Option.bind_none]
    rw [hrestored, hnone]
    cases previous with
    | none => rfl
    | some build => exact absurd (hready.1 rfl) (by simp [hnone])
  · exact hrun'.1

theorem handlePatchFailure_aside {e : Environment} {previous : Option Build}
    {backups : Option (List Container)} (hadPrevious : Bool) (existing : List GoString)
    (marker : Option (GoString × GoString)) (patchFailure : GoString) :
    Ends (handlePatchFailure e hadPrevious existing marker patchFailure) (asideRun e previous backups)
      (fun _ _ => False) (fun _ run' => run'.destination = none) := by
  have hnot : publishedThisRun e (asideRun e previous backups) = false := rfl
  unfold handlePatchFailure recognizePublished testDestinationPublishedThisRun
  simp only [ends_bind, ends_get, ends_ite, ends_attempt, ends_pure, hnot, Bool.false_eq_true]
  simp [asideRun]

theorem testDestinationPublishedThisRun_ends {e : Environment} {previous : Option Build}
    {backups : Option (List Container)} :
    Ends (testDestinationPublishedThisRun e) (published e previous backups)
      (fun recognized run => (recognized = true ↔ Recognized e) ∧ run = published e previous backups)
      (fun _ run => ¬ Recognized e ∧ run = published e previous backups) := by
  unfold testDestinationPublishedThisRun
  simp only [ends_bind, ends_attempt, ends_get, ends_pure]
  refine ⟨fun htest => ⟨?_, trivial⟩, fun _ herror => ⟨fun h => not_succeeds herror h.test, trivial⟩⟩
  simp only [publishedThisRun, published, builtTree, Tree.build, Option.bind_some, Bool.and_eq_true,
    decide_eq_true_eq, Option.isNone_iff_eq_none]
  exact ⟨fun h => ⟨htest, h.1.1.1, h.1.1.2, h.1.2, h.2⟩,
    fun h => ⟨⟨⟨h.read, h.recent⟩, h.destination⟩, h.source⟩⟩

/-- What the handler knows when it comes to roll back. -/
inductive Noticed (e : Environment) (previous : Option Build) (backups : Option (List Container)) :
    Run → Prop where
  | unnoticed (h : ¬ (Reported e ∨ Recognized e)) :
      Noticed e previous backups (published e previous backups)
  | unlocated (hsearch : ¬ Located e previous) :
      Noticed e previous backups (noted e previous backups none)
  | located (h : Reported e ∨ Recognized e) (hsearch : Located e previous) :
      Noticed e previous backups (noted e previous backups (plannedBackup e previous))

theorem recognizePublished_ends {e : Environment} {previous : Option Build}
    {backups : Option (List Container)} (hmoves : Moves e previous backups) {run : Run}
    (h : LeftBehind e previous backups run) (hreal : e.dryRun = false)
    {marker : Option (GoString × GoString)}
    (hmarker : ∀ build, previous = some build →
      marker.isSome = true ∧ marker = installationMarker build) :
    Ends (recognizePublished e previous.isSome ((backups.getD []).map Container.name) marker) run
      (fun _ run' => Noticed e previous backups run')
      (fun _ run' => ¬ ((Reported e ∨ Recognized e) ∧ Located e previous) ∧ BuildLeft run') := by
  unfold recognizePublished
  rw [ends_bind, ends_get, hreal]
  cases h with
  | unlocated hreported hsearch => exact .unlocated hsearch
  | located hreported hsearch => exact .located (.inl hreported) hsearch
  | unreported hunreported =>
    rw [ends_ite]
    refine ⟨fun _ => ?_, fun h => absurd rfl h⟩
    rw [ends_bind]
    refine testDestinationPublishedThisRun_ends.mono (fun recognized run htest => ?_) fun _ run htest => ?_
    · obtain ⟨htest, rfl⟩ := htest
      rw [ends_ite]
      refine ⟨fun hyes => ?_, fun hno => .unnoticed fun h => h.elim hunreported fun h => hno (htest.mpr h)⟩
      rw [ends_bind, ends_modify]
      refine (noteBackup_ends hmoves hmarker).mono (fun _ run hfound => ?_) fun _ run hlost => ?_
      · obtain ⟨hlocated, rfl⟩ := hfound
        exact .located (.inr (htest.mp hyes)) hlocated
      · obtain ⟨hlost, rfl⟩ := hlost
        exact ⟨fun h => hlost h.2, _, rfl⟩
    · obtain ⟨hnot, rfl⟩ := htest
      exact ⟨fun h => h.1.elim hunreported hnot, _, rfl⟩

/-- Once the build is published, the backup is what was installed. -/
theorem app_plannedBackup {e : Environment} {previous : Option Build}
    {backups : Option (List Container)} (hmoves : Moves e previous backups)
    (newBackup : Option GoString) :
    (plannedBackup e previous).bind (noted e previous backups newBackup).app =
      previous.map .before := by
  cases previous with
  | none => rfl
  | some build => exact app_backupsAfter (hmoves.backup rfl).2.2 rfl

/-- With its backup found, a build can be replaced unless the rollback is refused. -/
theorem ready_plannedBackup {e : Environment} {previous : Option Build}
    {backups : Option (List Container)} (hmoves : Moves e previous backups) :
    Ready e previous.isSome (noted e previous backups (plannedBackup e previous)) ↔
      Undoable e (plannedBackup e previous) := by
  have happ := app_plannedBackup hmoves (plannedBackup e previous)
  refine and_iff_right fun hhad => ?_
  exact (congrArg Option.isSome happ).trans (Option.isSome_map.trans hhad)

theorem handlePatchFailure_ends {e : Environment} (hundo : UndoMovesSucceed e)
    {previous : Option Build} {backups : Option (List Container)} (hmoves : Moves e previous backups)
    {run : Run} (h : LeftBehind e previous backups run) (hreal : e.dryRun = false)
    {marker : Option (GoString × GoString)}
    (hmarker : ∀ build, previous = some build →
      marker.isSome = true ∧ marker = installationMarker build) (patchFailure : GoString) :
    Ends (handlePatchFailure e previous.isSome ((backups.getD []).map Container.name) marker
        patchFailure) run
      (fun _ _ => False)
      (fun _ run' => ((Reported e ∨ Recognized e) ∧ Located e previous ∧
        Undoable e (plannedBackup e previous) ∧
          run'.destination = previous.map .before) ∨
        (¬ ((Reported e ∨ Recognized e) ∧ Located e previous ∧
          Undoable e (plannedBackup e previous)) ∧ BuildLeft run')) := by
  unfold handlePatchFailure
  rw [ends_bind]
  refine (recognizePublished_ends hmoves h hreal hmarker).mono (fun _ run' hnoticed => ?_)
    fun _ run' hlost => .inr ⟨fun h => hlost.1 ⟨h.1, h.2.1⟩, hlost.2⟩
  rw [ends_bind, ends_get, ends_ite]
  cases hnoticed with
  | unnoticed hnot => exact ⟨nofun, fun _ => .inr ⟨fun h => hnot h.1, _, rfl⟩⟩
  | unlocated hsearch =>
    refine ⟨fun _ => ?_, fun h => absurd rfl h⟩
    refine (rollBackPatch_ends hundo _ patchFailure _).mono (fun _ _ h => h) fun _ run'' hend => ?_
    have hhad : previous.isSome = true := by
      by_contra hnone
      exact hsearch fun h => absurd h hnone
    rcases hend with ⟨hready, _⟩ | ⟨_, rfl⟩
    · exact absurd (hready.1 hhad) (by simp [noted])
    · exact .inr ⟨fun h => hsearch h.2.1, _, rfl⟩
  | located hnoticed hsearch =>
    refine ⟨fun _ => ?_, fun h => absurd rfl h⟩
    refine (rollBackPatch_ends hundo _ patchFailure _).mono (fun _ _ h => h) fun _ run'' hend => ?_
    have happ := app_plannedBackup hmoves (plannedBackup e previous)
    have hundoable := ready_plannedBackup hmoves
    rcases hend with ⟨hready, hrestored⟩ | ⟨hready, rfl⟩
    · exact .inl ⟨hnoticed, hsearch, hready.2, hrestored.trans happ⟩
    · exact .inr ⟨fun h => hready (hundoable.mpr h.2.2), _, rfl⟩

/-! ## After the patcher -/

theorem checkInstalled_ends (e : Environment) (run : Run) :
    Ends (checkInstalled e) run (fun _ run' => Verified e run.backups ∧ run' = run)
      (fun _ run' => ¬ Verified e run.backups ∧ run' = run) := by
  unfold checkInstalled
  rw [ends_bind, ends_attempt]
  refine ⟨fun hlayout => ?_, fun _ herror => ⟨fun h => not_succeeds herror h.layout, rfl⟩⟩
  rw [ends_bind, ends_attempt]
  refine ⟨fun htest => ?_, fun _ herror => ⟨fun h => not_succeeds herror h.selfTest, rfl⟩⟩
  rw [ends_bind, ends_attempt]
  refine ⟨fun hdestination => ?_,
    fun _ herror => ⟨fun h => not_succeeds herror h.hardenDestination, rfl⟩⟩
  rw [ends_bind, ends_attempt]
  refine ⟨fun hstate => ?_, fun _ herror => ⟨fun h => not_succeeds herror h.hardenState, rfl⟩⟩
  rw [ends_bind, ends_attempt]
  refine ⟨fun hroot => ?_, fun _ herror => ⟨fun h => not_succeeds herror h.testBackupRoot, rfl⟩⟩
  have hverify : (run.backups.isSome = true → Succeeds e .hardenBackups) →
      Ends (attempt e .verify) run (fun _ run' => Verified e run.backups ∧ run' = run)
        (fun _ run' => ¬ Verified e run.backups ∧ run' = run) := by
    intro hbackups
    rw [ends_attempt]
    exact ⟨fun hverify => ⟨⟨hlayout, htest, hdestination, hstate, hroot, hbackups, hverify⟩, rfl⟩,
      fun _ herror => ⟨fun h => not_succeeds herror h.verify, rfl⟩⟩
  rw [ends_bind, ends_get, ends_ite]
  refine ⟨fun hsome => ?_, fun hnone => hverify fun h => absurd h hnone⟩
  rw [ends_bind, ends_attempt]
  exact ⟨fun hbackups => hverify fun _ => hbackups,
    fun _ herror => ⟨fun h => not_succeeds herror (h.hardenBackups hsome), rfl⟩⟩

theorem verifyInstalled_ends {e : Environment} (hundo : UndoMovesSucceed e)
    {previous : Option Build} {backups : Option (List Container)}
    (hmoves : Moves e previous backups) :
    Ends (verifyInstalled e previous.isSome) (noted e previous backups (plannedBackup e previous))
      (fun _ run => Verified e (backupsAfter e previous backups) ∧
        run = noted e previous backups (plannedBackup e previous))
      (fun _ run => ¬ Verified e (backupsAfter e previous backups) ∧
        ((Undoable e (plannedBackup e previous) ∧ run.destination = previous.map .before) ∨
          (¬ Undoable e (plannedBackup e previous) ∧ BuildLeft run))) := by
  unfold verifyInstalled
  rw [ends_tryCatch]
  refine (checkInstalled_ends e _).mono (fun _ _ h => h) fun failure run hfailed => ?_
  obtain ⟨hunverified, rfl⟩ := hfailed
  have happ := app_plannedBackup hmoves (plannedBackup e previous)
  rw [ends_bind, ends_tryCatch]
  refine (restorePreviousInstallation_ends hundo _ _).mono (fun _ run hrestored => ?_)
    fun error run hrefused => ?_
  · exact ⟨hunverified, .inl ⟨hrestored.1.2, hrestored.2.trans happ⟩⟩
  · obtain ⟨hready, rfl⟩ := hrefused
    have hundoable := ready_plannedBackup hmoves
    exact ⟨hunverified, .inr ⟨fun h => hready (hundoable.mpr h), _, rfl⟩⟩

theorem removeObsolete_ends (e : Environment) (containers : List Container) (run : Run) :
    Ends (removeObsolete e containers) run
      (fun _ run' => (∀ container ∈ containers, Removable e container) ∧
        run'.destination = run.destination)
      (fun _ run' => ¬ (∀ container ∈ containers, Removable e container) ∧
        run'.destination = run.destination) := by
  induction containers generalizing run with
  | nil => exact ⟨nofun, rfl⟩
  | cons container rest ih =>
    have hrest : ∀ next : Run, next.destination = run.destination → Removable e container →
        Ends (removeObsolete e rest) next
          (fun _ run' => (∀ other ∈ container :: rest, Removable e other) ∧
            run'.destination = run.destination)
          (fun _ run' => ¬ (∀ other ∈ container :: rest, Removable e other) ∧
            run'.destination = run.destination) := by
      intro next hnext hremovable
      refine (ih next).mono (fun _ _ h => ⟨?_, h.2.trans hnext⟩) fun _ _ h =>
        ⟨fun hall => h.1 fun other hmem => hall other (List.mem_cons_of_mem container hmem),
          h.2.trans hnext⟩
      exact List.forall_mem_cons.mpr ⟨hremovable, h.1⟩
    unfold removeObsolete
    rw [ends_bind, ends_attempt]
    refine ⟨fun hlist => ?_, fun _ herror =>
      ⟨fun h => not_succeeds herror (h container List.mem_cons_self).1, rfl⟩⟩
    rw [ends_ite]
    refine ⟨fun halone => ?_, fun hothers => ?_⟩
    · rw [ends_bind, ends_attempt]
      refine ⟨fun hremove => ?_, fun _ herror =>
        ⟨fun h => not_succeeds herror ((h container List.mem_cons_self).2 halone), rfl⟩⟩
      rw [ends_bind, ends_modify]
      exact hrest _ rfl ⟨hlist, fun _ => hremove⟩
    · exact hrest run rfl ⟨hlist, fun h => absurd h hothers⟩

theorem keepNewest_ends {e : Environment} {run : Run} (h : BuildLeft run)
    (hlist : run.backups.isSome = true → Succeeds e .listBackups) :
    Ends (keepNewest e (backupEntries e run.containers)) run (fun _ _ => Retained e run.backups)
      (fun _ run' => ¬ Retained e run.backups ∧ BuildLeft run') := by
  obtain ⟨build, hbuild⟩ := h
  unfold keepNewest
  rw [ends_bind]
  refine (removeObsolete_ends e _ run).mono (fun _ pruned hpruned => ?_) fun _ pruned hfailed =>
    ⟨fun h => hfailed.1 h.obsolete, build, hfailed.2.trans hbuild⟩
  have hleft : pruned.destination = some (.built build) := hpruned.2.trans hbuild
  rw [ends_bind, ends_attempt]
  refine ⟨fun hread => ?_, fun _ herror =>
    ⟨fun h => not_succeeds herror h.readManifest, build, hleft⟩⟩
  rw [ends_bind, ends_attempt]
  refine ⟨fun hwrite => ?_, fun _ herror =>
    ⟨fun h => not_succeeds herror h.writeManifest, build, hleft⟩⟩
  rw [ends_bind, ends_modify, ends_ite]
  refine ⟨fun hempty => ⟨hlist, hpruned.1, hread, hwrite, fun h => ?_⟩, fun hkept => ?_⟩
  · exact absurd (List.isEmpty_iff.mp hempty) h
  · rw [ends_attempt]
    refine ⟨fun hget => ⟨hlist, hpruned.1, hread, hwrite, fun _ => hget⟩, fun _ herror =>
      ⟨fun h => not_succeeds herror (h.getContainer fun hnil => hkept ?_), ?_⟩⟩
    · exact List.isEmpty_iff.mpr hnil
    · rw [BuildLeft, Run.recordBackup, hleft]
      exact ⟨_, rfl⟩

theorem invokeAuthenticatedBackupRetention_ends {e : Environment} {run : Run}
    (h : BuildLeft run) :
    Ends (invokeAuthenticatedBackupRetention e) run (fun _ _ => Retained e run.backups)
      (fun _ run' => ¬ Retained e run.backups ∧ BuildLeft run') := by
  have hlist : (run.backups.isSome = true → Succeeds e .listBackups) →
      Ends (keepNewest e (backupEntries e run.containers)) run (fun _ _ => Retained e run.backups)
        (fun _ run' => ¬ Retained e run.backups ∧ BuildLeft run') :=
    fun hlist => keepNewest_ends h hlist
  unfold invokeAuthenticatedBackupRetention
  rw [ends_bind, ends_get, ends_ite]
  refine ⟨fun hsome => ?_, fun hnone => hlist fun hsome => absurd hsome hnone⟩
  rw [ends_bind, ends_attempt]
  exact ⟨fun hlisted => hlist fun _ => hlisted,
    fun _ herror => ⟨fun hretained => not_succeeds herror (hretained.list hsome), h⟩⟩

/-! ## The whole run -/

/-- How a run is to end, with what is left at the destination when it fails. -/
def EndsWell (e : Environment) (previous : Option Build) (backups : Option (List Container))
    (x : Script Unit) (run : Run) : Prop :=
  Ends x run (fun _ _ => Recovers e previous backups)
    (fun _ run' => (Recovers e previous backups ∧ run'.destination = previous.map .before) ∨
      (¬ Recovers e previous backups ∧ run'.destination ≠ previous.map .before))

theorem recovers_of_not {e : Environment} {previous : Option Build}
    {backups : Option (List Container)} (h : ¬ Publishes e previous backups)
    (hstrands : Begins e previous → e.dryRun = false → Succeeds e .stage → ¬ Strands e previous backups) :
    Recovers e previous backups :=
  ⟨hstrands, fun hpublishes => absurd hpublishes h, fun hpublishes => absurd hpublishes h⟩

theorem Strands.not_publishes {e : Environment} {previous : Option Build}
    {backups : Option (List Container)} (h : Strands e previous backups) :
    ¬ Publishes e previous backups := fun hpublishes => h.publish hpublishes.moves.publish

/-- What follows a patcher that succeeded. -/
theorem afterPatcher_ends {e : Environment} (hundo : UndoMovesSucceed e) {previous : Option Build}
    {backups : Option (List Container)} (hpublishes : Publishes e previous backups)
    (hpatch : PatchSucceeds e previous) :
    EndsWell e previous backups (do
        verifyInstalled e previous.isSome
        invokeAuthenticatedBackupRetention e)
      (noted e previous backups (plannedBackup e previous)) := by
  have hrecovers : Recovers e previous backups ↔
      (¬ Verified e (backupsAfter e previous backups) → Undoable e (plannedBackup e previous)) ∧
      (Verified e (backupsAfter e previous backups) →
        Retained e (backupsAfter e previous backups)) :=
    ⟨fun h => h.installed hpublishes hpatch, fun h => ⟨fun _ _ _ hstrands =>
      hstrands.not_publishes hpublishes, fun _ hfails => absurd hpatch hfails, fun _ _ => h⟩⟩
  unfold EndsWell
  rw [ends_bind]
  refine (verifyInstalled_ends hundo hpublishes.moves).mono (fun _ run h => ?_) fun _ run h => ?_
  · obtain ⟨hverified, rfl⟩ := h
    refine (invokeAuthenticatedBackupRetention_ends ⟨_, rfl⟩).mono (fun _ _ hretained => ?_) fun _ run
      hfailed => .inr ⟨fun h => hfailed.1 ((hrecovers.mp h).2 hverified), hfailed.2.changed previous⟩
    exact hrecovers.mpr ⟨fun h => absurd hverified h, fun _ => hretained⟩
  · obtain ⟨hunverified, ⟨hundoable, hdestination⟩ | ⟨hrefused, hleft⟩⟩ := h
    · exact .inl ⟨hrecovers.mpr ⟨fun _ => hundoable, fun h => absurd h hunverified⟩, hdestination⟩
    · exact .inr ⟨fun h => hrefused ((hrecovers.mp h).1 hunverified), hleft.changed previous⟩

theorem patch_ends {e : Environment} (hundo : UndoMovesSucceed e) (hreal : e.dryRun = false)
    {previous : Option Build} {backups : Option (List Container)} (hbegins : Begins e previous)
    {marker : Option (GoString × GoString)}
    (hmarker : ∀ build, previous = some build →
      marker.isSome = true ∧ marker = installationMarker build) :
    EndsWell e previous backups (do
        tryCatch (publish e previous.isSome ((backups.getD []).map Container.name) marker)
          (handlePatchFailure e previous.isSome ((backups.getD []).map Container.name) marker)
        verifyInstalled e previous.isSome
        invokeAuthenticatedBackupRetention e)
      (situation previous backups) := by
  unfold EndsWell
  rw [ends_bind, ends_tryCatch]
  refine (publish_ends hundo hreal previous backups hmarker).mono (fun _ run h => ?_)
    fun patchFailure run h => ?_
  · obtain ⟨hmoves, hpatch, rfl⟩ := h
    exact afterPatcher_ends hundo ⟨hbegins, hreal, hmoves⟩ hpatch
  · rcases h with ⟨hmoves, ⟨hnot, huntouched⟩ | ⟨hstage, hstrands, rfl⟩⟩ | ⟨hmoves, hfails, hleft⟩
    · refine (handlePatchFailure_untouched hundo huntouched marker patchFailure).mono
        (fun _ _ h => h.elim) fun _ _ hdestination => .inl ⟨?_, hdestination⟩
      exact recovers_of_not (fun h => hmoves h.moves) fun _ _ => hnot
    · refine (handlePatchFailure_aside _ _ marker patchFailure).mono (fun _ _ h => h.elim)
        fun _ _ hdestination => .inr ⟨fun h => h.patcher hbegins hreal hstage hstrands, ?_⟩
      obtain ⟨build, rfl⟩ := Option.isSome_iff_exists.mp hstrands.installed
      rw [hdestination]
      exact (Option.some_ne_none _).symm
    · have hrecovers : Recovers e previous backups ↔ (Reported e ∨ Recognized e) ∧
          Located e previous ∧ Undoable e (plannedBackup e previous) :=
        ⟨fun h => h.patch ⟨hbegins, hreal, hmoves⟩ hfails, fun h => ⟨fun _ _ _ hstrands =>
          hstrands.publish hmoves.publish, fun _ _ => h, fun _ hpatch => absurd hpatch hfails⟩⟩
      refine (handlePatchFailure_ends hundo hmoves hleft hreal hmarker patchFailure).mono
        (fun _ _ h => h.elim) fun _ _ hend => ?_
      rcases hend with ⟨hnoticed, hlocated, hundoable, hdestination⟩ | ⟨hnot, hbuild⟩
      · exact .inl ⟨hrecovers.mpr ⟨hnoticed, hlocated, hundoable⟩, hdestination⟩
      · exact .inr ⟨fun h => hnot (hrecovers.mp h), hbuild.changed previous⟩

theorem dryRun_ends {e : Environment} (hundo : UndoMovesSucceed e) (hdry : e.dryRun = true)
    (previous : Option Build) (backups : Option (List Container))
    (marker : Option (GoString × GoString)) :
    EndsWell e previous backups
      (tryCatch (publish e previous.isSome ((backups.getD []).map Container.name) marker)
        (handlePatchFailure e previous.isSome ((backups.getD []).map Container.name) marker))
      (situation previous backups) := by
  have hrecovers : Recovers e previous backups :=
    recovers_of_not (fun h => absurd h.real (by simp [hdry]))
      fun _ hreal => absurd hreal (by simp [hdry])
  unfold EndsWell
  rw [ends_tryCatch]
  refine (publish_dryRun hdry previous backups _ _ marker).mono (fun _ _ _ => hrecovers)
    fun patchFailure run huntouched => ?_
  exact (handlePatchFailure_untouched hundo huntouched marker patchFailure).mono
    (fun _ _ h => h.elim) fun _ _ hdestination => .inl ⟨hrecovers, hdestination⟩

def takenMarker (e : Environment) (previous : Option Build) : Option (GoString × GoString) :=
  if e.dryRun then none else previous.bind installationMarker

theorem begins_iff {e : Environment} {previous : Option Build} :
    Begins e previous ↔ Succeeds e .preflight ∧
      (previous.isNone || e.force || e.dryRun) = true ∧
      (previous.isNone || e.dryRun || !e.routerRunning) = true ∧
      (previous.isNone || e.dryRun || (takenMarker e previous).isSome) = true := by
  constructor
  · rintro ⟨hpreflight, hreplaceable⟩
    refine ⟨hpreflight, ?_⟩
    cases previous with
    | none => exact ⟨rfl, rfl, rfl⟩
    | some build =>
      have h := hreplaceable build rfl
      cases hdry : e.dryRun with
      | false => simpa [takenMarker, hdry] using h
      | true => simp
  · rintro ⟨hpreflight, hchecks⟩
    refine ⟨hpreflight, fun build hbuild => ?_⟩
    subst hbuild
    cases hdry : e.dryRun with
    | false => simpa [takenMarker, hdry] using hchecks
    | true => simp

theorem takenMarker_real {e : Environment} {previous : Option Build} (hbegins : Begins e previous)
    (hreal : e.dryRun = false) (build : Build) (h : previous = some build) :
    (takenMarker e previous).isSome = true ∧ takenMarker e previous = installationMarker build := by
  have hmarker := (hbegins.replaceable build h).2.2
  rw [hreal] at hmarker
  have htaken : takenMarker e previous = installationMarker build := by
    rw [takenMarker, hreal, h]
    rfl
  rw [htaken]
  exact ⟨hmarker.resolve_left Bool.false_ne_true, rfl⟩

theorem installWindows_ends {e : Environment} (hundo : UndoMovesSucceed e)
    (previous : Option Build) (backups : Option (List Container)) :
    EndsWell e previous backups (installWindows e) (situation previous backups) := by
  have hrefused : ¬ Begins e previous →
      (Recovers e previous backups ∧ (situation previous backups).destination = previous.map .before) ∨
        (¬ Recovers e previous backups ∧
          (situation previous backups).destination ≠ previous.map .before) :=
    fun h => .inl ⟨recovers_of_not (fun hpublishes => h hpublishes.begins)
      fun hbegins => absurd hbegins h, rfl⟩
  have hhad : (situation previous backups).destination.isSome = previous.isSome := Option.isSome_map
  have hnone : (situation previous backups).destination.isNone = previous.isNone := Option.isNone_map
  have hmarkers : (if e.dryRun = true then none else (situation previous backups).destination.bind
      fun tree => installationMarker tree.build) = takenMarker e previous := by
    cases previous <;> rfl
  unfold EndsWell installWindows
  rw [ends_bind, ends_attempt]
  refine ⟨fun hpreflight => ?_, fun _ herror => hrefused fun h => not_succeeds herror h.preflight⟩
  rw [ends_bind, ends_get, ends_bind, ends_ensure, hnone]
  refine ⟨fun hforce => ?_, fun h => hrefused fun hbegins => ?_⟩
  · rw [ends_bind, ends_ensure]
    refine ⟨fun hclosed => ?_, fun h => hrefused fun hbegins => ?_⟩
    · rw [hmarkers, hhad, ends_bind, ends_ensure]
      refine ⟨fun hmarker => ?_, fun h => hrefused fun hbegins => ?_⟩
      · have hbegins : Begins e previous := begins_iff.mpr ⟨hpreflight, hforce, hclosed, hmarker⟩
        cases hdry : e.dryRun with
        | false => exact patch_ends hundo hdry hbegins (takenMarker_real hbegins hdry)
        | true =>
          rw [ends_bind]
          exact (dryRun_ends hundo hdry previous backups (takenMarker e previous)).mono
            (fun _ _ h => h) fun _ _ h => h
      · rw [(begins_iff.mp hbegins).2.2.2] at h
        cases h
    · rw [(begins_iff.mp hbegins).2.2.1] at h
      cases h
  · rw [(begins_iff.mp hbegins).2.1] at h
    cases h

def installedBuild : Build := ⟨(∅ : GoMap GoString).insert (lit "ChatGPT.exe") (lit "8d1f"), none⟩

def update (fails : Step → Option GoString) : Environment where
  force := true
  dryRun := false
  backupRetention := 1
  destinationPath := lit "C:\\Router"
  sourceAsarSha256 := lit "02aa"
  startedAt := 1000
  files := (∅ : GoMap GoString).insert (lit "ChatGPT.exe") (lit "77c0")
  createdAtUtc := 1090
  recordedDestination := lit "C:\\Router"
  recordedSourceAsarSha256 := lit "02aa"
  plannedContainer := lit "20260101-120000-1f2e3d4c"
  containerTime := 1095
  ignoreCase := id
  sourceUnchanged := true
  routerRunning := false
  newRouterRunning := false
  authenticated := fun _ => true
  fails := fails

def selfTestFails : Step → Option GoString
  | .selfTest => some (lit "Launcher self-test failed with exit code 1.")
  | _ => none

def manifestWriteFails : Step → Option GoString
  | .writeManifest => some (lit "Access to the path is denied.")
  | _ => none

def isBefore : Option Tree → Bool
  | some (.before _) => true
  | _ => false

end SubscriptionRouter.InstallerRuns
