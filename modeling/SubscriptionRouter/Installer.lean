import Mathlib
import SubscriptionRouter.Exceptions
import SubscriptionRouter.GoText

set_option autoImplicit false

/-!
# Installing a build over another

`install_windows.ps1` runs the patcher, which moves the installed app to a backup and its
own build to the destination, verifies the result, and deletes old backups at the end. An
operation fails as the environment says, an existence check too; what follows is left to the
nested `try` blocks.
-/
namespace SubscriptionRouter.Installer
open Exceptions GoText

structure Manifest where
  createdAtUtc : ℤ
  destination : GoString
  sourceAsarSha256 : GoString
  backupPath : Option GoString

/-- What the scripts read of a directory tree: the SHA-256 of each file by its path, and
`codex-mux-build.json`. -/
structure Build where
  files : GoMap GoString
  manifest : Option Manifest

/-- A tree that was there before the run, or the one that the run builds. -/
inductive Tree where
  | before (build : Build)
  | built (build : Build)

def Tree.build : Tree → Build
  | .before build => build
  | .built build => build

/-- A directory below the backup root, with the app that it holds and its other entries. -/
structure Container where
  name : GoString
  app : Option Tree
  others : ℕ
  lastWriteTimeUtc : ℤ

/-- The directories, and the two variables of the script that its handlers read. -/
structure Run where
  destination : Option Tree
  /-- `none` when there is no backup root. -/
  backups : Option (List Container)
  failed : List Tree
  patcherPublished : Bool
  newBackup : Option GoString

inductive Step where
  | preflight
  | stage | makeContainer | setAside | publish | findFailed | setFailedAside | findBackup
  | undoSetAside | cleanUp
  | releasePort | findNewBackup | fingerprint | testManifest | readPublished
  | testBackup | listProcesses | makeFailedRoot | testDestination | moveFailed | moveBackup
  | layout | selfTest | hardenDestination | hardenState | testBackupRoot | hardenBackups | verify
  | listBackups | listContainer (name : GoString) | removeContainer (name : GoString)
  | readManifest | writeManifest | getContainer

structure Environment where
  force : Bool
  dryRun : Bool
  backupRetention : ℕ
  /-- The destination and the source as the installer knows them, and in seconds its start. -/
  destinationPath : GoString
  sourceAsarSha256 : GoString
  startedAt : ℤ
  /-- What the patcher builds, and the manifest it writes. -/
  files : GoMap GoString
  createdAtUtc : ℤ
  recordedDestination : GoString
  recordedSourceAsarSha256 : GoString
  plannedContainer : GoString
  containerTime : ℤ
  ignoreCase : GoString → GoString
  sourceUnchanged : Bool
  /-- Whether a router process runs, at the start and at a rollback. -/
  routerRunning : Bool
  newRouterRunning : Bool
  authenticated : Container → Bool
  /-- The error of a step that fails. -/
  fails : Step → Option GoString

abbrev Script := EStateM GoString Run

def attempt (e : Environment) (step : Step) : Script Unit :=
  match e.fails step with
  | none => pure ()
  | some error => throw error

def ensure (condition : Bool) (error : GoString) : Script Unit :=
  if condition then pure () else throw error

def Run.containers (run : Run) : List Container := run.backups.getD []

def Run.app (run : Run) (name : GoString) : Option Tree :=
  (run.containers.find? (·.name = name)).bind Container.app

def Run.setApp (run : Run) (name : GoString) (app : Option Tree) : Run :=
  { run with backups := run.backups.map fun containers => containers.map fun container =>
      if container.name = name then { container with app := app } else container }

def Run.addContainer (run : Run) (container : Container) : Run :=
  { run with backups := some (run.containers ++ [container]) }

def Run.removeContainer (run : Run) (name : GoString) : Run :=
  { run with backups := run.backups.map fun containers =>
      containers.filter fun container => container.name ≠ name }

def newestFirst (containers : List Container) : List Container :=
  containers.insertionSort fun a b => b.lastWriteTimeUtc ≤ a.lastWriteTimeUtc

/-! ## The patcher -/

def builtTree (e : Environment) (replaces : Bool) : Tree :=
  .built ⟨e.files, some ⟨e.createdAtUtc, e.recordedDestination, e.recordedSourceAsarSha256,
    if replaces then some e.plannedContainer else none⟩⟩

/-- Moves the installed app to the planned backup. -/
def moveToBackup (e : Environment) (installed : Tree) : Script Unit := do
  attempt e .makeContainer
  let run ← get
  ensure (run.containers.all (·.name ≠ e.plannedContainer)) (lit "[WinError 183] File exists")
  modify fun run => run.addContainer ⟨e.plannedContainer, none, 0, e.containerTime⟩
  attempt e .setAside
  modify fun run => { (run.setApp e.plannedContainer (some installed)) with destination := none }

def undoInstall (e : Environment) (replaces : Bool) : Script Unit := do
  attempt e .findFailed
  let run ← get
  match run.destination with
  | none => pure ()
  | some tree =>
    attempt e .setFailedAside
    modify fun run => { run with destination := none, failed := tree :: run.failed }
  if replaces then
    attempt e .findBackup
    match run.app e.plannedContainer with
    | none => pure ()
    | some tree =>
      attempt e .undoSetAside
      modify fun run => { (run.setApp e.plannedContainer none) with destination := some tree }

def atomicInstall (e : Environment) : Script Unit := do
  let run ← get
  ensure (run.destination.isNone || e.force)
    (lit "destination exists: " ++ e.destinationPath ++ lit " (pass --force for a recoverable backup)")
  match run.destination with
  | none => pure ()
  | some installed => moveToBackup e installed
  tryCatch (do
      attempt e .publish
      modify fun now => { now with destination := some (builtTree e run.destination.isSome) })
    fun error => do
      undoInstall e run.destination.isSome
      throw error

/-- The patcher as a process. It can still fail after it has published, while it removes
its staging directory. -/
def patcher (e : Environment) : Script Unit := do
  attempt e .stage
  if e.dryRun then pure ()
  else do
    atomicInstall e
    attempt e .cleanUp

/-! ## The installer -/

def markerPaths : List GoString :=
  [lit "codex-mux-build.json", lit "ChatGPT.exe", lit "Codex.exe", lit "resources\\app.asar"]

def installationMarker (build : Build) : Option (GoString × GoString) :=
  markerPaths.findSome? fun path => (build.files[path]?).map fun sha256 => (path, sha256)

def findNewBackupDirectory (e : Environment) (existing : List GoString)
    (marker : Option (GoString × GoString)) : Script (Option GoString) := do
  attempt e .findNewBackup
  let run ← get
  pure (marker.bind fun marker =>
    ((newestFirst (run.containers.filter fun container => container.name ∉ existing)).find?
      fun container => container.app.any fun tree =>
        tree.build.files[marker.1]? = some marker.2).map Container.name)

def publishedThisRun (e : Environment) (run : Run) : Bool :=
  match run.destination.bind fun tree => tree.build.manifest with
  | none => false
  | some manifest => (e.fails .readPublished).isNone && e.startedAt - 60 ≤ manifest.createdAtUtc &&
      e.ignoreCase manifest.destination = e.ignoreCase e.destinationPath &&
      e.ignoreCase manifest.sourceAsarSha256 = e.ignoreCase e.sourceAsarSha256

/-- What cannot be read is not of this run; the look for the manifest is outside the `try`. -/
def testDestinationPublishedThisRun (e : Environment) : Script Bool := do
  attempt e .testManifest
  let run ← get
  return publishedThisRun e run

def preserveFailedBuild (e : Environment) : Script Unit := do
  let run ← get
  match run.destination with
  | none => pure ()
  | some tree => do
    attempt e .moveFailed
    modify fun run => { run with destination := none, failed := tree :: run.failed }

def restoreBackup (e : Environment) (newBackup : Option GoString) (backupApp : Option Tree) :
    Script Unit :=
  match newBackup, backupApp with
  | some name, some tree => do
    attempt e .moveBackup
    modify fun run => { (run.setApp name none) with destination := some tree }
  | _, _ => pure ()

/-- The app in the backup, where there is one. -/
def findBackupApp (e : Environment) (newBackup : Option GoString) : Script (Option Tree) :=
  match newBackup with
  | none => pure none
  | some name => do
    attempt e .testBackup
    let run ← get
    return run.app name

def restorePreviousInstallation (e : Environment) (hadPrevious : Bool) : Script Unit := do
  let run ← get
  let backupApp ← findBackupApp e run.newBackup
  ensure (!(hadPrevious && backupApp.isNone))
    (lit "Automatic rollback cannot locate the patcher backup. The new build remains closed; inspect the transcript and backup root before changing files.")
  attempt e .listProcesses
  ensure (!e.newRouterRunning)
    (lit "Automatic rollback is unsafe because a process from the new destination is running. The installer did not terminate it.")
  attempt e .makeFailedRoot
  attempt e .testDestination
  preserveFailedBuild e
  restoreBackup e run.newBackup backupApp

def rollbackCompleted : GoString := lit "Automatic rollback completed."

def assertSourceUnchanged (e : Environment) : Script Unit := do
  attempt e .fingerprint
  ensure e.sourceUnchanged (lit "Safety invariant violated: an official source artifact changed while the patcher was running.")

/-- The patcher and the check that the official source is as it was. -/
def publish (e : Environment) (hadPrevious : Bool) (existing : List GoString)
    (marker : Option (GoString × GoString)) : Script Unit :=
  tryFinally (do
      tryFinally (patcher e) (attempt e .releasePort)
      modify fun run => { run with patcherPublished := !e.dryRun }
      if !e.dryRun && hadPrevious then
        let newBackup ← findNewBackupDirectory e existing marker
        modify fun run => { run with newBackup := newBackup }
      else pure ())
    (assertSourceUnchanged e)

/-- After a failure the patcher may have published without saying so. -/
def recognizePublished (e : Environment) (hadPrevious : Bool) (existing : List GoString)
    (marker : Option (GoString × GoString)) : Script Unit := do
  let run ← get
  if !run.patcherPublished && !e.dryRun then
    if ← testDestinationPublishedThisRun e then
      modify fun run => { run with patcherPublished := true }
      if hadPrevious then
        let newBackup ← findNewBackupDirectory e existing marker
        modify fun run => { run with newBackup := newBackup }
      else pure ()
    else pure ()
  else pure ()

def rollBackPatch (e : Environment) (hadPrevious : Bool) (patchFailure : GoString) : Script Unit :=
  tryCatch (do
      restorePreviousInstallation e hadPrevious
      throw (patchFailure ++ lit " " ++ rollbackCompleted))
    fun error =>
      if rollbackCompleted <:+ error then throw error
      else throw (patchFailure ++ lit " Automatic rollback also failed: " ++ error)

def handlePatchFailure (e : Environment) (hadPrevious : Bool) (existing : List GoString)
    (marker : Option (GoString × GoString)) (patchFailure : GoString) : Script Unit := do
  recognizePublished e hadPrevious existing marker
  let run ← get
  if run.patcherPublished then rollBackPatch e hadPrevious patchFailure
  else throw patchFailure

def checkInstalled (e : Environment) : Script Unit := do
  attempt e .layout
  attempt e .selfTest
  attempt e .hardenDestination
  attempt e .hardenState
  attempt e .testBackupRoot
  let run ← get
  if run.backups.isSome then attempt e .hardenBackups else pure ()
  attempt e .verify

def verifyInstalled (e : Environment) (hadPrevious : Bool) : Script Unit :=
  tryCatch (checkInstalled e) fun verificationFailure => do
    tryCatch (restorePreviousInstallation e hadPrevious) fun error =>
      throw (verificationFailure ++ lit " Automatic rollback also failed: " ++ error)
    throw (verificationFailure ++ lit " " ++ rollbackCompleted)

def backupEntries (e : Environment) (containers : List Container) : List Container :=
  (newestFirst containers).filter fun container => container.app.isSome && e.authenticated container

def removeObsolete (e : Environment) : List Container → Script Unit
  | [] => pure ()
  | container :: rest => do
    attempt e (.listContainer container.name)
    if container.others = 0 then do
      attempt e (.removeContainer container.name)
      modify fun run => run.removeContainer container.name
    else pure ()
    removeObsolete e rest

def Manifest.withBackupPath (path : Option GoString) (manifest : Manifest) : Manifest :=
  { manifest with backupPath := path }

def Tree.withBackupPath (path : Option GoString) : Tree → Tree
  | .before build => .before { build with manifest := build.manifest.map (·.withBackupPath path) }
  | .built build => .built { build with manifest := build.manifest.map (·.withBackupPath path) }

def Run.recordBackup (run : Run) (path : Option GoString) : Run :=
  { run with destination := run.destination.map (Tree.withBackupPath path) }

def keepNewest (e : Environment) (entries : List Container) : Script Unit := do
  removeObsolete e (entries.drop e.backupRetention)
  let remaining := entries.take e.backupRetention
  attempt e .readManifest
  attempt e .writeManifest
  modify fun run => run.recordBackup (remaining.head?.map Container.name)
  if remaining.isEmpty then pure () else attempt e .getContainer

def invokeAuthenticatedBackupRetention (e : Environment) : Script Unit := do
  let run ← get
  if run.backups.isSome then attempt e .listBackups else pure ()
  keepNewest e (backupEntries e run.containers)

def installWindows (e : Environment) : Script Unit := do
  attempt e .preflight
  let run ← get
  ensure (run.destination.isNone || e.force || e.dryRun)
    (lit "Destination already exists: " ++ e.destinationPath ++
      lit ". Rerun with -Force to create a backup and replace it.")
  ensure (run.destination.isNone || e.dryRun || !e.routerRunning) (lit "The existing router is running.")
  let marker := if e.dryRun then none else run.destination.bind fun tree => installationMarker tree.build
  ensure (run.destination.isNone || e.dryRun || marker.isSome)
    (lit "Existing destination has no stable file with which to authenticate its backup: " ++
      e.destinationPath)
  let existing := run.containers.map Container.name
  tryCatch (publish e run.destination.isSome existing marker)
    (handlePatchFailure e run.destination.isSome existing marker)
  if e.dryRun then pure ()
  else do
    verifyInstalled e run.destination.isSome
    invokeAuthenticatedBackupRetention e

/-- The exit code and what the run leaves. -/
def install (e : Environment) (run : Run) : ℕ × Run :=
  match installWindows e run with
  | .ok _ run => (0, run)
  | .error _ run => (1, run)

end SubscriptionRouter.Installer
