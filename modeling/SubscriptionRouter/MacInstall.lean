import Mathlib
import SubscriptionRouter.Moves

set_option autoImplicit false

/-!
# The commit of an install on macOS

`patch_app` moves the installed app and helper to a backup and the new ones to their places. Its
handler takes what it finds at a destination for the new build.
-/
namespace SubscriptionRouter.MacInstall
open Exceptions Moves

/-- The eight directories of the commit; the backup directory is a new one. -/
inductive Place where
  | destination | installedComputerUseApp
  | stagedApp | stagedComputerUseApp
  | appBackup | helperBackup
  | failedApp | failedHelper
  deriving DecidableEq

inductive Commit where
  | setAsideApp | setAsideHelper | publishApp | publishHelper
  deriving DecidableEq

variable {T : Type}

/-- The renames inside the `try`, where the system refuses those of which `raises` holds. -/
def replaceBoth (raises : Commit → Bool) (hadApp hadHelper : Bool) : Script Place T Unit := do
  renameWhen hadApp (raises .setAsideApp) .destination .appBackup
  renameWhen hadHelper (raises .setAsideHelper) .installedComputerUseApp .helperBackup
  rename (raises .publishApp) .stagedApp .destination
  rename (raises .publishHelper) .stagedComputerUseApp .installedComputerUseApp

/-- The handler: what stands at a destination goes to `failed-install`, and the backups return. -/
def restore : Script Place T Unit := do
  renameIfPresent .destination .failedApp
  renameIfPresent .installedComputerUseApp .failedHelper
  renameIfPresent .appBackup .destination
  renameIfPresent .helperBackup .installedComputerUseApp

def commit (raises : Commit → Bool) : Script Place T Unit := do
  let hadApp ← present .destination
  let hadHelper ← present .installedComputerUseApp
  tryCatch (replaceBoth raises hadApp hadHelper) fun error => do
    restore
    throw error

/-- What is where when a rename of the commit is due. -/
def arrangement (app helper : Option T) (newApp newHelper : T) : Commit → Place → Option T
  | .setAsideApp, .destination => app
  | .setAsideApp, .installedComputerUseApp => helper
  | .setAsideHelper, .appBackup => app
  | .setAsideHelper, .installedComputerUseApp => helper
  | .publishApp, .appBackup => app
  | .publishApp, .helperBackup => helper
  | .publishHelper, .destination => some newApp
  | .publishHelper, .appBackup => app
  | .publishHelper, .helperBackup => helper
  | .publishHelper, .stagedApp => none
  | _, .stagedApp => some newApp
  | _, .stagedComputerUseApp => some newHelper
  | _, _ => none

/-- After the exception the previous app and helper, and nothing else, are where they were. -/
def RollsBack (raises : Commit → Bool) (app helper : Option T) (newApp newHelper : T) : Prop :=
  Ends (commit raises) (arrangement app helper newApp newHelper .setAsideApp) (fun _ _ => True)
    fun _ s => s .destination = app ∧ s .installedComputerUseApp = helper

variable {app helper : Option T} {newApp newHelper : T} {raises : Bool}
    {q : Unit → (Place → Option T) → Prop} {r : Failure → (Place → Option T) → Prop}

theorem ends_setAsideApp :
    Ends (renameWhen app.isSome raises .destination .appBackup)
      (arrangement app helper newApp newHelper .setAsideApp) q r ↔
    if app.isSome ∧ raises then r .system (arrangement app helper newApp newHelper .setAsideApp)
    else q () (arrangement app helper newApp newHelper .setAsideHelper) := by
  have hmoved : moved (arrangement app helper newApp newHelper .setAsideApp) .destination .appBackup =
      arrangement app helper newApp newHelper .setAsideHelper := by
    funext place
    cases place <;> rfl
  rw [← hmoved]
  exact ends_renameWhen (s := arrangement app helper newApp newHelper .setAsideApp)
    (a := .destination) (b := .appBackup) rfl

theorem ends_setAsideHelper :
    Ends (renameWhen helper.isSome raises .installedComputerUseApp .helperBackup)
      (arrangement app helper newApp newHelper .setAsideHelper) q r ↔
    if helper.isSome ∧ raises then r .system (arrangement app helper newApp newHelper .setAsideHelper)
    else q () (arrangement app helper newApp newHelper .publishApp) := by
  have hmoved : moved (arrangement app helper newApp newHelper .setAsideHelper) .installedComputerUseApp
      .helperBackup = arrangement app helper newApp newHelper .publishApp := by
    funext place
    cases place <;> rfl
  rw [← hmoved]
  exact ends_renameWhen (s := arrangement app helper newApp newHelper .setAsideHelper)
    (a := .installedComputerUseApp) (b := .helperBackup) rfl

theorem ends_publishApp :
    Ends (rename raises .stagedApp .destination) (arrangement app helper newApp newHelper .publishApp) q r ↔
    if raises then r .system (arrangement app helper newApp newHelper .publishApp)
    else q () (arrangement app helper newApp newHelper .publishHelper) := by
  have hmoved : moved (arrangement app helper newApp newHelper .publishApp) .stagedApp .destination =
      arrangement app helper newApp newHelper .publishHelper := by
    funext place
    cases place <;> rfl
  rw [ends_rename, hmoved]
  cases raises <;> simp [arrangement]

theorem ends_replaceBoth (app helper : Option T) {raises : Commit → Bool} :
    Ends (replaceBoth raises app.isSome helper.isSome) (arrangement app helper newApp newHelper .setAsideApp)
      (fun _ _ => True) r ↔
    if app.isSome ∧ raises .setAsideApp then
      r .system (arrangement app helper newApp newHelper .setAsideApp)
    else if helper.isSome ∧ raises .setAsideHelper then
      r .system (arrangement app helper newApp newHelper .setAsideHelper)
    else if raises .publishApp then r .system (arrangement app helper newApp newHelper .publishApp)
    else if raises .publishHelper then r .system (arrangement app helper newApp newHelper .publishHelper)
    else True := by
  unfold replaceBoth
  rw [ends_bind, ends_setAsideApp, ends_bind, ends_setAsideHelper, ends_bind, ends_publishApp, ends_rename]
  cases raises .publishHelper <;> simp [arrangement]

theorem ends_restore {s : Place → Option T} (happ : s .failedApp = none) (hhelper : s .failedHelper = none)
    {p : Option T → Option T → Prop} :
    Ends restore s (fun _ s' => p (s' .destination) (s' .installedComputerUseApp)) r ↔
      p (s .appBackup) (s .helperBackup) := by
  unfold restore
  rw [ends_bind, ends_renameIfPresent happ, ends_bind, ends_renameIfPresent, ends_bind, ends_renameIfPresent,
    ends_renameIfPresent]
  all_goals simp [moved, hhelper]

/-- The handler puts back what is in the backups: it is right only once what was there is in them. -/
theorem rolls_back_iff (raises : Commit → Bool) (app helper : Option T) (newApp newHelper : T) :
    RollsBack raises app helper newApp newHelper ↔
      ¬ (app.isSome ∧ raises .setAsideApp) ∧ ¬ (helper.isSome ∧ raises .setAsideHelper) := by
  have hend (error : Failure) (due : Commit) : Ends (do restore; throw error : Script Place T PUnit)
      (arrangement app helper newApp newHelper due) (fun _ _ => True)
      (fun _ s => s .destination = app ∧ s .installedComputerUseApp = helper) ↔
      arrangement app helper newApp newHelper due .appBackup = app ∧
        arrangement app helper newApp newHelper due .helperBackup = helper := by
    rw [ends_bind]
    exact ends_restore (p := fun a b => a = app ∧ b = helper) (by cases due <;> rfl) (by cases due <;> rfl)
  unfold RollsBack commit
  rw [ends_bind, ends_present, ends_bind, ends_present, ends_tryCatch]
  refine (ends_replaceBoth app helper).trans ?_
  simp only [hend]
  by_cases happ : app.isSome ∧ raises .setAsideApp
  · obtain ⟨tree, rfl⟩ := Option.isSome_iff_exists.mp happ.1
    simp [happ.2, arrangement]
  · by_cases hhelper : helper.isSome ∧ raises .setAsideHelper
    · obtain ⟨tree, rfl⟩ := Option.isSome_iff_exists.mp hhelper.1
      simp [happ, hhelper.2, arrangement]
    · simp [happ, hhelper, arrangement]

/-- An app is installed and no helper; the first rename is refused, and the app is gone. -/
theorem installed_app_lost : ¬ RollsBack (fun step => step = .setAsideApp) (some 1) none 2 3 := by
  intro h
  have happ : (none : Option Nat) = some 1 := h.1
  cases happ

end SubscriptionRouter.MacInstall
