import Mathlib
import SubscriptionRouter.Exceptions

set_option autoImplicit false

/-!
# The transaction of a rollback

`rollback_windows.ps1` moves the current build into a new directory under the backup root and
the selected backup to the destination. A failure after that sends the selected backup to a
name under which `Get-CsrBackupEntries` does not look.
-/
namespace SubscriptionRouter.RollbackTransaction
open Exceptions

variable {N T : Type}

inductive Item (T : Type) where
  | file
  | tree (tree : T)

/-- A directory below the backup root. -/
structure Container (N T : Type) where
  name : N
  items : List (N × Item T)
  lastWriteTimeUtc : ℤ

/-- The directories, and the variable that the handler reads. -/
structure Run (N T : Type) where
  destination : Option T
  containers : List (Container N T)
  currentMoved : Bool

/-- What the system can refuse, and the failure that the tests inject. -/
inductive Step where
  | makeTransaction | moveCurrent | injected | moveSelected | verify | readManifest | writeManifest
  | listContainer | removeContainer | listTransaction | removeTransaction | missing
  deriving DecidableEq

structure Environment (N T : Type) where
  /-- The name of the destination. -/
  leaf : N
  transaction : N
  /-- The name with a new identifier that a failed build is given. -/
  failedPublish : N
  failedPublish_ne : failedPublish ≠ leaf
  now : ℤ
  authentic : T → Bool
  /-- The tree with the path of the displaced build in its manifest. -/
  withBackupPath : T → T
  raises : Step → Bool

structure Entry (N T : Type) where
  container : N
  tree : T
  lastWriteTimeUtc : ℤ

variable [DecidableEq N]

def newestFirst (containers : List (Container N T)) : List (Container N T) :=
  containers.insertionSort fun a b => b.lastWriteTimeUtc ≤ a.lastWriteTimeUtc

def entry (e : Environment N T) (container : Container N T) : Option (Entry N T) :=
  match container.items.lookup e.leaf with
  | some (.tree tree) =>
    if e.authentic tree then some ⟨container.name, tree, container.lastWriteTimeUtc⟩ else none
  | _ => none

/-- `Get-CsrBackupEntries -RequireIntegrity`. -/
def backupEntries (e : Environment N T) (containers : List (Container N T)) : List (Entry N T) :=
  (newestFirst containers).filterMap (entry e)

abbrev Script (N T : Type) := EStateM Step (Run N T)

def attempt (e : Environment N T) (step : Step) : Script N T Unit :=
  if e.raises step then throw step else pure ()

def Container.put (container : Container N T) (now : ℤ) (name : N) (tree : T) : Container N T :=
  { container with items := container.items ++ [(name, .tree tree)], lastWriteTimeUtc := now }

def Container.take (container : Container N T) (now : ℤ) (name : N) : Container N T :=
  { container with items := container.items.filter (·.1 ≠ name), lastWriteTimeUtc := now }

def Run.find (run : Run N T) (name : N) : Option (Container N T) :=
  run.containers.find? (·.name = name)

def Run.change (run : Run N T) (name : N) (f : Container N T → Container N T) : Run N T :=
  { run with containers := run.containers.map fun container =>
      if container.name = name then f container else container }

/-- The tree `name` in the directory `container`. -/
def Run.tree (run : Run N T) (container name : N) : Option T :=
  match (run.find container).bind fun found => found.items.lookup name with
  | some (.tree tree) => some tree
  | _ => none

def Run.remove (run : Run N T) (name : N) : Run N T :=
  { run with containers := run.containers.filter (·.name ≠ name) }

/-- From the destination into a directory below the backup root. -/
def moveAside (e : Environment N T) (container name : N) : Script N T Unit := do
  let run ← get
  match run.destination with
  | none => throw .missing
  | some tree => set { run.change container (·.put e.now name tree) with destination := none }

/-- From there to the destination, where nothing is at that time. -/
def moveBack (e : Environment N T) (container name : N) : Script N T Unit := do
  let run ← get
  match run.tree container name with
  | none => throw .missing
  | some tree => set { run.change container (·.take e.now name) with destination := some tree }

/-- Removes a directory that nothing is in. -/
def removeIfEmpty (e : Environment N T) (list remove : Step) (container : N) : Script N T Unit := do
  let run ← get
  match run.find container with
  | none => pure ()
  | some found =>
    attempt e list
    if found.items.isEmpty then do
      attempt e remove
      set (run.remove container)
    else pure ()

/-- `Assert-CsrInstallationIntegrity` of the destination. -/
def verify (e : Environment N T) : Script N T Unit := do
  attempt e .verify
  let run ← get
  if run.destination.any e.authentic then pure () else throw .verify

/-- The part in the `try`. -/
def replaceCurrent (e : Environment N T) (selected : Entry N T) : Script N T Unit := do
  attempt e .moveCurrent
  moveAside e e.transaction e.leaf
  modify fun run => { run with currentMoved := true }
  attempt e .injected
  attempt e .moveSelected
  moveBack e selected.container e.leaf
  verify e
  attempt e .readManifest
  attempt e .writeManifest
  modify fun run => { run with destination := run.destination.map e.withBackupPath }
  removeIfEmpty e .listContainer .removeContainer selected.container

def setAsideFailed (e : Environment N T) : Script N T Unit := do
  let run ← get
  if run.destination.isSome then moveAside e e.transaction e.failedPublish else pure ()

def returnDisplaced (e : Environment N T) : Script N T Unit := do
  let run ← get
  if (run.tree e.transaction e.leaf).isSome then moveBack e e.transaction e.leaf else pure ()

/-- The handler, whose moves are not refused. -/
def restoreCurrent (e : Environment N T) : Script N T Unit := do
  let run ← get
  if run.currentMoved then do
    setAsideFailed e
    returnDisplaced e
    removeIfEmpty e .listTransaction .removeTransaction e.transaction
  else pure ()

def makeTransaction (e : Environment N T) : Script N T Unit := do
  attempt e .makeTransaction
  let run ← get
  match run.find e.transaction with
  | some _ => throw .makeTransaction
  | none => set { run with containers := run.containers ++ [Container.mk e.transaction [] e.now] }

def rollback (e : Environment N T) (selected : Entry N T) : Script N T Unit := do
  makeTransaction e
  tryCatch (replaceCurrent e selected) fun error => do
    restoreCurrent e
    throw error

/-- The current build, the directories, and one of the entries that are listed of them. -/
structure Situation (e : Environment N T) where
  current : T
  containers : List (Container N T)
  distinct : (containers.map Container.name).Nodup
  selected : Entry N T
  listed : selected ∈ backupEntries e containers

def Situation.run {e : Environment N T} (before : Situation e) : Run N T :=
  ⟨some before.current, before.containers, false⟩

/-- The current build is where it was, and the selected backup is still listed. -/
def Safe (e : Environment N T) (before : Situation e) (run : Run N T) : Prop :=
  run.destination = some before.current ∧ before.selected ∈ backupEntries e run.containers

/-- Whenever the rollback fails, it is as before. -/
def FailsSafely (e : Environment N T) (before : Situation e) : Prop :=
  Ends (rollback e before.selected) before.run (fun _ _ => True) fun _ run => Safe e before run

section Directories
variable {destination : Option T} {currentMoved : Bool} {containers : List (Container N T)}

omit [DecidableEq N] in
theorem name_ne (last : Container N T) (hlast : last.name ∉ containers.map Container.name) {container : Container N T}
    (hmem : container ∈ containers) : container.name ≠ last.name := by
  intro h
  exact hlast (h ▸ List.mem_map_of_mem hmem)

theorem change_last (destination : Option T) (currentMoved : Bool) (last : Container N T)
    (hlast : last.name ∉ containers.map Container.name)
    (f : Container N T → Container N T) :
    (Run.mk destination (containers ++ [last]) currentMoved).change last.name f =
      ⟨destination, containers ++ [f last], currentMoved⟩ := by
  have hsame : containers.map (fun container =>
      if container.name = last.name then f container else container) = containers.map id :=
    List.map_congr_left fun container hmem => if_neg (name_ne last hlast hmem)
  simp [Run.change, hsame]

theorem find_last (destination : Option T) (currentMoved : Bool) (last : Container N T)
    (hlast : last.name ∉ containers.map Container.name) :
    (Run.mk destination (containers ++ [last]) currentMoved).find last.name = some last := by
  have hnone : containers.find? (·.name = last.name) = none :=
    List.find?_eq_none.mpr fun container hmem => by simpa using name_ne last hlast hmem
  simp [Run.find, hnone]

theorem remove_last (destination : Option T) (currentMoved : Bool) (last : Container N T)
    (hlast : last.name ∉ containers.map Container.name) :
    (Run.mk destination (containers ++ [last]) currentMoved).remove last.name =
      ⟨destination, containers, currentMoved⟩ := by
  have hsame : containers.filter (fun container => decide (container.name ≠ last.name)) = containers :=
    List.filter_eq_self.mpr fun container hmem => by simpa using name_ne last hlast hmem
  unfold Run.remove
  rw [List.filter_append, hsame]
  simp

theorem change_of_ne {last : Container N T} {name : N} (hname : last.name ≠ name) (f : Container N T → Container N T) :
    (Run.mk destination (containers ++ [last]) currentMoved).change name f =
      ⟨destination, ((Run.mk destination containers currentMoved).change name f).containers ++ [last],
        currentMoved⟩ := by
  simp [Run.change, hname]

theorem find_of_ne {last : Container N T} {name : N} (hname : last.name ≠ name) :
    (Run.mk destination (containers ++ [last]) currentMoved).find name =
      (Run.mk destination containers currentMoved).find name := by
  simp [Run.find, hname]

theorem find_none {name : N} (h : (Run.mk destination containers currentMoved).find name = none) :
    name ∉ containers.map Container.name := by
  intro hmem
  obtain ⟨container, hcontainer, rfl⟩ := List.mem_map.mp hmem
  exact absurd (List.find?_eq_none.mp h container hcontainer) (by simp)

theorem find_of_mem {container : Container N T} (hmem : container ∈ containers)
    (hdistinct : (containers.map Container.name).Nodup) :
    (Run.mk destination containers currentMoved).find container.name = some container := by
  unfold Run.find
  cases hfind : containers.find? (·.name = container.name) with
  | none => exact absurd (List.find?_eq_none.mp hfind container hmem) (by simp)
  | some found =>
    have hname : found.name = container.name := by simpa using List.find?_some hfind
    have := List.inj_on_of_nodup_map hdistinct (List.mem_of_find?_eq_some hfind) hmem hname
    rw [this]

theorem mem_backupEntries {e : Environment N T} {entry : Entry N T} :
    entry ∈ backupEntries e containers ↔ ∃ container ∈ containers,
      container.items.lookup e.leaf = some (.tree entry.tree) ∧ e.authentic entry.tree = true ∧
      container.name = entry.container ∧ container.lastWriteTimeUtc = entry.lastWriteTimeUtc := by
  unfold backupEntries newestFirst RollbackTransaction.entry
  rw [List.mem_filterMap]
  constructor
  · rintro ⟨container, hmem, h⟩
    refine ⟨container, (List.mem_insertionSort _).mp hmem, ?_⟩
    split at h
    · split_ifs at h with hauthentic
      obtain rfl := Option.some.inj h
      exact ⟨‹_›, hauthentic, rfl, rfl⟩
    · cases h
  · rintro ⟨container, hmem, hitem, hauthentic, hname, htime⟩
    refine ⟨container, (List.mem_insertionSort _).mpr hmem, ?_⟩
    simp [hitem, hauthentic, hname, htime]
end Directories

section Steps
variable {e : Environment N T} {destination : Option T} {currentMoved : Bool}
    {containers : List (Container N T)} {items : List (N × Item T)} {run : Run N T}
    {q : Unit → Run N T → Prop} {r : Step → Run N T → Prop}

omit [DecidableEq N] in
theorem ends_attempt {step : Step} :
    Ends (attempt e step) run q r ↔ if e.raises step then r step run else q () run := by
  unfold attempt
  split_ifs
  · rfl
  · rfl

theorem ends_moveAside {name : N} {tree : T} (hfresh : e.transaction ∉ containers.map Container.name) :
    Ends (moveAside e e.transaction name)
      ⟨some tree, containers ++ [⟨e.transaction, items, e.now⟩], currentMoved⟩ q r ↔
    q () ⟨none, containers ++ [⟨e.transaction, items ++ [(name, .tree tree)], e.now⟩], currentMoved⟩ := by
  have hchange := change_last (some tree) currentMoved ⟨e.transaction, items, e.now⟩ hfresh (·.put e.now name tree)
  unfold moveAside
  rw [ends_bind]
  simp only [ends_get, hchange]
  rfl

/-- What is left of the directories when the selected backup has been moved. -/
def withoutSelected (e : Environment N T) (containers : List (Container N T)) (name : N) :
    List (Container N T) :=
  containers.map fun container => if container.name = name then container.take e.now e.leaf else container

theorem names_withoutSelected (e : Environment N T) (containers : List (Container N T)) (name : N) :
    (withoutSelected e containers name).map Container.name = containers.map Container.name := by
  unfold withoutSelected
  rw [List.map_map]
  refine List.map_congr_left fun container _ => ?_
  by_cases h : container.name = name
  · simp [h, Container.take]
  · simp [h]

theorem ends_moveBack_selected {selected : Entry N T} {last : Container N T}
    (hdistinct : (containers.map Container.name).Nodup) (hlisted : selected ∈ backupEntries e containers)
    (hlast : last.name ∉ containers.map Container.name) :
    Ends (moveBack e selected.container e.leaf) ⟨none, containers ++ [last], currentMoved⟩ q r ↔
    q () ⟨some selected.tree, withoutSelected e containers selected.container ++ [last], currentMoved⟩ := by
  obtain ⟨container, hmem, hitem, -, hname, -⟩ := mem_backupEntries.mp hlisted
  have hne : last.name ≠ selected.container := fun h => name_ne last hlast hmem (hname.trans h.symm)
  have htree : (Run.mk none (containers ++ [last]) currentMoved).tree selected.container e.leaf =
      some selected.tree := by
    unfold Run.tree
    rw [find_of_ne hne, ← hname, find_of_mem hmem hdistinct]
    simp [hitem]
  unfold moveBack
  rw [ends_bind]
  simp only [ends_get, htree]
  rw [change_of_ne hne]
  rfl

theorem tree_last {name : N} {tree : T} (hfresh : e.transaction ∉ containers.map Container.name)
    (hitem : items.lookup name = some (.tree tree)) :
    (Run.mk destination (containers ++ [⟨e.transaction, items, e.now⟩]) currentMoved).tree
      e.transaction name = some tree := by
  have hfind := find_last destination currentMoved ⟨e.transaction, items, e.now⟩ hfresh
  unfold Run.tree
  rw [hfind, Option.bind_some, hitem]

theorem ends_returnDisplaced (tree : T) (hfresh : e.transaction ∉ containers.map Container.name)
    (hitem : items.lookup e.leaf = some (.tree tree)) :
    Ends (returnDisplaced e)
      ⟨none, containers ++ [⟨e.transaction, items, e.now⟩], currentMoved⟩ q r ↔
    q () ⟨some tree, containers ++ [⟨e.transaction, items.filter (·.1 ≠ e.leaf), e.now⟩], currentMoved⟩ := by
  have hchange := change_last none currentMoved ⟨e.transaction, items, e.now⟩ hfresh (·.take e.now e.leaf)
  unfold returnDisplaced moveBack
  rw [ends_bind]
  simp only [ends_get, tree_last hfresh hitem, Option.isSome_some, if_true]
  rw [ends_bind]
  simp only [ends_get, tree_last hfresh hitem, hchange]
  rfl

theorem ends_removeIfEmpty {list remove : Step} {name : N} {found : Container N T}
    (hfound : run.find name = some found) :
    Ends (removeIfEmpty e list remove name) run q r ↔
      if e.raises list then r list run
      else if found.items.isEmpty then if e.raises remove then r remove run else q () (run.remove name)
      else q () run := by
  unfold removeIfEmpty
  rw [ends_bind]
  simp only [ends_get, hfound]
  rw [ends_bind, ends_attempt]
  split_ifs with hlist hempty hremove
  · rfl
  · rw [ends_bind, ends_attempt, if_pos hremove]
  · rw [ends_bind, ends_attempt, if_neg hremove]
    rfl
  · rfl

/-- Where the selected backup is still in its place, the new directory goes. -/
theorem ends_restore_early {current : T} (hfresh : e.transaction ∉ containers.map Container.name)
    (hq : q () ⟨some current, containers, true⟩)
    (hr : ∀ step, r step ⟨some current, containers ++ [⟨e.transaction, [], e.now⟩], true⟩) :
    Ends (restoreCurrent e)
      ⟨none, containers ++ [⟨e.transaction, [(e.leaf, .tree current)], e.now⟩], true⟩ q r := by
  have hremove := remove_last (some current) true ⟨e.transaction, [], e.now⟩ hfresh
  unfold restoreCurrent setAsideFailed
  rw [ends_bind]
  simp only [ends_get, if_true]
  rw [ends_bind, ends_bind]
  simp only [ends_get, Option.isSome_none, Bool.false_eq_true, if_false, ends_pure]
  rw [ends_bind, ends_returnDisplaced current hfresh (by simp)]
  simp only [List.filter_cons, ne_eq, not_true_eq_false, decide_false, Bool.false_eq_true, if_false,
    List.filter_nil]
  rw [ends_removeIfEmpty (find_last _ _ ⟨e.transaction, [], e.now⟩ hfresh), hremove]
  split_ifs with hlist hempty
  · exact hr _
  · exact hr _
  · exact hq
  · exact absurd rfl hempty

/-- Otherwise it is kept, with the selected backup in it. -/
theorem ends_restore_late {current tree : T} (hfresh : e.transaction ∉ containers.map Container.name)
    (hq : q () ⟨some current, containers ++ [⟨e.transaction, [(e.failedPublish, .tree tree)], e.now⟩], true⟩)
    (hr : ∀ step, r step
      ⟨some current, containers ++ [⟨e.transaction, [(e.failedPublish, .tree tree)], e.now⟩], true⟩) :
    Ends (restoreCurrent e)
      ⟨some tree, containers ++ [⟨e.transaction, [(e.leaf, .tree current)], e.now⟩], true⟩ q r := by
  unfold restoreCurrent setAsideFailed
  rw [ends_bind]
  simp only [ends_get, if_true]
  rw [ends_bind, ends_bind]
  simp only [ends_get, Option.isSome_some, if_true]
  rw [ends_moveAside hfresh, ends_bind, ends_returnDisplaced current hfresh (by simp)]
  simp only [List.cons_append, List.nil_append, List.filter_cons, ne_eq, not_true_eq_false, decide_false,
    Bool.false_eq_true, if_false, e.failedPublish_ne, not_false_eq_true, decide_true, if_true, List.filter_nil]
  rw [ends_removeIfEmpty
    (find_last _ _ ⟨e.transaction, [(e.failedPublish, .tree tree)], e.now⟩ hfresh)]
  split_ifs with hlist hempty
  · exact hr _
  · cases hempty
  · cases hempty
  · exact hq
end Steps

variable {e : Environment N T}

theorem listed_append {selected : Entry N T} {containers others : List (Container N T)}
    (hlisted : selected ∈ backupEntries e containers) : selected ∈ backupEntries e (containers ++ others) := by
  obtain ⟨container, hmem, hitem⟩ := mem_backupEntries.mp hlisted
  exact mem_backupEntries.mpr ⟨container, List.mem_append_left _ hmem, hitem⟩

theorem lookup_take (container : Container N T) (now : ℤ) (name : N) :
    (container.take now name).items.lookup name = none := by
  refine List.lookup_eq_none_iff.mpr fun item hmem => ?_
  have hne : item.1 ≠ name := by simpa using (List.mem_filter.mp hmem).2
  simpa using hne.symm

theorem not_listed {selected : Entry N T} {containers : List (Container N T)} {last : Container N T}
    (hlast : last.items.lookup e.leaf = none) :
    selected ∉ backupEntries e (withoutSelected e containers selected.container ++ [last]) := by
  intro hlisted
  obtain ⟨container, hmem, hitem, -, hname, -⟩ := mem_backupEntries.mp hlisted
  rcases List.mem_append.mp hmem with hmem | hmem
  · obtain ⟨original, -, rfl⟩ := List.mem_map.mp hmem
    split_ifs at hname hitem with horiginal
    · rw [lookup_take] at hitem
      cases hitem
    · exact horiginal hname
  · rw [List.mem_singleton.mp hmem, hlast] at hitem
    cases hitem

/-- The moves are made, and something is refused after them. The directory of the selected backup
is removed only where nothing else is in it. -/
structure FailsLate (e : Environment N T) (before : Situation e) : Prop where
  makeTransaction : e.raises .makeTransaction = false
  fresh : e.transaction ∉ before.containers.map Container.name
  moveCurrent : e.raises .moveCurrent = false
  injected : e.raises .injected = false
  moveSelected : e.raises .moveSelected = false
  refused : e.raises .verify ∨ e.raises .readManifest ∨ e.raises .writeManifest ∨ e.raises .listContainer ∨
    e.raises .removeContainer ∧ ∀ container ∈ before.containers,
      container.name = before.selected.container → ∀ item ∈ container.items, item.1 = e.leaf

section Ends
variable {before : Situation e}

def Recovers (e : Environment N T) (before : Situation e) (step : Step) (run : Run N T) : Prop :=
  Ends (do restoreCurrent e; throw step : Script N T PUnit) run (fun _ _ => True)
    fun _ run => Safe e before run

theorem recovers_unmoved (step : Step) :
    Recovers e before step
      ⟨some before.current, before.containers ++ [⟨e.transaction, [], e.now⟩], false⟩ := by
  unfold Recovers restoreCurrent
  rw [ends_bind, ends_bind]
  exact ⟨rfl, listed_append before.listed⟩

theorem recovers_early (hfresh : e.transaction ∉ before.containers.map Container.name) (step : Step) :
    Recovers e before step
      ⟨none, before.containers ++ [⟨e.transaction, [(e.leaf, .tree before.current)], e.now⟩], true⟩ := by
  unfold Recovers
  rw [ends_bind]
  exact ends_restore_early hfresh ⟨rfl, before.listed⟩ fun _ => ⟨rfl, listed_append before.listed⟩

theorem not_recovers_late {tree : T} (hfresh : e.transaction ∉ before.containers.map Container.name)
    (step : Step) :
    ¬ Recovers e before step ⟨some tree, withoutSelected e before.containers before.selected.container ++
        [⟨e.transaction, [(e.leaf, .tree before.current)], e.now⟩], true⟩ := by
  rw [← names_withoutSelected e before.containers before.selected.container] at hfresh
  have hlost (run : Run N T) (hrun : run.containers =
      withoutSelected e before.containers before.selected.container ++
        [⟨e.transaction, [(e.failedPublish, .tree tree)], e.now⟩]) : ¬ Safe e before run := by
    intro h
    refine not_listed ?_ (hrun ▸ h.2)
    simpa using e.failedPublish_ne.symm
  unfold Recovers
  rw [ends_bind, not_ends]
  exact ends_restore_late hfresh (hlost _ rfl) fun _ => hlost _ rfl

omit [DecidableEq N] in
theorem ends_verify {tree : T} {containers : List (Container N T)} {q : Unit → Run N T → Prop}
    {r : Step → Run N T → Prop} (hauthentic : e.authentic tree = true) :
    Ends (verify e) ⟨some tree, containers, true⟩ q r ↔
      if e.raises .verify then r .verify ⟨some tree, containers, true⟩
      else q () ⟨some tree, containers, true⟩ := by
  unfold verify
  rw [ends_bind, ends_attempt, ends_bind]
  simp only [ends_get, Option.any_some, hauthentic, if_true]
  rfl

theorem find_withoutSelected {container : Container N T} {destination : Option T} {currentMoved : Bool}
    (hmem : container ∈ before.containers) (hname : container.name = before.selected.container) :
    (Run.mk destination (withoutSelected e before.containers before.selected.container) currentMoved).find
      before.selected.container = some (container.take e.now e.leaf) := by
  have hdistinct := before.distinct
  rw [← names_withoutSelected e before.containers before.selected.container] at hdistinct
  have htaken : container.take e.now e.leaf ∈
      withoutSelected e before.containers before.selected.container :=
    List.mem_map.mpr ⟨container, hmem, if_pos hname⟩
  rw [← hname] at *
  exact find_of_mem htaken hdistinct

theorem take_empty_iff {container : Container N T} (hmem : container ∈ before.containers)
    (hname : container.name = before.selected.container) :
    (container.take e.now e.leaf).items.isEmpty ↔ ∀ container ∈ before.containers,
      container.name = before.selected.container → ∀ item ∈ container.items, item.1 = e.leaf := by
  have honly {other : Container N T} (hother : other ∈ before.containers)
      (h : other.name = before.selected.container) : other = container :=
    List.inj_on_of_nodup_map before.distinct hother hmem (h.trans hname.symm)
  rw [List.isEmpty_iff]
  constructor
  · intro h other hother hothername item hitem
    rw [honly hother hothername] at hitem
    simpa using List.filter_eq_nil_iff.mp h item hitem
  · intro h
    refine List.filter_eq_nil_iff.mpr fun item hitem => ?_
    simpa using h container hmem hname item hitem

/-- The part after the moves. -/
theorem safe_after_moves (hfresh : e.transaction ∉ before.containers.map Container.name) :
    Ends (do
        verify e
        attempt e .readManifest
        attempt e .writeManifest
        modify fun run => { run with destination := run.destination.map e.withBackupPath }
        removeIfEmpty e .listContainer .removeContainer before.selected.container)
      ⟨some before.selected.tree, withoutSelected e before.containers before.selected.container ++
        [⟨e.transaction, [(e.leaf, .tree before.current)], e.now⟩], true⟩
      (fun _ _ => True) (Recovers e before) ↔
    ¬ (e.raises .verify ∨ e.raises .readManifest ∨ e.raises .writeManifest ∨ e.raises .listContainer ∨
      e.raises .removeContainer ∧ ∀ container ∈ before.containers,
        container.name = before.selected.container → ∀ item ∈ container.items, item.1 = e.leaf) := by
  obtain ⟨container, hmem, hitem, hauthentic, hname, -⟩ := mem_backupEntries.mp before.listed
  have hne : e.transaction ≠ before.selected.container :=
    fun h => name_ne ⟨e.transaction, [], e.now⟩ hfresh hmem (hname.trans h.symm)
  rw [ends_bind, ends_verify hauthentic, ends_bind, ends_attempt, ends_bind, ends_attempt]
  split_ifs with hverify hread hwrite
  · exact iff_of_false (not_recovers_late hfresh _) fun h => h (.inl hverify)
  · exact iff_of_false (not_recovers_late hfresh _) fun h => h (.inr (.inl hread))
  · exact iff_of_false (not_recovers_late hfresh _) fun h => h (.inr (.inr (.inl hwrite)))
  · rw [ends_bind, ends_modify, ends_removeIfEmpty ((find_of_ne hne).trans (find_withoutSelected hmem hname))]
    split_ifs with hlist hempty hremove
    · exact iff_of_false (not_recovers_late hfresh _) fun h => h (.inr (.inr (.inr (.inl hlist))))
    · exact iff_of_false (not_recovers_late hfresh _)
        fun h => h (.inr (.inr (.inr (.inr ⟨hremove, (take_empty_iff hmem hname).mp hempty⟩))))
    · exact iff_of_true trivial fun h => by simp [hverify, hread, hwrite, hlist, hremove] at h
    · refine iff_of_true trivial fun h => hempty ((take_empty_iff hmem hname).mpr ?_)
      simp only [hverify, hread, hwrite, hlist, Bool.false_eq_true, false_or] at h
      exact h.2
end Ends

def unverified : Environment ℕ ℕ :=
  ⟨0, 1, 2, by decide, 7, fun _ => true, id, fun step => step = .verify⟩

/-- The build 10 is installed, and the directory 3 has the backup 20. -/
def oneBackup : Situation unverified where
  current := 10
  containers := [⟨3, [(0, .tree 20)], 5⟩]
  distinct := by decide
  selected := ⟨3, 20, 5⟩
  listed := .head _

end SubscriptionRouter.RollbackTransaction
