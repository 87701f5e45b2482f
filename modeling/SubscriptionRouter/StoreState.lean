import Mathlib
import SubscriptionRouter.GoText
import SubscriptionRouter.JsonText
import SubscriptionRouter.Tallies

set_option autoImplicit false

/-!
# The account store

The in-memory store, the files and directories it keeps, and the operations that
change both. Every file-system call of an operation has an outcome given in
advance, so a run of an operation is a function of the state and the outcomes. An
operation returns its result together with the state it leaves, also on an error.
-/
namespace SubscriptionRouter.StoreState
open GoText JsonText Tallies

/-- An error text as its format and arguments. -/
structure Error where
  format : String
  args : List GoString := []
  deriving DecidableEq

/-- `fmt.Errorf` with the wrapped error last. -/
def Error.wrap (e : Error) (format : String) (args : List GoString := []) : Error :=
  ⟨format ++ e.format, args ++ e.args⟩

structure Account where
  id : GoString
  label : GoString
  codexHome : GoString
  enabled : Bool
  controller : Bool
  createdAt : ℤ
  deriving DecidableEq

structure RoutingMode where
  mode : GoString
  accountID : GoString
  deriving DecidableEq

def RoutingMode.auto : RoutingMode := ⟨lit "auto", []⟩

structure Store where
  primaryCodexHome : GoString
  accounts : List Account
  owners : GoMap GoString
  routingMode : RoutingMode

/-- The files `state.json` and `routing-mode.json`, and the account directories by id. -/
structure Disk where
  stateFile : Option GoString
  routingModeFile : Option GoString
  homes : List GoString
  removed : List GoString

inductive FsStep where
  | createHome (id : GoString)
  | removeHome (id : GoString)
  | writeState (contents : GoString)
  | writeRoutingMode (contents : GoString)
  | quarantine (id : GoString)
  | discard (id : GoString)
  deriving DecidableEq

def Disk.apply (d : Disk) : FsStep → Disk
  | .createHome id => { d with homes := id :: d.homes.erase id }
  | .removeHome id => { d with homes := d.homes.erase id }
  | .writeState contents => { d with stateFile := some contents }
  | .writeRoutingMode contents => { d with routingModeFile := some contents }
  | .quarantine id => { d with homes := d.homes.erase id, removed := id :: d.removed }
  | .discard id => { d with removed := d.removed.erase id }

/-- A failing call, and whether it took effect before it failed. -/
structure Fault where
  error : Error
  applied : Bool
  deriving DecidableEq

structure Machine where
  store : Store
  disk : Disk
  steps : List FsStep
  outcomes : List (Option Fault)

def Machine.facing (m : Machine) (outcomes : List (Option Fault)) : Machine :=
  { m with outcomes := outcomes }

abbrev Result (α : Type) := Except Error α × Machine

def Result.andThen {α β : Type} (r : Result α) (next : α → Machine → Result β) : Result β :=
  match r with
  | (.ok a, m) => next a m
  | (.error e, m) => (.error e, m)

def Result.orElse {α : Type} (r : Result α) (handler : Error → Machine → Result α) : Result α :=
  match r with
  | (.ok a, m) => (.ok a, m)
  | (.error e, m) => handler e m

def Result.wrap {α : Type} (r : Result α) (format : String) (args : List GoString := []) :
    Result α :=
  (r.1.mapError fun e => e.wrap format args, r.2)

/-- A file-system call that changes what is modelled of the disk. -/
def Machine.perform (m : Machine) (step : FsStep) : Result Unit :=
  match m.outcomes with
  | some fault :: rest => (.error fault.error, { m with
      disk := if fault.applied then m.disk.apply step else m.disk
      steps := if fault.applied then m.steps ++ [step] else m.steps
      outcomes := rest })
  | outcomes => (.ok (), { m with
      disk := m.disk.apply step
      steps := m.steps ++ [step]
      outcomes := outcomes.tail })

/-- A file-system call that changes nothing of it: an inspection, a permission, a config file. -/
def Machine.probe (m : Machine) : Result Unit :=
  match m.outcomes with
  | some fault :: rest => (.error fault.error, { m with outcomes := rest })
  | outcomes => (.ok (), { m with outcomes := outcomes.tail })

/-! ## What the files hold -/

def encodeAccount (a : Account) : Json :=
  .object [(lit "id", .string a.id), (lit "label", .string a.label),
    (lit "codexHome", .string a.codexHome), (lit "enabled", .bool a.enabled),
    (lit "controller", .bool a.controller), (lit "createdAt", .number (itoa a.createdAt))]

def encodeState (s : Store) : Json :=
  .object [(lit "version", .number (lit "1")), (lit "accounts", .array (s.accounts.map encodeAccount)),
    (lit "threadOwner", .object (s.owners.toList.map fun e => (e.1, .string e.2)))]

def stateContents (s : Store) : GoString := marshalIndent (encodeState s) ++ lit "\n"

def encodeRoutingMode (r : RoutingMode) : Json :=
  .object ([(lit "version", .number (lit "1")), (lit "mode", .string r.mode)] ++
    if r.accountID = [] then [] else [(lit "accountId", .string r.accountID)])

def routingModeContents (r : RoutingMode) : GoString := marshal (encodeRoutingMode r) ++ lit "\n"

def Machine.saveLocked (m : Machine) : Result Unit :=
  Result.wrap (m.perform (.writeState (stateContents m.store))) "commit state: "

/-- The check for a reparse point comes first. -/
def Machine.saveRoutingModeLocked (m : Machine) (mode : RoutingMode) : Result Unit :=
  m.probe.andThen fun _ m =>
    (Result.wrap (m.perform (.writeRoutingMode (routingModeContents mode)))
      "commit routing mode: ").andThen fun _ m =>
        (.ok (), { m with store := { m.store with routingMode := mode } })

/-! ## Limits and lookups -/

def maxAccountID : ℕ := 64
def maxAccountLabel : ℕ := 256
def maxThreadID : ℕ := 4096

def RoutingMode.validate (r : RoutingMode) : Bool :=
  r.mode = lit "auto" && r.accountID = [] ||
    r.mode = lit "account" && r.accountID ≠ [] && r.accountID.length ≤ maxAccountID &&
      !(r.accountID.any fun b => b = 0x2F || b = 0x5C || b = 0x00) &&
      !contains r.accountID (lit "..")

def validThreadID (id : GoString) : Bool :=
  id ≠ [] && id = trimSpace id && id.length ≤ maxThreadID && !id.contains 0

def validLabel (label : GoString) : Bool := label.length ≤ maxAccountLabel && !label.contains 0

def Store.account (s : Store) (id : GoString) : Option Account := s.accounts.find? (·.id = id)

def Store.accountExists (s : Store) (id : GoString) : Bool := s.accounts.any (·.id = id)

def Store.threadOwner (s : Store) (threadID : GoString) : Option GoString := s.owners[threadID]?

def Store.controller (s : Store) : Option Account :=
  (s.accounts.find? (·.controller)).orElse fun _ => s.accounts.head?

def Store.enabled (s : Store) (id : GoString) : Bool := s.accounts.any fun a => a.id = id && a.enabled

def notFound (id : GoString) : Error := ⟨"account %q not found", [id]⟩

/-! ## Adding an account -/

/-- What the operating system says about the account homes below one state root:
the managed location of an account's home and the directories on the way to it, its
canonical path, whether a path is that location, and `samePath`. -/
structure Platform where
  expectedHome : GoString → GoString
  homeDirectories : GoString → List GoString
  canonicalHome : GoString → GoString
  managedHome : GoString → GoString → Bool
  samePath : GoString → GoString → Bool
  managed_canonicalHome : ∀ id, managedHome (canonicalHome id) id = true
  samePath_refl : ∀ path, path ≠ [] → samePath path path = true

/-- Eight attempts at a random id that no account has. -/
def freshID (s : Store) (draws : ℕ → Option (Vector UInt8 8)) : ℕ → Except Error GoString
  | 0 => .error ⟨"could not generate a unique account ID", []⟩
  | attempts + 1 => match draws attempts with
    | none => .error ⟨"generate account ID: ", []⟩
    | some bytes =>
      let candidate := hexEncode bytes.toList
      if s.accountExists candidate then freshID s draws attempts else .ok candidate

/-- The checks on a new home, each with the context of its error. -/
def Machine.probeAll (m : Machine) : List (String × List GoString) → Result Unit
  | [] => (.ok (), m)
  | (format, args) :: rest => (Result.wrap m.probe format args).andThen fun _ m => m.probeAll rest

def homeChecks (p : Platform) (id : GoString) : List (String × List GoString) :=
  [("validate account home: ", [])] ++
    (p.homeDirectories id).map (fun directory => ("secure account directory %q: ", [directory])) ++
    [("write account config: ", []), ("canonicalize account home: ", [])]

def newLabel (s : Store) (label : GoString) : GoString :=
  if trimSpace label = [] then lit "Subscription " ++ itoaNat (s.accounts.length + 1)
  else trimSpace label

/-- `cleanup` ignores the error of removing the directory. -/
def Machine.cleanup (m : Machine) (id : GoString) : Machine := (m.perform (.removeHome id)).2

/-- The checks on the created home, and the new account in the state file. -/
def Machine.saveNewAccount (p : Platform) (m : Machine) (id label : GoString) (now : ℤ) :
    Result Account :=
  (m.probeAll (homeChecks p id)).andThen fun _ m =>
    let account : Account := ⟨id, label, p.canonicalHome id, true, false, now⟩
    let previous := m.store
    let added := { m with store := { previous with accounts := previous.accounts ++ [account] } }
    (added.saveLocked.orElse fun e m => (.error e, { m with store := previous })).andThen
      fun _ m => (.ok account, m)

def Machine.addAccount (p : Platform) (m : Machine) (label : GoString)
    (draws : ℕ → Option (Vector UInt8 8)) (now : ℤ) : Result Account :=
  let label := newLabel m.store label
  if !validLabel label then (.error ⟨"account label is invalid", []⟩, m)
  else match freshID m.store draws 8 with
    | .error e => (.error e, m)
    | .ok id =>
      (Result.wrap (m.perform (.createHome id)) "create account home: ").andThen fun _ m =>
        (m.saveNewAccount p id label now).orElse fun e m => (.error e, m.cleanup id)

/-! ## Changing an account -/

/-- The account with its new label, before `enabled` is looked at. -/
def relabel (a : Account) : Option GoString → Except Error Account
  | none => .ok a
  | some label =>
    if trimSpace label = [] then .error ⟨"account label cannot be empty", []⟩
    else if !validLabel (trimSpace label) then .error ⟨"account label is invalid", []⟩
    else .ok { a with label := trimSpace label }

def Machine.updateAccount (m : Machine) (id : GoString) (label : Option GoString)
    (enabled : Option Bool) : Result Account :=
  match m.store.accounts.findIdx? (·.id = id), m.store.account id with
  | some index, some previous =>
    if enabled = some false ∧ previous.controller = true then
      (.error ⟨"controller account cannot be disabled", []⟩, m)
    else match relabel previous label with
      | .error e => (.error e, m)
      | .ok relabeled =>
        let updated := { relabeled with enabled := enabled.getD relabeled.enabled }
        let commit (m : Machine) : Result Account :=
          let before := m.store
          let changed := { m with store := { before with accounts := before.accounts.set index updated } }
          (changed.saveLocked.orElse fun e m => (.error e, { m with store := before })).andThen
            fun _ m => (.ok updated, m)
        if enabled = some false ∧ m.store.routingMode.accountID = id then
          (m.saveRoutingModeLocked .auto).andThen fun _ m => commit m
        else commit m
  | _, _ => (.error (notFound id), m)

/-! ## Thread owners -/

/-- The owners after a batch; the batch is a map, so its order does not matter. -/
def mergeOwners (owners assignments : GoMap GoString) : GoMap GoString :=
  assignments.toList.foldl (fun next e => next.insert e.1 e.2) owners

/-- The first rejected assignment of a batch. -/
def checkAssignments (s : Store) : List (GoString × GoString) → Except Error Unit
  | [] => .ok ()
  | (threadID, accountID) :: rest =>
    if !validThreadID threadID then .error ⟨"invalid thread ID %q", [threadID]⟩
    else if !s.accountExists accountID then .error (notFound accountID)
    else checkAssignments s rest

def Machine.setThreadOwners (m : Machine) (assignments : GoMap GoString) : Result Unit :=
  match checkAssignments m.store assignments.toList with
  | .error e => (.error e, m)
  | .ok () =>
    let changed := assignments.toList.any fun e => (m.store.owners[e.1]?).getD [] ≠ e.2
    if changed then
      let previous := m.store
      let next := { m with store := { previous with owners := mergeOwners previous.owners assignments } }
      next.saveLocked.orElse fun e m => (.error e, { m with store := previous })
    else (.ok (), m)

def Machine.setThreadOwner (m : Machine) (threadID accountID : GoString) : Result Unit :=
  m.setThreadOwners ((∅ : GoMap GoString).insert threadID accountID)

/-! ## Removing an account -/

def pathFree (id : GoString) : Bool :=
  !(contains id (lit "/") || contains id (lit "\\") || contains id (lit ".."))

def Machine.validateSecondaryHome (p : Platform) (m : Machine) (a : Account) : Result GoString :=
  if !p.managedHome a.codexHome a.id then
    (.error ⟨"account %q home %q is outside its managed location %q",
      [a.id, a.codexHome, p.expectedHome a.id]⟩, m)
  else if a.id ∉ m.disk.homes then
    (.error ⟨"inspect account %q home: file does not exist", [a.id]⟩, m)
  else
    (m.probeAll [("inspect account %q home: ", [a.id]), ("account %q home is not trusted: ", [a.id]),
      ("canonicalize account %q home: ", [a.id])]).andThen fun _ m => (.ok (p.canonicalHome a.id), m)

/-- `rollbackRemovalLocked`. -/
def Machine.rollbackRemoval (m : Machine) (previous : Store) (cause : Error) : Result Unit :=
  let back := { m with store := { m.store with
    accounts := previous.accounts, owners := previous.owners } }
  (back.saveLocked.orElse fun e m =>
    (.error (e.wrap (cause.format ++ "\nrollback account metadata: ") cause.args), m)).andThen
      fun _ m => (.error cause, m)

def withoutAccount (s : Store) (id : GoString) : Store :=
  { s with
    accounts := s.accounts.eraseP (·.id = id)
    owners := s.owners.filter fun _ owner => owner ≠ id }

/-- Quarantine and delete the account's directory; `drawn` says whether a random
name for the quarantine could be generated. -/
def Machine.removeHome (m : Machine) (previous : Store) (id : GoString) (drawn : Bool) :
    Result Unit :=
  if !drawn then m.rollbackRemoval previous ⟨"generate cleanup ID: generate account ID: ", []⟩
  else
    match m.perform (.quarantine id) with
    | (.error e, m) => m.rollbackRemoval previous (e.wrap "quarantine account directory: ")
    | (.ok (), m) => Result.wrap (m.perform (.discard id))
        "account metadata removed but quarantined files at %q could not be deleted: " [id]

def Machine.removeAccount (p : Platform) (m : Machine) (id : GoString) (drawn : Bool) :
    Result Unit :=
  if !pathFree id then (.error ⟨"invalid account ID %q", [id]⟩, m)
  else match m.store.account id with
    | none => (.error (notFound id), m)
    | some account =>
      if account.id = lit "primary" ∨ account.controller = true then
        (.error ⟨"primary/controller account cannot be removed", []⟩, m)
      else
        (Result.wrap (m.validateSecondaryHome p account)
          "refuse to remove untrusted account home: ").andThen fun _ m =>
        (if m.store.routingMode.accountID = id then m.saveRoutingModeLocked .auto
          else (.ok (), m)).andThen fun _ m =>
          let previous := m.store
          let next := { m with store := withoutAccount previous id }
          (next.saveLocked.orElse fun e m => (.error e, { m with store := previous })).andThen
            fun _ m => m.removeHome previous id drawn

/-! ## The routing mode -/

def Machine.setRoutingMode (m : Machine) (mode : RoutingMode) : Result Unit :=
  if !mode.validate then
    (.error ⟨"routing mode must be auto, or account with a valid accountId", []⟩, m)
  else if mode.mode = lit "account" ∧ m.store.enabled mode.accountID = false then
    (.error ⟨"routing account must exist and be enabled", []⟩, m)
  else m.saveRoutingModeLocked mode

/-! ## What each operation can do -/

theorem perform_store (m : Machine) (step : FsStep) : (m.perform step).2.store = m.store := by
  unfold Machine.perform
  split <;> rfl

theorem probe_store (m : Machine) : m.probe.2.store = m.store := by
  unfold Machine.probe
  split <;> rfl

def Machine.nextFails (m : Machine) : Prop := ∃ fault rest, m.outcomes = some fault :: rest

theorem perform_ok {m : Machine} (h : ¬ m.nextFails) (step : FsStep) :
    (m.perform step).1 = .ok () := by
  unfold Machine.perform
  split
  · rename_i fault rest ho
    exact absurd ⟨fault, rest, ho⟩ h
  · rfl

theorem perform_error {m : Machine} (h : m.nextFails) (step : FsStep) :
    ∃ e, (m.perform step).1 = .error e := by
  obtain ⟨fault, rest, ho⟩ := h
  exact ⟨fault.error, by rw [Machine.perform, ho]⟩

theorem saveLocked_store (m : Machine) : m.saveLocked.2.store = m.store := perform_store m _

theorem saveLocked_ok {m : Machine} (h : ¬ m.nextFails) : m.saveLocked.1 = .ok () := by
  simp only [Machine.saveLocked, Result.wrap, perform_ok h, Except.mapError]

theorem saveLocked_error {m : Machine} (h : m.nextFails) : ∃ e, m.saveLocked.1 = .error e := by
  obtain ⟨e, he⟩ := perform_error h (.writeState (stateContents m.store))
  exact ⟨e.wrap "commit state: ", by simp only [Machine.saveLocked, Result.wrap, he, Except.mapError]⟩

theorem checkAssignments_ok_iff {s : Store} {l : List (GoString × GoString)} :
    checkAssignments s l = .ok () ↔
      ∀ e ∈ l, validThreadID e.1 = true ∧ s.accountExists e.2 = true := by
  induction l with
  | nil => simp [checkAssignments]
  | cons e l ih =>
    obtain ⟨t, a⟩ := e
    rw [checkAssignments]
    cases ht : validThreadID t <;> cases ha : s.accountExists a <;>
      simp [ht, ha, ih]

theorem getElem?_mergeOwners (owners assignments : GoMap GoString) (t : GoString) :
    (mergeOwners owners assignments)[t]? = (assignments[t]?).or owners[t]? := by
  rw [mergeOwners, getElem?_foldl_toList]

/-- Either the batch is rejected or not written, and nothing changes, or it is
written and the owners are the merged ones. -/
theorem setThreadOwners_owners (m : Machine) (assignments : GoMap GoString) (t : GoString) :
    ((m.setThreadOwners assignments).2.store.threadOwner t = m.store.threadOwner t ∧
      (checkAssignments m.store assignments.toList ≠ .ok () ∨ m.nextFails ∨
        ∀ e ∈ assignments.toList, (m.store.threadOwner e.1).getD [] = e.2)) ∨
    (checkAssignments m.store assignments.toList = .ok () ∧ ¬ m.nextFails ∧
      (m.setThreadOwners assignments).2.store.threadOwner t =
        (assignments[t]?).or (m.store.threadOwner t)) := by
  unfold Machine.setThreadOwners
  cases hc : checkAssignments m.store assignments.toList with
  | error e => exact .inl ⟨rfl, .inl (by simp)⟩
  | ok =>
    dsimp only
    split
    · let next : Machine :=
        { m with store := { m.store with owners := mergeOwners m.store.owners assignments } }
      by_cases hf : m.nextFails
      · obtain ⟨e, he⟩ := saveLocked_error (m := next) hf
        left
        refine ⟨?_, .inr (.inl hf)⟩
        change ((next.saveLocked).orElse _).2.store.threadOwner t = _
        rw [← Prod.eta next.saveLocked, he]
        rfl
      · right
        have hok := saveLocked_ok (m := next) hf
        refine ⟨rfl, hf, ?_⟩
        change ((next.saveLocked).orElse _).2.store.threadOwner t = _
        rw [← Prod.eta next.saveLocked, hok]
        change (next.saveLocked).2.store.owners[t]? = _
        rw [saveLocked_store]
        exact getElem?_mergeOwners _ _ t
    · rename_i hsame
      left
      refine ⟨rfl, .inr (.inr fun e he => ?_)⟩
      simp only [Bool.not_eq_true, List.any_eq_false, decide_eq_true_eq, not_not] at hsame
      exact hsame e he

/-! An assertion about the store goes through the sequencing of calls. -/

section Sequencing
variable {α β : Type} {P : Store → Prop}

theorem andThen_store {r : Result α} {next : α → Machine → Result β}
    (herror : ∀ e, r.1 = .error e → P r.2.store)
    (hok : ∀ a, r.1 = .ok a → P (next a r.2).2.store) : P (r.andThen next).2.store := by
  obtain ⟨e | a, m⟩ := r
  · exact herror e rfl
  · exact hok a rfl

theorem orElse_store {r : Result α} {handler : Error → Machine → Result α}
    (hok : ∀ a, r.1 = .ok a → P r.2.store)
    (herror : ∀ e, r.1 = .error e → P (handler e r.2).2.store) : P (r.orElse handler).2.store := by
  obtain ⟨e | a, m⟩ := r
  · exact herror e rfl
  · exact hok a rfl

theorem probeAll_store (m : Machine) (checks : List (String × List GoString)) :
    (m.probeAll checks).2.store = m.store := by
  induction checks generalizing m with
  | nil => rfl
  | cons check checks ih =>
    refine andThen_store (P := fun s => s = m.store) (fun _ _ => probe_store m) fun _ _ => ?_
    exact (ih _).trans (probe_store m)

theorem saveRoutingModeLocked_cases (m : Machine) (mode : RoutingMode) :
    ((m.saveRoutingModeLocked mode).1 = .ok () ∧
      (m.saveRoutingModeLocked mode).2.store = { m.store with routingMode := mode }) ∨
    ((∃ e, (m.saveRoutingModeLocked mode).1 = .error e) ∧
      (m.saveRoutingModeLocked mode).2.store = m.store) := by
  have hprobe : m.probe.2.store = m.store := probe_store m
  unfold Machine.saveRoutingModeLocked
  rcases hr : m.probe with ⟨e | _, m'⟩
  · rw [hr] at hprobe
    exact .inr ⟨⟨e, rfl⟩, hprobe⟩
  · rw [hr] at hprobe
    have hwrite := perform_store m' (.writeRoutingMode (routingModeContents mode))
    rcases hw : m'.perform (.writeRoutingMode (routingModeContents mode)) with ⟨e | _, m''⟩
    · rw [hw] at hwrite
      exact .inr ⟨⟨e.wrap "commit routing mode: ", by simp [Result.andThen, Result.wrap, hw, Except.mapError]⟩,
        by simpa [Result.andThen, Result.wrap, hw, Except.mapError] using hwrite.trans hprobe⟩
    · rw [hw] at hwrite
      refine .inl ⟨by simp [Result.andThen, Result.wrap, hw, Except.mapError], ?_⟩
      simp [Result.andThen, Result.wrap, hw, Except.mapError, show m''.store = m.store from hwrite.trans hprobe]

theorem saveRoutingMode_store {m : Machine} (mode : RoutingMode) (hm : P m.store)
    (hmode : P { m.store with routingMode := mode }) : P (m.saveRoutingModeLocked mode).2.store := by
  rcases saveRoutingModeLocked_cases m mode with ⟨_, h⟩ | ⟨_, h⟩
  · exact h ▸ hmode
  · exact h ▸ hm

theorem save_or_restore_store {m : Machine} {a : α} (before : Store) (hm : P m.store)
    (hbefore : P before) :
    P ((m.saveLocked.orElse fun e m => (.error e, { m with store := before })).andThen
      fun _ m => ((.ok a, m) : Result α)).2.store := by
  have hsaved : P (m.saveLocked.orElse fun e m => (.error e, { m with store := before })).2.store :=
    orElse_store (fun _ _ => (saveLocked_store m).symm ▸ hm) fun _ _ => hbefore
  exact andThen_store (fun _ _ => hsaved) fun _ _ => hsaved

theorem andThen_ok {r : Result α} {next : α → Machine → Result β} {b : β}
    (h : (r.andThen next).1 = .ok b) :
    ∃ a, r.1 = .ok a ∧ r.andThen next = next a r.2 := by
  obtain ⟨e | a, m⟩ := r
  · cases h
  · exact ⟨a, rfl, rfl⟩

theorem save_or_restore_ok {m : Machine} {a b : α} {before : Store}
    (h : ((m.saveLocked.orElse fun e m => (.error e, { m with store := before })).andThen
      fun _ m => ((.ok a, m) : Result α)).1 = .ok b) :
    b = a ∧ ((m.saveLocked.orElse fun e m => (.error e, { m with store := before })).andThen
      fun _ m => ((.ok a, m) : Result α)).2.store = m.store := by
  have hstore := saveLocked_store m
  rcases hr : m.saveLocked with ⟨e | _, saved⟩
  · rw [hr] at h
    cases h
  · rw [hr] at h hstore
    obtain rfl := Except.ok.inj h
    exact ⟨rfl, hstore⟩

end Sequencing

theorem setThreadOwners_store {P : Store → Prop} (m : Machine) (assignments : GoMap GoString)
    (hm : P m.store) (hmerged : checkAssignments m.store assignments.toList = .ok () →
      P { m.store with owners := mergeOwners m.store.owners assignments }) :
    P (m.setThreadOwners assignments).2.store := by
  unfold Machine.setThreadOwners
  split
  · exact hm
  · rename_i hok
    dsimp only
    split
    · exact orElse_store (fun _ _ => (saveLocked_store _).symm ▸ hmerged hok) fun _ _ => hm
    · exact hm

theorem freshID_fresh {s : Store} {draws : ℕ → Option (Vector UInt8 8)} {attempts : ℕ} {id : GoString}
    (h : freshID s draws attempts = .ok id) :
    s.accountExists id = false ∧ ∃ bytes : Vector UInt8 8, id = hexEncode bytes.toList := by
  induction attempts with
  | zero => cases h
  | succ attempts ih =>
    rw [freshID] at h
    split at h
    · cases h
    · rename_i bytes _
      dsimp only at h
      split at h
      · exact ih h
      · rename_i hfree
        obtain rfl := Except.ok.inj h
        exact ⟨by simpa using hfree, bytes, rfl⟩

theorem saveNewAccount_store {P : Store → Prop} (p : Platform) {m : Machine} {id label : GoString}
    {now : ℤ} (hm : P m.store)
    (hadded : P { m.store with
      accounts := m.store.accounts ++ [⟨id, label, p.canonicalHome id, true, false, now⟩] }) :
    P (m.saveNewAccount p id label now).2.store := by
  have hchecked := probeAll_store m (homeChecks p id)
  refine andThen_store (fun _ _ => hchecked.symm ▸ hm) fun _ _ => ?_
  refine save_or_restore_store _ ?_ (hchecked.symm ▸ hm)
  dsimp only
  rw [hchecked]
  exact hadded

/-- The store after `addAccount` is the old one, or has one more account with a fresh id. -/
theorem addAccount_store {P : Store → Prop} (p : Platform) (m : Machine) (label : GoString)
    (draws : ℕ → Option (Vector UInt8 8)) (now : ℤ) (hm : P m.store)
    (hadded : ∀ bytes : Vector UInt8 8, m.store.accountExists (hexEncode bytes.toList) = false →
      validLabel (newLabel m.store label) = true →
      P { m.store with accounts := m.store.accounts ++ [⟨hexEncode bytes.toList,
        newLabel m.store label, p.canonicalHome (hexEncode bytes.toList), true, false, now⟩] }) :
    P (m.addAccount p label draws now).2.store := by
  unfold Machine.addAccount
  dsimp only
  split
  · exact hm
  · rename_i hlabel
    split
    · exact hm
    · rename_i id hid
      obtain ⟨hfree, bytes, rfl⟩ := freshID_fresh hid
      have hcreated := perform_store m (.createHome (hexEncode bytes.toList))
      refine andThen_store (fun _ _ => hcreated.symm ▸ hm) fun _ _ => ?_
      have hsaved : ∀ m' : Machine, m'.store = m.store →
          P (m'.saveNewAccount p (hexEncode bytes.toList) (newLabel m.store label) now).2.store :=
        fun m' hm' => saveNewAccount_store p (hm' ▸ hm)
          (hm' ▸ hadded bytes hfree (by simpa using hlabel))
      refine orElse_store (fun _ _ => hsaved _ hcreated) fun _ _ => ?_
      exact (perform_store _ (.removeHome _)).symm ▸ hsaved _ hcreated

theorem relabel_spec {a b : Account} {label : Option GoString} (h : relabel a label = .ok b) :
    b.id = a.id ∧ b.enabled = a.enabled ∧ b.controller = a.controller ∧
      b.codexHome = a.codexHome ∧ b.createdAt = a.createdAt := by
  unfold relabel at h
  split at h
  · cases h
    simp
  · split at h
    · cases h
    · split at h
      · cases h
      · cases h
        simp

theorem getElem?_of_findIdx? {s : Store} {id : GoString} {i : ℕ} {a : Account}
    (hi : s.accounts.findIdx? (·.id = id) = some i) (ha : s.account id = some a) :
    s.accounts[i]? = some a := by
  obtain ⟨hlt, hp, hbefore⟩ := List.findIdx?_eq_some_iff_getElem.mp hi
  obtain ⟨_, j, hj, rfl, hfirst⟩ := List.find?_eq_some_iff_getElem.mp ha
  rcases Nat.lt_trichotomy i j with h | rfl | h
  · exact absurd hp (by simpa using hfirst i h)
  · exact List.getElem?_eq_getElem hj
  · rename_i hpj
    exact absurd hpj (by simpa using hbefore j h)

theorem updateAccount_store {P : Store → Prop} (m : Machine) (id : GoString)
    (label : Option GoString) (enabled : Option Bool) (hm : P m.store)
    (hauto : enabled = some false → m.store.routingMode.accountID = id →
      P { m.store with routingMode := .auto })
    (hset : ∀ index previous relabeled, m.store.accounts.findIdx? (·.id = id) = some index →
      m.store.account id = some previous → relabel previous label = .ok relabeled →
      ¬ (enabled = some false ∧ previous.controller = true) → ∀ mode,
      (mode = if enabled = some false ∧ m.store.routingMode.accountID = id then .auto
        else m.store.routingMode) →
      P { m.store with
        routingMode := mode
        accounts := m.store.accounts.set index
          { relabeled with enabled := enabled.getD relabeled.enabled } }) :
    P (m.updateAccount id label enabled).2.store := by
  unfold Machine.updateAccount
  split
  · rename_i index previous hindex hprevious
    split
    · exact hm
    · rename_i hcontroller
      split
      · exact hm
      · rename_i relabeled hrelabel
        have hset := hset index previous relabeled hindex hprevious hrelabel hcontroller
        dsimp only
        split
        · rename_i hoff
          have hset := hset .auto (if_pos hoff).symm
          rcases saveRoutingModeLocked_cases m .auto with ⟨_, hstore⟩ | ⟨⟨e, he⟩, hstore⟩
          · refine andThen_store (fun _ _ => hstore ▸ hauto hoff.1 hoff.2) fun _ _ => ?_
            refine save_or_restore_store _ ?_ (hstore ▸ hauto hoff.1 hoff.2)
            dsimp only
            rw [hstore]
            exact hset
          · refine andThen_store (fun _ _ => hstore ▸ hm) fun _ hok => ?_
            rw [he] at hok
            cases hok
        · rename_i hoff
          exact save_or_restore_store _ (hset m.store.routingMode (if_neg hoff).symm) hm
  · exact hm

/-- What `updateAccount` returns is in the store it leaves, under the id it was asked for. -/
theorem updateAccount_ok {m : Machine} {id : GoString} {label : Option GoString}
    {enabled : Option Bool} {updated : Account}
    (h : (m.updateAccount id label enabled).1 = .ok updated) :
    updated.id = id ∧ (∀ on, enabled = some on → updated.enabled = on) ∧
      ∃ index, m.store.accounts.findIdx? (·.id = id) = some index ∧
        (m.updateAccount id label enabled).2.store.accounts = m.store.accounts.set index updated := by
  unfold Machine.updateAccount at h ⊢
  split at h
  · rename_i index previous hindex hprevious
    split at h
    · cases h
    · rename_i hcontroller
      split at h
      · cases h
      · rename_i relabeled hrelabel
        simp only [hindex, hcontroller, if_false]
        dsimp only at h
        have hid : relabeled.id = id :=
          (relabel_spec hrelabel).1.trans (by simpa using List.find?_some hprevious)
        have hon : ∀ on, enabled = some on → enabled.getD relabeled.enabled = on := by
          rintro on rfl
          rfl
        split at h
        · rename_i hoff
          obtain ⟨_, hmode, hr⟩ := andThen_ok h
          rw [hr] at h
          obtain ⟨rfl, hstore⟩ := save_or_restore_ok h
          rw [if_pos hoff, hr, hstore]
          rcases saveRoutingModeLocked_cases m .auto with ⟨_, hs⟩ | ⟨⟨e, he⟩, _⟩
          · rw [hs]
            exact ⟨hid, hon, index, rfl, rfl⟩
          · rw [he] at hmode
            cases hmode
        · rename_i hoff
          obtain ⟨rfl, hstore⟩ := save_or_restore_ok h
          rw [if_neg hoff, hstore]
          exact ⟨hid, hon, index, rfl, rfl⟩
  · cases h

theorem validateSecondaryHome_store (p : Platform) (m : Machine) (a : Account) :
    (m.validateSecondaryHome p a).2.store = m.store := by
  unfold Machine.validateSecondaryHome
  split
  · rfl
  · split
    · rfl
    · have h := probeAll_store m [("inspect account %q home: ", [a.id]),
        ("account %q home is not trusted: ", [a.id]), ("canonicalize account %q home: ", [a.id])]
      exact andThen_store (P := fun s => s = m.store) (fun _ _ => h) fun _ _ => h

theorem rollbackRemoval_store {m : Machine} {previous : Store} {id : GoString} (cause : Error)
    (h : m.store = withoutAccount previous id) :
    (m.rollbackRemoval previous cause).2.store = previous := by
  unfold Machine.rollbackRemoval
  have hback : { m.store with accounts := previous.accounts, owners := previous.owners } =
      previous := by
    rw [h]
    rfl
  dsimp only
  rw [hback]
  have hsaved := saveLocked_store { m with store := previous }
  refine andThen_store (P := fun s => s = previous) (fun _ _ => ?_) fun _ _ => ?_
  · exact orElse_store (P := fun s => s = previous) (fun _ _ => hsaved) fun _ _ => hsaved
  · exact orElse_store (P := fun s => s = previous) (fun _ _ => hsaved) fun _ _ => hsaved

theorem removeHome_store {P : Store → Prop} {m : Machine} {previous : Store} {id : GoString}
    (drawn : Bool) (h : m.store = withoutAccount previous id) (hprevious : P previous)
    (hgone : P (withoutAccount previous id)) : P (m.removeHome previous id drawn).2.store := by
  unfold Machine.removeHome
  split
  · rw [rollbackRemoval_store _ h]
    exact hprevious
  · have hq := (perform_store m (.quarantine id)).trans h
    split
    · rename_i e m' hr
      rw [hr] at hq
      rw [rollbackRemoval_store _ hq]
      exact hprevious
    · rename_i m' hr
      rw [hr] at hq
      change P (m'.perform (.discard id)).2.store
      rw [perform_store, show m'.store = _ from hq]
      exact hgone

/-- The store after `removeAccount` is the old one with or without the account, and
routes automatically if that account was selected and its removal got that far. -/
theorem removeAccount_store {P : Store → Prop} (p : Platform) (m : Machine) (id : GoString)
    (drawn : Bool) (hm : P m.store)
    (hauto : m.store.routingMode.accountID = id → P { m.store with routingMode := .auto })
    (hgone : ∀ a, m.store.account id = some a → a.id ≠ lit "primary" → a.controller = false →
      ∀ mode, (mode = if m.store.routingMode.accountID = id then .auto else m.store.routingMode) →
      P (withoutAccount { m.store with routingMode := mode } id)) :
    P (m.removeAccount p id drawn).2.store := by
  unfold Machine.removeAccount
  split
  · exact hm
  · split
    · exact hm
    · rename_i a ha
      split
      · exact hm
      · rename_i hprimary
        obtain ⟨hid, hcontroller⟩ := not_or.mp hprimary
        have hhome := validateSecondaryHome_store p m a
        refine andThen_store (fun _ _ => hhome.symm ▸ hm) fun _ _ => ?_
        set m₁ := (Result.wrap (m.validateSecondaryHome p a)
          "refuse to remove untrusted account home: ").2
        replace hhome : m₁.store = m.store := hhome
        have hfinish : ∀ (m₂ : Machine) (mode : RoutingMode),
            m₂.store = { m.store with routingMode := mode } →
            (mode = if m.store.routingMode.accountID = id then .auto else m.store.routingMode) →
            P m₂.store → P (({ m₂ with store := withoutAccount m₂.store id }.saveLocked.orElse
              fun e m => (.error e, { m with store := m₂.store })).andThen
                fun _ m => m.removeHome m₂.store id drawn).2.store := by
          intro m₂ mode hm₂ hmode hP
          have hnext := hgone a ha hid (by simpa using hcontroller) mode hmode
          rw [← hm₂] at hnext
          have hsaved := saveLocked_store { m₂ with store := withoutAccount m₂.store id }
          refine andThen_store (fun _ _ => ?_) fun _ hok => ?_
          · exact orElse_store (fun _ _ => hsaved.symm ▸ hnext) fun _ _ => hP
          · refine removeHome_store drawn ?_ hP hnext
            rcases hr : { m₂ with store := withoutAccount m₂.store id }.saveLocked with ⟨e | _, m₃⟩
            · rw [hr] at hok
              cases hok
            · rw [hr] at hsaved
              rw [hr]
              exact hsaved
        rw [hhome]
        split
        · rename_i hselected
          have hP := hauto hselected
          rcases saveRoutingModeLocked_cases m₁ .auto with ⟨_, hstore⟩ | ⟨⟨e, he⟩, hstore⟩
          · rw [hhome] at hstore
            refine andThen_store (fun _ _ => hstore.symm ▸ hP) fun _ _ => ?_
            exact hfinish _ .auto hstore (if_pos hselected).symm (hstore.symm ▸ hP)
          · refine andThen_store (fun _ _ => ?_) fun _ hok => ?_
            · rw [hstore, hhome]
              exact hm
            · rw [he] at hok
              cases hok
        · rename_i hselected
          refine andThen_store (fun _ _ => hhome.symm ▸ hm) fun _ _ => ?_
          exact hfinish m₁ m.store.routingMode hhome (if_neg hselected).symm (hhome.symm ▸ hm)

theorem setRoutingMode_cases (m : Machine) (mode : RoutingMode) :
    ((m.setRoutingMode mode).1 = .ok () ∧
      (m.setRoutingMode mode).2.store = { m.store with routingMode := mode } ∧
      mode.validate = true ∧ (mode.mode = lit "account" → m.store.enabled mode.accountID = true)) ∨
    ((∃ e, (m.setRoutingMode mode).1 = .error e) ∧ (m.setRoutingMode mode).2.store = m.store) := by
  unfold Machine.setRoutingMode
  split
  · exact .inr ⟨⟨_, rfl⟩, rfl⟩
  · rename_i hvalid
    split
    · exact .inr ⟨⟨_, rfl⟩, rfl⟩
    · rename_i henabled
      rcases saveRoutingModeLocked_cases m mode with ⟨hok, hstore⟩ | h
      · exact .inl ⟨hok, hstore, by simpa using hvalid, fun ha => by simpa [ha] using henabled⟩
      · exact .inr h

theorem accountID_of_validate {mode : RoutingMode} (h : mode.validate = true)
    (haccount : mode.mode = lit "account") : mode.accountID ≠ [] := by
  intro hid
  rw [RoutingMode.validate, haccount, hid] at h
  exact absurd h (by decide)

/-! ## Owners and the routing mode -/

theorem addAccount_owners (p : Platform) (m : Machine) (label : GoString)
    (draws : ℕ → Option (Vector UInt8 8)) (now : ℤ) :
    (m.addAccount p label draws now).2.store.owners = m.store.owners :=
  addAccount_store (P := fun s => s.owners = m.store.owners) p m label draws now rfl
    fun _ _ _ => rfl

theorem updateAccount_owners (m : Machine) (id : GoString) (label : Option GoString)
    (enabled : Option Bool) :
    (m.updateAccount id label enabled).2.store.owners = m.store.owners :=
  updateAccount_store (P := fun s => s.owners = m.store.owners) m id label enabled rfl
    (fun _ _ => rfl) fun _ _ _ _ _ _ _ _ _ => rfl

theorem withoutAccount_threadOwner (s : Store) (id t : GoString) :
    (withoutAccount s id).threadOwner t = s.threadOwner t ∨ s.threadOwner t = some id := by
  change (s.owners.filter _)[t]? = s.owners[t]? ∨ s.owners[t]? = some id
  rw [Std.ExtTreeMap.getElem?_filter']
  cases s.owners[t]? with
  | none => exact .inl rfl
  | some owner =>
    by_cases ho : owner = id
    · exact .inr (by rw [ho])
    · exact .inl (by simp [ho])

theorem removeAccount_threadOwner (p : Platform) (m : Machine) (id : GoString) (drawn : Bool)
    (t : GoString) : (m.removeAccount p id drawn).2.store.threadOwner t = m.store.threadOwner t ∨
      m.store.threadOwner t = some id :=
  removeAccount_store (P := fun s => s.threadOwner t = m.store.threadOwner t ∨
      m.store.threadOwner t = some id) p m id drawn (.inl rfl) (fun _ => .inl rfl)
    fun _ _ _ _ mode _ => withoutAccount_threadOwner { m.store with routingMode := mode } id t

theorem addAccount_routingMode (p : Platform) (m : Machine) (label : GoString)
    (draws : ℕ → Option (Vector UInt8 8)) (now : ℤ) :
    (m.addAccount p label draws now).2.store.routingMode = m.store.routingMode :=
  addAccount_store (P := fun s => s.routingMode = m.store.routingMode) p m label draws now rfl
    fun _ _ _ => rfl

theorem updateAccount_routingMode (m : Machine) {id : GoString} (label : Option GoString)
    {enabled : Option Bool} (h : ¬ (enabled = some false ∧ m.store.routingMode.accountID = id)) :
    (m.updateAccount id label enabled).2.store.routingMode = m.store.routingMode :=
  updateAccount_store (P := fun s => s.routingMode = m.store.routingMode) m id label enabled rfl
    (fun ho hid => absurd ⟨ho, hid⟩ h) fun _ _ _ _ _ _ _ _ hmode => hmode.trans (if_neg h)

def Store.routable (s : Store) : Prop :=
  s.routingMode.mode = lit "account" → s.enabled s.routingMode.accountID = true

theorem auto_mode_ne : RoutingMode.auto.mode ≠ lit "account" := by decide

theorem routable_of_auto {s : Store} (h : s.routingMode = .auto) : s.routable := by
  intro haccount
  rw [h] at haccount
  exact absurd haccount auto_mode_ne

theorem enabled_iff {s : Store} {id : GoString} :
    s.enabled id = true ↔ ∃ a ∈ s.accounts, a.id = id ∧ a.enabled = true := by
  simp [Store.enabled]

theorem addAccount_routable (p : Platform) {m : Machine} (label : GoString)
    (draws : ℕ → Option (Vector UInt8 8)) (now : ℤ) (hm : m.store.routable) :
    (m.addAccount p label draws now).2.store.routable := by
  refine addAccount_store p m label draws now hm fun _ _ _ hmode => ?_
  obtain ⟨a, ha, h⟩ := enabled_iff.mp (hm hmode)
  exact enabled_iff.mpr ⟨a, List.mem_append_left _ ha, h⟩

theorem updateAccount_routable {m : Machine} (id : GoString) (label : Option GoString)
    (enabled : Option Bool) (hm : m.store.routable) :
    (m.updateAccount id label enabled).2.store.routable := by
  refine updateAccount_store m id label enabled hm (fun _ _ => routable_of_auto rfl) ?_
  intro i previous relabeled hi hprevious hrelabel _ mode hmode
  split at hmode
  · subst hmode
    exact routable_of_auto rfl
  · rename_i hoff
    subst hmode
    intro haccount
    obtain ⟨a, ha, hid, hen⟩ := enabled_iff.mp (hm haccount)
    obtain ⟨j, hj⟩ := List.mem_iff_getElem?.mp ha
    have hindex := getElem?_of_findIdx? hi hprevious
    have hspec := relabel_spec hrelabel
    refine enabled_iff.mpr ?_
    by_cases hji : j = i
    · -- The account itself: it is not being disabled.
      subst hji
      obtain rfl := Option.some.inj (hj.symm.trans hindex)
      have hselected : m.store.routingMode.accountID = id :=
        hid.symm.trans (by simpa using List.find?_some hprevious)
      refine ⟨_, List.mem_of_getElem? (List.getElem?_set_self (List.getElem?_eq_some_iff.mp hj).1),
        hspec.1.trans hid, ?_⟩
      cases enabled with
      | none => exact hspec.2.1.trans hen
      | some on =>
        cases on with
        | false => exact absurd ⟨rfl, hselected⟩ hoff
        | true => rfl
    · exact ⟨a, List.mem_of_getElem? ((List.getElem?_set_ne (Ne.symm hji)).trans hj), hid, hen⟩

theorem removeAccount_routable (p : Platform) {m : Machine} (id : GoString) (drawn : Bool)
    (hm : m.store.routable) : (m.removeAccount p id drawn).2.store.routable := by
  refine removeAccount_store p m id drawn hm (fun _ => routable_of_auto rfl) ?_
  intro _ _ _ _ mode hmode
  split at hmode
  · subst hmode
    exact routable_of_auto rfl
  · rename_i hselected
    subst hmode
    intro haccount
    obtain ⟨a, ha, hid, hen⟩ := enabled_iff.mp (hm haccount)
    refine enabled_iff.mpr ⟨a, ?_, hid, hen⟩
    exact (List.mem_eraseP_of_neg (by simpa [hid] using hselected)).mpr ha

theorem setRoutingMode_routable {m : Machine} (mode : RoutingMode) (hm : m.store.routable) :
    (m.setRoutingMode mode).2.store.routable := by
  rcases setRoutingMode_cases m mode with ⟨_, hstore, _, henabled⟩ | ⟨_, hstore⟩
  · rw [hstore]
    exact henabled
  · rw [hstore]
    exact hm

theorem setThreadOwner_other (m : Machine) (threadID accountID : GoString) {t : GoString}
    (h : t ≠ threadID) :
    (m.setThreadOwner threadID accountID).2.store.threadOwner t = m.store.threadOwner t := by
  rcases setThreadOwners_owners m ((∅ : GoMap GoString).insert threadID accountID) t with
    ⟨hsame, _⟩ | ⟨_, _, hnew⟩
  · exact hsame
  · refine hnew.trans ?_
    have : ((∅ : GoMap GoString).insert threadID accountID)[t]? = none := by
      rw [Std.ExtTreeMap.getElem?_insert, if_neg fun he => h (Std.LawfulEqCmp.eq_of_compare he).symm]
      rfl
    rw [this, Option.none_or]

/-- A batch that leaves a thread out, or gives it the owner it has, keeps its owner. -/
theorem setThreadOwners_kept (m : Machine) {assignments : GoMap GoString} {t owner : GoString}
    (ho : m.store.threadOwner t = some owner)
    (h : ∀ a : GoString, assignments[t]? = some a → a = owner) :
    (m.setThreadOwners assignments).2.store.threadOwner t = some owner := by
  rcases setThreadOwners_owners m assignments t with ⟨hsame, _⟩ | ⟨_, _, hnew⟩
  · exact hsame.trans ho
  · rw [hnew]
    cases ha : assignments[t]? with
    | none => exact ho
    | some a => rw [h a ha]; rfl

def plainPlatform : Platform where
  expectedHome id := lit "/accounts/" ++ id
  homeDirectories _ := []
  canonicalHome id := lit "/accounts/" ++ id
  managedHome home id := home = lit "/accounts/" ++ id
  samePath a b := a = b
  managed_canonicalHome := by simp
  samePath_refl := by simp

/-- Account `a`, the controller, and account `b`; `owner` has the thread `t`. -/
def twoAccounts (owner : GoString) : Machine where
  store := {
    primaryCodexHome := lit "/home"
    accounts := [⟨lit "a", lit "A", lit "/home", true, true, 0⟩, ⟨lit "b", lit "B", lit "/b", true, false, 0⟩]
    owners := (∅ : GoMap GoString).insert (lit "t") owner
    routingMode := .auto }
  disk := ⟨none, none, [], []⟩
  steps := []
  outcomes := []

end SubscriptionRouter.StoreState
