import Mathlib
import SubscriptionRouter.Messages
import SubscriptionRouter.StoreState

set_option autoImplicit false

/-!
# Opening the store

`Open` decodes the state file, validates what it says, and then reads the routing mode.
A file that was not there is written with the primary account alone.
-/
namespace SubscriptionRouter.StoreOpen
open GoText JsonText Messages StoreState

/-! ## Decoding -/

structure PersistedState where
  version : ℤ
  accounts : List Account
  threadOwner : GoMap GoString

/-- A slice that is decoded into: its elements, and what its array holds after them. -/
structure Slice where
  elements : List Account
  rest : List Account

/-- The struct that `Decode` fills, with the slice's array still in view. -/
structure Decoded where
  version : ℤ
  accounts : Slice
  threadOwner : GoMap GoString

def Decoded.zero : Decoded := ⟨0, ⟨[], []⟩, ∅⟩

def zeroAccount : Account := ⟨[], [], [], false, false, 0⟩

/-- A `null` leaves the value as it was. -/
def decodeString (old : GoString) : Json → Option GoString
  | .string s => some s
  | .null => some old
  | _ => none

def decodeBool (old : Bool) : Json → Option Bool
  | .bool b => some b
  | .null => some old
  | _ => none

def decodeInt (old : ℤ) : Json → Option ℤ
  | .number literal => parseInt64 literal
  | .null => some old
  | _ => none

/-- The members of an object one after the other; `field` rejects an unknown name. -/
def decodeMembers {α : Type} (field : α → GoString → Json → Option α) :
    α → List (GoString × Json) → Option α
  | value, [] => some value
  | value, (name, v) :: ms => (field value name v).bind fun value => decodeMembers field value ms

def decodeObject {α : Type} (field : α → GoString → Json → Option α) (old : α) : Json → Option α
  | .object ms => decodeMembers field old ms
  | .null => some old
  | _ => none

def accountFields : List GoString :=
  [lit "id", lit "label", lit "codexHome", lit "enabled", lit "controller", lit "createdAt"]

def accountField (a : Account) (name : GoString) (v : Json) : Option Account :=
  match (matchField accountFields name).bind fun f => accountFields.idxOf? f with
  | some 0 => (decodeString a.id v).map fun id => { a with id }
  | some 1 => (decodeString a.label v).map fun label => { a with label }
  | some 2 => (decodeString a.codexHome v).map fun codexHome => { a with codexHome }
  | some 3 => (decodeBool a.enabled v).map fun enabled => { a with enabled }
  | some 4 => (decodeBool a.controller v).map fun controller => { a with controller }
  | some 5 => (decodeInt a.createdAt v).map fun createdAt => { a with createdAt }
  | _ => none

/-- The elements of an array, decoded into what the slice's array holds. -/
def decodeElements : List Account → List Json → Option Slice
  | array, [] => some ⟨[], array⟩
  | array, v :: vs => (decodeObject accountField (array.head?.getD zeroAccount) v).bind fun a =>
    (decodeElements array.tail vs).map fun s => ⟨a :: s.elements, s.rest⟩

def decodeSlice (old : Slice) : Json → Option Slice
  | .array [] => some ⟨[], []⟩
  | .array vs => decodeElements (old.elements ++ old.rest) vs
  | .null => some ⟨[], []⟩
  | _ => none

def ownerField (owners : GoMap GoString) (name : GoString) (v : Json) : Option (GoMap GoString) :=
  (decodeString [] v).map fun owner => owners.insert name owner

def decodeOwners (old : GoMap GoString) : Json → Option (GoMap GoString)
  | .object ms => decodeMembers ownerField old ms
  | .null => some ∅
  | _ => none

def stateFields : List GoString := [lit "version", lit "accounts", lit "threadOwner"]

def stateField (d : Decoded) (name : GoString) (v : Json) : Option Decoded :=
  match (matchField stateFields name).bind fun f => stateFields.idxOf? f with
  | some 0 => (decodeInt d.version v).map fun version => { d with version }
  | some 1 => (decodeSlice d.accounts v).map fun accounts => { d with accounts }
  | some 2 => (decodeOwners d.threadOwner v).map fun threadOwner => { d with threadOwner }
  | _ => none

/-- The one document of a file, without duplicate keys. The check for these reads every
number as a float. -/
def strictParse (data : GoString) : Option Json :=
  (parse data).filter fun v => uniqueNames v && decodesToAny v

def decodePersistedState (data : GoString) : Option PersistedState :=
  (strictParse data).bind fun v => (decodeObject stateField .zero v).map fun d =>
    ⟨d.version, d.accounts.elements, d.threadOwner⟩

/-- The version and the routing mode of the sidecar. -/
def routingModeField (r : ℤ × RoutingMode) (name : GoString) (v : Json) : Option (ℤ × RoutingMode) :=
  let fields := [lit "version", lit "mode", lit "accountId"]
  match (matchField fields name).bind fun f => fields.idxOf? f with
  | some 0 => (decodeInt r.1 v).map fun version => (version, r.2)
  | some 1 => (decodeString r.2.mode v).map fun mode => (r.1, { r.2 with mode })
  | some 2 => (decodeString r.2.accountID v).map fun accountID => (r.1, { r.2 with accountID })
  | _ => none

def decodeRoutingMode (data : GoString) : Option (ℤ × RoutingMode) :=
  (strictParse data).bind (decodeObject routingModeField (0, ⟨[], []⟩))

/-! ## Validation -/

def maxStateFileSize : ℕ := 64 * 2 ^ 20
def maxAccounts : ℕ := 64
def maxRoutingModeFileSize : ℕ := 4096

def validAccountID (id : GoString) : Bool :=
  id ≠ [] && id.length ≤ maxAccountID && id.all fun b =>
    0x61 ≤ b && b ≤ 0x7A || 0x41 ≤ b && b ≤ 0x5A || 0x30 ≤ b && b ≤ 0x39 || b = 0x2D || b = 0x5F

/-- The checks of an account before its home; `seen` are the ids before it, case removed. -/
def checkAccount (index : ℕ) (seen : List GoString) (a : Account) : Except Error Unit :=
  if !validAccountID a.id then .error (Error.wrap ⟨"invalid account ID %q", [a.id]⟩ "account %d: " [itoaNat index])
  else if asciiLower a.id ∈ seen then .error ⟨"duplicate account ID %q", [a.id]⟩
  else if trimSpace a.label = [] ∨ a.label ≠ trimSpace a.label then
    .error ⟨"account %q has an empty or untrimmed label", [a.id]⟩
  else if !validLabel a.label then .error ⟨"account %q label is invalid", [a.id]⟩
  else if a.createdAt < 0 then .error ⟨"account %q has a negative creation time", [a.id]⟩
  else if a.controller = true ∧ a.enabled = false then
    .error ⟨"controller account %q must be enabled", [a.id]⟩
  else .ok ()

def checkHome (p : Platform) (primaryCodexHome : GoString) (m : Machine) (a : Account) :
    Result GoString :=
  if a.id = lit "primary" then
    if a.controller = false then (.error ⟨"primary account must be the controller", []⟩, m)
    else if !p.samePath a.codexHome primaryCodexHome then
      (.error ⟨"primary Codex home %q does not match configured home %q",
        [a.codexHome, primaryCodexHome]⟩, m)
    else (.ok primaryCodexHome, m)
  else m.validateSecondaryHome p a

/-- The accounts with their canonical homes. -/
def validateAccounts (p : Platform) (primaryCodexHome : GoString) (m : Machine) (index : ℕ)
    (seen : List GoString) : List Account → Result (List Account)
  | [] => (.ok [], m)
  | a :: rest => match checkAccount index seen a with
    | .error e => (.error e, m)
    | .ok () => (checkHome p primaryCodexHome m a).andThen fun home m =>
      (validateAccounts p primaryCodexHome m (index + 1) (asciiLower a.id :: seen) rest).andThen
        fun rest m => (.ok ({ a with codexHome := home } :: rest), m)

/-- The first two accounts that share a home. -/
def sharedHome (p : Platform) : List Account → Option (Account × Account)
  | [] => none
  | a :: rest => match rest.find? fun b => p.samePath a.codexHome b.codexHome with
    | some b => some (a, b)
    | none => sharedHome p rest

def checkOwners (accounts : List Account) : List (GoString × GoString) → Except Error Unit
  | [] => .ok ()
  | (threadID, accountID) :: rest =>
    if !validThreadID threadID then .error ⟨"invalid thread ID %q", [threadID]⟩
    else if !accounts.any (·.id = accountID) then
      .error ⟨"thread %q references unknown account %q", [threadID, accountID]⟩
    else checkOwners accounts rest

def validatePersistedState (p : Platform) (primaryCodexHome : GoString) (m : Machine)
    (persisted : PersistedState) : Result (List Account × GoMap GoString) :=
  if persisted.version ≠ 1 then
    (.error ⟨"unsupported state version %d", [itoa persisted.version]⟩, m)
  else if persisted.accounts = [] then (.error ⟨"state must contain a primary account", []⟩, m)
  else if maxAccounts < persisted.accounts.length then
    (.error ⟨"state contains %d accounts, limit is %d",
      [itoaNat persisted.accounts.length, itoaNat maxAccounts]⟩, m)
  else (validateAccounts p primaryCodexHome m 0 [] persisted.accounts).andThen fun accounts m =>
    let primaryCount := accounts.countP (·.id = lit "primary")
    let controllerCount := accounts.countP (·.controller)
    if primaryCount ≠ 1 then
      (.error ⟨"state has %d primary accounts, want exactly 1", [itoaNat primaryCount]⟩, m)
    else if controllerCount ≠ 1 then
      (.error ⟨"state has %d controller accounts, want exactly 1", [itoaNat controllerCount]⟩, m)
    else match sharedHome p accounts with
      | some (a, b) => (.error ⟨"accounts %q and %q share a Codex home", [a.id, b.id]⟩, m)
      | none => match checkOwners accounts persisted.threadOwner.toList with
        | .error e => (.error e, m)
        | .ok () => (.ok (accounts, persisted.threadOwner), m)

/-! ## Opening -/

def errNotExist : Error := ⟨"file does not exist", []⟩

/-- `errors.Is(err, os.ErrNotExist)`: the wrapped error stands last. -/
def isNotExist (e : Error) : Bool := errNotExist.format.toList <:+ e.format.toList

/-- A file that the decoder rejects; its error texts are not those of the source. -/
def errMalformed : Error := ⟨"malformed JSON", []⟩

def readPersistedState (m : Machine) : Result PersistedState :=
  m.probe.andThen fun _ m => match m.disk.stateFile with
    | none => (.error errNotExist, m)
    | some data => (Result.wrap m.probe "state path is not trusted: ").andThen fun _ m =>
      if maxStateFileSize < data.length then
        (.error ⟨"state file is %d bytes, limit is %d",
          [itoaNat data.length, itoaNat maxStateFileSize]⟩, m)
      else m.probe.andThen fun _ m => match decodePersistedState data with
        | none => (.error errMalformed, m)
        | some persisted => (.ok persisted, m)

def primaryAccount (primaryCodexHome : GoString) (now : ℤ) : Account :=
  ⟨lit "primary", lit "Primary", primaryCodexHome, true, true, now⟩

/-- The accounts and owners of the state file, which is created if it does not exist. -/
def loadState (p : Platform) (primaryCodexHome : GoString) (now : ℤ) (m : Machine) :
    Result (List Account × GoMap GoString) :=
  match readPersistedState m with
  | (.ok persisted, m) => (Result.wrap m.probe "secure state: ").andThen fun _ m =>
    Result.wrap (validatePersistedState p primaryCodexHome m persisted) "validate state: "
  | (.error e, m) =>
    if isNotExist e then
      let accounts := [primaryAccount primaryCodexHome now]
      let fresh := { m with store := ⟨primaryCodexHome, accounts, ∅, .auto⟩ }
      fresh.saveLocked.andThen fun _ m => (.ok (accounts, ∅), m)
    else (.error (e.wrap "read state: "), m)

/-- The checks on an account's home and configuration. -/
def secureHome (p : Platform) (primaryCodexHome : GoString) (a : Account) :
    List (String × List GoString) :=
  if p.samePath a.codexHome primaryCodexHome then []
  else [("secure account %q home: ", [a.id]), ("inspect account %q config: ", [a.id]),
    ("secure account %q config: ", [a.id]), ("sync account %q config: ", [a.id])]

/-- An account that is not there, or is disabled, leaves the routing mode automatic. -/
def loadRoutingMode (m : Machine) : Result Unit :=
  let m := { m with store := { m.store with routingMode := .auto } }
  match m.probe with
  | (.error e, m) => if isNotExist e then (.ok (), m) else (.error e, m)
  | (.ok (), m) => match m.disk.routingModeFile with
    | none => (.ok (), m)
    | some data =>
      if maxRoutingModeFileSize < data.length then (.error ⟨"invalid routing mode file", []⟩, m)
      else (m.probeAll [("", []), ("", []), ("", [])]).andThen fun _ m =>
        match decodeRoutingMode data with
        | none => (.error errMalformed, m)
        | some (version, mode) =>
          if version ≠ 1 then (.error ⟨"unsupported routing mode version", []⟩, m)
          else if !mode.validate then
            (.error ⟨"routing mode must be auto, or account with a valid accountId", []⟩, m)
          else if mode.mode = lit "account" ∧ m.store.enabled mode.accountID = false then
            m.saveRoutingModeLocked .auto
          else (.ok (), { m with store := { m.store with routingMode := mode } })

def opening (p : Platform) (m : Machine) (primaryCodexHome : GoString) (now : ℤ) :
    Result Unit :=
  (m.probeAll [("create state root: ", []), ("validate state root: ", []),
    ("canonicalize state root: ", []), ("secure state root: ", [])]).andThen fun _ m =>
  if trimSpace primaryCodexHome = [] then (.error ⟨"primary Codex home is required", []⟩, m)
  else m.probe.andThen fun _ m =>
    (loadState p primaryCodexHome now m).andThen fun loaded m =>
      let m := { m with store := ⟨primaryCodexHome, loaded.1, loaded.2, .auto⟩ }
      (m.probeAll (loaded.1.flatMap (secureHome p primaryCodexHome))).andThen fun _ m =>
        Result.wrap (loadRoutingMode m) "read routing mode: "

/-- `Open` below one state root. A store that was open before stays as it is unless this
one takes its place. -/
def openStore (p : Platform) (m : Machine) (primaryCodexHome : GoString) (now : ℤ) :
    Result Unit :=
  match opening p m primaryCodexHome now with
  | (.ok (), opened) => (.ok (), opened)
  | (.error e, opened) => (.error e, { opened with store := m.store })

end SubscriptionRouter.StoreOpen
