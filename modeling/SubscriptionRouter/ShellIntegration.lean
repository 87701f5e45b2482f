import Mathlib
import SubscriptionRouter.PathTrees
import SubscriptionRouter.Transitions

set_option autoImplicit false

/-!
# Shell integration in the registry

The script that registers the protocol and the Explorer verbs, or takes them away, below the user's
classes. Invocations do not overlap, each may stop before any edit, and other programs edit the
registry at any time. Names of keys and values are without case, so they are written in lower case.
Data are the same when they are letter for letter; `-cne` passes over letters that the invariant
culture ignores. The launcher's path is as `Resolve-SafeLauncherPath` leaves it.
-/
namespace SubscriptionRouter.ShellIntegration
open PathTrees Transitions

inductive ValueKind where
  | string
  | expandString
  | binary
  | dWord
  | multiString
  | qWord
  | none
  | unknown
  deriving DecidableEq

structure Value where
  kind : ValueKind
  data : String
  deriving DecidableEq

abbrev Registry := Tree String Value

abbrev Key := List String

structure Launcher where
  path : String
  parent : String

inductive Feature where
  | protocol
  | explorer
  deriving DecidableEq

inductive SelectedFeature where
  | only (feature : Feature)
  | all

inductive RegistrationName where
  | protocol
  | explorerDirectory
  | explorerBackground
  deriving DecidableEq

structure Registration where
  name : RegistrationName
  feature : Feature
  root : Key
  keys : List (Key × List (String × String))

def integrationOwner : String := "TheDaniXSX/codex-subscription-router-windows"

def integrationSchemaVersion : String := "1"

def convertToRegistryCommand (launcher : Launcher) (placeholder : String) : String :=
  "\"" ++ launcher.path ++ "\" \"" ++ placeholder ++ "\""

def icon (launcher : Launcher) : String := "\"" ++ launcher.path ++ "\",0"

def ownedValues (launcher : Launcher) : List (String × String) :=
  [("codexsubscriptionrouter.owner", integrationOwner),
   ("codexsubscriptionrouter.schemaversion", integrationSchemaVersion),
   ("codexsubscriptionrouter.installlocation", launcher.parent)]

/-- `Get-IntegrationRegistrationModel`. -/
def registrationModel (launcher : Launcher) : RegistrationName → Registration
  | .protocol =>
    { name := .protocol
      feature := .protocol
      root := ["software", "classes", "codex-router"]
      keys :=
        [([], [("", "URL:Codex Subscription Router Protocol"), ("url protocol", "")] ++
            ownedValues launcher),
         (["defaulticon"], [("", icon launcher)]),
         (["shell"], []),
         (["shell", "open"], []),
         (["shell", "open", "command"], [("", convertToRegistryCommand launcher "%1")])] }
  | .explorerDirectory =>
    { name := .explorerDirectory
      feature := .explorer
      root := ["software", "classes", "directory", "shell", "openprojectincodexrouter"]
      keys :=
        [([], [("", "Open in Codex Subscription Router"), ("icon", icon launcher),
            ("multiselectmodel", "Single")] ++ ownedValues launcher),
         (["command"], [("", convertToRegistryCommand launcher "%1")])] }
  | .explorerBackground =>
    { name := .explorerBackground
      feature := .explorer
      root := ["software", "classes", "directory", "background", "shell", "openprojectincodexrouter"]
      keys :=
        [([], [("", "Open in Codex Subscription Router"), ("icon", icon launcher)] ++
            ownedValues launcher),
         (["command"], [("", convertToRegistryCommand launcher "%V")])] }

def allNames : List RegistrationName := [.protocol, .explorerDirectory, .explorerBackground]

/-- `Get-IntegrationRegistration`. -/
def registrations (launcher : Launcher) (selected : SelectedFeature) : List Registration :=
  let all := allNames.map (registrationModel launcher)
  match selected with
  | .all => all
  | .only feature => all.filter fun r => r.feature = feature

/-! ## Comparison -/

structure Snapshot where
  isThere : Bool
  keys : Std.ExtTreeMap Key (Values String Value)

/-- `Get-RegistryRegistrationSnapshot`. -/
def snapshot (registry : Registry) (root : Key) : Snapshot where
  isThere := (registry.get root).isSome
  keys := registry.subtree root

inductive Difference where
  | missingKey (key : Key)
  | missingValue (key : Key) (name : String)
  | differentValue (key : Key) (name : String)
  | unexpectedValue (key : Key) (name : String)
  | unexpectedKey (key : Key)

def expectedDifferences (key : Key) (actual : Values String Value) (expected : List (String × String)) :
    List Difference :=
  expected.filterMap fun e => match actual[e.1]? with
    | none => some (.missingValue key e.1)
    | some value =>
      if value.kind ≠ .string ∨ value.data ≠ e.2 then some (.differentValue key e.1) else none

def unexpectedValues (key : Key) (actual : Values String Value) (expected : List (String × String)) :
    List Difference :=
  actual.keys.filterMap fun name =>
    if (expected.map Prod.fst).contains name then none else some (.unexpectedValue key name)

def keyDifferences (s : Snapshot) (k : Key × List (String × String)) : List Difference :=
  match s.keys[k.1]? with
  | none => [.missingKey k.1]
  | some actual => expectedDifferences k.1 actual k.2 ++ unexpectedValues k.1 actual k.2

def differences (r : Registration) (s : Snapshot) : List Difference :=
  r.keys.flatMap (keyDifferences s) ++ s.keys.keys.filterMap fun key =>
    if (r.keys.map Prod.fst).contains key then none else some (.unexpectedKey key)

inductive Comparison where
  | missing
  | exact
  | conflict (differences : List Difference)

/-- `Compare-RegistrationSnapshot`. -/
def compareSnapshot (r : Registration) (s : Snapshot) : Comparison :=
  if s.isThere = false then .missing
  else match differences r s with
    | [] => .exact
    | ds => .conflict ds

/-! ## Invocations -/

inductive Action where
  | register
  | unregister
  | status

/-- `approves` is what `ShouldProcess` answers. -/
structure Invocation where
  action : Action
  feature : SelectedFeature
  launcher : Launcher
  approves : RegistrationName → Bool

/-- What is left to do. A registration is written edit by edit, and a tree is taken away key by key,
each after the keys under it. -/
inductive Phase where
  | idle
  | writing (edits : List (Edit String Value))
  | removing (roots : List Key)

def layoutOf (keys : List (Key × List (String × String))) : Layout String Value :=
  keys.map fun k => (k.1, k.2.map fun e => (e.1, ⟨.string, e.2⟩))

/-- `Set-RegistryRegistration`. -/
def setEdits (r : Registration) : List (Edit String Value) := layoutEdits r.root (layoutOf r.keys)

def Comparison.isConflict : Comparison → Bool
  | .conflict _ => true
  | _ => false

def Comparison.isMissing : Comparison → Bool
  | .missing => true
  | _ => false

def Comparison.isExact : Comparison → Bool
  | .exact => true
  | _ => false

def comparison (registry : Registry) (r : Registration) : Comparison :=
  compareSnapshot r (snapshot registry r.root)

/-- `Invoke-ShellIntegration`, up to the first edit. -/
def plan (registry : Registry) (v : Invocation) : Phase :=
  let chosen := registrations v.launcher v.feature
  if chosen.any fun r => (comparison registry r).isConflict then .idle
  else match v.action with
    | .status => .idle
    | .register => .writing <| (chosen.filter fun r =>
        (comparison registry r).isMissing && v.approves r.name).flatMap setEdits
    | .unregister => .removing <| (chosen.filter fun r =>
        (comparison registry r).isExact && v.approves r.name).map Registration.root

structure State where
  registry : Registry
  phase : Phase

inductive Label where
  | invoke (v : Invocation)
  | write
  | delete (key : Key)
  | stop
  | others (e : Edit String Value)

def step (s : State) : Label → Option State
  | .invoke v => match s.phase with
    | .idle => some { s with phase := plan s.registry v }
    | _ => none
  | .write => match s.phase with
    | .writing (e :: es) => some ⟨s.registry.apply e, .writing es⟩
    | _ => none
  | .delete key => match s.phase with
    | .removing (root :: roots) =>
      if root <+: key ∧ (s.registry.get key).isSome = true ∧ s.registry.hasBelow key = false then
        some ⟨s.registry.delete key, .removing (if key = root then roots else root :: roots)⟩
      -- `DeleteSubKeyTree` passes over a root that is gone
      else if key = root ∧ s.registry.get key = none then some { s with phase := .removing roots }
      else none
    | _ => none
  | .stop => some { s with phase := .idle }
  | .others e => some { s with registry := s.registry.apply e }

/-! ## What the comparison says -/

theorem names_distinct (launcher : Launcher) (name : RegistrationName) :
    ∀ k ∈ (registrationModel launcher name).keys, (k.2.map Prod.fst).Nodup := by
  cases name <;> simp [registrationModel, ownedValues]

theorem layoutOf_fst (keys : List (Key × List (String × String))) :
    (layoutOf keys).map Prod.fst = keys.map Prod.fst := by
  rw [layoutOf, List.map_map]
  rfl

def parentsFirst (keys : List Key) : Bool :=
  (List.range keys.length).all fun i => (keys[i]?.getD []).inits.all fun p =>
    p = keys[i]?.getD [] || (keys.take i).contains p

theorem sound_of_parentsFirst {l : Layout String Value} (hdistinct : (l.map Prod.fst).Nodup)
    (h : parentsFirst (l.map Prod.fst) = true) : Sound l where
  distinct := hdistinct
  parents := by
    intro front k back hl p hpart hne
    subst hl
    rw [parentsFirst, List.all_eq_true] at h
    have hk := h front.length (by simp)
    rw [List.all_eq_true] at hk
    have hp := hk p (by simpa using hpart)
    simpa [hne] using hp

theorem layout_sound (launcher : Launcher) (name : RegistrationName) :
    Sound (layoutOf (registrationModel launcher name).keys) := by
  refine sound_of_parentsFirst ?_ ?_
  · rw [layoutOf_fst]
    cases name <;> simp [registrationModel]
  · have hkeys : (registrationModel launcher name).keys.map Prod.fst =
        (registrationModel ⟨"", ""⟩ name).keys.map Prod.fst := by cases name <;> rfl
    rw [layoutOf_fst, hkeys]
    cases name <;> decide

theorem expectedDifferences_eq_nil {key : Key} {actual : Values String Value}
    {expected : List (String × String)} : expectedDifferences key actual expected = [] ↔
      ∀ e ∈ expected, actual[e.1]? = some ⟨.string, e.2⟩ := by
  rw [expectedDifferences, List.filterMap_eq_nil_iff]
  refine forall₂_congr fun e _ => ?_
  cases actual[e.1]? with
  | none => simp
  | some value =>
    obtain ⟨kind, data⟩ := value
    simp

theorem unexpectedValues_eq_nil {key : Key} {actual : Values String Value}
    {expected : List (String × String)} : unexpectedValues key actual expected = [] ↔
      ∀ name ∈ actual, name ∈ expected.map Prod.fst := by
  rw [unexpectedValues, List.filterMap_eq_nil_iff]
  refine forall_congr' fun name => ?_
  rw [Std.ExtTreeMap.mem_keys]
  refine imp_congr_right fun _ => ?_
  rw [← List.contains_iff_mem]
  simp

/-- The values of a key are as expected when no difference is found either way. -/
theorem values_exact_iff {key : Key} {actual : Values String Value} {expected : List (String × String)}
    (hnames : (expected.map Prod.fst).Nodup) :
    expectedDifferences key actual expected ++ unexpectedValues key actual expected = [] ↔
      actual = valuesOf (expected.map fun e => (e.1, (⟨.string, e.2⟩ : Value))) := by
  rw [List.append_eq_nil_iff, expectedDifferences_eq_nil, unexpectedValues_eq_nil]
  have hdistinct : ((expected.map fun e => (e.1, (⟨.string, e.2⟩ : Value))).map Prod.fst).Nodup := by
    rw [List.map_map]
    exact hnames
  constructor
  · rintro ⟨hexpected, hunexpected⟩
    refine Std.ExtTreeMap.ext_getElem? fun name => ?_
    by_cases hname : name ∈ actual
    · obtain ⟨e, he, rfl⟩ := List.mem_map.mp (hunexpected name hname)
      rw [hexpected e he, eq_comm, getElem?_valuesOf hdistinct]
      exact List.mem_map_of_mem he
    · rw [Std.ExtTreeMap.getElem?_eq_none hname, eq_comm, Option.eq_none_iff_forall_ne_some]
      intro value hvalue
      obtain ⟨e, he, heq⟩ := List.mem_map.mp ((getElem?_valuesOf hdistinct).mp hvalue)
      obtain ⟨rfl, -⟩ := Prod.mk.inj heq
      exact hname (Std.ExtTreeMap.mem_iff_isSome_getElem?.mpr (by rw [hexpected e he]; rfl))
  · rintro rfl
    refine ⟨fun e he => (getElem?_valuesOf hdistinct).mpr (List.mem_map_of_mem he), ?_⟩
    intro name hname
    obtain ⟨value, hvalue⟩ := Option.isSome_iff_exists.mp (Std.ExtTreeMap.mem_iff_isSome_getElem?.mp hname)
    have hmem := List.mem_map_of_mem (f := Prod.fst) ((getElem?_valuesOf hdistinct).mp hvalue)
    rwa [List.map_map] at hmem

theorem keyDifferences_eq_nil {s : Snapshot} {k : Key × List (String × String)}
    (hnames : (k.2.map Prod.fst).Nodup) : keyDifferences s k = [] ↔
      s.keys[k.1]? = some (valuesOf (k.2.map fun e => (e.1, (⟨.string, e.2⟩ : Value)))) := by
  rw [keyDifferences]
  cases hactual : s.keys[k.1]? with
  | none => simp
  | some actual =>
    simp only [Option.some.injEq]
    exact values_exact_iff hnames

theorem isExact_iff {registry : Registry} {r : Registration} :
    (comparison registry r).isExact = true ↔
      (registry.get r.root).isSome = true ∧ differences r (snapshot registry r.root) = [] := by
  rw [comparison, compareSnapshot, snapshot]
  cases (registry.get r.root).isSome with
  | false => simp [Comparison.isExact]
  | true => cases differences r ⟨true, registry.subtree r.root⟩ <;> simp [Comparison.isExact]

/-- The tree is found exact when it is, key by key, the layout that would be written. -/
theorem comparison_exact_iff {registry : Registry} {launcher : Launcher} {name : RegistrationName} :
    (comparison registry (registrationModel launcher name)).isExact = true ↔
      ∀ p, registry.get ((registrationModel launcher name).root ++ p) =
        layoutGet (layoutOf (registrationModel launcher name).keys) p := by
  have hsound := layout_sound launcher name
  have hnames := names_distinct launcher name
  have hroot : [] ∈ (registrationModel launcher name).keys.map Prod.fst := by
    cases name <;> simp [registrationModel]
  generalize registrationModel launcher name = r at *
  have hkey : ∀ k ∈ r.keys, keyDifferences (snapshot registry r.root) k = [] ↔
      registry.get (r.root ++ k.1) = layoutGet (layoutOf r.keys) k.1 := by
    intro k hk
    have hlayout : layoutGet (layoutOf r.keys) k.1 =
        some (valuesOf (k.2.map fun e => (e.1, (⟨.string, e.2⟩ : Value)))) :=
      (layoutGet_eq_some hsound).mpr ⟨_, List.mem_map_of_mem hk, rfl⟩
    rw [keyDifferences_eq_nil (hnames k hk), snapshot, Tree.getElem?_subtree, hlayout]
  rw [isExact_iff, differences, List.append_eq_nil_iff, List.flatMap_eq_nil_iff, List.filterMap_eq_nil_iff]
  constructor
  · rintro ⟨-, hkeys, hothers⟩ p
    by_cases hp : p ∈ r.keys.map Prod.fst
    · obtain ⟨k, hk, rfl⟩ := List.mem_map.mp hp
      exact (hkey k hk).mp (hkeys k hk)
    · have hnone : layoutGet (layoutOf r.keys) p = none := by
        rw [← Option.not_isSome_iff_eq_none, layoutGet_isSome, layoutOf_fst]
        exact hp
      rw [hnone, ← Tree.getElem?_subtree]
      refine Std.ExtTreeMap.getElem?_eq_none fun hmem => ?_
      have hother := hothers p (Std.ExtTreeMap.mem_keys.mpr hmem)
      rw [if_neg (fun hc => hp (List.contains_iff_mem.mp hc))] at hother
      cases hother
  · intro h
    refine ⟨?_, fun k hk => (hkey k hk).mpr (h k.1), fun p hp => ?_⟩
    · have hthere := h []
      rw [List.append_nil] at hthere
      rw [hthere, layoutGet_isSome, layoutOf_fst]
      exact hroot
    · have hsome := Std.ExtTreeMap.mem_iff_isSome_getElem?.mp (Std.ExtTreeMap.mem_keys.mp hp)
      rw [snapshot, Tree.getElem?_subtree, h p, layoutGet_isSome, layoutOf_fst] at hsome
      rw [if_pos (List.contains_iff_mem.mpr hsome)]

/-! ## Whose keys an invocation changes -/

def rootOf (name : RegistrationName) : Key := (registrationModel ⟨"", ""⟩ name).root

theorem root_eq (launcher : Launcher) (name : RegistrationName) :
    (registrationModel launcher name).root = rootOf name := by
  cases name <;> rfl

theorem rootOf_ne_nil (name : RegistrationName) : rootOf name ≠ [] := by
  cases name <;> decide

theorem roots_apart {name name' : RegistrationName} (h : rootOf name <+: rootOf name') : name = name' := by
  revert h
  cases name <;> cases name' <;> decide

theorem exists_name {launcher : Launcher} {selected : SelectedFeature} {r : Registration}
    (h : r ∈ registrations launcher selected) : ∃ name, r = registrationModel launcher name := by
  have hall : r ∈ allNames.map (registrationModel launcher) := by
    cases selected with
    | all => exact h
    | only feature =>
      simp only [registrations] at h
      exact (List.mem_filter.mp h).1
  obtain ⟨name, -, rfl⟩ := List.mem_map.mp hall
  exact ⟨name, rfl⟩

theorem within_layoutEdits {root : Key} {l : Layout String Value} {e : Edit String Value}
    (h : e ∈ layoutEdits root l) : e.Within root := by
  obtain ⟨k, -, hk⟩ := List.mem_flatMap.mp h
  rw [keyEdits, List.mem_cons, List.mem_map] at hk
  rcases hk with rfl | ⟨v, -, rfl⟩
  · exact List.prefix_append root k.1
  · exact List.prefix_append root k.1

/-- What is left to do is under the roots of these registrations. -/
def Phase.For (names : Set RegistrationName) : Phase → Prop
  | .idle => True
  | .writing edits => ∀ e ∈ edits, ∃ name ∈ names, e.Within (rootOf name)
  | .removing roots => ∀ root ∈ roots, ∃ name ∈ names, root = rootOf name

/-- An invocation is for the registrations that it has found missing or exact. -/
theorem plan_for {registry : Registry} {v : Invocation} {names : Set RegistrationName}
    (h : ∀ name, (comparison registry (registrationModel v.launcher name)).isMissing = true ∨
      (comparison registry (registrationModel v.launcher name)).isExact = true → name ∈ names) :
    (plan registry v).For names := by
  rw [plan]
  split
  · trivial
  · cases v.action with
    | status => trivial
    | register =>
      intro e he
      obtain ⟨r, hr, he⟩ := List.mem_flatMap.mp he
      rw [List.mem_filter, Bool.and_eq_true] at hr
      obtain ⟨name, rfl⟩ := exists_name hr.1
      refine ⟨name, h name (.inl hr.2.1), ?_⟩
      rw [← root_eq v.launcher]
      exact within_layoutEdits he
    | unregister =>
      intro root hroot
      obtain ⟨r, hr, rfl⟩ := List.mem_map.mp hroot
      rw [List.mem_filter, Bool.and_eq_true] at hr
      obtain ⟨name, rfl⟩ := exists_name hr.1
      exact ⟨name, h name (.inr hr.2.1), root_eq _ _⟩

def Label.edit : Label → Option (Edit String Value)
  | .others e => some e
  | _ => none

theorem Label.eq_others {l : Label} {e : Edit String Value} (h : l.edit = some e) : l = .others e := by
  cases l with
  | others e' => exact congrArg Label.others (Option.some.inj h)
  | _ => cases h

/-- What a step does that is not another program's. -/
theorem step_own {s u : State} {l : Label} {names : Set RegistrationName} (hs : s.phase.For names)
    (hplan : ∀ v, l = .invoke v → (plan s.registry v).For names) (hown : l.edit = none)
    (h : step s l = some u) : u.phase.For names ∧ (u.registry = s.registry ∨
      ∃ name ∈ names, ∃ e : Edit String Value, e.Within (rootOf name) ∧
        u.registry = s.registry.apply e) := by
  obtain ⟨registry, phase⟩ := s
  cases l with
  | invoke v =>
    cases phase with
    | idle =>
      obtain rfl := Option.some.inj h
      exact ⟨hplan v rfl, .inl rfl⟩
    | writing => cases h
    | removing => cases h
  | write =>
    cases phase with
    | idle => cases h
    | removing => cases h
    | writing edits =>
      cases edits with
      | nil => cases h
      | cons e edits =>
        obtain rfl := Option.some.inj h
        obtain ⟨name, hname, he⟩ := hs e List.mem_cons_self
        exact ⟨fun e' he' => hs e' (List.mem_cons_of_mem _ he'), .inr ⟨name, hname, e, he, rfl⟩⟩
  | delete key =>
    cases phase with
    | idle => cases h
    | writing => cases h
    | removing roots =>
      cases roots with
      | nil => cases h
      | cons root roots =>
        have hrest : ∀ r ∈ roots, ∃ name ∈ names, r = rootOf name :=
          fun r hr => hs r (List.mem_cons_of_mem _ hr)
        simp only [step] at h
        split at h
        · rename_i hkey
          obtain rfl := Option.some.inj h
          obtain ⟨name, hname, rfl⟩ := hs root List.mem_cons_self
          refine ⟨?_, .inr ⟨name, hname, .delete key, hkey.1, rfl⟩⟩
          dsimp only
          split
          · exact hrest
          · exact hs
        · split at h
          · obtain rfl := Option.some.inj h
            exact ⟨hrest, .inl rfl⟩
          · cases h
  | stop =>
    obtain rfl := Option.some.inj h
    exact ⟨trivial, .inl rfl⟩
  | others e => cases hown

def blank : State := ⟨⟨∅, by simp⟩, .idle⟩

def chatGPT : Launcher := ⟨"C:\\Router\\ChatGPT.exe", "C:\\Router"⟩

def invoke (action : Action) (feature : SelectedFeature) : Label :=
  .invoke ⟨action, feature, chatGPT, fun _ => true⟩

/-! ## Other programs' keys -/

def outside : Set Key := fun p => ∀ name, ¬ rootOf name <+: p ∧ ¬ p <+: rootOf name

theorem outside_below {p q : Key} (hp : p ∈ outside) (hpart : p <+: q) : q ∈ outside := by
  intro name
  refine ⟨fun hunder => ?_, fun habove => (hp name).2 (hpart.trans habove)⟩
  exact (List.prefix_or_prefix_of_prefix hunder hpart).elim (hp name).1 (hp name).2

/-- Whatever the order of the steps, the script's invocations leave every key that is apart from
its roots as the other programs' edits alone would have left it. -/
theorem outside_of_runs {s u : State} {ls : List Label} (hidle : s.phase = .idle)
    (hr : Runs (Fires step) s ls u) :
    Tree.Agree outside u.registry (s.registry.applyAll (ls.filterMap Label.edit)) := by
  suffices h : u.phase.For Set.univ ∧
      Tree.Agree outside u.registry (s.registry.applyAll (ls.filterMap Label.edit)) from h.2
  induction hr with
  | refl =>
    rw [hidle]
    exact ⟨trivial, fun p _ => rfl⟩
  | @tail u v ls l _ last ih =>
    obtain ⟨hfor, hagree⟩ := ih
    cases hl : l.edit with
    | none =>
      rw [filterMap_concat_none hl]
      obtain ⟨hfor', hsame⟩ :=
        step_own hfor (fun _ _ => plan_for fun _ _ => Set.mem_univ _) hl last
      refine ⟨hfor', fun p hp => ?_⟩
      rcases hsame with hsame | ⟨name, -, e, he, hsame⟩
      · rw [hsame, hagree p hp]
      · rw [hsame, Tree.get_apply_of_within _ he (hp name).1 (hp name).2, hagree p hp]
    | some e =>
      obtain rfl := Label.eq_others hl
      obtain rfl := Option.some.inj last
      rw [filterMap_concat_some hl, Tree.applyAll, List.foldl_append, ← Tree.applyAll]
      exact ⟨hfor, hagree.apply (fun p hp q => outside_below hp) e⟩

/-- Another program makes a key and takes it away while the protocol is registered. -/
def shared : List Label :=
  [invoke .register (.only .protocol), .write, .others (.create ["software", "other"]), .write,
   .others (.set ["software", "other"] "" ⟨.dWord, "1"⟩), .others (.create ["software", "other", "key"]),
   .write, .others (.delete ["software", "other", "key"]), .stop]

theorem outside_of_runs_shared : ∃ u, Runs (Fires step) blank shared u ∧
    Tree.Agree outside u.registry (blank.registry.applyAll (shared.filterMap Label.edit)) := by
  obtain ⟨u, hr, -⟩ := @runs_of_exec_any _ _ step blank shared (fun _ => true) (by decide +kernel)
  exact ⟨u, hr, outside_of_runs rfl hr⟩

/-! ## Trees that the script did not write -/

/-- What is under the root is not what the script writes for any launcher. -/
def Foreign (registry : Registry) (name : RegistrationName) : Prop :=
  (registry.get (rootOf name)).isSome = true ∧ ∀ launcher, ∃ p, registry.get (rootOf name ++ p) ≠
    layoutGet (layoutOf (registrationModel launcher name).keys) p

theorem Foreign.not_chosen {registry : Registry} {name : RegistrationName} (h : Foreign registry name)
    (launcher : Launcher) : (comparison registry (registrationModel launcher name)).isMissing = false ∧
      (comparison registry (registrationModel launcher name)).isExact = false := by
  constructor
  · rw [comparison, compareSnapshot, snapshot, root_eq, h.1]
    cases differences (registrationModel launcher name) ⟨true, registry.subtree (rootOf name)⟩ <;>
      simp [Comparison.isMissing]
  · obtain ⟨p, hp⟩ := h.2 launcher
    rw [Bool.eq_false_iff, ne_eq, comparison_exact_iff, root_eq]
    exact fun hall => hp (hall p)

theorem Foreign.congr {registry registry' : Registry} {name : RegistrationName}
    (h : Foreign registry name) (hsame : ∀ p, rootOf name <+: p → registry'.get p = registry.get p) :
    Foreign registry' name := by
  refine ⟨by rw [hsame _ (List.prefix_refl _)]; exact h.1, fun launcher => ?_⟩
  obtain ⟨p, hp⟩ := h.2 launcher
  exact ⟨p, by rw [hsame _ (List.prefix_append _ _)]; exact hp⟩

/-- No other program edits the tree. -/
def Untouched (name : RegistrationName) (_ : State) : Label → Prop
  | .others e => ¬ e.Within (rootOf name)
  | _ => True

instance decidableUntouched (name : RegistrationName) (s : State) :
    (l : Label) → Decidable (Untouched name s l)
  | .others e => inferInstanceAs (Decidable (¬ rootOf name <+: e.path))
  | .invoke _ | .write | .delete _ | .stop => isTrue trivial

theorem apply_apart {registry : Registry} {name name' : RegistrationName} (hne : name' ≠ name)
    {e : Edit String Value} (he : e.Within (rootOf name')) {p : Key} (hp : rootOf name <+: p) :
    (registry.apply e).get p = registry.get p := by
  refine Tree.get_apply_of_within _ he (fun h => ?_) (fun h => hne (roots_apart (hp.trans h)).symm)
  rcases List.prefix_or_prefix_of_prefix h hp with h | h
  · exact hne (roots_apart h)
  · exact hne (roots_apart h).symm

/-- No invocation is for a foreign tree, so that none changes it. -/
theorem Foreign.stays {s u : State} {ls : List Label} {name : RegistrationName}
    (hforeign : Foreign s.registry name)
    (hr : Runs (Guarded (Untouched name) (Fires step)) s ls u)
    (hs : s.phase.For {name' | name' ≠ name}) : u.phase.For {name' | name' ≠ name} ∧
      ∀ p, rootOf name <+: p → u.registry.get p = s.registry.get p := by
  refine hr.invariant (I := fun u => u.phase.For {name' | name' ≠ name} ∧
    ∀ p, rootOf name <+: p → u.registry.get p = s.registry.get p) ⟨hs, fun _ _ => rfl⟩ ?_
  rintro u l v ⟨hfor, hsame⟩ ⟨huntouched, hstep⟩
  cases hl : l.edit with
  | some e =>
    obtain rfl := Label.eq_others hl
    obtain rfl := Option.some.inj hstep
    exact ⟨hfor, fun p hp => (Tree.get_apply_of_not_within _ huntouched hp).trans (hsame p hp)⟩
  | none =>
    have hplan : ∀ w, l = .invoke w → (plan u.registry w).For {name' | name' ≠ name} := by
      refine fun w _ => plan_for fun name' hchosen => ?_
      rintro rfl
      obtain ⟨hmissing, hexact⟩ := (hforeign.congr hsame).not_chosen w.launcher
      rw [hmissing, hexact] at hchosen
      simp at hchosen
    obtain ⟨hfor', hedit⟩ := step_own hfor hplan hl hstep
    refine ⟨hfor', fun p hp => ?_⟩
    rcases hedit with hedit | ⟨name', hne, e, he, hedit⟩
    · rw [hedit, hsame p hp]
    · rw [hedit, apply_apart hne he hp, hsame p hp]

def taken : State := { blank with registry := blank.registry.create (rootOf .protocol) }

theorem foreign_taken : Foreign taken.registry .protocol := by
  refine ⟨by decide +kernel, fun launcher => ⟨["defaulticon"], fun heq => ?_⟩⟩
  have hnone : (taken.registry.get (rootOf .protocol ++ ["defaulticon"])).isSome = false := by
    decide +kernel
  rw [heq, Bool.eq_false_iff] at hnone
  refine hnone (layoutGet_isSome.mpr ?_)
  simp [layoutOf_fst, registrationModel]

/-- Invocations for the tree that is taken, while another program edits keys beside and above it. -/
def besideTaken : List Label :=
  [invoke .unregister .all, .others (.create ["software", "other"]), .stop,
   invoke .register (.only .explorer), .write, .others (.delete ["software", "classes"]), .stop]

theorem writing_run {registry : Registry} {es : List (Edit String Value)} {k : ℕ} {u : State}
    (hr : Runs (Fires step) ⟨registry, .writing es⟩ (List.replicate k .write) u) :
    u = ⟨registry.applyAll (es.take k), .writing (es.drop k)⟩ := by
  have hexec := exec_of_runs hr
  clear hr
  induction k generalizing registry es with
  | zero => exact (Option.some.inj hexec).symm
  | succ k ih =>
    cases es with
    | nil => cases hexec
    | cons e es => exact ih hexec

theorem delete_cases {registry : Registry} {root key : Key} {roots : List Key} {u : State}
    (h : step ⟨registry, .removing (root :: roots)⟩ (.delete key) = some u) :
    root <+: key ∧ (∀ p, u.registry.get p = if key = p then none else registry.get p) ∧
      u.phase = .removing (if key = root then roots else root :: roots) := by
  simp only [step] at h
  split at h
  · rename_i hkey
    obtain rfl := Option.some.inj h
    refine ⟨hkey.1, fun p => ?_, rfl⟩
    rw [Tree.get_delete, hkey.2.2]
    simp
  · split at h
    · rename_i hgone
      obtain rfl := Option.some.inj h
      obtain ⟨rfl, hnone⟩ := hgone
      refine ⟨List.prefix_refl _, fun p => ?_, by simp⟩
      split
      · subst p
        exact hnone
      · rfl
    · cases h

/-- Trees that are taken away key by key leave everything apart from them. -/
theorem removing_run {registry : Registry} {roots rest : List Key} {keys : List Key} {u : State}
    (hr : Runs (Fires step) ⟨registry, .removing roots⟩ (keys.map .delete) u)
    (hu : u.phase = .removing rest) : (∀ root ∈ roots, root ∈ rest ∨ u.registry.get root = none) ∧
      (∀ p, registry.get p = none → u.registry.get p = none) ∧
      ∀ p, (∀ root ∈ roots, ¬ root <+: p) → u.registry.get p = registry.get p := by
  have hexec := exec_of_runs hr
  clear hr
  induction keys generalizing registry roots with
  | nil =>
    obtain rfl := Option.some.inj hexec
    obtain rfl := Phase.removing.inj hu
    exact ⟨fun root hroot => .inl hroot, fun _ hp => hp, fun _ _ => rfl⟩
  | cons key keys ih =>
    cases roots with
    | nil => cases hexec
    | cons root roots =>
      obtain ⟨⟨registry', phase⟩, hstep, hexec⟩ := Option.bind_eq_some_iff.mp hexec
      obtain ⟨hunder, hget, hphase⟩ := delete_cases hstep
      dsimp only at hget hphase
      subst hphase
      obtain ⟨hroots, hgone, hkept⟩ := ih hexec
      refine ⟨fun r hr => ?_, fun p hp => hgone p ?_, fun p hp => ?_⟩
      · by_cases hkey : key = root
        · rw [if_pos hkey] at hroots
          rcases List.mem_cons.mp hr with rfl | hr
          · exact .inr (hgone _ (by rw [hget, if_pos hkey]))
          · exact hroots r hr
        · rw [if_neg hkey] at hroots
          exact hroots r hr
      · rw [hget]
        split
        · rfl
        · exact hp
      · rw [hkept p, hget, if_neg]
        · rintro rfl
          exact hp root List.mem_cons_self hunder
        · intro r hr
          refine hp r ?_
          split at hr
          · exact List.mem_cons_of_mem _ hr
          · exact hr

theorem exists_names (launcher : Launcher) (selected : SelectedFeature) :
    ∃ names : List RegistrationName, names.Nodup ∧
      registrations launcher selected = names.map (registrationModel launcher) := by
  cases selected with
  | all => exact ⟨allNames, by decide, rfl⟩
  | only feature =>
    cases feature with
    | protocol => exact ⟨[.protocol], by decide, rfl⟩
    | explorer => exact ⟨[.explorerDirectory, .explorerBackground], by decide, rfl⟩

theorem applyAll_append (registry : Registry) (es es' : List (Edit String Value)) :
    registry.applyAll (es ++ es') = (registry.applyAll es).applyAll es' := List.foldl_append

theorem within_setEdits {launcher : Launcher} {name : RegistrationName} {e : Edit String Value}
    (h : e ∈ setEdits (registrationModel launcher name)) : e.Within (rootOf name) := by
  rw [setEdits, root_eq] at h
  exact within_layoutEdits h

theorem applyAll_apart {registry : Registry} {name : RegistrationName} {es : List (Edit String Value)}
    (h : ∀ e ∈ es, ∃ name', name' ≠ name ∧ e.Within (rootOf name')) {p : Key} (hp : rootOf name <+: p) :
    (registry.applyAll es).get p = registry.get p := by
  induction es generalizing registry with
  | nil => rfl
  | cons e es ih =>
    obtain ⟨name', hne, he⟩ := h e List.mem_cons_self
    rw [Tree.applyAll, List.foldl_cons, ← Tree.applyAll,
      ih fun e' he' => h e' (List.mem_cons_of_mem _ he'), apply_apart hne he hp]

/-- Every registration that is written is there as it should be, and the others are not disturbed. -/
theorem get_registered {launcher : Launcher} {names : List RegistrationName} (hnodup : names.Nodup)
    {registry : Registry} (hmissing : ∀ name ∈ names, registry.get (rootOf name) = none) :
    ∀ name ∈ names, ∀ p,
      (registry.applyAll ((names.map (registrationModel launcher)).flatMap setEdits)).get
        (rootOf name ++ p) = layoutGet (layoutOf (registrationModel launcher name).keys) p := by
  induction names generalizing registry with
  | nil => simp
  | cons first names ih =>
    obtain ⟨hfirst, hnodup⟩ := List.nodup_cons.mp hnodup
    intro name hname p
    rw [List.map_cons, List.flatMap_cons, applyAll_append]
    rcases List.mem_cons.mp hname with rfl | hname
    · rw [applyAll_apart _ (List.prefix_append _ _), setEdits, root_eq]
      · exact (layout_sound launcher _).get_edits (rootOf_ne_nil _) (hmissing _ List.mem_cons_self) p
      · intro e he
        obtain ⟨r, hr, he⟩ := List.mem_flatMap.mp he
        obtain ⟨name', hname', rfl⟩ := List.mem_map.mp hr
        exact ⟨name', fun h => hfirst (h ▸ hname'), within_setEdits he⟩
    · refine ih hnodup (fun name' hname' => ?_) name hname p
      rw [applyAll_apart _ (List.prefix_refl _)]
      · exact hmissing name' (List.mem_cons_of_mem _ hname')
      · exact fun e he => ⟨first, fun h => hfirst (h ▸ hname'), within_setEdits he⟩

/-- Keys that are not under a root are at most made, above it. -/
theorem applyAll_above {roots : List Key} {es : List (Edit String Value)}
    (h : ∀ e ∈ es, ∃ root ∈ roots, e.Within root) (registry : Registry) {p : Key}
    (hp : ∀ root ∈ roots, ¬ root <+: p) : (registry.applyAll es).get p = registry.get p ∨
      registry.get p = none ∧ p ≠ [] ∧ (∃ root ∈ roots, p <+: root) ∧
        (registry.applyAll es).get p = some ∅ := by
  induction es using List.reverseRecOn with
  | nil => exact .inl rfl
  | append_singleton es e ih =>
    obtain ⟨root, hroot, he⟩ := h e (by simp)
    have hbefore := ih fun e' he' => h e' (List.mem_append_left _ he')
    rw [applyAll_append, Tree.applyAll, List.foldl_cons, List.foldl_nil]
    rcases Tree.get_apply_above (registry.applyAll es) he (hp root hroot) with
      hsame | ⟨hnone, hne, habove, hmade⟩
    · rw [hsame]
      exact hbefore
    · rcases hbefore with hbefore | ⟨-, -, -, hbefore⟩
      · exact .inr ⟨hbefore ▸ hnone, hne, ⟨root, hroot, habove⟩, hmade⟩
      · rw [hbefore] at hnone
        cases hnone

theorem comparison_missing {registry : Registry} {r : Registration} (h : registry.get r.root = none) :
    comparison registry r = .missing := by
  rw [comparison, compareSnapshot, snapshot, h]
  rfl

theorem plan_register {registry : Registry} {launcher : Launcher} {selected : SelectedFeature}
    (h : ∀ r ∈ registrations launcher selected, registry.get r.root = none) :
    plan registry ⟨.register, selected, launcher, fun _ => true⟩ =
      .writing ((registrations launcher selected).flatMap setEdits) := by
  rw [plan, if_neg, List.filter_eq_self.mpr]
  · intro r hr
    rw [comparison_missing (h r hr)]
    rfl
  · rw [List.any_eq_true]
    rintro ⟨r, hr, hconflict⟩
    rw [comparison_missing (h r hr)] at hconflict
    cases hconflict

theorem plan_unregister {registry : Registry} {launcher : Launcher} {selected : SelectedFeature}
    (h : ∀ r ∈ registrations launcher selected, (comparison registry r).isExact = true) :
    plan registry ⟨.unregister, selected, launcher, fun _ => true⟩ =
      .removing ((registrations launcher selected).map Registration.root) := by
  rw [plan, if_neg]
  · dsimp only
    rw [List.filter_eq_self.mpr]
    intro r hr
    rw [h r hr]
    rfl
  · rw [List.any_eq_true]
    rintro ⟨r, hr, hconflict⟩
    have hexact := h r hr
    cases hc : comparison registry r <;> rw [hc] at hexact hconflict
    · cases hconflict
    · cases hconflict
    · cases hexact

/-- A registration that ran to its end is found exact, and taking it away, in whatever order the keys
go, brings the registry back but for the keys above the roots that had to be made. -/
theorem unregister_restores {s u v : State} {launcher : Launcher} {selected : SelectedFeature} {k : ℕ}
    {keys : List Key} (hidle : s.phase = .idle)
    (hmissing : ∀ r ∈ registrations launcher selected, s.registry.get r.root = none)
    (hreg : Runs (Fires step) s
      (.invoke ⟨.register, selected, launcher, fun _ => true⟩ :: List.replicate k .write) u)
    (hwritten : u.phase = .writing [])
    (hunreg : Runs (Fires step) u
      (.stop :: .invoke ⟨.unregister, selected, launcher, fun _ => true⟩ :: keys.map .delete) v)
    (hremoved : v.phase = .removing []) :
    (∀ r ∈ registrations launcher selected, (comparison u.registry r).isExact = true) ∧
      ∀ p, v.registry.get p =
        if p ≠ [] ∧ ∃ r ∈ registrations launcher selected, p <+: r.root ∧ p ≠ r.root then
          (s.registry.get p).or (some ∅)
        else s.registry.get p := by
  obtain ⟨registry, phase⟩ := s
  obtain rfl : phase = .idle := hidle
  -- the registration
  have hexec := exec_of_runs hreg
  rw [exec, step, Option.bind_some, plan_register hmissing] at hexec
  have hu := writing_run (exec_runs hexec)
  obtain ⟨names, hnodup, hnames⟩ := exists_names launcher selected
  have hall : u.registry = registry.applyAll ((registrations launcher selected).flatMap setEdits) := by
    rw [hu] at hwritten ⊢
    have hlen := List.drop_eq_nil_iff.mp (Phase.writing.inj hwritten)
    rw [List.take_of_length_le hlen]
  have hroot : ∀ name ∈ names, registry.get (rootOf name) = none := by
    intro name hname
    have hnone := hmissing (registrationModel launcher name) (hnames ▸ List.mem_map_of_mem hname)
    rwa [root_eq] at hnone
  have hexact : ∀ r ∈ registrations launcher selected, (comparison u.registry r).isExact = true := by
    intro r hr
    rw [hnames] at hr
    obtain ⟨name, hname, rfl⟩ := List.mem_map.mp hr
    rw [comparison_exact_iff, hall, hnames, root_eq]
    exact get_registered hnodup hroot name hname
  refine ⟨hexact, fun p => ?_⟩
  -- the removal
  obtain ⟨uregistry, uphase⟩ := u
  have hexec' := exec_of_runs hunreg
  rw [exec, step, Option.bind_some, exec, step, Option.bind_some, plan_unregister hexact] at hexec'
  obtain ⟨hgone, -, hkept⟩ := removing_run (exec_runs hexec') hremoved
  by_cases hp : ∃ r ∈ registrations launcher selected, r.root <+: p
  · obtain ⟨r, hr, hunder⟩ := hp
    have hname : ∃ name, r = registrationModel launcher name := exists_name hr
    have hne : r.root ≠ [] := by
      obtain ⟨name, rfl⟩ := hname
      rw [root_eq]
      exact rootOf_ne_nil name
    have hnone := (hgone r.root (List.mem_map_of_mem hr)).resolve_left List.not_mem_nil
    rw [Tree.get_below hne hnone hunder, if_neg, Tree.get_below hne (hmissing r hr) hunder]
    rintro ⟨-, r', hr', habove, hproper⟩
    obtain ⟨name, rfl⟩ := hname
    obtain ⟨name', rfl⟩ := exists_name hr'
    rw [root_eq] at hunder habove hproper
    obtain rfl := roots_apart (hunder.trans habove)
    exact hproper (habove.eq_of_length_le hunder.length_le)
  · have hapart : ∀ root ∈ (registrations launcher selected).map Registration.root, ¬ root <+: p := by
      intro root hroot hunder
      obtain ⟨r, hr, rfl⟩ := List.mem_map.mp hroot
      exact hp ⟨r, hr, hunder⟩
    have hedits : ∀ e ∈ (registrations launcher selected).flatMap setEdits,
        ∃ root ∈ (registrations launcher selected).map Registration.root, e.Within root := by
      intro e he
      obtain ⟨r, hr, he⟩ := List.mem_flatMap.mp he
      exact ⟨r.root, List.mem_map_of_mem hr, within_layoutEdits he⟩
    rw [hkept p hapart]
    dsimp only at hall
    have habove := applyAll_above hedits registry hapart
    rw [← hall] at habove
    split
    · rename_i hcond
      obtain ⟨hne, r, hr, hpart, -⟩ := hcond
      -- the root has come to be there, and so has every key above it
      have hthere := (isExact_iff.mp (hexact r hr)).1
      have hsome := Tree.isSome_of_prefix hne hpart hthere
      rcases habove with hsame | ⟨hnone, -, -, hmade⟩
      · rw [hsame] at hsome ⊢
        obtain ⟨values, hvalues⟩ := Option.isSome_iff_exists.mp hsome
        rw [hvalues, Option.some_or]
      · rw [hmade, hnone, Option.none_or]
    · rename_i hcond
      rcases habove with hsame | ⟨-, hne, ⟨root, hroot, hpart⟩, -⟩
      · exact hsame
      · obtain ⟨r, hr, rfl⟩ := List.mem_map.mp hroot
        refine absurd ⟨hne, r, hr, hpart, ?_⟩ hcond
        rintro rfl
        exact hp ⟨r, hr, List.prefix_refl _⟩

def Phase.isWritten : Phase → Bool
  | .writing [] => true
  | _ => false

def Phase.isRemoved : Phase → Bool
  | .removing [] => true
  | _ => false

theorem Phase.eq_writing {phase : Phase} (h : phase.isWritten = true) : phase = .writing [] := by
  cases phase with
  | idle => cases h
  | removing roots => cases h
  | writing edits =>
    cases edits with
    | nil => rfl
    | cons e edits => cases h

theorem Phase.eq_removing {phase : Phase} (h : phase.isRemoved = true) : phase = .removing [] := by
  cases phase with
  | idle => cases h
  | writing edits => cases h
  | removing roots =>
    cases roots with
    | nil => rfl
    | cons root roots => cases h

/-- The keys of the protocol's tree, each after the keys under it. -/
def protocolKeys : List Key :=
  [["shell", "open", "command"], ["defaulticon"], ["shell", "open"], ["shell"], []].map
    (rootOf .protocol ++ ·)

theorem unregister_restores_protocol : ∃ u v,
    Runs (Fires step) blank (invoke .register (.only .protocol) :: List.replicate 12 .write) u ∧
    Runs (Fires step) u (.stop :: invoke .unregister (.only .protocol) :: protocolKeys.map .delete) v ∧
    (∀ r ∈ registrations chatGPT (.only .protocol), (comparison u.registry r).isExact = true) ∧
    ∀ p, v.registry.get p =
      if p ≠ [] ∧ ∃ r ∈ registrations chatGPT (.only .protocol), p <+: r.root ∧ p ≠ r.root then
        (blank.registry.get p).or (some ∅)
      else blank.registry.get p := by
  obtain ⟨u, hreg, hu⟩ := @runs_of_exec_any _ _ step blank
    (invoke .register (.only .protocol) :: List.replicate 12 .write)
    (fun u => u.phase.isWritten && (exec step u
      (.stop :: invoke .unregister (.only .protocol) :: protocolKeys.map .delete)).any
        fun v => v.phase.isRemoved) (by decide +kernel)
  rw [Bool.and_eq_true] at hu
  obtain ⟨v, hunreg, hv⟩ := runs_of_exec_any hu.2
  refine ⟨u, v, hreg, hunreg, ?_⟩
  refine unregister_restores rfl ?_ hreg (Phase.eq_writing hu.1) hunreg (Phase.eq_removing hv)
  intro r _
  rfl

/-! ## Registrations that stop half way -/

def lastKey : RegistrationName → Key
  | .protocol => ["shell", "open", "command"]
  | _ => ["command"]

theorem setEdits_eq (launcher : Launcher) (name : RegistrationName) : ∃ early value,
    setEdits (registrationModel launcher name) = early ++ [.set (rootOf name ++ lastKey name) "" value] ∧
      ∀ e ∈ early, ∀ n v, e ≠ .set (rootOf name ++ lastKey name) n v := by
  refine ⟨(setEdits (registrationModel launcher name)).dropLast, ?_⟩
  cases name with
  | protocol =>
    refine ⟨_, rfl, ?_⟩
    simp [setEdits, layoutEdits, layoutOf, keyEdits, registrationModel, ownedValues, lastKey, rootOf]
  | explorerDirectory =>
    refine ⟨_, rfl, ?_⟩
    simp [setEdits, layoutEdits, layoutOf, keyEdits, registrationModel, ownedValues, lastKey, rootOf]
  | explorerBackground =>
    refine ⟨_, rfl, ?_⟩
    simp [setEdits, layoutEdits, layoutOf, keyEdits, registrationModel, ownedValues, lastKey, rootOf]

theorem layoutGet_lastKey (launcher : Launcher) (name : RegistrationName) : ∃ value : Value,
    layoutGet (layoutOf (registrationModel launcher name).keys) (lastKey name) =
      some (valuesOf [("", value)]) := by
  cases name with
  | protocol => exact ⟨_, rfl⟩
  | explorerDirectory => exact ⟨_, rfl⟩
  | explorerBackground => exact ⟨_, rfl⟩

/-- The last key is not there or has no values. -/
def Bare (registry : Registry) (name : RegistrationName) : Prop :=
  ∀ values, registry.get (rootOf name ++ lastKey name) = some values → values = ∅

theorem Bare.apply {registry : Registry} {name : RegistrationName} {e : Edit String Value}
    (h : Bare registry name) (he : ∀ n v, e ≠ .set (rootOf name ++ lastKey name) n v) :
    Bare (registry.apply e) name := by
  intro values hvalues
  cases e with
  | create path =>
    rw [Tree.apply, Tree.get_create, Option.or_eq_some_iff] at hvalues
    rcases hvalues with hvalues | ⟨-, hvalues⟩
    · exact h values hvalues
    · split at hvalues
      · exact (Option.some.inj hvalues).symm
      · cases hvalues
  | set path n v =>
    have hne : path ≠ rootOf name ++ lastKey name := fun heq => he n v (by rw [heq])
    rw [Tree.apply, Tree.get_set, if_neg hne] at hvalues
    exact h values hvalues
  | unset path n =>
    rw [Tree.apply, Tree.get_unset] at hvalues
    split at hvalues
    · obtain ⟨before, hbefore, rfl⟩ := Option.map_eq_some_iff.mp hvalues
      rw [h before hbefore, Std.ExtTreeMap.erase_empty]
    · exact h values hvalues
  | delete path =>
    rw [Tree.apply, Tree.get_delete] at hvalues
    split at hvalues
    · cases hvalues
    · exact h values hvalues

theorem foreign_of_bare {registry : Registry} {name : RegistrationName}
    (hthere : (registry.get (rootOf name)).isSome = true)
    (hbare : Bare registry name) : Foreign registry name := by
  refine ⟨hthere, fun launcher => ⟨lastKey name, fun heq => ?_⟩⟩
  obtain ⟨value, hvalue⟩ := layoutGet_lastKey launcher name
  rw [hvalue] at heq
  have hget : (valuesOf [("", value)])[""]? = some value :=
    (getElem?_valuesOf (by simp)).mpr List.mem_cons_self
  rw [hbare _ heq] at hget
  simp at hget

theorem within_unique {e : Edit String Value} {name name' : RegistrationName}
    (h : e.Within (rootOf name)) (h' : e.Within (rootOf name')) : name = name' :=
  (List.prefix_or_prefix_of_prefix h h').elim roots_apart fun h => (roots_apart h).symm

/-- The edits of the tree end with the one that gives the last key its value. -/
def EndsWithValue (name : RegistrationName) (es : List (Edit String Value)) : Prop :=
  ∃ front e back, es = front ++ e :: back ∧
    (∀ e ∈ front, ∀ n v, e ≠ .set (rootOf name ++ lastKey name) n v) ∧
    ∀ e ∈ back, ¬ e.Within (rootOf name)

theorem EndsWithValue.tail {name : RegistrationName} {e : Edit String Value}
    {es : List (Edit String Value)} (h : EndsWithValue name (e :: es))
    (hleft : ∃ e ∈ es, e.Within (rootOf name)) :
    (∀ n v, e ≠ .set (rootOf name ++ lastKey name) n v) ∧ EndsWithValue name es := by
  obtain ⟨front, last, back, hes, hfront, hback⟩ := h
  cases front with
  | nil =>
    obtain ⟨-, rfl⟩ := List.cons.inj hes
    obtain ⟨e', he', hwithin⟩ := hleft
    exact absurd hwithin (hback e' he')
  | cons first front =>
    obtain ⟨rfl, rfl⟩ := List.cons.inj hes
    exact ⟨hfront e List.mem_cons_self, front, last, back, rfl,
      fun e' he' => hfront e' (List.mem_cons_of_mem _ he'), hback⟩

theorem endsWithValue_setEdits {launcher : Launcher} {names : List RegistrationName}
    (hnodup : names.Nodup) {name : RegistrationName} (hname : name ∈ names) :
    EndsWithValue name ((names.map (registrationModel launcher)).flatMap setEdits) := by
  induction names with
  | nil => cases hname
  | cons first names ih =>
    obtain ⟨hfirst, hnodup⟩ := List.nodup_cons.mp hnodup
    rw [List.map_cons, List.flatMap_cons]
    rcases List.mem_cons.mp hname with rfl | hname
    · obtain ⟨early, value, hedits, hearly⟩ := setEdits_eq launcher name
      refine ⟨early, _, _, by rw [hedits, List.append_assoc]; rfl, hearly, fun e he hwithin => ?_⟩
      obtain ⟨r, hr, he⟩ := List.mem_flatMap.mp he
      obtain ⟨name', hname', rfl⟩ := List.mem_map.mp hr
      exact hfirst (within_unique hwithin (within_setEdits he) ▸ hname')
    · obtain ⟨front, e, back, hsplit, hfront, hback⟩ := ih hnodup hname
      refine ⟨setEdits (registrationModel launcher first) ++ front, e, back,
        by rw [hsplit, List.append_assoc], fun e' he' n v heq => ?_, hback⟩
      rcases List.mem_append.mp he' with he' | he'
      · subst heq
        have hwithin : Edit.Within (rootOf name)
            (.set (rootOf name ++ lastKey name) n v : Edit String Value) := List.prefix_append _ _
        exact hfirst (within_unique (within_setEdits he') hwithin ▸ hname)
      · exact hfront e' he' n v heq

theorem get_of_missing {registry : Registry} {launcher : Launcher} {name : RegistrationName}
    (h : (comparison registry (registrationModel launcher name)).isMissing = true) :
    registry.get (rootOf name) = none := by
  rw [comparison, compareSnapshot, snapshot, root_eq] at h
  cases hroot : registry.get (rootOf name) with
  | none => rfl
  | some values =>
    rw [hroot] at h
    cases hd : differences (registrationModel launcher name) ⟨true, registry.subtree (rootOf name)⟩ <;>
      simp [hd, Comparison.isMissing] at h

/-- What a registration is going to write are the edits of trees that are missing. -/
theorem plan_writing {registry : Registry} {v : Invocation} {es : List (Edit String Value)}
    (h : plan registry v = .writing es) : ∃ names : List RegistrationName, names.Nodup ∧
      (∀ name ∈ names, registry.get (rootOf name) = none) ∧
      es = (names.map (registrationModel v.launcher)).flatMap setEdits := by
  obtain ⟨names, hnodup, hnames⟩ := exists_names v.launcher v.feature
  rw [plan] at h
  split at h
  · cases h
  · cases haction : v.action <;> rw [haction] at h
    · rw [hnames, List.filter_map] at h
      refine ⟨_, hnodup.filter _, fun name hname => ?_, (Phase.writing.inj h).symm⟩
      obtain ⟨-, hchosen⟩ := List.mem_filter.mp hname
      rw [Function.comp_apply, Bool.and_eq_true] at hchosen
      exact get_of_missing hchosen.1
    · cases h
    · cases h

/-- While edits of the tree are left to do, its last key has no values, and gets one at their end. -/
def Unfinished (name : RegistrationName) (s : State) : Prop :=
  ∀ rest, s.phase = .writing rest → (∃ e ∈ rest, e.Within (rootOf name)) →
    Bare s.registry name ∧ EndsWithValue name rest

theorem unfinished_plan {registry : Registry} {v : Invocation} {name : RegistrationName} :
    Unfinished name ⟨registry, plan registry v⟩ := by
  intro rest hplan hleft
  obtain ⟨names, hnodup, hmissing, rfl⟩ := plan_writing hplan
  obtain ⟨e, he, hwithin⟩ := hleft
  obtain ⟨r, hr, he⟩ := List.mem_flatMap.mp he
  obtain ⟨name', hname, rfl⟩ := List.mem_map.mp hr
  obtain rfl := within_unique (within_setEdits he) hwithin
  refine ⟨fun values hvalues => ?_, endsWithValue_setEdits hnodup hname⟩
  rw [Tree.get_below (rootOf_ne_nil name') (hmissing name' hname) (List.prefix_append _ _)] at hvalues
  cases hvalues

theorem Unfinished.step {s u : State} {l : Label} {name : RegistrationName} (hs : Unfinished name s)
    (huntouched : Untouched name s l) (h : step s l = some u) : Unfinished name u := by
  obtain ⟨registry, phase⟩ := s
  cases l with
  | invoke v =>
    cases phase with
    | idle =>
      obtain rfl := Option.some.inj h
      exact unfinished_plan
    | writing => cases h
    | removing => cases h
  | write =>
    cases phase with
    | idle => cases h
    | removing => cases h
    | writing edits =>
      cases edits with
      | nil => cases h
      | cons e edits =>
        obtain rfl := Option.some.inj h
        intro rest hrest hleft
        obtain rfl := Phase.writing.inj hrest
        obtain ⟨e', he', hwithin⟩ := hleft
        obtain ⟨hbare, hends⟩ := hs _ rfl ⟨e', List.mem_cons_of_mem _ he', hwithin⟩
        obtain ⟨hother, hends⟩ := hends.tail ⟨e', he', hwithin⟩
        exact ⟨hbare.apply hother, hends⟩
  | delete key =>
    cases phase with
    | idle => cases h
    | writing => cases h
    | removing roots =>
      cases roots with
      | nil => cases h
      | cons root roots =>
        have hphase := (delete_cases h).2.2
        intro rest hrest
        rw [hphase] at hrest
        cases hrest
  | stop =>
    obtain rfl := Option.some.inj h
    intro rest hrest
    cases hrest
  | others e =>
    obtain rfl := Option.some.inj h
    intro rest hrest hleft
    obtain ⟨hbare, hends⟩ := hs rest hrest hleft
    refine ⟨fun values hvalues => hbare values ?_, hends⟩
    rw [← Tree.get_apply_of_not_within registry huntouched (List.prefix_append _ _)]
    exact hvalues

/-- A registration that stops after some of its edits is there for good: no invocation completes it
or takes it away, with whatever launcher. -/
theorem interrupted_kept {s u w : State} {ls later : List Label} {rest : List (Edit String Value)}
    {name : RegistrationName} (hidle : s.phase = .idle)
    (hwrite : Runs (Guarded (Untouched name) (Fires step)) s ls u)
    (hrest : u.phase = .writing rest) (hleft : ∃ e ∈ rest, e.Within (rootOf name))
    (hthere : (u.registry.get (rootOf name)).isSome = true)
    (hr : Runs (Guarded (Untouched name) (Fires step)) u (.stop :: later) w) :
    ∀ p, rootOf name <+: p → w.registry.get p = u.registry.get p := by
  have hunfinished : Unfinished name u := by
    refine hwrite.invariant (I := Unfinished name) (fun rest hrest => ?_)
      fun u l v hu h => hu.step h.1 h.2
    rw [hidle] at hrest
    cases hrest
  have hforeign := foreign_of_bare hthere (hunfinished rest hrest hleft).1
  have hstop : Runs (Guarded (Untouched name) (Fires step)) u ([.stop] ++ later) w := hr
  obtain ⟨idle, hstop, hlater⟩ := hstop.of_append
  obtain rfl := Option.some.inj (exec_of_runs hstop.of_guarded)
  exact (Foreign.stays (s := ⟨u.registry, .idle⟩) hforeign hlater trivial).2

def Phase.isWriting (root : Key) : Phase → Bool
  | .writing edits => edits.any fun e => root <+: e.path
  | _ => false

theorem Phase.exists_edit {root : Key} {phase : Phase} (h : phase.isWriting root = true) :
    ∃ edits, phase = .writing edits ∧ ∃ e ∈ edits, e.Within root := by
  cases phase with
  | idle => cases h
  | removing roots => cases h
  | writing edits =>
    obtain ⟨e, he, hpart⟩ := List.any_eq_true.mp h
    exact ⟨edits, rfl, e, he, of_decide_eq_true (p := root <+: e.path) hpart⟩

/-- The protocol is registered in part while another program makes a key beside it. -/
def partWritten : List Label :=
  [invoke .register (.only .protocol), .write, .write, .others (.create ["software", "other"]), .write]

def laterInvoked : List Label :=
  [.stop, invoke .register .all, .stop, .others (.unset ["software", "other"] "name"),
   invoke .unregister (.only .protocol), .stop]

theorem interrupted_kept_protocol : ∃ u w,
    Runs (Guarded (Untouched .protocol) (Fires step)) blank partWritten u ∧
    Runs (Guarded (Untouched .protocol) (Fires step)) u laterInvoked w ∧
    ∀ p, rootOf .protocol <+: p → w.registry.get p = u.registry.get p := by
  obtain ⟨u, hwrite, hu⟩ := @guarded_runs_of_exec_any _ _ (Untouched .protocol) _ step blank partWritten
    (fun u => (u.phase.isWriting (rootOf .protocol) && (u.registry.get (rootOf .protocol)).isSome) &&
      (exec (guard (Untouched .protocol) step) u laterInvoked).any fun _ => true) (by decide +kernel)
  rw [Bool.and_eq_true, Bool.and_eq_true] at hu
  obtain ⟨⟨hwriting, hthere⟩, hrun⟩ := hu
  obtain ⟨w, hr, -⟩ := guarded_runs_of_exec_any hrun
  obtain ⟨rest, hrest, hleft⟩ := Phase.exists_edit hwriting
  exact ⟨u, w, hwrite, hr, interrupted_kept rfl hwrite hrest hleft hthere hr⟩

end SubscriptionRouter.ShellIntegration
