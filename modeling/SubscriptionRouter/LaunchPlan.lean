import Mathlib
import SubscriptionRouter.Messages
import SubscriptionRouter.OpenUri

set_option autoImplicit false

/-!
# The plan of a launch

`buildLaunchPlan` checks the arguments and the sidecar file and puts the profile directory first in
the arguments of the real app. What the file system says, how the sidecar's JSON is decoded, and what
the absolute form of a path is, are parameters.
-/
namespace SubscriptionRouter.LaunchPlan
open GoText GoCase GoUrl WindowsPaths OpenUri Messages

structure SidecarConfiguration where
  schemaVersion : ℤ
  stateRoot : GoString
  controlPort : Option ℤ

/-- What the launcher is given. A file that does not exist is `some none`. -/
structure Launcher where
  abs : GoString → Option GoString
  readOptional : GoString → Option (Option GoString)
  decodeJSON : GoString → Option SidecarConfiguration
  checkFile : GoString → Bool
  checkOpenTarget : GoString → Bool

structure Plan where
  appDirectory : GoString
  realApp : GoString
  mux : GoString
  realCodex : GoString
  stateRoot : GoString
  rootSource : GoString
  profile : GoString
  controlPort : ℤ
  configSchemaVersion : ℤ
  arguments : List GoString
  deriving DecidableEq

def profileDirectoryName : GoString := lit "Profile"

def sidecarRelativePath : GoString := lit "resources\\codex-router\\launcher-config.json"

def realAppName : GoString := lit "ChatGPT.real.exe"

def muxRelativePath : GoString := lit "resources\\codex.exe"

def realCodexRelative : GoString := lit "resources\\codex.real.exe"

def maximumSidecarBytes : ℕ := 16 * 1024

def legacyControlPort : ℤ := 48123

def minimumControlPort : ℤ := 49152

def maximumControlPort : ℤ := 65535

/-! ## The sidecar -/

def sidecarControlPort (configuration : SidecarConfiguration) : Option ℤ :=
  if configuration.schemaVersion = 1 ∧ configuration.controlPort = none then some legacyControlPort
  else if configuration.schemaVersion ≠ 2 then none
  else do
    let port ← configuration.controlPort
    guard (minimumControlPort ≤ port ∧ port ≤ maximumControlPort)
    return port

def decodeSidecar (launcher : Launcher) (contents : GoString) : Option SidecarConfiguration := do
  guard (contents ≠ [] ∧ contents.length ≤ maximumSidecarBytes)
  let configuration ← launcher.decodeJSON contents
  guard (configuration.stateRoot ≠ [])
  guard (configuration.schemaVersion = 1 ∧ configuration.controlPort = none ∨
    configuration.schemaVersion = 2 ∧ (sidecarControlPort configuration).isSome)
  return configuration

def validateAbsoluteRoot (value : GoString) : Option GoString := do
  guard (value ≠ [] ∧ nul ∉ value)
  guard (isAbs (clean value))
  return clean value

/-- The state root, where it comes from, the control port and the version of the schema. -/
def resolveLauncherConfiguration (launcher : Launcher) (appDirectory : GoString) :
    Option (GoString × GoString × ℤ × ℤ) := do
  let found ← launcher.readOptional (join [appDirectory, sidecarRelativePath])
  let contents ← found
  let configuration ← decodeSidecar launcher contents
  let controlPort ← sidecarControlPort configuration
  let root ← validateAbsoluteRoot configuration.stateRoot
  return (root, lit "sidecar:" ++ sidecarRelativePath, controlPort, configuration.schemaVersion)

/-! ## The arguments -/

def isRouterLink (argument : GoString) : Bool :=
  0x3A ∈ argument && equalFold (argument.takeWhile (· ≠ 0x3A)) routerProtocolScheme

def normalizeRouterArguments (launcher : Launcher) (arguments : List GoString) : Option (List GoString) :=
  match arguments.filter isRouterLink with
  | [] => some arguments
  | _ => match arguments with
    | [link] => do
      let target ← parseRouterOpenURI link
      guard (launcher.checkOpenTarget target)
      return [target]
    | _ => none

def hasUserDataOverride (arguments : List GoString) : Bool :=
  let option := lit "--user-data-dir"
  arguments.any fun argument =>
    let lower := toLower argument
    lower = option || (option ++ lit "=").isPrefixOf lower

def sameWindowsPath (left right : GoString) : Bool := equalFold (clean left) (clean right)

def buildLaunchPlan (launcher : Launcher) (executable : GoString) (arguments : List GoString) :
    Option Plan := do
  guard (executable ≠ [])
  let normalizedArguments ← normalizeRouterArguments launcher arguments
  guard (hasUserDataOverride normalizedArguments = false)
  let absoluteExecutable ← launcher.abs executable
  let appDirectory := dir absoluteExecutable
  let (stateRoot, rootSource, controlPort, configSchemaVersion) ←
    resolveLauncherConfiguration launcher appDirectory
  let profile := join [stateRoot, profileDirectoryName]
  let plan : Plan := {
    appDirectory := appDirectory
    realApp := join [appDirectory, realAppName]
    mux := join [appDirectory, muxRelativePath]
    realCodex := join [appDirectory, realCodexRelative]
    stateRoot := stateRoot
    rootSource := rootSource
    profile := profile
    controlPort := controlPort
    configSchemaVersion := configSchemaVersion
    arguments := (lit "--user-data-dir=" ++ profile) :: normalizedArguments }
  guard (launcher.checkFile plan.realApp ∧ launcher.checkFile plan.mux ∧ launcher.checkFile plan.realCodex)
  guard (sameWindowsPath plan.mux plan.realCodex = false)
  return plan

/-! ## How the app reads its arguments -/

/-- The grammar of Chromium's command line on Windows, as far as one switch goes. -/
def switchPrefix (argument : GoString) : GoString :=
  if (lit "--").isPrefixOf argument then lit "--"
  else if (lit "-").isPrefixOf argument then lit "-"
  else if (lit "/").isPrefixOf argument then lit "/"
  else []

/-- The name of a switch in lower case, and its value. -/
def switchOf (argument : GoString) : Option (GoString × GoString) :=
  let before := switchPrefix argument
  if before = [] ∨ before = argument then none
  else
    let text := argument.drop before.length
    some (asciiLower (text.takeWhile (· ≠ 0x3D)), (text.dropWhile (· ≠ 0x3D)).tail)

/-- The directories that the arguments set, in order, up to a bare `--`. -/
def userDataDirs (arguments : List GoString) : List GoString :=
  ((arguments.map trimSpace).takeWhile (· ≠ lit "--")).filterMap fun argument =>
    ((switchOf argument).filter fun s => s.1 = lit "user-data-dir").map Prod.snd

/-- A switch that is not written with two dashes and nothing before or after it. -/
def Respelled (argument : GoString) : Prop :=
  trimSpace argument ≠ argument ∨ switchPrefix argument ≠ lit "--"

def effectiveUserDataDir (arguments : List GoString) : Option GoString := (userDataDirs arguments).getLast?

/-! ## The first argument -/

section Trimming
variable {s t : GoString} {c : UInt8}

theorem units_ascii_cons (hc : c < 0x80) (t : GoString) : units (c :: t) = [c] :: units t :=
  units_encoding_append (.one hc) t

theorem unit_of_getLast {u : GoString} (hu : IsUnit u) (hc : c < 0x80) (h : u.getLast? = some c) : u = [c] := by
  have htail {b : UInt8} (hb : tailByte b = true) (heq : b = c) : False := by
    simp only [tailByte, Bool.and_eq_true, decide_eq_true_eq] at hb
    exact absurd hc (UInt8.not_lt.mpr (heq ▸ hb.1))
  rcases hu with hu | ⟨a, rfl, -⟩
  · cases hu with
    | one h' => simpa using h
    | two h' =>
      simp only [wellFormed2, Bool.and_eq_true] at h'
      exact (htail h'.2 (Option.some.inj h)).elim
    | three h' =>
      simp only [wellFormed3, Bool.and_eq_true] at h'
      exact (htail h'.1.1.2 (Option.some.inj h)).elim
    | four h' =>
      simp only [wellFormed4, Bool.and_eq_true] at h'
      exact (htail h'.1.1.2 (Option.some.inj h)).elim
  · simpa using h

theorem units_getLast (hc : c < 0x80) (h : s.getLast? = some c) : (units s).getLast? = some [c] := by
  cases hlast : (units s).getLast? with
  | none =>
    rw [units_eq_nil (List.getLast?_eq_none_iff.mp hlast)] at h
    cases h
  | some u =>
    obtain ⟨init, hinit⟩ := List.getLast?_eq_some_iff.mp hlast
    have hunit : IsUnit u := isUnit_of_mem (hinit ▸ List.mem_append_right _ List.mem_cons_self)
    rw [← units_flatten s, hinit, List.flatten_append, List.flatten_singleton,
      List.getLast?_append_of_ne_nil _ hunit.ne_nil] at h
    rw [unit_of_getLast hunit hc h]

theorem trimSpace_cons (hc : c < 0x80) (hspace : isSpace [c] = false) (t : GoString) :
    ∃ t', trimSpace (c :: t) = c :: t' := by
  have hkept : ((units (c :: t)).dropWhile isSpace).rdropWhile isSpace =
      ([c] :: units t).rdropWhile isSpace := by
    rw [units_ascii_cons hc, List.dropWhile_cons_of_neg (by simpa using hspace)]
  rw [trimSpace, hkept]
  have hne : ([c] :: units t).rdropWhile isSpace ≠ [] := by
    intro hnil
    have hall := List.rdropWhile_eq_nil_iff.mp hnil [c] List.mem_cons_self
    rw [hspace] at hall
    cases hall
  obtain ⟨first, others, hcons⟩ := List.exists_cons_of_ne_nil hne
  have hdashes := List.rdropWhile_prefix isSpace ([c] :: units t)
  rw [hcons, List.cons_prefix_cons] at hdashes
  rw [hcons, hdashes.1]
  exact ⟨others.flatten, rfl⟩

end Trimming

section Effective
variable {launcher : Launcher} {executable profile link target : GoString}
  {arguments normalized : List GoString}
  {plan : Plan}

theorem lit_switches : lit "--" = [0x2D, 0x2D] ∧ lit "-" = [0x2D] ∧ lit "/" = [0x2F] := by decide

theorem letter_ge {c : UInt8} (hc : isASCIILetter c = true) : 0x41 ≤ c ∧ c < 0x80 := by
  simp only [isASCIILetter, Bool.or_eq_true, Bool.and_eq_true, decide_eq_true_eq] at hc
  rcases hc with ⟨hlow, hhigh⟩ | ⟨hlow, hhigh⟩
  · exact ⟨hlow, UInt8.lt_of_le_of_lt hhigh (by decide)⟩
  · exact ⟨UInt8.le_trans (by decide) hlow, UInt8.lt_of_le_of_lt hhigh (by decide)⟩

theorem letter_not_space {c : UInt8} (hc : isASCIILetter c = true) : isSpace [c] = false := by
  have hne (b : UInt8) (hb : b < 0x41) : [c] ≠ [b] := by
    intro heq
    rw [List.singleton_inj.mp heq] at hc
    exact absurd hb (UInt8.not_lt.mpr (letter_ge hc).1)
  unfold isSpace
  rw [decide_eq_false (hne 0x09 (by decide)), decide_eq_false (hne 0x0A (by decide)),
    decide_eq_false (hne 0x0B (by decide)), decide_eq_false (hne 0x0C (by decide)),
    decide_eq_false (hne 0x0D (by decide)), decide_eq_false (hne 0x20 (by decide))]
  simp

theorem switchOf_letter {c : UInt8} {t : GoString} (hc : isASCIILetter c = true) :
    switchOf (c :: t) = none := by
  obtain ⟨h1, h2, h3⟩ := lit_switches
  have hne {b : UInt8} (hb : b < 0x41) : (b == c) = false := by
    rw [beq_eq_false_iff_ne]
    rintro rfl
    exact absurd hb (UInt8.not_lt.mpr (letter_ge hc).1)
  have hnone : switchPrefix (c :: t) = [] := by
    unfold switchPrefix
    rw [h1, h2, h3]
    simp [List.isPrefixOf_cons_cons, hne (b := 0x2D) (by decide), hne (b := 0x2F) (by decide)]
  unfold switchOf
  exact if_pos (.inl hnone)

theorem userDataDirs_letter {c : UInt8} {t : GoString} (hc : isASCIILetter c = true) :
    userDataDirs [c :: t] = [] := by
  obtain ⟨t', htrim⟩ := trimSpace_cons (letter_ge hc).2 (letter_not_space hc) t
  unfold userDataDirs
  rw [List.map_cons, List.map_nil, htrim]
  by_cases hend : c :: t' = lit "--"
  · rw [List.takeWhile_cons_of_neg (by simpa using hend), List.filterMap_nil]
  · rw [List.takeWhile_cons_of_pos (by simpa using hend), List.takeWhile_nil, List.filterMap_cons,
      switchOf_letter hc, Option.filter_none, Option.map_none, List.filterMap_nil]

theorem lit_profile : lit "--user-data-dir=" = 0x2D :: 0x2D :: (lit "user-data-dir" ++ [0x3D]) ∧
    asciiLower (lit "user-data-dir") = lit "user-data-dir" ∧
      ∀ b ∈ lit "user-data-dir", decide (b ≠ 0x3D) = true := by
  decide +kernel

theorem switchOf_profile (profile : GoString) :
    switchOf (lit "--user-data-dir=" ++ profile) = some (lit "user-data-dir", profile) := by
  obtain ⟨hlit, hlower, hname⟩ := lit_profile
  obtain ⟨h1, -, -⟩ := lit_switches
  have hdashes : switchPrefix (lit "--user-data-dir=" ++ profile) = [0x2D, 0x2D] := by
    unfold switchPrefix
    rw [hlit, h1]
    rfl
  unfold switchOf
  simp only [hdashes]
  rw [if_neg]
  · rw [hlit]
    simp only [List.cons_append, List.append_assoc, List.length_cons, List.length_nil,
      List.drop_succ_cons, List.drop_zero]
    rw [List.takeWhile_append_of_pos hname, List.dropWhile_append_of_pos hname,
      List.takeWhile_cons_of_neg (by simp), List.dropWhile_cons_of_neg (by simp), List.append_nil, hlower,
      List.tail_cons, List.nil_append]
  · rw [hlit]
    simp

theorem userDataDirs_profile (hlast : profile.getLast? = some 0x65 ∨ profile.getLast? = some dot) :
    userDataDirs ((lit "--user-data-dir=" ++ profile) :: arguments) = profile :: userDataDirs arguments := by
  have htrim : trimSpace (lit "--user-data-dir=" ++ profile) = lit "--user-data-dir=" ++ profile := by
    have hlit : lit "--user-data-dir=" = 0x2D :: lit "-user-data-dir=" := by decide
    apply trimSpace_eq_self
    · rw [hlit, List.cons_append, units_ascii_cons (by decide)]
      intro u hu
      obtain rfl := Option.some.inj hu
      decide
    · have hend (c : UInt8) (hc : c < 0x80) (hspace : isSpace [c] = false) (h : profile.getLast? = some c) :
          ∀ u ∈ (units (lit "--user-data-dir=" ++ profile)).getLast?, isSpace u = false := by
        rw [units_getLast hc (by rw [List.getLast?_append, h]; rfl)]
        intro u hu
        obtain rfl := Option.some.inj hu
        exact hspace
      rcases hlast with h | h
      · exact hend 0x65 (by decide) (by decide) h
      · exact hend dot (by decide) (by decide) h
  have hbare : lit "--user-data-dir=" ++ profile ≠ lit "--" := by
    rw [lit_profile.1, lit_switches.1]
    simp
  unfold userDataDirs
  rw [List.map_cons, htrim, List.takeWhile_cons_of_pos (by simpa using hbare), List.filterMap_cons,
    switchOf_profile, Option.filter_some, if_pos (decide_eq_true rfl), Option.map_some]

theorem toLower_ascii_append {s : GoString} (h : ∀ b ∈ s, b < 0x80) (t : GoString) :
    toLower (s ++ t) = asciiLower s ++ toLower t := by
  induction s with
  | nil => rfl
  | cons b s ih =>
    obtain ⟨hb, hs⟩ := List.forall_mem_cons.mp h
    have hunit : lowerUnit [b] = [lowerByte b] := by simp [lowerUnit]
    rw [toLower, List.cons_append, units_ascii_cons hb, List.map_cons, List.flatten_cons, hunit]
    exact congrArg (lowerByte b :: ·) (ih hs)

theorem ascii_of_lower {b : UInt8} (h : lowerByte b < 0x80) : b < 0x80 := by
  unfold lowerByte at h
  by_cases hupper : (0x41 ≤ b && b ≤ 0x5A) = true
  · rw [Bool.and_eq_true, decide_eq_true_iff, decide_eq_true_iff] at hupper
    exact UInt8.lt_of_le_of_lt hupper.2 (by decide)
  · rwa [if_neg hupper] at h

theorem lit_override : lit "--user-data-dir" = [0x2D, 0x2D] ++ lit "user-data-dir" ∧
    (∀ b ∈ lit "user-data-dir", b < 0x80) ∧ lit "=" = [0x3D] := by
  decide +kernel

/-- The switch with two dashes and nothing around it is an override, in any case. -/
theorem override_of_switch {argument directory : GoString} (hspaces : trimSpace argument = argument)
    (hdashes : switchPrefix argument = lit "--")
    (hswitch : switchOf (trimSpace argument) = some (lit "user-data-dir", directory))
    (hmem : argument ∈ arguments) : hasUserDataOverride arguments = true := by
  obtain ⟨hoption, hascii, hequals⟩ := lit_override
  obtain ⟨h1, h2, h3⟩ := lit_switches
  obtain ⟨text, rfl⟩ : ∃ text, argument = [0x2D, 0x2D] ++ text := by
    unfold switchPrefix at hdashes
    split_ifs at hdashes with hlong hshort hslash
    · rw [h1] at hlong
      obtain ⟨text, htext⟩ := List.isPrefixOf_iff_prefix.mp hlong
      exact ⟨text, htext.symm⟩
    · exact absurd hdashes (by decide)
    · exact absurd hdashes (by decide)
    · exact absurd hdashes (by decide)
  rw [hspaces, switchOf] at hswitch
  dsimp only at hswitch
  rw [hdashes, h1] at hswitch
  split at hswitch
  · cases hswitch
  · obtain ⟨hname, -⟩ := Prod.mk.inj (Option.some.inj hswitch)
    change asciiLower (text.takeWhile (· ≠ 0x3D)) = _ at hname
    have hnames : ∀ b ∈ text.takeWhile (· ≠ 0x3D), b < 0x80 := by
      intro b hb
      refine ascii_of_lower (hascii _ ?_)
      rw [← hname]
      exact List.mem_map_of_mem hb
    have hlong : ∀ b ∈ ([0x2D, 0x2D] : GoString), b < 0x80 := by simp
    have hlower : toLower ([0x2D, 0x2D] ++ text) =
        lit "--user-data-dir" ++ toLower (text.dropWhile (· ≠ 0x3D)) := by
      conv_lhs =>
        rw [← List.takeWhile_append_dropWhile (p := fun b => decide (b ≠ (0x3D : UInt8))) (l := text)]
      rw [toLower_ascii_append hlong, toLower_ascii_append hnames, hname, hoption, List.append_assoc,
        show asciiLower [0x2D, 0x2D] = [0x2D, 0x2D] by decide]
    refine List.any_eq_true.mpr ⟨_, hmem, ?_⟩
    dsimp only
    rw [hlower]
    cases hrest : text.dropWhile (· ≠ 0x3D) with
    | nil => simp [toLower, units]
    | cons b rest =>
      have hb : b = 0x3D := by
        have hhead := List.head?_dropWhile_not (fun b : UInt8 => decide (b ≠ 0x3D)) text
        rw [hrest] at hhead
        simpa using hhead
      rw [hb, toLower, units_ascii_cons (by decide), Bool.or_eq_true]
      refine .inr (List.isPrefixOf_iff_prefix.mpr ⟨((units rest).map lowerUnit).flatten, ?_⟩)
      rw [hequals, List.append_assoc]
      rfl

theorem link_letter (h : isRouterLink link = true) : ∃ c t, isASCIILetter c = true ∧ link = c :: t := by
  unfold isRouterLink at h
  have hscheme : (units routerProtocolScheme).map foldUnit =
      [0x43] :: (units (lit "odex-router")).map foldUnit := by decide
  have hfold := of_decide_eq_true (Bool.and_eq_true_iff.mp h).2
  rw [hscheme] at hfold
  obtain ⟨u, others, hunits, hu, -⟩ := List.map_eq_cons_iff.mp hfold
  have hbyte : ∃ a, u = [a] ∧ upperByte a = 0x43 := by
    unfold foldUnit at hu
    by_cases hlong : u = [0xC5, 0xBF]
    · rw [if_pos hlong] at hu
      exact absurd hu (by decide)
    · by_cases hkelvin : u = [0xE2, 0x84, 0xAA]
      · rw [if_neg hlong, if_pos hkelvin] at hu
        exact absurd hu (by decide)
      · rw [if_neg hlong, if_neg hkelvin] at hu
        obtain ⟨a, rfl, ha⟩ := List.map_eq_singleton_iff.mp hu
        exact ⟨a, rfl, ha⟩
  obtain ⟨a, rfl, ha⟩ := hbyte
  obtain ⟨-, t, hname, -⟩ := units_cons hunits
  refine ⟨a, t ++ link.dropWhile (· ≠ 0x3A), ?_, ?_⟩
  · unfold upperByte at ha
    unfold isASCIILetter
    by_cases hlower : (0x61 ≤ a && a ≤ 0x7A) = true
    · rw [hlower, Bool.or_true]
    · rw [if_neg hlower] at ha
      rw [ha]
      rfl
  · conv_lhs =>
      rw [← List.takeWhile_append_dropWhile (p := fun b => decide (b ≠ (0x3A : UInt8))) (l := link),
        hname]
    rfl

theorem userDataDirs_normalized (h : normalizeRouterArguments launcher arguments = some normalized) :
    userDataDirs normalized = userDataDirs arguments := by
  unfold normalizeRouterArguments at h
  cases hlinks : arguments.filter isRouterLink with
  | nil =>
    rw [hlinks] at h
    rw [Option.some.inj h]
  | cons link links =>
    rw [hlinks] at h
    have hlink : link ∈ arguments ∧ isRouterLink link = true := List.mem_filter.mp (hlinks ▸ List.mem_cons_self)
    match arguments, hlink, h with
    | [only], hlink, h =>
      obtain rfl := List.mem_singleton.mp hlink.1
      simp only [Option.bind_eq_bind, Option.bind_eq_some_iff, Option.guard_eq_some', Option.pure_def,
        Option.some.injEq, exists_const] at h
      obtain ⟨target, htarget, -, rfl⟩ := h
      obtain ⟨letter, rest, hletter, rfl⟩ := drive_of_open htarget
      obtain ⟨c, t, hc, rfl⟩ := link_letter hlink.2
      rw [userDataDirs_letter hletter, userDataDirs_letter hc]

theorem plan_arguments (h : buildLaunchPlan launcher executable arguments = some plan) :
    ∃ root normalized, normalizeRouterArguments launcher arguments = some normalized ∧
      plan.profile = join [root, profileDirectoryName] ∧
      plan.arguments = (lit "--user-data-dir=" ++ plan.profile) :: normalized := by
  simp only [buildLaunchPlan, Option.bind_eq_bind, Option.bind_eq_some_iff, Option.guard_eq_some',
    Option.pure_def, Option.some.injEq, exists_const] at h
  obtain ⟨-, normalized, hnormalized, -, directory, -, ⟨root, source, port, schema⟩, -, -, -, rfl⟩ := h
  exact ⟨root, normalized, hnormalized, rfl, rfl⟩

end Effective

/-- What an accepted plan leaves of the switch is spelled in another way. -/
theorem accepted_respelled {launcher : Launcher} {executable : GoString} {arguments : List GoString}
    {plan : Plan} (h : buildLaunchPlan launcher executable arguments = some plan) {argument : GoString}
    (hmem : argument ∈ arguments) {directory : GoString}
    (hswitch : switchOf (trimSpace argument) = some (lit "user-data-dir", directory)) :
    Respelled argument := by
  simp only [buildLaunchPlan, Option.bind_eq_bind, Option.bind_eq_some_iff, Option.guard_eq_some'] at h
  obtain ⟨_, _, normalized, hnormalized, _, hunchecked, _⟩ := h
  rw [Respelled, ← not_and_or]
  rintro ⟨hspaces, hdashes⟩
  have hkept : argument ∈ normalized := by
    unfold normalizeRouterArguments at hnormalized
    cases hlinks : arguments.filter isRouterLink with
    | nil =>
      rw [hlinks] at hnormalized
      exact Option.some.inj hnormalized ▸ hmem
    | cons link links =>
      -- A link that is alone starts with a letter, and is no switch.
      rw [hlinks] at hnormalized
      have hlink : link ∈ arguments ∧ isRouterLink link = true :=
        List.mem_filter.mp (hlinks ▸ List.mem_cons_self)
      match arguments, hmem, hlink, hnormalized with
      | [only], hmem, hlink, hnormalized =>
        obtain rfl := List.mem_singleton.mp hmem
        obtain rfl := List.mem_singleton.mp hlink.1
        obtain ⟨c, t, hc, rfl⟩ := link_letter hlink.2
        rw [hspaces, switchOf_letter hc] at hswitch
        cases hswitch
  rw [override_of_switch hspaces hdashes hswitch hkept] at hunchecked
  cases hunchecked

/-- The profile is the plan's unless the last argument that sets another spelling of the switch sets
another directory. -/
theorem effective_profile_iff {launcher : Launcher} {executable : GoString} {arguments : List GoString}
    {plan : Plan} (h : buildLaunchPlan launcher executable arguments = some plan) :
    (effectiveUserDataDir plan.arguments = some plan.profile ↔
      ∀ directory, (userDataDirs arguments).getLast? = some directory → directory = plan.profile) ∧
    ∀ argument ∈ arguments, ∀ directory,
      switchOf (trimSpace argument) = some (lit "user-data-dir", directory) → Respelled argument := by
  refine ⟨?_, fun argument hmem directory => accepted_respelled h hmem⟩
  obtain ⟨root, normalized, hnormalized, hprofile, harguments⟩ := plan_arguments h
  have hlast : plan.profile.getLast? = some 0x65 ∨ plan.profile.getLast? = some dot := by
    rw [hprofile]
    exact join_getLast root (by decide) (by decide) (by decide)
  rw [effectiveUserDataDir, harguments, userDataDirs_profile hlast, userDataDirs_normalized hnormalized,
    List.getLast?_cons]
  cases (userDataDirs arguments).getLast? with
  | none => simp
  | some directory => simp

section Example

def sampleSidecar : GoString :=
  lit "\x7b\"schemaVersion\":2,\"stateRoot\":\"D:/State\",\"controlPort\":50000\x7d"

def sampleLauncher : Launcher where
  abs := some
  readOptional := fun path =>
    some (if path = lit "C:\\Router\\resources\\codex-router\\launcher-config.json" then
      some sampleSidecar else none)
  decodeJSON := fun contents =>
    if contents = sampleSidecar then some ⟨2, lit "D:/State", some 50000⟩ else none
  checkFile := fun _ => true
  checkOpenTarget := fun _ => true

def launcherExecutable : GoString := lit "C:\\Router\\ChatGPT.exe"

theorem effective_profile_sample :
    ∃ plan, buildLaunchPlan sampleLauncher launcherExecutable [lit "codex://threads"] = some plan ∧
      effectiveUserDataDir plan.arguments = some plan.profile := by
  have h : (buildLaunchPlan sampleLauncher launcherExecutable [lit "codex://threads"]).isSome = true := by
    decide +kernel
  have hnone : userDataDirs [lit "codex://threads"] = [] := by decide +kernel
  obtain ⟨plan, hplan⟩ := Option.isSome_iff_exists.mp h
  refine ⟨plan, hplan, (effective_profile_iff hplan).1.mpr ?_⟩
  rw [hnone]
  exact nofun

/-- One dash is enough for the app. -/
theorem single_dash_overrides :
    ∃ plan, buildLaunchPlan sampleLauncher launcherExecutable [lit "-user-data-dir=C:\\Main"] = some plan ∧
      plan.profile = lit "D:\\State\\Profile" ∧
      effectiveUserDataDir plan.arguments = some (lit "C:\\Main") := by
  have h : (buildLaunchPlan sampleLauncher launcherExecutable [lit "-user-data-dir=C:\\Main"]).any (fun plan =>
      plan.profile = lit "D:\\State\\Profile" ∧
        effectiveUserDataDir plan.arguments = some (lit "C:\\Main")) = true := by decide +kernel
  obtain ⟨plan, hplan, hresult⟩ := (Option.any_eq_true _ _).mp h
  exact ⟨plan, hplan, of_decide_eq_true hresult⟩

end Example

end SubscriptionRouter.LaunchPlan
