import Mathlib
import SubscriptionRouter.GoUrl
import SubscriptionRouter.WindowsPaths

set_option autoImplicit false

/-!
# Open links

A `codex-router://open?path=` link names a file or directory. `parseRouterOpenURI` gives its path,
cleaned after it was checked.
-/
namespace SubscriptionRouter.OpenUri
open GoText GoCase GoUrl Splitting WindowsPaths

def maximumDeepLinkBytes : ℕ := 4 * 1024

def routerProtocolScheme : GoString := lit "codex-router"

def routerOpenHost : GoString := lit "open"

def nul : UInt8 := 0x00

def carriageReturn : UInt8 := 0x0D

def lineFeed : UInt8 := 0x0A

def quote : UInt8 := 0x22

def isASCIILetter (value : UInt8) : Bool := (0x41 ≤ value && value ≤ 0x5A) || (0x61 ≤ value && value ≤ 0x7A)

def validateLocalPathShape (target : GoString) : Bool :=
  let volume := volumeName target
  let remainder := if volume.isPrefixOf target then target.drop volume.length else target
  let components := (remainder.map fun c => if c = 0x2F then backslash else c).splitOn backslash
  !((lit "\\\\").isPrefixOf target || (lit "//").isPrefixOf target || (lit "\\\\?\\").isPrefixOf target ||
      (lit "\\\\.\\").isPrefixOf target) &&
    (volume.length = 2 && volume[1]? = some colon && (volume[0]?).any isASCIILetter && isAbs target) &&
    colon ∉ remainder &&
    components.all fun component => component ≠ [dot] && component ≠ [dot, dot]

/-- The value of the one parameter. -/
def openTarget (query : List (GoString × GoString)) : Option GoString :=
  match query with
  | [(key, value)] => if key = lit "path" ∧ value ≠ [] then some value else none
  | _ => none

def parseRouterOpenURI (raw : GoString) : Option GoString := do
  guard (raw ≠ [] ∧ raw.length ≤ maximumDeepLinkBytes)
  guard (validString raw = true ∧ nul ∉ raw ∧ carriageReturn ∉ raw ∧ lineFeed ∉ raw)
  let parsed ← GoUrl.parse raw
  guard (equalFold parsed.scheme routerProtocolScheme ∧ parsed.opaqueText = [])
  guard (parsed.user = none ∧ parsed.port = [] ∧ equalFold parsed.hostname routerOpenHost)
  guard (parsed.path = [] ∨ parsed.path = lit "/")
  guard (parsed.fragment = [])
  let query ← parseQuery parsed.rawQuery
  let target ← openTarget query
  guard (target.length < 32768 ∧ validString target ∧
    nul ∉ target ∧ carriageReturn ∉ target ∧ lineFeed ∉ target ∧ quote ∉ target)
  guard (validateLocalPathShape target)
  return clean target

/-! ## Plain local paths -/

/-- An absolute path on a drive that says nothing but the names of its directories. -/
structure PlainLocal (path : GoString) : Prop where
  drive : ∃ letter rest, isASCIILetter letter = true ∧ path = letter :: colon :: backslash :: rest
  absolute : isAbs path = true
  volume : volumeName path = path.take 2
  network : ¬ (lit "\\\\").isPrefixOf path ∧ ¬ (lit "//").isPrefixOf path ∧ ¬ (lit "\\??\\").isPrefixOf path
  components : ∀ component ∈ elements (path.drop 2), component ≠ [dot] ∧ component ≠ [dot, dot]
  streams : colon ∉ path.drop 2
  text : nul ∉ path ∧ carriageReturn ∉ path ∧ lineFeed ∉ path ∧ quote ∉ path
  fixed : clean path = path
  accepted : validateLocalPathShape path = true
  start : path.head? ≠ some 0x2D ∧ path.head? ≠ some 0x2F

section Shape
variable {target path : GoString} {letter : UInt8} {rest : GoString}

theorem letter_not_separator (h : isASCIILetter letter = true) : isPathSeparator letter = false := by
  rw [Bool.eq_false_iff]
  intro hseparator
  rcases separator_iff.mp hseparator with rfl | rfl
  · exact absurd h (by decide)
  · exact absurd h (by decide)

theorem lit_prefixes : lit "\\\\" = [backslash, backslash] ∧ lit "//" = [0x2F, 0x2F] ∧
    lit "\\\\?\\" = [backslash, backslash, 0x3F, backslash] ∧
    lit "\\\\.\\" = [backslash, backslash, dot, backslash] ∧
    lit "\\??\\" = [backslash, 0x3F, 0x3F, backslash] := by decide

theorem no_leading (h : isASCIILetter letter = true) {c : UInt8} (hc : isPathSeparator c = true)
    (before : GoString) :
    (c :: before).isPrefixOf (letter :: colon :: rest) = false := by
  have hne : (c == letter) = false := by
    rw [beq_eq_false_iff_ne]
    rintro rfl
    rw [letter_not_separator h] at hc
    cases hc
  rw [List.isPrefixOf_cons_cons, hne, Bool.false_and]

theorem volumeName_drive (h : isASCIILetter letter = true) :
    volumeName (letter :: colon :: rest) = [letter, colon] := by
  rw [volumeName, volumeNameLen_drive]
  refine fromSlash_self fun b hb => ?_
  rcases List.mem_cons.mp hb with rfl | hb
  · exact not_separator (letter_not_separator h)
  · rw [List.take_succ_cons, List.take_zero, List.mem_singleton] at hb
    subst hb
    decide

theorem isAbs_drive (h : isASCIILetter letter = true) :
    isAbs (letter :: colon :: rest) = (rest[0]?).any isPathSeparator := by
  simp [isAbs, volumeNameLen_drive, letter_not_separator h]

theorem components_eq (rest : GoString) :
    (rest.map fun c => if c = 0x2F then backslash else c).splitOn backslash = elements rest := by
  have hseparator : (fun c : UInt8 => (if c = 0x2F then backslash else c) == backslash) = isPathSeparator := by
    funext c
    by_cases hc : c = 0x2F
    · subst hc
      rfl
    · simp only [hc, if_false, isPathSeparator, decide_false, Bool.or_false]
      rfl
  rw [List.splitOn_eq_splitOnP, splitOnP_map, hseparator]
  conv_rhs => rw [elements, ← List.map_id (rest.splitOnP isPathSeparator)]
  refine List.map_congr_left fun part hpart => ?_
  exact fromSlash_self fun b hb => not_separator (free_of_mem_splitOnP hpart b hb)

theorem drive_of_volume (hlength : (volumeName target).length = 2)
    (hcolon : (volumeName target)[1]? = some colon)
    (hletter : ((volumeName target)[0]?).any isASCIILetter = true) :
    ∃ letter rest, target = letter :: colon :: rest ∧ isASCIILetter letter = true := by
  rw [volumeName, fromSlash, List.length_map] at hlength
  obtain ⟨a, b, hab⟩ := List.length_eq_two.mp hlength
  rw [volumeName, fromSlash, hab] at hcolon hletter
  have htarget : target = a :: b :: target.drop (volumeNameLen target) := by
    conv_lhs => rw [← List.take_append_drop (volumeNameLen target) target, hab]
    rfl
  have hb : b = colon := by
    by_cases hslash : b = 0x2F
    · subst hslash
      cases hcolon
    · simpa [hslash] using hcolon
  have ha : isASCIILetter a = true := by
    by_cases hslash : a = 0x2F
    · subst hslash
      cases hletter
    · simpa [hslash] using hletter
  exact ⟨a, _, hb ▸ htarget, ha⟩

/-- The shape that is checked: a drive, a separator, and no component of dots. -/
theorem validateLocalPathShape_iff : validateLocalPathShape target = true ↔
    ∃ letter rest, target = letter :: colon :: rest ∧ isASCIILetter letter = true ∧
      (rest[0]?).any isPathSeparator = true ∧ colon ∉ rest ∧
      ∀ component ∈ elements rest, component ≠ [dot] ∧ component ≠ [dot, dot] := by
  constructor
  · intro h
    simp only [validateLocalPathShape, Bool.and_eq_true, decide_eq_true_iff] at h
    obtain ⟨⟨⟨-, ⟨⟨hlength, hcolon⟩, hletter⟩, habs⟩, hstreams⟩, hcomponents⟩ := h
    obtain ⟨letter, rest, rfl, hdrive⟩ := drive_of_volume hlength hcolon hletter
    have hremainder : [letter, colon].isPrefixOf (letter :: colon :: rest) = true := by simp
    rw [volumeName_drive hdrive, if_pos hremainder] at hstreams hcomponents
    rw [isAbs_drive hdrive] at habs
    refine ⟨letter, rest, rfl, hdrive, habs, hstreams, fun component hcomponent => ?_⟩
    rw [← components_eq] at hcomponent
    simpa using List.all_eq_true.mp hcomponents component hcomponent
  · rintro ⟨letter, rest, rfl, hletter, habs, hstreams, hcomponents⟩
    obtain ⟨h1, h2, h3, h4, -⟩ := lit_prefixes
    have hremainder : [letter, colon].isPrefixOf (letter :: colon :: rest) = true := by simp
    simp only [validateLocalPathShape, volumeName_drive hletter, if_pos hremainder,
      isAbs_drive hletter, h1, h2, h3, h4]
    rw [no_leading hletter (by decide), no_leading hletter (by decide), no_leading hletter (by decide),
      no_leading hletter (by decide)]
    have hall : (elements rest).all (fun component => component ≠ [dot] && component ≠ [dot, dot]) = true :=
      List.all_eq_true.mpr fun component hcomponent => by simpa using hcomponents component hcomponent
    simpa [components_eq, habs, hletter, hstreams] using hall

/-- Cleaning a path of this shape gives one of it that is clean. -/
theorem clean_shape (h : validateLocalPathShape target = true) :
    ∃ letter rest, clean target = letter :: colon :: backslash :: rest ∧ isASCIILetter letter = true ∧
      validateLocalPathShape (clean target) = true ∧ clean (clean target) = clean target ∧
      (∀ b ∈ clean target, b = backslash ∨ b ∈ target) ∧ colon ∉ backslash :: rest ∧
      ∀ component ∈ elements (backslash :: rest), component ≠ [dot] ∧ component ≠ [dot, dot] := by
  obtain ⟨letter, rest, rfl, hletter, hrooted, hstreams, hcomponents⟩ := validateLocalPathShape_iff.mp h
  have hslash := not_separator (letter_not_separator hletter)
  have hclean := clean_drive hslash hrooted hcomponents
  have hnames : ∀ name ∈ (elements rest).filter (· ≠ []),
      name ≠ [] ∧ ∀ b ∈ name, isPathSeparator b = false := by
    intro name hname
    obtain ⟨hpart, hne⟩ := List.mem_filter.mp hname
    exact ⟨of_decide_eq_true hne, free_of_mem_splitOnP hpart⟩
  have hbytes : ∀ b ∈ rooted ((elements rest).filter (· ≠ [])), b = backslash ∨ b ∈ rest := by
    intro b hb
    rcases mem_rooted hb with rfl | ⟨name, hname, hb⟩
    · exact .inl rfl
    · exact .inr (mem_of_mem_splitOnP (List.mem_of_mem_filter hname) b hb)
  have hagain := elements_rooted hnames
  have hcolon : colon ∉ rooted ((elements rest).filter (· ≠ [])) := by
    intro hb
    rcases hbytes colon hb with hb | hb
    · exact absurd hb (by decide)
    · exact hstreams hb
  have hdots : ∀ component ∈ elements (rooted ((elements rest).filter (· ≠ []))),
      component ≠ [dot] ∧ component ≠ [dot, dot] := by
    intro component hcomponent
    by_cases hempty : component = []
    · subst hempty
      exact ⟨(List.cons_ne_nil _ _).symm, (List.cons_ne_nil _ _).symm⟩
    · have hname : component ∈ (elements (rooted ((elements rest).filter (· ≠ [])))).filter (· ≠ []) :=
        List.mem_filter.mpr ⟨hcomponent, decide_eq_true hempty⟩
      rw [hagain] at hname
      exact hcomponents component (List.mem_of_mem_filter hname)
  rw [hclean]
  refine ⟨letter, _, rfl, hletter, ?_, ?_, ?_, hcolon, hdots⟩
  · exact validateLocalPathShape_iff.mpr ⟨letter, _, rfl, hletter, rfl, hcolon, hdots⟩
  · rw [clean_drive hslash rfl hdots, hagain]
  · intro b hb
    rcases List.mem_cons.mp hb with rfl | hb
    · exact .inr List.mem_cons_self
    · rcases List.mem_cons.mp hb with rfl | hb
      · exact .inr (List.mem_cons_of_mem _ List.mem_cons_self)
      · exact (hbytes b hb).imp_right fun h => List.mem_cons_of_mem _ (List.mem_cons_of_mem _ h)

end Shape

theorem drive_of_open {raw path : GoString} (h : parseRouterOpenURI raw = some path) :
    ∃ letter rest, isASCIILetter letter = true ∧ path = letter :: colon :: backslash :: rest := by
  simp only [parseRouterOpenURI, Option.bind_eq_bind, Option.bind_eq_some_iff, Option.guard_eq_some',
    Option.pure_def, Option.some.injEq, exists_const] at h
  obtain ⟨-, -, parsed, -, -, -, -, -, query, -, target, -, -, hshape, rfl⟩ := h
  obtain ⟨letter, rest, hpath, hletter, -⟩ := clean_shape hshape
  exact ⟨letter, rest, hletter, hpath⟩

theorem parseRouterOpenURI_plainLocal {raw path : GoString} (h : parseRouterOpenURI raw = some path) :
    PlainLocal path := by
  simp only [parseRouterOpenURI, Option.bind_eq_bind, Option.bind_eq_some_iff, Option.guard_eq_some',
    Option.pure_def, Option.some.injEq, exists_const] at h
  obtain ⟨-, -, parsed, -, -, -, -, -, query, -, target, -, ⟨-, -, hnul, hreturn, hfeed, hquote⟩,
    hshape, rfl⟩ := h
  obtain ⟨letter, rest, hpath, hletter, hagain, hfixed, hbytes, hcolon, hdots⟩ := clean_shape hshape
  obtain ⟨h1, h2, -, -, h5⟩ := lit_prefixes
  have hnot {b : UInt8} (hb : b ∉ target) (hne : b ≠ backslash) : b ∉ clean target := fun hmem =>
    (hbytes b hmem).elim hne hb
  have hlead : letter ≠ 0x2D ∧ letter ≠ 0x2F := by
    constructor
    · rintro rfl
      cases hletter
    · rintro rfl
      cases hletter
  exact {
    drive := ⟨letter, rest, hletter, hpath⟩
    absolute := by rw [hpath, isAbs_drive hletter]; rfl
    volume := by rw [hpath, volumeName_drive hletter]; rfl
    network := by
      rw [hpath, h1, h2, h5, no_leading hletter (by decide), no_leading hletter (by decide),
        no_leading hletter (by decide)]
      exact ⟨Bool.false_ne_true, Bool.false_ne_true, Bool.false_ne_true⟩
    components := by rw [hpath]; exact hdots
    streams := by rw [hpath]; exact hcolon
    text := ⟨hnot hnul (by decide), hnot hreturn (by decide), hnot hfeed (by decide), hnot hquote (by decide)⟩
    fixed := hfixed
    accepted := hagain
    start := by
      rw [hpath]
      exact ⟨fun h => hlead.1 (Option.some.inj h), fun h => hlead.2 (Option.some.inj h)⟩ }

theorem parseRouterOpenURI_sample : PlainLocal (lit "C:\\a b\\c") :=
  @parseRouterOpenURI_plainLocal (lit "codex-router://open/?path=C:%5Ca+b/%5Cc%2F") _ (by decide +kernel)

end SubscriptionRouter.OpenUri
