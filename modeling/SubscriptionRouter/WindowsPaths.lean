import Mathlib
import SubscriptionRouter.GoCase
import SubscriptionRouter.Splitting

set_option autoImplicit false

/-!
# Go's `path/filepath` on Windows

Volume names, absolute paths and cleaning. Cleaning writes into a buffer that is made only when the
result stops being a front part of the path, and it goes over the path one element at a time, so the
loop here is a fold over the elements.
-/
namespace SubscriptionRouter.WindowsPaths
open GoText GoCase Splitting

def backslash : UInt8 := 0x5C

def colon : UInt8 := 0x3A

def dot : UInt8 := 0x2E

def isPathSeparator (c : UInt8) : Bool := c = backslash || c = 0x2F

def fromSlash (path : GoString) : GoString := path.map fun c => if c = 0x2F then backslash else c

/-! ## Volume names -/

/-- Every separator is like every other, and letters are without case. -/
def pathHasPrefixFold (s before : GoString) : Bool :=
  before.length ≤ s.length &&
  (List.zip before s).all (fun p =>
    if isPathSeparator p.1 then isPathSeparator p.2 else upperByte p.1 = upperByte p.2) &&
  (s[before.length]?).all isPathSeparator

def uncLen (path : GoString) (prefixLen : ℕ) : ℕ :=
  let separators := (List.range path.length).filter fun i => prefixLen ≤ i ∧ (path[i]?).any isPathSeparator
  (separators[1]?).getD path.length

/-- The length of a path up to the first separator from some position on. -/
def deviceLen (path : GoString) (start : ℕ) : ℕ :=
  start + ((path.drop start).takeWhile fun c => !isPathSeparator c).length

def volumeNameLen (path : GoString) : ℕ :=
  if 2 ≤ path.length ∧ path[1]? = some colon then 2
  else if path = [] ∨ ¬ (path[0]?).any isPathSeparator then 0
  else if pathHasPrefixFold path (lit "\\\\.\\UNC") then uncLen path 8
  else if pathHasPrefixFold path (lit "\\\\.") || pathHasPrefixFold path (lit "\\\\?") ||
      pathHasPrefixFold path (lit "\\??") then
    if path.length = 3 then 3 else deviceLen path 4
  else if (path[1]?).any isPathSeparator then uncLen path 2
  else 0

def volumeName (path : GoString) : GoString := fromSlash (path.take (volumeNameLen path))

def isAbs (path : GoString) : Bool :=
  let l := volumeNameLen path
  if l = 0 then false
  else if (path[0]?).any isPathSeparator && (path[1]?).any isPathSeparator then true
  else (path[l]?).any isPathSeparator

/-! ## Cleaning -/

/-- `lazybuf`: without a buffer of its own the front part of the path is what was written. -/
structure LazyBuf where
  path : GoString
  buf : Option GoString
  w : ℕ

namespace LazyBuf

def contents (out : LazyBuf) : GoString := out.buf.getD out.path

def text (out : LazyBuf) : GoString := out.contents.take out.w

def append (out : LazyBuf) (c : UInt8) : LazyBuf :=
  match out.buf with
  | none =>
    if out.path[out.w]? = some c then { out with w := out.w + 1 }
    else
      let made := out.path.take out.w ++ List.replicate (out.path.length - out.w) 0
      { out with buf := some (made.take out.w ++ c :: made.drop (out.w + 1)), w := out.w + 1 }
  | some buf => { out with buf := some (buf.take out.w ++ c :: buf.drop (out.w + 1)), w := out.w + 1 }

def appendAll (out : LazyBuf) (element : GoString) : LazyBuf := element.foldl append out

/-- Back to the last separator, and not before the position where `..` has to stop. -/
def backtrack (out : LazyBuf) (dotdot : ℕ) : ℕ → ℕ
  | 0 => 0
  | w + 1 => if dotdot < w ∧ ¬ (out.contents[w]?).any isPathSeparator then backtrack out dotdot w else w

/-- A relative path must not become one with a drive or a device. -/
def postClean (out : LazyBuf) (volLen : ℕ) : LazyBuf :=
  match out.buf with
  | none => out
  | some buf =>
    if volLen ≠ 0 then out
    else if colon ∈ buf.takeWhile fun c => !isPathSeparator c then
      { out with buf := some (dot :: backslash :: buf), w := out.w + 2 }
    else if 3 ≤ buf.length ∧ (buf[0]?).any isPathSeparator ∧ buf[1]? = some 0x3F ∧ buf[2]? = some 0x3F then
      { out with buf := some (backslash :: dot :: buf), w := out.w + 2 }
    else out

end LazyBuf

def cleanElement (rooted : Bool) (s : LazyBuf × ℕ) (element : GoString) : LazyBuf × ℕ :=
  let out := s.1
  let dotdot := s.2
  if element = [] ∨ element = [dot] then s
  else if element = [dot, dot] then
    if dotdot < out.w then ({ out with w := out.backtrack dotdot out.w }, dotdot)
    else if rooted then s
    else
      let up := (if 0 < out.w then out.append backslash else out).appendAll [dot, dot]
      (up, up.w)
  else
    let separated := if (rooted && out.w ≠ 1) || (!rooted && out.w ≠ 0) then out.append backslash else out
    (separated.appendAll element, dotdot)

def elements (path : GoString) : List GoString := path.splitOnP isPathSeparator

def clean (path : GoString) : GoString :=
  let volLen := volumeNameLen path
  let rest := path.drop volLen
  if rest = [] then
    if 1 < volLen ∧ (path[0]?).any isPathSeparator ∧ (path[1]?).any isPathSeparator then fromSlash path
    else path ++ [dot]
  else
    let rooted := (rest[0]?).any isPathSeparator
    let out : LazyBuf := ⟨rest, none, 0⟩
    let start := if rooted then (out.append backslash, 1) else (out, 0)
    let all := ((elements rest).foldl (cleanElement rooted) start).1
    let named := if all.w = 0 then all.append dot else all
    fromSlash (path.take volLen ++ (named.postClean volLen).text)

/-! ## Joining -/

/-- What `join` writes for an element behind what it has written. -/
def joinElement (b e : GoString) : GoString :=
  let last := b.getLastD 0
  if b = [] then e
  else if isPathSeparator last then
    let rest := e.dropWhile isPathSeparator
    let device := b.length = 1 ∧ (lit "??").isPrefixOf rest ∧ (rest[2]?).all isPathSeparator
    b ++ (if device then [dot, backslash] else []) ++ rest
  else if last = colon then b ++ e
  else b ++ backslash :: e

def join (elem : List GoString) : GoString :=
  let b := elem.foldl joinElement []
  if b = [] then [] else clean b

def dir (path : GoString) : GoString :=
  let vol := volumeName path
  let rest := path.drop vol.length
  let cleaned := clean (rest.take (rest.length - (rest.reverse.takeWhile fun c => !isPathSeparator c).length))
  if cleaned = [dot] ∧ 2 < vol.length then vol else vol ++ cleaned

/-! ## Writing -/

section Writing
variable {out : LazyBuf} {c : UInt8} {element : GoString}

def LazyBuf.Fits (out : LazyBuf) : Prop := out.w ≤ out.contents.length

theorem take_write {l : GoString} {w : ℕ} (h : w ≤ l.length) (c : UInt8) (after : GoString) :
    w + 1 ≤ (l.take w ++ c :: after).length ∧ (l.take w ++ c :: after).take (w + 1) = l.take w ++ [c] := by
  have hlength : (l.take w).length = w := List.length_take_of_le h
  constructor
  · rw [List.length_append, hlength, List.length_cons]
    omega
  · rw [List.take_append, hlength, Nat.add_sub_cancel_left, List.take_of_length_le (by omega)]
    rfl

theorem LazyBuf.Fits.append (h : out.Fits) (c : UInt8) :
    (out.append c).Fits ∧ (out.append c).text = out.text ++ [c] := by
  obtain ⟨path, buf, w⟩ := out
  cases buf with
  | none =>
    have hw : w ≤ path.length := h
    by_cases hsame : path[w]? = some c
    · have happend : (LazyBuf.mk path none w).append c = ⟨path, none, w + 1⟩ := if_pos hsame
      rw [happend]
      refine ⟨(List.getElem?_eq_some_iff.mp hsame).choose, ?_⟩
      change path.take (w + 1) = path.take w ++ [c]
      rw [List.take_add_one, hsame]
      rfl
    · have hmade : (path.take w ++ List.replicate (path.length - w) 0).take w = path.take w := by
        rw [List.take_append, List.take_take, List.length_take_of_le hw, Nat.sub_self, Nat.min_self,
          List.take_zero, List.append_nil]
      have happend : (LazyBuf.mk path none w).append c = ⟨path, some (path.take w ++
          c :: (path.take w ++ List.replicate (path.length - w) 0).drop (w + 1)), w + 1⟩ := by
        refine (if_neg hsame).trans ?_
        rw [hmade]
      rw [happend]
      exact take_write hw c _
  | some buf => exact take_write h c _

theorem LazyBuf.Fits.appendAll (h : out.Fits) (element : GoString) :
    (out.appendAll element).Fits ∧ (out.appendAll element).text = out.text ++ element := by
  induction element generalizing out with
  | nil => exact ⟨h, (List.append_nil _).symm⟩
  | cons c element ih =>
    obtain ⟨hfits, htext⟩ := h.append c
    obtain ⟨hfits', htext'⟩ := ih hfits
    refine ⟨hfits', htext'.trans ?_⟩
    rw [htext, List.append_assoc, List.singleton_append]

end Writing

/-! ## Rooted paths -/

section Rooted
variable {names : List GoString} {out : LazyBuf} {dotdot : ℕ}

def rooted (names : List GoString) : GoString := backslash :: [backslash].intercalate names

theorem rooted_concat (names : List GoString) (name : GoString) :
    rooted (names ++ [name]) = rooted names ++ (if names = [] then [] else [backslash]) ++ name := by
  unfold rooted
  rw [intercalate_concat, List.cons_append, List.cons_append]

theorem length_rooted (hnames : ∀ name ∈ names, name ≠ []) : (rooted names).length = 1 ↔ names = [] := by
  cases names with
  | nil => simp [rooted]
  | cons first names =>
    obtain ⟨c, rest, rfl⟩ := List.exists_cons_of_ne_nil (hnames first List.mem_cons_self)
    cases names <;> simp [rooted]

theorem LazyBuf.Fits.length_text (h : out.Fits) : out.text.length = out.w := List.length_take_of_le h

variable (dotdot) in
/-- An element that is a name is written behind a separator, and one that is empty is left out. -/
theorem cleanElement_rooted {element : GoString} (hfits : out.Fits) (htext : out.text = rooted names)
    (hnames : ∀ name ∈ names, name ≠ []) (hdot : element ≠ [dot]) (hup : element ≠ [dot, dot]) :
    ∃ out', cleanElement true (out, dotdot) element = (out', dotdot) ∧ out'.Fits ∧
      out'.text = rooted (names ++ if element = [] then [] else [element]) := by
  by_cases hempty : element = []
  · refine ⟨out, if_pos (.inl hempty), hfits, ?_⟩
    rw [if_pos hempty, List.append_nil, htext]
  · have hskip : ¬ (element = [] ∨ element = [dot]) := by
      rw [not_or]
      exact ⟨hempty, hdot⟩
    have hw : out.w = 1 ↔ names = [] := by
      rw [← hfits.length_text, htext]
      exact length_rooted hnames
    have hseparated : ((if (true && out.w ≠ 1) || (!true && out.w ≠ 0) then out.append backslash else out) :
        LazyBuf).Fits ∧
        ((if (true && out.w ≠ 1) || (!true && out.w ≠ 0) then out.append backslash else out) : LazyBuf).text =
          rooted names ++ if names = [] then [] else [backslash] := by
      by_cases hfirst : names = []
      · simp [hw.mpr hfirst, hfits, htext, hfirst]
      · have hmore : out.w ≠ 1 := fun h => hfirst (hw.mp h)
        obtain ⟨hfits', htext'⟩ := hfits.append backslash
        simp [hmore, hfits', htext', htext, hfirst]
    obtain ⟨hfits', htext'⟩ := hseparated.1.appendAll element
    refine ⟨_, ?_, hfits', ?_⟩
    · unfold cleanElement
      rw [if_neg hskip, if_neg hup]
    · rw [htext', hseparated.2, if_neg hempty, rooted_concat]

variable (names dotdot) in
theorem foldl_cleanElement_rooted {parts : List GoString} (hfits : out.Fits) (htext : out.text = rooted names)
    (hnames : ∀ name ∈ names, name ≠ []) (hparts : ∀ part ∈ parts, part ≠ [dot] ∧ part ≠ [dot, dot]) :
    ∃ out', parts.foldl (cleanElement true) (out, dotdot) = (out', dotdot) ∧ out'.Fits ∧
      out'.text = rooted (names ++ parts.filter (· ≠ [])) := by
  induction parts generalizing out names with
  | nil => exact ⟨out, rfl, hfits, by rw [List.filter_nil, List.append_nil, htext]⟩
  | cons part parts ih =>
    obtain ⟨hdot, hup⟩ := hparts part List.mem_cons_self
    obtain ⟨next, hstep, hfits', htext'⟩ := cleanElement_rooted dotdot hfits htext hnames hdot hup
    have hnames' : ∀ name ∈ names ++ (if part = [] then [] else [part]), name ≠ [] := by
      intro name hname
      rcases List.mem_append.mp hname with hname | hname
      · exact hnames name hname
      · by_cases hempty : part = []
        · simp [hempty] at hname
        · rw [if_neg hempty, List.mem_singleton] at hname
          exact hname ▸ hempty
    obtain ⟨out', hall, hfits'', htext''⟩ := ih _ hfits' htext' hnames'
      fun part hpart => hparts part (List.mem_cons_of_mem _ hpart)
    refine ⟨out', by rw [List.foldl_cons, hstep, hall], hfits'', ?_⟩
    rw [htext'', List.append_assoc]
    by_cases hempty : part = []
    · simp [hempty]
    · simp [hempty]

theorem fromSlash_self {s : GoString} (h : ∀ b ∈ s, b ≠ 0x2F) : fromSlash s = s := by
  conv_rhs => rw [← List.map_id s]
  exact List.map_congr_left fun b hb => if_neg (h b hb)

theorem separator_iff {c : UInt8} : isPathSeparator c = true ↔ c = backslash ∨ c = 0x2F := by
  simp [isPathSeparator]

theorem not_separator {c : UInt8} (h : isPathSeparator c = false) : c ≠ 0x2F := by
  rintro rfl
  cases h

theorem mem_rooted {b : UInt8} (h : b ∈ rooted names) : b = backslash ∨ ∃ name ∈ names, b ∈ name := by
  rcases List.mem_cons.mp h with h | h
  · exact .inl h
  · exact mem_intercalate h

theorem volumeNameLen_drive (letter : UInt8) (rest : GoString) :
    volumeNameLen (letter :: colon :: rest) = 2 := by
  simp [volumeNameLen]

/-- A path with a drive, a separator and no dots keeps its names. -/
theorem clean_drive {letter : UInt8} {rest : GoString} (hletter : letter ≠ 0x2F)
    (hrooted : (rest[0]?).any isPathSeparator = true)
    (hparts : ∀ part ∈ elements rest, part ≠ [dot] ∧ part ≠ [dot, dot]) :
    clean (letter :: colon :: rest) = letter :: colon :: rooted ((elements rest).filter (· ≠ [])) := by
  have hrest : rest ≠ [] := by
    rintro rfl
    cases hrooted
  have hempty : (LazyBuf.mk rest none 0).Fits := Nat.zero_le _
  obtain ⟨hfits, htext⟩ := hempty.append backslash
  obtain ⟨out, hall, hfits', htext'⟩ := foldl_cleanElement_rooted [] 1 hfits htext
    (List.forall_mem_nil _) hparts
  have hw : out.w ≠ 0 := by
    rw [← hfits'.length_text, htext']
    exact Nat.succ_ne_zero _
  have hpost : out.postClean 2 = out := by
    unfold LazyBuf.postClean
    cases out.buf with
    | none => rfl
    | some buf => exact if_pos (by decide)
  unfold clean
  simp only [volumeNameLen_drive, List.drop_succ_cons, List.drop_zero, if_neg hrest, hrooted, if_true, hall,
    if_neg hw, hpost, htext', List.nil_append, List.take_succ_cons, List.take_zero]
  refine fromSlash_self fun b hb => ?_
  rcases List.mem_cons.mp hb with rfl | hb
  · exact hletter
  · rcases List.mem_cons.mp hb with rfl | hb
    · decide
    · rcases mem_rooted hb with rfl | ⟨name, hname, hb⟩
      · decide
      · exact not_separator (free_of_mem_splitOnP (List.mem_of_mem_filter hname) b hb)

theorem elements_rooted (hnames : ∀ name ∈ names, name ≠ [] ∧ ∀ b ∈ name, isPathSeparator b = false) :
    (elements (rooted names)).filter (· ≠ []) = names := by
  have hall : names.filter (· ≠ []) = names :=
    List.filter_eq_self.mpr fun name hname => decide_eq_true (hnames name hname).1
  unfold elements rooted
  rw [List.splitOnP_cons_eq_if_modifyHead, if_pos (by decide), List.filter_cons_of_neg (by simp)]
  by_cases hne : names = []
  · subst hne
    rfl
  · rw [splitOnP_intercalate (by decide) (fun name hname => (hnames name hname).2) hne, hall]

end Rooted

/-! ## The last byte -/

section Last
variable {out : LazyBuf} {s : LazyBuf × ℕ} {c : UInt8}

theorem LazyBuf.Fits.text_getLast (h : out.Fits) {element : GoString} (helement : element.getLast? = some c) :
    (out.appendAll element).Fits ∧ (out.appendAll element).text.getLast? = some c := by
  obtain ⟨hfits, htext⟩ := h.appendAll element
  exact ⟨hfits, by rw [htext, List.getLast?_append, helement]; rfl⟩

theorem LazyBuf.backtrack_le (out : LazyBuf) (dotdot w : ℕ) : out.backtrack dotdot w ≤ w := by
  induction w with
  | zero => exact Nat.le_refl 0
  | succ w ih =>
    unfold backtrack
    by_cases h : dotdot < w ∧ ¬ (out.contents[w]?).any isPathSeparator
    · rw [if_pos h]
      omega
    · rw [if_neg h]
      omega

theorem LazyBuf.Fits.separate (h : out.Fits) (b : Bool) :
    (if b then out.append backslash else out : LazyBuf).Fits := by
  cases b with
  | false => exact h
  | true => exact (h.append backslash).1

theorem cleanElement_fits (rooted : Bool) (h : s.1.Fits) (element : GoString) :
    (cleanElement rooted s element).1.Fits := by
  unfold cleanElement
  by_cases hskip : element = [] ∨ element = [dot]
  · rwa [if_pos hskip]
  · rw [if_neg hskip]
    by_cases hup : element = [dot, dot]
    · rw [if_pos hup]
      by_cases hback : s.2 < s.1.w
      · rw [if_pos hback]
        exact (LazyBuf.backtrack_le s.1 s.2 s.1.w).trans h
      · rw [if_neg hback]
        cases rooted with
        | true => exact h
        | false =>
          have hseparated := (h.separate (decide (0 < s.1.w))).appendAll [dot, dot]
          simpa using hseparated.1
    · rw [if_neg hup]
      exact ((h.separate _).appendAll element).1

theorem foldl_cleanElement_fits (rooted : Bool) (h : s.1.Fits) (parts : List GoString) :
    (parts.foldl (cleanElement rooted) s).1.Fits := by
  induction parts generalizing s with
  | nil => exact h
  | cons part parts ih => exact ih (cleanElement_fits rooted h part)

theorem cleanElement_getLast (rooted : Bool) (h : s.1.Fits) {element : GoString}
    (hlast : element.getLast? = some c) (hdot : c ≠ dot) :
    (cleanElement rooted s element).1.Fits ∧ (cleanElement rooted s element).1.text.getLast? = some c := by
  have hskip : ¬ (element = [] ∨ element = [dot]) := by
    rintro (rfl | rfl)
    · cases hlast
    · exact hdot (Option.some.inj hlast).symm
  have hup : element ≠ [dot, dot] := by
    rintro rfl
    exact hdot (Option.some.inj hlast).symm
  unfold cleanElement
  rw [if_neg hskip, if_neg hup]
  exact (h.separate _).text_getLast hlast

theorem LazyBuf.postClean_getLast (volLen : ℕ) (hlast : out.text.getLast? = some c) :
    (out.postClean volLen).text.getLast? = some c := by
  obtain ⟨path, buf, w⟩ := out
  cases buf with
  | none => exact hlast
  | some buf =>
    have hmore (a b : UInt8) : ((a :: b :: buf).take (w + 2)).getLast? = some c := by
      change (buf.take w).getLast? = some c at hlast
      rw [List.take_succ_cons, List.take_succ_cons, List.getLast?_cons, List.getLast?_cons, hlast]
      rfl
    unfold LazyBuf.postClean
    by_cases hvolume : volLen ≠ 0
    · simp only [if_pos hvolume]
      exact hlast
    · simp only [if_neg hvolume]
      by_cases hdrive : colon ∈ buf.takeWhile fun c => !isPathSeparator c
      · rw [if_pos hdrive]
        exact hmore dot backslash
      · rw [if_neg hdrive]
        by_cases hdevice : 3 ≤ buf.length ∧ (buf[0]?).any isPathSeparator ∧
            buf[1]? = some 0x3F ∧ buf[2]? = some 0x3F
        · rw [if_pos hdevice]
          exact hmore backslash dot
        · rw [if_neg hdevice]
          exact hlast

theorem fromSlash_getLast {t : GoString} (hlast : t.getLast? = some c) (hc : isPathSeparator c = false) :
    (fromSlash t).getLast? = some c := by
  rw [fromSlash, List.getLast?_map, hlast, Option.map_some, if_neg (not_separator hc)]

theorem clean_getLast {path : GoString} (hlast : path.getLast? = some c) (hc : isPathSeparator c = false)
    (hdot : c ≠ dot) : (clean path).getLast? = some c ∨ (clean path).getLast? = some dot := by
  unfold clean
  by_cases hrest : path.drop (volumeNameLen path) = []
  · simp only [if_pos hrest]
    by_cases hunc : 1 < volumeNameLen path ∧ (path[0]?).any isPathSeparator ∧ (path[1]?).any isPathSeparator
    · rw [if_pos hunc]
      exact .inl (fromSlash_getLast hlast hc)
    · rw [if_neg hunc, List.getLast?_append]
      exact .inr rfl
  · left
    have hshort : ¬ path.length ≤ volumeNameLen path := fun h => hrest (List.drop_eq_nil_of_le h)
    have hlast' : (path.drop (volumeNameLen path)).getLast? = some c := by
      rw [List.getLast?_drop, if_neg hshort, hlast]
    obtain ⟨before, last, hsplit, hend⟩ := splitOnP_getLast hlast' hc
    simp only [if_neg hrest]
    generalize path.drop (volumeNameLen path) = rest at *
    have hempty : (LazyBuf.mk rest none 0).Fits := Nat.zero_le _
    have hstart (b : Bool) : (if b then ((LazyBuf.mk rest none 0).append backslash, 1)
        else (LazyBuf.mk rest none 0, 0)).1.Fits := by
      cases b with
      | false => exact hempty
      | true => exact (hempty.append backslash).1
    obtain ⟨hfits, htext⟩ := cleanElement_getLast ((rest[0]?).any isPathSeparator)
      (foldl_cleanElement_fits ((rest[0]?).any isPathSeparator)
        (hstart ((rest[0]?).any isPathSeparator)) before)
      hend hdot
    rw [elements, hsplit, List.foldl_append, List.foldl_cons, List.foldl_nil]
    have hw : ∀ w : LazyBuf, w.Fits → w.text.getLast? = some c → w.w ≠ 0 := by
      intro w hw hlast hzero
      rw [List.length_eq_zero_iff.mp (hw.length_text.trans hzero)] at hlast
      cases hlast
    rw [if_neg (hw _ hfits htext)]
    refine fromSlash_getLast ?_ hc
    rw [List.getLast?_append, LazyBuf.postClean_getLast _ htext]
    rfl

theorem dropWhile_getLast {e : GoString} (hlast : e.getLast? = some c) (hc : isPathSeparator c = false) :
    (e.dropWhile isPathSeparator).getLast? = some c := by
  obtain ⟨init, rfl⟩ := List.getLast?_eq_some_iff.mp hlast
  have hlastdrop : [c].dropWhile isPathSeparator = [c] := List.dropWhile_cons_of_neg (by simpa using hc)
  rw [List.dropWhile_append, hlastdrop]
  by_cases hempty : (init.dropWhile isPathSeparator).isEmpty
  · rw [if_pos hempty]
    rfl
  · rw [if_neg hempty, List.getLast?_append]
    rfl

theorem joinElement_getLast (b : GoString) {e : GoString} (hlast : e.getLast? = some c)
    (hc : isPathSeparator c = false) : (joinElement b e).getLast? = some c := by
  unfold joinElement
  by_cases hempty : b = []
  · simp only [if_pos hempty]
    exact hlast
  · simp only [if_neg hempty]
    by_cases hseparator : isPathSeparator (b.getLastD 0) = true
    · rw [if_pos hseparator, List.getLast?_append, dropWhile_getLast hlast hc]
      rfl
    · rw [if_neg hseparator]
      by_cases hdrive : b.getLastD 0 = colon
      · rw [if_pos hdrive, List.getLast?_append, hlast]
        rfl
      · rw [if_neg hdrive, List.getLast?_append, List.getLast?_cons, hlast]
        rfl

theorem join_getLast (before : GoString) {e : GoString} (hlast : e.getLast? = some c)
    (hc : isPathSeparator c = false) (hdot : c ≠ dot) :
    (join [before, e]).getLast? = some c ∨ (join [before, e]).getLast? = some dot := by
  have hfirst : joinElement [] before = before := by
    unfold joinElement
    exact if_pos rfl
  have hwritten := joinElement_getLast before hlast hc
  have hne : joinElement before e ≠ [] := by
    intro hempty
    rw [hempty] at hwritten
    cases hwritten
  unfold join
  rw [List.foldl_cons, List.foldl_cons, List.foldl_nil, hfirst, if_neg hne]
  exact clean_getLast hwritten hc hdot

end Last

end SubscriptionRouter.WindowsPaths
