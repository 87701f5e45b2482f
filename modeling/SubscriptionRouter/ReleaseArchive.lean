import Mathlib
import SubscriptionRouter.Frames
import SubscriptionRouter.SourceScan

set_option autoImplicit false

/-!
# A release archive and the commit it is made from

`_verify_archive` compares the members of an archive with the files of a commit, which
`_git_source_files` reads from what git prints. The bytes of the archive give a header; the members
are what `tarfile` makes of them. A text that has no UTF-8 encoding is `none`.
-/
namespace SubscriptionRouter.ReleaseArchive
open GoText SourceScan

/-- The parts of Python that depend on the Unicode tables. -/
structure Python where
  lower : Bytes → Bytes
  casefold : Bytes → Bytes

/-- What `git ls-tree -r -z` prints for the commit, and `git cat-file blob` for an object. -/
structure Git where
  lsTree : Option Bytes
  catFile : Bytes → Option Bytes

structure SourceFile where
  path : Bytes
  data : Bytes
  executable : Bool
  deriving DecidableEq

structure BuildContext where
  sourceEpoch : ℤ
  archiveRoot : Bytes

/-- The time is `none` if it is not a number. The data is `none` if it cannot be read. -/
structure Member where
  name : Option Bytes
  type : UInt8
  uid : ℤ
  gid : ℤ
  uname : Option Bytes
  gname : Option Bytes
  mtime : Option ℚ
  mode : ℤ
  data : Option Bytes
  deriving DecidableEq

/-- `tarfile.REGULAR_TYPES`. -/
def regularTypes : List UInt8 := [0x30, 0x00, 0x37, 0x53]

def Member.isfile (member : Member) : Bool := member.type ∈ regularTypes

structure Archive where
  bytes : Bytes
  members : List Member

/-! ## The files of a commit -/

def nul : UInt8 := 0x00

def tab : UInt8 := 0x09

def space : UInt8 := 0x20

def readEntry (python : Python) (git : Git) (entry : Bytes) : Option SourceFile := do
  guard (tab ∈ entry)
  let metadata := entry.takeWhile (· ≠ tab)
  let path := (entry.dropWhile (· ≠ tab)).tail
  guard (∀ b ∈ metadata, b < 0x80)
  match metadata.splitOn space with
  | [mode, objectType, objectId] =>
    guard (validString path)
    guard (objectType = lit "blob" ∧ (mode = lit "100644" ∨ mode = lit "100755"))
    let data ← git.catFile objectId
    scanSourceFile python.lower path data
    return ⟨path, data, mode = lit "100755"⟩
  | _ => none

def byPath (files : List SourceFile) : List SourceFile :=
  files.insertionSort fun a b => a.path ≤ b.path

/-- `_git_source_files`. -/
def gitSourceFiles (python : Python) (git : Git) : Option (List SourceFile) := do
  let raw ← git.lsTree
  let read ← ((raw.splitOn nul).filter (· ≠ [])).mapM (readEntry python git)
  let files := byPath read
  guard (files ≠ [])
  guard (files.map fun file => python.casefold file.path).Nodup
  return files

/-! ## The check of an archive -/

/-- The ten bytes that every gzip file starts with. -/
def checkHeader (context : BuildContext) (header : Bytes) : Option Unit := do
  guard (header.length = 10 ∧ header.take 2 = [0x1F, 0x8B] ∧ header[2]? = some 8)
  guard (header[3]? = some 0)
  guard ((Frames.ofLittleEndian ((header.drop 4).take 4) : ℤ) = context.sourceEpoch)
  guard (header[8]? = some 2 ∧ header[9]? = some 255)

/-- The dictionary from the paths to the files: a later file takes the place of an earlier one. -/
def expectedSource (files : List SourceFile) (relative : Bytes) : Option SourceFile :=
  files.reverse.find? fun file => file.path = relative

def pathPrefix (context : BuildContext) : Bytes := context.archiveRoot ++ lit "/"

def sourceMode (file : SourceFile) : ℤ := if file.executable then 0o755 else 0o644

/-- What the loop does with a member. It gives the path that is added to the seen ones. -/
def checkMember (python : Python) (context : BuildContext) (files : List SourceFile)
    (member : Member) : Option Bytes := do
  let name ← member.name
  let _ ← normalizedPath name
  guard ((pathPrefix context).isPrefixOf name)
  let relative := name.drop (pathPrefix context).length
  guard member.isfile
  guard (member.uid = 0 ∧ member.gid = 0 ∧ member.uname = some (lit "root") ∧
    member.gname = some (lit "root"))
  guard (member.mtime = some (context.sourceEpoch : ℚ))
  guard (member.mode = 0o644 ∨ member.mode = 0o755)
  let data ← member.data
  scanSourceFile python.lower relative data
  let expected ← expectedSource files relative
  guard (data = expected.data)
  guard (member.mode = sourceMode expected)
  return relative

/-- `_verify_archive`. Sorting the names encodes them all. -/
def verifyArchive (python : Python) (git : Git) (context : BuildContext) (archive : Archive) :
    Option Unit := do
  checkHeader context (archive.bytes.take 10)
  let files ← gitSourceFiles python git
  let names ← archive.members.mapM Member.name
  guard (names = names.insertionSort (· ≤ ·))
  guard (names ≠ [])
  let seen ← archive.members.mapM (checkMember python context files)
  guard (∀ file ∈ files, file.path ∈ seen)

/-! ## What an exact archive is -/

/-- A line that git prints for a file or a submodule. -/
structure TreeEntry where
  mode : Bytes
  objectType : Bytes
  objectId : Bytes
  path : Bytes
  plain : ∀ part ∈ [mode, objectType, objectId], ∀ b ∈ part, space < b ∧ b < 0x80
  named : nul ∉ path

def TreeEntry.metadata (entry : TreeEntry) : Bytes :=
  [space].intercalate [entry.mode, entry.objectType, entry.objectId]

def TreeEntry.printed (entry : TreeEntry) : Bytes := entry.metadata ++ tab :: entry.path

def lsTree (tree : List TreeEntry) : Bytes := tree.flatMap fun entry => entry.printed ++ [nul]

/-- The member is the file of the entry, under the root. -/
structure Holds (git : Git) (context : BuildContext) (member : Member) (entry : TreeEntry) : Prop where
  name : member.name = some (pathPrefix context ++ entry.path)
  regular : member.isfile = true ∧ entry.objectType = lit "blob"
  mode : (entry.mode = lit "100644" ∧ member.mode = 0o644) ∨
    (entry.mode = lit "100755" ∧ member.mode = 0o755)
  data : ∃ data, member.data = some data ∧ git.catFile entry.objectId = some data

/-- The members are the files of the tree in the order of their paths, each once. -/
def Exact (git : Git) (context : BuildContext) (tree : List TreeEntry) (members : List Member) : Prop :=
  ∃ entries, entries.Perm tree ∧ entries.Pairwise (fun a b => a.path < b.path) ∧
    List.Forall₂ (Holds git context) members entries

section Lists
variable {α β : Type} {f : α → Option β} {l : List α} {r : List β}

theorem map_eq_of_mapM (h : l.mapM f = some r) : l.map f = r.map some := by
  induction l generalizing r with
  | nil =>
    rw [List.mapM_nil, Option.pure_def, Option.some.injEq] at h
    rw [← h, List.map_nil, List.map_nil]
  | cons a l ih =>
    rw [List.mapM_cons] at h
    simp only [Option.bind_eq_bind, Option.bind_eq_some_iff, Option.pure_def, Option.some.injEq] at h
    obtain ⟨b, hb, r, hr, rfl⟩ := h
    rw [List.map_cons, List.map_cons, hb, ih hr]

theorem forall₂_of_map_eq {γ : Type} {f : α → γ} {g : β → γ} {l : List α} {r : List β}
    (h : l.map f = r.map g) : List.Forall₂ (fun a b => f a = g b) l r := by
  rw [← List.forall₂_map_left_iff (R := fun c b => c = g b), ← List.forall₂_map_right_iff, h]
  exact List.forall₂_refl _

end Lists

/-! ## Reading the tree -/

section Tree
variable {python : Python} {git : Git} {tree : List TreeEntry} {entry : TreeEntry} {file : SourceFile}
  {files : List SourceFile}

structure Reads (git : Git) (entry : TreeEntry) (file : SourceFile) : Prop where
  blob : entry.objectType = lit "blob"
  path : file.path = entry.path
  mode : entry.mode = if file.executable then lit "100755" else lit "100644"
  data : git.catFile entry.objectId = some file.data

theorem TreeEntry.metadata_plain (entry : TreeEntry) : ∀ b ∈ entry.metadata, space ≤ b ∧ b < 0x80 := by
  intro b hb
  have hparts : b = space ∨ ∃ part ∈ [entry.mode, entry.objectType, entry.objectId], b ∈ part := by
    simp only [metadata, List.intercalate_cons_cons, List.intercalate_singleton, List.mem_append,
      List.mem_singleton] at hb
    simp only [List.mem_cons, List.not_mem_nil, or_false, exists_eq_or_imp, exists_eq_left]
    tauto
  rcases hparts with rfl | ⟨part, hpart, hb⟩
  · decide
  · exact ⟨UInt8.le_of_lt (entry.plain part hpart b hb).1, (entry.plain part hpart b hb).2⟩

theorem readEntry_printed (h : readEntry python git entry.printed = some file) : Reads git entry file := by
  have hbefore : ∀ b ∈ entry.metadata, decide (b ≠ tab) = true := by
    intro b hb
    refine decide_eq_true ?_
    rintro rfl
    exact absurd (entry.metadata_plain tab hb).1 (by decide)
  have hmetadata : entry.printed.takeWhile (· ≠ tab) = entry.metadata := by
    rw [TreeEntry.printed, List.takeWhile_append_of_pos hbefore, List.takeWhile_cons_of_neg (by simp),
      List.append_nil]
  have hpath : entry.printed.dropWhile (· ≠ tab) = tab :: entry.path := by
    rw [TreeEntry.printed, List.dropWhile_append_of_pos hbefore, List.dropWhile_cons_of_neg (by simp)]
  have hsplit : entry.metadata.splitOn space = [entry.mode, entry.objectType, entry.objectId] := by
    refine List.splitOn_intercalate space (fun part hpart hspace => ?_) (List.cons_ne_nil _ _)
    exact absurd (entry.plain part hpart space hspace).1 (by decide)
  unfold readEntry at h
  simp only [hmetadata, hpath, hsplit, List.tail_cons, Option.bind_eq_bind, Option.bind_eq_some_iff,
    Option.guard_eq_some', Option.pure_def, Option.some.injEq, exists_const] at h
  obtain ⟨-, -, -, ⟨hblob, hmode⟩, data, hdata, -, -, rfl⟩ := h
  refine ⟨hblob, rfl, ?_, hdata⟩
  rcases hmode with hmode | hmode
  · rw [hmode]
    rfl
  · rw [hmode]
    rfl

theorem split_lsTree (tree : List TreeEntry) :
    (lsTree tree).splitOn nul = tree.map TreeEntry.printed ++ [[]] := by
  induction tree with
  | nil => rfl
  | cons entry tree ih =>
    have hnul : nul ∉ entry.printed := by
      simp only [TreeEntry.printed, List.mem_append, List.mem_cons, not_or]
      refine ⟨fun hmem => absurd (entry.metadata_plain nul hmem).1 (by decide), by decide, entry.named⟩
    rw [lsTree, List.flatMap_cons, List.append_assoc, List.singleton_append,
      List.splitOn_append_cons_self_of_not_mem hnul, ← lsTree, ih]
    rfl

theorem byPath_sorted (files : List SourceFile) : (byPath files).Pairwise fun a b => a.path ≤ b.path := by
  have htotal : Std.Total fun a b : SourceFile => a.path ≤ b.path := ⟨fun a b => List.le_total a.path b.path⟩
  have htrans : IsTrans SourceFile fun a b => a.path ≤ b.path := ⟨fun _ _ _ => List.le_trans⟩
  exact List.pairwise_insertionSort _ files

theorem gitSourceFiles_lsTree (htree : git.lsTree = some (lsTree tree))
    (h : gitSourceFiles python git = some files) :
    (∃ read, List.Forall₂ (Reads git) tree read ∧ read.Perm files) ∧
      files.Pairwise (fun a b => a.path < b.path) := by
  have hlines : ((lsTree tree).splitOn nul).filter (· ≠ []) = tree.map TreeEntry.printed := by
    rw [split_lsTree, List.filter_append, List.filter_singleton, List.filter_eq_self.mpr]
    · simp
    · intro line hline
      obtain ⟨entry, -, rfl⟩ := List.mem_map.mp hline
      simp [TreeEntry.printed]
  unfold gitSourceFiles at h
  simp only [htree, hlines, Option.bind_eq_bind, Option.bind_some, Option.bind_eq_some_iff,
    Option.guard_eq_some', Option.pure_def, Option.some.injEq, exists_const] at h
  obtain ⟨read, hread, -, hfolded, rfl⟩ := h
  refine ⟨⟨read, ?_, (List.perm_insertionSort _ read).symm⟩, ?_⟩
  · have hentries := map_eq_of_mapM hread
    rw [List.map_map] at hentries
    exact (forall₂_of_map_eq hentries).imp fun _ _ => readEntry_printed
  · have hdistinct : (byPath read).Pairwise fun a b => a.path ≠ b.path :=
      (List.pairwise_map.mp hfolded).imp fun hne hpath => hne (by rw [hpath])
    refine ((byPath_sorted read).and hdistinct).imp fun {a b} h => ?_
    exact (List.le_iff_lt_or_eq.mp h.1).resolve_right h.2

end Tree

/-! ## The members that are let through -/

section Members
variable {python : Python} {git : Git} {context : BuildContext} {member : Member}
  {files : List SourceFile} {relative : Bytes}

/-- The member is the file, under the root. -/
structure Matches (context : BuildContext) (member : Member) (file : SourceFile) : Prop where
  name : member.name = some (pathPrefix context ++ file.path)
  regular : member.isfile = true
  mode : member.mode = sourceMode file
  data : member.data = some file.data

theorem checkMember_matches (h : checkMember python context files member = some relative) :
    ∃ file ∈ files, Matches context member file ∧ file.path = relative := by
  unfold checkMember at h
  simp only [Option.bind_eq_bind, Option.bind_eq_some_iff,
    Option.guard_eq_some', Option.pure_def, Option.some.injEq, exists_const] at h
  obtain ⟨name, hname, -, -, hprefix, hregular, -, -, -, data, hdata, -, -, file, hfile, rfl, hmode, rfl⟩ := h
  obtain ⟨rest, rfl⟩ := List.isPrefixOf_iff_prefix.mp hprefix
  rw [List.drop_left] at hfile ⊢
  unfold expectedSource at hfile
  have hpath : file.path = rest := by simpa using List.find?_some hfile
  subst hpath
  exact ⟨file, List.mem_reverse.mp (List.mem_of_find?_eq_some hfile), ⟨hname, hregular, hmode, hdata⟩, rfl⟩

theorem Matches.holds {entry : TreeEntry} {file : SourceFile} (h : Matches context member file)
    (hentry : Reads git entry file) : Holds git context member entry where
  name := hentry.path ▸ h.name
  regular := ⟨h.regular, hentry.blob⟩
  mode := by
    have hmode := h.mode
    have hentrymode := hentry.mode
    unfold sourceMode at hmode
    cases hexecutable : file.executable with
    | true =>
      rw [hexecutable] at hmode hentrymode
      exact .inr ⟨hentrymode, hmode⟩
    | false =>
      rw [hexecutable] at hmode hentrymode
      exact .inl ⟨hentrymode, hmode⟩
  data := ⟨file.data, h.data, hentry.data⟩

end Members

section Acceptance
variable {python : Python} {git : Git} {context : BuildContext} {archive : Archive}
  {tree : List TreeEntry} {files : List SourceFile} {members : List Member}

structure Covers (context : BuildContext) (files : List SourceFile) (members : List Member) : Prop where
  sorted : ∃ names : List Bytes, members.map Member.name = names.map some ∧ names.Pairwise (· ≤ ·)
  within : ∀ member ∈ members, ∃ file ∈ files, Matches context member file
  covered : ∀ file ∈ files, ∃ member ∈ members, Matches context member file

theorem gitSourceFiles_of_verifyArchive (h : verifyArchive python git context archive = some ()) :
    ∃ files, gitSourceFiles python git = some files := by
  unfold verifyArchive at h
  simp only [Option.bind_eq_bind, Option.bind_eq_some_iff] at h
  obtain ⟨-, -, files, hfiles, -⟩ := h
  exact ⟨files, hfiles⟩

theorem covers_of_verifyArchive (hfiles : gitSourceFiles python git = some files)
    (hnodup : (files.map SourceFile.path).Nodup)
    (h : verifyArchive python git context archive = some ()) : Covers context files archive.members := by
  unfold verifyArchive at h
  simp only [hfiles, Option.bind_eq_bind, Option.bind_eq_some_iff, Option.bind_some,
    Option.guard_eq_some', exists_const] at h
  obtain ⟨-, -, names, hnames, hsorted, -, seen, hseen, hcovered⟩ := h
  have hchecked := map_eq_of_mapM hseen
  refine ⟨⟨names, map_eq_of_mapM hnames, ?_⟩, fun member hmember => ?_, fun file hfile => ?_⟩
  · rw [hsorted]
    exact List.pairwise_insertionSort _ names
  · have hmem := List.mem_map_of_mem (f := checkMember python context files) hmember
    rw [hchecked] at hmem
    obtain ⟨relative, -, hrelative⟩ := List.mem_map.mp hmem
    obtain ⟨file, hfile, hmatches, -⟩ := checkMember_matches hrelative.symm
    exact ⟨file, hfile, hmatches⟩
  · have hmem := List.mem_map_of_mem (f := some) (hcovered file hfile)
    rw [← hchecked] at hmem
    obtain ⟨member, hmember, hrelative⟩ := List.mem_map.mp hmem
    obtain ⟨file', hfile', hmatches, hpath⟩ := checkMember_matches hrelative
    obtain rfl := List.inj_on_of_nodup_map hnodup hfile' hfile hpath
    exact ⟨member, hmember, hmatches⟩

theorem paths_nodup (hfiles : files.Pairwise fun a b => a.path < b.path) :
    (files.map SourceFile.path).Nodup := by
  refine List.pairwise_map.mpr (hfiles.imp fun {a b} hlt heq => ?_)
  rw [heq] at hlt
  exact List.lt_irrefl _ hlt

theorem Covers.aligned (h : Covers context files members) (hfiles : files.Pairwise fun a b => a.path < b.path)
    (hnodup : (members.map Member.name).Nodup) : List.Forall₂ (Matches context) members files := by
  obtain ⟨names, hnames, hsorted⟩ := h.sorted
  have hpaths := paths_nodup hfiles
  have hexpected : (files.map fun file => pathPrefix context ++ file.path).Pairwise (· ≤ ·) :=
    List.pairwise_map.mpr (hfiles.imp fun hlt => List.append_left_le (List.le_of_lt hlt))
  have hmem (name : Bytes) : name ∈ names ↔ name ∈ files.map fun file => pathPrefix context ++ file.path := by
    rw [← List.mem_map_of_injective (Option.some_injective _), ← hnames, List.mem_map, List.mem_map]
    constructor
    · rintro ⟨member, hmember, hname⟩
      obtain ⟨file, hfile, hmatches⟩ := h.within member hmember
      exact ⟨file, hfile, Option.some.inj (hmatches.name.symm.trans hname)⟩
    · rintro ⟨file, hfile, rfl⟩
      obtain ⟨member, hmember, hmatches⟩ := h.covered file hfile
      exact ⟨member, hmember, hmatches.name⟩
  have hperm : names.Perm (files.map fun file => pathPrefix context ++ file.path) := by
    refine (List.perm_ext_iff_of_nodup ?_ ?_).mpr hmem
    · rw [hnames] at hnodup
      exact List.Nodup.of_map _ hnodup
    · rw [← Function.comp_def (pathPrefix context ++ ·) SourceFile.path, ← List.map_map]
      exact hpaths.map (List.append_right_injective _)
  have hsame := hperm.eq_of_pairwise (fun _ _ _ _ => List.le_antisymm) hsorted hexpected
  rw [hsame, List.map_map] at hnames
  obtain ⟨hlength, hzip⟩ := List.forall₂_iff_zip.mp (forall₂_of_map_eq hnames)
  refine List.forall₂_iff_zip.mpr ⟨hlength, fun {member file} hpair => ?_⟩
  obtain ⟨file', hfile', hmatches⟩ := h.within member (List.of_mem_zip hpair).1
  have hname := Option.some.inj (hmatches.name.symm.trans (hzip hpair))
  have hfile := List.inj_on_of_nodup_map hpaths hfile' (List.of_mem_zip hpair).2 (List.append_cancel_left hname)
  exact hfile ▸ hmatches

theorem Exact.nodup (h : Exact git context tree members) : (members.map Member.name).Nodup := by
  obtain ⟨entries, -, hordered, hholds⟩ := h
  have hnames : members.map Member.name = entries.map fun entry => some (pathPrefix context ++ entry.path) := by
    induction hholds with
    | nil => rfl
    | cons hfirst _ ih =>
      rw [List.map_cons, List.map_cons, hfirst.name, ih hordered.of_cons]
  rw [hnames]
  refine List.pairwise_map.mpr (hordered.imp fun hlt heq => ?_)
  have hpath := List.append_cancel_left (Option.some.inj heq)
  exact List.lt_irrefl _ (hpath ▸ hlt)

theorem paths_of_reads {entries : List TreeEntry} (h : List.Forall₂ (Reads git) entries files) :
    entries.map TreeEntry.path = files.map SourceFile.path := by
  induction h with
  | nil => rfl
  | cons hfirst _ ih => rw [List.map_cons, List.map_cons, hfirst.path, ih]

theorem holds_of_matches {entries : List TreeEntry} (h : List.Forall₂ (Matches context) members files)
    (hreads : List.Forall₂ (Reads git) entries files) : List.Forall₂ (Holds git context) members entries := by
  induction h generalizing entries with
  | nil =>
    cases hreads
    exact .nil
  | cons hfirst _ ih =>
    cases hreads with
    | cons hentry hreads => exact .cons (hfirst.holds hentry) (ih hreads)

end Acceptance

/-- The files have to be in the order of their names, but a name may come again. -/
theorem verifyArchive_exact_iff {python : Python} {git : Git} {context : BuildContext} {archive : Archive}
    {tree : List TreeEntry} (htree : git.lsTree = some (lsTree tree))
    (h : verifyArchive python git context archive = some ()) :
    Exact git context tree archive.members ↔ (archive.members.map Member.name).Nodup := by
  refine ⟨Exact.nodup, fun hnodup => ?_⟩
  obtain ⟨files, hfiles⟩ := gitSourceFiles_of_verifyArchive h
  obtain ⟨⟨read, hread, hperm⟩, hordered⟩ := gitSourceFiles_lsTree htree hfiles
  have haligned := (covers_of_verifyArchive hfiles (paths_nodup hordered) h).aligned hordered hnodup
  -- the entries in the order of the files that were read from them
  have hcomp : Relation.Comp (List.Forall₂ (Reads git)) List.Perm tree files := ⟨read, hread, hperm⟩
  rw [List.forall₂_comp_perm_eq_perm_comp_forall₂] at hcomp
  obtain ⟨entries, hentries, hreads⟩ := hcomp
  refine ⟨entries, hentries.symm, ?_, ?_⟩
  · have hsorted : (entries.map TreeEntry.path).Pairwise (· < ·) := by
      rw [paths_of_reads hreads]
      exact List.pairwise_map.mpr hordered
    exact List.pairwise_map.mp hsorted
  · exact holds_of_matches haligned hreads

section Example

def ascii : Python := ⟨id, id⟩

/-- One file named `a` that has `x` in it. -/
def sampleEntry : TreeEntry where
  mode := lit "100644"
  objectType := lit "blob"
  objectId := lit "c1"
  path := lit "a"
  plain := by decide +kernel
  named := by decide

def sampleGit : Git := ⟨some (lsTree [sampleEntry]), fun _ => some (lit "x")⟩

def sampleContext : BuildContext := ⟨0, lit "router"⟩

def sampleMember : Member :=
  ⟨some (lit "router/a"), 0x30, 0, 0, some (lit "root"), some (lit "root"), some 0, 0o644, some (lit "x")⟩

def sampleArchive (members : List Member) : Archive := ⟨[0x1F, 0x8B, 8, 0, 0, 0, 0, 0, 2, 255], members⟩

theorem verifyArchive_exact_sample : Exact sampleGit sampleContext [sampleEntry] [sampleMember] :=
  (@verifyArchive_exact_iff ascii sampleGit sampleContext (sampleArchive [sampleMember]) [sampleEntry] rfl
    (by decide +kernel)).mpr (by decide +kernel)

theorem repeated_member_accepted :
    verifyArchive ascii sampleGit sampleContext (sampleArchive [sampleMember, sampleMember]) = some () ∧
      ¬ Exact sampleGit sampleContext [sampleEntry] [sampleMember, sampleMember] := by
  refine ⟨by decide +kernel, fun h => ?_⟩
  have hnodup := h.nodup
  rw [List.map_cons, List.nodup_cons] at hnodup
  exact hnodup.1 List.mem_cons_self

end Example

end SubscriptionRouter.ReleaseArchive
