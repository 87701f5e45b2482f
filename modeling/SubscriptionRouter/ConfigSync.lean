import Mathlib
import SubscriptionRouter.TextLines

set_option autoImplicit false

/-!
# The configuration of an isolated account

`syncIsolatedConfig` writes the settings of the primary configuration into that of an
isolated account, which keeps its own project sections. What a section is, it decides line
by line.
-/
namespace SubscriptionRouter.ConfigSync
open GoText TextLines

def isolatedCredentialConfig : GoString :=
  lit "cli_auth_credentials_store = \"file\"\nmcp_oauth_credentials_store = \"file\""

/-- The section that a line starts. -/
def sectionOf (line : GoString) : Option GoString :=
  let trimmed := trimSpace line
  if (lit "[").isPrefixOf trimmed && (lit "]").isSuffixOf trimmed then
    some (trimSpace (trimmed.drop 1).dropLast)
  else none

/-- The loop of the two filters: it writes the lines that it keeps. -/
def writeLines (keep : GoString → GoString → Bool) : GoString → List GoString → GoString
  | _, [] => []
  | current, line :: rest =>
    let current := (sectionOf line).getD current
    (if keep current line then line ++ [0x0A] else []) ++ writeLines keep current rest

def filterConfig (contents : GoString) (keep : GoString → Bool) : GoString :=
  writeLines (fun current _ => keep current) [] (splitLines contents)

def isCredentialSetting (line : GoString) : Bool :=
  (lit "cli_auth_credentials_store =").isPrefixOf (trimSpace line) ||
    (lit "mcp_oauth_credentials_store =").isPrefixOf (trimSpace line)

def removeTopLevelCredentialSettings (contents : GoString) : GoString :=
  writeLines (fun current line => !(current = [] && isCredentialSetting line)) []
    (splitLines contents)

def isProjectSection (current : GoString) : Bool :=
  current = lit "projects" || (lit "projects.").isPrefixOf current

def managedConfig (primary : GoString) : GoString :=
  trimSpace (removeTopLevelCredentialSettings
    (filterConfig primary fun current => !isProjectSection current))

def projectsConfig (isolated : GoString) : GoString :=
  trimSpace (filterConfig isolated isProjectSection)

def nonempty (part : GoString) : List GoString := if part = [] then [] else [part]

/-- The text that the isolated configuration is to have. -/
def synchronised (primary isolated : GoString) : GoString :=
  (lit "\n\n").intercalate
    ([isolatedCredentialConfig] ++ nonempty (managedConfig primary) ++
      nonempty (projectsConfig isolated)) ++ lit "\n"

def syncIsolatedConfig (primary isolated : GoString) : Option GoString :=
  if isolated = synchronised primary isolated then none else some (synchronised primary isolated)

/-! ## Sections -/

/-- The lines, each with the section it stands in. -/
def scan : GoString → List GoString → List (GoString × GoString)
  | _, [] => []
  | current, line :: rest =>
    let current := (sectionOf line).getD current
    (current, line) :: scan current rest

def sectionAfter (current : GoString) (lines : List GoString) : GoString :=
  lines.foldl (fun current line => (sectionOf line).getD current) current

theorem writeLines_eq (keep : GoString → GoString → Bool) (current : GoString)
    (lines : List GoString) : writeLines keep current lines =
      unlines (((scan current lines).filter fun e => keep e.1 e.2).map Prod.snd) := by
  induction lines generalizing current with
  | nil => rfl
  | cons line rest ih =>
    rw [writeLines, scan, ih]
    cases hk : keep ((sectionOf line).getD current) line <;> simp [hk, unlines]

theorem scan_append (current : GoString) (lines rest : List GoString) :
    scan current (lines ++ rest) = scan current lines ++ scan (sectionAfter current lines) rest := by
  induction lines generalizing current with
  | nil => rfl
  | cons line lines ih =>
    rw [List.cons_append, scan, scan, ih, List.cons_append]
    rfl

theorem map_scan (current : GoString) (lines : List GoString) :
    (scan current lines).map Prod.snd = lines := by
  induction lines generalizing current with
  | nil => rfl
  | cons line rest ih => rw [scan, List.map_cons, ih]

theorem sectionOf_trimSpace (line : GoString) : sectionOf (trimSpace line) = sectionOf line := by
  rw [sectionOf, trimSpace_trimSpace, sectionOf]

def AllIn (side : GoString → Bool) (current : GoString) (lines : List GoString) : Prop :=
  ∀ e ∈ scan current lines, side e.1 = true

instance (side : GoString → Bool) (current : GoString) (lines : List GoString) :
    Decidable (AllIn side current lines) :=
  inferInstanceAs (Decidable (∀ e ∈ scan current lines, side e.1 = true))

section Sides
variable {side : GoString → Bool} {current : GoString} {lines rest : List GoString}

theorem allIn_nil : AllIn side current [] := by
  intro e he
  cases he

theorem allIn_cons {line : GoString} : AllIn side current (line :: rest) ↔
    side ((sectionOf line).getD current) = true ∧ AllIn side ((sectionOf line).getD current) rest := by
  simp only [AllIn, scan, List.forall_mem_cons]

theorem allIn_append : AllIn side current (lines ++ rest) ↔
    AllIn side current lines ∧ AllIn side (sectionAfter current lines) rest := by
  simp only [AllIn, scan_append, List.forall_mem_append]

theorem allIn_map_trimSpace : AllIn side current (lines.map trimSpace) ↔ AllIn side current lines := by
  induction lines generalizing current with
  | nil => rfl
  | cons line lines ih => rw [List.map_cons, allIn_cons, allIn_cons, sectionOf_trimSpace, ih]

theorem side_sectionAfter (h : AllIn side current lines) (hc : lines = [] → side current = true) :
    side (sectionAfter current lines) = true := by
  induction lines generalizing current with
  | nil => exact hc rfl
  | cons line lines ih =>
    obtain ⟨hline, hrest⟩ := allIn_cons.mp h
    exact ih hrest fun _ => hline

theorem allIn_blank (h : side current = true) : AllIn side current [[]] :=
  allIn_cons.mpr ⟨h, allIn_nil⟩

theorem sectionAfter_blank (i : ℕ) : sectionAfter current (List.replicate i []) = current := by
  induction i with
  | zero => rfl
  | succ i ih => exact ih

theorem allIn_trimSpace {text : GoString} (h : AllIn side current (splitLines text)) :
    AllIn side current (splitLines (trimSpace text)) := by
  obtain ⟨i, j, hlines⟩ := trimmedLines_trimSpace text
  rw [← allIn_map_trimSpace, ← trimmedLines, hlines, List.append_assoc, allIn_append,
    sectionAfter_blank, allIn_append] at h
  rw [← allIn_map_trimSpace]
  exact h.2.1

end Sides

/-- The filter keeps no line outside of the sections of one kind, and every header in them. -/
structure Sided (keep : GoString → GoString → Bool) (side : GoString → Bool) : Prop where
  within : ∀ current line, keep current line = true → side current = true
  header : ∀ current line, sectionOf line = some current → side current = true →
    keep current line = true

def keptLines (keep : GoString → GoString → Bool) (current : GoString) (lines : List GoString) :
    List GoString :=
  ((scan current lines).filter fun e => keep e.1 e.2).map Prod.snd

/-- The lines that are kept stand in the sections they stood in. -/
theorem scan_keptLines {keep : GoString → GoString → Bool} {side : GoString → Bool}
    (hkeep : Sided keep side) {current current' : GoString} (lines : List GoString)
    (h : side current = true → current' = current) :
    scan current' (keptLines keep current lines) =
      (scan current lines).filter fun e => keep e.1 e.2 := by
  induction lines generalizing current current' with
  | nil => rfl
  | cons line rest ih =>
    have hkept : keptLines keep current (line :: rest) =
        (if keep ((sectionOf line).getD current) line then [line] else []) ++
          keptLines keep ((sectionOf line).getD current) rest := by
      rw [keptLines, scan]
      cases hk : keep ((sectionOf line).getD current) line <;> simp [hk, keptLines]
    rw [hkept, scan]
    cases hk : keep ((sectionOf line).getD current) line with
    | true =>
      have hside := hkeep.within _ _ hk
      have hsame : (sectionOf line).getD current' = (sectionOf line).getD current := by
        cases hsection : sectionOf line with
        | none =>
          rw [hsection] at hside
          exact h hside
        | some started => rfl
      rw [if_pos rfl, List.singleton_append, scan, hsame, ih fun _ => rfl,
        List.filter_cons, if_pos hk]
    | false =>
      rw [if_neg Bool.false_ne_true, List.nil_append, List.filter_cons, if_neg (by simp [hk])]
      refine ih fun hside => ?_
      cases hsection : sectionOf line with
      | none =>
        rw [hsection] at hside
        exact h hside
      | some started =>
        rw [hsection] at hside hk
        have hheader := hkeep.header _ _ hsection hside
        exact absurd (hk.symm.trans hheader) Bool.false_ne_true

/-! ## The two parts of the synchronised text -/

/-- What the two filters of the primary configuration keep together. -/
def keepsManaged (current line : GoString) : Bool :=
  !isProjectSection current && !(current = [] && isCredentialSetting line)

def keepsProjects (current _ : GoString) : Bool := isProjectSection current

theorem sectionOf_bracket {line current : GoString} (h : sectionOf line = some current) :
    ∃ rest, trimSpace line = 0x5B :: rest := by
  unfold sectionOf at h
  dsimp only at h
  split at h
  · rename_i hbrackets
    obtain ⟨rest, hrest⟩ := List.isPrefixOf_iff_prefix.mp (Bool.and_eq_true _ _ ▸ hbrackets).1
    exact ⟨rest, hrest.symm⟩
  · cases h

theorem not_credential_of_section {line current : GoString} (h : sectionOf line = some current) :
    isCredentialSetting line = false := by
  obtain ⟨rest, hrest⟩ := sectionOf_bracket h
  rw [isCredentialSetting, hrest]
  rfl

theorem sided_managed : Sided keepsManaged fun current => !isProjectSection current where
  within current line h := (Bool.and_eq_true _ _ ▸ h).1
  header current line hsection hside := by
    rw [keepsManaged, not_credential_of_section hsection, hside, Bool.and_false]
    rfl

theorem sided_projects : Sided keepsProjects isProjectSection where
  within _ _ h := h
  header _ _ _ h := h

theorem sided_filter (side : GoString → Bool) : Sided (fun current _ => side current) side where
  within _ _ h := h
  header _ _ _ h := h

theorem newline_not_mem_keptLines {keep : GoString → GoString → Bool} {current : GoString}
    {lines : List GoString} (h : ∀ line ∈ lines, 0x0A ∉ line) :
    ∀ line ∈ keptLines keep current lines, 0x0A ∉ line := by
  intro line hline
  obtain ⟨e, he, rfl⟩ := List.mem_map.mp hline
  refine h e.2 ?_
  rw [← map_scan current lines]
  exact List.mem_map_of_mem (List.mem_filter.mp he).1

theorem splitLines_unlines_kept (keep : GoString → GoString → Bool) (current text : GoString) :
    splitLines (unlines (keptLines keep current (splitLines text))) =
      keptLines keep current (splitLines text) ++ [[]] :=
  splitLines_unlines (newline_not_mem_keptLines (newline_not_mem_splitLines text))

theorem trimSpace_newline (text : GoString) : trimSpace (text ++ [0x0A]) = trimSpace text :=
  trimSpace_append_space (w := [0x0A]) (by decide) text

theorem keptLines_append (keep : GoString → GoString → Bool) (current : GoString)
    (lines rest : List GoString) : keptLines keep current (lines ++ rest) =
      keptLines keep current lines ++ keptLines keep (sectionAfter current lines) rest := by
  rw [keptLines, scan_append, List.filter_append, List.map_append, ← keptLines, ← keptLines]

theorem keptLines_kept {keep : GoString → GoString → Bool} {side : GoString → Bool}
    (hkeep : Sided keep side) (keep' : GoString → GoString → Bool) (current : GoString)
    (lines : List GoString) : keptLines keep' current (keptLines keep current lines) =
      keptLines (fun current line => keep current line && keep' current line) current lines := by
  rw [keptLines, scan_keptLines hkeep lines fun _ => rfl, List.filter_filter, keptLines]
  congr 1
  exact List.filter_congr fun e _ => Bool.and_comm _ _

theorem managedConfig_eq (primary : GoString) :
    managedConfig primary = trimSpace (unlines (keptLines keepsManaged [] (splitLines primary))) := by
  have hfirst : filterConfig primary (fun current => !isProjectSection current) =
      unlines (keptLines (fun current _ => !isProjectSection current) [] (splitLines primary)) :=
    writeLines_eq _ _ _
  -- The second filter meets the lines that the first has kept, and a blank line after them.
  have hblank : ∀ current, keptLines (fun current line => !(current = [] && isCredentialSetting line))
      current [[]] = [[]] := by
    intro current
    cases current <;> rfl
  have hsecond : ∀ lines, removeTopLevelCredentialSettings lines =
      unlines (keptLines (fun current line => !(current = [] && isCredentialSetting line)) []
        (splitLines lines)) :=
    fun _ => writeLines_eq _ _ _
  rw [managedConfig, hsecond, hfirst, splitLines_unlines_kept, keptLines_append, hblank,
    keptLines_kept (sided_filter fun current => !isProjectSection current), unlines,
    List.flatMap_append, List.flatMap_singleton, List.nil_append, trimSpace_newline, ← unlines]
  rfl

theorem projectsConfig_eq (isolated : GoString) :
    projectsConfig isolated = trimSpace (unlines (keptLines keepsProjects [] (splitLines isolated))) :=
  congrArg trimSpace (writeLines_eq _ _ _)

theorem allIn_keptLines {keep : GoString → GoString → Bool} {side : GoString → Bool}
    (hkeep : Sided keep side) {current current' : GoString} {lines : List GoString}
    (h : side current = true → current' = current) :
    AllIn side current' (keptLines keep current lines) := by
  intro e he
  rw [scan_keptLines hkeep lines h] at he
  exact hkeep.within _ _ (List.mem_filter.mp he).2

theorem allIn_managed (primary : GoString) :
    AllIn (fun current => !isProjectSection current) [] (splitLines (managedConfig primary)) := by
  rw [managedConfig_eq]
  refine allIn_trimSpace ?_
  rw [splitLines_unlines_kept]
  have hkept : AllIn (fun current => !isProjectSection current) []
      (keptLines keepsManaged [] (splitLines primary)) :=
    allIn_keptLines sided_managed fun _ => rfl
  exact allIn_append.mpr ⟨hkept, allIn_blank (side_sectionAfter hkept fun _ => rfl)⟩

theorem allIn_projects {isolated : GoString} (h : projectsConfig isolated ≠ []) (current : GoString) :
    AllIn isProjectSection current (splitLines (projectsConfig isolated)) := by
  rw [projectsConfig_eq] at h ⊢
  have hkept : AllIn isProjectSection current (keptLines keepsProjects [] (splitLines isolated)) :=
    allIn_keptLines sided_projects nofun
  refine allIn_trimSpace ?_
  rw [splitLines_unlines_kept]
  refine allIn_append.mpr ⟨hkept, allIn_blank (side_sectionAfter hkept fun hnone => ?_)⟩
  rw [hnone] at h
  exact absurd (by decide) h

theorem keptLines_all {keep : GoString → GoString → Bool} {current : GoString}
    {lines : List GoString} (h : ∀ e ∈ scan current lines, keep e.1 e.2 = true) :
    keptLines keep current lines = lines := by
  rw [keptLines, List.filter_eq_self.mpr h, map_scan]

theorem keptLines_none {keep : GoString → GoString → Bool} {current : GoString}
    {lines : List GoString} (h : ∀ e ∈ scan current lines, keep e.1 e.2 = false) :
    keptLines keep current lines = [] := by
  rw [keptLines, List.filter_eq_nil_iff.mpr fun e he => by simp [h e he], List.map_nil]

/-- The text up to the project sections, without its last line break. -/
def front (primary : GoString) : GoString :=
  isolatedCredentialConfig ++
    if managedConfig primary = [] then [] else lit "\n\n" ++ managedConfig primary

theorem synchronised_eq (primary isolated : GoString) : synchronised primary isolated =
    front primary ++ (if projectsConfig isolated = [] then []
      else lit "\n\n" ++ projectsConfig isolated) ++ lit "\n" := by
  rw [synchronised, front, nonempty, nonempty]
  split <;> split <;> simp [List.intercalate]

theorem splitLines_blankLine (text rest : GoString) :
    splitLines (text ++ (lit "\n\n" ++ rest)) = splitLines text ++ [] :: splitLines rest := by
  change splitLines (text ++ 0x0A :: ([] ++ 0x0A :: rest)) = _
  rw [splitLines_append, splitLines_append]
  rfl

theorem splitLines_newline (text : GoString) : splitLines (text ++ lit "\n") = splitLines text ++ [[]] :=
  splitLines_append text []

theorem allIn_front (primary : GoString) :
    AllIn (fun current => !isProjectSection current) [] (splitLines (front primary)) := by
  have hcredentials : AllIn (fun current => !isProjectSection current) []
      (splitLines isolatedCredentialConfig) := by
    decide
  rw [front]
  split
  · rwa [List.append_nil]
  · rw [splitLines_blankLine]
    have hafter : sectionAfter [] (splitLines isolatedCredentialConfig) = [] := by decide
    refine allIn_append.mpr ⟨hcredentials, ?_⟩
    rw [hafter]
    exact allIn_cons.mpr ⟨rfl, allIn_managed primary⟩

theorem keptLines_blank {current : GoString} (h : (!isProjectSection current) = true) :
    keptLines keepsProjects current [[]] = [] := by
  refine keptLines_none fun e he => ?_
  rw [List.mem_singleton.mp he]
  exact (Bool.not_eq_true' _).mp h

theorem projectsConfig_synchronised (primary isolated : GoString) :
    projectsConfig (synchronised primary isolated) = projectsConfig isolated := by
  have hfront := allIn_front primary
  have hafter := side_sectionAfter hfront fun _ => rfl
  have hnone : keptLines keepsProjects [] (splitLines (front primary)) = [] :=
    keptLines_none fun e he => by simpa [keepsProjects] using hfront e he
  rw [projectsConfig_eq (synchronised primary isolated), synchronised_eq]
  by_cases h : projectsConfig isolated = []
  · rw [if_pos h, List.append_nil, splitLines_newline, keptLines_append, hnone, h]
    generalize sectionAfter [] (splitLines (front primary)) = current at hafter
    rw [keptLines_blank hafter]
    rfl
  · have hprojects := allIn_projects h
    rw [if_neg h, splitLines_newline, splitLines_blankLine, List.append_assoc, keptLines_append, hnone,
      List.nil_append]
    generalize sectionAfter [] (splitLines (front primary)) = current at hafter
    have hkept : keptLines keepsProjects current ([] :: splitLines (projectsConfig isolated) ++ [[]]) =
        splitLines (projectsConfig isolated) ++ [[]] := by
      have hproject := hprojects current
      have hlast := side_sectionAfter hproject fun hnil => absurd hnil (splitLines_ne_nil _)
      have hrest : keptLines keepsProjects current (splitLines (projectsConfig isolated) ++ [[]]) =
          splitLines (projectsConfig isolated) ++ [[]] :=
        keptLines_all (allIn_append.mpr ⟨hproject, allIn_blank hlast⟩)
      rw [List.cons_append, ← List.singleton_append, keptLines_append, keptLines_blank hafter,
        List.nil_append]
      exact hrest
    rw [hkept, unlines, List.flatMap_append, ← unlines, unlines_splitLines, List.flatMap_singleton,
      List.nil_append, trimSpace_newline, trimSpace_newline, projectsConfig, trimSpace_trimSpace]

/-! ## What synchronising keeps -/

def projectLines (text : GoString) : List GoString := keptLines keepsProjects [] (splitLines text)

/-- Every project section line of the isolated configuration is kept, in order. -/
def KeepsProjectLines (primary isolated : GoString) : Prop :=
  (projectLines isolated).Sublist (splitLines (synchronised primary isolated))

/-- The project sections are kept in order, but for the white space around them as a whole, and
synchronising again with the same primary configuration writes nothing. -/
theorem sync_idempotent (primary isolated : GoString) :
    (∃ before, synchronised primary isolated =
      before ++ trimSpace (unlines (projectLines isolated)) ++ lit "\n") ∧
    trimSpace (unlines (projectLines (synchronised primary isolated))) =
      trimSpace (unlines (projectLines isolated)) ∧
    syncIsolatedConfig primary (synchronised primary isolated) = none := by
  have hprojects := projectsConfig_synchronised primary isolated
  refine ⟨?_, ?_, ?_⟩
  · rw [projectLines, ← projectsConfig_eq, synchronised_eq]
    split
    · rename_i h
      exact ⟨front primary, by rw [h]⟩
    · exact ⟨front primary ++ lit "\n\n", by rw [← List.append_assoc]⟩
  · rw [projectLines, ← projectsConfig_eq, hprojects, projectsConfig_eq, ← projectLines]
  · have hsame : synchronised primary (synchronised primary isolated) = synchronised primary isolated := by
      rw [synchronised, hprojects, ← synchronised]
    rw [syncIsolatedConfig, hsame, if_pos rfl]

/-- The line end `\r\n` of the last project line becomes `\n`. -/
theorem crlf_not_kept : ¬ KeepsProjectLines [] (lit "[projects]\r\n") := by
  unfold KeepsProjectLines
  decide

end SubscriptionRouter.ConfigSync
