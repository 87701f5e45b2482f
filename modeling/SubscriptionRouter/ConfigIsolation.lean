import Mathlib
import SubscriptionRouter.ConfigSync
import SubscriptionRouter.TomlSpace
import SubscriptionRouter.TomlTables

set_option autoImplicit false

/-!
# What an isolated configuration defines

The filters of `syncIsolatedConfig` read their text line by line, while TOML reads it statement
by statement. Where they leave out whole statements, the statements of the isolated
configuration are the two credential settings, what is kept of the primary configuration and
what is kept of the projects of the isolated one, each in the table it stood in.
-/
namespace SubscriptionRouter.ConfigIsolation
open GoText TextLines Toml ConfigSync

abbrev SectionLine := GoString × GoString

/-- The statements of a text, each with its lines and the sections the filters see these in. -/
def textGroups (text : GoString) : Option (List (List SectionLine × List Token)) :=
  groups Prod.snd (scan [] (splitLines text))

section Filter
variable (keep : GoString → GoString → Bool)

def keepsLines (lines : List SectionLine) : Bool := lines.all fun e => keep e.1 e.2

def Whole (lines : List SectionLine) : Prop :=
  (∀ e ∈ lines, keep e.1 e.2 = true) ∨ ∀ e ∈ lines, keep e.1 e.2 = false

instance (lines : List SectionLine) : Decidable (Whole keep lines) :=
  inferInstanceAs (Decidable (_ ∨ _))

/-- The entries of a text, each with whether the filter keeps its lines. -/
def markedEntries (text : GoString) : Option (List (Bool × Entry)) :=
  ((textGroups text).bind parseGroups).map fun l =>
    (entriesFrom [] l).map (Prod.map (keepsLines keep) id)

end Filter

/-- A text is TOML, and the filter keeps or leaves out its statements as a whole. -/
structure Reads (keep : GoString → GoString → Bool) (text : GoString)
    (marked : List (Bool × Entry)) : Prop where
  entries : markedEntries keep text = some marked
  whole : ∀ gs ∈ textGroups text, ∀ g ∈ gs, Whole keep g.1

def credentialKeys : List GoString :=
  [lit "cli_auth_credentials_store", lit "mcp_oauth_credentials_store"]

/-- A key at the top with the value `"file"`. -/
def fileSetting (key : GoString) : Entry := ⟨[], .keyval [key] (.string (lit "file"))⟩

def keptEntries (marked : List (Bool × Entry)) : List Entry := (marked.filter Prod.fst).map Prod.snd

theorem lineTokens_textGroups (text : GoString) :
    lineTokens text = (textGroups text).map fun gs => gs.map Prod.snd := by
  have hlines := groups_map id Prod.snd (scan [] (splitLines text))
  rw [map_scan] at hlines
  rw [lineTokens, hlines, Option.map_map, textGroups]
  congr 1
  funext gs
  simp

theorem markedEntries_entries (keep : GoString → GoString → Bool) (text : GoString) :
    (markedEntries keep text).map (fun l => l.map Prod.snd) = entries text := by
  rw [markedEntries, entries, statements, lineTokens_textGroups]
  cases textGroups text with
  | none => rfl
  | some gs =>
    rw [Option.bind_some, Option.map_some, Option.bind_some, ← parseGroups_statements]
    cases parseGroups gs with
    | none => rfl
    | some l =>
      rw [Option.map_some, Option.map_some, Option.map_some, Option.map_some, entriesOf_map_snd,
        List.map_map]
      rfl

/-! ## What the filters leave out -/

/-- In the sections that a filter keeps it leaves out settings only. -/
def Bare (keep : GoString → GoString → Bool) (side : GoString → Bool) : Prop :=
  ∀ current line, side current = true → keep current line = false →
    ∃ b rest, trimSpace line = b :: rest ∧ isWordByte b = true

theorem bare_managed : Bare keepsManaged fun current => !isProjectSection current := by
  intro current line hside hkeep
  have hsection : (!isProjectSection current) = true := hside
  rw [keepsManaged, hsection, Bool.true_and, Bool.not_eq_false', Bool.and_eq_true] at hkeep
  have hsetting := hkeep.2
  rw [isCredentialSetting, Bool.or_eq_true] at hsetting
  rcases hsetting with h | h
  · obtain ⟨rest, hrest⟩ := List.isPrefixOf_iff_prefix.mp h
    exact ⟨_, _, hrest.symm, rfl⟩
  · obtain ⟨rest, hrest⟩ := List.isPrefixOf_iff_prefix.mp h
    exact ⟨_, _, hrest.symm, rfl⟩

theorem bare_projects : Bare keepsProjects isProjectSection :=
  fun _ _ hside hkeep => absurd (hside.symm.trans hkeep) Bool.noConfusion

theorem dropped_sectionAfter {keep : GoString → GoString → Bool} {side : GoString → Bool}
    (hkeep : Sided keep side) {current : GoString} {lines : List GoString}
    (h : ∀ e ∈ scan current lines, keep e.1 e.2 = false) (hside : side current = false) :
    side (sectionAfter current lines) = false := by
  induction lines generalizing current with
  | nil => exact hside
  | cons line lines ih =>
    obtain ⟨hline, hrest⟩ := List.forall_mem_cons.mp h
    refine ih hrest ?_
    change side ((sectionOf line).getD current) = false
    cases hsection : sectionOf line with
    | none => exact hside
    | some started =>
      rw [hsection] at hline
      by_contra hs
      have hkept := hkeep.header started line hsection ((Bool.not_eq_false _).mp hs)
      exact Bool.false_ne_true (hline.symm.trans hkept)

/-- Lines that are cut in two are both scanned, the second part from the section it is in. -/
theorem scan_split {current : GoString} {a b : List SectionLine}
    (h : a ++ b = scan current ((a ++ b).map Prod.snd)) :
    a = scan current (a.map Prod.snd) ∧
      b = scan (sectionAfter current (a.map Prod.snd)) (b.map Prod.snd) := by
  have hlength : a.length = (scan current (a.map Prod.snd)).length := by
    have hmap := congrArg List.length (map_scan current (a.map Prod.snd))
    rw [List.length_map, List.length_map] at hmap
    exact hmap.symm
  rw [List.map_append, scan_append] at h
  exact List.append_inj h hlength

/-- A group of lines as the reader has found it, from a section that the filter is in. -/
structure Found (current : GoString) (g : List SectionLine × List Token) : Prop where
  scanned : g.1 = scan current (g.1.map Prod.snd)
  no_newline : ∀ e ∈ g.1, 0x0A ∉ e.2
  first : ∃ e rest r, g.1 = e :: rest ∧ lexLine .ground e.2 = some r ∧ r.2 <+: g.2

section Found
variable {keep : GoString → GoString → Bool} {side : GoString → Bool} {current : GoString}
  {g : List SectionLine × List Token} {s : Option Statement}

theorem Found.kept_header (hkeep : Sided keep side) (hg : Found current g)
    (hkept : ∀ e ∈ g.1, keep e.1 e.2 = true) (hside : side current = false)
    (hs : parseStatement g.2 = some s) : ∃ st, s = some st ∧ st.isHeader = true := by
  obtain ⟨e, rest, r, hlines, hlex, hprefix⟩ := hg.first
  have hscan := hg.scanned
  rw [hlines, List.map_cons, scan] at hscan
  have hsection : e.1 = (sectionOf e.2).getD current := congrArg Prod.fst (List.cons.inj hscan).1
  have hmem : e ∈ g.1 := by
    rw [hlines]
    exact List.mem_cons_self
  have hin := hkeep.within _ _ (hkept e hmem)
  cases hstart : sectionOf e.2 with
  | none =>
    rw [hsection, hstart] at hin
    exact absurd (hin.symm.trans hside) Bool.noConfusion
  | some started =>
    obtain ⟨tail, htail⟩ := sectionOf_bracket hstart
    have hhead := (lexLine_head (hg.no_newline e hmem) hlex htail).1 rfl
    refine parseStatement_header hs ?_
    obtain ⟨ts, hts⟩ := List.head?_eq_some_iff.mp hhead
    obtain ⟨after, hafter⟩ := hprefix
    rw [← hafter, hts]
    rfl

/-- A header that is left out is in a section that the filter does not keep. -/
theorem Found.dropped_header (hkeep : Sided keep side) (hbare : Bare keep side) (hg : Found current g)
    (hdropped : ∀ e ∈ g.1, keep e.1 e.2 = false) {st : Statement}
    (hs : parseStatement g.2 = some (some st)) (hst : st.isHeader = true) :
    side (sectionAfter current (g.1.map Prod.snd)) = false := by
  obtain ⟨e, rest, r, hlines, hlex, hprefix⟩ := hg.first
  have hscan := hg.scanned
  rw [hlines, List.map_cons, scan] at hscan
  obtain ⟨he, hrest⟩ := List.cons.inj hscan
  have hsection : e.1 = (sectionOf e.2).getD current := congrArg Prod.fst he
  have hmem : e ∈ g.1 := by
    rw [hlines]
    exact List.mem_cons_self
  have hfirst : side e.1 = false := by
    by_contra hin
    obtain ⟨b, tail, htail, hword⟩ := hbare e.1 e.2 (by simpa using hin) (hdropped e hmem)
    obtain ⟨word, hhead⟩ := (lexLine_head (hg.no_newline e hmem) hlex htail).2 hword
    obtain ⟨ts, hts⟩ := List.head?_eq_some_iff.mp hhead
    obtain ⟨after, hafter⟩ := hprefix
    have hhead' : g.2.head? = some (.bare word) := by
      rw [← hafter, hts]
      rfl
    obtain ⟨st', hst', hkeyval⟩ := parseStatement_keyval hs hhead'
    obtain rfl := Option.some.inj hst'
    exact Bool.false_ne_true (hkeyval.symm.trans hst)
  have hothers : ∀ e' ∈ scan e.1 (rest.map Prod.snd), keep e'.1 e'.2 = false := by
    intro e' he'
    refine hdropped e' ?_
    rw [hlines, hrest, ← hsection]
    exact List.mem_cons_of_mem _ he'
  rw [hlines, List.map_cons, sectionAfter, List.foldl_cons, ← hsection]
  exact dropped_sectionAfter hkeep hothers hfirst

end Found

def AllFound (current : GoString) : List (List SectionLine × List Token) → Prop
  | [] => True
  | g :: gs => Found current g ∧ AllFound (sectionAfter current (g.1.map Prod.snd)) gs

theorem allFound_of_scan {current : GoString} {gs : List (List SectionLine × List Token)}
    (hlines : gs.flatMap Prod.fst = scan current ((gs.flatMap Prod.fst).map Prod.snd))
    (hnewline : ∀ e ∈ gs.flatMap Prod.fst, 0x0A ∉ e.2)
    (hfirst : ∀ g ∈ gs, ∃ e rest r, g.1 = e :: rest ∧ lexLine .ground e.2 = some r ∧ r.2 <+: g.2) :
    AllFound current gs := by
  induction gs generalizing current with
  | nil => trivial
  | cons g gs ih =>
    rw [List.flatMap_cons] at hlines hnewline
    obtain ⟨hg, hgs⟩ := scan_split hlines
    obtain ⟨hng, hngs⟩ := List.forall_mem_append.mp hnewline
    obtain ⟨hfg, hfgs⟩ := List.forall_mem_cons.mp hfirst
    exact ⟨⟨hg, hng, hfg⟩, ih hgs hngs hfgs⟩

theorem allFound_textGroups {text : GoString} {gs : List (List SectionLine × List Token)}
    (h : textGroups text = some gs) : AllFound [] gs := by
  obtain ⟨hlines, -⟩ := groups_split h
  refine allFound_of_scan ?_ ?_ fun g hg => group_first h hg
  · rw [← hlines, map_scan]
  · rw [← hlines]
    intro e he
    refine newline_not_mem_splitLines text e.2 ?_
    rw [← map_scan [] (splitLines text)]
    exact List.mem_map_of_mem he

/-- The statements that are kept stand in the tables they stood in. Where that could differ, the
filter is in a section that it does not keep. -/
theorem entriesFrom_kept {keep : GoString → GoString → Bool} {side : GoString → Bool}
    (hkeep : Sided keep side) (hbare : Bare keep side) {current : GoString}
    {gs : List (List SectionLine × List Token)} (hgs : AllFound current gs)
    (hwhole : ∀ g ∈ gs, Whole keep g.1) {l : List (List SectionLine × Statement)}
    (hl : parseGroups gs = some l) {table table' : Path}
    (htable : table' = table ∨ side current = false) :
    entriesFrom table' (l.filter fun e => keepsLines keep e.1) =
      (entriesFrom table l).filter fun e => keepsLines keep e.1 := by
  induction gs generalizing current l table table' with
  | nil =>
    cases hl
    rfl
  | cons g gs ih =>
    obtain ⟨hg, hrest⟩ := hgs
    obtain ⟨hwg, hwrest⟩ := List.forall_mem_cons.mp hwhole
    obtain ⟨s, hs, hl⟩ := Option.bind_eq_some_iff.mp hl
    obtain ⟨ls, hls, rfl⟩ := Option.map_eq_some_iff.mp hl
    rcases hwg with hkept | hdropped
    · have hall : keepsLines keep g.1 = true := List.all_eq_true.mpr hkept
      have hsame : table' = table ∨ ∃ st, s = some st ∧ st.isHeader = true := by
        cases hside : side current with
        | true => exact .inl (htable.resolve_right (by simp [hside]))
        | false => exact .inr (hg.kept_header hkeep hkept hside hs)
      cases s with
      | none =>
        rcases hsame with rfl | ⟨st, hst, -⟩
        · exact ih hrest hwrest hls (.inl rfl)
        · cases hst
      | some st =>
        have hafter : tableOf table' st = tableOf table st ∧ tableAfter table' st = tableAfter table st := by
          rcases hsame with rfl | ⟨st', hst', hheader⟩
          · exact ⟨rfl, rfl⟩
          · obtain rfl := Option.some.inj hst'
            exact header_table hheader table' table
        have ih := ih hrest hwrest hls (.inl hafter.2)
        change entriesFrom table' (((g.1, st) :: ls).filter fun e => keepsLines keep e.1) = _
        rw [List.filter_cons, if_pos hall, entriesFrom, ih, hafter.1]
        change _ = (entriesFrom table ((g.1, st) :: ls)).filter fun e => keepsLines keep e.1
        rw [entriesFrom, List.filter_cons, if_pos hall]
    · have hnone : ¬ keepsLines keep g.1 = true := by
        obtain ⟨e, rest, r, hlines, -⟩ := hg.first
        intro hall
        have hmem : e ∈ g.1 := by
          rw [hlines]
          exact List.mem_cons_self
        exact Bool.false_ne_true ((hdropped e hmem).symm.trans (List.all_eq_true.mp hall e hmem))
      have hscan : ∀ e ∈ scan current (g.1.map Prod.snd), keep e.1 e.2 = false := by
        rw [← hg.scanned]
        exact hdropped
      have hnext : table' = table ∨ side (sectionAfter current (g.1.map Prod.snd)) = false :=
        htable.imp_right fun hside => dropped_sectionAfter hkeep hscan hside
      cases s with
      | none => exact ih hrest hwrest hls hnext
      | some st =>
        have hafter : table' = tableAfter table st ∨
            side (sectionAfter current (g.1.map Prod.snd)) = false := by
          cases hst : st.isHeader with
          | true => exact .inr (hg.dropped_header hkeep hbare hdropped hs hst)
          | false => rwa [keyval_table hst]
        have ih := ih hrest hwrest hls hafter
        change entriesFrom table' (((g.1, st) :: ls).filter fun e => keepsLines keep e.1) =
          (entriesFrom table ((g.1, st) :: ls)).filter fun e => keepsLines keep e.1
        rw [List.filter_cons, if_neg hnone, ih, entriesFrom, List.filter_cons, if_neg hnone]

/-! ## The statements of the isolated configuration -/

/-- What a filter keeps of a text has the statements of the groups that it keeps. -/
theorem statements_keptLines {keep : GoString → GoString → Bool} {text : GoString}
    {gs : List (List SectionLine × List Token)} (h : textGroups text = some gs)
    (hwhole : ∀ g ∈ gs, Whole keep g.1) {l : List (List SectionLine × Statement)}
    (hl : parseGroups gs = some l) :
    statements (unlines (keptLines keep [] (splitLines text))) =
      some ((l.filter fun e => keepsLines keep e.1).map Prod.snd) := by
  have hgroups := groups_filter (q := fun e : SectionLine => keep e.1 e.2) h hwhole
  have hkept := groups_map id Prod.snd
    ((scan [] (splitLines text)).filter fun e => keep e.1 e.2)
  rw [show groups (fun e : SectionLine => id e.2) _ = _ from hgroups, Option.map_some, ← keptLines] at hkept
  have hparse := parseGroups_filter (keepsLines keep) hl
  have hstatements := parseGroups_statements (gs.filter fun g => keepsLines keep g.1)
  rw [hparse, Option.map_some] at hstatements
  rw [statements, lineTokens, splitLines_unlines_kept, groups_append hkept]
  have hlast : groups id [([] : GoString)] = some [([[]], [.newline])] := rfl
  rw [hlast, Option.map_some, Option.map_some, Option.bind_some, List.map_append, List.map_map]
  exact (statementsOf_append_newline _).trans hstatements.symm

theorem statements_part {text part : GoString} {ss ts : List Statement}
    (htext : statements text = some ss) (hpart : statements part = some ts) :
    statements (text ++ if part = [] then [] else lit "\n\n" ++ part) = some (ss ++ ts) := by
  split
  · rename_i hnil
    rw [hnil, statements_nil] at hpart
    rw [← Option.some.inj hpart, List.append_nil, List.append_nil, htext]
  · exact statements_append htext (statements_append statements_nil hpart)

/-- What is known of a text of which a filter leaves out whole statements. -/
theorem kept_entries {keep : GoString → GoString → Bool} {side : GoString → Bool}
    (hkeep : Sided keep side) (hbare : Bare keep side) {text : GoString} {marked : List (Bool × Entry)}
    (hreads : Reads keep text marked) :
    ∃ ss, statements (unlines (keptLines keep [] (splitLines text))) = some ss ∧
      ∀ table, table = [] ∨ side [] = false → entriesOf table ss = keptEntries marked := by
  obtain ⟨l, hgroups, rfl⟩ := Option.map_eq_some_iff.mp hreads.entries
  obtain ⟨gs, hgs, hl⟩ := Option.bind_eq_some_iff.mp hgroups
  have hwhole := hreads.whole gs hgs
  refine ⟨_, statements_keptLines hgs hwhole hl, fun table htable => ?_⟩
  rw [entriesOf_map_snd,
    entriesFrom_kept hkeep hbare (allFound_textGroups hgs) hwhole hl htable, keptEntries,
    List.filter_map, List.map_map]
  rfl

theorem statements_credentials : statements isolatedCredentialConfig =
    some (credentialKeys.map fun key => .keyval [key] (.string (lit "file"))) := by
  rfl

/-- The entries of the isolated configuration, when both filters leave out whole statements. -/
theorem entries_synchronised {primary isolated : GoString} {ps cs : List (Bool × Entry)}
    (hp : Reads keepsManaged primary ps) (hc : Reads keepsProjects isolated cs) :
    entries (synchronised primary isolated) =
      some (credentialKeys.map fileSetting ++ keptEntries ps ++ keptEntries cs) := by
  obtain ⟨ss, hss, hmanaged⟩ := kept_entries sided_managed bare_managed hp
  obtain ⟨ts, hts, hprojects⟩ := kept_entries sided_projects bare_projects hc
  have hmanagedConfig := statements_trimSpace hss
  rw [← managedConfig_eq] at hmanagedConfig
  have hprojectsConfig := statements_trimSpace hts
  rw [← projectsConfig_eq] at hprojectsConfig
  have hfront := statements_part statements_credentials hmanagedConfig
  have hall := statements_append (statements_part hfront hprojectsConfig) statements_nil
  rw [List.append_nil] at hall
  have htext : statements (synchronised primary isolated) = _ :=
    (congrArg statements (synchronised_eq primary isolated)).trans hall
  -- The credential settings have no header, so that what follows starts at the top.
  have htop : entriesOf ((credentialKeys.map fun key =>
      Statement.keyval [key] (.string (lit "file"))).foldl tableAfter []) ss = keptEntries ps :=
    hmanaged [] (.inl rfl)
  rw [entries, htext, Option.map_some, entriesOf_append, entriesOf_append, htop, hprojects _ (.inr rfl)]
  rfl

/-- A statement of the primary configuration is left out for a line that is in a project section, or
that is at the top and begins with a bare credential key, one blank and the equals sign. -/
theorem managed_leavesOut_iff (lines : List SectionLine) : keepsLines keepsManaged lines = false ↔
    ∃ e ∈ lines, isProjectSection e.1 = true ∨
      e.1 = [] ∧ ∃ key ∈ credentialKeys, key ++ lit " =" <+: trimSpace e.2 := by
  have hsetting : ∀ line, isCredentialSetting line = true ↔
      ∃ key ∈ credentialKeys, key ++ lit " =" <+: trimSpace line := by
    intro line
    rw [isCredentialSetting, Bool.or_eq_true, List.isPrefixOf_iff_prefix, List.isPrefixOf_iff_prefix]
    simp only [credentialKeys, List.mem_cons, List.not_mem_nil, or_false, exists_eq_or_imp,
      exists_eq_left]
    exact Iff.rfl
  rw [keepsLines, List.all_eq_false]
  refine exists_congr fun e => and_congr_right fun _ => ?_
  rw [keepsManaged, ← hsetting]
  cases isProjectSection e.1 <;> cases isCredentialSetting e.2 <;> simp

def LeavesOut (key : GoString) (marked : List (Bool × Entry)) : Prop :=
  ∀ e ∈ marked, definesAt key e.2 = true → e.1 = false

theorem leavesOut_iff (key : GoString) (marked : List (Bool × Entry)) :
    LeavesOut key marked ↔ (keptEntries marked).filter (definesAt key) = [] := by
  rw [List.filter_eq_nil_iff]
  constructor
  · intro h e he hkey
    obtain ⟨m, hm, rfl⟩ := List.mem_map.mp he
    obtain ⟨hmem, hkept⟩ := List.mem_filter.mp hm
    exact Bool.false_ne_true ((h m hmem hkey).symm.trans hkept)
  · intro h e he hkey
    by_contra hkept
    exact h e.2 (List.mem_map_of_mem (List.mem_filter.mpr ⟨he, (Bool.not_eq_false _).mp hkept⟩)) hkey

theorem definitions_synchronised {primary isolated : GoString} {ps cs : List (Bool × Entry)}
    (hp : Reads keepsManaged primary ps) (hc : Reads keepsProjects isolated cs) (key : GoString) :
    definitions key (synchronised primary isolated) =
      some ((credentialKeys.map fileSetting).filter (definesAt key) ++
        (keptEntries ps).filter (definesAt key) ++ (keptEntries cs).filter (definesAt key)) := by
  rw [definitions, entries_synchronised hp hc, Option.map_some, List.filter_append, List.filter_append]

/-! ## Credentials -/

/-- A key is defined once, at the top, as `"file"`. -/
def DefinedOnce (key text : GoString) : Prop := definitions key text = some [fileSetting key]

def CredentialsInFile (text : GoString) : Prop := ∀ key ∈ credentialKeys, DefinedOnce key text

theorem DefinedOnce.lookup {key text : GoString} {root : List (GoString × Node)}
    (honce : DefinedOnce key text) (h : document text = some root) :
    root.lookup key = some (.value (.string (lit "file"))) := by
  have hlookup := document_lookup key h
  rw [honce] at hlookup
  exact (Option.some.inj hlookup).symm

theorem filter_credentials {key : GoString} (h : key ∈ credentialKeys) :
    (credentialKeys.map fileSetting).filter (definesAt key) = [fileSetting key] := by
  rcases List.mem_cons.mp h with rfl | h
  · rfl
  · obtain rfl := List.mem_singleton.mp h
    rfl

/-- The credential keys are defined once exactly if no filter keeps an entry under them. A
configuration with such an entry is rejected. -/
theorem credentials_isolated {primary isolated : GoString} {ps cs : List (Bool × Entry)}
    (hp : Reads keepsManaged primary ps) (hc : Reads keepsProjects isolated cs) :
    (CredentialsInFile (synchronised primary isolated) ↔
      ∀ key ∈ credentialKeys, LeavesOut key ps ∧ LeavesOut key cs) ∧
    ∀ key ∈ credentialKeys, ¬ (LeavesOut key ps ∧ LeavesOut key cs) →
      document (synchronised primary isolated) = none := by
  have hdefinitions : ∀ key ∈ credentialKeys, definitions key (synchronised primary isolated) =
      some (fileSetting key :: ((keptEntries ps).filter (definesAt key) ++
        (keptEntries cs).filter (definesAt key))) := by
    intro key hkey
    rw [definitions_synchronised hp hc, filter_credentials hkey, List.append_assoc]
    rfl
  have honce : ∀ key ∈ credentialKeys, DefinedOnce key (synchronised primary isolated) ↔
      LeavesOut key ps ∧ LeavesOut key cs := by
    intro key hkey
    rw [DefinedOnce, hdefinitions key hkey, Option.some.injEq, List.cons.injEq, List.append_eq_nil_iff,
      leavesOut_iff, leavesOut_iff, and_iff_right rfl]
  refine ⟨forall₂_congr honce, fun key hkey hkept => ?_⟩
  by_contra hdocument
  obtain ⟨root, hroot⟩ := Option.ne_none_iff_exists'.mp hdocument
  have hnode := document_lookup key hroot
  rw [leavesOut_iff, leavesOut_iff, ← List.append_eq_nil_iff] at hkept
  rw [hdefinitions key hkey, Option.bind_some, nodeOf_value hkept (v := .string (lit "file")) rfl] at hnode
  cases hnode

instance (key : GoString) (marked : List (Bool × Entry)) : Decidable (LeavesOut key marked) :=
  inferInstanceAs (Decidable (∀ e ∈ marked, definesAt key e.2 = true → e.1 = false))

def primaryConfig : GoString :=
  lit "model = \"gpt-test\"\ncli_auth_credentials_store = \"keyring\"\n\n" ++
    lit "[projects.\"/primary-only\"]\ntrust_level = \"trusted\"\n"

def primaryEntries : List (Bool × Entry) :=
  [(true, ⟨[], .keyval [lit "model"] (.string (lit "gpt-test"))⟩),
    (false, ⟨[], .keyval [lit "cli_auth_credentials_store"] (.string (lit "keyring"))⟩),
    (false, ⟨[], .table [lit "projects", lit "/primary-only"]⟩),
    (false, ⟨[lit "projects", lit "/primary-only"],
      .keyval [lit "trust_level"] (.string (lit "trusted"))⟩)]

theorem reads_primary : Reads keepsManaged primaryConfig primaryEntries where
  entries := by rfl
  whole := by decide

def isolatedConfig : GoString := lit "[projects.\"/account-project\"]\ntrust_level = \"trusted\"\n"

def isolatedEntries : List (Bool × Entry) :=
  [(true, ⟨[], .table [lit "projects", lit "/account-project"]⟩),
    (true, ⟨[lit "projects", lit "/account-project"],
      .keyval [lit "trust_level"] (.string (lit "trusted"))⟩)]

theorem reads_isolated : Reads keepsProjects isolatedConfig isolatedEntries where
  entries := by rfl
  whole := by decide

theorem credentials_of_example : CredentialsInFile (synchronised primaryConfig isolatedConfig) :=
  (credentials_isolated reads_primary reads_isolated).1.mpr (by decide)

/-- A setting without blanks around the equals sign is kept, and the configuration rejected. -/
theorem unspaced_setting_kept :
    (document (lit "cli_auth_credentials_store=\"keyring\"\n")).isSome = true ∧
      ¬ DefinedOnce (lit "cli_auth_credentials_store")
        (synchronised (lit "cli_auth_credentials_store=\"keyring\"\n") []) ∧
      (document (synchronised (lit "cli_auth_credentials_store=\"keyring\"\n") [])).isSome = false := by
  refine ⟨by decide, fun honce => ?_, by decide⟩
  have hlength : (definitions (lit "cli_auth_credentials_store") (synchronised
      (lit "cli_auth_credentials_store=\"keyring\"\n") [])).map List.length = some 2 := by
    decide
  rw [honce] at hlength
  cases hlength

/-! ## Projects -/

def projectsKey : GoString := lit "projects"

def projectsTable (text : GoString) : Option (Option Node) :=
  (definitions projectsKey text).bind nodeOf

theorem projectsTable_document {text : GoString} {root : List (GoString × Node)}
    (h : document text = some root) : projectsTable text = some (root.lookup projectsKey) :=
  document_lookup projectsKey h

/-- The entries of an isolated configuration under `projects` that it keeps. -/
def ownProjects (marked : List (Bool × Entry)) : List Entry :=
  (keptEntries marked).filter (definesAt projectsKey)

theorem ownProjects_sublist (marked : List (Bool × Entry)) :
    (ownProjects marked).Sublist (marked.map Prod.snd) :=
  List.filter_sublist.trans (List.filter_sublist.map Prod.snd)

/-- Two texts are documents with the projects table that an isolated configuration had before. -/
def HaveOwnProjects (text₁ text₂ : GoString) (marked : List (Bool × Entry)) : Prop :=
  ∃ root₁ root₂, document text₁ = some root₁ ∧ document text₂ = some root₂ ∧
    nodeOf (ownProjects marked) = some (root₁.lookup projectsKey) ∧
    root₂.lookup projectsKey = root₁.lookup projectsKey

theorem filter_other {key : GoString} (h : key ∉ credentialKeys) :
    (credentialKeys.map fileSetting).filter (definesAt key) = [] := by
  rw [List.filter_eq_nil_iff]
  intro e he hkey
  obtain ⟨k, hk, rfl⟩ := List.mem_map.mp he
  have hhead : some k = some key := of_decide_eq_true hkey
  exact h (Option.some.inj hhead ▸ hk)

/-- The isolated configuration is a document exactly if no credential setting is kept and the
entries that are kept make a document. -/
theorem document_synchronised {primary isolated : GoString} {ps cs : List (Bool × Entry)}
    (hp : Reads keepsManaged primary ps) (hc : Reads keepsProjects isolated cs) :
    (document (synchronised primary isolated)).isSome ↔
      (∀ key ∈ credentialKeys, LeavesOut key ps ∧ LeavesOut key cs) ∧
        (documentOf (keptEntries ps ++ keptEntries cs)).isSome := by
  have hpaths : ∀ e ∈ credentialKeys.map fileSetting, e.path ≠ [] := by
    intro e he
    obtain ⟨key, -, rfl⟩ := List.mem_map.mp he
    simp [Entry.path, fileSetting]
  have hleft : ∀ key, LeavesOut key ps ∧ LeavesOut key cs ↔
      (keptEntries ps ++ keptEntries cs).filter (definesAt key) = [] := by
    intro key
    rw [leavesOut_iff, leavesOut_iff, List.filter_append, List.append_eq_nil_iff]
  have hkeys : ∀ key, (nodeOf ((credentialKeys.map fileSetting ++
      (keptEntries ps ++ keptEntries cs)).filter (definesAt key))).isSome ↔
        (key ∈ credentialKeys → LeavesOut key ps ∧ LeavesOut key cs) ∧
          (nodeOf ((keptEntries ps ++ keptEntries cs).filter (definesAt key))).isSome := by
    intro key
    rw [List.filter_append, hleft]
    by_cases hkey : key ∈ credentialKeys
    · rw [filter_credentials hkey, List.singleton_append]
      by_cases hnone : (keptEntries ps ++ keptEntries cs).filter (definesAt key) = []
      · rw [hnone]
        exact iff_of_true rfl ⟨fun _ => rfl, rfl⟩
      · rw [nodeOf_value hnone (v := .string (lit "file")) rfl]
        exact iff_of_false (by simp) fun h => hnone (h.1 hkey)
    · rw [filter_other hkey, List.nil_append]
      exact ⟨fun h => ⟨fun hin => absurd hin hkey, h⟩, And.right⟩
  rw [document, entries_synchronised hp hc, Option.bind_some, List.append_assoc, documentOf_isSome,
    documentOf_isSome, List.forall_mem_append, forall_congr' hkeys, forall_and]
  tauto

/-- What the primary configuration adds to the projects is counted. -/
theorem projectsTable_own {primary isolated : GoString} {ps cs : List (Bool × Entry)}
    (hp : Reads keepsManaged primary ps) (hc : Reads keepsProjects isolated cs) {table : Option Node}
    (hown : nodeOf (ownProjects cs) = some table) :
    projectsTable (synchronised primary isolated) = some table ↔ LeavesOut projectsKey ps := by
  have hcredentials : (credentialKeys.map fileSetting).filter (definesAt projectsKey) = [] := rfl
  rw [projectsTable, definitions_synchronised hp hc, hcredentials, List.nil_append, Option.bind_some,
    leavesOut_iff]
  constructor
  · intro h
    have hall := defined_nodeOf h
    rw [List.length_append, defined_nodeOf hown, ownProjects] at hall
    exact List.eq_nil_of_length_eq_zero (by omega)
  · intro h
    rw [h, List.nil_append]
    exact hown

/-- Whatever two primary configurations are, the isolated configurations have the projects that
were there before exactly if no entry under `projects` is kept of either of the two, no credential
setting is kept, and the entries that are kept make a document with those of each. -/
theorem projects_isolated {primary₁ primary₂ isolated : GoString}
    {ps₁ ps₂ cs : List (Bool × Entry)} (hp₁ : Reads keepsManaged primary₁ ps₁)
    (hp₂ : Reads keepsManaged primary₂ ps₂) (hc : Reads keepsProjects isolated cs) :
    HaveOwnProjects (synchronised primary₁ isolated) (synchronised primary₂ isolated) cs ↔
      LeavesOut projectsKey ps₁ ∧ LeavesOut projectsKey ps₂ ∧
      (∀ key ∈ credentialKeys, LeavesOut key ps₁ ∧ LeavesOut key ps₂ ∧ LeavesOut key cs) ∧
      (documentOf (keptEntries ps₁ ++ keptEntries cs)).isSome ∧
      (documentOf (keptEntries ps₂ ++ keptEntries cs)).isSome := by
  have hdocument₁ := document_synchronised hp₁ hc
  have hdocument₂ := document_synchronised hp₂ hc
  constructor
  · rintro ⟨root₁, root₂, h₁, h₂, hown, hsame⟩
    have htable₁ := projectsTable_document h₁
    have htable₂ := projectsTable_document h₂
    rw [hsame] at htable₂
    rw [h₁] at hdocument₁
    rw [h₂] at hdocument₂
    obtain ⟨hcredentials₁, hkept₁⟩ := hdocument₁.mp rfl
    obtain ⟨hcredentials₂, hkept₂⟩ := hdocument₂.mp rfl
    exact ⟨(projectsTable_own hp₁ hc hown).mp htable₁, (projectsTable_own hp₂ hc hown).mp htable₂,
      fun key hkey => ⟨(hcredentials₁ key hkey).1, hcredentials₂ key hkey⟩, hkept₁, hkept₂⟩
  · rintro ⟨h₁, h₂, hcredentials, hkept₁, hkept₂⟩
    obtain ⟨root₁, hroot₁⟩ := Option.isSome_iff_exists.mp
      (hdocument₁.mpr ⟨fun key hkey => ⟨(hcredentials key hkey).1, (hcredentials key hkey).2.2⟩, hkept₁⟩)
    obtain ⟨root₂, hroot₂⟩ := Option.isSome_iff_exists.mp
      (hdocument₂.mpr ⟨fun key hkey => (hcredentials key hkey).2, hkept₂⟩)
    -- nothing else is kept under the key, so that the document has what is kept of the isolated one
    have hown : (nodeOf (ownProjects cs)).isSome := by
      have hnode := ((documentOf_isSome _).mp hkept₁).2 projectsKey
      rw [List.filter_append, (leavesOut_iff _ _).mp h₁, List.nil_append] at hnode
      exact hnode
    obtain ⟨table, hown⟩ := Option.isSome_iff_exists.mp hown
    have htable₁ := (projectsTable_own hp₁ hc hown).mpr h₁
    have htable₂ := (projectsTable_own hp₂ hc hown).mpr h₂
    rw [projectsTable_document hroot₁, Option.some.injEq] at htable₁
    rw [projectsTable_document hroot₂, Option.some.injEq] at htable₂
    exact ⟨root₁, root₂, hroot₁, hroot₂, hown.trans (congrArg some htable₁.symm),
      htable₂.trans htable₁.symm⟩

theorem reads_empty : Reads keepsManaged [] [] where
  entries := by rfl
  whole := by decide

theorem projects_of_example : HaveOwnProjects (synchronised primaryConfig isolatedConfig)
    (synchronised [] isolatedConfig) isolatedEntries :=
  (projects_isolated reads_primary reads_empty reads_isolated).mpr
    ⟨by decide, by decide, by decide, by decide, by decide⟩

def SameBut (key : GoString) (root₁ root₂ : List (GoString × Node)) : Prop :=
  ∀ k ≠ key, root₁.lookup k = root₂.lookup k

/-- A comment after a header hides it from the filter. -/
theorem commented_header_kept : ¬ ∀ (primary₁ primary₂ isolated : GoString)
    (root₁ root₂ : List (GoString × Node)), document primary₁ = some root₁ →
      document primary₂ = some root₂ → SameBut projectsKey root₁ root₂ →
        (document (synchronised primary₁ isolated)).map (List.lookup projectsKey) =
          (document (synchronised primary₂ isolated)).map (List.lookup projectsKey) := by
  intro h
  have hsame := h (lit "[projects.a] # note\ntrust_level = \"trusted\"\n") [] [] _ _ rfl rfl fun k hk => by
    have hne : (k == projectsKey) = false := by simpa using hk
    change List.lookup k [(projectsKey, _)] = List.lookup k []
    rw [List.lookup_cons, hne]
  have hsome := congrArg (Option.map Option.isSome) hsame
  revert hsome
  decide

end SubscriptionRouter.ConfigIsolation
