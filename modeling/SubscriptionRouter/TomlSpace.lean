import Mathlib
import SubscriptionRouter.Toml

set_option autoImplicit false

/-!
# White space in TOML

White space before and after a text does not change its statements, and white space before a
line does not change its tokens. The first token of a line tells a header from a setting.
-/
namespace SubscriptionRouter.Toml
open GoText TextLines

variable {α : Type}

/-! ## White space around a text -/

theorem run_append (s : Lex) (a b : GoString) : run s (a ++ b) =
    (run s a).bind fun r => (run r.1 b).map fun t => (t.1, r.2 ++ t.2) := by
  induction a generalizing s with
  | nil =>
    rw [List.nil_append, run, Option.bind_some]
    exact Option.map_id'.symm
  | cons x a ih =>
    rw [List.cons_append, run, run]
    cases step s x with
    | none => rfl
    | some r =>
      rw [Option.bind_some, Option.bind_some, ih]
      cases run r.1 a with
      | none => rfl
      | some t =>
        rw [Option.bind_some, Option.map_some, Option.bind_some]
        cases run t.1 b with
        | none => rfl
        | some u => simp

theorem groundStep_space (b : UInt8) : isSpaceByte b = true →
    ∀ r ∈ groundStep b, r = (.ground, []) ∨ r = (.cr, []) := by
  revert b
  refine byte_forall ?_
  decide +kernel

theorem spaceByte_ne_quote (q : Quote) (b : UInt8) : isSpaceByte b = true → b ≠ q.byte := by
  revert b
  cases q <;> refine byte_forall ?_ <;> decide +kernel

theorem spaceByte_plain (b : UInt8) : isSpaceByte b = true →
    b ≠ 0x5C ∧ b ≠ 0x75 ∧ b ≠ 0x55 ∧ simpleEscape b = none ∧ JsonText.hexValue [b] = none ∧
      isWordByte b = false := by
  revert b
  refine byte_forall ?_
  decide +kernel

theorem endToken_space {t : Token} {b : UInt8} (hb : isSpaceByte b = true) {s : Lex}
    {ts e : List Token} (h : endToken t b = some (s, ts)) (he : endLine s = some (.ground, e)) :
    [t, .newline] = ts ++ e := by
  obtain ⟨r, hr, hts⟩ := Option.map_eq_some_iff.mp h
  rcases groundStep_space b hb r hr with rfl | rfl <;> cases hts <;> cases he <;> rfl

theorem multiStep_space {q : Quote} {acc : GoString} {first : Bool} {b : UInt8}
    (hb : isSpaceByte b = true) {s : Lex} {ts e : List Token}
    (h : multiStep q acc first b = some (s, ts)) : endLine s ≠ some (.ground, e) := by
  obtain ⟨hslash, -⟩ := spaceByte_plain b hb
  rw [multiStep, if_neg (spaceByte_ne_quote q b hb), if_neg (by simp [hslash])] at h
  intro he
  split at h
  · cases h
    cases he
  · split at h
    · cases h
      cases he
    · cases h

theorem step_space {s s' : Lex} {b : UInt8} (hb : isSpaceByte b = true) {ts e : List Token}
    (h : step s b = some (s', ts)) (he : endLine s' = some (.ground, e)) :
    endLine s = some (.ground, ts ++ e) := by
  obtain ⟨hslash, hu, hU, hescape, hhex, hword⟩ := spaceByte_plain b hb
  have hq : ∀ q : Quote, b ≠ q.byte := fun q => spaceByte_ne_quote q b hb
  have hbasic : ∀ acc, basicStep acc b ≠ some (s', ts) := by
    intro acc h
    have hb22 : b ≠ 0x22 := hq .basic
    rw [basicStep, if_neg hb22, if_neg hslash] at h
    split at h <;> cases h
    cases he
  have hliteral : ∀ acc, literalStep acc b ≠ some (s', ts) := by
    intro acc h
    have hb27 : b ≠ 0x27 := hq .literal
    rw [literalStep, if_neg hb27] at h
    split at h <;> cases h
    cases he
  cases s with
  | ground =>
    rcases groundStep_space b hb _ h with hr | hr <;> cases hr <;> cases he <;> rfl
  | word text =>
    rw [step, if_neg (by simp [hword])] at h
    rw [endLine, endToken_space hb h he]
  | cr => cases h
  | comment =>
    rw [step] at h
    split at h
    · cases h
      cases he
      rfl
    · split at h <;> cases h
      cases he
      rfl
  | quote q =>
    rw [step, if_neg (hq q)] at h
    split at h
    · exact absurd h (hbasic [])
    · exact absurd h (hliteral [])
  | quotes q =>
    rw [step, if_neg (hq q)] at h
    rw [endLine, endToken_space hb h he]
  | basic acc => exact absurd h (hbasic acc)
  | literal acc => exact absurd h (hliteral acc)
  | escape multi acc =>
    rw [step, escapeStep, hescape] at h
    simp only [if_neg hu, if_neg hU] at h
    split at h <;> cases h
    cases he
  | hex multi acc left code =>
    rw [step, hexStep] at h
    · cases h
    · exact hhex
  | multi q acc first => exact absurd he (multiStep_space hb h)
  | multiQuotes q acc n =>
    rw [step, if_neg (hq q)] at h
    split at h
    · rename_i hn
      rw [endLine, if_pos hn, endToken_space hb h he]
    · exact absurd he (multiStep_space hb h)
  | multiCr q acc first => cases h
  | lineEnd acc =>
    rw [step] at h
    split at h <;> cases h
    cases he
  | trim acc =>
    rw [step] at h
    split at h
    · cases h
      cases he
    · exact absurd he (multiStep_space hb h)

theorem lexLine_append_space {s : Lex} {line w : GoString} (hw : ∀ b ∈ w, isSpaceByte b = true)
    {ts : List Token} (h : lexLine s (line ++ w) = some (.ground, ts)) :
    lexLine s line = some (.ground, ts) := by
  induction w using List.reverseRecOn generalizing ts with
  | nil => rwa [List.append_nil] at h
  | append_singleton w b ih =>
    refine ih (fun x hx => hw x (List.mem_append_left _ hx)) ?_
    rw [← List.append_assoc, lexLine, run_append] at h
    rw [lexLine]
    cases hrun : run s (line ++ w) with
    | none =>
      rw [hrun] at h
      cases h
    | some r =>
      rw [hrun, Option.bind_some, run] at h
      cases hstep : step r.1 b with
      | none =>
        rw [hstep] at h
        cases h
      | some t =>
        rw [hstep, Option.bind_some, run, Option.map_some, Option.map_some, Option.bind_some,
          List.append_nil] at h
        obtain ⟨⟨s', e⟩, he, hts⟩ := Option.map_eq_some_iff.mp h
        cases hts
        rw [Option.bind_some, step_space (hw b (by simp)) hstep he, Option.map_some, List.append_assoc]

theorem lexLine_space_append {w line : GoString} (hw : isSpace w = true) (hn : 0x0A ∉ w)
    {r : Lex × List Token} (h : lexLine .ground (w ++ line) = some r) :
    lexLine .ground line = some r := by
  obtain ⟨b, t, hbt, htail⟩ : ∃ b t, w = b :: t ∧ (t ≠ [] → 0x80 ≤ b) := by
    rcases isSpace_bytes hw with ⟨a, rfl⟩ | ⟨a, c, t, rfl, ha⟩
    · exact ⟨a, [], rfl, fun ht => absurd rfl ht⟩
    · exact ⟨a, c :: t, rfl, fun _ => ha⟩
  subst hbt
  have hhigh : ∀ b : UInt8, 0x80 ≤ b → groundStep b = none :=
    byte_forall (by decide +kernel)
  rw [lexLine, List.cons_append, run, step] at h
  have ht : t = [] := by
    by_contra hne
    rw [hhigh b (htail hne)] at h
    cases h
  subst ht
  rw [List.nil_append] at h
  cases hg : groundStep b with
  | none =>
    rw [hg] at h
    cases h
  | some g =>
    rw [hg, Option.bind_some] at h
    rcases groundStep_space b (isSpaceByte_of_mem hw b List.mem_cons_self) g hg with rfl | rfl
    · rw [lexLine]
      cases hrun : run .ground line with
      | none =>
        rw [hrun] at h
        cases h
      | some t =>
        rw [hrun] at h
        exact h
    · -- After a carriage return nothing but the end of the line is read.
      cases line with
      | nil => exact h
      | cons x line => cases h

theorem feed_append_space {p : Pos} {line w : GoString} (hw : ∀ b ∈ w, isSpaceByte b = true)
    {r : Pos × List Token} (h : feed p (line ++ w) = some r) (hr : r.1 = .rest) :
    feed p line = some r := by
  obtain ⟨⟨s, ts⟩, hlex, hnest⟩ := Option.bind_eq_some_iff.mp h
  obtain ⟨depth, hdepth, rfl⟩ := Option.map_eq_some_iff.mp hnest
  obtain ⟨rfl, rfl⟩ := Pos.mk.inj hr
  rw [feed, lexLine_append_space hw hlex, Option.bind_some, hdepth]
  rfl

theorem feed_space_append {w line : GoString} (hw : isSpace w = true) (hn : 0x0A ∉ w)
    {r : Pos × List Token} (h : feed .rest (w ++ line) = some r) : feed .rest line = some r := by
  obtain ⟨t, hlex, hnest⟩ := Option.bind_eq_some_iff.mp h
  exact Option.bind_eq_some_iff.mpr ⟨t, lexLine_space_append hw hn hlex, hnest⟩

/-- The states that the end of a line can leave the lexer in. -/
inductive Boundary : Lex → Prop where
  | ground : Boundary .ground
  | multi (q : Quote) (acc : GoString) (first : Bool) : Boundary (.multi q acc first)
  | trim (acc : GoString) : Boundary (.trim acc)

theorem endLine_boundary {s : Lex} {r : Lex × List Token} (h : endLine s = some r) :
    Boundary r.1 := by
  cases s with
  | ground | cr | comment | word | quotes =>
    cases h
    exact .ground
  | multi | multiCr =>
    cases h
    exact .multi _ _ _
  | multiQuotes q acc n =>
    rw [endLine] at h
    split at h <;> cases h
    · exact .ground
    · exact .multi _ _ _
  | escape multi acc =>
    cases multi with
    | true =>
      cases h
      exact .trim acc
    | false => cases h
  | lineEnd | trim =>
    cases h
    exact .trim _
  | quote | basic | literal | hex => cases h

theorem feed_boundary {p : Pos} {line : GoString} {r : Pos × List Token} (h : feed p line = some r) :
    Boundary r.1.lex := by
  obtain ⟨t, hlex, hnest⟩ := Option.bind_eq_some_iff.mp h
  obtain ⟨u, -, hend⟩ := Option.bind_eq_some_iff.mp hlex
  obtain ⟨e, he, rfl⟩ := Option.map_eq_some_iff.mp hend
  obtain ⟨depth, -, rfl⟩ := Option.map_eq_some_iff.mp hnest
  exact endLine_boundary he

theorem feed_empty {p : Pos} (hp : Boundary p.lex) {r : Pos × List Token} (h : feed p [] = some r)
    (hr : r.1 = .rest) : p = .rest ∧ r.2 = [.newline] := by
  obtain ⟨lex, depth⟩ := p
  cases hp with
  | ground =>
    cases h
    obtain ⟨-, rfl⟩ := Pos.mk.inj hr
    exact ⟨rfl, rfl⟩
  | multi q acc first =>
    cases h
    cases (Pos.mk.inj hr).1
  | trim acc =>
    cases h
    cases (Pos.mk.inj hr).1

theorem groupsFrom_append_empty {p : Pos} {current : List GoString × List Token}
    {lines : List GoString} {gs : List (List GoString × List Token)}
    (h : groupsFrom id p current (lines ++ [[]]) = some gs) (hp : Ready p current)
    (hlex : Boundary p.lex) :
    ∃ gs', groupsFrom id p current lines = some gs' ∧ gs = gs' ++ [([[]], [.newline])] := by
  induction lines generalizing p current gs with
  | nil =>
    rw [List.nil_append, groupsFrom] at h
    obtain ⟨r, hfeed, h⟩ := Option.bind_eq_some_iff.mp h
    split at h
    · rename_i hr
      obtain ⟨hrest, htokens⟩ := feed_empty hlex hfeed hr
      refine ⟨[], by rw [groupsFrom, if_pos hrest], ?_⟩
      rw [htokens, (Prod.mk.inj (hp hrest)).1, (Prod.mk.inj (hp hrest)).2] at h
      exact (Option.some.inj h).symm
    · rename_i hr
      rw [groupsFrom, if_neg hr] at h
      cases h
  | cons line rest ih =>
    rw [List.cons_append, groupsFrom] at h
    obtain ⟨r, hfeed, h⟩ := Option.bind_eq_some_iff.mp h
    rw [groupsFrom, hfeed, Option.bind_some]
    split at h
    · rename_i hr
      obtain ⟨gs', hgs', rfl⟩ := Option.map_eq_some_iff.mp h
      obtain ⟨gs'', hgs'', rfl⟩ := ih hgs' (fun _ => rfl) .ground
      exact ⟨_, by rw [if_pos hr, hgs'', Option.map_some], rfl⟩
    · rename_i hr
      rw [if_neg hr]
      exact ih h (fun hrest => absurd hrest hr) (feed_boundary hfeed)

theorem groupsFrom_append_space {p : Pos} {current : List GoString × List Token}
    {lines : List GoString} {line w : GoString} (hw : ∀ b ∈ w, isSpaceByte b = true)
    {gs : List (List GoString × List Token)}
    (h : groupsFrom id p current (lines ++ [line ++ w]) = some gs) :
    ∃ gs', groupsFrom id p current (lines ++ [line]) = some gs' ∧
      gs'.map Prod.snd = gs.map Prod.snd := by
  induction lines generalizing p current gs with
  | nil =>
    rw [List.nil_append, groupsFrom] at h
    obtain ⟨r, hfeed, h⟩ := Option.bind_eq_some_iff.mp h
    split at h
    · rename_i hr
      rw [List.nil_append, groupsFrom]
      change feed p (line ++ w) = some r at hfeed
      change ∃ gs', (feed p line).bind _ = some gs' ∧ _
      rw [feed_append_space hw hfeed hr, Option.bind_some, if_pos hr]
      cases h
      exact ⟨_, rfl, rfl⟩
    · rename_i hr
      rw [groupsFrom, if_neg hr] at h
      cases h
  | cons first rest ih =>
    rw [List.cons_append, groupsFrom] at h
    obtain ⟨r, hfeed, h⟩ := Option.bind_eq_some_iff.mp h
    rw [List.cons_append, groupsFrom, hfeed, Option.bind_some]
    split at h
    · rename_i hr
      obtain ⟨gs', hgs', rfl⟩ := Option.map_eq_some_iff.mp h
      obtain ⟨gs'', hgs'', htokens⟩ := ih hgs'
      refine ⟨_, by rw [if_pos hr, hgs'', Option.map_some], ?_⟩
      rw [List.map_cons, List.map_cons, htokens]
    · rename_i hr
      rw [if_neg hr]
      exact ih h

/-- The tokens of the groups do not depend on what is kept of the lines. -/
theorem groupsFrom_tokens (p : Pos) (lines lines' : List GoString) (tokens : List Token)
    (l : List GoString) :
    (groupsFrom id p (lines, tokens) l).map (fun gs => gs.map Prod.snd) =
      (groupsFrom id p (lines', tokens) l).map fun gs => gs.map Prod.snd := by
  induction l generalizing p lines lines' tokens with
  | nil => rfl
  | cons line rest ih =>
    rw [groupsFrom, groupsFrom]
    cases feed p (id line) with
    | none => rfl
    | some r =>
      rw [Option.bind_some, Option.bind_some]
      split
      · rw [Option.map_map, Option.map_map]
        congr 1
      · exact ih _ _ _ _

/-- The same text but for blank lines and white space before and after it. -/
def SameStatements (text text' : GoString) : Prop :=
  (lineTokens text').isSome ∧ statements text' = statements text

theorem sameStatements_of_tokens {text text' : GoString} {ts ts' : List (List Token)}
    (h : lineTokens text = some ts) (h' : lineTokens text' = some ts')
    (hts : statementsOf ts' = statementsOf ts) : SameStatements text text' := by
  refine ⟨by rw [h']; rfl, ?_⟩
  rw [statements, statements, h, h', Option.bind_some, Option.bind_some, hts]

theorem statementsOf_newline_append (ts : List (List Token)) :
    statementsOf ([.newline] :: ts) = statementsOf ts := by
  rw [statementsOf, parseStatement, Option.bind_some]
  exact Option.map_id'

theorem statementsOf_append_newline (ts : List (List Token)) :
    statementsOf (ts ++ [[.newline]]) = statementsOf ts := by
  rw [statementsOf_append]
  cases statementsOf ts with
  | none => rfl
  | some s => exact congrArg some (List.append_nil s)

theorem sameStatements_space_append {w text : GoString} (hw : isSpace w = true)
    (h : (lineTokens (w ++ text)).isSome) : SameStatements (w ++ text) text := by
  obtain ⟨ts, hts⟩ := Option.isSome_iff_exists.mp h
  by_cases hn : 0x0A ∈ w
  · obtain rfl := newline_mem_space hw hn
    have hlines : splitLines ([0x0A] ++ text) = [[]] ++ splitLines text := splitLines_append [] text
    have hfirst : groups id [([] : GoString)] = some [([[]], [.newline])] := rfl
    have hts' := hts
    rw [lineTokens, hlines, groups_append hfirst, Option.map_map] at hts'
    obtain ⟨gs, hgs, rfl⟩ := Option.map_eq_some_iff.mp hts'
    refine sameStatements_of_tokens hts (by rw [lineTokens, hgs, Option.map_some]) ?_
    exact (statementsOf_newline_append _).symm
  · obtain ⟨line, rest, htext, hwtext⟩ := splitLines_first hn text
    have hts' := hts
    rw [lineTokens, hwtext, groups, groupsFrom] at hts'
    obtain ⟨gs, hgs, rfl⟩ := Option.map_eq_some_iff.mp hts'
    obtain ⟨r, hfeed, hgs⟩ := Option.bind_eq_some_iff.mp hgs
    have hfeed' : feed .rest (id line) = some r := feed_space_append hw hn hfeed
    refine sameStatements_of_tokens hts ?_ rfl
    rw [lineTokens, htext, groups, groupsFrom, hfeed', Option.bind_some]
    split at hgs
    · rename_i hr
      obtain ⟨gs', hgs', rfl⟩ := Option.map_eq_some_iff.mp hgs
      rw [if_pos hr, hgs']
      rfl
    · rename_i hr
      rw [if_neg hr, groupsFrom_tokens r.1 ([] ++ [line]) ([] ++ [w ++ line]), hgs]
      rfl

theorem sameStatements_append_space {w text : GoString} (hw : isSpace w = true)
    (h : (lineTokens (text ++ w)).isSome) : SameStatements (text ++ w) text := by
  obtain ⟨ts, hts⟩ := Option.isSome_iff_exists.mp h
  obtain ⟨gs, hgs, rfl⟩ := Option.map_eq_some_iff.mp hts
  by_cases hn : 0x0A ∈ w
  · obtain rfl := newline_mem_space hw hn
    have hlines : splitLines (text ++ [0x0A]) = splitLines text ++ [[]] := splitLines_append text []
    rw [hlines] at hgs
    obtain ⟨gs', hgs', rfl⟩ := groupsFrom_append_empty hgs (fun _ => rfl) .ground
    refine sameStatements_of_tokens hts (by rw [lineTokens, groups, hgs', Option.map_some]) ?_
    rw [List.map_append]
    exact (statementsOf_append_newline _).symm
  · obtain ⟨lines, line, htext, htextw⟩ := splitLines_last hn text
    rw [htextw] at hgs
    obtain ⟨gs', hgs', htokens⟩ := groupsFrom_append_space (isSpaceByte_of_mem hw) hgs
    refine sameStatements_of_tokens hts (by rw [lineTokens, htext, groups, hgs', Option.map_some]) ?_
    rw [htokens]

theorem sameStatements_trimSpace {text : GoString} (h : (lineTokens text).isSome) :
    SameStatements text (trimSpace text) := by
  obtain ⟨before, after, hbefore, hafter, htext⟩ := trimSpace_split text
  generalize trimSpace text = t at htext ⊢
  subst htext
  induction before with
  | nil =>
    rw [List.flatten_nil, List.nil_append] at h ⊢
    induction after using List.reverseRecOn with
    | nil =>
      rw [List.flatten_nil, List.append_nil] at h ⊢
      exact ⟨h, rfl⟩
    | append_singleton ws w ih =>
      rw [List.flatten_append, List.flatten_singleton, ← List.append_assoc] at h ⊢
      have hlast := sameStatements_append_space (hafter w (by simp)) h
      have hrest := ih (fun u hu => hafter u (List.mem_append_left _ hu)) hlast.1
      exact ⟨hrest.1, hrest.2.trans hlast.2⟩
  | cons w ws ih =>
    rw [List.flatten_cons, List.append_assoc, List.append_assoc] at h ⊢
    have hfirst := sameStatements_space_append (hbefore w List.mem_cons_self) h
    have hfirst' := hfirst.1
    rw [← List.append_assoc] at hfirst'
    have hrest := ih (fun u hu => hbefore u (List.mem_cons_of_mem w hu)) hfirst'
    rw [List.append_assoc] at hrest
    exact ⟨hrest.1, hrest.2.trans hfirst.2⟩

theorem statements_trimSpace {text : GoString} {ss : List Statement} (h : statements text = some ss) :
    statements (trimSpace text) = some ss := by
  have htokens : (lineTokens text).isSome := by
    obtain ⟨ts, hts, -⟩ := Option.bind_eq_some_iff.mp h
    rw [hts]
    rfl
  rw [(sameStatements_trimSpace htokens).2, h]

theorem statements_nil : statements [] = some [] := rfl

theorem statements_append {a b : GoString} {ss ts : List Statement} (ha : statements a = some ss)
    (hb : statements b = some ts) : statements (a ++ 0x0A :: b) = some (ss ++ ts) := by
  obtain ⟨as, has, hss⟩ := Option.bind_eq_some_iff.mp ha
  obtain ⟨bs, hbs, hts⟩ := Option.bind_eq_some_iff.mp hb
  obtain ⟨gs, hgs, rfl⟩ := Option.map_eq_some_iff.mp has
  obtain ⟨hs, hhs, rfl⟩ := Option.map_eq_some_iff.mp hbs
  rw [statements, lineTokens, splitLines_append, groups_append hgs, hhs, Option.map_some,
    Option.map_some, Option.bind_some, List.map_append, statementsOf_append, hss, Option.bind_some, hts,
    Option.map_some]

/-! ## The first token of a statement -/

theorem group_first {text : α → GoString} {l : List α} {gs : List (List α × List Token)}
    (h : groups text l = some gs) {g : List α × List Token} (hg : g ∈ gs) :
    ∃ e rest r, g.1 = e :: rest ∧ lexLine .ground (text e) = some r ∧ r.2 <+: g.2 := by
  obtain ⟨hne, halone⟩ := (groups_split h).2 g hg
  obtain ⟨e, rest, hlines⟩ := List.exists_cons_of_ne_nil hne
  rw [hlines, groups, groupsFrom] at halone
  obtain ⟨r, hfeed, hrest⟩ := Option.bind_eq_some_iff.mp halone
  obtain ⟨t, hlex, hnest⟩ := Option.bind_eq_some_iff.mp hfeed
  obtain ⟨depth, -, rfl⟩ := Option.map_eq_some_iff.mp hnest
  refine ⟨e, rest, t, hlines, hlex, ?_⟩
  split at hrest
  · obtain ⟨gs', -, hgs'⟩ := Option.map_eq_some_iff.mp hrest
    rw [← (List.cons.inj hgs').1]
    exact List.prefix_rfl
  · rename_i hr
    rcases groupsFrom_first hrest with ⟨-, hnil⟩ | ⟨a, b, ts, gs', -, -, hgs', -⟩
    · cases hnil
    · rw [(List.cons.inj hgs').1, List.nil_append]
      exact List.prefix_append _ _

theorem lexLine_word {text line : GoString} {r : Lex × List Token}
    (h : lexLine (.word text) line = some r) : ∃ word, r.2.head? = some (.bare word) := by
  induction line generalizing text with
  | nil =>
    cases h
    exact ⟨text, rfl⟩
  | cons b line ih =>
    obtain ⟨t, hrun, hend⟩ := Option.bind_eq_some_iff.mp h
    obtain ⟨s, hstep, hrest⟩ := Option.bind_eq_some_iff.mp hrun
    obtain ⟨u, hu, rfl⟩ := Option.map_eq_some_iff.mp hrest
    obtain ⟨e, he, rfl⟩ := Option.map_eq_some_iff.mp hend
    rw [step] at hstep
    split at hstep
    · cases hstep
      have hrest : lexLine (.word (text ++ [b])) line = some (e.1, u.2 ++ e.2) := by
        rw [lexLine, hu, Option.bind_some, he]
        rfl
      exact ih hrest
    · obtain ⟨g, -, rfl⟩ := Option.map_eq_some_iff.mp hstep
      exact ⟨text, rfl⟩

theorem lexLine_trimmed {line : GoString} (hn : 0x0A ∉ line) {r : Lex × List Token}
    (h : lexLine .ground line = some r) :
    ∃ after, lexLine .ground (trimSpace line ++ after) = some r := by
  obtain ⟨before, after, hbefore, -, hline⟩ := trimSpace_split line
  generalize trimSpace line = t at hline ⊢
  subst hline
  refine ⟨after.flatten, ?_⟩
  induction before with
  | nil => simpa using h
  | cons w ws ih =>
    rw [List.flatten_cons, List.append_assoc, List.append_assoc] at h hn
    have hrest := lexLine_space_append (hbefore w List.mem_cons_self)
      (fun hw => hn (List.mem_append_left _ hw)) h
    rw [← List.append_assoc] at hrest
    refine ih (fun u hu => hbefore u (List.mem_cons_of_mem w hu)) (fun hmem => hn ?_) hrest
    rw [List.append_assoc] at hmem
    exact List.mem_append_right w hmem

theorem groundStep_word (b : UInt8) : isWordByte b = true → groundStep b = some (.word [b], []) := by
  revert b
  refine byte_forall ?_
  decide +kernel

/-- The first token of a line, by the first byte that is no white space. -/
theorem lexLine_head {line : GoString} (hn : 0x0A ∉ line) {r : Lex × List Token}
    (h : lexLine .ground line = some r) {b : UInt8} {rest : GoString}
    (hb : trimSpace line = b :: rest) :
    (b = 0x5B → r.2.head? = some .openBracket) ∧
      (isWordByte b = true → ∃ word, r.2.head? = some (.bare word)) := by
  obtain ⟨after, hafter⟩ := lexLine_trimmed hn h
  rw [hb, List.cons_append, lexLine, run] at hafter
  constructor
  · rintro rfl
    change Option.bind ((run .ground (rest ++ after)).map _) _ = some r at hafter
    obtain ⟨t, ht, hend⟩ := Option.bind_eq_some_iff.mp hafter
    obtain ⟨u, -, rfl⟩ := Option.map_eq_some_iff.mp ht
    obtain ⟨e, -, rfl⟩ := Option.map_eq_some_iff.mp hend
    rfl
  · intro hword
    have hstep : step .ground b = some (.word [b], []) := groundStep_word b hword
    rw [hstep, Option.bind_some] at hafter
    suffices hrest : lexLine (.word [b]) (rest ++ after) = some r from lexLine_word hrest
    rw [lexLine]
    cases hrun : run (.word [b]) (rest ++ after) with
    | none =>
      rw [hrun] at hafter
      cases hafter
    | some t =>
      rw [hrun] at hafter
      exact hafter

theorem parseHeader_eq {statement : List GoString → Statement} {close ts : List Token} {st : Statement}
    (h : parseHeader statement close ts = some st) : ∃ path, st = statement path := by
  obtain ⟨k, -, hk⟩ := Option.bind_eq_some_iff.mp h
  split at hk
  · exact ⟨k.1, (Option.some.inj hk).symm⟩
  · cases hk

theorem parseKeyval_eq {ts : List Token} {st : Statement} (h : parseKeyval ts = some st) :
    ∃ key value, st = .keyval key value := by
  obtain ⟨k, -, hk⟩ := Option.bind_eq_some_iff.mp h
  split at hk
  · obtain ⟨r, -, hr⟩ := Option.bind_eq_some_iff.mp hk
    split at hr
    · exact ⟨k.1, r.1, (Option.some.inj hr).symm⟩
    · cases hr
  · cases hk

theorem parseStatement_header {ts : List Token} {s : Option Statement}
    (h : parseStatement ts = some s) (hts : ts.head? = some .openBracket) :
    ∃ st, s = some st ∧ st.isHeader = true := by
  unfold parseStatement at h
  split at h
  · cases hts
  · obtain ⟨st, hst, rfl⟩ := Option.map_eq_some_iff.mp h
    obtain ⟨path, rfl⟩ := parseHeader_eq hst
    exact ⟨_, rfl, rfl⟩
  · obtain ⟨st, hst, rfl⟩ := Option.map_eq_some_iff.mp h
    obtain ⟨path, rfl⟩ := parseHeader_eq hst
    exact ⟨_, rfl, rfl⟩
  · rename_i hother
    obtain ⟨t, ht⟩ := List.head?_eq_some_iff.mp hts
    exact absurd ht (hother t)

theorem parseStatement_keyval {ts : List Token} {s : Option Statement} {word : GoString}
    (h : parseStatement ts = some s) (hts : ts.head? = some (.bare word)) :
    ∃ st, s = some st ∧ st.isHeader = false := by
  unfold parseStatement at h
  split at h
  · cases hts
  · cases hts
  · cases hts
  · obtain ⟨st, hst, rfl⟩ := Option.map_eq_some_iff.mp h
    obtain ⟨key, value, rfl⟩ := parseKeyval_eq hst
    exact ⟨_, rfl, rfl⟩

end SubscriptionRouter.Toml
