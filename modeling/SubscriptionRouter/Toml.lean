import Mathlib
import SubscriptionRouter.JsonText
import SubscriptionRouter.TextLines

set_option autoImplicit false

/-!
# Reading TOML

A document is read line by line. The lexer goes through the bytes of a line from the state
that the line before has left it in, and the lines from one state of rest to the next are a
statement. Every TOML 1.0 document is read; of numbers and dates only the text is kept, and
blanks between doubled brackets are let pass.
-/
namespace SubscriptionRouter.Toml
open GoText TextLines

inductive Token where
  | bare (text : GoString)
  | string (value : GoString) (multiline : Bool)
  | openBracket | closeBracket | openBrace | closeBrace | comma | dot | equals | newline
  deriving DecidableEq

/-! ## Lexing -/

/-- The two kinds of quotation marks. -/
inductive Quote where
  | basic | literal
  deriving DecidableEq

def Quote.byte : Quote → UInt8
  | .basic => 0x22
  | .literal => 0x27

inductive Lex where
  | ground
  | word (text : GoString)
  | cr
  | comment
  /-- One quotation mark, or two. -/
  | quote (q : Quote)
  | quotes (q : Quote)
  | basic (acc : GoString)
  | literal (acc : GoString)
  | escape (multi : Bool) (acc : GoString)
  | hex (multi : Bool) (acc : GoString) (left code : ℕ)
  | multi (q : Quote) (acc : GoString) (first : Bool)
  /-- So many quotation marks, which may close the string. -/
  | multiQuotes (q : Quote) (acc : GoString) (n : ℕ)
  | multiCr (q : Quote) (acc : GoString) (first : Bool)
  /-- A backslash before the end of the line: white space is left out up to the next text. -/
  | lineEnd (acc : GoString)
  | trim (acc : GoString)
  deriving DecidableEq

/-- The bytes of bare keys, and the signs of numbers and times. -/
def isWordByte (b : UInt8) : Bool :=
  0x41 ≤ b && b ≤ 0x5A || 0x61 ≤ b && b ≤ 0x7A || 0x30 ≤ b && b ≤ 0x3A || b = 0x5F || b = 0x2D ||
    b = 0x2B

def isText (b : UInt8) : Bool := b = 0x09 || 0x20 ≤ b && b ≠ 0x7F

def isBlank (b : UInt8) : Bool := b = 0x20 || b = 0x09

def punctuation (b : UInt8) : Option Token :=
  if b = 0x5B then some .openBracket
  else if b = 0x5D then some .closeBracket
  else if b = 0x7B then some .openBrace
  else if b = 0x7D then some .closeBrace
  else if b = 0x2C then some .comma
  else if b = 0x2E then some .dot
  else if b = 0x3D then some .equals
  else none

def groundStep (b : UInt8) : Option (Lex × List Token) :=
  if isBlank b then some (.ground, [])
  else if b = 0x23 then some (.comment, [])
  else if b = 0x22 then some (.quote .basic, [])
  else if b = 0x27 then some (.quote .literal, [])
  else if b = 0x0D then some (.cr, [])
  else if isWordByte b then some (.word [b], [])
  else (punctuation b).map fun t => (.ground, [t])

def endToken (t : Token) (b : UInt8) : Option (Lex × List Token) :=
  (groundStep b).map fun r => (r.1, t :: r.2)

def basicStep (acc : GoString) (b : UInt8) : Option (Lex × List Token) :=
  if b = 0x22 then some (.ground, [.string acc false])
  else if b = 0x5C then some (.escape false acc, [])
  else if isText b then some (.basic (acc ++ [b]), [])
  else none

def literalStep (acc : GoString) (b : UInt8) : Option (Lex × List Token) :=
  if b = 0x27 then some (.ground, [.string acc false])
  else if isText b then some (.literal (acc ++ [b]), [])
  else none

def multiStep (q : Quote) (acc : GoString) (first : Bool) (b : UInt8) : Option (Lex × List Token) :=
  if b = q.byte then some (.multiQuotes q acc 1, [])
  else if b = 0x5C && q = .basic then some (.escape true acc, [])
  else if b = 0x0D then some (.multiCr q acc first, [])
  else if isText b then some (.multi q (acc ++ [b]) false, [])
  else none

def simpleEscape (b : UInt8) : Option UInt8 :=
  if b = 0x62 then some 0x08
  else if b = 0x74 then some 0x09
  else if b = 0x6E then some 0x0A
  else if b = 0x66 then some 0x0C
  else if b = 0x72 then some 0x0D
  else if b = 0x22 || b = 0x5C then some b
  else none

def afterEscape (multi : Bool) (acc : GoString) : Lex :=
  if multi then .multi .basic acc false else .basic acc

def escapeStep (multi : Bool) (acc : GoString) (b : UInt8) : Option (Lex × List Token) :=
  match simpleEscape b with
  | some e => some (afterEscape multi (acc ++ [e]), [])
  | none =>
    if b = 0x75 then some (.hex multi acc 3 0, [])
    else if b = 0x55 then some (.hex multi acc 7 0, [])
    else if multi && (isBlank b || b = 0x0D) then some (.lineEnd acc, [])
    else none

def hexStep (multi : Bool) (acc : GoString) (left code : ℕ) (b : UInt8) :
    Option (Lex × List Token) :=
  match JsonText.hexValue [b], left with
  | none, _ => none
  | some d, left + 1 => some (.hex multi acc left (code * 16 + d), [])
  | some d, 0 =>
    if JsonText.isSurrogate (code * 16 + d) || 0x110000 ≤ code * 16 + d then none
    else some (afterEscape multi (acc ++ JsonText.encodeRune (code * 16 + d)), [])

def step : Lex → UInt8 → Option (Lex × List Token)
  | .ground, b => groundStep b
  | .word text, b =>
    if isWordByte b then some (.word (text ++ [b]), []) else endToken (.bare text) b
  | .cr, _ => none
  | .comment, b =>
    if b = 0x0D then some (.cr, []) else if isText b then some (.comment, []) else none
  | .quote q, b =>
    if b = q.byte then some (.quotes q, [])
    else if q = .basic then basicStep [] b
    else literalStep [] b
  | .quotes q, b => if b = q.byte then some (.multi q [] true, []) else endToken (.string [] false) b
  | .basic acc, b => basicStep acc b
  | .literal acc, b => literalStep acc b
  | .escape multi acc, b => escapeStep multi acc b
  | .hex multi acc left code, b => hexStep multi acc left code b
  | .multi q acc first, b => multiStep q acc first b
  | .multiQuotes q acc n, b =>
    if b = q.byte then (if n < 5 then some (.multiQuotes q acc (n + 1), []) else none)
    else if 3 ≤ n then endToken (.string (acc ++ List.replicate (n - 3) q.byte) true) b
    else multiStep q (acc ++ List.replicate n q.byte) false b
  | .multiCr _ _ _, _ => none
  | .lineEnd acc, b => if isBlank b || b = 0x0D then some (.lineEnd acc, []) else none
  | .trim acc, b =>
    if isBlank b || b = 0x0D then some (.trim acc, []) else multiStep .basic acc false b

/-- What the end of the line does. -/
def endLine : Lex → Option (Lex × List Token)
  | .ground | .cr | .comment => some (.ground, [.newline])
  | .word text => some (.ground, [.bare text, .newline])
  | .quotes _ => some (.ground, [.string [] false, .newline])
  | .multi q acc first | .multiCr q acc first =>
    -- The line break right after the opening quotation marks is no part of the string.
    some (.multi q (if first then acc else acc ++ [0x0A]) false, [])
  | .multiQuotes q acc n =>
    if 3 ≤ n then some (.ground, [.string (acc ++ List.replicate (n - 3) q.byte) true, .newline])
    else some (.multi q (acc ++ List.replicate n q.byte ++ [0x0A]) false, [])
  | .escape true acc | .lineEnd acc | .trim acc => some (.trim acc, [])
  | _ => none

def run : Lex → GoString → Option (Lex × List Token)
  | s, [] => some (s, [])
  | s, b :: rest => (step s b).bind fun r => (run r.1 rest).map fun t => (t.1, r.2 ++ t.2)

def lexLine (s : Lex) (line : GoString) : Option (Lex × List Token) :=
  (run s line).bind fun r => (endLine r.1).map fun e => (e.1, r.2 ++ e.2)

/-! ## Lines and groups -/

def nest : ℕ → List Token → Option ℕ
  | depth, [] => some depth
  | depth, .openBracket :: ts | depth, .openBrace :: ts => nest (depth + 1) ts
  | 0, .closeBracket :: _ | 0, .closeBrace :: _ => none
  | depth + 1, .closeBracket :: ts | depth + 1, .closeBrace :: ts => nest depth ts
  | depth, _ :: ts => nest depth ts

/-- Where the reader stands between two lines: the state of the lexer and the open brackets. -/
structure Pos where
  lex : Lex
  depth : ℕ
  deriving DecidableEq

def Pos.rest : Pos := ⟨.ground, 0⟩

def feed (p : Pos) (line : GoString) : Option (Pos × List Token) :=
  (lexLine p.lex line).bind fun r => (nest p.depth r.2).map fun depth => (⟨r.1, depth⟩, r.2)

variable {α : Type}

/-- Lines, of which there may be more than the text, cut where the reader is at rest. The
second argument is the part of a group that has been read. -/
def groupsFrom (text : α → GoString) : Pos → List α × List Token → List α →
    Option (List (List α × List Token))
  | p, _, [] => if p = .rest then some [] else none
  | p, (lines, tokens), line :: rest =>
    (feed p (text line)).bind fun r =>
      if r.1 = .rest then
        (groupsFrom text .rest ([], []) rest).map ((lines ++ [line], tokens ++ r.2) :: ·)
      else groupsFrom text r.1 (lines ++ [line], tokens ++ r.2) rest

def groups (text : α → GoString) (lines : List α) : Option (List (List α × List Token)) :=
  groupsFrom text .rest ([], []) lines

/-! ### Groups of parts of a text -/

section Groups
variable {text : α → GoString}

/-- The reader is at rest with no part of a group, or inside one. -/
def Ready (p : Pos) (current : List α × List Token) : Prop := p = .rest → current = ([], [])

theorem groupsFrom_append {p : Pos} {current : List α × List Token} {a : List α}
    {gs : List (List α × List Token)} (h : groupsFrom text p current a = some gs)
    (hp : Ready p current) (b : List α) :
    groupsFrom text p current (a ++ b) = (groups text b).map (gs ++ ·) := by
  induction a generalizing p current gs with
  | nil =>
    rw [groupsFrom] at h
    split at h
    · rename_i hrest
      cases h
      rw [List.nil_append, hp hrest, hrest, ← groups]
      exact Option.map_id'.symm
    · cases h
  | cons line rest ih =>
    obtain ⟨lines, tokens⟩ := current
    rw [groupsFrom] at h
    rw [List.cons_append, groupsFrom]
    cases hfeed : feed p (text line) with
    | none =>
      rw [hfeed] at h
      cases h
    | some r =>
      rw [hfeed, Option.bind_some] at h
      rw [Option.bind_some]
      split at h
      · rename_i hr
        obtain ⟨gs', hgs', rfl⟩ := Option.map_eq_some_iff.mp h
        rw [if_pos hr, ih hgs' fun _ => rfl, Option.map_map]
        rfl
      · rename_i hr
        rw [if_neg hr]
        exact ih h fun hrest => absurd hrest hr

theorem groups_append {a : List α} {gs : List (List α × List Token)} (h : groups text a = some gs)
    (b : List α) : groups text (a ++ b) = (groups text b).map (gs ++ ·) :=
  groupsFrom_append h (fun _ => rfl) b

/-- The first group of a text, which is a group whatever is before it, and the others. -/
theorem groupsFrom_first {p : Pos} {lines : List α} {tokens : List Token} {l : List α}
    {gs : List (List α × List Token)} (h : groupsFrom text p (lines, tokens) l = some gs) :
    (l = [] ∧ gs = []) ∨ ∃ a b ts gs', l = a ++ b ∧ a ≠ [] ∧ gs = (lines ++ a, tokens ++ ts) :: gs' ∧
      (∀ lines' tokens', groupsFrom text p (lines', tokens') a = some [(lines' ++ a, tokens' ++ ts)]) ∧
        groups text b = some gs' := by
  induction l generalizing p lines tokens gs with
  | nil =>
    rw [groupsFrom] at h
    split at h
    · cases h
      exact .inl ⟨rfl, rfl⟩
    · cases h
  | cons line rest ih =>
    rw [groupsFrom] at h
    cases hfeed : feed p (text line) with
    | none =>
      rw [hfeed] at h
      cases h
    | some r =>
      rw [hfeed, Option.bind_some] at h
      refine .inr ?_
      split at h
      · rename_i hr
        obtain ⟨gs', hgs', rfl⟩ := Option.map_eq_some_iff.mp h
        refine ⟨[line], rest, r.2, gs', rfl, List.cons_ne_nil _ _, rfl, fun lines' tokens' => ?_, hgs'⟩
        rw [groupsFrom, hfeed, Option.bind_some, if_pos hr, groupsFrom, if_pos rfl, Option.map_some]
      · rename_i hr
        rcases ih h with ⟨rfl, -⟩ | ⟨a, b, ts, gs', rfl, -, rfl, halone, hb⟩
        · rw [groupsFrom, if_neg hr] at h
          cases h
        · refine ⟨line :: a, b, r.2 ++ ts, gs', rfl, List.cons_ne_nil _ _, by simp, ?_, hb⟩
          intro lines' tokens'
          rw [groupsFrom, hfeed, Option.bind_some, if_neg hr, halone]
          simp

theorem groups_split {l : List α} {gs : List (List α × List Token)} (h : groups text l = some gs) :
    l = gs.flatMap Prod.fst ∧ ∀ g ∈ gs, g.1 ≠ [] ∧ groups text g.1 = some [g] := by
  induction gs generalizing l with
  | nil =>
    rcases groupsFrom_first h with ⟨rfl, -⟩ | ⟨a, b, ts, gs', -, -, hgs, -⟩
    · exact ⟨rfl, by simp⟩
    · cases hgs
  | cons g gs ih =>
    rcases groupsFrom_first h with ⟨-, hgs⟩ | ⟨a, b, ts, gs', rfl, ha, hgs, halone, hb⟩
    · cases hgs
    · obtain ⟨rfl, rfl⟩ := List.cons.inj hgs
      obtain ⟨hl, hall⟩ := ih hb
      refine ⟨by rw [List.flatMap_cons, ← hl]; rfl, List.forall_mem_cons.mpr ⟨⟨ha, ?_⟩, hall⟩⟩
      exact halone [] []

def allKept (q : α → Bool) (g : List α × List Token) : Bool := g.1.all q

/-- Leaving groups out leaves the others as they are. -/
theorem groups_filter {q : α → Bool} {l : List α} {gs : List (List α × List Token)}
    (h : groups text l = some gs)
    (hq : ∀ g ∈ gs, (∀ e ∈ g.1, q e = true) ∨ ∀ e ∈ g.1, q e = false) :
    groups text (l.filter q) = some (gs.filter (allKept q)) := by
  obtain ⟨rfl, hall⟩ := groups_split h
  clear h
  induction gs with
  | nil => rfl
  | cons g gs ih =>
    obtain ⟨⟨hne, halone⟩, hrest⟩ := List.forall_mem_cons.mp hall
    obtain ⟨hg, hqs⟩ := List.forall_mem_cons.mp hq
    have ih := ih hqs hrest
    rw [List.flatMap_cons, List.filter_append]
    rcases hg with hg | hg
    · have hkept : allKept q g = true := List.all_eq_true.mpr hg
      rw [List.filter_eq_self.mpr hg, groups_append halone, ih, List.filter_cons_of_pos hkept]
      rfl
    · have hdropped : ¬ allKept q g = true := by
        intro hkept
        obtain ⟨e, he⟩ := List.exists_mem_of_ne_nil g.1 hne
        exact Bool.false_ne_true ((hg e he).symm.trans (List.all_eq_true.mp hkept e he))
      rw [List.filter_eq_nil_iff.mpr fun e he => by simp [hg e he], List.nil_append, ih,
        List.filter_cons_of_neg hdropped]

theorem groupsFrom_map {β : Type} (f : β → α) (p : Pos) (lines : List β) (tokens : List Token)
    (l : List β) : groupsFrom text p (lines.map f, tokens) (l.map f) =
      (groupsFrom (fun e => text (f e)) p (lines, tokens) l).map
        fun gs => gs.map fun g => (g.1.map f, g.2) := by
  induction l generalizing p lines tokens with
  | nil =>
    rw [List.map_nil, groupsFrom, groupsFrom]
    split <;> rfl
  | cons line rest ih =>
    rw [List.map_cons, groupsFrom, groupsFrom]
    cases feed p (text (f line)) with
    | none => rfl
    | some r =>
      rw [Option.bind_some, Option.bind_some]
      split
      · have ih := ih .rest [] []
        rw [List.map_nil] at ih
        rw [ih, Option.map_map, Option.map_map]
        congr 1
        funext gs
        simp
      · have ih := ih r.1 (lines ++ [line]) (tokens ++ r.2)
        rwa [List.map_append] at ih

variable (text) in
theorem groups_map {β : Type} (f : β → α) (l : List β) : groups text (l.map f) =
    (groups (fun e => text (f e)) l).map fun gs => gs.map fun g => (g.1.map f, g.2) :=
  groupsFrom_map f .rest [] [] l

end Groups

/-! ## Statements -/

inductive Value where
  | string (s : GoString)
  | scalar (words : List GoString)
  | array (elements : List Value)
  | inline (pairs : List (List GoString × Value))

inductive Statement where
  | table (path : List GoString)
  | arrayTable (path : List GoString)
  | keyval (key : List GoString) (value : Value)

def Statement.isHeader : Statement → Bool
  | .table _ | .arrayTable _ => true
  | .keyval _ _ => false

def isBareKey (text : GoString) : Bool := text.all fun b => b ≠ 0x3A && b ≠ 0x2B

def keyPart : Token → Option GoString
  | .bare text => if isBareKey text then some text else none
  | .string value false => some value
  | _ => none

def parseKey : List Token → Option (List GoString × List Token)
  | t :: .dot :: ts => (keyPart t).bind fun k => (parseKey ts).map fun r => (k :: r.1, r.2)
  | t :: ts => (keyPart t).map fun k => ([k], ts)
  | [] => none

def skipNewlines : List Token → List Token
  | .newline :: ts => skipNewlines ts
  | ts => ts

/-- The words of a number or a date after its first: a time after a blank, and a fraction. -/
def parseWords : List Token → List GoString × List Token
  | .bare a :: .dot :: .bare b :: ts => ([a, lit ".", b], ts)
  | .bare a :: ts => ([a], ts)
  | .dot :: .bare b :: ts => ([lit ".", b], ts)
  | ts => ([], ts)

mutual
def parseValue : ℕ → List Token → Option (Value × List Token)
  | 0, _ => none
  | fuel + 1, ts =>
    match ts with
    | .string s _ :: ts => some (.string s, ts)
    | .bare word :: ts => some (.scalar (word :: (parseWords ts).1), (parseWords ts).2)
    | .openBracket :: ts =>
      (parseElements fuel (skipNewlines ts)).map fun r => (.array r.1, r.2)
    | .openBrace :: .closeBrace :: ts => some (.inline [], ts)
    | .openBrace :: ts => (parsePairs fuel ts).map fun r => (.inline r.1, r.2)
    | _ => none

/-- What follows an opening bracket or a comma of an array. -/
def parseElements : ℕ → List Token → Option (List Value × List Token)
  | 0, _ => none
  | fuel + 1, ts =>
    match ts with
    | .closeBracket :: ts => some ([], ts)
    | ts => (parseValue fuel ts).bind fun r =>
      match skipNewlines r.2 with
      | .closeBracket :: ts => some ([r.1], ts)
      | .comma :: ts => (parseElements fuel (skipNewlines ts)).map fun s => (r.1 :: s.1, s.2)
      | _ => none

def parsePairs : ℕ → List Token → Option (List (List GoString × Value) × List Token)
  | 0, _ => none
  | fuel + 1, ts =>
    (parseKey ts).bind fun k =>
      match k.2 with
      | .equals :: ts => (parseValue fuel ts).bind fun r =>
        match r.2 with
        | .closeBrace :: ts => some ([(k.1, r.1)], ts)
        | .comma :: ts => (parsePairs fuel ts).map fun s => ((k.1, r.1) :: s.1, s.2)
        | _ => none
      | _ => none
end

def parseHeader (statement : List GoString → Statement) (close ts : List Token) : Option Statement :=
  (parseKey ts).bind fun k => if k.2 = close ++ [.newline] then some (statement k.1) else none

def parseKeyval (ts : List Token) : Option Statement :=
  (parseKey ts).bind fun k =>
    match k.2 with
    | .equals :: ts => (parseValue (2 * ts.length) ts).bind fun r =>
      if r.2 = [.newline] then some (.keyval k.1 r.1) else none
    | _ => none

/-- The statement of a group; a blank line has none. -/
def parseStatement : List Token → Option (Option Statement)
  | [.newline] => some none
  | .openBracket :: .openBracket :: ts =>
    (parseHeader .arrayTable [.closeBracket, .closeBracket] ts).map some
  | .openBracket :: ts => (parseHeader .table [.closeBracket] ts).map some
  | ts => (parseKeyval ts).map some

def statementsOf : List (List Token) → Option (List Statement)
  | [] => some []
  | g :: gs => (parseStatement g).bind fun s => (statementsOf gs).map (s.toList ++ ·)

def lineTokens (text : GoString) : Option (List (List Token)) :=
  (groups id (splitLines text)).map fun gs => gs.map Prod.snd

def statements (text : GoString) : Option (List Statement) := (lineTokens text).bind statementsOf

example : statements (lit "[ a . \"b c\" ] # note\nk = [1, # one\n  2.5]\n\nd.e='x'\r\n") = some
    [.table [lit "a", lit "b c"],
      .keyval [lit "k"] (.array [.scalar [lit "1"], .scalar [lit "2", lit ".", lit "5"]]),
      .keyval [lit "d", lit "e"] (.string (lit "x"))] := by
  rfl

example : statements (lit "s = \"\"\"\n[x]\\\n   \\u00e9\"\"\"\n") =
    some [.keyval [lit "s"] (.string (lit "[x]é"))] := by
  rfl

theorem statementsOf_append (a b : List (List Token)) : statementsOf (a ++ b) =
    (statementsOf a).bind fun s => (statementsOf b).map (s ++ ·) := by
  induction a with
  | nil =>
    rw [List.nil_append, statementsOf, Option.bind_some]
    exact Option.map_id'.symm
  | cons g gs ih =>
    rw [List.cons_append, statementsOf, statementsOf, ih]
    cases parseStatement g with
    | none => rfl
    | some s =>
      cases statementsOf gs with
      | none => rfl
      | some t =>
        cases statementsOf b with
        | none => rfl
        | some u => simp

end SubscriptionRouter.Toml
