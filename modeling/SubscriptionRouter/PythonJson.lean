import Mathlib
import SubscriptionRouter.GoText
import SubscriptionRouter.PythonText

set_option autoImplicit false

/-!
# `json.loads`

The text is cut into tokens, which a machine with a stack makes a value of. A string keeps how it
is written, and a number or a constant nothing: no caller looks at one. An object keeps all its
members; the dictionary has the last one of each name.
-/
namespace SubscriptionRouter.PythonJson
open GoText Transducers PythonText

/-! ## Strings -/

/-- What stands for a character: itself, a backslash and a letter, or `\\u` and four digits. -/
inductive Piece where
  | literal (c : ℕ)
  | short (c : ℕ)
  | escape (n : ℕ)
  deriving DecidableEq

abbrev Spelling := List Piece

/-- The string. Two escapes for a pair of surrogates are one character. -/
def decoded : Spelling → Text
  | [] => []
  | .literal c :: rest => c :: decoded rest
  | .short c :: rest => c :: decoded rest
  | [.escape n] => [n]
  | .escape high :: .escape low :: rest =>
    if isHighSurrogate high && isLowSurrogate low then joinSurrogates high low :: decoded rest
    else high :: decoded (.escape low :: rest)
  | .escape n :: rest => n :: decoded rest

def literal (text : Text) : Spelling := text.map .literal

/-- The letters that may follow a backslash, but for `u`. -/
def shortEscape (c : ℕ) : Option ℕ :=
  match c with
  | 0x22 => some 0x22
  | 0x5C => some 0x5C
  | 0x2F => some 0x2F
  | 0x62 => some 0x08
  | 0x66 => some 0x0C
  | 0x6E => some 0x0A
  | 0x72 => some 0x0D
  | 0x74 => some 0x09
  | _ => none

def hexValue (c : ℕ) : Option ℕ :=
  if 0x30 ≤ c ∧ c ≤ 0x39 then some (c - 0x30)
  else if 0x61 ≤ c ∧ c ≤ 0x66 then some (c - 0x61 + 10)
  else if 0x41 ≤ c ∧ c ≤ 0x46 then some (c - 0x41 + 10)
  else none

/-! ## Numbers and constants -/

def isDigit (c : ℕ) : Bool := 0x30 ≤ c && c ≤ 0x39

def isExponent : Text → Bool
  | [] => true
  | e :: rest =>
    let rest := if rest.head? = some 0x2B ∨ rest.head? = some 0x2D then rest.tail else rest
    (e = 0x65 || e = 0x45) && !rest.isEmpty && rest.all isDigit

def isFraction : Text → Bool
  | 0x2E :: rest => !(rest.takeWhile isDigit).isEmpty && isExponent (rest.dropWhile isDigit)
  | text => isExponent text

def isNumber (text : Text) : Bool :=
  match if text.head? = some 0x2D then text.tail else text with
  | [] => false
  | c :: rest => if c = 0x30 then isFraction rest else isDigit c && isFraction (rest.dropWhile isDigit)

def constants : List Text :=
  [codes (lit "true"), codes (lit "false"), codes (lit "null"), codes (lit "NaN"), codes (lit "Infinity"),
    codes (lit "-Infinity")]

def isAtom (text : Text) : Bool := constants.contains text || isNumber text

def isAtomCharacter (c : ℕ) : Bool := (codes (lit "+-.0123456789truefalsenullNaNInfinityE")).contains c

/-! ## Tokens -/

inductive Token (S : Type) where
  | openArray | closeArray | openObject | closeObject | comma | colon
  | atom
  | str (s : S)
  deriving DecidableEq

def punctuation (c : ℕ) : Option (Token Spelling) :=
  match c with
  | 0x5B => some .openArray
  | 0x5D => some .closeArray
  | 0x7B => some .openObject
  | 0x7D => some .closeObject
  | 0x2C => some .comma
  | 0x3A => some .colon
  | _ => none

def isSpace (c : ℕ) : Bool := c = 0x20 || c = 0x09 || c = 0x0A || c = 0x0D

/-- Where the scanner is in a string. -/
inductive Within where
  | plain
  | backslash
  | hex (more value : ℕ)
  deriving DecidableEq

/-- Where the scanner is, with what it has read of a token. -/
inductive Lexing where
  | outside
  | atom (written : Text)
  | string (within : Within) (pieces : Spelling)
  deriving DecidableEq

def startToken (c : ℕ) : Option (List (Token Spelling) × Lexing) :=
  if isSpace c then some ([], .outside)
  else if c = 0x22 then some ([], .string .plain [])
  else match punctuation c with
    | some token => some ([token], .outside)
    | none => if isAtomCharacter c then some ([], .atom [c]) else none

def Lexing.step : Lexing → ℕ → Option (List (Token Spelling) × Lexing)
  | .outside, c => startToken c
  | .atom written, c =>
    if isAtomCharacter c then some ([], .atom (written ++ [c]))
    else if isAtom written then (startToken c).map fun next => (.atom :: next.1, next.2)
    else none
  | .string .plain pieces, c =>
    if c = 0x22 then some ([.str pieces], .outside)
    else if c = 0x5C then some ([], .string .backslash pieces)
    else if c < 0x20 then none
    else some ([], .string .plain (pieces ++ [.literal c]))
  | .string .backslash pieces, c =>
    if c = 0x75 then some ([], .string (.hex 3 0) pieces)
    else (shortEscape c).map fun c => ([], .string .plain (pieces ++ [.short c]))
  | .string (.hex more value) pieces, c => (hexValue c).map fun digit =>
    ([], if more = 0 then .string .plain (pieces ++ [.escape (value * 16 + digit)])
      else .string (.hex (more - 1) (value * 16 + digit)) pieces)

def lexer : Transducer Lexing ℕ (Token Spelling) where
  step := Lexing.step
  finish
    | .outside => some []
    | .atom written => if isAtom written then some [.atom] else none
    | _ => none

/-! ## Values -/

inductive Value (S : Type) where
  | atom
  | str (s : S)
  | array (items : List (Value S))
  | object (members : List (S × Value S))

/-- An array or an object around what is being read, with what it has so far. -/
inductive Frame (S : Type) where
  | array (items : List (Value S))
  | object (members : List (S × Value S)) (name : S)

/-- What may come next. -/
inductive Expect (S : Type) where
  | value
  | firstItem
  | next (value : Value S)
  | firstName
  | name (members : List (S × Value S))
  | colon (members : List (S × Value S)) (name : S)

/-- The innermost array or object comes first. -/
structure Reading (S : Type) where
  frames : List (Frame S)
  expect : Expect S

section Parsing
variable {S : Type}

/-- A value begins. No more than `limit` arrays and objects may be around one another. -/
def beginValue (limit : ℕ) (frames : List (Frame S)) : Token S → Option (Reading S)
  | .atom => some ⟨frames, .next .atom⟩
  | .str s => some ⟨frames, .next (.str s)⟩
  | .openArray => if frames.length < limit then some ⟨frames, .firstItem⟩ else none
  | .openObject => if frames.length < limit then some ⟨frames, .firstName⟩ else none
  | _ => none

/-- A value has ended. -/
def endValue (value : Value S) : List (Frame S) → Token S → Option (Reading S)
  | .array items :: frames, .comma => some ⟨.array (items ++ [value]) :: frames, .value⟩
  | .array items :: frames, .closeArray => some ⟨frames, .next (.array (items ++ [value]))⟩
  | .object members name :: frames, .comma => some ⟨frames, .name (members ++ [(name, value)])⟩
  | .object members name :: frames, .closeObject =>
    some ⟨frames, .next (.object (members ++ [(name, value)]))⟩
  | _, _ => none

def Reading.step (limit : ℕ) (r : Reading S) (token : Token S) : Option (Reading S) :=
  match r.expect, token with
  | .value, token => beginValue limit r.frames token
  | .firstItem, .closeArray => some ⟨r.frames, .next (.array [])⟩
  | .firstItem, token => beginValue limit (.array [] :: r.frames) token
  | .next value, token => endValue value r.frames token
  | .firstName, .closeObject => some ⟨r.frames, .next (.object [])⟩
  | .firstName, .str name => some ⟨r.frames, .colon [] name⟩
  | .name members, .str name => some ⟨r.frames, .colon members name⟩
  | .colon members name, .colon => some ⟨.object members name :: r.frames, .value⟩
  | _, _ => none

def Reading.result : Reading S → Option (Value S)
  | ⟨[], .next value⟩ => some value
  | _ => none

def parse (limit : ℕ) (tokens : List (Token S)) : Option (Value S) :=
  (tokens.foldlM (Reading.step limit) ⟨[], .value⟩).bind Reading.result
end Parsing

/-- `json.loads`, where the interpreter lets `limit` arrays and objects be around one another. -/
def loads (limit : ℕ) (bytes : List UInt8) : Option (Value Spelling) := do
  let text ← decode bytes
  let tokens ← lexer.run .outside text
  parse limit tokens

/-! ## Other strings

The machine does not look into strings, so a function of them can be applied before or after. -/

section Map
variable {S S' : Type} (f : S → S')

def Token.map : Token S → Token S'
  | .openArray => .openArray
  | .closeArray => .closeArray
  | .openObject => .openObject
  | .closeObject => .closeObject
  | .comma => .comma
  | .colon => .colon
  | .atom => .atom
  | .str s => .str (f s)

mutual
def Value.map : Value S → Value S'
  | .atom => .atom
  | .str s => .str (f s)
  | .array items => .array (mapItems items)
  | .object members => .object (mapMembers members)

def mapItems : List (Value S) → List (Value S')
  | [] => []
  | value :: items => value.map :: mapItems items

def mapMembers : List (S × Value S) → List (S' × Value S')
  | [] => []
  | (name, value) :: members => (f name, value.map) :: mapMembers members
end

def Frame.map : Frame S → Frame S'
  | .array items => .array (mapItems f items)
  | .object members name => .object (mapMembers f members) (f name)

def Expect.map : Expect S → Expect S'
  | .value => .value
  | .firstItem => .firstItem
  | .next v => .next (v.map f)
  | .firstName => .firstName
  | .name members => .name (mapMembers f members)
  | .colon members n => .colon (mapMembers f members) (f n)

def Reading.map (r : Reading S) : Reading S' := ⟨r.frames.map (Frame.map f), r.expect.map f⟩

theorem mapItems_eq (items : List (Value S)) : mapItems f items = items.map (Value.map f) := by
  induction items with
  | nil => rfl
  | cons value items ih => rw [mapItems, ih, List.map_cons]

theorem mapMembers_eq (members : List (S × Value S)) :
    mapMembers f members = members.map fun m => (f m.1, m.2.map f) := by
  induction members with
  | nil => rfl
  | cons m members ih => rw [mapMembers, ih, List.map_cons]

theorem beginValue_map (limit : ℕ) (frames : List (Frame S)) (token : Token S) :
    beginValue limit (frames.map (Frame.map f)) (token.map f) =
      (beginValue limit frames token).map (Reading.map f) := by
  cases token with
  | openArray =>
    simp only [beginValue, Token.map, List.length_map]
    split_ifs <;> rfl
  | openObject =>
    simp only [beginValue, Token.map, List.length_map]
    split_ifs <;> rfl
  | _ => rfl

theorem endValue_map (value : Value S) (frames : List (Frame S)) (token : Token S) :
    endValue (value.map f) (frames.map (Frame.map f)) (token.map f) =
      (endValue value frames token).map (Reading.map f) := by
  cases frames with
  | nil => rfl
  | cons frame frames =>
    cases frame with
    | array items =>
      cases token <;> simp [endValue, Token.map, Frame.map, Reading.map, Expect.map, mapItems_eq, Value.map]
    | object members name =>
      cases token <;> simp [endValue, Token.map, Frame.map, Reading.map, Expect.map, mapMembers_eq, Value.map]

theorem step_map (limit : ℕ) (r : Reading S) (token : Token S) :
    (r.map f).step limit (token.map f) = (r.step limit token).map (Reading.map f) := by
  obtain ⟨frames, expect⟩ := r
  cases expect with
  | value => exact beginValue_map f limit frames token
  | firstItem =>
    cases token with
    | closeArray => rfl
    | openArray => exact beginValue_map f limit (.array [] :: frames) .openArray
    | openObject => exact beginValue_map f limit (.array [] :: frames) .openObject
    | _ => rfl
  | next value => exact endValue_map f value frames token
  | firstName => cases token <;> rfl
  | name members => cases token <;> rfl
  | colon members name => cases token <;> rfl

theorem result_map (r : Reading S) : (r.map f).result = r.result.map (Value.map f) := by
  obtain ⟨frames, expect⟩ := r
  cases frames with
  | nil => cases expect <;> rfl
  | cons frame frames => cases expect <;> rfl

theorem parse_map (limit : ℕ) (tokens : List (Token S)) :
    parse limit (tokens.map (Token.map f)) = (parse limit tokens).map (Value.map f) := by
  suffices hfold : ∀ r : Reading S, ((tokens.map (Token.map f)).foldlM (Reading.step limit) (r.map f)).bind
      Reading.result = ((tokens.foldlM (Reading.step limit) r).bind Reading.result).map (Value.map f) from
    hfold ⟨[], .value⟩
  induction tokens with
  | nil => exact result_map f
  | cons token tokens ih =>
    intro r
    rw [List.map_cons, List.foldlM_cons, List.foldlM_cons, step_map]
    cases r.step limit token with
    | none => rfl
    | some next => exact ih next
end Map

/-! ## The tokens of a value

A value that is read has the tokens that it is read of, each in its place. -/

section Tokens
variable {S : Type}

def separated : List (List (Token S)) → List (Token S)
  | [] => []
  | first :: others => first ++ others.flatMap (.comma :: ·)

mutual
def Value.tokens : Value S → List (Token S)
  | .atom => [.atom]
  | .str s => [.str s]
  | .array items => .openArray :: (separated (itemTokens items) ++ [.closeArray])
  | .object members => .openObject :: (separated (memberTokens members) ++ [.closeObject])

def itemTokens : List (Value S) → List (List (Token S))
  | [] => []
  | value :: items => value.tokens :: itemTokens items

def memberTokens : List (S × Value S) → List (List (Token S))
  | [] => []
  | (name, value) :: members => (.str name :: .colon :: value.tokens) :: memberTokens members
end

def followed (parts : List (List (Token S))) : List (Token S) := parts.flatMap (· ++ [.comma])

def Frame.tokens : Frame S → List (Token S)
  | .array items => .openArray :: followed (itemTokens items)
  | .object members name => .openObject :: (followed (memberTokens members) ++ [.str name, .colon])

def Expect.tokens : Expect S → List (Token S)
  | .value => []
  | .firstItem => [.openArray]
  | .next v => v.tokens
  | .firstName => [.openObject]
  | .name members => .openObject :: followed (memberTokens members)
  | .colon members n => .openObject :: (followed (memberTokens members) ++ [.str n])

def Reading.tokens (r : Reading S) : List (Token S) :=
  r.frames.reverse.flatMap Frame.tokens ++ r.expect.tokens

theorem itemTokens_append (items items' : List (Value S)) :
    itemTokens (items ++ items') = itemTokens items ++ itemTokens items' := by
  induction items with
  | nil => rfl
  | cons value items ih => rw [List.cons_append, itemTokens, itemTokens, ih, List.cons_append]

theorem memberTokens_append (members members' : List (S × Value S)) :
    memberTokens (members ++ members') = memberTokens members ++ memberTokens members' := by
  induction members with
  | nil => rfl
  | cons m members ih => rw [List.cons_append, memberTokens, memberTokens, ih, List.cons_append]

theorem separated_append (parts : List (List (Token S))) (part : List (Token S)) :
    separated (parts ++ [part]) = followed parts ++ part := by
  cases parts with
  | nil => simp [separated, followed]
  | cons first others =>
    simp only [separated, followed, List.cons_append, List.flatMap_append, List.flatMap_cons,
      List.flatMap_nil, List.append_nil]
    induction others generalizing first with
    | nil => simp
    | cons second others ih =>
      simp only [List.flatMap_cons, List.append_assoc, List.cons_append, List.nil_append] at ih ⊢
      rw [ih second]

theorem followed_append (parts : List (List (Token S))) (part : List (Token S)) :
    followed (parts ++ [part]) = followed parts ++ part ++ [.comma] := by
  simp [followed]

theorem beginValue_tokens {limit : ℕ} {frames : List (Frame S)} {token : Token S} {r : Reading S}
    (h : beginValue limit frames token = some r) :
    r.tokens = frames.reverse.flatMap Frame.tokens ++ [token] := by
  cases token with
  | openArray =>
    simp only [beginValue] at h
    split_ifs at h
    obtain rfl := Option.some.inj h
    rfl
  | openObject =>
    simp only [beginValue] at h
    split_ifs at h
    obtain rfl := Option.some.inj h
    rfl
  | atom =>
    obtain rfl := Option.some.inj h
    rfl
  | str s =>
    obtain rfl := Option.some.inj h
    rfl
  | _ => cases h

theorem endValue_tokens {value : Value S} {frames : List (Frame S)} {token : Token S} {r : Reading S}
    (h : endValue value frames token = some r) :
    r.tokens = frames.reverse.flatMap Frame.tokens ++ value.tokens ++ [token] := by
  cases frames with
  | nil => cases h
  | cons frame frames =>
    cases frame with
    | array items =>
      cases token with
      | comma =>
        obtain rfl := Option.some.inj h
        simp [Reading.tokens, Frame.tokens, Expect.tokens, itemTokens_append, itemTokens, followed_append]
      | closeArray =>
        obtain rfl := Option.some.inj h
        simp [Reading.tokens, Frame.tokens, Expect.tokens, Value.tokens, itemTokens_append, itemTokens,
          separated_append]
      | _ => cases h
    | object members name =>
      cases token with
      | comma =>
        obtain rfl := Option.some.inj h
        simp [Reading.tokens, Frame.tokens, Expect.tokens, memberTokens_append, memberTokens, followed_append]
      | closeObject =>
        obtain rfl := Option.some.inj h
        simp [Reading.tokens, Frame.tokens, Expect.tokens, Value.tokens, memberTokens_append, memberTokens,
          separated_append]
      | _ => cases h

theorem firstItem_tokens (limit : ℕ) (frames : List (Frame S)) (token : Token S) {r : Reading S}
    (h : beginValue limit (.array [] :: frames) token = some r) :
    r.tokens = (Reading.mk frames .firstItem).tokens ++ [token] := by
  rw [beginValue_tokens h]
  simp [Reading.tokens, Expect.tokens, Frame.tokens, itemTokens, followed]

theorem step_tokens {limit : ℕ} {r r' : Reading S} {token : Token S} (h : r.step limit token = some r') :
    r'.tokens = r.tokens ++ [token] := by
  obtain ⟨frames, expect⟩ := r
  cases expect with
  | value => simpa [Reading.tokens, Expect.tokens] using beginValue_tokens h
  | firstItem =>
    cases token with
    | closeArray =>
      obtain rfl := Option.some.inj h
      simp [Reading.tokens, Expect.tokens, Value.tokens, itemTokens, separated]
    | openArray => exact firstItem_tokens limit frames .openArray h
    | openObject => exact firstItem_tokens limit frames .openObject h
    | atom => exact firstItem_tokens limit frames .atom h
    | str s => exact firstItem_tokens limit frames (.str s) h
    | _ => cases h
  | next value => exact endValue_tokens h
  | firstName =>
    cases token with
    | closeObject =>
      obtain rfl := Option.some.inj h
      simp [Reading.tokens, Expect.tokens, Value.tokens, memberTokens, separated]
    | str name =>
      obtain rfl := Option.some.inj h
      simp [Reading.tokens, Expect.tokens, memberTokens, followed]
    | _ => cases h
  | name members =>
    cases token with
    | str name =>
      obtain rfl := Option.some.inj h
      simp [Reading.tokens, Expect.tokens]
    | _ => cases h
  | colon members name =>
    cases token with
    | colon =>
      obtain rfl := Option.some.inj h
      simp [Reading.tokens, Expect.tokens, Frame.tokens]
    | _ => cases h

theorem steps_tokens {limit : ℕ} {tokens : List (Token S)} {r r' : Reading S}
    (h : tokens.foldlM (Reading.step limit) r = some r') : r'.tokens = r.tokens ++ tokens := by
  induction tokens generalizing r with
  | nil =>
    obtain rfl := Option.some.inj h
    rw [List.append_nil]
  | cons token tokens ih =>
    rw [List.foldlM_cons] at h
    obtain ⟨next, hstep, hrest⟩ := Option.bind_eq_some_iff.mp h
    rw [ih hrest, step_tokens hstep, List.append_assoc, List.singleton_append]

theorem parse_tokens {limit : ℕ} {tokens : List (Token S)} {value : Value S}
    (h : parse limit tokens = some value) : tokens = value.tokens := by
  obtain ⟨⟨frames, expect⟩, hfold, hresult⟩ := Option.bind_eq_some_iff.mp h
  have htokens := steps_tokens hfold
  cases frames with
  | cons frame frames => cases expect <;> cases hresult
  | nil =>
    cases expect with
    | next v =>
      obtain rfl := Option.some.inj hresult
      exact htokens.symm
    | _ => cases hresult
end Tokens

/-! ## In a string -/

section Strings
variable {within : Within} {pieces : Spelling} {text part : Text} {tokens : List (Token Spelling)}

/-- A step in a string ends it, or adds what does not depend on what there is. -/
theorem step_string {c : ℕ} {now : List (Token Spelling)} {s : Lexing}
    (h : lexer.step (.string within pieces) c = some (now, s)) :
    (within = .plain ∧ c = 0x22 ∧ now = [.str pieces] ∧ s = .outside) ∨
    ∃ within' added, now = [] ∧ s = .string within' (pieces ++ added) ∧
      ∀ pieces', lexer.step (.string within pieces') c = some ([], .string within' (pieces' ++ added)) := by
  cases within with
  | plain =>
    simp only [lexer, Lexing.step] at h
    split_ifs at h with hquote hbackslash hcontrol
    · obtain ⟨rfl, rfl⟩ := Prod.mk.inj (Option.some.inj h)
      exact .inl ⟨rfl, hquote, rfl, rfl⟩
    · obtain ⟨rfl, rfl⟩ := Prod.mk.inj (Option.some.inj h)
      exact .inr ⟨.backslash, [], rfl, by simp, fun pieces' => by simp [lexer, Lexing.step, hbackslash]⟩
    · obtain ⟨rfl, rfl⟩ := Prod.mk.inj (Option.some.inj h)
      exact .inr ⟨.plain, [.literal c], rfl, rfl,
        fun pieces' => by simp [lexer, Lexing.step, hquote, hbackslash, hcontrol]⟩
  | backslash =>
    simp only [lexer, Lexing.step] at h
    split_ifs at h with hunicode
    · obtain ⟨rfl, rfl⟩ := Prod.mk.inj (Option.some.inj h)
      exact .inr ⟨.hex 3 0, [], rfl, by simp, fun pieces' => by simp [lexer, Lexing.step, hunicode]⟩
    · obtain ⟨d, hd, hnext⟩ := Option.map_eq_some_iff.mp h
      obtain ⟨rfl, rfl⟩ := Prod.mk.inj hnext
      exact .inr ⟨.plain, [.short d], rfl, rfl, fun pieces' => by simp [lexer, Lexing.step, hunicode, hd]⟩
  | hex more value =>
    simp only [lexer, Lexing.step] at h
    obtain ⟨d, hd, hnext⟩ := Option.map_eq_some_iff.mp h
    obtain ⟨rfl, rfl⟩ := Prod.mk.inj hnext
    by_cases hmore : more = 0
    · exact .inr ⟨.plain, [.escape (value * 16 + d)], rfl, if_pos hmore,
        fun pieces' => by simp [lexer, Lexing.step, hd, hmore]⟩
    · exact .inr ⟨.hex (more - 1) (value * 16 + d), [], rfl, by simp [hmore],
        fun pieces' => by simp [lexer, Lexing.step, hd, hmore]⟩

theorem run_string (h : lexer.run (.string within pieces) text = some tokens) :
    ∃ more others, tokens = .str (pieces ++ more) :: others ∧
      ∀ pieces', lexer.run (.string within pieces') text = some (.str (pieces' ++ more) :: others) := by
  induction text generalizing within pieces tokens with
  | nil => cases h
  | cons c text ih =>
    obtain ⟨now, s, later, hstep, hrun, rfl⟩ := Transducer.run_cons_iff.mp h
    rcases step_string hstep with ⟨rfl, rfl, rfl, rfl⟩ | ⟨within', added, rfl, rfl, hsame⟩
    · refine ⟨[], later, by simp, fun pieces' => ?_⟩
      exact Transducer.run_cons_iff.mpr ⟨[.str pieces'], .outside, later, rfl, hrun, by simp⟩
    · obtain ⟨more, others, rfl, hmore⟩ := ih hrun
      refine ⟨added ++ more, others, by simp, fun pieces' => ?_⟩
      exact Transducer.run_cons_iff.mpr ⟨_, _, _, hsame pieces', hmore _, by simp⟩

theorem feed_literal (h : ∀ c ∈ part, 0x20 ≤ c ∧ c ≠ 0x22 ∧ c ≠ 0x5C) :
    lexer.feed (.string .plain pieces) part = some ([], .string .plain (pieces ++ literal part)) := by
  induction part generalizing pieces with
  | nil => simp [literal]
  | cons c part ih =>
    obtain ⟨⟨hcontrol, hquote, hbackslash⟩, hpart⟩ := List.forall_mem_cons.mp h
    have hstep : lexer.step (.string .plain pieces) c = some ([], .string .plain (pieces ++ [.literal c])) := by
      simp [lexer, Lexing.step, hquote, hbackslash, Nat.not_lt.mpr hcontrol]
    have hrest : lexer.feed (.string .plain (pieces ++ [.literal c])) part =
        some ([], .string .plain (pieces ++ [.literal c] ++ literal part)) := ih hpart
    rw [List.append_assoc] at hrest
    exact Transducer.feed_cons_iff.mpr ⟨[], _, [], hstep, hrest, rfl⟩

theorem isAtomCharacter_lt {c : ℕ} (h : isAtomCharacter c = true) : c < 0x80 := by
  have hall : ∀ d ∈ codes (lit "+-.0123456789truefalsenullNaNInfinityE"), d < 0x80 := by decide
  exact hall c (List.contains_iff_mem.mp h)

theorem punctuation_lt {c : ℕ} {token : Token Spelling} (h : punctuation c = some token) : c < 0x80 := by
  unfold punctuation at h
  split at h
  any_goals omega
  cases h

theorem shortEscape_lt {c d : ℕ} (h : shortEscape c = some d) : c < 0x80 := by
  unfold shortEscape at h
  split at h
  any_goals omega
  cases h

theorem hexValue_lt {c d : ℕ} (h : hexValue c = some d) : c < 0x80 := by
  unfold hexValue at h
  split_ifs at h <;> omega

theorem startToken_lt {c : ℕ} {s : Lexing} (h : startToken c = some (tokens, s)) : c < 0x80 := by
  unfold startToken at h
  split_ifs at h with hspace hquote hatom
  · simp only [isSpace, Bool.or_eq_true, decide_eq_true_eq] at hspace
    omega
  · omega
  · exact isAtomCharacter_lt hatom
  · cases hpunctuation : punctuation c with
    | some token => exact punctuation_lt hpunctuation
    | none =>
      rw [hpunctuation] at h
      cases h

theorem step_wide {s s' : Lexing} {c : ℕ} (hc : 0x80 ≤ c) (h : lexer.step s c = some (tokens, s')) :
    ∃ pieces, s = .string .plain pieces := by
  cases s with
  | outside => exact absurd (startToken_lt h) (Nat.not_lt.mpr hc)
  | atom written =>
    simp only [lexer, Lexing.step] at h
    split_ifs at h with hatom hwritten
    · exact absurd (isAtomCharacter_lt hatom) (Nat.not_lt.mpr hc)
    · obtain ⟨⟨now, s⟩, hstart, -⟩ := Option.map_eq_some_iff.mp h
      exact absurd (startToken_lt hstart) (Nat.not_lt.mpr hc)
  | string within pieces =>
    cases within with
    | plain => exact ⟨pieces, rfl⟩
    | backslash =>
      simp only [lexer, Lexing.step] at h
      split_ifs at h with hunicode
      · omega
      · obtain ⟨d, hd, -⟩ := Option.map_eq_some_iff.mp h
        exact absurd (shortEscape_lt hd) (Nat.not_lt.mpr hc)
    | hex more value =>
      obtain ⟨d, hd, -⟩ := Option.map_eq_some_iff.mp h
      exact absurd (hexValue_lt hd) (Nat.not_lt.mpr hc)

end Strings

/-! ## A field in a text

A regular expression for bytes finds `"value"`, a colon and a string of 64 digits. In UTF-8 they are
three tokens, where the first can be the end of a longer name, and in UTF-16 they are a part of
a string. -/

section Field

def isBlank (b : UInt8) : Bool := b = 0x20 || (0x09 ≤ b && b ≤ 0x0D)

def valueName : List UInt8 := lit "value"

/-- The bytes before the digits, but for the quote. -/
structure Lead where
  before : List UInt8
  after : List UInt8
  before_blank : ∀ b ∈ before, isBlank b = true
  after_blank : ∀ b ∈ after, isBlank b = true

def Lead.bytes (lead : Lead) : List UInt8 :=
  0x22 :: (valueName ++ 0x22 :: (lead.before ++ 0x3A :: lead.after))

theorem isBlank_cases {b : UInt8} (h : isBlank b = true) :
    b = 0x20 ∨ b = 0x09 ∨ b = 0x0A ∨ b = 0x0B ∨ b = 0x0C ∨ b = 0x0D := by
  simp only [isBlank, Bool.or_eq_true, Bool.and_eq_true, decide_eq_true_eq, UInt8.le_iff_toNat_le] at h
  rcases h with h | ⟨hlow, hhigh⟩
  · exact .inl h
  · simp only [← UInt8.toNat_inj]
    simp at hlow hhigh ⊢
    omega

theorem Lead.plain (lead : Lead) : ∀ b ∈ lead.bytes, Plain b := by
  have hblank {b : UInt8} (h : isBlank b = true) : Plain b := by
    rcases isBlank_cases h with rfl | rfl | rfl | rfl | rfl | rfl <;> exact ⟨by decide, by decide⟩
  have hname : ∀ b ∈ valueName, Plain b := by
    have hall : ∀ b ∈ valueName, b ≠ 0 ∧ b < 0x80 := by decide +kernel
    exact fun b hb => ⟨(hall b hb).1, (hall b hb).2⟩
  intro b hb
  simp only [Lead.bytes, List.mem_cons, List.mem_append] at hb
  rcases hb with rfl | hb | rfl | hb | rfl | hb
  · exact ⟨by decide, by decide⟩
  · exact hname b hb
  · exact ⟨by decide, by decide⟩
  · exact hblank (lead.before_blank b hb)
  · exact ⟨by decide, by decide⟩
  · exact hblank (lead.after_blank b hb)

theorem mem_decoded {c : ℕ} {pieces : Spelling} (h : .literal c ∈ pieces ∨ .short c ∈ pieces) :
    c ∈ decoded pieces := by
  fun_induction decoded pieces with
  | case1 => simp at h
  | case2 d rest ih => simp at h ⊢; grind
  | case3 d rest ih => simp at h ⊢; grind
  | case4 n => simp at h
  | case5 high low rest hpair ih => simp at h ⊢; grind
  | case6 high low rest hpair ih => simp at h ih ⊢; grind
  | case7 n rest hrest hnil ih => simp at h ⊢; grind

theorem decoded_literal (text : Text) : decoded (literal text) = text := by
  induction text with
  | nil => rfl
  | cons c text ih =>
    rw [literal, List.map_cons, decoded]
    exact congrArg _ ih

variable {s s' : Lexing} {o : List (Token Spelling)}

theorem feed_blank {blanks : List UInt8} (hblank : ∀ b ∈ blanks, isBlank b = true)
    (h : lexer.feed .outside (codes blanks) = some (o, s')) : o = [] ∧ s' = .outside := by
  induction blanks generalizing o with
  | nil =>
    obtain ⟨rfl, rfl⟩ := Prod.mk.inj (Option.some.inj h)
    exact ⟨rfl, rfl⟩
  | cons b blanks ih =>
    obtain ⟨hb, hblanks⟩ := List.forall_mem_cons.mp hblank
    obtain ⟨now, t, later, hstep, hfeed, rfl⟩ := Transducer.feed_cons_iff.mp h
    have hnow : now = [] ∧ t = .outside := by
      have hspace {c : ℕ} (hc : isSpace c = true) (h : lexer.step .outside c = some (now, t)) :
          now = [] ∧ t = .outside := by
        simp only [lexer, Lexing.step, startToken, if_pos hc] at h
        obtain ⟨rfl, rfl⟩ := Prod.mk.inj (Option.some.inj h)
        exact ⟨rfl, rfl⟩
      have hvertical : startToken 0x0B = none := by decide
      have hform : startToken 0x0C = none := by decide
      rcases isBlank_cases hb with rfl | rfl | rfl | rfl | rfl | rfl
      · exact hspace rfl hstep
      · exact hspace rfl hstep
      · exact hspace rfl hstep
      · exact absurd (hvertical.symm.trans hstep) nofun
      · exact absurd (hform.symm.trans hstep) nofun
      · exact hspace rfl hstep
    obtain ⟨rfl, rfl⟩ := hnow
    exact ih hblanks hfeed

/-- The name ends with `value`. It is no more than that, or a quote is in it. -/
def EndsName (name : Spelling) : Prop := name = literal (codes valueName) ∨ 0x22 ∈ decoded name

theorem step_quote_letter {now : List (Token Spelling)} (hquote : lexer.step s 0x22 = some (now, s'))
    {t : Lexing} (hletter : lexer.step s' 0x76 = some (o, t)) :
    ∃ pieces, s' = .string .plain pieces ∧ (pieces = [] ∨ .short 0x22 ∈ pieces) := by
  have hletter' : startToken 0x76 = none := by decide
  have hstart {s' : Lexing} (h : startToken 0x22 = some (now, s')) : s' = .string .plain [] := by
    have hopen : startToken 0x22 = some ([], .string .plain []) := rfl
    exact (Prod.mk.inj (Option.some.inj (hopen.symm.trans h))).2.symm
  cases s with
  | outside => exact ⟨[], hstart hquote, .inl rfl⟩
  | atom written =>
    have hnot : isAtomCharacter 0x22 = false := by decide
    simp only [lexer, Lexing.step, hnot, Bool.false_eq_true, if_false] at hquote
    split_ifs at hquote
    obtain ⟨rfl, rfl⟩ := Prod.mk.inj (Option.some.inj hquote)
    exact ⟨[], rfl, .inl rfl⟩
  | string within pieces =>
    cases within with
    | plain =>
      obtain ⟨rfl, rfl⟩ := Prod.mk.inj (Option.some.inj hquote)
      exact absurd (hletter'.symm.trans hletter) nofun
    | backslash =>
      obtain ⟨rfl, rfl⟩ := Prod.mk.inj (Option.some.inj hquote)
      exact ⟨_, rfl, .inr (by simp)⟩
    | hex more value => cases hquote

theorem codes_lead (lead : Lead) : codes (lead.bytes ++ [0x22]) =
    0x22 :: (codes valueName ++ 0x22 :: (codes lead.before ++ 0x3A :: (codes lead.after ++ [0x22]))) := by
  simp [codes, Lead.bytes]

theorem feed_lead (lead : Lead) (h : lexer.feed s (codes (lead.bytes ++ [0x22])) = some (o, s')) :
    ∃ before name, o = before ++ [.str name, .colon] ∧ EndsName name ∧ s' = .string .plain [] := by
  have hname : codes valueName = [0x76, 0x61, 0x6C, 0x75, 0x65] := by decide
  rw [codes_lead] at h
  obtain ⟨before, s₁, o₁, hquote, h₁, rfl⟩ := Transducer.feed_cons_iff.mp h
  obtain ⟨o₂, s₂, o₃, hletters, h₂, rfl⟩ := Transducer.feed_append_iff.mp h₁
  obtain ⟨pieces, rfl, hpieces⟩ : ∃ pieces, s₁ = .string .plain pieces ∧ (pieces = [] ∨ .short 0x22 ∈ pieces) := by
    rw [hname] at hletters
    obtain ⟨_, _, _, hletter, -, -⟩ := Transducer.feed_cons_iff.mp hletters
    exact step_quote_letter hquote hletter
  have hliteral : lexer.feed (.string .plain pieces) (codes valueName) =
      some ([], .string .plain (pieces ++ literal (codes valueName))) :=
    feed_literal (by rw [hname]; decide)
  obtain ⟨rfl, rfl⟩ := Prod.mk.inj (Option.some.inj (hliteral.symm.trans hletters))
  obtain ⟨o₄, s₃, o₅, hclose, h₃, rfl⟩ := Transducer.feed_cons_iff.mp h₂
  obtain ⟨rfl, rfl⟩ := Prod.mk.inj (Option.some.inj hclose)
  obtain ⟨o₆, s₄, o₇, hblank, h₄, rfl⟩ := Transducer.feed_append_iff.mp h₃
  obtain ⟨rfl, rfl⟩ := feed_blank lead.before_blank hblank
  obtain ⟨o₈, s₅, o₉, hcolon, h₅, rfl⟩ := Transducer.feed_cons_iff.mp h₄
  obtain ⟨rfl, rfl⟩ := Prod.mk.inj (Option.some.inj hcolon)
  obtain ⟨o₁₀, s₆, o₁₁, hblank', h₆, rfl⟩ := Transducer.feed_append_iff.mp h₅
  obtain ⟨rfl, rfl⟩ := feed_blank lead.after_blank hblank'
  obtain ⟨o₁₂, s₇, o₁₃, hopen, h₇, rfl⟩ := Transducer.feed_cons_iff.mp h₆
  obtain ⟨rfl, rfl⟩ := Prod.mk.inj (Option.some.inj hopen)
  obtain ⟨rfl, rfl⟩ := Prod.mk.inj (Option.some.inj h₇)
  refine ⟨before, pieces ++ literal (codes valueName), by simp, ?_, rfl⟩
  rcases hpieces with rfl | hmem
  · exact .inl rfl
  · exact .inr (mem_decoded (.inr (List.mem_append_left _ hmem)))

variable {tokens : List (Token Spelling)} {first last : Text}

/-- In UTF-8 the digits are a whole string after such a name. -/
theorem run_field (lead : Lead) {part : List UInt8} (hpart : ∀ c ∈ codes part, 0x20 ≤ c ∧ c ≠ 0x22 ∧ c ≠ 0x5C)
    (h : lexer.run .outside (first ++ codes (lead.bytes ++ (0x22 :: part ++ [0x22])) ++ last) = some tokens) :
    ∃ before name after, EndsName name ∧ ∀ part' : List UInt8,
      (∀ c ∈ codes part', 0x20 ≤ c ∧ c ≠ 0x22 ∧ c ≠ 0x5C) →
      lexer.run .outside (first ++ codes (lead.bytes ++ (0x22 :: part' ++ [0x22])) ++ last) =
        some (before ++ .str name :: .colon :: .str (literal (codes part')) :: after) := by
  have hsplit (part' : List UInt8) : first ++ codes (lead.bytes ++ (0x22 :: part' ++ [0x22])) ++ last =
      first ++ codes (lead.bytes ++ [0x22]) ++ (codes part' ++ 0x22 :: last) := by simp [codes]
  simp only [hsplit] at h ⊢
  obtain ⟨outer, s, now, t, rest, hfirst, hlead, hrest, -⟩ := Transducer.run_parts_iff.mp h
  obtain ⟨before, name, rfl, hname, rfl⟩ := feed_lead lead hlead
  obtain ⟨_, _, later, hfield, hlast, -⟩ := Transducer.run_append_iff.mp hrest
  obtain ⟨rfl, rfl⟩ := Prod.mk.inj (Option.some.inj ((feed_literal hpart).symm.trans hfield))
  obtain ⟨_, _, after, hclose, hafter, -⟩ := Transducer.run_cons_iff.mp hlast
  obtain ⟨rfl, rfl⟩ := Prod.mk.inj (Option.some.inj hclose)
  refine ⟨outer ++ before, name, after, hname, fun part' hpart' => ?_⟩
  have hrun : lexer.run (.string .plain []) (codes part' ++ 0x22 :: last) =
      some (.str (literal (codes part')) :: after) := by
    refine Transducer.run_append_iff.mpr ⟨[], _, _, feed_literal hpart', ?_, rfl⟩
    exact Transducer.run_cons_iff.mpr ⟨_, _, _, rfl, hafter, rfl⟩
  exact Transducer.run_parts_iff.mpr ⟨_, _, _, _, _, hfirst, hlead, hrun, by simp⟩

/-- Characters beyond ASCII are a part of a string. -/
theorem run_wide {wide : Text} (hne : wide ≠ []) (hwide : ∀ c ∈ wide, 0x80 ≤ c)
    (h : lexer.run .outside (first ++ wide ++ last) = some tokens) :
    ∃ before pieces more after, ∀ wide' : Text, (∀ c ∈ wide', 0x80 ≤ c) →
      lexer.run .outside (first ++ wide' ++ last) =
        some (before ++ .str (pieces ++ literal wide' ++ more) :: after) := by
  have hliteral {wide' : Text} (hwide' : ∀ c ∈ wide', 0x80 ≤ c) :
      ∀ c ∈ wide', 0x20 ≤ c ∧ c ≠ 0x22 ∧ c ≠ 0x5C := by
    intro c hc
    have := hwide' c hc
    omega
  obtain ⟨before, s, now, t, rest, hfirst, hnow, hlast, -⟩ := Transducer.run_parts_iff.mp h
  obtain ⟨pieces, rfl⟩ : ∃ pieces, s = .string .plain pieces := by
    obtain ⟨c, text, rfl⟩ := List.exists_cons_of_ne_nil hne
    obtain ⟨_, _, _, hstep, -, -⟩ := Transducer.feed_cons_iff.mp hnow
    exact step_wide (hwide c (List.mem_cons_self ..)) hstep
  obtain ⟨rfl, rfl⟩ := Prod.mk.inj (Option.some.inj ((feed_literal (hliteral hwide)).symm.trans hnow))
  obtain ⟨more, after, -, hmore⟩ := run_string hlast
  refine ⟨before, pieces, more, after, fun wide' hwide' => ?_⟩
  exact Transducer.run_parts_iff.mpr ⟨_, _, _, _, _, hfirst, feed_literal (hliteral hwide'), hmore _, by simp⟩
end Field

end SubscriptionRouter.PythonJson
