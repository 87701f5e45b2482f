import SubscriptionRouter.GoText

set_option autoImplicit false

/-!
# JSON documents as `encoding/json` writes and reads them

`render` is the encoder (compact for `Marshal`, laid out for `MarshalIndent`),
`parse` the strict reader of one document with nothing after it. Both work on
the units of `GoText`. A string that is written reads back with its ill-formed
bytes replaced. The reader is one of a family, which differ in what they make of
the parts of a string that are no characters.
-/
namespace SubscriptionRouter.JsonText
open GoText

inductive Json where
  | null
  | bool (b : Bool)
  | number (literal : GoString)
  | string (s : GoString)
  | array (elements : List Json)
  | object (members : List (GoString × Json))

abbrev Text := List GoString

def chars (s : String) : Text := (lit s).map fun b => [b]

/-! ## Writing -/

def hex4 (n : ℕ) : Text :=
  [[hexDigit (n / 0x1000 % 16)], [hexDigit (n / 0x100 % 16)], [hexDigit (n / 0x10 % 16)],
    [hexDigit (n % 16)]]

def unicodeEscape (n : ℕ) : Text := chars "\\u" ++ hex4 n

/-- The ASCII bytes outside the encoder's safe set that have no short escape:
control bytes and the three that matter inside HTML. -/
def escapedByte (u : GoString) : Option UInt8 :=
  match u with
  | [b] => if b < 0x20 || b = 0x3C || b = 0x3E || b = 0x26 then some b else none
  | _ => none

/-- One unit of a string, with the escapes that keep the text safe inside HTML. -/
def quoteUnit (u : GoString) : Text :=
  if badUnit u then unicodeEscape 0xFFFD
  else if u = lit "\"" then chars "\\\""
  else if u = lit "\\" then chars "\\\\"
  else if u = [0x08] then chars "\\b"
  else if u = [0x0C] then chars "\\f"
  else if u = [0x0A] then chars "\\n"
  else if u = [0x0D] then chars "\\r"
  else if u = [0x09] then chars "\\t"
  else if u = [0xE2, 0x80, 0xA8] then unicodeEscape 0x2028
  else if u = [0xE2, 0x80, 0xA9] then unicodeEscape 0x2029
  else match escapedByte u with
    | some b => unicodeEscape b.toNat
    | none => [u]

theorem quoteUnit_shape {P : Text → Prop} (u : GoString) (hescape : ∀ n, P (unicodeEscape n))
    (hshort : ∀ s ∈ ["\\\"", "\\\\", "\\b", "\\f", "\\n", "\\r", "\\t"], P (chars s))
    (hplain : badUnit u = false → P [u]) : P (quoteUnit u) := by
  have heither : ∀ {c : Prop} [Decidable c] {a b : Text}, P a → P b → P (if c then a else b) := by
    intro c _ a b ha hb
    split
    · exact ha
    · exact hb
  unfold quoteUnit
  by_cases hbad : badUnit u = true
  · rw [if_pos hbad]
    exact hescape _
  rw [if_neg hbad]
  iterate 7 refine heither (hshort _ (by simp)) ?_
  iterate 2 refine heither (hescape _) ?_
  cases escapedByte u with
  | some b => exact hescape _
  | none => exact hplain (by simpa using hbad)

def quote (s : GoString) : Text := chars "\"" ++ (units s).flatMap quoteUnit ++ chars "\""

def isBlank (u : GoString) : Bool :=
  u = [0x20] || u = [0x09] || u = [0x0A] || u = [0x0D]

/-- The white space of a document: a line break before each element and member
and after the last, and what stands between the colon and a value. -/
structure Layout where
  newline : ℕ → Text
  gap : Text
  newline_blank : ∀ level, ∀ u ∈ newline level, isBlank u = true
  gap_blank : ∀ u ∈ gap, isBlank u = true

def compact : Layout := ⟨fun _ => [], [], by simp, by simp⟩

/-- `MarshalIndent(v, "", "  ")`. -/
def indented : Layout where
  newline level := [0x0A] :: List.replicate (2 * level) [0x20]
  gap := [[0x20]]
  newline_blank level u hu := by
    rcases List.mem_cons.mp hu with rfl | hu
    · decide
    · rw [List.eq_of_mem_replicate hu]
      decide
  gap_blank u hu := by
    rw [List.mem_singleton.mp hu]
    decide

mutual
def render (ly : Layout) (level : ℕ) : Json → Text
  | .null => chars "null"
  | .bool true => chars "true"
  | .bool false => chars "false"
  | .number literal => literal.map fun b => [b]
  | .string s => quote s
  | .array [] => chars "[]"
  | .array (v :: vs) =>
    chars "[" ++ ly.newline (level + 1) ++ render ly (level + 1) v ++ renderElements ly level vs
  | .object [] => chars "{}"
  | .object ((k, v) :: ms) =>
    chars "\x7b" ++ ly.newline (level + 1) ++ quote k ++ chars ":" ++ ly.gap ++
      render ly (level + 1) v ++ renderMembers ly level ms

def renderElements (ly : Layout) (level : ℕ) : List Json → Text
  | [] => ly.newline level ++ chars "]"
  | v :: vs =>
    chars "," ++ ly.newline (level + 1) ++ render ly (level + 1) v ++ renderElements ly level vs

def renderMembers (ly : Layout) (level : ℕ) : List (GoString × Json) → Text
  | [] => ly.newline level ++ chars "\x7d"
  | (k, v) :: ms =>
    chars "," ++ ly.newline (level + 1) ++ quote k ++ chars ":" ++ ly.gap ++
      render ly (level + 1) v ++ renderMembers ly level ms
end

/-- `json.Marshal`. -/
def marshal (v : Json) : GoString := (render compact 0 v).flatten

/-- `json.MarshalIndent` with no prefix and two spaces. -/
def marshalIndent (v : Json) : GoString := (render indented 0 v).flatten

/-! ## Reading -/

inductive Token where
  | openBrace | closeBrace | openBracket | closeBracket | colon | comma
  | null | true | false
  | number (literal : GoString)
  | string (s : GoString)

def hexValue (u : GoString) : Option ℕ :=
  match u with
  | [b] =>
    if 0x30 ≤ b && b ≤ 0x39 then some (b.toNat - 0x30)
    else if 0x61 ≤ b && b ≤ 0x66 then some (b.toNat - 0x57)
    else if 0x41 ≤ b && b ≤ 0x46 then some (b.toNat - 0x37)
    else none
  | _ => none

/-- `utf8.AppendRune`. -/
def encodeRune (n : ℕ) : GoString :=
  if n < 0x80 then [UInt8.ofNat n]
  else if n < 0x800 then [UInt8.ofNat (0xC0 + n / 0x40), UInt8.ofNat (0x80 + n % 0x40)]
  else if 0xD800 ≤ n ∧ n < 0xE000 then runeError
  else if n < 0x10000 then
    [UInt8.ofNat (0xE0 + n / 0x1000), UInt8.ofNat (0x80 + n / 0x40 % 0x40),
      UInt8.ofNat (0x80 + n % 0x40)]
  else
    [UInt8.ofNat (0xF0 + n / 0x40000), UInt8.ofNat (0x80 + n / 0x1000 % 0x40),
      UInt8.ofNat (0x80 + n / 0x40 % 0x40), UInt8.ofNat (0x80 + n % 0x40)]

/-- What follows a backslash, other than `u`. -/
def simpleEscape (u : GoString) : Option GoString :=
  if u = lit "\"" ∨ u = lit "\\" ∨ u = lit "/" then some u
  else if u = lit "b" then some [0x08]
  else if u = lit "f" then some [0x0C]
  else if u = lit "n" then some [0x0A]
  else if u = lit "r" then some [0x0D]
  else if u = lit "t" then some [0x09]
  else none

/-- Where the reader of a string stands: between characters, after a backslash,
or inside a `\u` escape with so many digits to come. -/
inductive StringState where
  | plain
  | escape
  | hex (left acc : ℕ)

def isSurrogate (n : ℕ) : Bool := 0xD800 ≤ n && n < 0xE000

/-- What a reader makes of a surrogate that nothing completes, and of an ill-formed byte. -/
structure Repair where
  surrogate : ℕ → GoString
  byte : GoString → GoString

/-- The decoder of `encoding/json` reads both as U+FFFD. -/
def replacing : Repair := ⟨fun _ => runeError, fun _ => runeError⟩

def Repair.unit (repair : Repair) (u : GoString) : GoString := if badUnit u then repair.byte u else u

/-- The encoding of an escape, given the surrogate the previous escape left open;
a surrogate waits for the escape after it. -/
def closeEscape (repair : Repair) (pending : Option ℕ) (n : ℕ) : GoString × Option ℕ :=
  match pending with
  | some hi =>
    if 0xD800 ≤ hi ∧ hi < 0xDC00 ∧ 0xDC00 ≤ n ∧ n < 0xE000 then
      (encodeRune (0x10000 + (hi - 0xD800) * 0x400 + (n - 0xDC00)), none)
    else if isSurrogate n then (repair.surrogate hi, some n)
    else (repair.surrogate hi ++ encodeRune n, none)
  | none => if isSurrogate n then ([], some n) else (encodeRune n, none)

def flushSurrogate (repair : Repair) : Option ℕ → GoString
  | some hi => repair.surrogate hi
  | none => []

def isControl (u : GoString) : Bool :=
  match u with
  | [b] => b < 0x20
  | _ => false

/-- The rest of a string literal: its value and the text after the closing quote. -/
def unquote (repair : Repair) : StringState → Option ℕ → Text → Option (GoString × Text)
  | _, _, [] => none
  | .plain, pending, u :: t =>
    if u = lit "\"" then some (flushSurrogate repair pending, t)
    else if u = lit "\\" then unquote repair .escape pending t
    else if isControl u then none
    else (unquote repair .plain none t).map fun r =>
      (flushSurrogate repair pending ++ repair.unit u ++ r.1, r.2)
  | .escape, pending, u :: t =>
    if u = lit "u" then unquote repair (.hex 3 0) pending t
    else match simpleEscape u with
      | none => none
      | some e => (unquote repair .plain none t).map fun r =>
        (flushSurrogate repair pending ++ e ++ r.1, r.2)
  | .hex left acc, pending, u :: t =>
    match hexValue u, left with
    | none, _ => none
    | some d, k + 1 => unquote repair (.hex k (acc * 16 + d)) pending t
    | some d, 0 =>
      let closed := closeEscape repair pending (acc * 16 + d)
      (unquote repair .plain closed.2 t).map fun r => (closed.1 ++ r.1, r.2)

def isNumberUnit (u : GoString) : Bool :=
  match u with
  | [b] => 0x30 ≤ b && b ≤ 0x39 || b = 0x2B || b = 0x2D || b = 0x2E || b = 0x45 || b = 0x65
  | _ => false

def isDigit (b : UInt8) : Bool := 0x30 ≤ b && b ≤ 0x39

def dropExponent (s : GoString) : Bool :=
  match s with
  | [] => true
  | e :: t =>
    (e = 0x45 || e = 0x65) &&
      let t := match t with | c :: t' => if c = 0x2B || c = 0x2D then t' else t | [] => t
      t ≠ [] && t.all isDigit

def dropFraction (s : GoString) : Bool :=
  match s with
  | 0x2E :: t => (t.takeWhile isDigit) ≠ [] && dropExponent (t.dropWhile isDigit)
  | _ => dropExponent s

/-- The JSON number grammar. -/
def validNumber (s : GoString) : Bool :=
  let s := match s with | 0x2D :: t => t | _ => s
  match s with
  | [] => false
  | b :: t =>
    if b = 0x30 then dropFraction t
    else isDigit b && dropFraction (t.dropWhile isDigit)

def punctuation (u : GoString) : Option Token :=
  if u = lit "\x7b" then some .openBrace
  else if u = lit "\x7d" then some .closeBrace
  else if u = lit "[" then some .openBracket
  else if u = lit "]" then some .closeBracket
  else if u = lit ":" then some .colon
  else if u = lit "," then some .comma
  else none

def word (name : String) (t : Text) : Option Text :=
  if chars name <+: t then some (t.drop (chars name).length) else none

/-- Cut a text into tokens; the fuel bounds the number of tokens and blanks. -/
def tokenize (repair : Repair) : ℕ → Text → Option (List Token)
  | _, [] => some []
  | 0, _ :: _ => none
  | fuel + 1, u :: t =>
    if isBlank u then tokenize repair fuel t
    else match punctuation u with
      | some p => (tokenize repair fuel t).map (p :: ·)
      | none =>
        if u = lit "\"" then
          (unquote repair .plain none t).bind fun r => (tokenize repair fuel r.2).map (.string r.1 :: ·)
        else if isNumberUnit u then
          let literal := ((u :: t).takeWhile isNumberUnit).flatten
          if validNumber literal then
            (tokenize repair fuel ((u :: t).dropWhile isNumberUnit)).map (.number literal :: ·)
          else none
        else match word "null" (u :: t), word "true" (u :: t), word "false" (u :: t) with
          | some r, _, _ => (tokenize repair fuel r).map (.null :: ·)
          | _, some r, _ => (tokenize repair fuel r).map (.true :: ·)
          | _, _, some r => (tokenize repair fuel r).map (.false :: ·)
          | none, none, none => none

def maxNestingDepth : ℕ := 10000

mutual
/-- One value; `room` is how many more levels may be nested. -/
def parseValue : ℕ → ℕ → List Token → Option (Json × List Token)
  | 0, _, _ => none
  | fuel + 1, room, ts =>
    match ts with
    | .null :: r => some (.null, r)
    | .true :: r => some (.bool true, r)
    | .false :: r => some (.bool false, r)
    | .number literal :: r => some (.number literal, r)
    | .string s :: r => some (.string s, r)
    | .openBracket :: r =>
      match room, r with
      | 0, _ => none
      | _ + 1, .closeBracket :: r => some (.array [], r)
      | room + 1, r =>
        (parseValue fuel room r).bind fun x =>
          (parseElements fuel room x.2).map fun y => (.array (x.1 :: y.1), y.2)
    | .openBrace :: r =>
      match room, r with
      | 0, _ => none
      | _ + 1, .closeBrace :: r => some (.object [], r)
      | room + 1, .string k :: .colon :: r =>
        (parseValue fuel room r).bind fun x =>
          (parseMembers fuel room x.2).map fun y => (.object ((k, x.1) :: y.1), y.2)
      | _ + 1, _ => none
    | _ => none

def parseElements : ℕ → ℕ → List Token → Option (List Json × List Token)
  | 0, _, _ => none
  | fuel + 1, room, ts =>
    match ts with
    | .closeBracket :: r => some ([], r)
    | .comma :: r =>
      (parseValue fuel room r).bind fun x =>
        (parseElements fuel room x.2).map fun y => (x.1 :: y.1, y.2)
    | _ => none

def parseMembers : ℕ → ℕ → List Token → Option (List (GoString × Json) × List Token)
  | 0, _, _ => none
  | fuel + 1, room, ts =>
    match ts with
    | .closeBrace :: r => some ([], r)
    | .comma :: .string k :: .colon :: r =>
      (parseValue fuel room r).bind fun x =>
        (parseMembers fuel room x.2).map fun y => ((k, x.1) :: y.1, y.2)
    | _ => none
end

/-- The one document a text holds. -/
def parseWith (repair : Repair) (data : GoString) : Option Json :=
  (tokenize repair (units data).length (units data)).bind fun ts =>
    match parseValue ts.length maxNestingDepth ts with
    | some (v, []) => some v
    | _ => none

/-- `json.Unmarshal`, up to the Go value. -/
def parse (data : GoString) : Option Json := parseWith replacing data

/-! ## What is written reads back: strings -/

theorem hexValue_hexDigit : ∀ d, d < 16 → hexValue [hexDigit d] = some d := by decide

theorem unquote_unicodeEscape {n : ℕ} (hn : n < 0x10000) (hs : isSurrogate n = false) (t : Text) :
    unquote replacing .plain none (unicodeEscape n ++ t) =
      (unquote replacing .plain none t).map fun r => (encodeRune n ++ r.1, r.2) := by
  have h0 := hexValue_hexDigit (n / 0x1000 % 16) (Nat.mod_lt _ (by decide))
  have h1 := hexValue_hexDigit (n / 0x100 % 16) (Nat.mod_lt _ (by decide))
  have h2 := hexValue_hexDigit (n / 0x10 % 16) (Nat.mod_lt _ (by decide))
  have h3 := hexValue_hexDigit (n % 16) (Nat.mod_lt _ (by decide))
  have hv : (((0 * 16 + n / 0x1000 % 16) * 16 + n / 0x100 % 16) * 16 + n / 0x10 % 16) * 16 +
      n % 16 = n := by omega
  have hc : closeEscape replacing none n = (encodeRune n, none) := by simp [closeEscape, hs]
  have hb : chars "\\u" = [lit "\\", lit "u"] := by decide
  have hq : lit "\\" ≠ lit "\"" := by decide
  simp only [unicodeEscape, hex4, hb, List.cons_append, List.nil_append, unquote, hq, ↓reduceIte,
    h0, h1, h2, h3, hv, hc]

private theorem toNat_encodeRune {b : UInt8} (h : b < 0x80) : encodeRune b.toNat = [b] := by
  have hb : b.toNat < 0x80 := h
  simp [encodeRune, hb]

/-- A unit that needs no escape is read as it stands. -/
private theorem unquote_plain {u : GoString} (hq : u ≠ lit "\"") (hs : u ≠ lit "\\")
    (hc : isControl u = false) (t : Text) :
    unquote replacing .plain none (u :: t) =
      (unquote replacing .plain none t).map fun r => (validUnit u ++ r.1, r.2) := by
  simp only [unquote, hq, hs, hc, ↓reduceIte, Bool.false_eq_true, flushSurrogate, List.nil_append]
  rfl

private theorem escapedByte_eq_some {u : GoString} {b : UInt8} (h : escapedByte u = some b)
    (hb : badUnit u = false) : u = [b] ∧ b < 0x80 := by
  unfold escapedByte at h
  split at h
  · split_ifs at h
    obtain rfl := Option.some.inj h
    exact ⟨rfl, by simpa [badUnit, UInt8.not_le] using hb⟩
  · cases h

private theorem escapedByte_eq_none {u : GoString} (h : escapedByte u = none) :
    isControl u = false := by
  unfold escapedByte at h
  unfold isControl
  split at h
  · split_ifs at h with hx
    simp only [Bool.or_eq_true, decide_eq_true_eq, not_or] at hx
    simpa using hx.1.1.1
  · rfl

theorem unquote_quoteUnit {u : GoString} (hu : IsUnit u) (t : Text) :
    unquote replacing .plain none (quoteUnit u ++ t) =
      (unquote replacing .plain none t).map fun r => (validUnit u ++ r.1, r.2) := by
  unfold quoteUnit
  by_cases h0 : badUnit u = true
  · rw [if_pos h0, unquote_unicodeEscape (by decide) (by decide)]
    simp only [validUnit, h0, ↓reduceIte, show encodeRune 0xFFFD = runeError by decide]
  rw [if_neg h0]
  by_cases h1 : u = lit "\""
  · subst h1; rfl
  rw [if_neg h1]
  by_cases h2 : u = lit "\\"
  · subst h2; rfl
  rw [if_neg h2]
  by_cases h3 : u = [0x08]
  · subst h3; rfl
  rw [if_neg h3]
  by_cases h4 : u = [0x0C]
  · subst h4; rfl
  rw [if_neg h4]
  by_cases h5 : u = [0x0A]
  · subst h5; rfl
  rw [if_neg h5]
  by_cases h6 : u = [0x0D]
  · subst h6; rfl
  rw [if_neg h6]
  by_cases h7 : u = [0x09]
  · subst h7; rfl
  rw [if_neg h7]
  by_cases h8 : u = [0xE2, 0x80, 0xA8]
  · subst h8
    rw [if_pos rfl, unquote_unicodeEscape (by decide) (by decide)]
    rfl
  rw [if_neg h8]
  by_cases h9 : u = [0xE2, 0x80, 0xA9]
  · subst h9
    rw [if_pos rfl, unquote_unicodeEscape (by decide) (by decide)]
    rfl
  rw [if_neg h9]
  have hbad : badUnit u = false := by simpa using h0
  cases he : escapedByte u with
  | some b =>
    obtain ⟨rfl, hb⟩ := escapedByte_eq_some he hbad
    have hlt : b.toNat < 0x80 := hb
    have hsur : isSurrogate b.toNat = false := by
      simp only [isSurrogate, Bool.and_eq_false_iff, decide_eq_false_iff_not]
      omega
    simp only
    rw [unquote_unicodeEscape (by omega) hsur, toNat_encodeRune hb]
    simp only [validUnit, hbad, Bool.false_eq_true, ↓reduceIte]
  | none => exact unquote_plain h1 h2 (escapedByte_eq_none he) t

theorem unquote_quote (s : GoString) (t : Text) :
    unquote replacing .plain none ((units s).flatMap quoteUnit ++ (chars "\"" ++ t)) =
      some (toValid s, t) := by
  have hall : ∀ l : List GoString, (∀ u ∈ l, IsUnit u) →
      unquote replacing .plain none (l.flatMap quoteUnit ++ (chars "\"" ++ t)) =
        some ((l.map validUnit).flatten, t) := by
    intro l hl
    induction l with
    | nil => rfl
    | cons u l ih =>
      rw [List.flatMap_cons, List.append_assoc, unquote_quoteUnit (hl u List.mem_cons_self),
        ih fun v hv => hl v (List.mem_cons_of_mem u hv)]
      rfl
  exact hall (units s) fun u hu => isUnit_of_mem hu

/-! ## Names of members -/

mutual
/-- No object of the document repeats a member name. -/
def uniqueNames : Json → Bool
  | .array l => uniqueNamesAll l
  | .object ms => decide (ms.map Prod.fst).Nodup && uniqueNamesMembers ms
  | _ => true

def uniqueNamesAll : List Json → Bool
  | [] => true
  | v :: vs => uniqueNames v && uniqueNamesAll vs

def uniqueNamesMembers : List (GoString × Json) → Bool
  | [] => true
  | (_, v) :: ms => uniqueNames v && uniqueNamesMembers ms
end

/-- One unit of a member name with its case removed. Besides the ASCII letters,
the long s and the Kelvin sign fold to ASCII. -/
def foldUnit (u : GoString) : GoString :=
  if u = [0xC5, 0xBF] then lit "S"
  else if u = [0xE2, 0x84, 0xAA] then lit "K"
  else match u with
    | [b] => if 0x61 ≤ b && b ≤ 0x7A then [b - 0x20] else [b]
    | _ => u

def foldName (s : GoString) : GoString := ((units s).map foldUnit).flatten

/-- The field a member is stored in: an exact name first, else one that differs in case. -/
def matchField (names : List GoString) (name : GoString) : Option GoString :=
  if name ∈ names then some name
  else names.find? fun f => foldName f = foldName name

/-- An integer literal in the range of `int64`. -/
def parseNat (s : GoString) : Option ℕ :=
  if s ≠ [] ∧ s.all isDigit then some (s.foldl (fun n b => n * 10 + (b.toNat - 0x30)) 0) else none

def parseInt64 (s : GoString) : Option ℤ :=
  match s with
  | 0x2D :: t => (parseNat t).bind fun n => if n ≤ 2 ^ 63 then some (-(n : ℤ)) else none
  | _ => (parseNat s).bind fun n => if n < 2 ^ 63 then some (n : ℤ) else none

end SubscriptionRouter.JsonText
