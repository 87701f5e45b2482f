import Mathlib
import SubscriptionRouter.HashField
import SubscriptionRouter.Readers

set_option autoImplicit false

/-!
# The document of the integrity resource

The digest is the value of a member, and its place is that of a match in the bytes. Other digits in
that place leave a document where one string at most has changed.
-/
namespace SubscriptionRouter.HashDocument
open GoText Transducers PythonText PythonJson HashField Readers

/-! ## The digest -/

def fileName : Text := codes (lit "file")

def algName : Text := codes (lit "alg")

def digestName : Text := codes valueName

def archivePath : Text := codes (lit "resources\\app.asar")

def algorithm : Text := codes (lit "SHA256")

def memberNames : List Text := [fileName, algName, digestName]

/-- `re.fullmatch(r"[0-9a-f]{64}", text)`. -/
def isHash (text : Text) : Bool :=
  text.length = 64 && text.all fun c => (0x30 ≤ c && c ≤ 0x39) || (0x61 ≤ c && c ≤ 0x66)

section Members
variable {S : Type} [DecidableEq S]

def member (name : S) (members : List (S × Value S)) : Option (S × Value S) :=
  members.reverse.find? fun m => m.1 = name

def textOf : Value S → Option S
  | .str s => some s
  | _ => none

def field (name : S) (members : List (S × Value S)) : Option S :=
  (member name members).bind fun m => textOf m.2
end Members

/-- What `json.loads` gives. -/
def document (limit : ℕ) (payload : List UInt8) : Option (Value Text) :=
  (loads limit payload).map (Value.map decoded)

/-- `decoded[0]["value"]`, when the document is as it has to be. -/
def digestOf : Value Text → Option Text
  | .array [.object members] =>
    if (∀ m ∈ members, m.1 ∈ memberNames) ∧ field fileName members = some archivePath ∧
        field algName members = some algorithm then
      (field digestName members).filter isHash
    else none
  | _ => none

/-- Where the digits start in the payload, and the digest that is reported. -/
def hashField (limit : ℕ) (payload : List UInt8) : Option (ℕ × Text) := do
  let value ← document limit payload
  let digest ← digestOf value
  match findAll 0 0 payload with
  | [start] => return (start, digest)
  | _ => none

/-! ## A document with a hole

Its strings are there but for one, which may stand anywhere in it. -/

abbrev Hole := Value (Option Text)

def fill (text : Text) : Hole → Value Text := Value.map (Option.getD · text)

def fillMember (text : Text) (m : Option Text × Hole) : Text × Value Text := (m.1.getD text, fill text m.2)

theorem fill_members (text : Text) (members : List (Option Text × Hole)) :
    fill text (.array [.object members]) = .array [.object (members.map (fillMember text))] := by
  simp only [fill, Value.map, mapItems_eq, mapMembers_eq, List.map_cons, List.map_nil]
  rfl

/-- A string that the document has no other place for than the digest. -/
structure Foreign (text : Text) : Prop where
  name : text ∉ memberNames
  path : text ≠ archivePath
  alg : text ≠ algorithm

theorem Foreign.of_isHash {text : Text} (h : isHash text = true) : Foreign text := by
  have hlength : text.length = 64 := by
    rw [isHash, Bool.and_eq_true] at h
    exact of_decide_eq_true h.1
  have hne {other : Text} (hother : other.length ≠ 64) : text ≠ other := by
    rintro rfl
    exact hother hlength
  have hnames : ∀ name ∈ memberNames, name.length ≠ 64 := by decide
  exact ⟨fun hmem => hnames text hmem hlength, hne (by decide), hne (by decide)⟩

theorem Foreign.of_wide {text : Text} {c : ℕ} (hc : c ∈ text) (hwide : 0x80 ≤ c) : Foreign text := by
  have hne {other : Text} (hother : ∀ d ∈ other, d < 0x80) : text ≠ other := by
    rintro rfl
    exact Nat.not_lt.mpr hwide (hother c hc)
  have hnames : ∀ name ∈ memberNames, ∀ d ∈ name, d < 0x80 := by decide
  exact ⟨fun hmem => hne (hnames text hmem) rfl, hne (by decide), hne (by decide)⟩

theorem isHash_wide {text : Text} {c : ℕ} (hc : c ∈ text) (hwide : 0x80 ≤ c) : isHash text = false := by
  rw [Bool.eq_false_iff]
  intro h
  rw [isHash, Bool.and_eq_true] at h
  have := List.all_eq_true.mp h.2 c hc
  simp at this
  omega

theorem isHash_codes {part : List UInt8} (hpart : IsDigest part) : isHash (codes part) = true := by
  rw [isHash, Bool.and_eq_true]
  refine ⟨decide_eq_true (by rw [codes, List.length_map, hpart.length]), List.all_eq_true.mpr fun c hc => ?_⟩
  obtain ⟨b, hb, rfl⟩ := List.mem_map.mp hc
  have hcases := isLowerHex_cases (hpart.lower b hb)
  simp only [Bool.or_eq_true, Bool.and_eq_true, decide_eq_true_eq]
  exact hcases

/-- What is asked of the document, where the digest may be the hole. -/
structure Contract (members : List (Option Text × Hole)) (digest : Option Text) : Prop where
  names : ∀ m ∈ members, ∃ name ∈ memberNames, m.1 = some name
  file : field (some fileName) members = some (some archivePath)
  alg : field (some algName) members = some (some algorithm)
  value : field (some digestName) members = some digest

theorem map_eq_members {S S' : Type} {f : S → S'} {value : Value S} {members : List (S' × Value S')}
    (h : value.map f = .array [.object members]) :
    ∃ given, value = .array [.object given] ∧ members = given.map fun m => (f m.1, m.2.map f) := by
  cases value with
  | array items =>
    cases items with
    | nil => cases h
    | cons item items =>
      cases items with
      | cons _ _ => simp [Value.map, mapItems_eq] at h
      | nil =>
        cases item with
        | object given => exact ⟨given, rfl, by simpa [Value.map, mapItems_eq, mapMembers_eq] using h.symm⟩
        | _ => simp [Value.map, mapItems_eq] at h
  | _ => cases h

section Fill
variable {text name : Text} {members : List (Option Text × Hole)} {hole : Hole} {value : Value Text}

theorem textOf_fill (hole : Hole) : textOf (fill text hole) = (textOf hole).map (Option.getD · text) := by
  cases hole <;> rfl

theorem member_fill (hnames : ∀ m ∈ members, m.1 ≠ none) (name : Text) :
    member name (members.map (fillMember text)) = (member (some name) members).map (fillMember text) := by
  unfold member
  rw [← List.map_reverse, List.find?_map]
  congr 1
  have hcongr : ∀ m ∈ members.reverse, (decide ((fillMember text m).1 = name)) = decide (m.1 = some name) := by
    intro m hm
    obtain ⟨given, hgiven⟩ := Option.ne_none_iff_exists'.mp (hnames m (List.mem_reverse.mp hm))
    simp [fillMember, hgiven]
  exact List.find?_congr hcongr

theorem field_fill (hnames : ∀ m ∈ members, m.1 ≠ none) (name : Text) :
    field name (members.map (fillMember text)) = (field (some name) members).map (Option.getD · text) := by
  unfold field
  rw [member_fill hnames]
  cases member (some name) members with
  | none => rfl
  | some m => exact textOf_fill m.2

theorem names_fill (htext : Foreign text) :
    (∀ m ∈ members.map (fillMember text), m.1 ∈ memberNames) ↔
      ∀ m ∈ members, ∃ name ∈ memberNames, m.1 = some name := by
  rw [List.forall_mem_map]
  refine forall₂_congr fun m _ => ?_
  constructor
  · intro hmem
    cases hname : m.1 with
    | none =>
      rw [fillMember, hname] at hmem
      exact absurd hmem htext.name
    | some name =>
      rw [fillMember, hname] at hmem
      exact ⟨name, hmem, rfl⟩
  · rintro ⟨name, hmem, hname⟩
    rw [fillMember, hname]
    exact hmem

theorem getD_eq_some {o : Option (Option Text)} {given : Text} (hne : text ≠ given) :
    o.map (Option.getD · text) = some given ↔ o = some (some given) := by
  cases o with
  | none => simp
  | some o =>
    cases o with
    | none => simp [hne]
    | some o => simp

theorem digestOf_object_iff {members : List (Text × Value Text)} {digest : Text} :
    digestOf (.array [.object members]) = some digest ↔ (∀ m ∈ members, m.1 ∈ memberNames) ∧
      field fileName members = some archivePath ∧ field algName members = some algorithm ∧
      field digestName members = some digest ∧ isHash digest = true := by
  rw [digestOf]
  split_ifs with h
  · rw [Option.filter_eq_some_iff]
    exact ⟨fun hdigest => ⟨h.1, h.2.1, h.2.2, hdigest⟩, fun hall => hall.2.2.2⟩
  · exact iff_of_false nofun fun hall => h ⟨hall.1, hall.2.1, hall.2.2.1⟩

theorem digestOf_eq_some {value : Value Text} {digest : Text} (h : digestOf value = some digest) :
    ∃ members, value = .array [.object members] := by
  fun_cases digestOf value with
  | case1 members => exact ⟨members, rfl⟩
  | case2 members => exact ⟨members, rfl⟩
  | case3 => simp [digestOf] at h

theorem digestOf_fill (htext : Foreign text) {digest : Text} : digestOf (fill text hole) = some digest ↔
    ∃ members o, hole = .array [.object members] ∧ Contract members o ∧ o.getD text = digest ∧
      isHash digest = true := by
  have hsome {members : List (Option Text × Hole)} (hnames : ∀ m ∈ members, ∃ name ∈ memberNames, m.1 = some name) :
      ∀ m ∈ members, m.1 ≠ none := by
    intro m hm hnone
    obtain ⟨name, -, hname⟩ := hnames m hm
    cases hname.symm.trans hnone
  constructor
  · intro h
    obtain ⟨members, hmembers⟩ := digestOf_eq_some h
    obtain ⟨holes, rfl, -⟩ := map_eq_members hmembers
    rw [fill_members, digestOf_object_iff, names_fill htext] at h
    obtain ⟨hnames, hfile, halg, hvalue, hhash⟩ := h
    rw [field_fill (hsome hnames), getD_eq_some htext.path] at hfile
    rw [field_fill (hsome hnames), getD_eq_some htext.alg] at halg
    rw [field_fill (hsome hnames), Option.map_eq_some_iff] at hvalue
    obtain ⟨o, hvalue, rfl⟩ := hvalue
    exact ⟨holes, o, rfl, ⟨hnames, hfile, halg, hvalue⟩, rfl, hhash⟩
  · rintro ⟨members, o, rfl, hmeets, rfl, hhash⟩
    have hsome := hsome hmeets.names
    rw [fill_members, digestOf_object_iff, names_fill htext, field_fill hsome, field_fill hsome,
      field_fill hsome, hmeets.file, hmeets.alg, hmeets.value]
    exact ⟨hmeets.names, rfl, rfl, rfl, hhash⟩
end Fill

/-! Where no name is repeated, every member counts, so the hole is the digest. -/

section Repeats
variable {S : Type} {members : List (S × Value S)} {m : S × Value S}

theorem mem_separated {parts : List (List (Token S))} {token : Token S} (hcomma : token ≠ .comma)
    (h : token ∈ separated parts) : ∃ part ∈ parts, token ∈ part := by
  cases parts with
  | nil => exact absurd h List.not_mem_nil
  | cons first others =>
    simp only [separated, List.mem_append, List.mem_flatMap, List.mem_cons] at h ⊢
    rcases h with h | ⟨part, hpart, rfl | h⟩
    · exact ⟨first, .inl rfl, h⟩
    · exact absurd rfl hcomma
    · exact ⟨part, .inr hpart, h⟩

theorem separated_singleton (part : List (Token S)) : separated [part] = part := by
  simp [separated]

theorem memberTokens_eq (members : List (S × Value S)) :
    memberTokens members = members.map fun m => .str m.1 :: .colon :: m.2.tokens := by
  induction members with
  | nil => rfl
  | cons m members ih => rw [memberTokens, ih, List.map_cons]

theorem str_mem_tokens {s : S} (h : .str s ∈ (Value.array [.object members]).tokens) :
    ∃ m ∈ members, s = m.1 ∨ .str s ∈ m.2.tokens := by
  have hmem : Token.str s ∈ separated (memberTokens members) := by
    simpa [Value.tokens, itemTokens, separated_singleton] using h
  obtain ⟨part, hpart, hs⟩ := mem_separated (fun h => by cases h) hmem
  rw [memberTokens_eq, List.mem_map] at hpart
  obtain ⟨m, hm, rfl⟩ := hpart
  refine ⟨m, hm, ?_⟩
  simpa using hs

variable [DecidableEq S]

theorem member_of_mem (hnodup : (members.map Prod.fst).Nodup) (hm : m ∈ members) :
    member m.1 members = some m := by
  obtain ⟨found, hfound⟩ : ∃ found, member m.1 members = some found := by
    refine Option.isSome_iff_exists.mp (List.find?_isSome.mpr ⟨m, List.mem_reverse.mpr hm, ?_⟩)
    exact decide_eq_true rfl
  have hname : found.1 = m.1 := by
    have := List.find?_some (p := fun found : S × Value S => found.1 = m.1) hfound
    exact of_decide_eq_true this
  have hmem : found ∈ members := List.mem_reverse.mp (List.mem_of_find?_eq_some hfound)
  rw [hfound, List.inj_on_of_nodup_map hnodup hmem hm hname]

theorem textOf_of_field {o : S} (hnodup : (members.map Prod.fst).Nodup) (hm : m ∈ members)
    (h : field m.1 members = some o) : m.2 = .str o := by
  rw [field, member_of_mem hnodup hm, Option.bind_some] at h
  cases hvalue : m.2 with
  | str s =>
    rw [hvalue] at h
    rw [Option.some.inj h]
  | _ =>
    rw [hvalue] at h
    cases h
end Repeats

theorem Contract.hole_counts {members : List (Option Text × Hole)} {o : Option Text} (h : Contract members o)
    (hnodup : (members.map Prod.fst).Nodup) (hmem : .str none ∈ (Value.array [.object members]).tokens) :
    o = none := by
  obtain ⟨m, hm, hname | hvalue⟩ := str_mem_tokens hmem
  · obtain ⟨name, -, hsome⟩ := h.names m hm
    cases hname.trans hsome
  · obtain ⟨name, hnames, hsome⟩ := h.names m hm
    have hcounts {given : Option Text} (hgiven : field (some name) members = some given) : given = none := by
      rw [textOf_of_field hnodup hm (hsome ▸ hgiven)] at hvalue
      simp only [Value.tokens, List.mem_singleton, Token.str.injEq] at hvalue
      exact hvalue.symm
    simp only [memberNames, List.mem_cons, List.not_mem_nil, or_false] at hnames
    rcases hnames with rfl | rfl | rfl
    · cases hcounts h.file
    · cases hcounts h.alg
    · exact hcounts h.value

/-! ## The payload with other digits -/

section Exchange
variable {limit start : ℕ} {before after part new payload : List UInt8} {lead : Lead} {digest : Text}

theorem isField_of_isDigest (h : IsDigest part) : IsField part := by
  refine ⟨h.length, fun b hb => ?_⟩
  have hcases := isLowerHex_cases (h.lower b hb)
  simp only [Printed, UInt8.le_iff_toNat_le, UInt8.reduceToNat]
  omega

theorem codes_isDigest (h : IsDigest part) : ∀ c ∈ codes part, 0x20 ≤ c ∧ c ≠ 0x22 ∧ c ≠ 0x5C := by
  intro c hc
  obtain ⟨b, hb, rfl⟩ := List.mem_map.mp hc
  have hcases := isLowerHex_cases (h.lower b hb)
  omega

theorem length_lead (lead : Lead) : 4 ≤ lead.bytes.length := by
  have hname : valueName.length = 5 := by decide
  simp only [Lead.bytes, List.length_cons, List.length_append, hname]
  omega

/-- The digits stand in one string of the document. It is the string of digits after a name, or
has a character beyond ASCII. -/
theorem loads_exchange (hpart : IsDigest part) {value : Value Spelling}
    (h : loads limit (fieldBytes before lead.bytes 0x22 part after) = some value) :
    ∃ (outer others : List (Token Spelling)) (spelled : List UInt8 → Spelling),
      (∀ part', IsDigest part' → loads limit (fieldBytes before lead.bytes 0x22 part' after) =
        parse limit (outer ++ .str (spelled part') :: others)) ∧
      ((detectEncoding (fieldBytes before lead.bytes 0x22 part after)).1 = .utf8 ∧
        (∃ first name, outer = first ++ [.str name, .colon] ∧ EndsName name) ∧
        (∀ part', spelled part' = literal (codes part')) ∨
      ∀ part', IsDigest part' → ∃ c ∈ decoded (spelled part'), 0x80 ≤ c) := by
  obtain ⟨text, htext, hrest⟩ := Option.bind_eq_some_iff.mp h
  obtain ⟨tokens, htokens, -⟩ := Option.bind_eq_some_iff.mp hrest
  have hloads {part' : List UInt8} {text' : Text} {tokens' : List (Token Spelling)}
      (htext : decode (fieldBytes before lead.bytes 0x22 part' after) = some text')
      (htokens : lexer.run .outside text' = some tokens') :
      loads limit (fieldBytes before lead.bytes 0x22 part' after) = parse limit tokens' := by
    simp [loads, htext, htokens]
  have hquote : Printed 0x22 := ⟨by decide, by decide⟩
  rcases decode_exchange (length_lead lead) lead.plain hquote (isField_of_isDigest hpart) htext with
    ⟨first, last, hdecode⟩ | ⟨first, last, wide, hdecode⟩
  · obtain ⟨hutf8, hdecoded⟩ := hdecode part (isField_of_isDigest hpart)
    obtain rfl := Option.some.inj (htext.symm.trans hdecoded)
    obtain ⟨outer, name, others, hname, hrun⟩ := run_field lead (codes_isDigest hpart) htokens
    refine ⟨outer ++ [.str name, .colon], others, fun part' => literal (codes part'), fun part' hpart' => ?_,
      .inl ⟨hutf8, ⟨outer, name, rfl, hname⟩, fun part' => rfl⟩⟩
    rw [hloads (hdecode part' (isField_of_isDigest hpart')).2 (hrun part' (codes_isDigest hpart'))]
    simp
  · obtain ⟨hdecoded, hne, hwide⟩ := hdecode part (isField_of_isDigest hpart)
    obtain rfl := Option.some.inj (htext.symm.trans hdecoded)
    obtain ⟨outer, pieces, more, others, hrun⟩ := run_wide hne hwide htokens
    refine ⟨outer, others, fun part' => pieces ++ literal (wide part') ++ more, fun part' hpart' => ?_,
      .inr fun part' hpart' => ?_⟩
    · obtain ⟨hdecoded, -, hwide⟩ := hdecode part' (isField_of_isDigest hpart')
      exact hloads hdecoded (hrun _ hwide)
    · obtain ⟨-, hne, hwide⟩ := hdecode part' (isField_of_isDigest hpart')
      obtain ⟨c, text, hc⟩ := List.exists_cons_of_ne_nil hne
      have hmem : c ∈ wide part' := by rw [hc]; exact List.mem_cons_self ..
      refine ⟨c, mem_decoded (.inl ?_), hwide c hmem⟩
      rw [List.mem_append, List.mem_append]
      exact .inl (.inr (List.mem_map_of_mem hmem))

def marked (outer others : List (Token Spelling)) : List (Token (Option Spelling)) :=
  outer.map (Token.map some) ++ .str none :: others.map (Token.map some)

theorem map_some_getD (tokens : List (Token Spelling)) (s : Spelling) :
    (tokens.map (Token.map some)).map (Token.map (Option.getD · s)) = tokens := by
  induction tokens with
  | nil => rfl
  | cons token tokens ih =>
    rw [List.map_cons, List.map_cons, ih]
    cases token <;> rfl

theorem marked_getD (outer others : List (Token Spelling)) (s : Spelling) :
    (marked outer others).map (Token.map (Option.getD · s)) = outer ++ .str s :: others := by
  rw [marked, List.map_append, List.map_cons, map_some_getD, map_some_getD]
  rfl

theorem parse_marked (outer others : List (Token Spelling)) (s : Spelling) :
    parse limit (outer ++ .str s :: others) =
      (parse limit (marked outer others)).map (Value.map (Option.getD · s)) := by
  rw [← parse_map, marked_getD]

theorem map_decoded_getD (tokens : List (Token (Option Spelling))) (s : Spelling) :
    (tokens.map (Token.map (Option.getD · s))).map (Token.map decoded) =
      (tokens.map (Token.map (Option.map decoded))).map (Token.map (Option.getD · (decoded s))) := by
  induction tokens with
  | nil => rfl
  | cons token tokens ih =>
    simp only [List.map_cons] at ih ⊢
    rw [ih]
    congr 1
    cases token with
    | str o => cases o <;> rfl
    | _ => rfl

theorem parse_fill (outer others : List (Token Spelling)) (s : Spelling) :
    (parse limit (outer ++ .str s :: others)).map (Value.map decoded) =
      ((parse limit (marked outer others)).map (Value.map (Option.map decoded))).map (fill (decoded s)) := by
  rw [← parse_map, ← marked_getD, map_decoded_getD, parse_map, parse_map]
  rfl

/-! What is reported afterwards: the new digits where the string is the digest, else the old ones. -/

def Unescaped (s : Spelling) : Prop := s = literal (decoded s)

/-- The payload is in UTF-8, and the member that counts is written without a backslash. -/
def SpelledPlainly (limit : ℕ) (payload : List UInt8) : Prop :=
  (detectEncoding payload).1 = .utf8 ∧ ∃ members name digits,
    loads limit payload = some (.array [.object members]) ∧
    members.reverse.find? (fun m => decoded m.1 = digestName) = some (name, .str digits) ∧
    Unescaped name ∧ Unescaped digits

def RepeatsNoName (limit : ℕ) (payload : List UInt8) : Prop :=
  ∀ members, document limit payload = some (.array [.object members]) → (members.map Prod.fst).Nodup

theorem unescaped_literal (text : Text) : Unescaped (literal text) := by
  rw [Unescaped, decoded_literal]

theorem unescaped_of_endsName {name : Spelling} (h : EndsName name) (hname : decoded name = digestName) :
    Unescaped name := by
  rcases h with rfl | hquote
  · exact unescaped_literal _
  · rw [hname] at hquote
    exact absurd hquote (by decide)

theorem tokens_of_mem {S : Type} {members : List (S × Value S)} {m : S × Value S} (hm : m ∈ members) :
    ∃ outer others, (Value.array [.object members]).tokens =
      outer ++ .str m.1 :: .colon :: (m.2.tokens ++ others) := by
  obtain ⟨above, below, rfl⟩ := List.append_of_mem hm
  have hseparated : ∃ outer others, separated (memberTokens (above ++ m :: below)) =
      outer ++ .str m.1 :: .colon :: (m.2.tokens ++ others) := by
    rw [memberTokens_eq, List.map_append, List.map_cons]
    cases above with
    | nil => exact ⟨[], _, rfl⟩
    | cons first above =>
      simp only [List.map_cons, List.cons_append, separated, List.flatMap_append, List.flatMap_cons]
      exact ⟨.str first.1 :: .colon :: (first.2.tokens ++
        (above.map fun m => Token.str m.1 :: .colon :: m.2.tokens).flatMap (.comma :: ·) ++ [.comma]),
        (below.map fun m => Token.str m.1 :: .colon :: m.2.tokens).flatMap (.comma :: ·), by simp⟩
  obtain ⟨outer, others, h⟩ := hseparated
  refine ⟨.openArray :: .openObject :: outer, others ++ [.closeObject, .closeArray], ?_⟩
  simp [Value.tokens, itemTokens, separated_singleton, h]

theorem none_notMem_some (tokens : List (Token Spelling)) : .str none ∉ tokens.map (Token.map some) := by
  intro hmem
  obtain ⟨token, -, htoken⟩ := List.mem_map.mp hmem
  cases token <;> cases htoken

/-- The string that is not given has one name. -/
theorem name_of_marked {outer others : List (Token Spelling)} {name : Spelling} {n : Option Spelling}
    {outer' others' : List (Token (Option Spelling))}
    (h : marked (outer ++ [.str name, .colon]) others = outer' ++ .str n :: .colon :: .str none :: others') :
    n = some name := by
  have hsplit : (outer ++ [Token.str name, .colon]).map (Token.map some) ++ .str none :: others.map (Token.map some) =
      (outer' ++ [.str n, .colon]) ++ .str none :: others' := by
    rw [← marked, h]
    simp
  obtain ⟨hsame, -, -⟩ :=
    (List.append_cons_inj_of_notMem (none_notMem_some _) (none_notMem_some _)).mp hsplit
  rw [List.map_append] at hsame
  obtain ⟨-, hpair⟩ := List.append_inj' hsame rfl
  cases hpair
  rfl

/-- The object that has the hole as its digest. -/
theorem find_name {outer others : List (Token Spelling)} {name : Spelling} {hole : Value (Option Spelling)}
    {members : List (Option Text × Hole)} (h : parse limit (marked (outer ++ [.str name, .colon]) others) = some hole)
    (hmembers : hole.map (Option.map decoded) = .array [.object members]) (hmeets : Contract members none) :
    ∃ given, hole = .array [.object given] ∧ (∀ m ∈ given, m.1 ≠ none) ∧ decoded name = digestName ∧
      given.reverse.find? (fun m => m.1.map decoded = some digestName) = some (some name, .str none) := by
  obtain ⟨given, rfl, rfl⟩ := map_eq_members hmembers
  have hsome : ∀ m ∈ given, m.1 ≠ none := by
    intro m hm hnone
    obtain ⟨other, -, hother⟩ := hmeets.names _ (List.mem_map_of_mem hm)
    rw [hnone] at hother
    cases hother
  obtain ⟨⟨_, _⟩, hfound, htext⟩ := Option.bind_eq_some_iff.mp hmeets.value
  rw [member, ← List.map_reverse, List.find?_map] at hfound
  obtain ⟨⟨spelled, value⟩, hfind, hvalue⟩ := Option.map_eq_some_iff.mp hfound
  obtain ⟨rfl, rfl⟩ := Prod.mk.inj hvalue
  have hname : spelled.map decoded = some digestName := by simpa using List.find?_some hfind
  obtain ⟨n, rfl, hn⟩ := Option.map_eq_some_iff.mp hname
  obtain rfl : value = .str none := by
    cases value with
    | str o =>
      have := Option.some.inj htext
      rw [Option.map_eq_none_iff.mp this]
    | _ => cases htext
  obtain ⟨outer', others', htokens⟩ := tokens_of_mem (List.mem_reverse.mp (List.mem_of_find?_eq_some hfind))
  have hall : marked (outer ++ [.str name, .colon]) others =
      outer' ++ .str (some n) :: .colon :: .str none :: others' := (parse_tokens h).trans htokens
  obtain rfl := Option.some.inj (name_of_marked hall)
  exact ⟨given, rfl, hsome, hn, hfind⟩
/-- Where the digest that counts is read from the place of the match, it is written plainly. -/
theorem spelledPlainly_of_hole {outer others : List (Token Spelling)} {name : Spelling} {text : Text}
    {hole : Value (Option Spelling)} {members : List (Option Text × Hole)} (hutf8 : (detectEncoding payload).1 = .utf8)
    (hloads : loads limit payload = parse limit ((outer ++ [.str name, .colon]) ++ .str (literal text) :: others))
    (hname : EndsName name) (h : parse limit (marked (outer ++ [.str name, .colon]) others) = some hole)
    (hmembers : hole.map (Option.map decoded) = .array [.object members]) (hmeets : Contract members none) :
    SpelledPlainly limit payload := by
  obtain ⟨given, rfl, hsome, hdecoded, hfind⟩ := find_name h hmembers hmeets
  have hfilled : loads limit payload = some (.array [.object (given.map fun m =>
      (m.1.getD (literal text), m.2.map (Option.getD · (literal text))))]) := by
    rw [hloads, parse_marked, h]
    simp [Value.map, mapItems_eq, mapMembers_eq]
  refine ⟨hutf8, _, name, literal text, hfilled, ?_, unescaped_of_endsName hname hdecoded, unescaped_literal text⟩
  have hcongr : ∀ m ∈ given.reverse, decide (decoded (m.1.getD (literal text)) = digestName) =
      decide (m.1.map decoded = some digestName) := by
    intro m hm
    obtain ⟨spelled, hspelled⟩ := Option.ne_none_iff_exists'.mp (hsome m (List.mem_reverse.mp hm))
    simp [hspelled]
  rw [← List.map_reverse, List.find?_map]
  simp only [Function.comp_def]
  rw [List.find?_congr hcongr, hfind]
  rfl

theorem splice_fieldBytes (hlength : part.length = new.length) :
    splice (fieldBytes before lead.bytes 0x22 part after) (before.length + lead.bytes.length + 1) new =
      fieldBytes before lead.bytes 0x22 new after := by
  have hbytes (part : List UInt8) : fieldBytes before lead.bytes 0x22 part after =
      (before ++ lead.bytes ++ [0x22]) ++ part ++ (0x22 :: after) := by simp [fieldBytes]
  have hfirst : before.length + lead.bytes.length + 1 = (before ++ lead.bytes ++ [0x22]).length := by
    simp only [List.length_append, List.length_singleton]
  rw [hbytes, hbytes, hfirst]
  exact splice_append _ _ hlength

theorem hashField_eq_some : hashField limit payload = some (start, digest) ↔
    ∃ value, document limit payload = some value ∧ digestOf value = some digest ∧ findAll 0 0 payload = [start] := by
  simp only [hashField, Option.bind_eq_bind, Option.bind_eq_some_iff]
  refine exists_congr fun value => and_congr_right fun _ => ?_
  constructor
  · rintro ⟨other, hdigest, h⟩
    split at h
    · next hfound =>
      obtain ⟨rfl, rfl⟩ := Prod.mk.inj (Option.some.inj h)
      exact ⟨hdigest, hfound⟩
    · cases h
  · rintro ⟨hdigest, hfound⟩
    exact ⟨digest, hdigest, by rw [hfound]; rfl⟩

theorem found_field (h : findAll 0 0 payload = [start]) : ∃ before lead part after,
    payload = fieldBytes before (Lead.bytes lead) 0x22 part after ∧ IsDigest part ∧
      start = before.length + lead.bytes.length + 1 := by
  obtain ⟨before, rest, rfl, hscan⟩ := mem_findAll (h ▸ List.mem_singleton_self start)
  obtain ⟨lead, part, after, rfl, hpart, rfl⟩ := scan_opening hscan
  exact ⟨before, lead, part, after, by simp [fieldBytes], hpart, by omega⟩
theorem none_mem_tokens {outer others : List (Token Spelling)} {hole : Value (Option Spelling)}
    (h : parse limit (marked outer others) = some hole) :
    .str none ∈ (hole.map (Option.map decoded)).tokens := by
  have hparse : parse limit ((marked outer others).map (Token.map (Option.map decoded))) =
      some (hole.map (Option.map decoded)) := by
    rw [parse_map, h]
    rfl
  rw [← parse_tokens hparse]
  have hmem : Token.str none ∈ marked outer others := by simp [marked]
  exact List.mem_map_of_mem hmem

/-- The document has the digits in one string. When that is the digest, it is written plainly. -/
theorem exists_hole (hpart : IsDigest part) {value : Value Text}
    (h : document limit (fieldBytes before lead.bytes 0x22 part after) = some value) :
    ∃ (hole : Hole) (text : List UInt8 → Text), .str none ∈ hole.tokens ∧
      (∀ part', IsDigest part' → Foreign (text part') ∧
        document limit (fieldBytes before lead.bytes 0x22 part' after) = some (fill (text part') hole)) ∧
      ∀ members, hole = .array [.object members] → Contract members none → isHash (text part) = true →
        SpelledPlainly limit (fieldBytes before lead.bytes 0x22 part after) ∧ ∀ part', text part' = codes part' := by
  obtain ⟨given, hgiven, -⟩ := Option.map_eq_some_iff.mp h
  obtain ⟨outer, others, spelled, hloads, hkind⟩ := loads_exchange hpart hgiven
  have hfill {part' : List UInt8} (hpart' : IsDigest part') :
      document limit (fieldBytes before lead.bytes 0x22 part' after) =
        ((parse limit (marked outer others)).map (Value.map (Option.map decoded))).map
          (fill (decoded (spelled part'))) := by
    rw [document, hloads part' hpart', parse_fill]
  obtain ⟨hole, hhole⟩ : ∃ hole, parse limit (marked outer others) = some hole := by
    rw [hfill hpart] at h
    obtain ⟨_, hmapped, -⟩ := Option.map_eq_some_iff.mp h
    obtain ⟨hole, hhole, -⟩ := Option.map_eq_some_iff.mp hmapped
    exact ⟨hole, hhole⟩
  refine ⟨hole.map (Option.map decoded), decoded ∘ spelled, none_mem_tokens hhole,
    fun part' hpart' => ⟨?_, ?_⟩, fun members hmembers hmeets hhash => ?_⟩
  · rcases hkind with ⟨-, -, hspelled⟩ | hwide
    · rw [Function.comp_apply, hspelled, decoded_literal]
      exact Foreign.of_isHash (isHash_codes hpart')
    · obtain ⟨c, hc, hc'⟩ := hwide part' hpart'
      exact Foreign.of_wide hc hc'
  · rw [hfill hpart', hhole]
    rfl
  · rcases hkind with ⟨hutf8, ⟨first, name, rfl, hname⟩, hliteral⟩ | hwide
    · have hparse : loads limit (fieldBytes before lead.bytes 0x22 part after) =
          parse limit ((first ++ [.str name, .colon]) ++ .str (literal (codes part)) :: others) := by
        rw [hloads part hpart, hliteral]
      refine ⟨spelledPlainly_of_hole hutf8 hparse hname hhole hmembers hmeets, fun part' => ?_⟩
      rw [Function.comp_apply, hliteral, decoded_literal]
    · obtain ⟨c, hc, hc'⟩ := hwide part hpart
      exact absurd (hhash.symm.trans (isHash_wide hc hc')) nofun

theorem hashField_within (h : hashField limit payload = some (start, digest)) : start + 64 ≤ payload.length := by
  obtain ⟨value, -, -, hfound⟩ := hashField_eq_some.mp h
  obtain ⟨before, lead, part, after, rfl, hpart, rfl⟩ := found_field hfound
  simp only [fieldBytes, List.length_append, List.length_cons, hpart.length]
  omega

/-- Other digits in the place that is found are found there again. They are reported where the
object repeats no name, and they are not where the member that counts is not written plainly. -/
theorem hashField_splice (h : hashField limit payload = some (start, digest)) (hnew : IsDigest new) :
    ∃ digest', hashField limit (splice payload start new) = some (start, digest') ∧
      (RepeatsNoName limit payload → digest' = codes new) ∧
      (¬ SpelledPlainly limit payload → digest' = digest) := by
  obtain ⟨value, hdocument, hdigest, hfound⟩ := hashField_eq_some.mp h
  obtain ⟨before, lead, part, after, rfl, hpart, rfl⟩ := found_field hfound
  rw [splice_fieldBytes (hpart.length.trans hnew.length.symm)]
  obtain ⟨hole, text, hmem, htext, hcounts⟩ := exists_hole hpart hdocument
  obtain ⟨hforeign, hold⟩ := htext part hpart
  obtain ⟨hforeign', hchanged⟩ := htext new hnew
  obtain rfl := Option.some.inj (hold.symm.trans hdocument)
  obtain ⟨members, o, rfl, hmeets, rfl, hhash⟩ := (digestOf_fill hforeign).mp hdigest
  have hfound' : findAll 0 0 (fieldBytes before lead.bytes 0x22 new after) =
      [before.length + lead.bytes.length + 1] := by
    rw [← hfound]
    have hbytes (part : List UInt8) : fieldBytes before lead.bytes 0x22 part after =
        before ++ lead.bytes ++ 0x22 :: (part ++ 0x22 :: after) := by simp [fieldBytes]
    rw [hbytes, hbytes]
    exact findAll_exchange hnew hpart 0 0
  have hhash' : isHash (o.getD (text new)) = true := by
    cases o with
    | some digest => exact hhash
    | none =>
      rw [Option.getD_none, (hcounts members rfl hmeets hhash).2]
      exact isHash_codes hnew
  have hdigest' := (digestOf_fill hforeign').mpr ⟨members, o, rfl, hmeets, rfl, hhash'⟩
  refine ⟨o.getD (text new), hashField_eq_some.mpr ⟨_, hchanged, hdigest', hfound'⟩,
    fun hrepeats => ?_, fun hspelled => ?_⟩
  · have hnodup : (members.map Prod.fst).Nodup := by
      rw [fill_members] at hold
      have hnames := hrepeats _ hold
      rw [List.map_map] at hnames
      refine List.Nodup.of_map (Option.getD · (text part)) ?_
      rw [List.map_map]
      exact hnames
    obtain rfl := hmeets.hole_counts hnodup hmem
    exact (hcounts members rfl hmeets hhash).2 new
  · cases o with
    | some digest => rfl
    | none => exact absurd (hcounts members rfl hmeets hhash).1 hspelled
end Exchange

end SubscriptionRouter.HashDocument
