import Mathlib
import SubscriptionRouter.JsonRoundTrip
import SubscriptionRouter.JsonValues

set_option autoImplicit false

/-!
# Documents as they are written

`written` reads a text and keeps what in its strings is no character, an unpaired surrogate or
an ill-formed byte, behind a byte that no encoding has. `parse_eq` says what the decoder of
`encoding/json` makes of such a document, and `carried_iff` which members survive it.
-/
namespace SubscriptionRouter.WrittenJson
open GoText JsonText JsonRoundTrip Messages JsonValues Tallies

/-- The byte of no encoding, and two that tell what stands here. -/
def mark (n : ℕ) : GoString := [0xFF, UInt8.ofNat (n / 0x100), UInt8.ofNat n]

def keeping : Repair := ⟨mark, fun u => 0xFF :: 0 :: u⟩

def written (data : GoString) : Option Json := parseWith keeping data

/-- Every mark is replaced by U+FFFD; so many bytes of one are still to come. -/
def receivedAfter : ℕ → GoString → GoString
  | _, [] => []
  | k + 1, _ :: t => receivedAfter k t
  | 0, a :: t => if a = 0xFF then runeError ++ receivedAfter 2 t else a :: receivedAfter 0 t

def received (s : GoString) : GoString := receivedAfter 0 s

/-- The string consists of characters. -/
def Characters (s : GoString) : Prop := 0xFF ∉ s

instance (s : GoString) : Decidable (Characters s) := inferInstanceAs (Decidable (0xFF ∉ s))

theorem received_append {u : GoString} (h : Characters u) (t : GoString) :
    received (u ++ t) = u ++ received t := by
  induction u with
  | nil => rfl
  | cons a u ih =>
    obtain ⟨ha, hu⟩ : (0xFF : UInt8) ≠ a ∧ Characters u := by simpa [Characters] using h
    rw [received, List.cons_append, receivedAfter, if_neg (Ne.symm ha)]
    exact congrArg (a :: ·) (ih hu)

theorem received_of_characters {s : GoString} (h : Characters s) : received s = s := by
  have happend := received_append h []
  rwa [List.append_nil, show received [] = [] from rfl, List.append_nil] at happend

theorem characters_receivedAfter (k : ℕ) (s : GoString) : Characters (receivedAfter k s) := by
  induction s generalizing k with
  | nil => cases k <;> exact List.not_mem_nil
  | cons a s ih =>
    cases k with
    | succ k => exact ih k
    | zero =>
      rw [receivedAfter]
      split_ifs with ha
      · exact List.not_mem_append (by decide) (ih 2)
      · exact List.not_mem_cons_of_ne_of_not_mem (Ne.symm ha) (ih 0)

theorem characters_received (s : GoString) : Characters (received s) := characters_receivedAfter 0 s

theorem mem_received {s : GoString} (h : 0xFF ∈ s) : 0xEF ∈ received s := by
  induction s with
  | nil => cases h
  | cons a s ih =>
    rw [received, receivedAfter]
    split_ifs with ha
    · exact List.mem_append_left _ (by decide)
    · exact List.mem_cons_of_mem a (ih ((List.mem_cons.mp h).resolve_left (Ne.symm ha)))

/-! ## The two readers -/

theorem RuneEncoding.characters {u : GoString} (h : RuneEncoding u) : Characters u := by
  have hle : ∀ {b : UInt8}, b ≤ 0xF4 → (0xFF : UInt8) ≠ b := by
    rintro b hb rfl
    exact absurd hb (by decide)
  have htail : ∀ {b : UInt8}, tailByte b = true → (0xFF : UInt8) ≠ b := by
    rintro b hb rfl
    exact absurd hb (by decide)
  unfold Characters
  cases h with
  | one h => simpa using hle (UInt8.le_of_lt (UInt8.lt_of_lt_of_le h (by decide)))
  | two h =>
    simp only [wellFormed2, Bool.and_eq_true, decide_eq_true_eq] at h
    simpa using ⟨hle (UInt8.le_trans h.1.2 (by decide)), htail h.2⟩
  | three h =>
    simp only [wellFormed3, Bool.and_eq_true, decide_eq_true_eq] at h
    simpa using ⟨hle (UInt8.le_trans h.1.1.1.1.2 (by decide)), htail h.1.1.1.2, htail h.1.1.2⟩
  | four h =>
    simp only [wellFormed4, Bool.and_eq_true, decide_eq_true_eq] at h
    simpa using ⟨hle (UInt8.le_trans h.1.1.1.1.1.2 (by decide)), htail h.1.1.1.1.2, htail h.1.1.1.2,
      htail h.1.1.2⟩

theorem characters_encodeRune {n : ℕ} (h : n < 0x110000) : Characters (encodeRune n) := by
  have hbytes : ∀ {l : List ℕ}, (∀ k ∈ l, k < 0xFF) → Characters (l.map UInt8.ofNat) := by
    intro l hl hmem
    obtain ⟨k, hk, he⟩ := List.mem_map.mp hmem
    have hlt := hl k hk
    have hnat := congrArg UInt8.toNat he
    rw [UInt8.toNat_ofNat'] at hnat
    change k % 256 = 255 at hnat
    omega
  unfold encodeRune
  split_ifs
  · exact hbytes (l := [n]) (by simp; omega)
  · exact hbytes (l := [0xC0 + n / 0x40, 0x80 + n % 0x40]) (by simp; omega)
  · decide
  · exact hbytes (l := [0xE0 + n / 0x1000, 0x80 + n / 0x40 % 0x40, 0x80 + n % 0x40]) (by simp; omega)
  · exact hbytes (l := [0xF0 + n / 0x40000, 0x80 + n / 0x1000 % 0x40, 0x80 + n / 0x40 % 0x40,
      0x80 + n % 0x40]) (by simp; omega)

theorem received_unit {u : GoString} (h : IsUnit u) (t : GoString) :
    received (keeping.unit u ++ t) = replacing.unit u ++ received t := by
  rcases h with h | ⟨a, rfl, ha⟩
  · rw [Repair.unit, Repair.unit, h.not_bad]
    exact received_append (RuneEncoding.characters h) t
  · have hbad : badUnit [a] = true := decide_eq_true ha
    rw [Repair.unit, Repair.unit, hbad]
    rfl

theorem received_surrogate (n : ℕ) (t : GoString) :
    received (mark n ++ t) = runeError ++ received t := rfl

theorem received_flushSurrogate (pending : Option ℕ) (t : GoString) :
    received (flushSurrogate keeping pending ++ t) = flushSurrogate replacing pending ++ received t := by
  cases pending with
  | none => rfl
  | some hi => exact received_surrogate hi t

theorem received_closeEscape (pending : Option ℕ) {n : ℕ} (h : n < 0x10000) (t : GoString) :
    (closeEscape keeping pending n).2 = (closeEscape replacing pending n).2 ∧
      received ((closeEscape keeping pending n).1 ++ t) =
        (closeEscape replacing pending n).1 ++ received t := by
  have hrune : Characters (encodeRune n) := characters_encodeRune (by omega)
  unfold closeEscape
  cases pending with
  | none =>
    dsimp only
    split_ifs
    · exact ⟨rfl, rfl⟩
    · exact ⟨rfl, received_append hrune t⟩
  | some hi =>
    dsimp only
    split_ifs with hpair
    · generalize hcode : 0x10000 + (hi - 0xD800) * 0x400 + (n - 0xDC00) = code
      exact ⟨rfl, received_append (characters_encodeRune (by omega)) t⟩
    · exact ⟨rfl, received_surrogate hi t⟩
    · refine ⟨rfl, ?_⟩
      rw [List.append_assoc, List.append_assoc]
      exact (received_surrogate hi _).trans (congrArg (runeError ++ ·) (received_append hrune t))

theorem hexValue_lt {u : GoString} {d : ℕ} (h : hexValue u = some d) : d < 16 := by
  unfold hexValue at h
  split at h
  · rename_i b
    simp only [Bool.and_eq_true, decide_eq_true_eq, UInt8.le_iff_toNat_le] at h
    split_ifs at h with h1 h2 h3
    · obtain rfl := Option.some.inj h
      have := h1.2
      change b.toNat ≤ 57 at this
      omega
    · obtain rfl := Option.some.inj h
      have := h2.2
      change b.toNat ≤ 102 at this
      omega
    · obtain rfl := Option.some.inj h
      have := h3.2
      change b.toNat ≤ 70 at this
      omega
  · cases h

/-- The digits of an escape read so far leave room for the rest of four. -/
def Fits : StringState → Prop
  | .hex left acc => (acc + 1) * 16 ^ (left + 1) ≤ 0x10000
  | _ => True

theorem simpleEscape_characters {u e : GoString} (h : simpleEscape u = some e) : Characters e := by
  unfold simpleEscape at h
  split_ifs at h with hself
  · obtain rfl := Option.some.inj h
    rcases hself with rfl | rfl | rfl <;> decide
  all_goals
    obtain rfl := Option.some.inj h
    decide

/-- Both readers leave the same text behind a string. -/
theorem unquote_received (t : Text) (ht : ∀ u ∈ t, IsUnit u) (state : StringState) (hs : Fits state)
    (pending : Option ℕ) :
    unquote replacing state pending t =
      (unquote keeping state pending t).map fun r => (received r.1, r.2) := by
  induction t generalizing state pending with
  | nil => cases state <;> rfl
  | cons u t ih =>
    obtain ⟨hu, htail⟩ := List.forall_mem_cons.mp ht
    have hplain := fun pending => ih htail .plain trivial pending
    cases state with
    | plain =>
      rw [unquote, unquote]
      split_ifs
      · refine congrArg some (Prod.ext ?_ rfl)
        have hflush := received_flushSurrogate pending []
        rwa [List.append_nil, show received [] = [] from rfl, List.append_nil, eq_comm] at hflush
      · exact ih htail .escape trivial pending
      · rfl
      · rw [hplain, Option.map_map, Option.map_map]
        refine congrArg (Option.map · _) (funext fun r => Prod.ext ?_ rfl)
        dsimp only [Function.comp_apply]
        rw [List.append_assoc, List.append_assoc, received_flushSurrogate, received_unit hu]
    | escape =>
      rw [unquote, unquote]
      split_ifs
      · exact ih htail (.hex 3 0) (by unfold Fits; decide) pending
      · cases hescape : simpleEscape u with
        | none => rfl
        | some e =>
          dsimp only
          rw [hplain, Option.map_map, Option.map_map]
          refine congrArg (Option.map · _) (funext fun r => Prod.ext ?_ rfl)
          dsimp only [Function.comp_apply]
          rw [List.append_assoc, List.append_assoc, received_flushSurrogate,
            received_append (simpleEscape_characters hescape)]
    | hex left acc =>
      cases hvalue : hexValue u with
      | none => simp only [unquote, hvalue, Option.map_none]
      | some d =>
        have hd := hexValue_lt hvalue
        cases left with
        | succ k =>
          simp only [unquote, hvalue]
          refine ih htail (.hex k (acc * 16 + d)) ?_ pending
          have hroom : (acc * 16 + d + 1) * 16 ^ (k + 1) ≤ ((acc + 1) * 16) * 16 ^ (k + 1) :=
            Nat.mul_le_mul_right _ (by omega)
          refine hroom.trans (Eq.trans_le ?_ hs)
          rw [Nat.mul_assoc, ← pow_succ']
        | zero =>
          have hn : acc * 16 + d < 0x10000 := by
            change (acc + 1) * 16 ≤ 0x10000 at hs
            omega
          simp only [unquote, hvalue]
          rw [hplain, Option.map_map, Option.map_map, (received_closeEscape pending hn []).1]
          refine congrArg (Option.map · _) (funext fun r => Prod.ext ?_ rfl)
          exact ((received_closeEscape pending hn r.1).2).symm

/-! ## Tokens and documents -/

def Token.map (f : GoString → GoString) : Token → Token
  | .string s => .string (f s)
  | token => token

mutual
def mapStrings (f : GoString → GoString) : Json → Json
  | .string s => .string (f s)
  | .array vs => .array (mapStringsAll f vs)
  | .object ms => .object (mapStringsMembers f ms)
  | v => v

def mapStringsAll (f : GoString → GoString) : List Json → List Json
  | [] => []
  | v :: vs => mapStrings f v :: mapStringsAll f vs

def mapStringsMembers (f : GoString → GoString) : List (GoString × Json) → List (GoString × Json)
  | [] => []
  | (name, v) :: ms => (f name, mapStrings f v) :: mapStringsMembers f ms
end

theorem punctuation_map {u : GoString} {token : Token} (h : punctuation u = some token)
    (f : GoString → GoString) : Token.map f token = token := by
  unfold punctuation at h
  split_ifs at h
  all_goals
    obtain rfl := Option.some.inj h
    rfl

theorem tokenize_received (fuel : ℕ) (t : Text) (ht : ∀ u ∈ t, IsUnit u) :
    tokenize replacing fuel t = (tokenize keeping fuel t).map (List.map (Token.map received)) := by
  induction fuel generalizing t with
  | zero => cases t <;> rfl
  | succ fuel ih =>
    cases t with
    | nil => rfl
    | cons u t =>
      have hnext : ∀ (token : Token) (r : Text), r <:+ u :: t →
          (tokenize replacing fuel r).map (Token.map received token :: ·) =
            ((tokenize keeping fuel r).map (token :: ·)).map (List.map (Token.map received)) := by
        intro token r hr
        rw [ih r fun x hx => ht x (hr.subset hx), Option.map_map, Option.map_map]
        rfl
      have htail : ∀ x ∈ t, IsUnit x := fun x hx => ht x (List.mem_cons_of_mem u hx)
      rw [tokenize, tokenize]
      by_cases hblank : isBlank u = true
      · rw [if_pos hblank, if_pos hblank]
        exact ih t htail
      rw [if_neg hblank, if_neg hblank]
      cases hpunct : punctuation u with
      | some token =>
        have hmark := hnext token t (List.suffix_cons u t)
        rwa [punctuation_map hpunct] at hmark
      | none =>
        dsimp only
        by_cases hquote : u = lit "\""
        · rw [if_pos hquote, if_pos hquote, unquote_received t htail .plain trivial none]
          cases hread : unquote keeping .plain none t with
          | none => rfl
          | some r =>
            exact hnext (.string r.1) r.2 ((unquote_suffix t _ _ r hread).trans (List.suffix_cons u t))
        rw [if_neg hquote, if_neg hquote]
        by_cases hnumber : isNumberUnit u = true
        · rw [if_pos hnumber, if_pos hnumber]
          split_ifs
          · exact hnext (.number _) _ (List.dropWhile_suffix _)
          · rfl
        rw [if_neg hnumber, if_neg hnumber]
        cases hnull : word "null" (u :: t) with
        | some r => exact hnext .null r (word_suffix hnull)
        | none =>
          cases htrue : word "true" (u :: t) with
          | some r => exact hnext .true r (word_suffix htrue)
          | none =>
            cases hfalse : word "false" (u :: t) with
            | some r => exact hnext .false r (word_suffix hfalse)
            | none => rfl

/-- With so much fuel the parsers read from mapped tokens the mapped values. -/
structure Mapped (f : GoString → GoString) (fuel : ℕ) : Prop where
  value : ∀ (room : ℕ) (ts : List Token), parseValue fuel room (ts.map (Token.map f)) =
    (parseValue fuel room ts).map fun x => (mapStrings f x.1, x.2.map (Token.map f))
  elements : ∀ (room : ℕ) (ts : List Token), parseElements fuel room (ts.map (Token.map f)) =
    (parseElements fuel room ts).map fun x => (mapStringsAll f x.1, x.2.map (Token.map f))
  members : ∀ (room : ℕ) (ts : List Token), parseMembers fuel room (ts.map (Token.map f)) =
    (parseMembers fuel room ts).map fun x => (mapStringsMembers f x.1, x.2.map (Token.map f))

section Mapping
variable {f : GoString → GoString} {fuel : ℕ}

theorem Mapped.array (h : Mapped f fuel) (room : ℕ) (r : List Token) :
    parseValue (fuel + 1) (room + 1) (.openBracket :: r.map (Token.map f)) =
      (parseValue (fuel + 1) (room + 1) (.openBracket :: r)).map fun x =>
        (mapStrings f x.1, x.2.map (Token.map f)) := by
  by_cases hclose : ∃ rest, r = .closeBracket :: rest
  · obtain ⟨rest, rfl⟩ := hclose
    rfl
  have hr : ∀ rest, r ≠ .closeBracket :: rest := fun rest h => hclose ⟨rest, h⟩
  have hmapped : ∀ rest, r.map (Token.map f) ≠ .closeBracket :: rest := by
    intro rest h
    cases r with
    | nil => cases h
    | cons token r =>
      obtain ⟨htoken, _⟩ := List.cons.inj h
      cases token with
      | closeBracket => exact hr r rfl
      | _ => cases htoken
  rw [parseValue_array hr, parseValue_array hmapped, h.value]
  cases parseValue fuel room r with
  | none => rfl
  | some x =>
    simp only [Option.map_some, Option.bind_some, h.elements, Option.map_map]
    rfl

theorem Mapped.object (h : Mapped f fuel) (room : ℕ) (r : List Token) :
    parseValue (fuel + 1) (room + 1) (.openBrace :: r.map (Token.map f)) =
      (parseValue (fuel + 1) (room + 1) (.openBrace :: r)).map fun x =>
        (mapStrings f x.1, x.2.map (Token.map f)) := by
  cases r with
  | nil => rfl
  | cons name r =>
    cases name with
    | string k =>
      cases r with
      | nil => rfl
      | cons separator r =>
        cases separator with
        | colon =>
          simp only [List.map_cons, Token.map, parseValue, h.value]
          cases parseValue fuel room r with
          | none => rfl
          | some x =>
            simp only [Option.map_some, Option.bind_some, h.members, Option.map_map]
            rfl
        | _ => rfl
    | _ => rfl

theorem Mapped.nextElements (h : Mapped f fuel) (room : ℕ) (ts : List Token) :
    parseElements (fuel + 1) room (ts.map (Token.map f)) =
      (parseElements (fuel + 1) room ts).map fun x => (mapStringsAll f x.1, x.2.map (Token.map f)) := by
  cases ts with
  | nil => rfl
  | cons token r =>
    cases token with
    | comma =>
      simp only [List.map_cons, Token.map, parseElements, h.value]
      cases parseValue fuel room r with
      | none => rfl
      | some x =>
        simp only [Option.map_some, Option.bind_some, h.elements, Option.map_map]
        rfl
    | _ => rfl

theorem Mapped.nextMembers (h : Mapped f fuel) (room : ℕ) (ts : List Token) :
    parseMembers (fuel + 1) room (ts.map (Token.map f)) =
      (parseMembers (fuel + 1) room ts).map fun x =>
        (mapStringsMembers f x.1, x.2.map (Token.map f)) := by
  cases ts with
  | nil => rfl
  | cons token r =>
    cases token with
    | comma =>
      cases r with
      | nil => rfl
      | cons name r =>
        cases name with
        | string k =>
          cases r with
          | nil => rfl
          | cons separator r =>
            cases separator with
            | colon =>
              simp only [List.map_cons, Token.map, parseMembers, h.value]
              cases parseValue fuel room r with
              | none => rfl
              | some x =>
                simp only [Option.map_some, Option.bind_some, h.members, Option.map_map]
                rfl
            | _ => rfl
        | _ => rfl
    | _ => rfl

end Mapping

theorem parse_mapped (f : GoString → GoString) (fuel : ℕ) : Mapped f fuel := by
  induction fuel with
  | zero =>
    refine ⟨fun room ts => ?_, fun room ts => ?_, fun room ts => ?_⟩
    · rw [parseValue, parseValue, Option.map_none]
    · rw [parseElements, parseElements, Option.map_none]
    · rw [parseMembers, parseMembers, Option.map_none]
  | succ fuel ih =>
    refine ⟨fun room ts => ?_, ih.nextElements, ih.nextMembers⟩
    cases ts with
    | nil => rfl
    | cons token r =>
      cases token with
      | openBracket =>
        cases room with
        | zero => rfl
        | succ room => exact ih.array room r
      | openBrace =>
        cases room with
        | zero => rfl
        | succ room => exact ih.object room r
      | _ => rfl

theorem parse_eq (data : GoString) : parse data = (written data).map (mapStrings received) := by
  rw [parse, written, parseWith, parseWith, tokenize_received _ _ fun u hu => isUnit_of_mem hu]
  cases tokenize keeping (units data).length (units data) with
  | none => rfl
  | some ts =>
    rw [Option.map_some, Option.bind_some, Option.bind_some, List.length_map,
      (parse_mapped received ts.length).value maxNestingDepth ts]
    cases parseValue ts.length maxNestingDepth ts with
    | none => rfl
    | some x =>
      obtain ⟨v, rest⟩ := x
      cases rest with
      | nil => rfl
      | cons token rest => rfl

/-! ## What survives the decoder -/

mutual
/-- The strings and the names of a value, at any depth. -/
def texts : Value → List GoString
  | .string s => [s]
  | .array vs => textsAll vs
  | .object ms => textsMembers ms
  | _ => []

def textsAll : List Value → List GoString
  | [] => []
  | v :: vs => texts v ++ textsAll vs

def textsMembers : List (GoString × Value) → List GoString
  | [] => []
  | (name, v) :: ms => name :: texts v ++ textsMembers ms
end

def Legible (v : Value) : Prop := ∀ s ∈ texts v, Characters s

instance (v : Value) : Decidable (Legible v) :=
  inferInstanceAs (Decidable (∀ s ∈ texts v, Characters s))

/-- A member that the decoder and the encoder of `map[string]any` leave as it is. -/
def Survives (name : GoString) (v : Value) : Prop := Characters name ∧ Legible v ∧ Representable v

instance (name : GoString) (v : Value) : Decidable (Survives name v) :=
  inferInstanceAs (Decidable (Characters name ∧ Legible v ∧ Representable v))

theorem legible_array {vs : List Value} : Legible (.array vs) ↔ ∀ v ∈ vs, Legible v := by
  unfold Legible
  rw [texts]
  induction vs with
  | nil => simp [textsAll]
  | cons v vs ih => rw [textsAll, List.forall_mem_append, List.forall_mem_cons, ih]

theorem legible_object {ms : List (GoString × Value)} :
    Legible (.object ms) ↔ ∀ m ∈ ms, Characters m.1 ∧ Legible m.2 := by
  unfold Legible
  rw [texts]
  induction ms with
  | nil => simp [textsMembers]
  | cons m ms ih =>
    rw [textsMembers, List.cons_append, List.forall_mem_cons, List.forall_mem_append, List.forall_mem_cons,
      ih, and_assoc]

theorem memberValues_mapped (f : GoString → GoString) (ms : List (GoString × Json)) :
    memberValues (mapStringsMembers f ms) = ms.map fun m => (f m.1, valueOf (mapStrings f m.2)) := by
  induction ms with
  | nil => rfl
  | cons m ms ih => rw [mapStringsMembers, memberValues, ih, List.map_cons]

theorem memberValues_eq_map (ms : List (GoString × Json)) :
    memberValues ms = ms.map fun m => (m.1, valueOf m.2) := by
  induction ms with
  | nil => rfl
  | cons m ms ih => rw [memberValues, ih, List.map_cons]

theorem settle_map {α β : Type} (f : GoString → GoString) (g : β → α) (ms : List (GoString × β))
    (name : GoString) : (settle (ms.map fun m => (f m.1, g m.2)))[name]? =
      (ms.reverse.find? fun m => f m.1 = name).map fun m => g m.2 := by
  rw [settle, getElem?_foldl_insert, Std.ExtTreeMap.getElem?_empty, Option.or_none, ← List.map_reverse,
    List.find?_map, Option.map_map]
  rfl

theorem mem_of_settle {α : Type} {ms : List (GoString × α)} {name : GoString} {v : α}
    (h : (settle ms)[name]? = some v) : (name, v) ∈ ms := by
  rw [settle, getElem?_foldl_insert, Std.ExtTreeMap.getElem?_empty, Option.or_none] at h
  obtain ⟨m, hm, rfl⟩ := Option.map_eq_some_iff.mp h
  have hname : m.1 = name := by simpa using List.find?_some hm
  exact hname ▸ List.mem_reverse.mp (List.mem_of_find?_eq_some hm)

theorem settle_memberValues (ms : List (GoString × Json)) (name : GoString) :
    (settle (memberValues ms))[name]? =
      (ms.reverse.find? fun m => m.1 = name).map fun m => valueOf m.2 := by
  rw [memberValues_eq_map]
  exact settle_map id valueOf ms name

theorem exists_settle_of_mem {α : Type} {ms : List (GoString × α)} {m : GoString × α} (hm : m ∈ ms) :
    ∃ v, (settle ms)[m.1]? = some v := by
  rw [settle, getElem?_foldl_insert, Std.ExtTreeMap.getElem?_empty, Option.or_none]
  cases hfind : ms.reverse.find? fun other => other.1 = m.1 with
  | none => exact absurd (by simp) (List.find?_eq_none.mp hfind m (List.mem_reverse.mpr hm))
  | some other => exact ⟨_, rfl⟩

theorem exists_settle {ms : List (GoString × Json)} {m : GoString × Json} (hm : m ∈ ms) :
    ∃ v, (settle (memberValues ms))[m.1]? = some v := by
  rw [memberValues_eq_map]
  exact exists_settle_of_mem (m := (m.1, valueOf m.2)) (List.mem_map_of_mem hm)

theorem legible_valueOf_object {ms : List (GoString × Json)} : Legible (valueOf (.object ms)) ↔
    ∀ name v, (settle (memberValues ms))[name]? = some v → Characters name ∧ Legible v := by
  rw [valueOf, legible_object]
  constructor
  · intro h name v hv
    exact h (name, v) (Std.ExtTreeMap.mem_toList_iff_getElem?_eq_some.mpr hv)
  · intro h m hm
    exact h m.1 m.2 (Std.ExtTreeMap.mem_toList_iff_getElem?_eq_some.mp hm)

mutual
theorem legible_received (v : Json) : Legible (valueOf (mapStrings received v)) := by
  cases v with
  | string s => simpa [mapStrings, valueOf, Legible, texts] using characters_received s
  | array vs =>
    rw [mapStrings, valueOf, legible_array]
    exact legible_receivedAll vs
  | object ms =>
    rw [mapStrings, legible_valueOf_object]
    intro name v hv
    exact legible_receivedMembers ms (name, v) (mem_of_settle hv)
  | _ => simp [mapStrings, valueOf, Legible, texts]

theorem legible_receivedAll (vs : List Json) : ∀ v ∈ valuesOf (mapStringsAll received vs), Legible v := by
  cases vs with
  | nil => simp [mapStringsAll, valuesOf]
  | cons v vs =>
    rw [mapStringsAll, valuesOf, List.forall_mem_cons]
    exact ⟨legible_received v, legible_receivedAll vs⟩

theorem legible_receivedMembers (ms : List (GoString × Json)) :
    ∀ m ∈ memberValues (mapStringsMembers received ms), Characters m.1 ∧ Legible m.2 := by
  cases ms with
  | nil => simp [mapStringsMembers, memberValues]
  | cons m ms =>
    rw [mapStringsMembers, memberValues, List.forall_mem_cons]
    exact ⟨⟨characters_received m.1, legible_received m.2⟩, legible_receivedMembers ms⟩
end

theorem settle_received {ms : List (GoString × Json)} (h : ∀ m ∈ ms, Characters m.1) (name : GoString) :
    (settle (memberValues (mapStringsMembers received ms)))[name]? =
      (ms.reverse.find? fun m => m.1 = name).map fun m => valueOf (mapStrings received m.2) := by
  have hnames : memberValues (mapStringsMembers received ms) =
      ms.map fun m => (id m.1, valueOf (mapStrings received m.2)) := by
    rw [memberValues_mapped]
    exact List.map_congr_left fun m hm => by rw [received_of_characters (h m hm), id]
  rw [hnames]
  exact settle_map id (fun v => valueOf (mapStrings received v)) ms name

mutual
theorem valueOf_received (v : Json) (h : Legible (valueOf v)) :
    valueOf (mapStrings received v) = valueOf v := by
  cases v with
  | string s =>
    have hs : Characters s := by simpa [valueOf, Legible, texts] using h
    rw [mapStrings, received_of_characters hs]
  | array vs =>
    rw [valueOf, legible_array] at h
    rw [mapStrings, valueOf, valueOf, valuesOf_received vs h]
  | object ms =>
    have hlegible := legible_valueOf_object.mp h
    have hnames : ∀ m ∈ ms, Characters m.1 := by
      intro m hm
      obtain ⟨v, hv⟩ := exists_settle hm
      exact (hlegible m.1 v hv).1
    rw [mapStrings, valueOf, valueOf]
    refine congrArg (fun next : GoMap Value => Value.object next.toList) ?_
    refine Std.ExtTreeMap.ext_getElem? fun name => ?_
    have hkept := settle_memberValues ms name
    rw [settle_received hnames, hkept]
    cases hfind : ms.reverse.find? fun m => m.1 = name with
    | none => rfl
    | some m =>
      rw [hfind] at hkept
      have hm : m ∈ ms := List.mem_reverse.mp (List.mem_of_find?_eq_some hfind)
      exact congrArg some (membersValues_received ms m hm (hlegible name _ hkept).2)
  | _ => rfl

theorem valuesOf_received (vs : List Json) (h : ∀ v ∈ valuesOf vs, Legible v) :
    valuesOf (mapStringsAll received vs) = valuesOf vs := by
  cases vs with
  | nil => rfl
  | cons v vs =>
    rw [valuesOf, List.forall_mem_cons] at h
    rw [mapStringsAll, valuesOf, valuesOf, valueOf_received v h.1, valuesOf_received vs h.2]

theorem membersValues_received (ms : List (GoString × Json)) :
    ∀ m ∈ ms, Legible (valueOf m.2) → valueOf (mapStrings received m.2) = valueOf m.2 := by
  cases ms with
  | nil => exact fun m hm => absurd hm List.not_mem_nil
  | cons m ms =>
    rw [List.forall_mem_cons]
    exact ⟨valueOf_received m.2, membersValues_received ms⟩
end

mutual
theorem decodesToAny_mapped (f : GoString → GoString) (v : Json) :
    decodesToAny (mapStrings f v) = decodesToAny v := by
  cases v with
  | array vs => rw [mapStrings, decodesToAny, decodesToAny, decodesToAnyAll_mapped f vs]
  | object ms => rw [mapStrings, decodesToAny, decodesToAny, decodesToAnyMembers_mapped f ms]
  | _ => rfl

theorem decodesToAnyAll_mapped (f : GoString → GoString) (vs : List Json) :
    decodesToAnyAll (mapStringsAll f vs) = decodesToAnyAll vs := by
  cases vs with
  | nil => rfl
  | cons v vs =>
    rw [mapStringsAll, decodesToAnyAll, decodesToAnyAll, decodesToAny_mapped f v,
      decodesToAnyAll_mapped f vs]

theorem decodesToAnyMembers_mapped (f : GoString → GoString) (ms : List (GoString × Json)) :
    decodesToAnyMembers (mapStringsMembers f ms) = decodesToAnyMembers ms := by
  cases ms with
  | nil => rfl
  | cons m ms =>
    rw [mapStringsMembers, decodesToAnyMembers, decodesToAnyMembers, decodesToAny_mapped f m.2,
      decodesToAnyMembers_mapped f ms]
end

mutual
theorem texts_mapNumbers (f : ℚ → ℚ) (v : Value) : texts (mapNumbers f v) = texts v := by
  cases v with
  | array vs => rw [mapNumbers, texts, texts, textsAll_mapNumbers f vs]
  | object ms => rw [mapNumbers, texts, texts, textsMembers_mapNumbers f ms]
  | _ => rfl

theorem textsAll_mapNumbers (f : ℚ → ℚ) (vs : List Value) : textsAll (mapNumbersAll f vs) =
    textsAll vs := by
  cases vs with
  | nil => rfl
  | cons v vs => rw [mapNumbersAll, textsAll, textsAll, texts_mapNumbers f v, textsAll_mapNumbers f vs]

theorem textsMembers_mapNumbers (f : ℚ → ℚ) (ms : List (GoString × Value)) :
    textsMembers (mapNumbersMembers f ms) = textsMembers ms := by
  cases ms with
  | nil => rfl
  | cons m ms =>
    rw [mapNumbersMembers, textsMembers, textsMembers, texts_mapNumbers f m.2, textsMembers_mapNumbers f ms]
end

/-- The members of a decoded object, by name, as they come back from the encoder. -/
def returned (ms : List (GoString × Json)) (name : GoString) : Option Value :=
  ((settle (memberValues (mapStringsMembers received ms)))[name]?).map fun v =>
    mapNumbers Float64.shortestDecimal (mapNumbers Float64.nearestFloat64 v)

theorem characters_of_others {others : GoString → Prop} {ms : List (GoString × Json)}
    (hothers : ∀ name, ¬ others name → Characters name)
    (h : ∀ name v, others name → (settle (memberValues ms))[name]? = some v → Characters name) :
    ∀ m ∈ ms, Characters m.1 := by
  intro m hm
  obtain ⟨v, hv⟩ := exists_settle hm
  by_cases hother : others m.1
  · exact h m.1 v hother hv
  · exact hothers m.1 hother

/-- The decoder and the encoder of `map[string]any` give some members back exactly when these
members survive. -/
theorem carried_iff {others : GoString → Prop} (hothers : ∀ name, ¬ others name → Characters name)
    (ms : List (GoString × Json)) :
    (∀ name, others name → returned ms name = (settle (memberValues ms))[name]?) ↔
      ∀ name v, others name → (settle (memberValues ms))[name]? = some v → Survives name v := by
  unfold returned
  constructor
  · intro h name v hother hv
    have hlegible : ∀ name v, others name → (settle (memberValues ms))[name]? = some v →
        Characters name ∧ Legible v := by
      intro name v hother hv
      have hname := h name hother
      rw [hv] at hname
      obtain ⟨w, hw, rfl⟩ := Option.map_eq_some_iff.mp hname
      obtain ⟨hcharacters, hw⟩ := legible_receivedMembers ms (name, w) (mem_of_settle hw)
      refine ⟨hcharacters, fun s hs => hw s ?_⟩
      rwa [texts_mapNumbers, texts_mapNumbers] at hs
    have hnames := characters_of_others hothers fun name v hother hv => (hlegible name v hother hv).1
    refine ⟨(hlegible name v hother hv).1, (hlegible name v hother hv).2, ?_⟩
    have hname := h name hother
    rw [settle_received hnames, hv] at hname
    rw [settle_memberValues] at hv
    obtain ⟨m, hm, rfl⟩ := Option.map_eq_some_iff.mp hv
    rw [hm, Option.map_some, Option.map_some, valueOf_received m.2 (hlegible name _ hother ?_).2] at hname
    · exact (through_eq_self _).mp (Option.some.inj hname)
    · rw [settle_memberValues, hm]
      rfl
  · intro h name hother
    have hnames := characters_of_others hothers fun name v hother hv => (h name v hother hv).1
    rw [settle_received hnames, settle_memberValues]
    cases hfind : ms.reverse.find? fun m => m.1 = name with
    | none => rfl
    | some m =>
      have hv : (settle (memberValues ms))[name]? = some (valueOf m.2) := by
        rw [settle_memberValues, hfind]
        rfl
      obtain ⟨_, hlegible, hrepresentable⟩ := h name _ hother hv
      rw [Option.map_some, Option.map_some, valueOf_received m.2 hlegible]
      exact congrArg some ((through_eq_self _).mpr hrepresentable)

end SubscriptionRouter.WrittenJson
