import Mathlib
import SubscriptionRouter.JsonText

set_option autoImplicit false

/-!
# What is written reads back

`parse_render`: a document that has been written reads as itself, with the ill-formed
bytes of its strings replaced. The text is cut into the document's tokens, and the tokens
are put together again.
-/
namespace SubscriptionRouter.JsonRoundTrip
open GoText JsonText

/-! ## The tokenizer without its fuel -/

theorem unquote_suffix {repair : Repair} (t : Text) : ∀ (state : StringState) (pending : Option ℕ)
    (r : GoString × Text), unquote repair state pending t = some r → r.2 <:+ t := by
  induction t with
  | nil =>
    intro state pending r h
    cases state <;> simp [unquote] at h
  | cons u t ih =>
    intro state pending r h
    have hmap : ∀ {s : StringState} {p : Option ℕ} {f : GoString → GoString},
        (unquote repair s p t).map (fun r => (f r.1, r.2)) = some r → r.2 <:+ u :: t := by
      intro s p f h
      obtain ⟨q, hq, rfl⟩ := Option.map_eq_some_iff.mp h
      exact (ih s p q hq).trans (List.suffix_cons u t)
    cases state with
    | plain =>
      rw [unquote] at h
      split at h
      · cases h
        exact List.suffix_cons u t
      · split at h
        · exact (ih _ _ _ h).trans (List.suffix_cons u t)
        · split at h
          · cases h
          · exact hmap (f := fun x => flushSurrogate repair pending ++ repair.unit u ++ x) h
    | escape =>
      rw [unquote] at h
      split at h
      · exact (ih _ _ _ h).trans (List.suffix_cons u t)
      · split at h
        · cases h
        · rename_i e _
          exact hmap (f := fun x => flushSurrogate repair pending ++ e ++ x) h
    | hex left acc =>
      cases hv : hexValue u with
      | none =>
        simp only [unquote, hv] at h
        cases h
      | some d =>
        cases left with
        | succ k =>
          simp only [unquote, hv] at h
          exact (ih _ _ _ h).trans (List.suffix_cons u t)
        | zero =>
          simp only [unquote, hv] at h
          exact hmap (f := fun x => (closeEscape repair pending (acc * 16 + d)).1 ++ x) h

theorem word_suffix {name : String} {t r : Text} (h : word name t = some r) : r <:+ t := by
  unfold word at h
  split at h
  · cases h
    exact List.drop_suffix _ t
  · cases h

theorem word_length {name : String} {u : GoString} {t r : Text} (hname : chars name ≠ [])
    (h : word name (u :: t) = some r) : r.length ≤ t.length := by
  unfold word at h
  split at h
  · cases h
    have hpos := List.length_pos_iff.mpr hname
    rw [List.length_drop, List.length_cons]
    omega
  · cases h

def scan (t : Text) : Option (List Token) := tokenize replacing t.length t

theorem tokenize_congr (t : Text) (f g : ℕ)
    (h : ∀ r : Text, r.length ≤ t.length → tokenize replacing f r = tokenize replacing g r) (u : GoString) :
    tokenize replacing (f + 1) (u :: t) = tokenize replacing (g + 1) (u :: t) := by
  have hdrop : isNumberUnit u = true →
      ((u :: t).dropWhile isNumberUnit).length ≤ t.length := fun hu => by
    rw [List.dropWhile_cons_of_pos hu]
    exact (List.dropWhile_sublist _).length_le
  rw [tokenize, tokenize]
  split
  · exact h t le_rfl
  · split
    · rw [h t le_rfl]
    · split
      · refine Option.bind_congr fun r hr => ?_
        rw [h r.2 (unquote_suffix t _ _ r hr).length_le]
      · split
        · rename_i hnumber
          dsimp only
          split
          · rw [h _ (hdrop hnumber)]
          · rfl
        · cases hnull : word "null" (u :: t) with
          | some r =>
            dsimp only
            rw [h r (word_length (by decide) hnull)]
          | none =>
            cases htrue : word "true" (u :: t) with
            | some r =>
              dsimp only
              rw [h r (word_length (by decide) htrue)]
            | none =>
              cases hfalse : word "false" (u :: t) with
              | some r =>
                dsimp only
                rw [h r (word_length (by decide) hfalse)]
              | none => rfl

theorem tokenize_eq_scan (f : ℕ) : ∀ t : Text, t.length ≤ f → tokenize replacing f t = scan t := by
  induction f using Nat.strong_induction_on with
  | _ f ih =>
    intro t ht
    cases t with
    | nil =>
      rw [scan]
      cases f <;> rfl
    | cons u t =>
      rw [List.length_cons] at ht
      obtain ⟨g, rfl⟩ := Nat.exists_eq_succ_of_ne_zero (by omega : f ≠ 0)
      refine tokenize_congr t g t.length (fun r hr => ?_) u
      rw [ih g (by omega) r (by omega)]
      by_cases hlt : t.length < g + 1
      · exact (ih t.length hlt r hr).symm
      · omega

/-! ## One token at a time -/

theorem scan_blank {u : GoString} (hu : isBlank u = true) (t : Text) :
    scan (u :: t) = scan t := by
  rw [scan, List.length_cons, tokenize, if_pos hu]
  rfl

theorem scan_blanks {b : Text} (hb : ∀ u ∈ b, isBlank u = true) (t : Text) :
    scan (b ++ t) = scan t := by
  induction b with
  | nil => rfl
  | cons u b ih =>
    rw [List.cons_append, scan_blank (hb u List.mem_cons_self),
      ih fun v hv => hb v (List.mem_cons_of_mem u hv)]

theorem scan_punctuation {u : GoString} {p : Token} (hu : isBlank u = false)
    (hp : punctuation u = some p) (t : Text) : scan (u :: t) = (scan t).map (p :: ·) := by
  rw [scan, List.length_cons, tokenize, if_neg (by rw [hu]; nofun), hp]
  rfl

theorem scan_quote (s : GoString) (t : Text) :
    scan (quote s ++ t) = (scan t).map (.string (toValid s) :: ·) := by
  have hread := unquote_quote s t
  have htext : quote s ++ t =
      lit "\"" :: ((units s).flatMap quoteUnit ++ (chars "\"" ++ t)) := by
    rw [quote, show chars "\"" = [lit "\""] by decide]
    simp
  have hlong := (unquote_suffix _ _ _ _ hread).length_le
  rw [htext, scan, List.length_cons, tokenize, if_neg (by decide)]
  have hnone : punctuation (lit "\"") = none := by decide
  simp only [hnone, if_pos, hread, Option.bind_some]
  rw [tokenize_eq_scan _ t hlong]

def Stops (t : Text) : Prop := ∀ u ∈ t.head?, isNumberUnit u = false

theorem isNumberUnit_cases {u : GoString} (h : isNumberUnit u = true) :
    isBlank u = false ∧ punctuation u = none ∧ u ≠ lit "\"" := by
  unfold isNumberUnit at h
  split at h
  · rename_i b
    revert b
    decide +kernel
  · cases h

theorem scan_number {literal : GoString} (hne : literal ≠ [])
    (hunits : ∀ b ∈ literal, isNumberUnit [b] = true) (hvalid : validNumber literal = true)
    {t : Text} (ht : Stops t) :
    scan (literal.map (fun b => [b]) ++ t) = (scan t).map (.number literal :: ·) := by
  obtain ⟨b, rest, rfl⟩ := List.exists_cons_of_ne_nil hne
  set text : Text := (b :: rest).map fun b => [b]
  have htext : text ++ t = [b] :: (rest.map (fun b => [b]) ++ t) := rfl
  have hall : ∀ u ∈ text, isNumberUnit u = true := by
    intro u hu
    obtain ⟨c, hc, rfl⟩ := List.mem_map.mp hu
    exact hunits c hc
  have hstop : t.takeWhile isNumberUnit = [] ∧ t.dropWhile isNumberUnit = t := by
    cases t with
    | nil => exact ⟨rfl, rfl⟩
    | cons u t =>
      have hu := ht u rfl
      rw [List.takeWhile_cons_of_neg (by rw [hu]; nofun),
        List.dropWhile_cons_of_neg (by rw [hu]; nofun)]
      exact ⟨rfl, rfl⟩
  have htake : (text ++ t).takeWhile isNumberUnit = text := by
    rw [List.takeWhile_append_of_pos hall, hstop.1, List.append_nil]
  have hdrop : (text ++ t).dropWhile isNumberUnit = t := by
    rw [List.dropWhile_append_of_pos hall, hstop.2]
  have hflat : text.flatten = b :: rest := by
    simp only [text, ← List.flatMap_def]
    exact List.flatMap_singleton' _
  obtain ⟨hblank, hpunct, hquote⟩ := isNumberUnit_cases (hunits b List.mem_cons_self)
  have hlength : t.length ≤ (rest.map (fun b => [b]) ++ t).length := by simp
  rw [htext, scan, List.length_cons, tokenize, if_neg (by rw [hblank]; nofun), hpunct]
  simp only [if_neg hquote, if_pos (hunits b List.mem_cons_self), ← htext, htake, hdrop, hflat,
    hvalid, if_true]
  rw [tokenize_eq_scan _ t hlength]

theorem word_self (name : String) (t : Text) : word name (chars name ++ t) = some t := by
  rw [word, if_pos (List.prefix_append _ _), List.drop_left]

theorem word_other {name : String} {c : GoString} {rest t : Text} (h : (chars name).head? ≠ some c)
    (hname : chars name ≠ []) : word name (c :: rest ++ t) = none := by
  refine if_neg ?_
  rintro ⟨s, hs⟩
  cases hc : chars name with
  | nil => exact hname hc
  | cons d ds =>
    rw [hc] at hs h
    exact h (congrArg some (List.cons.inj hs).1)

/-- A literal name that stands at the front of a text. -/
theorem scan_name {name : String} {token : Token} {c : GoString} {rest t : Text}
    (hname : chars name = c :: rest) (hblank : isBlank c = false) (hpunct : punctuation c = none)
    (hquote : c ≠ lit "\"") (hnumber : isNumberUnit c = false)
    (hwords : ∀ f, (match word "null" (chars name ++ t), word "true" (chars name ++ t),
        word "false" (chars name ++ t) with
      | some r, _, _ => (tokenize replacing f r).map (.null :: ·)
      | _, some r, _ => (tokenize replacing f r).map (.true :: ·)
      | _, _, some r => (tokenize replacing f r).map (.false :: ·)
      | none, none, none => none) = (tokenize replacing f t).map (token :: ·)) :
    scan (chars name ++ t) = (scan t).map (token :: ·) := by
  have htext : chars name ++ t = c :: (rest ++ t) := by rw [hname]; rfl
  have hlength : t.length ≤ (rest ++ t).length := by simp
  rw [htext] at hwords ⊢
  rw [scan, List.length_cons, tokenize, if_neg (by rw [hblank]; nofun), hpunct]
  simp only [if_neg hquote, hnumber, Bool.false_eq_true, if_false]
  rw [← tokenize_eq_scan _ t hlength]
  exact hwords _

theorem scan_null (t : Text) : scan (chars "null" ++ t) = (scan t).map (.null :: ·) := by
  have hname : chars "null" = lit "n" :: [lit "u", lit "l", lit "l"] := by decide
  refine scan_name hname (by decide) (by decide) (by decide) (by decide) fun f => ?_
  rw [word_self]

theorem scan_true (t : Text) : scan (chars "true" ++ t) = (scan t).map (.true :: ·) := by
  have hname : chars "true" = lit "t" :: [lit "r", lit "u", lit "e"] := by decide
  refine scan_name hname (by decide) (by decide) (by decide) (by decide) fun f => ?_
  have hnull : word "null" (chars "true" ++ t) = none :=
    word_other (c := lit "t") (by decide) (by decide)
  rw [word_self, hnull]

theorem scan_false (t : Text) : scan (chars "false" ++ t) = (scan t).map (.false :: ·) := by
  have hname : chars "false" = lit "f" :: [lit "a", lit "l", lit "s", lit "e"] := by decide
  refine scan_name hname (by decide) (by decide) (by decide) (by decide) fun f => ?_
  have hnull : word "null" (chars "false" ++ t) = none :=
    word_other (c := lit "f") (by decide) (by decide)
  have htrue : word "true" (chars "false" ++ t) = none :=
    word_other (c := lit "f") (by decide) (by decide)
  rw [word_self, hnull, htrue]

/-! ## Number literals -/

theorem isNumberUnit_digit {b : UInt8} (h : isDigit b = true) : isNumberUnit [b] = true := by
  unfold isDigit at h
  unfold isNumberUnit
  simp only [h, Bool.true_or]

theorem isNumberUnit_dropExponent {s : GoString} (h : dropExponent s = true) :
    ∀ b ∈ s, isNumberUnit [b] = true := by
  cases s with
  | nil => nofun
  | cons e t =>
    simp only [dropExponent, Bool.and_eq_true, Bool.or_eq_true, decide_eq_true_eq] at h
    obtain ⟨he, _, hdigits⟩ := h
    have hfirst : isNumberUnit [e] = true := by rcases he with rfl | rfl <;> decide
    intro b hb
    rcases List.mem_cons.mp hb with rfl | hb
    · exact hfirst
    · cases t with
      | nil => cases hb
      | cons c t =>
        dsimp only at hdigits
        by_cases hsign : c = 0x2B ∨ c = 0x2D
        · rw [if_pos hsign] at hdigits
          rcases List.mem_cons.mp hb with rfl | hb
          · rcases hsign with rfl | rfl <;> decide
          · exact isNumberUnit_digit (List.all_eq_true.mp hdigits b hb)
        · rw [if_neg hsign] at hdigits
          exact isNumberUnit_digit (List.all_eq_true.mp hdigits b hb)

theorem isNumberUnit_takeWhile {s : GoString} (h : ∀ b ∈ s.dropWhile isDigit,
    isNumberUnit [b] = true) : ∀ b ∈ s, isNumberUnit [b] = true := by
  intro b hb
  rw [← List.takeWhile_append_dropWhile (p := isDigit) (l := s)] at hb
  rcases List.mem_append.mp hb with hb | hb
  · exact isNumberUnit_digit (List.mem_takeWhile_imp hb)
  · exact h b hb

theorem isNumberUnit_dropFraction {s : GoString} (h : dropFraction s = true) :
    ∀ b ∈ s, isNumberUnit [b] = true := by
  unfold dropFraction at h
  split at h
  · rename_i t
    have hrest := isNumberUnit_takeWhile
      (isNumberUnit_dropExponent (Bool.and_eq_true_iff.mp h).2)
    intro b hb
    rcases List.mem_cons.mp hb with rfl | hb
    · decide
    · exact hrest b hb
  · exact isNumberUnit_dropExponent h

theorem isNumberUnit_validNumber {s : GoString} (h : validNumber s = true) :
    s ≠ [] ∧ ∀ b ∈ s, isNumberUnit [b] = true := by
  have hplain : ∀ c t, (if c = 0x30 then dropFraction t
      else isDigit c && dropFraction (t.dropWhile isDigit)) = true →
      ∀ b ∈ c :: t, isNumberUnit [b] = true := by
    intro c t ht b hb
    split at ht
    · rename_i hzero
      rcases List.mem_cons.mp hb with rfl | hb
      · rw [hzero]
        decide
      · exact isNumberUnit_dropFraction ht b hb
    · obtain ⟨hdigit, hrest⟩ := Bool.and_eq_true_iff.mp ht
      rcases List.mem_cons.mp hb with rfl | hb
      · exact isNumberUnit_digit hdigit
      · exact isNumberUnit_takeWhile (isNumberUnit_dropFraction hrest) b hb
  unfold validNumber at h
  split at h
  · rename_i t
    refine ⟨List.cons_ne_nil _ _, fun b hb => ?_⟩
    cases t with
    | nil => cases h
    | cons c t =>
      rcases List.mem_cons.mp hb with rfl | hb
      · decide
      · exact hplain c t h b hb
  · cases s with
    | nil => cases h
    | cons c t => exact ⟨List.cons_ne_nil _ _, hplain c t h⟩


/-! ## The tokens of a document -/

mutual
def tokens : Json → List Token
  | .null => [.null]
  | .bool true => [.true]
  | .bool false => [.false]
  | .number literal => [.number literal]
  | .string s => [.string (toValid s)]
  | .array [] => [.openBracket, .closeBracket]
  | .array (v :: vs) => .openBracket :: (tokens v ++ elementTokens vs)
  | .object [] => [.openBrace, .closeBrace]
  | .object ((k, v) :: ms) =>
    .openBrace :: .string (toValid k) :: .colon :: (tokens v ++ memberTokens ms)

def elementTokens : List Json → List Token
  | [] => [.closeBracket]
  | v :: vs => .comma :: (tokens v ++ elementTokens vs)

def memberTokens : List (GoString × Json) → List Token
  | [] => [.closeBrace]
  | (k, v) :: ms => .comma :: .string (toValid k) :: .colon :: (tokens v ++ memberTokens ms)
end

mutual
/-- Every number of the document is of the JSON grammar. -/
def wellNumbered : Json → Bool
  | .number literal => validNumber literal
  | .array vs => wellNumberedAll vs
  | .object ms => wellNumberedMembers ms
  | _ => true

def wellNumberedAll : List Json → Bool
  | [] => true
  | v :: vs => wellNumbered v && wellNumberedAll vs

def wellNumberedMembers : List (GoString × Json) → Bool
  | [] => true
  | (_, v) :: ms => wellNumbered v && wellNumberedMembers ms
end

section Scanning
variable (ly : Layout)

theorem stops_of_blank {u : GoString} (hu : isBlank u = true) (t : Text) : Stops (u :: t) := by
  rintro _ ⟨⟩
  cases hn : isNumberUnit u with
  | false => rfl
  | true =>
    rw [(isNumberUnit_cases hn).1] at hu
    cases hu

theorem stops_newline (level : ℕ) {t : Text} (ht : Stops t) : Stops (ly.newline level ++ t) := by
  cases hb : ly.newline level with
  | nil => exact ht
  | cons u b => exact stops_of_blank (ly.newline_blank level u (by rw [hb]; exact List.mem_cons_self)) _

theorem stops_elements (level : ℕ) (vs : List Json) (t : Text) :
    Stops (renderElements ly level vs ++ t) := by
  cases vs with
  | nil =>
    rw [renderElements, List.append_assoc]
    refine stops_newline ly level ?_
    rintro _ ⟨⟩
    decide
  | cons v vs =>
    rw [renderElements]
    rintro _ ⟨⟩
    decide

theorem stops_members (level : ℕ) (ms : List (GoString × Json)) (t : Text) :
    Stops (renderMembers ly level ms ++ t) := by
  cases ms with
  | nil =>
    rw [renderMembers, List.append_assoc]
    refine stops_newline ly level ?_
    rintro _ ⟨⟩
    decide
  | cons m ms =>
    obtain ⟨k, v⟩ := m
    rw [renderMembers]
    rintro _ ⟨⟩
    decide

theorem scan_mark {mark : String} {u : GoString} {p : Token} (hmark : chars mark = [u])
    (hu : isBlank u = false) (hp : punctuation u = some p) (t : Text) :
    scan (chars mark ++ t) = (scan t).map (p :: ·) := by
  rw [hmark]
  exact scan_punctuation hu hp t

theorem scan_openBracket : ∀ t, scan (chars "[" ++ t) = (scan t).map (.openBracket :: ·) :=
  scan_mark (u := lit "[") (by decide) (by decide) rfl

theorem scan_closeBracket : ∀ t, scan (chars "]" ++ t) = (scan t).map (.closeBracket :: ·) :=
  scan_mark (u := lit "]") (by decide) (by decide) rfl

theorem scan_openBrace : ∀ t, scan (chars "\x7b" ++ t) = (scan t).map (.openBrace :: ·) :=
  scan_mark (u := lit "\x7b") (by decide) (by decide) rfl

theorem scan_closeBrace : ∀ t, scan (chars "\x7d" ++ t) = (scan t).map (.closeBrace :: ·) :=
  scan_mark (u := lit "\x7d") (by decide) (by decide) rfl

theorem scan_comma : ∀ t, scan (chars "," ++ t) = (scan t).map (.comma :: ·) :=
  scan_mark (u := lit ",") (by decide) (by decide) rfl

theorem scan_colon : ∀ t, scan (chars ":" ++ t) = (scan t).map (.colon :: ·) :=
  scan_mark (u := lit ":") (by decide) (by decide) rfl

mutual
theorem scan_render (level : ℕ) (v : Json) (t : Text) (hv : wellNumbered v = true)
    (ht : Stops t) : scan (render ly level v ++ t) = (scan t).map (tokens v ++ ·) := by
  match v with
  | .null => exact scan_null t
  | .bool true => exact scan_true t
  | .bool false => exact scan_false t
  | .number literal =>
    obtain ⟨hne, hunits⟩ := isNumberUnit_validNumber hv
    exact scan_number hne hunits hv ht
  | .string s => exact scan_quote s t
  | .array [] =>
    rw [render, show chars "[]" = chars "[" ++ chars "]" by decide, List.append_assoc,
      scan_openBracket, scan_closeBracket, Option.map_map]
    rfl
  | .array (v :: vs) =>
    obtain ⟨hv, hvs⟩ := Bool.and_eq_true_iff.mp hv
    simp only [render, List.append_assoc]
    rw [scan_openBracket, scan_blanks (ly.newline_blank _),
      scan_render (level + 1) v _ hv (stops_elements ly level vs t),
      scan_renderElements level vs t hvs]
    simp only [tokens, Option.map_map, Function.comp_def, List.cons_append, List.append_assoc]
  | .object [] =>
    rw [render, show chars "\x7b\x7d" = chars "\x7b" ++ chars "\x7d" by decide, List.append_assoc,
      scan_openBrace, scan_closeBrace, Option.map_map]
    rfl
  | .object ((k, v) :: ms) =>
    obtain ⟨hv, hms⟩ := Bool.and_eq_true_iff.mp hv
    simp only [render, List.append_assoc]
    rw [scan_openBrace, scan_blanks (ly.newline_blank _), scan_quote, scan_colon,
      scan_blanks ly.gap_blank, scan_render (level + 1) v _ hv (stops_members ly level ms t),
      scan_renderMembers level ms t hms]
    simp only [tokens, Option.map_map, Function.comp_def, List.cons_append, List.append_assoc]

theorem scan_renderElements (level : ℕ) (vs : List Json) (t : Text)
    (hvs : wellNumberedAll vs = true) :
    scan (renderElements ly level vs ++ t) = (scan t).map (elementTokens vs ++ ·) := by
  match vs with
  | [] =>
    rw [renderElements, List.append_assoc, scan_blanks (ly.newline_blank _), scan_closeBracket]
    rfl
  | v :: vs =>
    obtain ⟨hv, hvs⟩ := Bool.and_eq_true_iff.mp hvs
    simp only [renderElements, List.append_assoc]
    rw [scan_comma, scan_blanks (ly.newline_blank _),
      scan_render (level + 1) v _ hv (stops_elements ly level vs t),
      scan_renderElements level vs t hvs]
    simp only [elementTokens, Option.map_map, Function.comp_def, List.cons_append,
      List.append_assoc]

theorem scan_renderMembers (level : ℕ) (ms : List (GoString × Json)) (t : Text)
    (hms : wellNumberedMembers ms = true) :
    scan (renderMembers ly level ms ++ t) = (scan t).map (memberTokens ms ++ ·) := by
  match ms with
  | [] =>
    rw [renderMembers, List.append_assoc, scan_blanks (ly.newline_blank _), scan_closeBrace]
    rfl
  | (k, v) :: ms =>
    obtain ⟨hv, hms⟩ := Bool.and_eq_true_iff.mp hms
    simp only [renderMembers, List.append_assoc]
    rw [scan_comma, scan_blanks (ly.newline_blank _), scan_quote, scan_colon,
      scan_blanks ly.gap_blank, scan_render (level + 1) v _ hv (stops_members ly level ms t),
      scan_renderMembers level ms t hms]
    simp only [memberTokens, Option.map_map, Function.comp_def, List.cons_append,
      List.append_assoc]
end

end Scanning

/-! ## The document of the tokens -/

mutual
/-- The document that is read for a written one. -/
def readBack : Json → Json
  | .null => .null
  | .bool b => .bool b
  | .number literal => .number literal
  | .string s => .string (toValid s)
  | .array vs => .array (readBackAll vs)
  | .object ms => .object (readBackMembers ms)

def readBackAll : List Json → List Json
  | [] => []
  | v :: vs => readBack v :: readBackAll vs

def readBackMembers : List (GoString × Json) → List (GoString × Json)
  | [] => []
  | (k, v) :: ms => (toValid k, readBack v) :: readBackMembers ms
end

mutual
/-- How deeply arrays and objects are nested. -/
def depth : Json → ℕ
  | .array vs => depthAll vs + 1
  | .object ms => depthMembers ms + 1
  | _ => 0

def depthAll : List Json → ℕ
  | [] => 0
  | v :: vs => max (depth v) (depthAll vs)

def depthMembers : List (GoString × Json) → ℕ
  | [] => 0
  | (_, v) :: ms => max (depth v) (depthMembers ms)
end

theorem parseValue_array {room : ℕ} {ts : List Token} (hts : ∀ r, ts ≠ .closeBracket :: r)
    (fuel : ℕ) : parseValue (fuel + 1) (room + 1) (.openBracket :: ts) =
      (parseValue fuel room ts).bind fun x =>
        (parseElements fuel room x.2).map fun y => (.array (x.1 :: y.1), y.2) := by
  rw [parseValue]
  exact hts

theorem tokens_ne_close (v : Json) (rest r : List Token) :
    tokens v ++ rest ≠ .closeBracket :: r := by
  match v with
  | .null | .bool true | .bool false | .number _ | .string _ | .array [] | .array (_ :: _)
  | .object [] | .object ((_, _) :: _) => simp [tokens]

theorem parse_all (fuel : ℕ) :
    (∀ (v : Json) (room : ℕ) (rest : List Token), (tokens v).length ≤ fuel → depth v ≤ room →
      parseValue fuel room (tokens v ++ rest) = some (readBack v, rest)) ∧
    (∀ (vs : List Json) (room : ℕ) (rest : List Token), (elementTokens vs).length ≤ fuel →
      depthAll vs ≤ room →
      parseElements fuel room (elementTokens vs ++ rest) = some (readBackAll vs, rest)) ∧
    (∀ (ms : List (GoString × Json)) (room : ℕ) (rest : List Token),
      (memberTokens ms).length ≤ fuel → depthMembers ms ≤ room →
      parseMembers fuel room (memberTokens ms ++ rest) = some (readBackMembers ms, rest)) := by
  induction fuel with
  | zero =>
    refine ⟨fun v room rest h => ?_, fun vs room rest h => ?_, fun ms room rest h => ?_⟩
    · match v with
      | .null | .bool true | .bool false | .number _ | .string _ | .array [] | .array (_ :: _)
      | .object [] | .object ((_, _) :: _) => simp [tokens] at h
    · match vs with
      | [] | _ :: _ => simp [elementTokens] at h
    · match ms with
      | [] | (_, _) :: _ => simp [memberTokens] at h
  | succ fuel ih =>
    obtain ⟨ihv, ihe, ihm⟩ := ih
    refine ⟨fun v room rest hfuel hroom => ?_, fun vs room rest hfuel hroom => ?_,
      fun ms room rest hfuel hroom => ?_⟩
    · match v with
      | .null | .bool true | .bool false | .number _ | .string _ => rfl
      | .array [] =>
        obtain ⟨room, rfl⟩ : ∃ r, room = r + 1 := ⟨room - 1, by simp only [depth] at hroom; omega⟩
        rfl
      | .object [] =>
        obtain ⟨room, rfl⟩ : ∃ r, room = r + 1 := ⟨room - 1, by simp only [depth] at hroom; omega⟩
        rfl
      | .array (v :: vs) =>
        simp only [depth, depthAll] at hroom
        simp only [tokens, List.length_cons, List.length_append] at hfuel
        obtain ⟨room, rfl⟩ : ∃ r, room = r + 1 := ⟨room - 1, by omega⟩
        rw [tokens, List.cons_append, List.append_assoc, parseValue_array (tokens_ne_close v _),
          ihv v room _ (by omega) (by omega), Option.bind_some,
          ihe vs room rest (by omega) (by omega)]
        rfl
      | .object ((k, v) :: ms) =>
        simp only [depth, depthMembers] at hroom
        simp only [tokens, List.length_cons, List.length_append] at hfuel
        obtain ⟨room, rfl⟩ : ∃ r, room = r + 1 := ⟨room - 1, by omega⟩
        simp only [tokens, List.cons_append, List.append_assoc, parseValue]
        rw [ihv v room _ (by omega) (by omega), Option.bind_some,
          ihm ms room rest (by omega) (by omega)]
        rfl
    · match vs with
      | [] => rfl
      | v :: vs =>
        simp only [depthAll] at hroom
        simp only [elementTokens, List.length_cons, List.length_append] at hfuel
        simp only [elementTokens, List.cons_append, List.append_assoc, parseElements]
        rw [ihv v room _ (by omega) (by omega), Option.bind_some,
          ihe vs room rest (by omega) (by omega)]
        rfl
    · match ms with
      | [] => rfl
      | (k, v) :: ms =>
        simp only [depthMembers] at hroom
        simp only [memberTokens, List.length_cons, List.length_append] at hfuel
        simp only [memberTokens, List.cons_append, List.append_assoc, parseMembers]
        rw [ihv v room _ (by omega) (by omega), Option.bind_some,
          ihm ms room rest (by omega) (by omega)]
        rfl

/-! ## The round trip -/

theorem encoding_ascii (s : String) (h : (lit s).all (· < 0x80) = true) :
    ∀ u ∈ chars s, RuneEncoding u := by
  intro u hu
  obtain ⟨b, hb, rfl⟩ := List.mem_map.mp hu
  exact .one (of_decide_eq_true (List.all_eq_true.mp h b hb))

theorem encoding_blank {u : GoString} (h : isBlank u = true) : RuneEncoding u := by
  simp only [isBlank, Bool.or_eq_true, decide_eq_true_eq] at h
  rcases h with ((rfl | rfl) | rfl) | rfl <;> exact .one (by decide)

theorem encoding_numberUnit {b : UInt8} (h : isNumberUnit [b] = true) : RuneEncoding [b] := by
  simp only [isNumberUnit, Bool.or_eq_true, Bool.and_eq_true, decide_eq_true_eq] at h
  refine .one ?_
  rcases h with ((((⟨-, hle⟩ | rfl) | rfl) | rfl) | rfl) | rfl
  · exact UInt8.lt_of_le_of_lt hle (by decide)
  all_goals decide

theorem encoding_hexDigit (n : ℕ) (h : n < 16) : RuneEncoding [hexDigit n] :=
  .one ((by decide : ∀ n, n < 16 → hexDigit n < 0x80) n h)

theorem encoding_unicodeEscape (n : ℕ) : ∀ u ∈ unicodeEscape n, RuneEncoding u := by
  intro u hu
  rcases List.mem_append.mp hu with hu | hu
  · exact encoding_ascii "\\u" (by decide) u hu
  · simp only [hex4, List.mem_cons, List.not_mem_nil, or_false] at hu
    rcases hu with rfl | rfl | rfl | rfl <;> exact encoding_hexDigit _ (Nat.mod_lt _ (by decide))

theorem encoding_quoteUnit {u : GoString} (hu : IsUnit u) : ∀ w ∈ quoteUnit u, RuneEncoding w := by
  refine quoteUnit_shape (P := fun t => ∀ w ∈ t, RuneEncoding w) u encoding_unicodeEscape
    (fun s hs => encoding_ascii s ?_) fun hbad => ?_
  · revert s hs
    decide
  · intro w hw
    obtain rfl := List.mem_singleton.mp hw
    rcases hu with hu | ⟨a, rfl, ha⟩
    · exact hu
    · have hlow : badUnit [a] = true := by simpa [badUnit] using ha
      exact absurd hlow (by simp [hbad])

theorem encoding_quote (s : GoString) : ∀ u ∈ quote s, RuneEncoding u := by
  intro u hu
  simp only [quote, List.mem_append, List.mem_flatMap] at hu
  rcases hu with (hu | ⟨w, hw, hu⟩) | hu
  · exact encoding_ascii "\"" (by decide) u hu
  · exact encoding_quoteUnit (isUnit_of_mem hw) u hu
  · exact encoding_ascii "\"" (by decide) u hu

section Units
variable (ly : Layout)

mutual
theorem encoding_render (level : ℕ) (v : Json) (hv : wellNumbered v = true) :
    ∀ u ∈ render ly level v, RuneEncoding u := by
  intro u hu
  match v with
  | .null => exact encoding_ascii "null" (by decide) u hu
  | .bool true => exact encoding_ascii "true" (by decide) u hu
  | .bool false => exact encoding_ascii "false" (by decide) u hu
  | .number literal =>
    obtain ⟨b, hb, rfl⟩ := List.mem_map.mp hu
    exact encoding_numberUnit ((isNumberUnit_validNumber hv).2 b hb)
  | .string s => exact encoding_quote s u hu
  | .array [] => exact encoding_ascii "[]" (by decide) u hu
  | .array (v :: vs) =>
    obtain ⟨hv, hvs⟩ := Bool.and_eq_true_iff.mp hv
    simp only [render, List.mem_append] at hu
    rcases hu with ((hu | hu) | hu) | hu
    · exact encoding_ascii "[" (by decide) u hu
    · exact encoding_blank (ly.newline_blank _ u hu)
    · exact encoding_render (level + 1) v hv u hu
    · exact encoding_renderElements level vs hvs u hu
  | .object [] => exact encoding_ascii "\x7b\x7d" (by decide) u hu
  | .object ((k, v) :: ms) =>
    obtain ⟨hv, hms⟩ := Bool.and_eq_true_iff.mp hv
    simp only [render, List.mem_append] at hu
    rcases hu with (((((hu | hu) | hu) | hu) | hu) | hu) | hu
    · exact encoding_ascii "\x7b" (by decide) u hu
    · exact encoding_blank (ly.newline_blank _ u hu)
    · exact encoding_quote k u hu
    · exact encoding_ascii ":" (by decide) u hu
    · exact encoding_blank (ly.gap_blank u hu)
    · exact encoding_render (level + 1) v hv u hu
    · exact encoding_renderMembers level ms hms u hu

theorem encoding_renderElements (level : ℕ) (vs : List Json) (hvs : wellNumberedAll vs = true) :
    ∀ u ∈ renderElements ly level vs, RuneEncoding u := by
  intro u hu
  match vs with
  | [] =>
    rcases List.mem_append.mp hu with hu | hu
    · exact encoding_blank (ly.newline_blank _ u hu)
    · exact encoding_ascii "]" (by decide) u hu
  | v :: vs =>
    obtain ⟨hv, hvs⟩ := Bool.and_eq_true_iff.mp hvs
    simp only [renderElements, List.mem_append] at hu
    rcases hu with ((hu | hu) | hu) | hu
    · exact encoding_ascii "," (by decide) u hu
    · exact encoding_blank (ly.newline_blank _ u hu)
    · exact encoding_render (level + 1) v hv u hu
    · exact encoding_renderElements level vs hvs u hu

theorem encoding_renderMembers (level : ℕ) (ms : List (GoString × Json))
    (hms : wellNumberedMembers ms = true) : ∀ u ∈ renderMembers ly level ms, RuneEncoding u := by
  intro u hu
  match ms with
  | [] =>
    rcases List.mem_append.mp hu with hu | hu
    · exact encoding_blank (ly.newline_blank _ u hu)
    · exact encoding_ascii "\x7d" (by decide) u hu
  | (k, v) :: ms =>
    obtain ⟨hv, hms⟩ := Bool.and_eq_true_iff.mp hms
    simp only [renderMembers, List.mem_append] at hu
    rcases hu with (((((hu | hu) | hu) | hu) | hu) | hu) | hu
    · exact encoding_ascii "," (by decide) u hu
    · exact encoding_blank (ly.newline_blank _ u hu)
    · exact encoding_quote k u hu
    · exact encoding_ascii ":" (by decide) u hu
    · exact encoding_blank (ly.gap_blank u hu)
    · exact encoding_render (level + 1) v hv u hu
    · exact encoding_renderMembers level ms hms u hu
end

/-- A written document, with a line break after it, reads as itself apart from the
ill-formed bytes of its strings. -/
theorem parse_render (v : Json) (hv : wellNumbered v = true) (hdepth : depth v ≤ maxNestingDepth) :
    parse ((render ly 0 v).flatten ++ lit "\n") = some (readBack v) := by
  have hunits : units ((render ly 0 v).flatten ++ lit "\n") = render ly 0 v ++ [lit "\n"] := by
    have hflat : (render ly 0 v).flatten ++ lit "\n" = (render ly 0 v ++ [lit "\n"]).flatten := by
      simp
    rw [hflat]
    refine units_flatten_of_encodings fun u hu => ?_
    rcases List.mem_append.mp hu with hu | hu
    · exact encoding_render ly 0 v hv u hu
    · obtain rfl := List.mem_singleton.mp hu
      exact encoding_blank (by decide)
  have hscan : scan (render ly 0 v ++ [lit "\n"]) = some (tokens v) := by
    rw [scan_render ly 0 v _ hv (stops_of_blank (by decide) []), scan_blank (by decide)]
    change some (tokens v ++ []) = _
    rw [List.append_nil]
  rw [parse, parseWith, hunits, ← scan, hscan, Option.bind_some]
  have hparse := (parse_all (tokens v).length).1 v maxNestingDepth [] le_rfl hdepth
  rw [List.append_nil] at hparse
  rw [hparse]

end Units

/-! ## Lists of values and members -/

theorem readBackAll_eq (vs : List Json) : readBackAll vs = vs.map readBack := by
  induction vs with
  | nil => rfl
  | cons v vs ih => rw [readBackAll, ih, List.map_cons]

theorem readBackMembers_eq (ms : List (GoString × Json)) :
    readBackMembers ms = ms.map fun m => (toValid m.1, readBack m.2) := by
  induction ms with
  | nil => rfl
  | cons m ms ih => rw [readBackMembers, ih, List.map_cons]

theorem wellNumberedAll_iff {vs : List Json} :
    wellNumberedAll vs = true ↔ ∀ v ∈ vs, wellNumbered v = true := by
  induction vs with
  | nil => simp [wellNumberedAll]
  | cons v vs ih => rw [wellNumberedAll, Bool.and_eq_true, ih, List.forall_mem_cons]

theorem wellNumberedMembers_iff {ms : List (GoString × Json)} :
    wellNumberedMembers ms = true ↔ ∀ m ∈ ms, wellNumbered m.2 = true := by
  induction ms with
  | nil => simp [wellNumberedMembers]
  | cons m ms ih => rw [wellNumberedMembers, Bool.and_eq_true, ih, List.forall_mem_cons]

theorem depthAll_le {vs : List Json} {n : ℕ} (h : ∀ v ∈ vs, depth v ≤ n) : depthAll vs ≤ n := by
  induction vs with
  | nil => exact Nat.zero_le n
  | cons v vs ih =>
    rw [depthAll]
    exact max_le (h v List.mem_cons_self) (ih fun w hw => h w (List.mem_cons_of_mem v hw))

theorem depthMembers_le {ms : List (GoString × Json)} {n : ℕ} (h : ∀ m ∈ ms, depth m.2 ≤ n) :
    depthMembers ms ≤ n := by
  induction ms with
  | nil => exact Nat.zero_le n
  | cons m ms ih =>
    rw [depthMembers]
    exact max_le (h m List.mem_cons_self) (ih fun w hw => h w (List.mem_cons_of_mem m hw))

theorem uniqueNamesAll_iff {vs : List Json} :
    uniqueNamesAll vs = true ↔ ∀ v ∈ vs, uniqueNames v = true := by
  induction vs with
  | nil => simp [uniqueNamesAll]
  | cons v vs ih => rw [uniqueNamesAll, Bool.and_eq_true, ih, List.forall_mem_cons]

theorem uniqueNamesMembers_iff {ms : List (GoString × Json)} :
    uniqueNamesMembers ms = true ↔ ∀ m ∈ ms, uniqueNames m.2 = true := by
  induction ms with
  | nil => simp [uniqueNamesMembers]
  | cons m ms ih => rw [uniqueNamesMembers, Bool.and_eq_true, ih, List.forall_mem_cons]

/-! ## Integers -/

theorem toNat_digit (n : ℕ) : (digit n).toNat = 0x30 + n % 10 := by
  have h : 0x30 + n % 10 < 256 := by omega
  exact Nat.mod_eq_of_lt h

theorem foldl_digits (fuel : ℕ) : ∀ n, n < fuel →
    (digits fuel n).foldl (fun n b => n * 10 + (b.toNat - 0x30)) 0 = n := by
  induction fuel with
  | zero => nofun
  | succ fuel ih =>
    intro n hn
    rw [digits]
    split
    · rw [List.foldl_cons, List.foldl_nil, toNat_digit]
      omega
    · rw [List.foldl_append, ih (n / 10) (by omega), List.foldl_cons, List.foldl_nil, toNat_digit]
      omega

theorem isDigit_digits (fuel n : ℕ) : ∀ b ∈ digits fuel n, isDigit b = true := by
  intro b hb
  obtain ⟨hlow, hhigh⟩ := digits_digit fuel n b hb
  simp [isDigit, hlow, hhigh]

theorem parseNat_itoaNat (n : ℕ) : parseNat (itoaNat n) = some n := by
  rw [parseNat, if_pos ⟨itoaNat_ne_nil n, List.all_eq_true.mpr (isDigit_digits _ n)⟩]
  exact congrArg some (foldl_digits (n + 1) n n.lt_succ_self)

theorem head_digits (fuel : ℕ) : ∀ n, 0 < n → n < fuel → ∃ b t, digits fuel n = b :: t ∧ b ≠ 0x30 := by
  induction fuel with
  | zero => nofun
  | succ fuel ih =>
    intro n hpos hn
    rw [digits]
    split
    · refine ⟨digit n, [], rfl, fun h => ?_⟩
      have hdigit := toNat_digit n
      rw [h] at hdigit
      change 0x30 = 0x30 + n % 10 at hdigit
      omega
    · obtain ⟨b, t, hb, hne⟩ := ih (n / 10) (by omega) (by omega)
      exact ⟨b, t ++ [digit n], by rw [hb, List.cons_append], hne⟩

theorem dash_not_digit {b : UInt8} (h : isDigit b = true) : b ≠ 0x2D := by
  rintro rfl
  cases h

theorem validNumber_itoaNat (n : ℕ) : validNumber (itoaNat n) = true := by
  rcases Nat.eq_zero_or_pos n with rfl | hpos
  · decide
  · obtain ⟨b, t, hb, hne⟩ := head_digits (n + 1) n hpos n.lt_succ_self
    have hdigit := isDigit_digits (n + 1) n
    rw [hb] at hdigit
    have hfirst := hdigit b List.mem_cons_self
    have hdash := dash_not_digit hfirst
    have hrest : t.dropWhile isDigit = [] :=
      List.dropWhile_eq_nil_iff.mpr fun c hc => hdigit c (List.mem_cons_of_mem b hc)
    have hstripped : validNumber (b :: t) =
        if b = 0x30 then dropFraction t else isDigit b && dropFraction (t.dropWhile isDigit) := by
      unfold validNumber
      split
      · rename_i h
        exact absurd (List.cons.inj h).1 hdash
      · rfl
    rw [itoaNat, hb, hstripped, if_neg hne, hfirst, hrest]
    rfl

theorem parseInt64_itoaNat {n : ℕ} (h : n < 2 ^ 63) : parseInt64 (itoaNat n) = some (n : ℤ) := by
  have hdash : ∀ t, itoaNat n ≠ 0x2D :: t := fun t ht => by
    have hdigit := isDigit_digits (n + 1) n 0x2D (by
      rw [← itoaNat, ht]
      exact List.mem_cons_self)
    exact dash_not_digit hdigit rfl
  unfold parseInt64
  split
  · rename_i t ht
    exact absurd ht (hdash t)
  · rw [parseNat_itoaNat, Option.bind_some, if_pos h]

end SubscriptionRouter.JsonRoundTrip
