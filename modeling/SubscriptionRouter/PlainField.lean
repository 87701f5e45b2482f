import Mathlib
import SubscriptionRouter.HashDocument

set_option autoImplicit false

/-!
# A digest that is written plainly

A name and a string without a backslash are in the text as they are, and in UTF-8 in the bytes. So
the regular expression finds them, and what it finds is the digest that is reported.
-/
namespace SubscriptionRouter.PlainField
open Transducers PythonText PythonJson HashField HashDocument Readers

/-! ## From the tokens to the text -/

section Text
variable {within : Within} {pieces : Spelling} {text written : Text} {tokens outer others : List (Token Spelling)}
  {token : Token Spelling} {name : Spelling} {s s' : Lexing} {c : ℕ}

theorem run_atom (h : lexer.run (.atom written) text = some tokens) : ∃ others, tokens = .atom :: others := by
  induction text generalizing written tokens with
  | nil =>
    rw [Transducer.run_nil] at h
    simp only [lexer] at h
    split_ifs at h
    exact ⟨[], (Option.some.inj h).symm⟩
  | cons c text ih =>
    obtain ⟨now, s, later, hstep, hrun, rfl⟩ := Transducer.run_cons_iff.mp h
    simp only [lexer, Lexing.step] at hstep
    split_ifs at hstep with hatom hwritten
    · obtain ⟨rfl, rfl⟩ := Prod.mk.inj (Option.some.inj hstep)
      exact ih hrun
    · obtain ⟨⟨first, s⟩, -, hnext⟩ := Option.map_eq_some_iff.mp hstep
      obtain ⟨rfl, rfl⟩ := Prod.mk.inj hnext
      exact ⟨first ++ later, rfl⟩

/-- Between two tokens there is a space, a string begins, or a token of one character is there. -/
theorem run_outside_cons (htoken : token ≠ .atom)
    (h : lexer.run .outside (c :: text) = some (token :: others)) :
    (isSpace c = true ∧ lexer.run .outside text = some (token :: others)) ∨
    (c = 0x22 ∧ lexer.run (.string .plain []) text = some (token :: others)) ∨
    (punctuation c = some token ∧ lexer.run .outside text = some others) := by
  obtain ⟨now, s, later, hstep, hrun, htokens⟩ := Transducer.run_cons_iff.mp h
  simp only [lexer, Lexing.step, startToken] at hstep
  by_cases hspace : isSpace c = true
  · rw [if_pos hspace] at hstep
    obtain ⟨rfl, rfl⟩ := Prod.mk.inj (Option.some.inj hstep)
    exact .inl ⟨hspace, htokens ▸ hrun⟩
  rw [if_neg hspace] at hstep
  by_cases hquote : c = 0x22
  · rw [if_pos hquote] at hstep
    obtain ⟨rfl, rfl⟩ := Prod.mk.inj (Option.some.inj hstep)
    exact .inr (.inl ⟨hquote, htokens ▸ hrun⟩)
  rw [if_neg hquote] at hstep
  cases hpunctuation : punctuation c with
  | some found =>
    rw [hpunctuation] at hstep
    obtain ⟨rfl, rfl⟩ := Prod.mk.inj (Option.some.inj hstep)
    obtain ⟨rfl, rfl⟩ := List.cons.inj htokens
    exact .inr (.inr ⟨rfl, hrun⟩)
  | none =>
    rw [hpunctuation] at hstep
    simp only at hstep
    split_ifs at hstep
    obtain ⟨rfl, rfl⟩ := Prod.mk.inj (Option.some.inj hstep)
    obtain ⟨more, rfl⟩ := run_atom hrun
    exact absurd (List.cons.inj htokens).1 htoken

theorem run_string_first (h : lexer.run (.string within pieces) text = some (token :: others)) :
    ∃ s, token = .str s := by
  obtain ⟨more, rest, htokens, -⟩ := run_string h
  exact ⟨_, (List.cons.inj htokens).1⟩

theorem punctuation_colon (h : punctuation c = some .colon) : c = 0x3A := by
  unfold punctuation at h
  split at h
  all_goals first | rfl | cases h

theorem punctuation_not_str {s : Spelling} : punctuation c ≠ some (.str s) := by
  intro h
  unfold punctuation at h
  split at h
  all_goals cases h

theorem run_colon (h : lexer.run .outside text = some (.colon :: others)) :
    ∃ blanks rest, text = blanks ++ 0x3A :: rest ∧ (∀ c ∈ blanks, isSpace c = true) ∧
      lexer.run .outside rest = some others := by
  induction text with
  | nil => cases h
  | cons c text ih =>
    rcases run_outside_cons (fun h => by cases h) h with ⟨hspace, hrun⟩ | ⟨-, hrun⟩ | ⟨hpunctuation, hrun⟩
    · obtain ⟨blanks, rest, rfl, hblanks, hrest⟩ := ih hrun
      exact ⟨c :: blanks, rest, rfl, List.forall_mem_cons.mpr ⟨hspace, hblanks⟩, hrest⟩
    · obtain ⟨s, hs⟩ := run_string_first hrun
      cases hs
    · exact ⟨[], text, by rw [punctuation_colon hpunctuation]; rfl, nofun, hrun⟩

theorem run_quote (h : lexer.run .outside text = some (.str name :: others)) :
    ∃ blanks rest, text = blanks ++ 0x22 :: rest ∧ (∀ c ∈ blanks, isSpace c = true) ∧
      lexer.run (.string .plain []) rest = some (.str name :: others) := by
  induction text with
  | nil => cases h
  | cons c text ih =>
    rcases run_outside_cons (fun h => by cases h) h with ⟨hspace, hrun⟩ | ⟨rfl, hrun⟩ | ⟨hpunctuation, -⟩
    · obtain ⟨blanks, rest, rfl, hblanks, hrest⟩ := ih hrun
      exact ⟨c :: blanks, rest, rfl, List.forall_mem_cons.mpr ⟨hspace, hblanks⟩, hrest⟩
    · exact ⟨[], text, rfl, nofun, hrun⟩
    · exact absurd hpunctuation punctuation_not_str

theorem run_escaped (hwithin : within ≠ .plain)
    (h : lexer.run (.string within pieces) text = some (.str name :: others)) :
    ∃ piece more, name = pieces ++ piece :: more ∧ ∀ c, piece ≠ .literal c := by
  have hadded {piece : Piece} {text : Text} {later : List (Token Spelling)} (hpiece : ∀ c, piece ≠ .literal c)
      (hrun : lexer.run (.string .plain (pieces ++ [piece])) text = some later)
      (htokens : .str name :: others = later) :
      ∃ piece more, name = pieces ++ piece :: more ∧ ∀ c, piece ≠ .literal c := by
    obtain ⟨more, rest, hlater, -⟩ := run_string hrun
    have hname := (List.cons.inj (htokens.trans hlater)).1
    refine ⟨piece, more, ?_, hpiece⟩
    simpa using hname
  induction text generalizing within with
  | nil => cases h
  | cons c text ih =>
    obtain ⟨now, s, later, hstep, hrun, htokens⟩ := Transducer.run_cons_iff.mp h
    cases within with
    | plain => exact absurd rfl hwithin
    | backslash =>
      simp only [lexer, Lexing.step] at hstep
      split_ifs at hstep
      · obtain ⟨rfl, rfl⟩ := Prod.mk.inj (Option.some.inj hstep)
        rw [List.nil_append] at htokens
        exact ih (fun h => by cases h) (htokens ▸ hrun)
      · obtain ⟨d, -, hnext⟩ := Option.map_eq_some_iff.mp hstep
        obtain ⟨rfl, rfl⟩ := Prod.mk.inj hnext
        exact hadded (fun _ h => by cases h) hrun htokens
    | hex more value =>
      simp only [lexer, Lexing.step] at hstep
      obtain ⟨d, -, hnext⟩ := Option.map_eq_some_iff.mp hstep
      obtain ⟨rfl, rfl⟩ := Prod.mk.inj hnext
      split_ifs at hrun
      · exact hadded (fun _ h => by cases h) hrun htokens
      · rw [List.nil_append] at htokens
        exact ih (fun h => by cases h) (htokens ▸ hrun)

theorem run_literal_from {part : Text}
    (h : lexer.run (.string .plain pieces) text = some (.str (pieces ++ literal part) :: others)) :
    ∃ rest, text = part ++ 0x22 :: rest ∧ lexer.run .outside rest = some others := by
  induction text generalizing pieces part with
  | nil => cases h
  | cons c text ih =>
    obtain ⟨now, s, later, hstep, hrun, htokens⟩ := Transducer.run_cons_iff.mp h
    simp only [lexer, Lexing.step] at hstep
    split_ifs at hstep with hquote hbackslash hcontrol
    · obtain ⟨rfl, rfl⟩ := Prod.mk.inj (Option.some.inj hstep)
      obtain ⟨hname, rfl⟩ := List.cons.inj htokens
      have hpart : literal part = [] := by simpa using hname
      obtain rfl := List.map_eq_nil_iff.mp hpart
      exact ⟨text, by rw [hquote]; rfl, hrun⟩
    · obtain ⟨rfl, rfl⟩ := Prod.mk.inj (Option.some.inj hstep)
      rw [List.nil_append] at htokens
      obtain ⟨piece, more, hname, hpiece⟩ := run_escaped (fun h => by cases h) (htokens ▸ hrun)
      have hmem : piece ∈ literal part := by
        rw [List.append_cancel_left hname]
        exact List.mem_cons_self ..
      obtain ⟨d, -, rfl⟩ := List.mem_map.mp hmem
      exact absurd rfl (hpiece d)
    · obtain ⟨rfl, rfl⟩ := Prod.mk.inj (Option.some.inj hstep)
      rw [List.nil_append] at htokens
      obtain ⟨more, rest, hlater, -⟩ := run_string (htokens ▸ hrun)
      have hname : literal part = .literal c :: more := by simpa using (List.cons.inj hlater).1
      cases part with
      | nil => cases hname
      | cons d part =>
        obtain ⟨hd, -⟩ := List.cons.inj hname
        obtain rfl := Piece.literal.inj hd
        have hsame : pieces ++ literal (d :: part) = pieces ++ [.literal d] ++ literal part := by simp [literal]
        rw [← htokens, hsame] at hrun
        obtain ⟨rest, rfl, hrest⟩ := ih hrun
        exact ⟨rest, rfl, hrest⟩
theorem run_literal {part : Text} (h : lexer.run (.string .plain []) text = some (.str (literal part) :: others)) :
    ∃ rest, text = part ++ 0x22 :: rest ∧ lexer.run .outside rest = some others :=
  run_literal_from h

/-- A step in a string reads on or ends it, and one elsewhere writes none and may begin one. -/
theorem step_writes {now : List (Token Spelling)} (h : lexer.step s c = some (now, s')) :
    (∃ within pieces, s = .string within pieces ∧
      ((now = [] ∧ ∃ within pieces, s' = .string within pieces) ∨ ∃ p, now = [.str p] ∧ s' = .outside)) ∨
    ((∀ p, .str p ∉ now) ∧ ∀ within pieces, s' = .string within pieces → c = 0x22 ∧ s' = .string .plain []) := by
  have hstart {now : List (Token Spelling)} (h : startToken c = some (now, s')) :
      (∀ p, .str p ∉ now) ∧ ∀ within pieces, s' = .string within pieces → c = 0x22 ∧ s' = .string .plain [] := by
    unfold startToken at h
    by_cases hspace : isSpace c = true
    · rw [if_pos hspace] at h
      obtain ⟨rfl, rfl⟩ := Prod.mk.inj (Option.some.inj h)
      exact ⟨(fun _ hp => by cases hp), fun _ _ hs => by cases hs⟩
    rw [if_neg hspace] at h
    by_cases hquote : c = 0x22
    · rw [if_pos hquote] at h
      obtain ⟨rfl, rfl⟩ := Prod.mk.inj (Option.some.inj h)
      exact ⟨(fun _ hp => by cases hp), fun _ _ _ => ⟨hquote, rfl⟩⟩
    rw [if_neg hquote] at h
    cases hpunctuation : punctuation c with
    | some found =>
      rw [hpunctuation] at h
      obtain ⟨rfl, rfl⟩ := Prod.mk.inj (Option.some.inj h)
      refine ⟨fun p hp => ?_, fun _ _ hs => by cases hs⟩
      obtain rfl := List.mem_singleton.mp hp
      exact punctuation_not_str hpunctuation
    | none =>
      rw [hpunctuation] at h
      simp only at h
      split_ifs at h
      obtain ⟨rfl, rfl⟩ := Prod.mk.inj (Option.some.inj h)
      exact ⟨(fun _ hp => by cases hp), fun _ _ hs => by cases hs⟩
  cases s with
  | outside => exact .inr (hstart h)
  | atom written =>
    simp only [lexer, Lexing.step] at h
    split_ifs at h with hatom hwritten
    · obtain ⟨rfl, rfl⟩ := Prod.mk.inj (Option.some.inj h)
      exact .inr ⟨(fun _ hp => by cases hp), fun _ _ hs => by cases hs⟩
    · obtain ⟨⟨first, t⟩, hfirst, hnext⟩ := Option.map_eq_some_iff.mp h
      obtain ⟨rfl, rfl⟩ := Prod.mk.inj hnext
      obtain ⟨hwrites, hbegins⟩ := hstart hfirst
      refine .inr ⟨fun p hp => ?_, hbegins⟩
      rcases List.mem_cons.mp hp with hp | hp
      · cases hp
      · exact hwrites p hp
  | string within pieces =>
    rcases step_string h with ⟨-, -, rfl, rfl⟩ | ⟨within', added, rfl, rfl, -⟩
    · exact .inl ⟨within, pieces, rfl, .inr ⟨pieces, rfl, rfl⟩⟩
    · exact .inl ⟨within, pieces, rfl, .inl ⟨rfl, within', pieces ++ added, rfl⟩⟩

/-- A string token is the one that is being read, or begins with a quote in the text. -/
theorem run_str (h : lexer.run s text = some (outer ++ .str name :: others)) :
    (outer = [] ∧ ∃ within pieces, s = .string within pieces) ∨
    ∃ first rest, text = first ++ 0x22 :: rest ∧
      lexer.run (.string .plain []) rest = some (.str name :: others) := by
  induction text generalizing s outer with
  | nil =>
    cases s with
    | outside => simp [lexer] at h
    | string within pieces => simp [lexer] at h
    | atom written =>
      obtain ⟨more, htokens⟩ := run_atom h
      rw [Transducer.run_nil] at h
      simp only [lexer] at h
      split_ifs at h
      have hmem : Token.str name ∈ [Token.atom] := Option.some.inj h ▸ by simp
      simp at hmem
  | cons c text ih =>
    obtain ⟨now, s', later, hstep, hrun, htokens⟩ := Transducer.run_cons_iff.mp h
    have hlonger {outer' : List (Token Spelling)} (hrun : lexer.run s' text = some (outer' ++ .str name :: others))
        (houtside : ∀ within pieces, s' ≠ .string within pieces) : ∃ first rest, c :: text = first ++ 0x22 :: rest ∧
          lexer.run (.string .plain []) rest = some (.str name :: others) := by
      rcases ih hrun with ⟨-, within, pieces, hs'⟩ | ⟨first, rest, rfl, hrest⟩
      · exact absurd hs' (houtside within pieces)
      · exact ⟨c :: first, rest, rfl, hrest⟩
    rcases step_writes hstep with ⟨within, pieces, rfl, ⟨rfl, hwithin⟩ | ⟨p, rfl, rfl⟩⟩ | ⟨hwrites, hbegins⟩
    · rw [List.nil_append] at htokens
      rcases ih (htokens ▸ hrun) with ⟨houter, -⟩ | ⟨first, rest, rfl, hrest⟩
      · exact .inl ⟨houter, within, pieces, rfl⟩
      · exact .inr ⟨c :: first, rest, rfl, hrest⟩
    · cases outer with
      | nil => exact .inl ⟨rfl, within, pieces, rfl⟩
      | cons token outer =>
        have hlater : outer ++ .str name :: others = later := (List.cons.inj htokens).2
        exact .inr (hlonger (hlater ▸ hrun) fun _ _ hs => by cases hs)
    · obtain ⟨outer', hlater⟩ : ∃ outer', later = outer' ++ .str name :: others := by
        rcases List.append_eq_append_iff.mp htokens with ⟨more, hnow, hlater⟩ | ⟨more, rfl, hlater⟩
        · cases more with
          | nil => exact ⟨[], hlater.symm⟩
          | cons token more =>
            obtain ⟨rfl, -⟩ := List.cons.inj hlater
            exact absurd (hnow ▸ by simp) (hwrites name)
        · exact ⟨more, hlater⟩
      rw [hlater] at hrun
      by_cases hstring : ∃ within pieces, s' = .string within pieces
      · obtain ⟨within, pieces, hs'⟩ := hstring
        obtain ⟨rfl, rfl⟩ := hbegins within pieces hs'
        rcases ih hrun with ⟨rfl, -⟩ | ⟨first, rest, rfl, hrest⟩
        · exact .inr ⟨[], text, rfl, hrun⟩
        · exact .inr ⟨0x22 :: first, rest, rfl, hrest⟩
      · exact .inr (hlonger hrun fun within pieces hs' => hstring ⟨within, pieces, hs'⟩)

theorem exists_blank (h : isSpace c = true) : ∃ b, isBlank b = true ∧ b.toNat = c := by
  simp only [isSpace, Bool.or_eq_true, decide_eq_true_eq] at h
  rcases h with ((rfl | rfl) | rfl) | rfl
  · exact ⟨0x20, rfl, rfl⟩
  · exact ⟨0x09, rfl, rfl⟩
  · exact ⟨0x0A, rfl, rfl⟩
  · exact ⟨0x0D, rfl, rfl⟩

theorem exists_blanks {blanks : Text} (h : ∀ c ∈ blanks, isSpace c = true) :
    ∃ bytes : List UInt8, (∀ b ∈ bytes, isBlank b = true) ∧ codes bytes = blanks := by
  induction blanks with
  | nil => exact ⟨[], List.forall_mem_nil _, rfl⟩
  | cons c blanks ih =>
    obtain ⟨hc, hblanks⟩ := List.forall_mem_cons.mp h
    obtain ⟨b, hb, rfl⟩ := exists_blank hc
    obtain ⟨bytes, hbytes, rfl⟩ := ih hblanks
    exact ⟨b :: bytes, List.forall_mem_cons.mpr ⟨hb, hbytes⟩, rfl⟩

theorem field_in_text {part : List UInt8} (h : lexer.run .outside text =
      some (outer ++ .str (literal (codes valueName)) :: .colon :: .str (literal (codes part)) :: others)) :
    ∃ (lead : Lead) (first last : Text), text = first ++ codes (lead.bytes ++ (0x22 :: part ++ [0x22])) ++ last := by
  rcases run_str h with ⟨-, within, pieces, hs⟩ | ⟨first, rest, rfl, hname⟩
  · cases hs
  obtain ⟨rest, rfl, hcolon⟩ := run_literal hname
  obtain ⟨blanks, rest, rfl, hblanks, hquote⟩ := run_colon hcolon
  obtain ⟨blanks', rest, rfl, hblanks', hdigits⟩ := run_quote hquote
  obtain ⟨last, rfl, -⟩ := run_literal hdigits
  obtain ⟨before, hbefore, rfl⟩ := exists_blanks hblanks
  obtain ⟨after, hafter, rfl⟩ := exists_blanks hblanks'
  exact ⟨⟨before, after, hbefore, hafter⟩, first, last, by simp [codes, Lead.bytes]⟩
end Text

/-! ## What the regular expression finds -/

section Find
variable {n k : ℕ} {part before rest after blanks : List UInt8}

theorem scan_letters_whole (left : List UInt8) :
    scan (.letters left) n (left ++ 0x22 :: rest) = scan .beforeColon (n + left.length + 1) rest := by
  induction left generalizing n with
  | nil => exact if_pos rfl
  | cons c left ih =>
    rw [List.cons_append, scan, if_pos rfl, ih, List.length_cons, ← Nat.add_assoc, Nat.add_right_comm n]

theorem scan_beforeColon_whole (hblanks : ∀ b ∈ blanks, isBlank b = true) :
    scan .beforeColon n (blanks ++ 0x3A :: rest) = scan .beforeQuote (n + blanks.length + 1) rest := by
  induction blanks generalizing n with
  | nil => rfl
  | cons b blanks ih =>
    obtain ⟨hb, hblanks⟩ := List.forall_mem_cons.mp hblanks
    rw [List.cons_append, scan, if_pos hb, ih hblanks, List.length_cons, ← Nat.add_assoc, Nat.add_right_comm n]

theorem scan_beforeQuote_whole (hblanks : ∀ b ∈ blanks, isBlank b = true) :
    scan .beforeQuote n (blanks ++ 0x22 :: rest) =
      scan (.digits (n + blanks.length + 1) 64) (n + blanks.length + 1) rest := by
  induction blanks generalizing n with
  | nil => rfl
  | cons b blanks ih =>
    obtain ⟨hb, hblanks⟩ := List.forall_mem_cons.mp hblanks
    rw [List.cons_append, scan, if_pos hb, ih hblanks, List.length_cons, ← Nat.add_assoc, Nat.add_right_comm n]

theorem scan_field (lead : Lead) (hpart : IsDigest part) :
    scan .opening n (lead.bytes ++ (0x22 :: part ++ [0x22]) ++ after) = some (n + lead.bytes.length + 1) := by
  have hbytes : lead.bytes ++ (0x22 :: part ++ [0x22]) ++ after =
      0x22 :: (valueName ++ 0x22 :: (lead.before ++ 0x3A :: (lead.after ++ 0x22 :: (part ++ 0x22 :: after)))) := by
    simp [Lead.bytes]
  have hlength : lead.bytes.length = valueName.length + lead.before.length + lead.after.length + 3 := by
    simp only [Lead.bytes, List.length_cons, List.length_append]
    omega
  rw [hbytes, scan, if_pos rfl, scan_letters_whole, scan_beforeColon_whole lead.before_blank,
    scan_beforeQuote_whole lead.after_blank, ← hpart.length, scan_digits_whole hpart.lower, hlength]
  congr 1
  omega

/-- A match is found, or an earlier one reaches into it. -/
theorem findAll_cover (skip : ℕ) (h : scan .opening (n + before.length) rest = some k) :
    k ∈ findAll skip n (before ++ rest) ∨ before.length < skip ∨ ∃ above mid start, before = above ++ mid ∧
      mid ≠ [] ∧ scan .opening (n + above.length) (mid ++ rest) = some start ∧
      mid.length ≤ start + 64 - (n + above.length) := by
  induction before generalizing n skip with
  | nil =>
    cases skip with
    | succ skip => exact .inr (.inl (Nat.succ_pos skip))
    | zero =>
      cases rest with
      | nil => cases h
      | cons b rest =>
        rw [List.length_nil, Nat.add_zero] at h
        rw [List.nil_append, findAll, h]
        exact .inl (List.mem_cons_self ..)
  | cons b before ih =>
    rw [List.length_cons, ← Nat.add_assoc, Nat.add_right_comm] at h
    have hlater {above mid : List UInt8} {start : ℕ} (hbefore : before = above ++ mid) (hne : mid ≠ [])
        (hscan : scan .opening (n + 1 + above.length) (mid ++ rest) = some start)
        (hreach : mid.length ≤ start + 64 - (n + 1 + above.length)) : ∃ above mid start, b :: before = above ++ mid ∧
          mid ≠ [] ∧ scan .opening (n + above.length) (mid ++ rest) = some start ∧
          mid.length ≤ start + 64 - (n + above.length) := by
      have hn : n + (b :: above).length = n + 1 + above.length := by
        rw [List.length_cons]
        omega
      exact ⟨b :: above, mid, start, by rw [hbefore]; rfl, hne, hn ▸ hscan, hn ▸ hreach⟩
    rw [List.cons_append]
    cases skip with
    | succ skip =>
      rcases ih skip h with hfound | hcovered | ⟨above, mid, start, hbefore, hne, hscan, hreach⟩
      · exact .inl hfound
      · exact .inr (.inl (Nat.succ_lt_succ hcovered))
      · exact .inr (.inr (hlater hbefore hne hscan hreach))
    | zero =>
      rw [findAll]
      cases hhere : scan .opening n (b :: (before ++ rest)) with
      | none =>
        rcases ih 0 h with hfound | hcovered | ⟨above, mid, start, hbefore, hne, hscan, hreach⟩
        · exact .inl hfound
        · exact absurd hcovered (Nat.not_lt_zero _)
        · exact .inr (.inr (hlater hbefore hne hscan hreach))
      | some start =>
        rcases ih (start + 64 - n) h with hfound | hcovered | ⟨above, mid, start', hbefore, hne, hscan, hreach⟩
        · exact .inl (List.mem_cons_of_mem _ hfound)
        · exact .inr (.inr ⟨[], b :: before, start, rfl, List.cons_ne_nil _ _, hhere, hcovered⟩)
        · exact .inr (.inr (hlater hbefore hne hscan hreach))

theorem field_letter (lead : Lead) (hpart : IsDigest part) :
    ∃ others, lead.bytes ++ (0x22 :: part ++ [0x22]) = 0x22 :: 0x76 :: others ∧ 0x76 ∉ others := by
  have hname : valueName = 0x76 :: [0x61, 0x6C, 0x75, 0x65] := by decide
  refine ⟨[0x61, 0x6C, 0x75, 0x65] ++ 0x22 :: (lead.before ++ 0x3A :: lead.after) ++ (0x22 :: part ++ [0x22]),
    by simp [Lead.bytes, hname], fun hmem => ?_⟩
  have hblank : ¬ isBlank 0x76 = true := by decide
  have hlower : ¬ isLowerHex 0x76 = true := by decide
  have hbefore : 0x76 ∉ lead.before := fun h => hblank (lead.before_blank _ h)
  have hafter : 0x76 ∉ lead.after := fun h => hblank (lead.after_blank _ h)
  have hdigits : 0x76 ∉ part := fun h => hlower (hpart.lower _ h)
  simp [hbefore, hafter, hdigits] at hmem

/-- An earlier match that reaches into another has its last quote there. -/
theorem overlap_at_quote {mid : List UInt8} {start : ℕ} (hne : mid ≠ []) (hrest : rest = 0x22 :: 0x76 :: after)
    (hscan : scan .opening n (mid ++ rest) = some start) (hreach : mid.length ≤ start + 64 - n) :
    ∃ (lead : Lead) (part after' : List UInt8), IsDigest part ∧
      mid ++ rest = lead.bytes ++ (0x22 :: part ++ [0x22]) ++ 0x76 :: after' := by
  obtain ⟨lead, part, last, hbytes, hpart, rfl⟩ := scan_opening hscan
  obtain ⟨others, hfield, hothers⟩ := field_letter lead hpart
  have hlength : (lead.bytes ++ (0x22 :: part ++ [0x22])).length = lead.bytes.length + 66 := by
    simp [hpart.length]
  refine ⟨lead, part, after, hpart, ?_⟩
  rw [hbytes]
  congr 1
  have hsplit : (mid ++ [0x22]) ++ 0x76 :: after = (lead.bytes ++ (0x22 :: part ++ [0x22])) ++ last := by
    rw [← hbytes, hrest]
    simp
  rcases List.append_eq_append_iff.mp hsplit with ⟨more, hmid, hlast⟩ | ⟨more, hmid, hlast⟩
  · cases more with
    | nil => exact hlast.symm
    | cons b more =>
      obtain ⟨rfl, -⟩ := List.cons.inj hlast
      -- The letter would be in the match, behind its second byte.
      rw [hfield] at hmid
      exfalso
      match mid, hne with
      | [_], _ => simp at hmid
      | _ :: _ :: mid, _ =>
        obtain ⟨-, hmid⟩ := List.cons.inj hmid
        obtain ⟨-, hmid⟩ := List.cons.inj hmid
        exact hothers (hmid ▸ by simp)
  · have hlonger := congrArg List.length hmid
    rw [List.length_append, List.length_append, hlength, List.length_singleton] at hlonger
    have hnil : more = [] := List.length_eq_zero_iff.mp (by omega)
    rw [hlast, hnil]
    rfl
end Find

/-! ## The digest is there -/

section Stored
variable {limit start : ℕ} {payload part before after : List UInt8} {text digest : Text}
  {tokens : List (Token Spelling)}

theorem no_letter_after (lead : Lead) (hpart : IsDigest part) (hutf8 : (detectEncoding payload).1 = .utf8)
    (hpayload : payload = before ++ (lead.bytes ++ (0x22 :: part ++ [0x22]) ++ [0x76]) ++ after)
    (htext : decode payload = some text) : lexer.run .outside text ≠ some tokens := by
  intro htokens
  have hmark : (detectEncoding payload).2 ≤ before.length := by
    rw [hpayload, Lead.bytes, List.append_assoc]
    exact mark_le ⟨by decide, by decide⟩
  have hascii : ∀ b ∈ lead.bytes ++ (0x22 :: part ++ [0x22]) ++ [0x76], b < 0x80 := by
    intro b hb
    simp only [List.mem_append, List.cons_append, List.mem_cons, List.not_mem_nil, or_false] at hb
    rcases hb with (hb | rfl | hb | rfl) | rfl
    · exact (lead.plain b hb).ascii
    · decide
    · exact ((isField_of_isDigest hpart).2 b hb).plain.ascii
    · decide
    · decide
  obtain ⟨mark, heq⟩ : ∃ mark, (detectEncoding payload).2 = mark := ⟨_, rfl⟩
  rw [decode, hutf8, heq, hpayload, List.append_assoc before, List.drop_append_of_le_length (heq ▸ hmark),
    ← List.append_assoc] at htext
  obtain ⟨first, last, hrun⟩ := utf8_exchange (by simp) hascii htext
  obtain rfl := Option.some.inj (htext.symm.trans (hrun _ hascii))
  have hsplit : first ++ codes (lead.bytes ++ (0x22 :: part ++ [0x22]) ++ [0x76]) ++ last =
      first ++ codes (lead.bytes ++ [0x22]) ++ (codes part ++ 0x22 :: 0x76 :: last) := by simp [codes]
  rw [hsplit] at htokens
  obtain ⟨_, _, _, _, _, -, hlead, hrest, -⟩ := Transducer.run_parts_iff.mp htokens
  obtain ⟨_, _, -, -, rfl⟩ := feed_lead lead hlead
  obtain ⟨_, _, _, hfield, hclose, -⟩ := Transducer.run_append_iff.mp hrest
  obtain ⟨rfl, rfl⟩ := Prod.mk.inj (Option.some.inj ((feed_literal (codes_isDigest hpart)).symm.trans hfield))
  obtain ⟨_, _, _, hquote, hletter, -⟩ := Transducer.run_cons_iff.mp hclose
  obtain ⟨rfl, rfl⟩ := Prod.mk.inj (Option.some.inj hquote)
  obtain ⟨_, _, _, hstep, -, -⟩ := Transducer.run_cons_iff.mp hletter
  have hnone : startToken 0x76 = none := by decide
  cases hnone.symm.trans hstep

theorem exists_digest (h : isHash digest = true) : ∃ part, IsDigest part ∧ codes part = digest := by
  rw [isHash, Bool.and_eq_true, decide_eq_true_eq] at h
  obtain ⟨hlength, hall⟩ := h
  have hlower : ∀ c ∈ digest, ∃ b : UInt8, isLowerHex b = true ∧ b.toNat = c := by
    intro c hc
    have hcases := List.all_eq_true.mp hall c hc
    simp only [Bool.or_eq_true, Bool.and_eq_true, decide_eq_true_eq] at hcases
    have hsmall : (UInt8.ofNat c).toNat = c := by
      rw [UInt8.toNat_ofNat']
      omega
    refine ⟨UInt8.ofNat c, ?_, hsmall⟩
    simp only [isLowerHex, Bool.or_eq_true, Bool.and_eq_true, decide_eq_true_eq, UInt8.le_iff_toNat_le, hsmall]
    exact hcases
  clear hall
  have hpart : ∃ part : List UInt8, (∀ b ∈ part, isLowerHex b = true) ∧ codes part = digest := by
    clear hlength
    induction digest with
    | nil => exact ⟨[], List.forall_mem_nil _, rfl⟩
    | cons c digest ih =>
      obtain ⟨⟨b, hb, rfl⟩, hrest⟩ := List.forall_mem_cons.mp hlower
      obtain ⟨part, hpart, rfl⟩ := ih hrest
      exact ⟨b :: part, List.forall_mem_cons.mpr ⟨hb, hpart⟩, rfl⟩
  obtain ⟨part, hpart, rfl⟩ := hpart
  rw [codes, List.length_map] at hlength
  exact ⟨part, ⟨hlength, hpart⟩, rfl⟩

/-- The tokens of a member that is written plainly are a field in the bytes. -/
theorem field_in_payload {outer others : List (Token Spelling)} (hutf8 : (detectEncoding payload).1 = .utf8)
    (hpart : IsDigest part) (htext : decode payload = some text) (htokens : lexer.run .outside text =
      some (outer ++ .str (literal digestName) :: .colon :: .str (literal (codes part)) :: others)) :
    ∃ (lead : Lead) (before after : List UInt8), payload =
      before ++ (lead.bytes ++ (0x22 :: part ++ [0x22]) ++ after) := by
  obtain ⟨lead, first, last, rfl⟩ := field_in_text htokens
  rw [decode, hutf8] at htext
  have hascii : ∀ b ∈ lead.bytes ++ (0x22 :: part ++ [0x22]), b < 0x80 := by
    intro b hb
    simp only [List.mem_append, List.cons_append, List.mem_cons, List.not_mem_nil, or_false] at hb
    rcases hb with hb | rfl | hb | rfl
    · exact (lead.plain b hb).ascii
    · decide
    · exact ((isField_of_isDigest hpart).2 b hb).plain.ascii
    · decide
  obtain ⟨before, after, hbytes⟩ := utf8_split hascii htext
  refine ⟨lead, payload.take (detectEncoding payload).2 ++ before, after, ?_⟩
  conv_lhs => rw [← List.take_append_drop (detectEncoding payload).2 payload, hbytes]
  simp

theorem stored_of_spelledPlainly (hplain : SpelledPlainly limit payload)
    (h : hashField limit payload = some (start, digest)) : codes (slice payload start 64) = digest := by
  obtain ⟨value, hdocument, hdigest, hfound⟩ := hashField_eq_some.mp h
  obtain ⟨hutf8, members, name, digits, hloads, hfind, hname, hdigits⟩ := hplain
  have hdecoded : decoded name = digestName := by simpa using List.find?_some hfind
  rw [document, hloads, Option.map_some, Value.map, mapItems_eq] at hdocument
  simp only [List.map_cons, List.map_nil, Value.map, mapMembers_eq] at hdocument
  obtain rfl := Option.some.inj hdocument
  obtain ⟨-, -, -, hvalue, hhash⟩ := digestOf_object_iff.mp hdigest
  rw [field, member, ← List.map_reverse, List.find?_map] at hvalue
  simp only [Function.comp_def, hfind, Option.map_some, Option.bind_some, Value.map, textOf,
    Option.some.injEq] at hvalue
  subst hvalue
  obtain ⟨part, hpart, hcodes⟩ := exists_digest hhash
  obtain ⟨text, htext, hrest⟩ := Option.bind_eq_some_iff.mp hloads
  obtain ⟨tokens, htokens, hparse⟩ := Option.bind_eq_some_iff.mp hrest
  obtain ⟨outer, others, hmember⟩ := tokens_of_mem (List.mem_reverse.mp (List.mem_of_find?_eq_some hfind))
  have hall : lexer.run .outside text =
      some (outer ++ .str (literal digestName) :: .colon :: .str (literal (codes part)) :: others) := by
    rw [htokens, parse_tokens hparse, hmember, hcodes, ← hdigits, ← hdecoded, ← hname]
    rfl
  obtain ⟨lead, before, after, rfl⟩ := field_in_payload hutf8 hpart htext hall
  rcases findAll_cover 0 (scan_field lead hpart (n := 0 + before.length)) with
    hmem | hskip | ⟨above, mid, earlier, rfl, hne, hscan, hreach⟩
  · rw [hfound, List.mem_singleton] at hmem
    have hstart : start = (before ++ lead.bytes ++ [0x22]).length := by
      simp only [List.length_append, List.length_singleton]
      omega
    have hbytes : before ++ (lead.bytes ++ (0x22 :: part ++ [0x22]) ++ after) =
        (before ++ lead.bytes ++ [0x22]) ++ part ++ 0x22 :: after := by simp
    rw [hbytes, hstart, ← hpart.length, slice_append, hcodes]
  · exact absurd hskip (Nat.not_lt_zero _)
  · obtain ⟨others', hfield, -⟩ := field_letter lead hpart
    obtain ⟨lead', part', after', hpart', hbytes⟩ := overlap_at_quote hne (by rw [hfield]; rfl) hscan hreach
    have hpayload : above ++ mid ++ (lead.bytes ++ (0x22 :: part ++ [0x22]) ++ after) =
        above ++ (lead'.bytes ++ (0x22 :: part' ++ [0x22]) ++ [0x76]) ++ after' := by
      rw [List.append_assoc above, hbytes]
      simp
    exact absurd htokens (no_letter_after lead' hpart' hutf8 hpayload htext)

end Stored

end SubscriptionRouter.PlainField
