import Mathlib
import SubscriptionRouter.GoText

set_option autoImplicit false

/-!
# Lines of a text and the white space around it

`splitLines` cuts a text at its line breaks. What `trimSpace` takes off a text are whole
runes of white space, one after the other: its lines stay the same but for blank lines and
the white space around them.
-/
namespace SubscriptionRouter.TextLines
open GoText

/-- `strings.Split(text, "\n")`. -/
def splitLines (text : GoString) : List GoString := text.splitOn 0x0A

def unlines (lines : List GoString) : GoString := lines.flatMap fun line => line ++ [0x0A]

theorem splitLines_append (text rest : GoString) :
    splitLines (text ++ 0x0A :: rest) = splitLines text ++ splitLines rest :=
  List.splitOn_append_cons_self text rest

theorem splitLines_ne_nil (text : GoString) : splitLines text ≠ [] := List.splitOn_ne_nil _ text

theorem splitLines_line {line : GoString} (h : 0x0A ∉ line) : splitLines line = [line] :=
  List.splitOn_eq_singleton h

theorem lines_induction {P : GoString → Prop} (line : ∀ l, 0x0A ∉ l → P l)
    (more : ∀ l rest, 0x0A ∉ l → P rest → P (l ++ 0x0A :: rest)) (text : GoString) : P text := by
  generalize hn : text.length = n
  induction n using Nat.strong_induction_on generalizing text with
  | _ n ih =>
    by_cases h : 0x0A ∈ text
    · obtain ⟨l, rest, rfl, hnot⟩ := List.eq_append_cons_of_mem h
      refine more l rest hnot (ih rest.length ?_ rest rfl)
      rw [List.length_append, List.length_cons] at hn
      omega
    · exact line text h

theorem splitLines_first {w : GoString} (hn : 0x0A ∉ w) (text : GoString) : ∃ line rest,
    splitLines text = line :: rest ∧ splitLines (w ++ text) = (w ++ line) :: rest := by
  induction text using lines_induction with
  | line l hl => exact ⟨l, [], splitLines_line hl, splitLines_line (by simp [hn, hl])⟩
  | more l rest hl _ =>
    refine ⟨l, splitLines rest, by rw [splitLines_append, splitLines_line hl]; rfl, ?_⟩
    rw [← List.append_assoc, splitLines_append, splitLines_line (by simp [hn, hl])]
    rfl

theorem splitLines_last {w : GoString} (hn : 0x0A ∉ w) (text : GoString) : ∃ lines line,
    splitLines text = lines ++ [line] ∧ splitLines (text ++ w) = lines ++ [line ++ w] := by
  induction text using lines_induction with
  | line l hl => exact ⟨[], l, splitLines_line hl, splitLines_line (by simp [hn, hl])⟩
  | more l rest hl ih =>
    obtain ⟨lines, line, hrest, hrestw⟩ := ih
    refine ⟨splitLines l ++ lines, line, ?_, ?_⟩
    · rw [splitLines_append, hrest, List.append_assoc]
    · rw [List.append_assoc, List.cons_append, splitLines_append, hrestw, List.append_assoc]

theorem newline_not_mem_splitLines (text : GoString) : ∀ line ∈ splitLines text, 0x0A ∉ line := by
  induction text using lines_induction with
  | line l h =>
    rw [splitLines_line h]
    intro line hline
    rwa [List.mem_singleton.mp hline]
  | more l rest h ih =>
    rw [splitLines_append, splitLines_line h]
    intro line hline
    rcases List.mem_cons.mp hline with rfl | hline
    · exact h
    · exact ih line hline

theorem splitLines_unlines {lines : List GoString} (h : ∀ line ∈ lines, 0x0A ∉ line) :
    splitLines (unlines lines) = lines ++ [[]] := by
  induction lines with
  | nil => rfl
  | cons line rest ih =>
    have hline := splitLines_line (h line List.mem_cons_self)
    have hrest := ih fun l hl => h l (List.mem_cons_of_mem line hl)
    rw [unlines, List.flatMap_cons, List.append_assoc, List.singleton_append, splitLines_append,
      hline, ← unlines, hrest]
    rfl

theorem unlines_splitLines (text : GoString) : unlines (splitLines text) = text ++ [0x0A] := by
  induction text using lines_induction with
  | line l h => rw [splitLines_line h, unlines, List.flatMap_singleton]
  | more l rest h ih =>
    rw [splitLines_append, splitLines_line h, unlines, List.flatMap_append, ← unlines, ← unlines, ih,
      unlines, List.flatMap_singleton, List.append_assoc, List.append_assoc, List.singleton_append,
      List.cons_append]

/-! ## White space -/

theorem isSpace_encoding {u : GoString} (h : isSpace u = true) : RuneEncoding u := by
  unfold isSpace at h
  iterate 14 rw [Bool.or_eq_true] at h
  rcases h with ((((((((((((((h | h) | h) | h) | h) | h) | h) | h) | h) | h) | h) | h) | h) | h) | h)
  iterate 6
    rw [of_decide_eq_true h]
    exact .one (by decide)
  iterate 2
    rw [of_decide_eq_true h]
    exact .two (by decide)
  · rw [of_decide_eq_true h]
    exact .three (by decide)
  · split at h
    · rename_i c
      simp only [Bool.and_eq_true, decide_eq_true_eq] at h
      have hc : c ≤ 0xBF := UInt8.le_trans h.2 (by decide)
      refine .three ?_
      simp [wellFormed3, tailByte, h.1, hc]
    · cases h
  iterate 5
    rw [of_decide_eq_true h]
    exact .three (by decide)

theorem encoding_tail {u : GoString} (h : RuneEncoding u) :
    ∃ a t, u = a :: t ∧ tailByte a = false ∧ ∀ b ∈ t, tailByte b = true := by
  cases h with
  | @one a h =>
    refine ⟨a, [], rfl, ?_, by simp⟩
    have hlow : ¬ 0x80 ≤ a := UInt8.not_le.mpr h
    simp [tailByte, hlow]
  | @two a b h =>
    simp only [wellFormed2, Bool.and_eq_true, decide_eq_true_eq] at h
    have hhigh : ¬ a ≤ 0xBF := UInt8.not_le.mpr (UInt8.lt_of_lt_of_le (by decide) h.1.1)
    exact ⟨a, [b], rfl, by simp [tailByte, hhigh], by simp [h.2]⟩
  | @three a b c h =>
    simp only [wellFormed3, Bool.and_eq_true, decide_eq_true_eq] at h
    have hhigh : ¬ a ≤ 0xBF := UInt8.not_le.mpr (UInt8.lt_of_lt_of_le (by decide) h.1.1.1.1.1)
    exact ⟨a, [b, c], rfl, by simp [tailByte, hhigh], by simp [h.1.1.1.2, h.1.1.2]⟩
  | @four a b c d h =>
    simp only [wellFormed4, Bool.and_eq_true, decide_eq_true_eq] at h
    have hhigh : ¬ a ≤ 0xBF := UInt8.not_le.mpr (UInt8.lt_of_lt_of_le (by decide) h.1.1.1.1.1.1)
    exact ⟨a, [b, c, d], rfl, by simp [tailByte, hhigh], by simp [h.1.1.1.1.2, h.1.1.1.2, h.1.1.2]⟩

theorem units_append_encoding {u : GoString} (h : RuneEncoding u) (s : GoString) :
    units (s ++ u) = units s ++ [u] := by
  generalize hn : s.length = n
  induction n using Nat.strong_induction_on generalizing s with
  | _ n ih =>
    cases s with
    | nil =>
      have hu := units_encoding_append h []
      rwa [List.append_nil] at hu
    | cons a r =>
      rcases units_cons_cases a r with ⟨v, t, hv, ht⟩ | ⟨ha, hr⟩
      · have hlength : v.length + t.length = n := by
          rw [← hn, ht, List.length_append]
        have hpos := List.length_pos_iff.mpr hv.ne_nil
        rw [ht, List.append_assoc, units_encoding_append hv, units_encoding_append hv,
          ih t.length (by omega) t rfl, List.cons_append]
      · rw [hr, List.cons_append, List.cons_append, ← ih r.length (by simp at hn; omega) r rfl]
        refine (units_alone_iff ha).mpr fun v hv hpre => ?_
        have halone := (units_alone_iff ha).mp hr v hv
        -- An encoding that reaches into `u` has the first byte of `u` as a continuation byte.
        rw [← List.cons_append] at hpre
        obtain ⟨after, hafter⟩ := hpre
        rcases List.append_eq_append_iff.mp hafter with ⟨w, hw, -⟩ | ⟨w, hw, hu⟩
        · exact halone ⟨w, hw.symm⟩
        · obtain ⟨b, t, rfl, hb, -⟩ := encoding_tail h
          obtain ⟨c, t', hv', -, htail⟩ := encoding_tail hv
          cases w with
          | nil =>
            rw [List.append_nil] at hw
            exact halone (hw ▸ List.prefix_rfl)
          | cons x w =>
            obtain rfl : b = x := (List.cons.inj hu).1
            rw [hw, List.cons_append] at hv'
            have hmem : b ∈ t' := by
              rw [← (List.cons.inj hv').2]
              simp
            rw [htail b hmem] at hb
            cases hb

theorem trimSpace_space_append {w : GoString} (h : isSpace w = true) (s : GoString) :
    trimSpace (w ++ s) = trimSpace s := by
  rw [trimSpace, units_encoding_append (isSpace_encoding h), List.dropWhile_cons_of_pos h,
    ← trimSpace]

theorem trimSpace_append_space {w : GoString} (h : isSpace w = true) (s : GoString) :
    trimSpace (s ++ w) = trimSpace s := by
  rw [trimSpace, trimSpace, units_append_encoding (isSpace_encoding h), List.dropWhile_append]
  split
  · rename_i hall
    rw [List.isEmpty_iff.mp hall, List.dropWhile_cons_of_pos h]
    rfl
  · rw [List.rdropWhile_concat_pos _ _ _ h]

theorem rdropWhile_append_rtakeWhile {α : Type} (p : α → Bool) (l : List α) :
    l.rdropWhile p ++ l.rtakeWhile p = l := by
  rw [List.rdropWhile, List.rtakeWhile, ← List.reverse_append, List.takeWhile_append_dropWhile,
    List.reverse_reverse]

theorem trimSpace_split (s : GoString) : ∃ before after : List GoString,
    (∀ u ∈ before, isSpace u = true) ∧ (∀ u ∈ after, isSpace u = true) ∧
      s = before.flatten ++ trimSpace s ++ after.flatten := by
  refine ⟨(units s).takeWhile isSpace, ((units s).dropWhile isSpace).rtakeWhile isSpace,
    fun u => List.mem_takeWhile_imp, fun u => List.mem_rtakeWhile_imp, ?_⟩
  rw [trimSpace, ← List.flatten_append, ← List.flatten_append, List.append_assoc,
    rdropWhile_append_rtakeWhile, List.takeWhile_append_dropWhile, units_flatten]

def isSpaceByte (b : UInt8) : Bool := isSpace [b] || 0x80 ≤ b

theorem isSpace_bytes {u : GoString} (h : isSpace u = true) :
    (∃ a, u = [a]) ∨ ∃ a b t, u = a :: b :: t ∧ 0x80 ≤ a := by
  have hhigh : ∀ {a n : UInt8}, 0x80 ≤ n → n ≤ a → 0x80 ≤ a := UInt8.le_trans
  cases isSpace_encoding h with
  | one _ => exact .inl ⟨_, rfl⟩
  | two hw =>
    simp only [wellFormed2, Bool.and_eq_true, decide_eq_true_eq] at hw
    exact .inr ⟨_, _, _, rfl, hhigh (by decide) hw.1.1⟩
  | three hw =>
    simp only [wellFormed3, Bool.and_eq_true, decide_eq_true_eq] at hw
    exact .inr ⟨_, _, _, rfl, hhigh (by decide) hw.1.1.1.1.1⟩
  | four hw =>
    simp only [wellFormed4, Bool.and_eq_true, decide_eq_true_eq] at hw
    exact .inr ⟨_, _, _, rfl, hhigh (by decide) hw.1.1.1.1.1.1⟩

theorem isSpaceByte_of_mem {u : GoString} (h : isSpace u = true) : ∀ b ∈ u, isSpaceByte b = true := by
  intro b hb
  rw [isSpaceByte, Bool.or_eq_true, decide_eq_true_eq]
  rcases isSpace_bytes h with ⟨a, rfl⟩ | ⟨a, c, t, rfl, ha⟩
  · rw [List.mem_singleton.mp hb]
    exact .inl h
  · obtain ⟨x, y, hxy, -, htail⟩ := encoding_tail (isSpace_encoding h)
    obtain ⟨rfl, rfl⟩ := List.cons.inj hxy
    rcases List.mem_cons.mp hb with rfl | hb
    · exact .inr ha
    · have hcont := htail b hb
      simp only [tailByte, Bool.and_eq_true, decide_eq_true_eq] at hcont
      exact .inr hcont.1

theorem byte_forall {P : UInt8 → Prop} (h : ∀ n < 256, P (UInt8.ofNat n)) (b : UInt8) : P b := by
  have hb := h b.toNat b.toNat_lt
  rwa [UInt8.ofNat_toNat] at hb

/-! ## Trimmed lines -/

def trimmedLines (text : GoString) : List GoString := (splitLines text).map trimSpace

theorem newline_mem_space {w : GoString} (h : isSpace w = true) (hn : 0x0A ∈ w) : w = [0x0A] := by
  obtain ⟨a, t, rfl, -, ht⟩ := encoding_tail (isSpace_encoding h)
  rcases List.mem_cons.mp hn with rfl | hn
  · cases t with
    | nil => rfl
    | cons b t =>
      -- No encoding of more than one byte starts with a line break.
      have hb := ht b List.mem_cons_self
      cases isSpace_encoding h with
      | two h => cases h
      | three h => cases h
      | four h => cases h
  · cases ht _ hn

theorem trimmedLines_append_line (text rest : GoString) :
    trimmedLines (text ++ 0x0A :: rest) = trimmedLines text ++ trimmedLines rest := by
  rw [trimmedLines, splitLines_append, List.map_append, trimmedLines, trimmedLines]

theorem trimmedLines_line {line : GoString} (h : 0x0A ∉ line) : trimmedLines line = [trimSpace line] := by
  rw [trimmedLines, splitLines_line h, List.map_singleton]

theorem trimmedLines_space_append {w : GoString} (h : isSpace w = true) (s : GoString) :
    trimmedLines (w ++ s) = trimmedLines s ∨ trimmedLines (w ++ s) = [] :: trimmedLines s := by
  by_cases hn : 0x0A ∈ w
  · right
    rw [newline_mem_space h hn]
    exact trimmedLines_append_line [] s
  · left
    induction s using lines_induction with
    | line l hl =>
      have hwl : 0x0A ∉ w ++ l := by simp [hn, hl]
      rw [trimmedLines_line hl, trimmedLines_line hwl, trimSpace_space_append h]
    | more l rest hl _ =>
      have hwl : 0x0A ∉ w ++ l := by simp [hn, hl]
      rw [← List.append_assoc, trimmedLines_append_line, trimmedLines_append_line,
        trimmedLines_line hl, trimmedLines_line hwl, trimSpace_space_append h]

theorem trimmedLines_append_space {w : GoString} (h : isSpace w = true) (s : GoString) :
    trimmedLines (s ++ w) = trimmedLines s ∨ trimmedLines (s ++ w) = trimmedLines s ++ [[]] := by
  by_cases hn : 0x0A ∈ w
  · right
    rw [newline_mem_space h hn]
    exact trimmedLines_append_line s []
  · left
    induction s using lines_induction with
    | line l hl =>
      have hlw : 0x0A ∉ l ++ w := by simp [hn, hl]
      rw [trimmedLines_line hl, trimmedLines_line hlw, trimSpace_append_space h]
    | more l rest hl ih =>
      rw [List.append_assoc, List.cons_append, trimmedLines_append_line, trimmedLines_append_line, ih]

theorem trimmedLines_trimSpace (s : GoString) : ∃ i j : ℕ, trimmedLines s =
    List.replicate i [] ++ trimmedLines (trimSpace s) ++ List.replicate j [] := by
  obtain ⟨before, after, hbefore, hafter, hs⟩ := trimSpace_split s
  generalize trimSpace s = t at hs
  subst hs
  have hfront : ∀ u, ∃ i : ℕ, trimmedLines (before.flatten ++ u) =
      List.replicate i [] ++ trimmedLines u := by
    intro u
    induction before with
    | nil => exact ⟨0, rfl⟩
    | cons w ws ih =>
      obtain ⟨i, hi⟩ := ih fun x hx => hbefore x (List.mem_cons_of_mem w hx)
      rw [List.flatten_cons, List.append_assoc]
      rcases trimmedLines_space_append (hbefore w List.mem_cons_self) (ws.flatten ++ u) with hw | hw
      · exact ⟨i, hw.trans hi⟩
      · exact ⟨i + 1, by rw [hw, hi, List.replicate_succ, List.cons_append]⟩
  have hback : ∃ j : ℕ, trimmedLines (t ++ after.flatten) = trimmedLines t ++ List.replicate j [] := by
    clear hfront
    induction after using List.reverseRecOn with
    | nil => exact ⟨0, by simp⟩
    | append_singleton ws w ih =>
      obtain ⟨j, hj⟩ := ih fun x hx => hafter x (List.mem_append_left _ hx)
      rw [List.flatten_append, List.flatten_singleton, ← List.append_assoc]
      rcases trimmedLines_append_space (hafter w (by simp)) (t ++ ws.flatten) with hw | hw
      · exact ⟨j, hw.trans hj⟩
      · exact ⟨j + 1, by rw [hw, hj, List.replicate_succ', List.append_assoc]⟩
  obtain ⟨i, hi⟩ := hfront (t ++ after.flatten)
  obtain ⟨j, hj⟩ := hback
  exact ⟨i, j, by rw [List.append_assoc, hi, hj, List.append_assoc]⟩

end SubscriptionRouter.TextLines
