import Mathlib
import SubscriptionRouter.JsonRoundTrip
import SubscriptionRouter.TextDecoder

set_option autoImplicit false

/-!
# A compact document is one line of text

The encoder escapes every control character of a string, so that what `json.Marshal` writes is
UTF-8 text without a line break.
-/
namespace SubscriptionRouter.JsonLines
open GoText JsonText JsonRoundTrip

/-! ## Encodings and characters -/

theorem exists_char_of_nat {v : ℕ} (h : v < 0xD800 ∨ 0xDFFF < v ∧ v < 0x110000) :
    ∃ c : Char, c.val.toNat = v := by
  have hsize : v < UInt32.size := by
    have : UInt32.size = 4294967296 := rfl
    omega
  exact ⟨⟨UInt32.ofNatLT v hsize, h⟩, rfl⟩

theorem toNat_eq_ofNat {a : UInt8} {n : ℕ} (h : a.toNat = n) : UInt8.ofNat n = a := by
  rw [← h, UInt8.ofNat_toNat]

theorem exists_char {u : GoString} (h : RuneEncoding u) : ∃ c : Char, String.utf8EncodeChar c = u := by
  cases h with
  | @one a ha =>
    obtain ⟨c, hc⟩ := exists_char_of_nat (v := a.toNat) (by have : a.toNat < 0x80 := ha; omega)
    have hle : c.val.toNat ≤ 0x7F := by have : a.toNat < 0x80 := ha; omega
    refine ⟨c, ?_⟩
    rw [String.utf8EncodeChar, if_pos hle, hc, UInt8.ofNat_toNat]
  | @two a b hab =>
    simp only [wellFormed2, tailByte, Bool.and_eq_true, decide_eq_true_eq, UInt8.le_iff_toNat_le,
      UInt8.reduceToNat] at hab
    obtain ⟨c, hc⟩ := exists_char_of_nat (v := (a.toNat - 0xC0) * 64 + (b.toNat - 0x80)) (by omega)
    refine ⟨c, ?_⟩
    rw [String.utf8EncodeChar, if_neg (by omega), if_pos (by omega), toNat_eq_ofNat (a := a) (by omega),
      toNat_eq_ofNat (a := b) (by omega)]
  | @three a b d hab =>
    simp only [wellFormed3, tailByte, Bool.and_eq_true, Bool.or_eq_true, bne_iff_ne, decide_eq_true_eq,
      UInt8.le_iff_toNat_le, UInt8.reduceToNat, ne_eq, ← UInt8.toNat_inj] at hab
    obtain ⟨c, hc⟩ := exists_char_of_nat
      (v := ((a.toNat - 0xE0) * 64 + (b.toNat - 0x80)) * 64 + (d.toNat - 0x80)) (by omega)
    refine ⟨c, ?_⟩
    rw [String.utf8EncodeChar, if_neg (by omega), if_neg (by omega), if_pos (by omega),
      toNat_eq_ofNat (a := a) (by omega), toNat_eq_ofNat (a := b) (by omega),
      toNat_eq_ofNat (a := d) (by omega)]
  | @four a b d e hab =>
    simp only [wellFormed4, tailByte, Bool.and_eq_true, Bool.or_eq_true, bne_iff_ne, decide_eq_true_eq,
      UInt8.le_iff_toNat_le, UInt8.reduceToNat, ne_eq, ← UInt8.toNat_inj] at hab
    obtain ⟨c, hc⟩ := exists_char_of_nat (v := (((a.toNat - 0xF0) * 64 + (b.toNat - 0x80)) * 64 +
      (d.toNat - 0x80)) * 64 + (e.toNat - 0x80)) (by omega)
    refine ⟨c, ?_⟩
    rw [String.utf8EncodeChar, if_neg (by omega), if_neg (by omega), if_neg (by omega),
      toNat_eq_ofNat (a := a) (by omega), toNat_eq_ofNat (a := b) (by omega),
      toNat_eq_ofNat (a := d) (by omega), toNat_eq_ofNat (a := e) (by omega)]

/-! ## No control characters -/

theorem plain_ascii (s : String) (h : (lit s).all (fun b => !(b < 0x20)) = true) :
    ∀ u ∈ chars s, isControl u = false := by
  intro u hu
  obtain ⟨b, hb, rfl⟩ := List.mem_map.mp hu
  simpa [isControl] using List.all_eq_true.mp h b hb

theorem plain_unicodeEscape (n : ℕ) : ∀ u ∈ unicodeEscape n, isControl u = false := by
  have hdigit : ∀ d < 16, isControl [hexDigit d] = false := by decide
  intro u hu
  rcases List.mem_append.mp hu with hu | hu
  · exact plain_ascii "\\u" (by decide) u hu
  · simp only [hex4, List.mem_cons, List.not_mem_nil, or_false] at hu
    rcases hu with rfl | rfl | rfl | rfl <;> exact hdigit _ (Nat.mod_lt _ (by decide))

theorem plain_quoteUnit (u : GoString) : ∀ w ∈ quoteUnit u, isControl w = false := by
  by_cases hcontrol : isControl u = true
  · -- Control bytes are among those that the encoder escapes.
    have hall : ∀ n < 0x20, ∀ w ∈ quoteUnit [UInt8.ofNat n], isControl w = false := by decide
    unfold isControl at hcontrol
    split at hcontrol
    · rename_i b
      rw [← UInt8.ofNat_toNat (x := b)]
      exact hall b.toNat (of_decide_eq_true hcontrol)
    · cases hcontrol
  · refine quoteUnit_shape (P := fun t => ∀ w ∈ t, isControl w = false) u plain_unicodeEscape
      (fun s hs => plain_ascii s ?_) fun _ => ?_
    · revert s hs
      decide
    · intro w hw
      obtain rfl := List.mem_singleton.mp hw
      simpa using hcontrol

theorem plain_quote (s : GoString) : ∀ u ∈ quote s, isControl u = false := by
  intro u hu
  simp only [quote, List.mem_append, List.mem_flatMap] at hu
  rcases hu with (hu | ⟨w, -, hu⟩) | hu
  · exact plain_ascii "\"" (by decide) u hu
  · exact plain_quoteUnit w u hu
  · exact plain_ascii "\"" (by decide) u hu

theorem plain_numberUnit {b : UInt8} (h : isNumberUnit [b] = true) : isControl [b] = false := by
  simp only [isNumberUnit, Bool.or_eq_true, Bool.and_eq_true, decide_eq_true_eq] at h
  simp only [isControl, decide_eq_false_iff_not, UInt8.not_lt]
  rcases h with ((((⟨hle, -⟩ | rfl) | rfl) | rfl) | rfl) | rfl
  · exact UInt8.le_trans (by decide) hle
  all_goals decide

mutual
theorem plain_render (level : ℕ) (v : Json) (hv : wellNumbered v = true) :
    ∀ u ∈ render compact level v, isControl u = false := by
  intro u hu
  cases v with
  | null => exact plain_ascii "null" (by decide) u hu
  | bool b =>
    cases b with
    | true => exact plain_ascii "true" (by decide) u hu
    | false => exact plain_ascii "false" (by decide) u hu
  | number literal =>
    obtain ⟨b, hb, rfl⟩ := List.mem_map.mp hu
    exact plain_numberUnit ((isNumberUnit_validNumber hv).2 b hb)
  | string s => exact plain_quote s u hu
  | array vs =>
    cases vs with
    | nil => exact plain_ascii "[]" (by decide) u hu
    | cons v vs =>
      obtain ⟨hv, hvs⟩ := Bool.and_eq_true_iff.mp hv
      simp only [render, List.mem_append] at hu
      rcases hu with ((hu | hu) | hu) | hu
      · exact plain_ascii "[" (by decide) u hu
      · cases hu
      · exact plain_render (level + 1) v hv u hu
      · exact plain_renderElements level vs hvs u hu
  | object ms =>
    cases ms with
    | nil => exact plain_ascii "\x7b\x7d" (by decide) u hu
    | cons m ms =>
      obtain ⟨k, v⟩ := m
      obtain ⟨hv, hms⟩ := Bool.and_eq_true_iff.mp hv
      simp only [render, List.mem_append] at hu
      rcases hu with (((((hu | hu) | hu) | hu) | hu) | hu) | hu
      · exact plain_ascii "\x7b" (by decide) u hu
      · cases hu
      · exact plain_quote k u hu
      · exact plain_ascii ":" (by decide) u hu
      · cases hu
      · exact plain_render (level + 1) v hv u hu
      · exact plain_renderMembers level ms hms u hu

theorem plain_renderElements (level : ℕ) (vs : List Json) (hvs : wellNumberedAll vs = true) :
    ∀ u ∈ renderElements compact level vs, isControl u = false := by
  intro u hu
  cases vs with
  | nil => exact plain_ascii "]" (by decide) u hu
  | cons v vs =>
    obtain ⟨hv, hvs⟩ := Bool.and_eq_true_iff.mp hvs
    simp only [renderElements, List.mem_append] at hu
    rcases hu with ((hu | hu) | hu) | hu
    · exact plain_ascii "," (by decide) u hu
    · cases hu
    · exact plain_render (level + 1) v hv u hu
    · exact plain_renderElements level vs hvs u hu

theorem plain_renderMembers (level : ℕ) (ms : List (GoString × Json))
    (hms : wellNumberedMembers ms = true) : ∀ u ∈ renderMembers compact level ms, isControl u = false := by
  intro u hu
  cases ms with
  | nil => exact plain_ascii "\x7d" (by decide) u hu
  | cons m ms =>
    obtain ⟨k, v⟩ := m
    obtain ⟨hv, hms⟩ := Bool.and_eq_true_iff.mp hms
    simp only [renderMembers, List.mem_append] at hu
    rcases hu with (((((hu | hu) | hu) | hu) | hu) | hu) | hu
    · exact plain_ascii "," (by decide) u hu
    · cases hu
    · exact plain_quote k u hu
    · exact plain_ascii ":" (by decide) u hu
    · cases hu
    · exact plain_render (level + 1) v hv u hu
    · exact plain_renderMembers level ms hms u hu
end

theorem space_le {c : Char} (h : isControl (String.utf8EncodeChar c) = false) : ' ' ≤ c := by
  by_contra hlt
  have hval : c.val.toNat < 0x20 := Nat.lt_of_not_le hlt
  rw [String.utf8EncodeChar, if_pos (by omega)] at h
  simp only [isControl, decide_eq_false_iff_not, UInt8.not_lt, UInt8.le_iff_toNat_le, UInt8.reduceToNat,
    UInt8.toNat_ofNat_of_lt' (show c.val.toNat < 256 by omega)] at h
  omega

theorem exists_text {l : List GoString} (h : ∀ u ∈ l, RuneEncoding u ∧ isControl u = false) :
    ∃ text : List Char, TextDecoder.encode text = l.flatten ∧ ∀ c ∈ text, ' ' ≤ c := by
  induction l with
  | nil => exact ⟨[], rfl, by simp⟩
  | cons u l ih =>
    obtain ⟨⟨hu, hcontrol⟩, hrest⟩ := List.forall_mem_cons.mp h
    obtain ⟨text, htext, hplain⟩ := ih hrest
    obtain ⟨c, rfl⟩ := exists_char hu
    refine ⟨c :: text, ?_, List.forall_mem_cons.mpr ⟨space_le hcontrol, hplain⟩⟩
    rw [List.flatten_cons, ← htext]
    rfl

theorem marshal_text {v : Json} (hv : wellNumbered v = true) :
    ∃ text : List Char, TextDecoder.encode text = marshal v ∧ ∀ c ∈ text, ' ' ≤ c :=
  exists_text fun u hu => ⟨encoding_render compact 0 v hv u hu, plain_render 0 v hv u hu⟩

end SubscriptionRouter.JsonLines
