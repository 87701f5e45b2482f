import Mathlib
import SubscriptionRouter.Transducers

set_option autoImplicit false

/-!
# Bytes as Python decodes them for `json.loads`

The encoding is guessed from the first bytes. Surrogates pass, alone or in the three bytes that
UTF-8 would have for them, so a text is a list of numbers.
-/
namespace SubscriptionRouter.PythonText
open Transducers

abbrev Text := List ℕ

/-! ## UTF-8 -/

/-- Between two characters, after the first byte of one, or with some more bytes to come after
the next one. -/
inductive Utf8 where
  | start
  | second (lead : UInt8)
  | tail (more value : ℕ)

/-- The bounds of the byte after a first byte. -/
def secondBounds (lead : UInt8) : UInt8 × UInt8 :=
  if lead = 0xE0 then (0xA0, 0xBF)
  else if lead = 0xF0 then (0x90, 0xBF)
  else if lead = 0xF4 then (0x80, 0x8F)
  else (0x80, 0xBF)

def Utf8.step : Utf8 → UInt8 → Option (Text × Utf8)
  | .start, b =>
    if b < 0x80 then some ([b.toNat], .start)
    else if 0xC2 ≤ b ∧ b ≤ 0xF4 then some ([], .second b)
    else none
  | .second lead, b =>
    if (secondBounds lead).1 ≤ b ∧ b ≤ (secondBounds lead).2 then
      if lead < 0xE0 then some ([lead.toNat % 32 * 64 + b.toNat % 64], .start)
      else if lead < 0xF0 then some ([], .tail 0 (lead.toNat % 16 * 64 + b.toNat % 64))
      else some ([], .tail 1 (lead.toNat % 8 * 64 + b.toNat % 64))
    else none
  | .tail more value, b =>
    if 0x80 ≤ b ∧ b ≤ 0xBF then
      if more = 0 then some ([value * 64 + b.toNat % 64], .start)
      else some ([], .tail (more - 1) (value * 64 + b.toNat % 64))
    else none

def utf8 : Transducer Utf8 UInt8 ℕ where
  step := Utf8.step
  finish
    | .start => some []
    | _ => none

/-! ## UTF-16 and UTF-32 -/

def isHighSurrogate (n : ℕ) : Bool := 0xD800 ≤ n && n < 0xDC00

def isLowSurrogate (n : ℕ) : Bool := 0xDC00 ≤ n && n < 0xE000

def joinSurrogates (high low : ℕ) : ℕ := 0x10000 + (high - 0xD800) * 0x400 + (low - 0xDC00)

/-- A high surrogate that may have its low one next, and the first byte of a unit. -/
structure Utf16 where
  high : Option ℕ
  half : Option UInt8

def unit (big : Bool) (a b : UInt8) : ℕ :=
  if big then a.toNat * 256 + b.toNat else b.toNat * 256 + a.toNat

def unpaired (n : ℕ) : Text × Option ℕ := if isHighSurrogate n then ([], some n) else ([n], none)

def readUnit : Option ℕ → ℕ → Text × Option ℕ
  | none, n => unpaired n
  | some high, n =>
    if isLowSurrogate n then ([joinSurrogates high n], none)
    else (high :: (unpaired n).1, (unpaired n).2)

def utf16 (big : Bool) : Transducer Utf16 UInt8 ℕ where
  step s b := match s.half with
    | none => some ([], ⟨s.high, some b⟩)
    | some a => some ((readUnit s.high (unit big a b)).1, ⟨(readUnit s.high (unit big a b)).2, none⟩)
  finish s := if s.half.isNone then some s.high.toList else none

def fourBytes (big : Bool) (bytes : List UInt8) : ℕ :=
  (if big then bytes else bytes.reverse).foldl (fun n b => n * 256 + b.toNat) 0

/-- The state is the bytes of a character so far. -/
def utf32 (big : Bool) : Transducer (List UInt8) UInt8 ℕ where
  step read b :=
    if read.length < 3 then some ([], read ++ [b])
    else if fourBytes big (read ++ [b]) ≤ 0x10FFFF then some ([fourBytes big (read ++ [b])], [])
    else none
  finish read := if read.isEmpty then some [] else none

/-! ## The encoding -/

inductive Encoding where
  | utf8
  | utf16 (big : Bool)
  | utf32 (big : Bool)
  deriving DecidableEq

/-- `detect_encoding`, with the length of the byte order mark. -/
def detectEncoding (bytes : List UInt8) : Encoding × ℕ :=
  if [0x00, 0x00, 0xFE, 0xFF].isPrefixOf bytes then (.utf32 true, 4)
  else if [0xFF, 0xFE, 0x00, 0x00].isPrefixOf bytes then (.utf32 false, 4)
  else if [0xFE, 0xFF].isPrefixOf bytes then (.utf16 true, 2)
  else if [0xFF, 0xFE].isPrefixOf bytes then (.utf16 false, 2)
  else if [0xEF, 0xBB, 0xBF].isPrefixOf bytes then (.utf8, 3)
  else match bytes with
    | a :: b :: c :: d :: _ =>
      if a = 0 then (if b ≠ 0 then .utf16 true else .utf32 true, 0)
      else if b = 0 then (if c ≠ 0 ∨ d ≠ 0 then .utf16 false else .utf32 false, 0)
      else (.utf8, 0)
    | [a, b] => (if a = 0 then .utf16 true else if b = 0 then .utf16 false else .utf8, 0)
    | _ => (.utf8, 0)

def Encoding.decode : Encoding → List UInt8 → Option Text
  | .utf8, bytes => PythonText.utf8.run .start bytes
  | .utf16 big, bytes => (PythonText.utf16 big).run ⟨none, none⟩ bytes
  | .utf32 big, bytes => (PythonText.utf32 big).run [] bytes

/-- `decode(detect_encoding(b), 'surrogatepass')`. -/
def decode (bytes : List UInt8) : Option Text :=
  (detectEncoding bytes).1.decode (bytes.drop (detectEncoding bytes).2)

def codes (bytes : List UInt8) : Text := bytes.map UInt8.toNat

/-! ## Bytes of one character each -/

section Ascii
variable {s s' : Utf8} {o : Text} {b : UInt8}

theorem low_not_continuation {low : UInt8} (hlow : 0x80 ≤ low) (hb : b < 0x80) : ¬ low ≤ b := by
  rw [UInt8.le_iff_toNat_le] at *
  rw [UInt8.lt_iff_toNat_lt] at hb
  omega

theorem secondBounds_le (lead : UInt8) : 0x80 ≤ (secondBounds lead).1 := by
  unfold secondBounds
  split_ifs
  all_goals decide

theorem step_ascii (hb : b < 0x80) (h : s.step b = some (o, s')) :
    s = .start ∧ o = [b.toNat] ∧ s' = .start := by
  cases s with
  | start =>
    rw [Utf8.step, if_pos hb] at h
    obtain ⟨rfl, rfl⟩ := Prod.mk.inj (Option.some.inj h)
    exact ⟨rfl, rfl, rfl⟩
  | second lead =>
    rw [Utf8.step, if_neg fun hbounds => low_not_continuation (secondBounds_le lead) hb hbounds.1] at h
    cases h
  | tail more value =>
    rw [Utf8.step, if_neg fun hbounds => low_not_continuation (by decide) hb hbounds.1] at h
    cases h

theorem feed_ascii {bytes : List UInt8} (h : ∀ b ∈ bytes, b < 0x80) :
    utf8.feed .start bytes = some (codes bytes, .start) := by
  induction bytes with
  | nil => rfl
  | cons b bytes ih =>
    obtain ⟨hb, hbytes⟩ := List.forall_mem_cons.mp h
    exact Transducer.feed_cons_iff.mpr ⟨[b.toNat], .start, codes bytes, if_pos hb, ih hbytes, rfl⟩

/-- In UTF-8 such bytes can be exchanged for others, and the rest of the text does not change. -/
theorem utf8_exchange {before part after : List UInt8} {text : Text} (hne : part ≠ [])
    (hpart : ∀ b ∈ part, b < 0x80) (h : utf8.run .start (before ++ part ++ after) = some text) :
    ∃ first last, ∀ part', (∀ b ∈ part', b < 0x80) →
      utf8.run .start (before ++ part' ++ after) = some (first ++ codes part' ++ last) := by
  obtain ⟨first, s, now, t, last, hbefore, hnow, hlast, -⟩ := Transducer.run_parts_iff.mp h
  obtain ⟨b, bytes, rfl⟩ := List.exists_cons_of_ne_nil hne
  have hstart : s = .start := by
    obtain ⟨_, _, _, hstep, -, -⟩ := Transducer.feed_cons_iff.mp hnow
    exact (step_ascii (hpart b (List.mem_cons_self ..)) hstep).1
  subst hstart
  obtain ⟨-, rfl⟩ := Prod.mk.inj (Option.some.inj (hnow.symm.trans (feed_ascii hpart)))
  refine ⟨first, last, fun part' hpart' => ?_⟩
  exact Transducer.run_parts_iff.mpr ⟨_, _, _, _, _, hbefore, feed_ascii hpart', hlast, rfl⟩

/-! What is decoded comes from bytes of its own, and below 0x80 from the one byte. -/

theorem utf8_tail {more value c : ℕ} {bytes : List UInt8} {text : Text} (hvalue : 2 ≤ value)
    (h : utf8.run (.tail more value) bytes = some (c :: text)) :
    ∃ used rest, bytes = used ++ rest ∧ utf8.run .start rest = some text ∧ 0x80 ≤ c := by
  induction more generalizing value bytes with
  | zero =>
    cases bytes with
    | nil => cases h
    | cons b bytes =>
      obtain ⟨now, s, later, hstep, hrun, htext⟩ := Transducer.run_cons_iff.mp h
      simp only [utf8, Utf8.step, if_true] at hstep
      split_ifs at hstep
      obtain ⟨rfl, rfl⟩ := Prod.mk.inj (Option.some.inj hstep)
      obtain ⟨rfl, rfl⟩ := List.cons.inj htext
      exact ⟨[b], bytes, rfl, hrun, by omega⟩
  | succ more ih =>
    cases bytes with
    | nil => cases h
    | cons b bytes =>
      obtain ⟨now, s, later, hstep, hrun, htext⟩ := Transducer.run_cons_iff.mp h
      simp only [utf8, Utf8.step, Nat.add_one_ne_zero, if_false, Nat.add_sub_cancel] at hstep
      split_ifs at hstep
      obtain ⟨rfl, rfl⟩ := Prod.mk.inj (Option.some.inj hstep)
      rw [List.nil_append] at htext
      obtain ⟨used, rest, rfl, hrest, hc⟩ := ih (by omega) (htext ▸ hrun)
      exact ⟨b :: used, rest, rfl, hrest, hc⟩

theorem three_value {lead b : UInt8} (hlow : 0xE0 ≤ lead) (hhigh : lead < 0xF0)
    (hb : (secondBounds lead).1 ≤ b ∧ b ≤ (secondBounds lead).2) :
    2 ≤ lead.toNat % 16 * 64 + b.toNat % 64 := by
  by_cases hfirst : lead = 0xE0
  · subst hfirst
    simp only [secondBounds, UInt8.le_iff_toNat_le] at hb
    simp at hb
    omega
  · have hne : lead.toNat ≠ 0xE0 := fun h => hfirst (UInt8.toNat_inj.mp h)
    simp only [UInt8.le_iff_toNat_le, UInt8.lt_iff_toNat_lt] at hlow hhigh
    simp at hlow hhigh
    omega

theorem four_value {lead b : UInt8} (hlow : 0xF0 ≤ lead) (hhigh : lead ≤ 0xF4)
    (hb : (secondBounds lead).1 ≤ b ∧ b ≤ (secondBounds lead).2) :
    2 ≤ lead.toNat % 8 * 64 + b.toNat % 64 := by
  by_cases hfirst : lead = 0xF0
  · subst hfirst
    simp only [secondBounds, UInt8.le_iff_toNat_le] at hb
    simp at hb
    omega
  · have hne : lead.toNat ≠ 0xF0 := fun h => hfirst (UInt8.toNat_inj.mp h)
    simp only [UInt8.le_iff_toNat_le] at hlow hhigh
    simp at hlow hhigh
    omega

theorem utf8_second {lead : UInt8} {c : ℕ} {bytes : List UInt8} {text : Text}
    (hlead : 0xC2 ≤ lead ∧ lead ≤ 0xF4) (h : utf8.run (.second lead) bytes = some (c :: text)) :
    ∃ used rest, bytes = used ++ rest ∧ utf8.run .start rest = some text ∧ 0x80 ≤ c := by
  cases bytes with
  | nil => cases h
  | cons b bytes =>
    obtain ⟨now, s, later, hstep, hrun, htext⟩ := Transducer.run_cons_iff.mp h
    simp only [utf8, Utf8.step] at hstep
    split_ifs at hstep with hbounds htwo hthree
    · obtain ⟨rfl, rfl⟩ := Prod.mk.inj (Option.some.inj hstep)
      obtain ⟨rfl, rfl⟩ := List.cons.inj htext
      refine ⟨[b], bytes, rfl, hrun, ?_⟩
      simp only [UInt8.le_iff_toNat_le, UInt8.lt_iff_toNat_lt, UInt8.reduceToNat] at hlead htwo
      omega
    · obtain ⟨rfl, rfl⟩ := Prod.mk.inj (Option.some.inj hstep)
      rw [List.nil_append] at htext
      have hvalue : 2 ≤ lead.toNat % 16 * 64 + b.toNat % 64 :=
        three_value (by simpa using htwo) hthree hbounds
      obtain ⟨used, rest, rfl, hrest, hc⟩ := utf8_tail hvalue (htext ▸ hrun)
      exact ⟨b :: used, rest, rfl, hrest, hc⟩
    · obtain ⟨rfl, rfl⟩ := Prod.mk.inj (Option.some.inj hstep)
      rw [List.nil_append] at htext
      have hvalue : 2 ≤ lead.toNat % 8 * 64 + b.toNat % 64 :=
        four_value (by simpa using hthree) hlead.2 hbounds
      obtain ⟨used, rest, rfl, hrest, hc⟩ := utf8_tail hvalue (htext ▸ hrun)
      exact ⟨b :: used, rest, rfl, hrest, hc⟩

theorem utf8_first {c : ℕ} {bytes : List UInt8} {text : Text}
    (h : utf8.run .start bytes = some (c :: text)) :
    ∃ used rest, bytes = used ++ rest ∧ utf8.run .start rest = some text ∧
      ∀ b : UInt8, b < 0x80 → c = b.toNat → used = [b] := by
  cases bytes with
  | nil => cases h
  | cons b bytes =>
    obtain ⟨now, s, later, hstep, hrun, htext⟩ := Transducer.run_cons_iff.mp h
    simp only [utf8, Utf8.step] at hstep
    split_ifs at hstep with hascii hlead
    · obtain ⟨rfl, rfl⟩ := Prod.mk.inj (Option.some.inj hstep)
      obtain ⟨rfl, rfl⟩ := List.cons.inj htext
      exact ⟨[b], bytes, rfl, hrun, fun b' _ hb' => by rw [UInt8.toNat_inj.mp hb']⟩
    · obtain ⟨rfl, rfl⟩ := Prod.mk.inj (Option.some.inj hstep)
      rw [List.nil_append] at htext
      obtain ⟨used, rest, rfl, hrest, hc⟩ := utf8_second hlead (htext ▸ hrun)
      refine ⟨b :: used, rest, rfl, hrest, fun b' hb' hc' => ?_⟩
      simp only [UInt8.lt_iff_toNat_lt, UInt8.reduceToNat] at hb'
      omega

theorem utf8_ascii {bytes part : List UInt8} {last : Text} (hpart : ∀ b ∈ part, b < 0x80)
    (h : utf8.run .start bytes = some (codes part ++ last)) : ∃ after, bytes = part ++ after := by
  induction part generalizing bytes with
  | nil => exact ⟨bytes, rfl⟩
  | cons b part ih =>
    obtain ⟨hb, hpart⟩ := List.forall_mem_cons.mp hpart
    obtain ⟨used, rest, rfl, hrest, hused⟩ := utf8_first h
    obtain ⟨after, rfl⟩ := ih hpart hrest
    exact ⟨after, by rw [hused b hb rfl]; rfl⟩

theorem utf8_split {bytes part : List UInt8} {first last : Text} (hpart : ∀ b ∈ part, b < 0x80)
    (h : utf8.run .start bytes = some (first ++ codes part ++ last)) :
    ∃ before after, bytes = before ++ part ++ after := by
  induction first generalizing bytes with
  | nil =>
    obtain ⟨after, rfl⟩ := utf8_ascii hpart h
    exact ⟨[], after, rfl⟩
  | cons c first ih =>
    obtain ⟨used, rest, rfl, hrest, -⟩ := utf8_first h
    obtain ⟨before, after, rfl⟩ := ih hrest
    exact ⟨used ++ before, after, by simp⟩
end Ascii

/-! ## Wide characters

Two bytes of the kind that stands in the payload make a character of UTF-16 beyond ASCII, and four
of them make none in UTF-32. -/

def Printed (b : UInt8) : Prop := 0x22 ≤ b ∧ b ≤ 0x66

def units (big : Bool) : List UInt8 → Text
  | a :: b :: bytes => unit big a b :: units big bytes
  | _ => []

section Wide
variable {big : Bool}

theorem unit_printed {a b : UInt8} (ha : Printed a) (hb : Printed b) :
    0x2222 ≤ unit big a b ∧ unit big a b < 0xD800 := by
  simp only [Printed, UInt8.le_iff_toNat_le] at ha hb
  obtain ⟨ha, ha'⟩ := ha
  obtain ⟨hb, hb'⟩ := hb
  simp only [UInt8.reduceToNat] at ha ha' hb hb'
  unfold unit
  split_ifs <;> omega

theorem readUnit_plain (high : Option ℕ) {n : ℕ} (hn : n < 0xD800) :
    readUnit high n = (high.toList ++ [n], none) := by
  have hhigh : isHighSurrogate n = false := by simp [isHighSurrogate]; omega
  have hlow : isLowSurrogate n = false := by simp [isLowSurrogate]; omega
  cases high with
  | none => simp [readUnit, unpaired, hhigh]
  | some high => simp [readUnit, unpaired, hhigh, hlow]

theorem units_wide {bytes : List UInt8} (h : ∀ b ∈ bytes, Printed b) : ∀ c ∈ units big bytes, 0x80 ≤ c := by
  fun_induction units big bytes with
  | case1 a b bytes ih =>
    intro c hc
    rcases List.mem_cons.mp hc with rfl | hc
    · have hlarge : 0x2222 ≤ unit big a b := (unit_printed (h a (by simp)) (h b (by simp))).1
      omega
    · exact ih (fun b hb => h b (by simp [hb])) c hc
  | case2 => exact nofun

theorem feed_pair {high : Option ℕ} {a b : UInt8} (ha : Printed a) (hb : Printed b) :
    (utf16 big).feed ⟨high, none⟩ [a, b] = some (high.toList ++ [unit big a b], ⟨none, none⟩) := by
  simp [Transducer.feed, utf16, readUnit_plain high (unit_printed ha hb).2]

theorem feed_printed {bytes : List UInt8} (h : ∀ b ∈ bytes, Printed b) (heven : bytes.length % 2 = 0)
    (hne : bytes ≠ []) (high : Option ℕ) :
    (utf16 big).feed ⟨high, none⟩ bytes = some (high.toList ++ units big bytes, ⟨none, none⟩) := by
  fun_induction units big bytes generalizing high with
  | case1 a b bytes ih =>
    have hpair : (utf16 big).feed ⟨high, none⟩ [a, b] =
        some (high.toList ++ [unit big a b], ⟨none, none⟩) := feed_pair (h a (by simp)) (h b (by simp))
    by_cases hnil : bytes = []
    · subst hnil
      exact hpair
    · rw [List.length_cons, List.length_cons] at heven
      have hrest := ih (fun b hb => h b (by simp [hb])) (by omega) hnil none
      refine (Transducer.feed_append_iff (a := [a, b])).mpr ⟨_, _, _, hpair, hrest, ?_⟩
      simp
  | case2 bytes hshort =>
    cases bytes with
    | nil => exact absurd rfl hne
    | cons a bytes =>
      cases bytes with
      | nil => simp at heven
      | cons b bytes => exact absurd rfl (hshort a b bytes)

theorem units_ne_nil {bytes : List UInt8} (h : 2 ≤ bytes.length) : units big bytes ≠ [] := by
  match bytes, h with
  | a :: b :: bytes, _ => exact List.cons_ne_nil _ _

/-- Where a character begins with the first of some bytes, they are characters beyond ASCII. -/
theorem utf16_exchange_aligned {before part after : List UInt8} {text first : Text} {high : Option ℕ}
    (hbefore : (utf16 big).feed ⟨none, none⟩ before = some (first, ⟨high, none⟩))
    (hlength : part.length % 2 = 0) (hne : part ≠ []) (hpart : ∀ b ∈ part, Printed b)
    (h : (utf16 big).run ⟨none, none⟩ (before ++ part ++ after) = some text) :
    ∃ last, ∀ part', part'.length = part.length → (∀ b ∈ part', Printed b) →
      (utf16 big).run ⟨none, none⟩ (before ++ part' ++ after) =
        some (first ++ high.toList ++ units big part' ++ last) ∧ units big part' ≠ [] ∧
        ∀ c ∈ units big part', 0x80 ≤ c := by
  obtain ⟨_, _, now, s, last, hbefore', hnow, hlast, -⟩ := Transducer.run_parts_iff.mp h
  obtain ⟨rfl, rfl⟩ := Prod.mk.inj (Option.some.inj (hbefore.symm.trans hbefore'))
  obtain ⟨-, rfl⟩ := Prod.mk.inj (Option.some.inj (hnow.symm.trans (feed_printed hpart hlength hne high)))
  have hpositive := List.length_pos_of_ne_nil hne
  refine ⟨last, fun part' hlength' hpart' => ⟨?_, units_ne_nil (by omega), units_wide hpart'⟩⟩
  have hne' : part' ≠ [] := List.ne_nil_of_length_pos (by omega)
  rw [List.append_assoc first]
  exact Transducer.run_parts_iff.mpr
    ⟨_, _, _, _, _, hbefore, feed_printed hpart' (by rw [hlength', hlength]) hne' high, hlast, rfl⟩

/-- So they are between two quotes, whether the first quote begins a character or ends one. -/
theorem utf16_exchange {before part after : List UInt8} {text : Text} {quote : UInt8} (hquote : Printed quote)
    (hlength : part.length = 64) (hpart : ∀ b ∈ part, Printed b)
    (h : (utf16 big).run ⟨none, none⟩ (before ++ (quote :: part ++ [quote]) ++ after) = some text) :
    ∃ first last, ∃ wide : List UInt8 → Text, ∀ part', part'.length = 64 → (∀ b ∈ part', Printed b) →
      (utf16 big).run ⟨none, none⟩ (before ++ (quote :: part' ++ [quote]) ++ after) =
        some (first ++ wide part' ++ last) ∧ wide part' ≠ [] ∧ ∀ c ∈ wide part', 0x80 ≤ c := by
  obtain ⟨first, ⟨high, half⟩, now, s, last, hbefore, hnow, -, -⟩ := Transducer.run_parts_iff.mp h
  cases half with
  | none =>
    have hblock (part' : List UInt8) (hpart' : ∀ b ∈ part', Printed b) :
        ∀ b ∈ quote :: part' ++ [quote], Printed b := by
      intro b hb
      simp only [List.cons_append, List.mem_cons, List.mem_append, List.not_mem_nil, or_false] at hb
      rcases hb with rfl | hb | rfl
      · exact hquote
      · exact hpart' b hb
      · exact hquote
    obtain ⟨last, hrun⟩ := utf16_exchange_aligned hbefore (by simp [hlength]) (by simp) (hblock part hpart) h
    exact ⟨first ++ high.toList, last, fun part' => units big (quote :: part' ++ [quote]),
      fun part' hlength' hpart' => hrun _ (by simp [hlength, hlength']) (hblock part' hpart')⟩
  | some a =>
    have hstep : (utf16 big).feed ⟨none, none⟩ (before ++ [quote]) =
        some (first ++ (readUnit high (unit big a quote)).1, ⟨(readUnit high (unit big a quote)).2, none⟩) :=
      Transducer.feed_append_iff.mpr ⟨_, _, _, hbefore,
        Transducer.feed_cons_iff.mpr ⟨_, _, [], rfl, rfl, (List.append_nil _).symm⟩, rfl⟩
    have hassoc (part' : List UInt8) : before ++ (quote :: part' ++ [quote]) ++ after =
        before ++ [quote] ++ part' ++ (quote :: after) := by simp
    rw [hassoc] at h
    obtain ⟨last, hrun⟩ := utf16_exchange_aligned hstep (by rw [hlength])
      (List.ne_nil_of_length_pos (by omega)) hpart h
    refine ⟨first ++ (readUnit high (unit big a quote)).1 ++ (readUnit high (unit big a quote)).2.toList,
      last, units big, fun part' hlength' hpart' => ?_⟩
    rw [hassoc]
    exact hrun part' (by rw [hlength', hlength]) hpart'

theorem fourBytes_printed {a b c d : UInt8} (ha : Printed a) (hd : Printed d) :
    0x10FFFF < fourBytes big [a, b, c, d] := by
  simp only [Printed, UInt8.le_iff_toNat_le] at ha hd
  obtain ⟨ha, -⟩ := ha
  obtain ⟨hd, -⟩ := hd
  simp only [UInt8.reduceToNat] at ha hd
  unfold fourBytes
  cases big
  · simp
    omega
  · simp
    omega

theorem utf32_refuses_aligned {part : List UInt8} (hlength : 4 ≤ part.length) (hpart : ∀ b ∈ part, Printed b) :
    (utf32 big).feed [] part = none := by
  match part, hlength with
  | a :: b :: c :: d :: bytes, _ =>
    have hlarge : 0x10FFFF < fourBytes big [a, b, c, d] :=
      fourBytes_printed (hpart a (by simp)) (hpart d (by simp))
    simp [Transducer.feed, utf32, Nat.not_le.mpr hlarge]

theorem utf32_refuses {part : List UInt8} (hlength : 8 ≤ part.length) (hpart : ∀ b ∈ part, Printed b)
    (read : List UInt8) : (utf32 big).feed read part = none := by
  suffices hmissing : ∀ n, 3 - read.length = n → 5 + n ≤ part.length → (utf32 big).feed read part = none from
    hmissing _ rfl (by omega)
  clear hlength
  intro n
  induction n generalizing read part with
  | zero =>
    intro hread hlong
    obtain ⟨b, bytes, rfl⟩ := List.exists_cons_of_length_pos (l := part) (by omega)
    rw [List.length_cons] at hlong
    refine Option.eq_none_iff_forall_ne_some.mpr fun ⟨o, s⟩ h => ?_
    obtain ⟨now, t, later, hstep, hfeed, -⟩ := Transducer.feed_cons_iff.mp h
    simp only [utf32, if_neg (show ¬ read.length < 3 by omega)] at hstep
    split_ifs at hstep
    obtain ⟨-, rfl⟩ := Prod.mk.inj (Option.some.inj hstep)
    rw [utf32_refuses_aligned (by omega) (List.forall_mem_cons.mp hpart).2] at hfeed
    cases hfeed
  | succ n ih =>
    intro hread hlong
    obtain ⟨b, bytes, rfl⟩ := List.exists_cons_of_length_pos (l := part) (by omega)
    rw [List.length_cons] at hlong
    refine Option.eq_none_iff_forall_ne_some.mpr fun ⟨o, s⟩ h => ?_
    obtain ⟨now, t, later, hstep, hfeed, -⟩ := Transducer.feed_cons_iff.mp h
    simp only [utf32, if_pos (show read.length < 3 by omega)] at hstep
    obtain ⟨-, rfl⟩ := Prod.mk.inj (Option.some.inj hstep)
    rw [ih (List.forall_mem_cons.mp hpart).2 (read ++ [b])
      (by rw [List.length_append, List.length_singleton]; omega) (by omega)] at hfeed
    cases hfeed
end Wide

/-! ## A field between two quotes -/

theorem detectEncoding_append {first : List UInt8} (h : 4 ≤ first.length) (rest rest' : List UInt8) :
    detectEncoding (first ++ rest) = detectEncoding (first ++ rest') := by
  match first, h with
  | a :: b :: c :: d :: bytes, _ => simp [detectEncoding, List.isPrefixOf]

theorem mark_not_ascii (bytes : List UInt8) :
    ∀ b ∈ bytes.take (detectEncoding bytes).2, b = 0 ∨ 0x80 ≤ b := by
  have hmark {mark : List UInt8} (h : mark.isPrefixOf bytes = true)
      (hmark : (mark.all fun b => b = 0 ∨ 0x80 ≤ b) = true) :
      ∀ b ∈ bytes.take mark.length, b = 0 ∨ 0x80 ≤ b := by
    obtain ⟨rest, rfl⟩ := List.isPrefixOf_iff_prefix.mp h
    rw [List.take_left]
    exact fun b hb => of_decide_eq_true (List.all_eq_true.mp hmark b hb)
  unfold detectEncoding
  split_ifs with h h h h h
  · exact hmark h rfl
  · exact hmark h rfl
  · exact hmark h rfl
  · exact hmark h rfl
  · exact hmark h rfl
  · split
    · split_ifs <;> exact nofun
    · exact nofun
    · exact nofun

structure Plain (b : UInt8) : Prop where
  ne_zero : b ≠ 0
  ascii : b < 0x80

theorem mark_le {before rest : List UInt8} {b : UInt8} (hb : Plain b) :
    (detectEncoding (before ++ b :: rest)).2 ≤ before.length := by
  by_contra hlong
  have hmem : b ∈ (before ++ b :: rest).take (detectEncoding (before ++ b :: rest)).2 := by
    rw [List.take_append, List.mem_append]
    right
    obtain ⟨n, hn⟩ := Nat.exists_eq_add_of_lt (Nat.lt_of_not_le hlong)
    rw [hn, Nat.add_assoc, Nat.add_sub_cancel_left]
    exact List.mem_cons_self ..
  rcases mark_not_ascii _ b hmem with h | h
  · exact hb.ne_zero h
  · have := hb.ascii
    rw [UInt8.lt_iff_toNat_lt] at this
    rw [UInt8.le_iff_toNat_le] at h
    omega

theorem Printed.plain {b : UInt8} (h : Printed b) : Plain b := by
  simp only [Printed, UInt8.le_iff_toNat_le] at h
  obtain ⟨hlow, hhigh⟩ := h
  simp only [UInt8.reduceToNat] at hlow hhigh
  refine ⟨?_, ?_⟩
  · rintro rfl
    cases hlow
  · rw [UInt8.lt_iff_toNat_lt]
    exact Nat.lt_of_le_of_lt hhigh (by decide)

section Exchange
variable {before lead part after : List UInt8} {quote : UInt8} {text : Text}

def fieldBytes (before lead : List UInt8) (quote : UInt8) (part after : List UInt8) : List UInt8 :=
  before ++ lead ++ (quote :: part ++ [quote]) ++ after

def IsField (part : List UInt8) : Prop := part.length = 64 ∧ ∀ b ∈ part, Printed b

theorem detectEncoding_field (hlead : 4 ≤ lead.length) (part part' : List UInt8) :
    detectEncoding (fieldBytes before lead quote part after) =
      detectEncoding (fieldBytes before lead quote part' after) := by
  unfold fieldBytes
  rw [List.append_assoc (before ++ lead), List.append_assoc (before ++ lead)]
  exact detectEncoding_append (by rw [List.length_append]; omega) ..

/-- What the guess says of a payload, whatever stands between the quotes. -/
theorem decode_field {mark : ℕ} {e : Encoding} (hlead : 4 ≤ lead.length) (hplain : ∀ b ∈ lead, Plain b)
    (hdetect : detectEncoding (fieldBytes before lead quote part after) = (e, mark)) (part' : List UInt8) :
    decode (fieldBytes before lead quote part' after) =
      e.decode (fieldBytes (before.drop mark) lead quote part' after) := by
  have hdetect' := (detectEncoding_field hlead part' part).trans hdetect
  have hmark : mark ≤ before.length := by
    obtain ⟨b, bytes, rfl⟩ := List.exists_cons_of_length_pos (l := lead) (by omega)
    have hmark : (detectEncoding (before ++ b :: (bytes ++ (quote :: part ++ [quote]) ++ after))).2 ≤
        before.length := mark_le (hplain b (List.mem_cons_self ..))
    rw [show before ++ b :: (bytes ++ (quote :: part ++ [quote]) ++ after) =
      fieldBytes before (b :: bytes) quote part after by simp [fieldBytes], hdetect] at hmark
    exact hmark
  unfold decode
  rw [hdetect']
  unfold fieldBytes
  rw [List.append_assoc, List.append_assoc, List.drop_append_of_le_length hmark, ← List.append_assoc,
    ← List.append_assoc]

/-- In UTF-8 the field is text that has a byte for each character, and in UTF-16 it is a part of
some characters beyond ASCII. Both ways another field gives the text with that part changed. -/
theorem decode_exchange (hlead : 4 ≤ lead.length) (hplain : ∀ b ∈ lead, Plain b) (hquote : Printed quote)
    (hpart : IsField part) (h : decode (fieldBytes before lead quote part after) = some text) :
    (∃ first last, ∀ part', IsField part' →
      (detectEncoding (fieldBytes before lead quote part' after)).1 = .utf8 ∧
      decode (fieldBytes before lead quote part' after) =
        some (first ++ codes (lead ++ (quote :: part' ++ [quote])) ++ last)) ∨
    ∃ first last, ∃ wide : List UInt8 → Text, ∀ part', IsField part' →
      decode (fieldBytes before lead quote part' after) = some (first ++ wide part' ++ last) ∧
        wide part' ≠ [] ∧ ∀ c ∈ wide part', 0x80 ≤ c := by
  obtain ⟨⟨e, mark⟩, hdetect⟩ : ∃ guess, detectEncoding (fieldBytes before lead quote part after) = guess :=
    ⟨_, rfl⟩
  rw [decode_field hlead hplain hdetect] at h
  simp only [decode_field hlead hplain hdetect]
  cases e with
  | utf8 =>
    left
    have hascii (part' : List UInt8) (hpart' : IsField part') :
        ∀ b ∈ lead ++ (quote :: part' ++ [quote]), b < 0x80 := by
      intro b hb
      simp only [List.cons_append, List.mem_append, List.mem_cons, List.not_mem_nil, or_false] at hb
      rcases hb with hb | rfl | hb | rfl
      · exact (hplain b hb).ascii
      · exact hquote.plain.ascii
      · exact (hpart'.2 b hb).plain.ascii
      · exact hquote.plain.ascii
    have hassoc (part' : List UInt8) : fieldBytes (before.drop mark) lead quote part' after =
        before.drop mark ++ (lead ++ (quote :: part' ++ [quote])) ++ after := by simp [fieldBytes]
    simp only [hassoc] at h ⊢
    obtain ⟨first, last, hrun⟩ := utf8_exchange (by simp) (hascii part hpart) h
    refine ⟨first, last, fun part' hpart' => ⟨?_, hrun _ (hascii part' hpart')⟩⟩
    rw [detectEncoding_field hlead part' part, hdetect]
  | utf16 big =>
    right
    obtain ⟨first, last, wide, hrun⟩ := utf16_exchange hquote hpart.1 hpart.2 h
    exact ⟨first, last, wide, fun part' hpart' => hrun part' hpart'.1 hpart'.2⟩
  | utf32 big =>
    exfalso
    obtain ⟨_, read, _, _, _, -, hfeed, -, -⟩ := Transducer.run_parts_iff.mp h
    rw [List.cons_append, ← List.singleton_append] at hfeed
    obtain ⟨_, read', _, -, hfeed, -⟩ := Transducer.feed_append_iff.mp hfeed
    obtain ⟨_, _, _, hfeed, -, -⟩ := Transducer.feed_append_iff.mp hfeed
    rw [utf32_refuses (by rw [hpart.1]; decide) hpart.2] at hfeed
    cases hfeed
end Exchange

end SubscriptionRouter.PythonText
