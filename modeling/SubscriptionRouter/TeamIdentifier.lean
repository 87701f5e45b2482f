import Mathlib
import SubscriptionRouter.MoveWide
import SubscriptionRouter.PythonText

set_option autoImplicit false

/-!
# The team identifier in the machine code

`arm64_swift_small_string` writes the six instructions that make a Swift string of ten bytes in two
registers.
-/
namespace SubscriptionRouter.TeamIdentifier
open Frames MoveWide PythonText

/-- `value.encode("ascii")`. -/
def encodeAscii (value : Text) : Option (List UInt8) :=
  if ∀ c ∈ value, c < 0x80 then some (value.map UInt8.ofNat) else none

def instruction (base immediate register shift : ℕ) : List UInt8 :=
  littleEndian (base ||| ((shift / 16) <<< 21) ||| (immediate <<< 5) ||| register)

/-- Two bytes at a time. -/
def chunks : List UInt8 → List ℕ
  | a :: b :: rest => ofLittleEndian [a, b] :: chunks rest
  | [a] => [ofLittleEndian [a]]
  | [] => []

def arm64SwiftSmallString (value : Text) : Option (List UInt8) := do
  let encoded ← encodeAscii value
  if encoded.length ≠ 10 then none
  else match chunks encoded with
    | [a, b, c, d, e] => some (instruction 0xD2800000 a 0 0 ++ instruction 0xF2800000 b 0 16 ++
        instruction 0xF2800000 c 0 32 ++ instruction 0xF2800000 d 0 48 ++ instruction 0xD2800000 e 1 0 ++
        instruction 0xF2800000 0xEA00 1 48)
    | _ => none

/-- Ten ASCII characters. -/
structure Identifier where
  text : Text
  ascii : ∀ c ∈ text, c < 0x80
  length : text.length = 10

def Identifier.encoded (id : Identifier) : List UInt8 := id.text.map UInt8.ofNat

/-! ## The instructions -/

theorem instruction_eq {left hw imm d : ℕ} (hhw : hw < 4) (himm : imm < 2 ^ 16) (hd : d < 32) :
    instruction (2 ^ 23 * left) imm d (16 * hw) = littleEndian (moveWord left hw imm d) := by
  have hhigh : 2 ^ 23 * left + hw * 2 ^ 21 = 2 ^ 23 * left ||| hw * 2 ^ 21 :=
    Nat.two_pow_add_eq_or_of_lt (by omega) left
  have hmiddle : 2 ^ 21 * (4 * left + hw) + imm * 2 ^ 5 = 2 ^ 21 * (4 * left + hw) ||| imm * 2 ^ 5 :=
    Nat.two_pow_add_eq_or_of_lt (by omega) _
  have hlow : 2 ^ 5 * (2 ^ 16 * (4 * left + hw) + imm) + d = 2 ^ 5 * (2 ^ 16 * (4 * left + hw) + imm) ||| d :=
    Nat.two_pow_add_eq_or_of_lt (by omega) _
  have hfirst : 2 ^ 23 * left + hw * 2 ^ 21 = 2 ^ 21 * (4 * left + hw) := by omega
  have hsecond : 2 ^ 21 * (4 * left + hw) + imm * 2 ^ 5 = 2 ^ 5 * (2 ^ 16 * (4 * left + hw) + imm) := by omega
  have hword : 2 ^ 5 * (2 ^ 16 * (4 * left + hw) + imm) + d = moveWord left hw imm d := by
    unfold moveWord
    omega
  rw [instruction, Nat.mul_div_cancel_left hw (by decide), Nat.shiftLeft_eq, Nat.shiftLeft_eq, ← hhigh, hfirst,
    ← hmiddle, hsecond, ← hlow, hword]

variable {m : Machine} {rest : List UInt8}

theorem moveWord_lt {left hw imm d : ℕ} (hleft : left < 2 ^ 9) (hhw : hw < 4) (himm : imm < 2 ^ 16)
    (hd : d < 32) :
    moveWord left hw imm d < 2 ^ 32 := by
  unfold moveWord
  omega

theorem run_movz {hw imm d : ℕ} (hhw : hw < 4) (himm : imm < 2 ^ 16) (hd : d < 32) :
    run m (instruction 0xD2800000 imm d (16 * hw) ++ rest) =
      run ((Instruction.movz (BitVec.ofNat 5 d) (BitVec.ofNat 16 imm) (BitVec.ofNat 2 hw)).exec m) rest := by
  have hleft : 0b110100101 < 2 ^ 9 := by decide
  rw [show 0xD2800000 = 2 ^ 23 * 0b110100101 from rfl, instruction_eq hhw himm hd,
    run_word (moveWord_lt hleft hhw himm hd), decode_moveWord hleft hhw himm hd]
  rfl

theorem run_movk {hw imm d : ℕ} (hhw : hw < 4) (himm : imm < 2 ^ 16) (hd : d < 32) :
    run m (instruction 0xF2800000 imm d (16 * hw) ++ rest) =
      run ((Instruction.movk (BitVec.ofNat 5 d) (BitVec.ofNat 16 imm) (BitVec.ofNat 2 hw)).exec m) rest := by
  have hleft : 0b111100101 < 2 ^ 9 := by decide
  rw [show 0xF2800000 = 2 ^ 23 * 0b111100101 from rfl, instruction_eq hhw himm hd,
    run_word (moveWord_lt hleft hhw himm hd), decode_moveWord hleft hhw himm hd]
  rfl

/-! ## The string -/

theorem ofLittleEndian_lt (bytes : List UInt8) : ofLittleEndian bytes < 2 ^ (8 * bytes.length) := by
  induction bytes with
  | nil => decide
  | cons b bytes ih =>
    have hb := b.toNat_lt
    rw [ofLittleEndian, List.length_cons, Nat.mul_succ, Nat.pow_add]
    omega

theorem ofLittleEndian_inj {a b : List UInt8} (hlength : a.length = b.length)
    (h : ofLittleEndian a = ofLittleEndian b) : a = b := by
  induction a generalizing b with
  | nil => exact (List.length_eq_zero_iff.mp hlength.symm).symm
  | cons x a ih =>
    cases b with
    | nil => cases hlength
    | cons y b =>
      rw [ofLittleEndian, ofLittleEndian] at h
      have hx := x.toNat_lt
      have hy := y.toNat_lt
      rw [UInt8.toNat_inj.mp (show x.toNat = y.toNat by omega), ih (Nat.succ.inj hlength) (by omega)]

def filled (regs : Fin 31 → BitVec 64) (a b c d e f : BitVec 16) : Fin 31 → BitVec 64 :=
  Function.update (Function.update regs 0 (kept (kept (kept (zeroed a 0) b 1) c 2) d 3)) 1
    (kept (zeroed e 0) f 3)

theorem run_code {a b c d e : ℕ} (ha : a < 2 ^ 16) (hb : b < 2 ^ 16) (hc : c < 2 ^ 16) (hd : d < 2 ^ 16)
    (he : e < 2 ^ 16) (m : Machine) :
    run m (instruction 0xD2800000 a 0 0 ++ instruction 0xF2800000 b 0 16 ++ instruction 0xF2800000 c 0 32 ++
      instruction 0xF2800000 d 0 48 ++ instruction 0xD2800000 e 1 0 ++ instruction 0xF2800000 0xEA00 1 48) =
      some ⟨filled m.regs (BitVec.ofNat 16 a) (BitVec.ofNat 16 b) (BitVec.ofNat 16 c) (BitVec.ofNat 16 d)
        (BitVec.ofNat 16 e) 0xEA00#16, m.pc + 24⟩ := by
  simp only [List.append_assoc]
  rw [run_movz (show 0 < 4 by decide) ha (by decide), run_movk (show 1 < 4 by decide) hb (by decide),
    run_movk (show 2 < 4 by decide) hc (by decide), run_movk (show 3 < 4 by decide) hd (by decide),
    run_movz (show 0 < 4 by decide) he (by decide), ← List.append_nil (instruction _ _ _ _),
    run_movk (show 3 < 4 by decide) (by decide) (by decide), run]
  congr 1
  simp [Instruction.exec, writeReg, readReg, filled, BitVec.add_assoc]

theorem Identifier.text_eq (id : Identifier) : id.encoded.map UInt8.toNat = id.text := by
  have hsame : ∀ c ∈ id.text, (UInt8.ofNat c).toNat = c := by
    intro c hc
    have := id.ascii c hc
    rw [UInt8.toNat_ofNat']
    omega
  rw [encoded, List.map_map]
  exact (List.map_congr_left hsame).trans (List.map_id _)

theorem Identifier.length_encoded (id : Identifier) : id.encoded.length = 10 := by
  rw [encoded, List.length_map, id.length]

/-- What is in the registers afterwards. -/
theorem exists_code (id : Identifier) : ∃ code, arm64SwiftSmallString id.text = some code ∧ code.length = 24 ∧
    ∀ m : Machine, ∃ final, run m code = some final ∧
      (final.regs 0).toNat = ofLittleEndian (id.encoded.take 8) ∧
      (final.regs 1).toNat = ofLittleEndian (id.encoded.drop 8) + 2 ^ 48 * 0xEA00 ∧
      ∀ r, r ≠ 0 → r ≠ 1 → final.regs r = m.regs r := by
  have hencode : encodeAscii id.text = some id.encoded := if_pos id.ascii
  obtain ⟨a, a', b, b', c, c', d, d', e, e', hbytes⟩ : ∃ a a' b b' c c' d d' e e',
      id.encoded = [a, a', b, b', c, c', d, d', e, e'] := by
    match hbytes : id.encoded, id.length_encoded with
    | [a, a', b, b', c, c', d, d', e, e'], _ => exact ⟨a, a', b, b', c, c', d, d', e, e', rfl⟩
  have hchunk (x y : UInt8) : ofLittleEndian [x, y] < 2 ^ 16 := ofLittleEndian_lt [x, y]
  have hvalue (x y : UInt8) : (BitVec.ofNat 16 (ofLittleEndian [x, y])).toNat = ofLittleEndian [x, y] := by
    rw [BitVec.toNat_ofNat, Nat.mod_eq_of_lt (hchunk x y)]
  refine ⟨_, by simp only [arm64SwiftSmallString, hencode, hbytes]; rfl, rfl, fun m => ?_⟩
  refine ⟨_, run_code (hchunk a a') (hchunk b b') (hchunk c c') (hchunk d d') (hchunk e e') m, ?_, ?_, ?_⟩
  · simp only [filled, Function.update_of_ne (show (0 : Fin 31) ≠ 1 by decide), Function.update_self,
      toNat_filled, hvalue, hbytes]
    simp only [ofLittleEndian, List.take_succ_cons, List.take_zero]
    omega
  · simp only [filled, Function.update_self, toNat_ends, hvalue, hbytes]
    rfl
  · intro r hzero hone
    simp only [filled, Function.update_of_ne hzero, Function.update_of_ne hone]

/-- The instructions leave the string in the two registers, and no other string has them. -/
theorem string_in_registers (id : Identifier) (m : Machine) :
    ∃ code final, arm64SwiftSmallString id.text = some code ∧ run m code = some final ∧
      (final.regs 0).toNat = ofLittleEndian (id.encoded.take 8) ∧
      (final.regs 1).toNat = ofLittleEndian (id.encoded.drop 8) + 2 ^ 48 * 0xEA00 ∧
      (∀ r, r ≠ 0 → r ≠ 1 → final.regs r = m.regs r) ∧
      ∀ other : Identifier, other.text ≠ id.text →
        ∃ code', arm64SwiftSmallString other.text = some code' ∧ code' ≠ code ∧ code'.length = code.length := by
  obtain ⟨code, hcode, hlength, hruns⟩ := exists_code id
  obtain ⟨final, hrun, hfirst, hsecond, hothers⟩ := hruns m
  refine ⟨code, final, hcode, hrun, hfirst, hsecond, hothers, fun other hne => ?_⟩
  obtain ⟨code', hcode', hlength', hruns'⟩ := exists_code other
  refine ⟨code', hcode', fun hsame => hne ?_, hlength'.trans hlength.symm⟩
  subst hsame
  obtain ⟨final', hrun', hfirst', hsecond', -⟩ := hruns' m
  obtain rfl := Option.some.inj (hrun.symm.trans hrun')
  have htake : other.encoded.take 8 = id.encoded.take 8 := by
    refine ofLittleEndian_inj ?_ (hfirst'.symm.trans hfirst)
    rw [List.length_take, List.length_take, other.length_encoded, id.length_encoded]
  have hdrop : other.encoded.drop 8 = id.encoded.drop 8 := by
    refine ofLittleEndian_inj ?_ (Nat.add_right_cancel (hsecond'.symm.trans hsecond))
    rw [List.length_drop, List.length_drop, other.length_encoded, id.length_encoded]
  rw [← other.text_eq, ← id.text_eq, ← List.take_append_drop 8 other.encoded, htake, hdrop,
    List.take_append_drop]

end SubscriptionRouter.TeamIdentifier
