import Mathlib
import SubscriptionRouter.Frames

set_option autoImplicit false

/-!
# A64 moves of wide immediates

`MOVZ` and `MOVK` on 64-bit registers, from their words to what they do. A register is four
halfwords, and a program that has such moves only runs through its words in order.
-/
namespace SubscriptionRouter.MoveWide
open Frames

/-- Register 31 is the zero register, which keeps nothing. -/
structure Machine where
  regs : Fin 31 → BitVec 64
  pc : BitVec 64

inductive Instruction where
  | movz (d : BitVec 5) (imm : BitVec 16) (hw : BitVec 2)
  | movk (d : BitVec 5) (imm : BitVec 16) (hw : BitVec 2)
  deriving DecidableEq

/-- `sf`, `opc` and the class are the nine bits on the left. -/
def decode (word : BitVec 32) : Option Instruction :=
  let hw := word.extractLsb' 21 2
  let imm := word.extractLsb' 5 16
  let d := word.extractLsb' 0 5
  if word.extractLsb' 23 9 = 0b110100101#9 then some (.movz d imm hw)
  else if word.extractLsb' 23 9 = 0b111100101#9 then some (.movk d imm hw)
  else none

def readReg (m : Machine) (d : BitVec 5) : BitVec 64 := if h : d.toNat < 31 then m.regs ⟨d.toNat, h⟩ else 0

def writeReg (m : Machine) (d : BitVec 5) (value : BitVec 64) : Machine :=
  if h : d.toNat < 31 then { m with regs := Function.update m.regs ⟨d.toNat, h⟩ value } else m

def zeroed (imm : BitVec 16) (hw : ℕ) : BitVec 64 := imm.setWidth 64 <<< (16 * hw)

/-- A halfword that is put into a register in place of the one there. -/
def kept (old : BitVec 64) (imm : BitVec 16) (hw : ℕ) : BitVec 64 :=
  (old &&& ~~~zeroed (BitVec.allOnes 16) hw) ||| zeroed imm hw

def Instruction.exec (m : Machine) : Instruction → Machine
  | .movz d imm hw => { writeReg m d (zeroed imm hw.toNat) with pc := m.pc + 4 }
  | .movk d imm hw => { writeReg m d (kept (readReg m d) imm hw.toNat) with pc := m.pc + 4 }

/-- Run the words that some bytes are. -/
def run (m : Machine) : List UInt8 → Option Machine
  | [] => some m
  | a :: b :: c :: d :: rest => do
    let instruction ← decode (BitVec.ofNat 32 (ofLittleEndian [a, b, c, d]))
    run (instruction.exec m) rest
  | _ => none

/-! ## Halfwords -/

def half (i : ℕ) (value : BitVec 64) : BitVec 16 := value.extractLsb' (16 * i) 16

theorem toNat_half (i : ℕ) (value : BitVec 64) :
    (half i value).toNat = value.toNat / 2 ^ (16 * i) % 2 ^ 16 := by
  rw [half, BitVec.extractLsb'_toNat, Nat.shiftRight_eq_div_pow]

theorem toNat_halves (value : BitVec 64) : value.toNat = (half 0 value).toNat + 2 ^ 16 * (half 1 value).toNat +
    2 ^ 32 * (half 2 value).toNat + 2 ^ 48 * (half 3 value).toNat := by
  simp only [toNat_half]
  have := value.isLt
  omega

theorem half_zeroed (imm : BitVec 16) {i j : ℕ} (hi : i < 4) :
    half i (zeroed imm j) = if i = j then imm else 0 := by
  apply BitVec.eq_of_getLsbD_eq
  intro k hk
  simp only [half, zeroed, BitVec.getLsbD_extractLsb', BitVec.getLsbD_shiftLeft, BitVec.getLsbD_setWidth]
  split_ifs with hij
  · subst hij
    have hin : 16 * i + k < 64 := by omega
    have hk' : k < 64 := by omega
    simp [hin, hk, hk']
  · rcases Nat.lt_or_gt_of_ne hij with h | h
    · have : 16 * i + k < 16 * j := by omega
      simp [this]
    · have : 16 ≤ 16 * i + k - 16 * j := by omega
      simp [BitVec.getLsbD_of_ge imm _ this]

theorem half_kept (old : BitVec 64) (imm : BitVec 16) {i j : ℕ} (hi : i < 4) :
    half i (kept old imm j) = if i = j then imm else half i old := by
  have hor (x y : BitVec 64) : half i (x ||| y) = half i x ||| half i y := BitVec.extractLsb'_or
  have hand (x y : BitVec 64) : half i (x &&& y) = half i x &&& half i y := BitVec.extractLsb'_and
  have hnot (x : BitVec 64) : half i (~~~x) = ~~~half i x := by
    apply BitVec.eq_of_getLsbD_eq
    intro k hk
    have hin : 16 * i + k < 64 := by omega
    simp [half, hk, hin]
  rw [kept, hor, hand, hnot, half_zeroed _ hi, half_zeroed _ hi]
  split_ifs
  · rw [BitVec.not_allOnes, BitVec.and_zero, BitVec.zero_or]
  · change half i old &&& ~~~0#16 ||| 0#16 = half i old
    rw [BitVec.not_zero, BitVec.and_allOnes, BitVec.or_zero]

theorem toNat_filled (a b c d : BitVec 16) : (kept (kept (kept (zeroed a 0) b 1) c 2) d 3).toNat =
    a.toNat + 2 ^ 16 * b.toNat + 2 ^ 32 * c.toNat + 2 ^ 48 * d.toNat := by
  rw [toNat_halves]
  simp [half_kept, half_zeroed]

theorem toNat_ends (a d : BitVec 16) : (kept (zeroed a 0) d 3).toNat = a.toNat + 2 ^ 48 * d.toNat := by
  rw [toNat_halves]
  simp [half_kept, half_zeroed]

/-! ## Words -/

/-- The word of a move, by its bits on the left, its halfword, its immediate and its register. -/
def moveWord (left hw imm d : ℕ) : ℕ := 2 ^ 23 * left + 2 ^ 21 * hw + 2 ^ 5 * imm + d

theorem decode_moveWord {left hw imm d : ℕ} (hleft : left < 2 ^ 9) (hhw : hw < 4) (himm : imm < 2 ^ 16)
    (hd : d < 32) : decode (BitVec.ofNat 32 (moveWord left hw imm d)) =
      if left = 0b110100101 then some (.movz (BitVec.ofNat 5 d) (BitVec.ofNat 16 imm) (BitVec.ofNat 2 hw))
      else if left = 0b111100101 then some (.movk (BitVec.ofNat 5 d) (BitVec.ofNat 16 imm) (BitVec.ofNat 2 hw))
      else none := by
  have hfield (start len n : ℕ) (hn : moveWord left hw imm d / 2 ^ start % 2 ^ len = n) :
      (BitVec.ofNat 32 (moveWord left hw imm d)).extractLsb' start len = BitVec.ofNat len n := by
    apply BitVec.eq_of_toNat_eq
    have hword : moveWord left hw imm d < 2 ^ 32 := by
      unfold moveWord
      omega
    rw [BitVec.extractLsb'_toNat, BitVec.toNat_ofNat, BitVec.toNat_ofNat, Nat.mod_eq_of_lt hword,
      Nat.shiftRight_eq_div_pow, hn, ← hn, Nat.mod_mod]
  have hclass := hfield 23 9 left (by unfold moveWord; omega)
  unfold decode
  rw [hclass, hfield 21 2 hw (by unfold moveWord; omega), hfield 5 16 imm (by unfold moveWord; omega),
    hfield 0 5 d (by unfold moveWord; omega)]
  have heq (other : ℕ) (hother : other < 2 ^ 9) :
      BitVec.ofNat 9 left = BitVec.ofNat 9 other ↔ left = other := by
    constructor
    · intro h
      have := congrArg BitVec.toNat h
      rwa [BitVec.toNat_ofNat, BitVec.toNat_ofNat, Nat.mod_eq_of_lt hleft, Nat.mod_eq_of_lt hother] at this
    · rintro rfl
      rfl
  simp only [heq 0b110100101 (by decide), heq 0b111100101 (by decide)]

theorem run_word {m : Machine} {w : ℕ} (hw : w < 2 ^ 32) (rest : List UInt8) :
    run m (littleEndian w ++ rest) =
      (decode (BitVec.ofNat 32 w)).bind fun instruction => run (instruction.exec m) rest := by
  have hword := ofLittleEndian_littleEndian hw
  unfold littleEndian at hword ⊢
  rw [List.cons_append, List.cons_append, List.cons_append, List.cons_append, List.nil_append, run, hword]
  rfl

end SubscriptionRouter.MoveWide
