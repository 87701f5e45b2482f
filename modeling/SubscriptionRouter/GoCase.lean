import Mathlib
import SubscriptionRouter.GoText

set_option autoImplicit false

/-!
# Go strings without regard to case

What `strings.ToUpper` and `strings.EqualFold` do as far as the results are ASCII. Outside ASCII
only the runes matter that have an ASCII letter for their upper case, or that are equal to one.
-/
namespace SubscriptionRouter.GoCase
open GoText

def upperByte (b : UInt8) : UInt8 := if 0x61 ≤ b && b ≤ 0x7A then b - 0x20 else b

/-- As far as ASCII results go: besides the ASCII letters, the dotless i and the long s have ASCII
upper cases. -/
def upperUnit (u : GoString) : GoString :=
  if u = [0xC4, 0xB1] then lit "I"
  else if u = [0xC5, 0xBF] then lit "S"
  else u.map fun b => if u.length = 1 then upperByte b else b

/-- `strings.ToUpper`. -/
def toUpper (s : GoString) : GoString := ((units s).map upperUnit).flatten

/-- As far as ASCII letters go: the long s and the Kelvin sign are equal to letters. -/
def foldUnit (u : GoString) : GoString :=
  if u = [0xC5, 0xBF] then lit "S"
  else if u = [0xE2, 0x84, 0xAA] then lit "K"
  else u.map fun b => if u.length = 1 then upperByte b else b

/-- `strings.EqualFold`, where one of the strings is ASCII. -/
def equalFold (s t : GoString) : Bool := (units s).map foldUnit = (units t).map foldUnit

section Ascii
variable {name : GoString}

theorem upperByte_lt {b : UInt8} (h : upperByte b < 0x80) : b < 0x80 := by
  unfold upperByte at h
  by_cases hlower : (0x61 ≤ b && b ≤ 0x7A) = true
  · rw [Bool.and_eq_true, decide_eq_true_iff, decide_eq_true_iff] at hlower
    exact UInt8.lt_of_le_of_lt hlower.2 (by decide)
  · rwa [if_neg hlower] at h

theorem upperUnit_byte (b : UInt8) : upperUnit [b] = [upperByte b] := by
  simp [upperUnit]

theorem toUpper_ascii (h : ∀ b ∈ name, b < 0x80) : toUpper name = name.map upperByte := by
  rw [toUpper, units_ascii h, List.map_map]
  simp only [Function.comp_def, upperUnit_byte]
  rw [← List.flatMap_def, ← List.map_eq_flatMap]

end Ascii

end SubscriptionRouter.GoCase
