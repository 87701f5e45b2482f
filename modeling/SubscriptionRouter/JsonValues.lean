import Mathlib
import SubscriptionRouter.Float64
import SubscriptionRouter.Messages
import SubscriptionRouter.Tallies

set_option autoImplicit false

/-!
# What JSON documents mean

A `Value` is a document without its text: numbers are rational, and the members of an
object are sorted, with the last one of each name. `unmarshalMap` and `marshalMap` are the
decoder and the encoder of `map[string]any`, which keeps every number as a `float64`.
-/
namespace SubscriptionRouter.JsonValues
open GoText JsonText Messages Float64 Tallies

inductive Value where
  | null
  | bool (b : Bool)
  | number (q : ℚ)
  | string (s : GoString)
  | array (elements : List Value)
  | object (members : List (GoString × Value))

def settle {α : Type} (ms : List (GoString × α)) : GoMap α :=
  ms.foldl (fun next m => next.insert m.1 m.2) ∅

def numberValue (literal : GoString) : ℚ :=
  let q := (scaled literal).1 * (10 : ℚ) ^ (scaled literal).2.2
  match literal with
  | 0x2D :: _ => -q
  | _ => q

mutual
def valueOf : Json → Value
  | .null => .null
  | .bool b => .bool b
  | .number literal => .number (numberValue literal)
  | .string s => .string s
  | .array vs => .array (valuesOf vs)
  | .object ms => .object (settle (memberValues ms)).toList

def valuesOf : List Json → List Value
  | [] => []
  | v :: vs => valueOf v :: valuesOf vs

def memberValues : List (GoString × Json) → List (GoString × Value)
  | [] => []
  | (name, v) :: ms => (name, valueOf v) :: memberValues ms
end

mutual
def mapNumbers (f : ℚ → ℚ) : Value → Value
  | .number q => .number (f q)
  | .array vs => .array (mapNumbersAll f vs)
  | .object ms => .object (mapNumbersMembers f ms)
  | v => v

def mapNumbersAll (f : ℚ → ℚ) : List Value → List Value
  | [] => []
  | v :: vs => mapNumbers f v :: mapNumbersAll f vs

def mapNumbersMembers (f : ℚ → ℚ) : List (GoString × Value) → List (GoString × Value)
  | [] => []
  | (name, v) :: ms => (name, mapNumbers f v) :: mapNumbersMembers f ms
end

mutual
/-- The numbers of a value, at any depth. -/
def numbers : Value → List ℚ
  | .number q => [q]
  | .array vs => numbersAll vs
  | .object ms => numbersMembers ms
  | _ => []

def numbersAll : List Value → List ℚ
  | [] => []
  | v :: vs => numbers v ++ numbersAll vs

def numbersMembers : List (GoString × Value) → List ℚ
  | [] => []
  | (_, v) :: ms => numbers v ++ numbersMembers ms
end

/-! ## Decoding and encoding `map[string]any` -/

/-- `json.Unmarshal` into a nil map: `none` is an error, and `null` leaves the map nil. -/
def unmarshalMap : Option Json → Option (Option (GoMap Value))
  | some .null => some none
  | some (.object ms) =>
    if decodesToAnyMembers ms then
      some (some ((settle (memberValues ms)).map fun _ v => mapNumbers nearestFloat64 v))
    else none
  | _ => none

/-- `json.Marshal` of a map, as the value of the text. -/
def marshalMap (m : GoMap Value) : Value :=
  .object (m.map fun _ v => mapNumbers shortestDecimal v).toList

def membersOf : Option Value → GoMap Value
  | some (.object ms) => settle ms
  | _ => ∅

/-- Every number of the value comes back when it is read into a `float64` and written. -/
def Representable (v : Value) : Prop := ∀ q ∈ numbers v, throughFloat64 q = q

instance (v : Value) : Decidable (Representable v) :=
  inferInstanceAs (Decidable (∀ q ∈ numbers v, throughFloat64 q = q))

/-! ## What the round trip changes -/

mutual
theorem mapNumbers_mapNumbers (f g : ℚ → ℚ) (v : Value) :
    mapNumbers g (mapNumbers f v) = mapNumbers (fun q => g (f q)) v := by
  cases v with
  | array vs => rw [mapNumbers, mapNumbers, mapNumbers, mapNumbersAll_mapNumbersAll]
  | object ms => rw [mapNumbers, mapNumbers, mapNumbers, mapNumbersMembers_mapNumbersMembers]
  | _ => rfl

theorem mapNumbersAll_mapNumbersAll (f g : ℚ → ℚ) (vs : List Value) :
    mapNumbersAll g (mapNumbersAll f vs) = mapNumbersAll (fun q => g (f q)) vs := by
  cases vs with
  | nil => rfl
  | cons v vs =>
    rw [mapNumbersAll, mapNumbersAll, mapNumbersAll, mapNumbers_mapNumbers,
      mapNumbersAll_mapNumbersAll]

theorem mapNumbersMembers_mapNumbersMembers (f g : ℚ → ℚ) (ms : List (GoString × Value)) :
    mapNumbersMembers g (mapNumbersMembers f ms) = mapNumbersMembers (fun q => g (f q)) ms := by
  cases ms with
  | nil => rfl
  | cons m ms =>
    obtain ⟨name, v⟩ := m
    rw [mapNumbersMembers, mapNumbersMembers, mapNumbersMembers, mapNumbers_mapNumbers,
      mapNumbersMembers_mapNumbersMembers]
end

mutual
theorem mapNumbers_eq_self {f : ℚ → ℚ} (v : Value) :
    mapNumbers f v = v ↔ ∀ q ∈ numbers v, f q = q := by
  cases v with
  | number q => simp [mapNumbers, numbers]
  | array vs => simp only [mapNumbers, numbers, Value.array.injEq, mapNumbersAll_eq_self vs]
  | object ms => simp only [mapNumbers, numbers, Value.object.injEq, mapNumbersMembers_eq_self ms]
  | _ => simp [mapNumbers, numbers]

theorem mapNumbersAll_eq_self {f : ℚ → ℚ} (vs : List Value) :
    mapNumbersAll f vs = vs ↔ ∀ q ∈ numbersAll vs, f q = q := by
  cases vs with
  | nil => simp [mapNumbersAll, numbersAll]
  | cons v vs =>
    simp only [mapNumbersAll, numbersAll, List.cons.injEq, List.forall_mem_append,
      mapNumbers_eq_self v, mapNumbersAll_eq_self vs]

theorem mapNumbersMembers_eq_self {f : ℚ → ℚ} (ms : List (GoString × Value)) :
    mapNumbersMembers f ms = ms ↔ ∀ q ∈ numbersMembers ms, f q = q := by
  cases ms with
  | nil => simp [mapNumbersMembers, numbersMembers]
  | cons m ms =>
    obtain ⟨name, v⟩ := m
    simp only [mapNumbersMembers, numbersMembers, List.cons.injEq, Prod.mk.injEq, true_and,
      List.forall_mem_append, mapNumbers_eq_self v, mapNumbersMembers_eq_self ms]
end

theorem through_eq_self (v : Value) :
    mapNumbers shortestDecimal (mapNumbers nearestFloat64 v) = v ↔ Representable v := by
  rw [mapNumbers_mapNumbers]
  exact mapNumbers_eq_self v

/-- In particular the integers that a `float64` is exact on are left as they are. -/
theorem representable_of_integers {v : Value}
    (h : ∀ q ∈ numbers v, ∃ n : ℤ, |n| < 2 ^ 53 ∧ q = n) : Representable v := by
  intro q hq
  obtain ⟨n, hn, rfl⟩ := h q hq
  exact throughFloat64_int hn

theorem settle_toList {α : Type} (m : GoMap α) : settle m.toList = m := foldl_insert_toList m

theorem membersOf_marshalMap (m : GoMap Value) :
    membersOf (some (marshalMap m)) = m.map fun _ v => mapNumbers shortestDecimal v :=
  settle_toList _

theorem membersOf_valueOf (ms : List (GoString × Json)) :
    membersOf (some (valueOf (.object ms))) = settle (memberValues ms) := by
  rw [valueOf]
  exact settle_toList _

end SubscriptionRouter.JsonValues
