import Mathlib

set_option autoImplicit false

/-!
# Programs that read parts of a file

What is read next may depend on what has been read, and on the length of the file. A file that
agrees with another on every range that is read gives the same result.
-/
namespace SubscriptionRouter.Readers

/-- What Python gives for `data[offset:offset + size]`. -/
def slice {β : Type} (data : List β) (offset size : ℕ) : List β := (data.drop offset).take size

inductive Reader (α : Type) where
  | ret (value : α)
  | refuse
  | length (next : ℕ → Reader α)
  | read (offset size : ℕ) (next : List UInt8 → Reader α)

namespace Reader
variable {α β : Type}

def bind (f : α → Reader β) : Reader α → Reader β
  | .ret value => f value
  | .refuse => .refuse
  | .length next => .length fun n => (next n).bind f
  | .read offset size next => .read offset size fun bytes => (next bytes).bind f

instance : Monad Reader where
  pure := .ret
  bind m f := m.bind f

def run (data : List UInt8) : Reader α → Option α
  | .ret value => some value
  | .refuse => none
  | .length next => (next data.length).run data
  | .read offset size next => (next (slice data offset size)).run data

/-- The ranges that are read, with their offsets and sizes. -/
def ranges (data : List UInt8) : Reader α → List (ℕ × ℕ)
  | .ret _ | .refuse => []
  | .length next => (next data.length).ranges data
  | .read offset size next => (offset, size) :: (next (slice data offset size)).ranges data

def getLength : Reader ℕ := .length .ret

def getBytes (offset size : ℕ) : Reader (List UInt8) := .read offset size .ret

def ensure (condition : Prop) [Decidable condition] : Reader Unit := if condition then .ret () else .refuse

/-- A loop over some numbers, with what it gives for each. -/
def collect (f : ℕ → Reader α) : List ℕ → Reader (List α)
  | [] => pure []
  | number :: numbers => do
    let value ← f number
    let values ← collect f numbers
    return value :: values

theorem run_congr {data data' : List UInt8} (hlength : data'.length = data.length) (m : Reader α)
    (h : ∀ range ∈ m.ranges data, slice data' range.1 range.2 = slice data range.1 range.2) :
    m.run data' = m.run data ∧ m.ranges data' = m.ranges data := by
  induction m with
  | ret value => exact ⟨rfl, rfl⟩
  | refuse => exact ⟨rfl, rfl⟩
  | length next ih =>
    rw [run, run, ranges, ranges, hlength]
    exact ih _ h
  | read offset size next ih =>
    have hhead := h (offset, size) (List.mem_cons_self ..)
    rw [run, run, ranges, ranges, hhead]
    obtain ⟨hrun, hranges⟩ := ih _ fun range hmem => h range (List.mem_cons_of_mem _ hmem)
    exact ⟨hrun, congrArg _ hranges⟩

@[simp]
theorem run_pure (data : List UInt8) (value : α) : (pure value : Reader α).run data = some value := rfl

@[simp]
theorem run_refuse (data : List UInt8) : (.refuse : Reader α).run data = none := rfl

@[simp]
theorem run_bind (data : List UInt8) (m : Reader α) (f : α → Reader β) :
    (m >>= f).run data = (m.run data).bind fun value => (f value).run data := by
  change (m.bind f).run data = _
  induction m with
  | ret value => rfl
  | refuse => rfl
  | length next ih => exact ih _
  | read offset size next ih => exact ih _

@[simp]
theorem run_getLength (data : List UInt8) : getLength.run data = some data.length := rfl

@[simp]
theorem run_getBytes (data : List UInt8) (offset size : ℕ) :
    (getBytes offset size).run data = some (slice data offset size) := rfl

theorem run_ensure {data : List UInt8} {condition : Prop} [Decidable condition] {u : Unit} :
    (ensure condition).run data = some u ↔ condition := by
  unfold ensure
  split_ifs with h
  · exact iff_of_true rfl h
  · exact iff_of_false nofun h

theorem run_collect {data : List UInt8} {f : ℕ → Reader α} {numbers : List ℕ} {values : List α}
    (h : (collect f numbers).run data = some values) :
    ∀ value ∈ values, ∃ number ∈ numbers, (f number).run data = some value := by
  induction numbers generalizing values with
  | nil =>
    obtain rfl := Option.some.inj h
    exact fun value hmem => absurd hmem List.not_mem_nil
  | cons number numbers ih =>
    simp only [collect, run_bind, Option.bind_eq_some_iff, run_pure] at h
    obtain ⟨first, hfirst, others, hothers, hvalues⟩ := h
    obtain rfl := Option.some.inj hvalues
    intro value hmem
    rcases List.mem_cons.mp hmem with rfl | hmem
    · exact ⟨number, List.mem_cons_self .., hfirst⟩
    · obtain ⟨other, hother, hvalue⟩ := ih hothers value hmem
      exact ⟨other, List.mem_cons_of_mem _ hother, hvalue⟩

end Reader

def Apart (a b : ℕ × ℕ) : Prop := ∀ i, a.1 ≤ i → i < a.1 + a.2 → i < b.1 ∨ b.1 + b.2 ≤ i

theorem apart_of_le {a b : ℕ × ℕ} (h : a.1 + a.2 ≤ b.1 ∨ b.1 + b.2 ≤ a.1) : Apart a b := by
  intro i hlow hhigh
  omega

theorem length_slice {β : Type} {data : List β} {offset size : ℕ} (h : offset + size ≤ data.length) :
    (slice data offset size).length = size := by
  unfold slice
  rw [List.length_take, List.length_drop]
  omega

theorem getElem?_slice {β : Type} {data : List β} {start size i : ℕ} (hi : i < size) :
    (slice data start size)[i]? = data[start + i]? := by
  unfold slice
  rw [List.getElem?_take_of_lt hi, List.getElem?_drop]

theorem getElem?_slice_of_le {β : Type} {data : List β} {start size i : ℕ} (hi : size ≤ i) :
    (slice data start size)[i]? = none := by
  unfold slice
  exact List.getElem?_eq_none (Nat.le_trans (List.length_take_le ..) hi)

theorem slice_append {β : Type} (a b c : List β) : slice (a ++ b ++ c) a.length b.length = b := by
  simp [slice]

def splice (data : List UInt8) (offset : ℕ) (bytes : List UInt8) : List UInt8 :=
  data.take offset ++ bytes ++ data.drop (offset + bytes.length)

theorem splice_append (a c : List UInt8) {b bytes : List UInt8} (h : b.length = bytes.length) :
    splice (a ++ b ++ c) a.length bytes = a ++ bytes ++ c := by
  unfold splice
  rw [← h, ← List.length_append, List.drop_left, List.append_assoc a b, List.take_left]

section Splice
variable {data bytes : List UInt8} {offset : ℕ}

theorem length_splice (h : offset + bytes.length ≤ data.length) :
    (splice data offset bytes).length = data.length := by
  simp only [splice, List.length_append, List.length_take, List.length_drop]
  omega

theorem getElem?_splice (h : offset + bytes.length ≤ data.length) {i : ℕ}
    (hi : i < offset ∨ offset + bytes.length ≤ i) : (splice data offset bytes)[i]? = data[i]? := by
  unfold splice
  rcases hi with hi | hi
  · rw [List.append_assoc, List.getElem?_append_left (by rw [List.length_take]; omega),
      List.getElem?_take_of_lt hi]
  · have hlength : (data.take offset ++ bytes).length = offset + bytes.length := by
      rw [List.length_append, List.length_take]
      omega
    rw [List.getElem?_append_right (by omega), hlength, List.getElem?_drop]
    congr 1
    omega

theorem slice_splice_of_apart {start size : ℕ} (h : offset + bytes.length ≤ data.length)
    (hapart : Apart (start, size) (offset, bytes.length)) :
    slice (splice data offset bytes) start size = slice data start size := by
  apply List.ext_getElem?
  intro i
  by_cases hi : i < size
  · rw [getElem?_slice hi, getElem?_slice hi]
    exact getElem?_splice h (hapart (start + i) (Nat.le_add_right ..) (Nat.add_lt_add_left hi start))
  · rw [getElem?_slice_of_le (Nat.le_of_not_lt hi), getElem?_slice_of_le (Nat.le_of_not_lt hi)]

theorem getElem?_splice_within (h : offset ≤ data.length) {i : ℕ} (hlow : offset ≤ i)
    (hhigh : i < offset + bytes.length) : (splice data offset bytes)[i]? = bytes[i - offset]? := by
  have hlength : (data.take offset).length = offset := by
    rw [List.length_take]
    omega
  unfold splice
  rw [List.append_assoc, List.getElem?_append_right (by omega), hlength,
    List.getElem?_append_left (by omega)]

theorem slice_splice_inside {start size : ℕ} (h : start + size ≤ data.length)
    (hinside : offset + bytes.length ≤ size) :
    slice (splice data (start + offset) bytes) start size = splice (slice data start size) offset bytes := by
  have hslice : (slice data start size).length = size := length_slice h
  have hsplice : (splice (slice data start size) offset bytes).length = size := by
    rw [length_splice (by omega), hslice]
  have hdata : (splice data (start + offset) bytes).length = data.length := length_splice (by omega)
  apply List.ext_getElem?
  intro i
  by_cases hi : i < size
  · rw [getElem?_slice hi]
    by_cases hwithin : offset ≤ i ∧ i < offset + bytes.length
    · rw [getElem?_splice_within (by omega) (by omega) (by omega),
        getElem?_splice_within (by omega) hwithin.1 hwithin.2]
      congr 1
      omega
    · rw [getElem?_splice (by omega) (by omega), getElem?_splice (by omega) (by omega), getElem?_slice hi]
  · rw [List.getElem?_eq_none (by rw [length_slice (by omega)]; omega),
      List.getElem?_eq_none (by omega)]

theorem slice_splice (h : offset + bytes.length ≤ data.length) :
    slice (splice data offset bytes) offset bytes.length = bytes := by
  have hlength : (data.take offset).length = offset := by
    rw [List.length_take]
    omega
  have := slice_append (data.take offset) bytes (data.drop (offset + bytes.length))
  rwa [hlength] at this
end Splice

end SubscriptionRouter.Readers
