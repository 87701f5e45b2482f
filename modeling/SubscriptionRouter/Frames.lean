import Mathlib

set_option autoImplicit false

/-!
# Frames with a length before them

A frame is a payload after its length in four bytes, the lowest first. A server reads frame
after frame and answers each with one of its own, and stops at the first one it cannot read
or whose answer is too long.
-/
namespace SubscriptionRouter.Frames

def littleEndian (n : ℕ) : List UInt8 :=
  [UInt8.ofNat n, UInt8.ofNat (n / 0x100), UInt8.ofNat (n / 0x10000), UInt8.ofNat (n / 0x1000000)]

def ofLittleEndian : List UInt8 → ℕ
  | [] => 0
  | b :: t => b.toNat + 0x100 * ofLittleEndian t

theorem ofLittleEndian_littleEndian {n : ℕ} (h : n < 2 ^ 32) :
    ofLittleEndian (littleEndian n) = n := by
  simp only [littleEndian, ofLittleEndian, UInt8.toNat_ofNat']
  omega

def frame (payload : List UInt8) : List UInt8 := littleEndian payload.length ++ payload

inductive Read where
  | payload (payload rest : List UInt8)
  /-- The input is at its end, or ends inside a frame. -/
  | ended
  | failed

def readFrame (maxSize : ℕ) (input : List UInt8) : Read :=
  if input.length < 4 then .ended
  else
    let size := ofLittleEndian (input.take 4)
    if size = 0 ∨ maxSize < size then .failed
    else if input.length < 4 + size then .ended
    else .payload ((input.drop 4).take size) (input.drop (4 + size))

theorem readFrame_shorter {maxSize : ℕ} {input payload rest : List UInt8}
    (h : readFrame maxSize input = .payload payload rest) : rest.length < input.length := by
  unfold readFrame at h
  split at h
  · cases h
  · dsimp only at h
    split at h
    · cases h
    · split at h
      · cases h
      · cases h
        rw [List.length_drop]
        omega

theorem readFrame_frame {maxSize : ℕ} {payload : List UInt8} (hne : payload ≠ [])
    (hmax : payload.length ≤ maxSize) (hlimit : maxSize < 2 ^ 32) (rest : List UInt8) :
    readFrame maxSize (frame payload ++ rest) = .payload payload rest := by
  have hpos : 0 < payload.length := List.length_pos_iff.mpr hne
  have hprefix : (littleEndian payload.length).length = 4 := rfl
  have htake : (frame payload ++ rest).take 4 = littleEndian payload.length := by
    rw [frame, List.append_assoc]
    exact List.take_left' hprefix
  have hdrop : (frame payload ++ rest).drop 4 = payload ++ rest := by
    rw [frame, List.append_assoc]
    exact List.drop_left' hprefix
  have hlength : (frame payload ++ rest).length = 4 + payload.length + rest.length := by
    rw [frame, List.length_append, List.length_append, hprefix]
  unfold readFrame
  rw [if_neg (by omega)]
  simp only [htake, ofLittleEndian_littleEndian (lt_of_le_of_lt hmax hlimit)]
  rw [if_neg (by omega), if_neg (by omega), hdrop, List.take_left' rfl, ← List.drop_drop, hdrop,
    List.drop_left' rfl]

/-- `none` for a payload that is empty or too long. -/
def writeFrame (maxSize : ℕ) (payload : List UInt8) : Option (List UInt8) :=
  if payload.length = 0 ∨ maxSize < payload.length then none else some (frame payload)

inductive Ending where
  | finished
  | stopped
  deriving DecidableEq

/-- The frames that a server writes, and how it ends; `respond` has the number of a frame
and its payload. -/
def serve (maxSize : ℕ) (respond : ℕ → List UInt8 → List UInt8) (n : ℕ) (input : List UInt8) :
    List UInt8 × Ending :=
  match _hread : readFrame maxSize input with
  | .ended => ([], .finished)
  | .failed => ([], .stopped)
  | .payload payload rest =>
    match writeFrame maxSize (respond n payload) with
    | none => ([], .stopped)
    | some output =>
      let later := serve maxSize respond (n + 1) rest
      (output ++ later.1, later.2)
  termination_by input.length
  decreasing_by exact readFrame_shorter (by assumption)

variable {maxSize : ℕ} {respond : ℕ → List UInt8 → List UInt8}

theorem serve_nil (n : ℕ) : serve maxSize respond n [] = ([], .finished) := by
  rw [serve]
  rfl

theorem serve_frame {payload : List UInt8} (hne : payload ≠ []) (hmax : payload.length ≤ maxSize)
    (hlimit : maxSize < 2 ^ 32) (n : ℕ) (rest : List UInt8) :
    serve maxSize respond n (frame payload ++ rest) =
      match writeFrame maxSize (respond n payload) with
      | none => ([], .stopped)
      | some output => (output ++ (serve maxSize respond (n + 1) rest).1,
          (serve maxSize respond (n + 1) rest).2) := by
  have hread := readFrame_frame hne hmax hlimit rest
  rw [serve]
  split
  · rename_i h
    rw [hread] at h
    cases h
  · rename_i h
    rw [hread] at h
    cases h
  · rename_i h
    rw [hread] at h
    cases h
    rfl

/-- The answers to some payloads, the first of which has the number `n`. -/
def answers (respond : ℕ → List UInt8 → List UInt8) (n : ℕ) : List (List UInt8) → List (List UInt8)
  | [] => []
  | payload :: payloads => respond n payload :: answers respond (n + 1) payloads

theorem mem_answers {answer : List UInt8} {n : ℕ} {payloads : List (List UInt8)} :
    answer ∈ answers respond n payloads ↔ ∃ (i : ℕ) (payload : List UInt8),
      payloads[i]? = some payload ∧ answer = respond (n + i) payload := by
  induction payloads generalizing n with
  | nil => simp [answers]
  | cons payload payloads ih =>
    rw [answers, List.mem_cons, ih]
    constructor
    · rintro (rfl | ⟨i, later, hlater, rfl⟩)
      · exact ⟨0, payload, rfl, rfl⟩
      · exact ⟨i + 1, later, hlater, by rw [Nat.add_assoc, Nat.add_comm 1]⟩
    · rintro ⟨i, later, hlater, rfl⟩
      cases i with
      | zero =>
        cases hlater
        exact .inl rfl
      | succ i => exact .inr ⟨i, later, hlater, by rw [Nat.add_assoc, Nat.add_comm 1]⟩

def Fits (maxSize : ℕ) (payload : List UInt8) : Prop := payload ≠ [] ∧ payload.length ≤ maxSize

theorem writeFrame_of_fits {payload : List UInt8} (h : Fits maxSize payload) :
    writeFrame maxSize payload = some (frame payload) := by
  have hpos : 0 < payload.length := List.length_pos_iff.mpr h.1
  have hmax := h.2
  exact if_neg (by omega)

theorem writeFrame_of_not_fits {payload : List UInt8} (h : ¬ Fits maxSize payload) :
    writeFrame maxSize payload = none := by
  refine if_pos ?_
  by_contra hsize
  exact h ⟨fun hnil => hsize (.inl (List.length_eq_zero_iff.mpr hnil)), by omega⟩

/-- When every answer fits, each frame is answered in its turn. -/
theorem serve_of_fits (hlimit : maxSize < 2 ^ 32) {payloads : List (List UInt8)}
    (hfits : ∀ payload ∈ payloads, Fits maxSize payload) (n : ℕ)
    (h : ∀ answer ∈ answers respond n payloads, Fits maxSize answer) :
    serve maxSize respond n (payloads.flatMap frame) =
      ((answers respond n payloads).flatMap frame, .finished) := by
  induction payloads generalizing n with
  | nil => exact serve_nil n
  | cons payload payloads ih =>
    obtain ⟨hfirst, hrest⟩ := List.forall_mem_cons.mp hfits
    obtain ⟨hanswer, hanswers⟩ := List.forall_mem_cons.mp h
    rw [List.flatMap_cons, serve_frame hfirst.1 hfirst.2 hlimit, writeFrame_of_fits hanswer,
      ih hrest (n + 1) hanswers]
    rfl

/-- An answer that does not fit stops the server. -/
theorem serve_of_not_fits (hlimit : maxSize < 2 ^ 32) {payloads : List (List UInt8)}
    (hfits : ∀ payload ∈ payloads, Fits maxSize payload) (n : ℕ)
    (h : ∃ answer ∈ answers respond n payloads, ¬ Fits maxSize answer) :
    (serve maxSize respond n (payloads.flatMap frame)).2 = .stopped := by
  induction payloads generalizing n with
  | nil =>
    obtain ⟨_, hmem, _⟩ := h
    exact absurd hmem List.not_mem_nil
  | cons payload payloads ih =>
    obtain ⟨hfirst, hrest⟩ := List.forall_mem_cons.mp hfits
    rw [List.flatMap_cons, serve_frame hfirst.1 hfirst.2 hlimit]
    by_cases hanswer : Fits maxSize (respond n payload)
    · rw [writeFrame_of_fits hanswer]
      refine ih hrest (n + 1) ?_
      obtain ⟨answer, hmem, hlong⟩ := h
      rcases List.mem_cons.mp hmem with rfl | hmem
      · exact absurd hanswer hlong
      · exact ⟨answer, hmem, hlong⟩
    · rw [writeFrame_of_not_fits hanswer]

end SubscriptionRouter.Frames
