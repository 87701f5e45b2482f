import Mathlib

set_option autoImplicit false

/-!
# Lines from a reader

`bufio.Scanner` with `bufio.ScanLines`. A reader gives a text in pieces of any size and may
fail at any point; the scanner keeps what is not yet a line in a buffer, which it doubles up
to a limit. The lines do not depend on the pieces.
-/
namespace SubscriptionRouter.LineScanner

variable {E : Type}

/-- An error of the reader, or one of the scanner itself. -/
inductive ScanError (E : Type) where
  | reader (e : E)
  | tooLong
  | noProgress

/-- What one `Read` returns: `some none` is the end of the input. -/
structure Chunk (E : Type) where
  bytes : List UInt8
  error : Option (Option E)

/-- The unread part of the buffer, its size, and the error of the last `Read`. -/
structure Scanner (E : Type) where
  buffer : List UInt8
  capacity : ℕ
  error : Option (Option (ScanError E))

def dropCR (line : List UInt8) : List UInt8 :=
  if line.getLast? = some 0x0D then line.dropLast else line

/-- `bufio.ScanLines`: a line and what is left after it. -/
def scanLines (atEOF : Bool) (data : List UInt8) : Option (List UInt8 × List UInt8) :=
  if 0x0A ∈ data then
    some (dropCR (data.takeWhile (· ≠ 0x0A)), (data.dropWhile (· ≠ 0x0A)).tail)
  else if atEOF && data ≠ [] then some (dropCR data, [])
  else none

def startBufSize : ℕ := 4096

def maxConsecutiveEmptyReads : ℕ := 100

/-- Room for more, unless the buffer has the largest size and is full. -/
def Scanner.grow (maxTokenSize : ℕ) (s : Scanner E) : Option (Scanner E) :=
  if s.buffer.length < s.capacity then some s
  else if maxTokenSize ≤ s.capacity then none
  else
    let newSize := if s.capacity = 0 then startBufSize else 2 * s.capacity
    some { s with capacity := min newSize maxTokenSize }

/-- Read until there is something, or an error; `none` while the reader has not answered. -/
def Scanner.read (s : Scanner E) (empties : ℕ) : List (Chunk E) → Option (Scanner E × List (Chunk E))
  | [] => none
  | c :: cs =>
    let s := { s with buffer := s.buffer ++ c.bytes }
    match c.error with
    | some e => some ({ s with error := some (e.map .reader) }, cs)
    | none =>
      if c.bytes ≠ [] then some (s, cs)
      else if maxConsecutiveEmptyReads < empties + 1 then
        some ({ s with error := some (some .noProgress) }, cs)
      else s.read (empties + 1) cs

inductive Poll (E : Type) where
  | line (line : List UInt8) (s : Scanner E)
  | stopped (e : Option (ScanError E))
  | more (s : Scanner E)

/-- One round of the loop of `Scan`, up to the next `Read`. -/
def Scanner.poll (maxTokenSize : ℕ) (s : Scanner E) : Poll E :=
  match scanLines s.error.isSome s.buffer with
  | some (line, rest) => .line line { s with buffer := rest }
  | none => match s.error with
    | some e => .stopped e
    | none => match s.grow maxTokenSize with
      | some s => .more s
      | none => .stopped (some .tooLong)

theorem scanLines_line (atEOF : Bool) {line : List UInt8} (h : 0x0A ∉ line) (rest : List UInt8) :
    scanLines atEOF (line ++ 0x0A :: rest) = some (dropCR line, rest) := by
  have hline : ∀ b ∈ line, decide (b ≠ 0x0A) = true := fun b hb =>
    decide_eq_true fun heq => h (heq ▸ hb)
  have hmem : 0x0A ∈ line ++ 0x0A :: rest := List.mem_append_right _ List.mem_cons_self
  rw [scanLines, if_pos hmem, List.takeWhile_append_of_pos hline, List.dropWhile_append_of_pos hline,
    List.takeWhile_cons_of_neg (by decide), List.dropWhile_cons_of_neg (by decide), List.append_nil,
    List.tail_cons]

theorem scanLines_rest (atEOF : Bool) {data : List UInt8} (h : 0x0A ∉ data) :
    scanLines atEOF data = if atEOF && data ≠ [] then some (dropCR data, []) else none :=
  if_neg h

theorem scanLines_shorter {atEOF : Bool} {data line rest : List UInt8}
    (h : scanLines atEOF data = some (line, rest)) : rest.length < data.length := by
  by_cases hmem : 0x0A ∈ data
  · obtain ⟨front, back, rfl, hfront⟩ := List.eq_append_cons_of_mem hmem
    rw [scanLines_line atEOF hfront] at h
    cases h
    rw [List.length_append, List.length_cons]
    omega
  · rw [scanLines_rest atEOF hmem] at h
    split at h
    · rename_i hdata
      cases h
      rw [Bool.and_eq_true, decide_eq_true_eq] at hdata
      exact List.length_pos_iff.mpr hdata.2
    · cases h

def work (s : Scanner E) (chunks : List (Chunk E)) : ℕ :=
  s.buffer.length + (chunks.map fun c => c.bytes.length + 1).sum

theorem poll_line_work {maxTokenSize : ℕ} {s s' : Scanner E} {line : List UInt8}
    (h : s.poll maxTokenSize = .line line s') (chunks : List (Chunk E)) :
    work s' chunks < work s chunks := by
  unfold Scanner.poll at h
  split at h
  · rename_i hline
    cases h
    have hshorter := scanLines_shorter hline
    simp only [work]
    omega
  · split at h
    · cases h
    · split at h <;> cases h

theorem poll_more_buffer {maxTokenSize : ℕ} {s s' : Scanner E} (h : s.poll maxTokenSize = .more s') :
    scanLines false s.buffer = none ∧ s.error = none ∧ s'.buffer = s.buffer ∧ s'.error = none := by
  unfold Scanner.poll at h
  split at h
  · cases h
  · rename_i hline
    split at h
    · cases h
    · rename_i herror
      rw [herror] at hline
      split at h
      · rename_i hgrow
        cases h
        refine ⟨hline, herror, ?_⟩
        unfold Scanner.grow at hgrow
        split at hgrow
        · cases hgrow
          exact ⟨rfl, herror⟩
        · split at hgrow
          · cases hgrow
          · cases hgrow
            exact ⟨rfl, herror⟩
      · cases h

theorem read_work {s s' : Scanner E} {empties : ℕ} {chunks chunks' : List (Chunk E)}
    (h : s.read empties chunks = some (s', chunks')) : work s' chunks' < work s chunks := by
  induction chunks generalizing s empties with
  | nil => cases h
  | cons c cs ih =>
    have hcons : ∀ s₁ : Scanner E, s₁.buffer = s.buffer ++ c.bytes → work s₁ cs < work s (c :: cs) := by
      intro s₁ hbuffer
      simp only [work, hbuffer, List.length_append, List.map_cons, List.sum_cons]
      omega
    rw [Scanner.read] at h
    split at h
    · cases h
      exact hcons _ rfl
    · split at h
      · cases h
        exact hcons _ rfl
      · split at h
        · cases h
          exact hcons _ rfl
        · exact (ih h).trans (hcons _ rfl)

/-- The lines that the calls of `Scan` give, one after the other, and why they stop: `none`
where the reader has not answered, `some none` at the end of the input. -/
def scanAll (maxTokenSize : ℕ) (s : Scanner E) (chunks : List (Chunk E)) :
    List (List UInt8) × Option (Option (ScanError E)) :=
  match _hpoll : s.poll maxTokenSize with
  | .line line s' =>
    let later := scanAll maxTokenSize s' chunks
    (line :: later.1, later.2)
  | .stopped e => ([], some e)
  | .more s' => match _hread : s'.read 0 chunks with
    | none => ([], none)
    | some (s'', chunks') => scanAll maxTokenSize s'' chunks'
  termination_by work s chunks
  decreasing_by
    · exact poll_line_work _hpoll chunks
    · have hsame := read_work _hread
      simp only [work, (poll_more_buffer _hpoll).2.2.1] at hsame ⊢
      exact hsame

/-! ## What the lines are -/

/-- The lines of a text. What stands after the last line break is a line only at the end. -/
def linesOf (ended : Bool) (data : List UInt8) : List (List UInt8) :=
  let pieces := data.splitOn 0x0A
  (pieces.dropLast ++ if ended then pieces.getLast?.toList.filter (· ≠ []) else []).map dropCR

/-- Each line of the text, with its end, fits into a buffer of this size. -/
def Bounded (maxTokenSize : ℕ) (data : List UInt8) : Prop :=
  ∀ piece ∈ data.splitOn 0x0A, piece.length < maxTokenSize

/-- What the reader delivers until its first error, and that error. -/
def delivered (empties : ℕ) : List (Chunk E) → List UInt8 × Option (Option (ScanError E))
  | [] => ([], none)
  | c :: cs => match c.error with
    | some e => (c.bytes, some (e.map .reader))
    | none =>
      if c.bytes ≠ [] then
        let later := delivered 0 cs
        (c.bytes ++ later.1, later.2)
      else if maxConsecutiveEmptyReads < empties + 1 then ([], some (some .noProgress))
      else delivered (empties + 1) cs

theorem linesOf_line (ended : Bool) {line : List UInt8} (h : 0x0A ∉ line) (rest : List UInt8) :
    linesOf ended (line ++ 0x0A :: rest) = dropCR line :: linesOf ended rest := by
  have hrest : rest.splitOn 0x0A ≠ [] := List.splitOn_ne_nil _ rest
  have hpieces : (line ++ 0x0A :: rest).splitOn 0x0A = line :: rest.splitOn 0x0A := by
    rw [List.splitOn_append_cons_self, List.splitOn_eq_singleton h]
    rfl
  simp only [linesOf, hpieces, List.dropLast_cons_of_ne_nil hrest, List.cons_append, List.map_cons]
  rw [List.getLast?_cons_of_ne_nil hrest]

theorem linesOf_rest (ended : Bool) {data : List UInt8} (h : 0x0A ∉ data) :
    linesOf ended data = if ended && data ≠ [] then [dropCR data] else [] := by
  simp only [linesOf, List.splitOn_eq_singleton h]
  cases ended with
  | false => rfl
  | true =>
    by_cases hdata : data = []
    · subst hdata
      rfl
    · simp [hdata]

theorem Bounded.rest {maxTokenSize : ℕ} {line rest : List UInt8} (hline : 0x0A ∉ line)
    (h : Bounded maxTokenSize (line ++ 0x0A :: rest)) : Bounded maxTokenSize rest := by
  intro piece hpiece
  refine h piece ?_
  rw [List.splitOn_append_cons_self, List.splitOn_eq_singleton hline]
  exact List.mem_cons_of_mem line hpiece

theorem Bounded.front {maxTokenSize : ℕ} {front : List UInt8} (hfront : 0x0A ∉ front)
    {data : List UInt8} (h : Bounded maxTokenSize (front ++ data)) : front.length < maxTokenSize := by
  by_cases hmem : 0x0A ∈ data
  · obtain ⟨line, rest, rfl, hline⟩ := List.eq_append_cons_of_mem hmem
    have hnot : 0x0A ∉ front ++ line := by simp [hfront, hline]
    have hpiece := h (front ++ line) (by
      rw [← List.append_assoc, List.splitOn_append_cons_self, List.splitOn_eq_singleton hnot]
      exact List.mem_cons_self)
    rw [List.length_append] at hpiece
    omega
  · have hnot : 0x0A ∉ front ++ data := by simp [hfront, hmem]
    have hpiece := h (front ++ data) (by
      rw [List.splitOn_eq_singleton hnot]
      exact List.mem_cons_self)
    rw [List.length_append] at hpiece
    omega

/-- What a scanner has still to give lines from, and the error it will then have. -/
def pending (s : Scanner E) (chunks : List (Chunk E)) : List UInt8 × Option (Option (ScanError E)) :=
  match s.error with
  | some e => (s.buffer, some e)
  | none => (s.buffer ++ (delivered 0 chunks).1, (delivered 0 chunks).2)

section Scanning
variable {maxTokenSize : ℕ} {s s' : Scanner E} {chunks chunks' : List (Chunk E)}

theorem read_none {empties : ℕ} (h : s.read empties chunks = none) :
    delivered empties chunks = ([], none) := by
  induction chunks generalizing s empties with
  | nil => rfl
  | cons c cs ih =>
    rw [Scanner.read] at h
    rw [delivered]
    split at h
    · cases h
    · split at h
      · cases h
      · split at h
        · cases h
        · rename_i hbytes hmany
          rw [if_neg hbytes, if_neg hmany]
          exact ih h

theorem read_some {empties : ℕ} (hs : s.error = none) (h : s.read empties chunks = some (s', chunks')) :
    pending s' chunks' =
      (s.buffer ++ (delivered empties chunks).1, (delivered empties chunks).2) := by
  induction chunks generalizing s empties with
  | nil => cases h
  | cons c cs ih =>
    rw [Scanner.read] at h
    rw [delivered]
    split at h
    · cases h
      rfl
    · split at h
      · rename_i hbytes
        cases h
        rw [pending, hs]
        dsimp only
        rw [if_pos hbytes, List.append_assoc]
      · rename_i hbytes
        have hnil := not_not.mp hbytes
        split at h
        · rename_i hmany
          cases h
          rw [pending]
          dsimp only
          rw [if_neg hbytes, if_pos hmany, hnil]
        · rename_i hmany
          rw [if_neg hbytes, if_neg hmany]
          refine (ih (s := { s with buffer := s.buffer ++ c.bytes }) hs h).trans ?_
          rw [hnil, List.append_nil]

theorem pending_line (chunks : List (Chunk E)) {line rest : List UInt8} (hbuffer : s.buffer = line ++ 0x0A :: rest) :
    (pending s chunks).1 = line ++ 0x0A :: (pending { s with buffer := rest } chunks).1 ∧
      (pending s chunks).2 = (pending { s with buffer := rest } chunks).2 := by
  unfold pending
  rw [hbuffer]
  cases s.error with
  | some e => exact ⟨rfl, rfl⟩
  | none => exact ⟨by rw [List.append_assoc, List.cons_append], rfl⟩

theorem poll_line (maxTokenSize : ℕ) {line rest : List UInt8} (hbuffer : s.buffer = line ++ 0x0A :: rest)
    (hline : 0x0A ∉ line) : s.poll maxTokenSize = .line (dropCR line) { s with buffer := rest } := by
  rw [Scanner.poll, hbuffer, scanLines_line _ hline]

theorem poll_ended (maxTokenSize : ℕ) {e : Option (ScanError E)} (hbuffer : 0x0A ∉ s.buffer)
    (he : s.error = some e) :
    s.poll maxTokenSize = if s.buffer = [] then .stopped e
      else .line (dropCR s.buffer) { s with buffer := [] } := by
  rw [Scanner.poll, scanLines_rest _ hbuffer, he]
  by_cases hnil : s.buffer = []
  · rw [if_pos hnil, if_neg (by simp [hnil])]
  · rw [if_neg hnil, if_pos (by simp [hnil])]

theorem poll_more (hbuffer : 0x0A ∉ s.buffer) (he : s.error = none)
    (hroom : s.buffer.length < maxTokenSize) :
    ∃ s', s.poll maxTokenSize = .more s' ∧ s'.buffer = s.buffer ∧ s'.error = none := by
  have hline : scanLines s.error.isSome s.buffer = none := by
    rw [scanLines_rest _ hbuffer, he]
    rfl
  rw [Scanner.poll, hline, he]
  unfold Scanner.grow
  by_cases hfull : s.buffer.length < s.capacity
  · rw [if_pos hfull]
    exact ⟨s, rfl, rfl, he⟩
  · rw [if_neg hfull, if_neg (by omega)]
    exact ⟨_, rfl, rfl, he⟩

theorem scanAll_line {line : List UInt8} (h : s.poll maxTokenSize = .line line s') :
    scanAll maxTokenSize s chunks =
      (line :: (scanAll maxTokenSize s' chunks).1, (scanAll maxTokenSize s' chunks).2) := by
  rw [scanAll]
  split
  · rename_i h'
    cases h.symm.trans h'
    rfl
  · rename_i h'
    cases h.symm.trans h'
  · rename_i h'
    cases h.symm.trans h'

theorem scanAll_stopped {e : Option (ScanError E)} (h : s.poll maxTokenSize = .stopped e) :
    scanAll maxTokenSize s chunks = ([], some e) := by
  rw [scanAll]
  split
  · rename_i h'
    cases h.symm.trans h'
  · rename_i h'
    cases h.symm.trans h'
    rfl
  · rename_i h'
    cases h.symm.trans h'

theorem scanAll_more (h : s.poll maxTokenSize = .more s') : scanAll maxTokenSize s chunks =
    match s'.read 0 chunks with
    | none => ([], none)
    | some (s'', chunks') => scanAll maxTokenSize s'' chunks' := by
  rw [scanAll]
  split
  · rename_i h'
    cases h.symm.trans h'
  · rename_i h'
    cases h.symm.trans h'
  · rename_i h'
    cases h.symm.trans h'
    split <;> rename_i hread <;> rw [hread]

/-- The lines are those of what the reader delivers, in whatever pieces it comes. -/
theorem scanAll_eq (s : Scanner E) (chunks : List (Chunk E))
    (h : Bounded maxTokenSize (pending s chunks).1) :
    scanAll maxTokenSize s chunks =
      (linesOf (pending s chunks).2.isSome (pending s chunks).1, (pending s chunks).2) := by
  generalize hn : work s chunks = n
  induction n using Nat.strong_induction_on generalizing s chunks with
  | _ n ih =>
    by_cases hmem : 0x0A ∈ s.buffer
    · obtain ⟨line, rest, hbuffer, hline⟩ := List.eq_append_cons_of_mem hmem
      have hpoll := poll_line maxTokenSize hbuffer hline
      obtain ⟨hdata, hend⟩ := pending_line chunks hbuffer
      rw [hdata] at h
      have hlater := ih _ (hn ▸ poll_line_work hpoll chunks) _ _ (h.rest hline) rfl
      rw [scanAll_line hpoll, hlater, hdata, hend, linesOf_line _ hline]
    · cases he : s.error with
      | some e =>
        have hpoll := poll_ended maxTokenSize hmem he
        have hpending : pending s chunks = (s.buffer, some e) := by rw [pending, he]
        rw [hpending, linesOf_rest _ hmem]
        by_cases hnil : s.buffer = []
        · rw [if_pos hnil] at hpoll
          rw [scanAll_stopped hpoll, if_neg (by simp [hnil])]
        · rw [if_neg hnil] at hpoll
          have hlast : ({ s with buffer := [] } : Scanner E).poll maxTokenSize = .stopped e :=
            (poll_ended maxTokenSize (s := { s with buffer := [] }) List.not_mem_nil he).trans (if_pos rfl)
          rw [scanAll_line hpoll, scanAll_stopped hlast, if_pos (by simp [hnil])]
      | none =>
        have hpending : pending s chunks =
            (s.buffer ++ (delivered 0 chunks).1, (delivered 0 chunks).2) := by rw [pending, he]
        have hroom : s.buffer.length < maxTokenSize := by
          rw [hpending] at h
          exact h.front hmem
        obtain ⟨s', hpoll, hbuffer, herror⟩ := poll_more hmem he hroom
        cases hread : s'.read 0 chunks with
        | none =>
          rw [scanAll_more hpoll, hread, hpending, read_none hread, List.append_nil,
            linesOf_rest _ hmem]
          rfl
        | some next =>
          obtain ⟨s'', chunks'⟩ := next
          have hsame := read_some herror hread
          rw [hbuffer, ← hpending] at hsame
          have hless := read_work hread
          simp only [work, hbuffer] at hless
          rw [scanAll_more hpoll, hread]
          exact (ih _ (hn ▸ hless) s'' chunks' (hsame ▸ h) rfl).trans (by rw [hsame])

end Scanning

end SubscriptionRouter.LineScanner
