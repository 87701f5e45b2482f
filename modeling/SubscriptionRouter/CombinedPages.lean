import Mathlib
import SubscriptionRouter.JsonRoundTrip
import SubscriptionRouter.JsonValues
import SubscriptionRouter.SpendPolicy

set_option autoImplicit false

/-!
# The pages of the merged listing

The cursor that the client gets with a page says how many threads it has been given.
`combinedThreadPage` reads it back from the params of the next request, together with the
limit.
-/
namespace SubscriptionRouter.CombinedPages
open GoText JsonText JsonRoundTrip JsonValues Messages Float64
open SpendPolicy (addInt)

variable {T : Type}

def defaultCombinedThreadLimit : ℤ := 20

def maximumCombinedThreadLimit : ℤ := 500

def combinedCursorPrefix : GoString := lit "codex-mux-offset:"

/-- `strconv.Atoi`. -/
def atoi (s : GoString) : Option ℤ :=
  match s with
  | 0x2B :: t => (parseNat t).bind fun n => if n < 2 ^ 63 then some (n : ℤ) else none
  | s => parseInt64 s

def limitParam : Option Value → ℤ
  | some (.number requested) =>
    if 0 < requested then
      if requested < 1 then 1
      else if maximumCombinedThreadLimit ≤ requested then maximumCombinedThreadLimit
      else ⌊requested⌋
    else defaultCombinedThreadLimit
  | _ => defaultCombinedThreadLimit

def offsetParam : Option Value → ℤ
  | some (.string cursor) =>
    if combinedCursorPrefix.isPrefixOf cursor then
      match atoi (cursor.drop combinedCursorPrefix.length) with
      | some parsed => if 0 < parsed then parsed else 0
      | none => 0
    else 0
  | _ => 0

/-- The limit and the offset. -/
def combinedThreadPage (params : RawMessage) : ℤ × ℤ :=
  match unmarshalMap (parse params) with
  | none => (defaultCombinedThreadLimit, 0)
  | some decoded =>
    (limitParam ((decoded.getD ∅)[lit "limit"]?), offsetParam ((decoded.getD ∅)[lit "cursor"]?))

/-- `threads[offset:end]`: indices out of range are a fault, which ends the router. -/
def slice (threads : List T) (offset stop : ℤ) : Option (List T) :=
  if 0 ≤ offset ∧ offset ≤ stop ∧ stop ≤ threads.length then
    some ((threads.take stop.toNat).drop offset.toNat)
  else none

/-- The page and its `nextCursor`. -/
def respond (threads : List T) (params : RawMessage) : Option (List T × Option GoString) :=
  let (limit, offset) := combinedThreadPage params
  let length : ℤ := threads.length
  let offset := if length < offset then length else offset
  let stop := min (addInt offset limit) length
  (slice threads offset stop).map fun page =>
    (page, if stop < length then some (combinedCursorPrefix ++ itoa stop) else none)

/-! ## A client that follows the cursors -/

/-- The cursor that a request carries. -/
def cursorOf (params : RawMessage) : Option GoString :=
  match (membersOf ((parse params).map valueOf))[lit "cursor"]? with
  | some (.string cursor) => some cursor
  | _ => none

/-- The requests of a client that starts without a cursor, the pages it gets, and the cursor
that it is to send next. -/
inductive Follows (threads : List T) :
    List RawMessage → List (List T) → Option GoString → Prop
  | start {params : RawMessage} {page : List T} {next : Option GoString} :
      cursorOf params = none → respond threads params = some (page, next) →
      Follows threads [params] [page] next
  | more {requests : List RawMessage} {pages : List (List T)} {cursor : GoString}
      {params : RawMessage} {page : List T} {next : Option GoString} :
      Follows threads requests pages (some cursor) → cursorOf params = some cursor →
      respond threads params = some (page, next) →
      Follows threads (requests ++ [params]) (pages ++ [page]) next

/-- The params decode into `map[string]any`: no number in them is out of the range of
`float64`. -/
def Decodes (params : RawMessage) : Prop := (unmarshalMap (parse params)).isSome

/-- The list is a slice in memory, of eight bytes for each thread. -/
def InMemory (threads : List T) : Prop := 8 * threads.length < 2 ^ 63

/-- The cursor after so many threads; there is none after the last one. -/
def cursorAt (threads : List T) (n : ℕ) : Option GoString :=
  if n < threads.length then some (combinedCursorPrefix ++ itoa n) else none

/-! ## One page -/

theorem limitParam_bounds (v : Option Value) :
    1 ≤ limitParam v ∧ limitParam v ≤ maximumCombinedThreadLimit := by
  unfold limitParam
  split
  · split_ifs with hpos hless hmax
    · decide
    · decide
    · rename_i requested
      have hceil : requested < (maximumCombinedThreadLimit : ℚ) := not_le.mp hmax
      have hfloor := Int.floor_le requested
      refine ⟨Int.le_floor.mpr (by exact_mod_cast not_lt.mp hless), ?_⟩
      exact_mod_cast (hfloor.trans hceil.le)
    · decide
  · decide

theorem offsetParam_nonneg (v : Option Value) : 0 ≤ offsetParam v := by
  unfold offsetParam
  split
  · split_ifs
    · split
      · split_ifs <;> omega
      · exact le_rfl
    · exact le_rfl
  · exact le_rfl

theorem combinedThreadPage_bounds (params : RawMessage) :
    1 ≤ (combinedThreadPage params).1 ∧
      (combinedThreadPage params).1 ≤ maximumCombinedThreadLimit ∧
      0 ≤ (combinedThreadPage params).2 := by
  unfold combinedThreadPage
  split
  · decide
  · exact ⟨(limitParam_bounds _).1, (limitParam_bounds _).2, offsetParam_nonneg _⟩

theorem addInt_eq {a b : ℤ} (h : 0 ≤ a + b) (hlt : a + b < 2 ^ 63) : addInt a b = a + b := by
  rw [addInt, Int.bmod]
  split <;> omega

theorem slice_eq (threads : List T) {start stop : ℕ} (h : start ≤ stop)
    (hle : stop ≤ threads.length) :
    slice threads start stop = some ((threads.take stop).drop start) := by
  rw [slice, if_pos ⟨by omega, by omega, by omega⟩, Int.toNat_natCast, Int.toNat_natCast]

/-- Every request gets the threads from one place to another, and the cursor of the place. -/
theorem respond_eq {threads : List T} (h : InMemory threads) (params : RawMessage) :
    ∃ start stop : ℕ, (start : ℤ) = min (combinedThreadPage params).2 threads.length ∧
      (stop : ℤ) = min (start + (combinedThreadPage params).1) threads.length ∧
      respond threads params =
        some ((threads.take stop).drop start, cursorAt threads stop) := by
  obtain ⟨hlow, hhigh, hoffset⟩ := combinedThreadPage_bounds params
  unfold respond
  generalize combinedThreadPage params = r at *
  obtain ⟨limit, offset⟩ := r
  dsimp only at *
  rw [maximumCombinedThreadLimit] at hhigh
  have hmemory : 8 * threads.length < 2 ^ 63 := h
  have hstart : (if (threads.length : ℤ) < offset then (threads.length : ℤ) else offset) =
      min offset threads.length := by
    split <;> omega
  obtain ⟨start, hmin⟩ : ∃ start : ℕ, (start : ℤ) = min offset threads.length :=
    ⟨(min offset threads.length).toNat, by omega⟩
  obtain ⟨stop, hstop⟩ : ∃ stop : ℕ, (stop : ℤ) = min (start + limit) threads.length :=
    ⟨(min (start + limit) threads.length).toNat, by omega⟩
  refine ⟨start, stop, hmin, hstop, ?_⟩
  rw [hstart, ← hmin, addInt_eq (by omega) (by omega), ← hstop,
    slice_eq threads (by omega) (by omega), Option.map_some, cursorAt]
  simp only [Nat.cast_lt]

/-! ## The cursor that was given -/

theorem atoi_itoa {n : ℕ} (h : n < 2 ^ 63) : atoi (itoa n) = some (n : ℤ) := by
  have hplus : ∀ t, itoaNat n ≠ 0x2B :: t := fun t ht => by
    have hdigit := isDigit_digits (n + 1) n 0x2B (by
      rw [← itoaNat, ht]
      exact List.mem_cons_self)
    cases hdigit
  change atoi (itoaNat n) = _
  unfold atoi
  split
  · rename_i t ht
    exact absurd ht (hplus t)
  · exact parseInt64_itoaNat h

theorem offsetParam_cursor {n : ℕ} (h : n < 2 ^ 63) :
    offsetParam (some (.string (combinedCursorPrefix ++ itoa n))) = n := by
  have hprefix : combinedCursorPrefix.isPrefixOf (combinedCursorPrefix ++ itoa n) = true :=
    List.isPrefixOf_iff_prefix.mpr (List.prefix_append _ _)
  rw [offsetParam, if_pos hprefix, List.drop_left, atoi_itoa h]
  dsimp only
  split <;> omega

theorem offset_of_decodes {params : RawMessage} (h : Decodes params) :
    (combinedThreadPage params).2 = offsetParam ((cursorOf params).map Value.string) := by
  have hcursor : ∀ v : Option Value, offsetParam (v.map (mapNumbers nearestFloat64)) =
      offsetParam ((match v with
        | some (.string cursor) => some cursor
        | _ => none).map Value.string) := by
    rintro (_ | v)
    · rfl
    · cases v <;> rfl
  unfold Decodes at h
  unfold combinedThreadPage cursorOf
  cases hparse : parse params with
  | none =>
    rw [hparse] at h
    cases h
  | some v =>
    rw [hparse] at h
    cases v with
    | null => rfl
    | object ms =>
      rw [unmarshalMap] at h ⊢
      split at h
      · rename_i hfits
        rw [if_pos hfits, Option.map_some, membersOf_valueOf]
        change offsetParam (((settle (memberValues ms)).map fun _ v =>
          mapNumbers nearestFloat64 v)[lit "cursor"]?) = _
        rw [Std.ExtTreeMap.getElem?_map]
        exact hcursor _
      · cases h
    | _ => cases h

theorem offset_of_not_decodes {params : RawMessage} (h : ¬ Decodes params) :
    (combinedThreadPage params).2 = 0 := by
  unfold Decodes at h
  unfold combinedThreadPage
  cases hdecoded : unmarshalMap (parse params) with
  | none => rfl
  | some decoded =>
    rw [hdecoded] at h
    exact absurd rfl h

/-! ## Runs -/

/-- What a run whose cursors are read has given: the threads up to the place of the cursor,
at least one with each page. -/
structure Progress (threads : List T) (requests : List RawMessage) (pages : List (List T))
    (next : Option GoString) (n : ℕ) : Prop where
  given : pages.flatten = threads.take n
  cursor : next = cursorAt threads n
  bounded : n ≤ threads.length
  advanced : requests.length ≤ n ∨ requests.length = 1 ∧ next = none

theorem cursorAt_eq_some {threads : List T} {n : ℕ} {cursor : GoString}
    (h : cursorAt threads n = some cursor) :
    n < threads.length ∧ cursor = combinedCursorPrefix ++ itoa n := by
  rw [cursorAt] at h
  split at h
  · rename_i hlt
    exact ⟨hlt, (Option.some.inj h).symm⟩
  · cases h

theorem offset_of_cursor {threads : List T} (h : InMemory threads) {params : RawMessage} {n : ℕ}
    (hn : n < threads.length) (hcursor : cursorOf params = cursorAt threads n)
    (hdecodes : Decodes params) : (combinedThreadPage params).2 = n := by
  have hmemory : 8 * threads.length < 2 ^ 63 := h
  rw [offset_of_decodes hdecodes, hcursor, cursorAt, if_pos hn, Option.map_some,
    offsetParam_cursor (by omega)]

theorem offset_of_start {params : RawMessage} (h : cursorOf params = none) :
    (combinedThreadPage params).2 = 0 := by
  by_cases hdecodes : Decodes params
  · rw [offset_of_decodes hdecodes, h]
    rfl
  · exact offset_of_not_decodes hdecodes

theorem Follows.ne_nil {threads : List T} {requests : List RawMessage} {pages : List (List T)}
    {next : Option GoString} (h : Follows threads requests pages next) : requests ≠ [] := by
  cases h <;> simp

theorem Follows.progress {threads : List T} (hmemory : InMemory threads)
    {requests : List RawMessage} {pages : List (List T)} {next : Option GoString}
    (h : Follows threads requests pages next) (hdecodes : ∀ params ∈ requests.tail, Decodes params) :
    ∃ n, Progress threads requests pages next n := by
  induction h with
  | @start params page next hcursor hpage =>
    obtain ⟨start, stop, hstart, hstop, hrespond⟩ := respond_eq hmemory params
    have hlow := (combinedThreadPage_bounds params).1
    rw [offset_of_start hcursor] at hstart
    obtain rfl : start = 0 := by omega
    obtain ⟨rfl, rfl⟩ := Prod.mk.inj (Option.some.inj (hrespond.symm.trans hpage))
    refine ⟨stop, by simp, rfl, by omega, ?_⟩
    rcases Nat.eq_zero_or_pos threads.length with hempty | hpos
    · right
      rw [cursorAt, if_neg (by omega)]
      exact ⟨rfl, rfl⟩
    · left
      rw [List.length_singleton]
      omega
  | @more requests pages cursor params page next hrun hcursor hpage ih =>
    have htail : (requests ++ [params]).tail = requests.tail ++ [params] :=
      List.tail_append_of_ne_nil hrun.ne_nil
    rw [htail] at hdecodes
    obtain ⟨n, hgiven, hat, -, hadvanced⟩ := ih fun p hp => hdecodes p (List.mem_append_left _ hp)
    obtain ⟨hn, -⟩ := cursorAt_eq_some hat.symm
    have hlength : requests.length ≤ n := hadvanced.resolve_right fun hend => by cases hend.2
    obtain ⟨start, stop, hstart, hstop, hrespond⟩ := respond_eq hmemory params
    have hlow := (combinedThreadPage_bounds params).1
    rw [offset_of_cursor hmemory hn (hcursor.trans hat) (hdecodes params (by simp))] at hstart
    obtain rfl : start = n := by omega
    obtain ⟨rfl, rfl⟩ := Prod.mk.inj (Option.some.inj (hrespond.symm.trans hpage))
    refine ⟨stop, ?_, rfl, by omega, .inl ?_⟩
    · have hsplit : threads.take start = (threads.take stop).take start := by
        rw [List.take_take, min_eq_left (by omega)]
      rw [List.flatten_append, hgiven, List.flatten_singleton, hsplit, List.take_append_drop]
    · rw [List.length_append, List.length_singleton]
      omega

/-- Every request gets a slice of the list. A run whose requests after the first decode ends
after at most one page for each thread, and its pages are then the list. A cursor is read
exactly from params that decode. -/
theorem pages_partition {threads : List T} (hmemory : InMemory threads) :
    (∀ params, ∃ start stop : ℕ, start ≤ stop ∧ stop ≤ threads.length ∧
      respond threads params = some ((threads.take stop).drop start, cursorAt threads stop)) ∧
    (∀ requests pages next, Follows threads requests pages next →
      (∀ params ∈ requests.tail, Decodes params) →
      pages.flatten <+: threads ∧ requests.length ≤ max 1 threads.length ∧
        (next = none → pages.flatten = threads)) ∧
    ∀ params n, 0 < n → n < threads.length → cursorOf params = cursorAt threads n →
      ((combinedThreadPage params).2 = n ↔ Decodes params) := by
  refine ⟨fun params => ?_, fun requests pages next h hdecodes => ?_, fun params n hpos hn hcursor => ?_⟩
  · obtain ⟨start, stop, hstart, hstop, hrespond⟩ := respond_eq hmemory params
    have hlow := (combinedThreadPage_bounds params).1
    exact ⟨start, stop, by omega, by omega, hrespond⟩
  · obtain ⟨n, hgiven, hat, hbounded, hadvanced⟩ := h.progress hmemory hdecodes
    refine ⟨hgiven ▸ List.take_prefix n threads, by omega, fun hend => ?_⟩
    have hn : ¬ n < threads.length := fun hlt => by
      rw [hend, cursorAt, if_pos hlt] at hat
      cases hat
    rw [hgiven, List.take_of_length_le (not_lt.mp hn)]
  · constructor
    · intro hoffset
      by_contra hdecodes
      rw [offset_of_not_decodes hdecodes] at hoffset
      omega
    · exact offset_of_cursor hmemory hn hcursor

def firstRequest : RawMessage := lit "\x7b\"limit\":15.5\x7d"

def secondRequest : RawMessage := lit "\x7b\"limit\":-1,\"cursor\":\"codex-mux-offset:15\"\x7d"

theorem pages_of_twentyOne :
    ∃ pages, Follows (List.range 21) [firstRequest, secondRequest] pages none ∧
      pages.flatten = List.range 21 := by
  have hfirst : Follows (List.range 21) [firstRequest] [List.range 15]
      (some (lit "codex-mux-offset:15")) :=
    .start (by decide +kernel) (by decide +kernel)
  have hfollows : Follows (List.range 21) ([firstRequest] ++ [secondRequest])
      ([List.range 15] ++ [[15, 16, 17, 18, 19, 20]]) none :=
    .more hfirst (by decide +kernel) (by decide +kernel)
  have hmemory : 8 * (List.range 21).length < 2 ^ 63 := by decide
  refine ⟨_, hfollows, ((pages_partition hmemory).2.1 _ _ _ hfollows ?_).2.2 rfl⟩
  intro params hparams
  rw [List.mem_singleton.mp hparams]
  change (unmarshalMap (parse secondRequest)).isSome = true
  decide

/-- The limit is meant to be cut to 500; with it the cursor is not read. -/
def hugeRequest : RawMessage := lit "\x7b\"limit\":1e999,\"cursor\":\"codex-mux-offset:20\"\x7d"

/-- A client that always sends this limit gets the first page again and again. -/
theorem huge_limit_never_ends : ¬ ∃ bound, ∀ requests pages cursor,
    Follows (List.range 21) requests pages cursor → (pages.flatten : List ℕ).length ≤ bound := by
  have hpage : respond (List.range 21) hugeRequest =
      some (List.range 20, some (lit "codex-mux-offset:20")) := by
    decide
  have hstart : Follows (List.range 21) [lit "\x7b\"limit\":1e999\x7d"] [List.range 20]
      (some (lit "codex-mux-offset:20")) :=
    .start (by decide) (by decide)
  have hagain : ∀ n, ∃ requests pages, (pages.flatten : List ℕ).length = 20 * (n + 1) ∧
      Follows (List.range 21) requests pages (some (lit "codex-mux-offset:20")) := by
    intro n
    induction n with
    | zero => exact ⟨_, _, by simp, hstart⟩
    | succ n ih =>
      obtain ⟨requests, pages, hpages, hfollows⟩ := ih
      refine ⟨requests ++ [hugeRequest], pages ++ [List.range 20], ?_,
        .more hfollows (by decide) hpage⟩
      rw [List.flatten_append, List.length_append, hpages, List.flatten_singleton, List.length_range]
      omega
  rintro ⟨bound, hbound⟩
  obtain ⟨requests, pages, hpages, hfollows⟩ := hagain bound
  have hle := hbound requests pages _ hfollows
  omega

end SubscriptionRouter.CombinedPages
