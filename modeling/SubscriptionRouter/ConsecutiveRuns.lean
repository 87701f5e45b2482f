import Mathlib

set_option autoImplicit false

/-!
# Runs of consecutive integers

A run of a set is given by its last member and its length. A greatest member ends the longest
run, or leaves it as it was; and counting down from a number finds the maximal run that ends
there, once the fuel is as large as the set.
-/
namespace SubscriptionRouter.ConsecutiveRuns

variable {S T : Set ℤ} {d e : ℤ} {m n : ℕ}

def EndsRun (S : Set ℤ) (e : ℤ) (n : ℕ) : Prop := ∀ i < n, e - (i : ℤ) ∈ S

def MaximalRun (S : Set ℤ) (e : ℤ) (n : ℕ) : Prop := EndsRun S e n ∧ e - (n : ℤ) ∉ S

def LongestRun (S : Set ℤ) (n : ℕ) : Prop := IsGreatest {k | ∃ e, EndsRun S e k} n

theorem EndsRun.mono (h : EndsRun S e n) (hST : S ⊆ T) : EndsRun T e n :=
  fun i hi => hST (h i hi)

theorem MaximalRun.le (h : MaximalRun S e n) (hm : EndsRun S e m) : m ≤ n := by
  by_contra hlt
  exact h.2 (hm n (by omega))

theorem MaximalRun.unique (h : MaximalRun S e n) (hm : MaximalRun S e m) : n = m :=
  le_antisymm (hm.le h.1) (h.le hm.1)

theorem MaximalRun.le_longest (h : MaximalRun S e n) (hm : LongestRun S m) : n ≤ m :=
  hm.2 ⟨e, h.1⟩

theorem maximalRun_zero (h : e ∉ S) : MaximalRun S e 0 :=
  ⟨fun i hi => absurd hi (Nat.not_lt_zero i), by simpa using h⟩

theorem longestRun_empty : LongestRun ∅ 0 := by
  refine ⟨⟨0, fun i hi => absurd hi (Nat.not_lt_zero i)⟩, ?_⟩
  rintro n ⟨e, hn⟩
  by_contra hpos
  exact hn 0 (by omega)

theorem EndsRun.of_insert (h : EndsRun (insert d S) e n) (hne : ∀ i < n, e - (i : ℤ) ≠ d) :
    EndsRun S e n :=
  fun i hi => (Set.mem_insert_iff.mp (h i hi)).resolve_left (hne i hi)

theorem MaximalRun.insert (h : MaximalRun S (d - 1) n) :
    MaximalRun (insert d S) d (n + 1) := by
  refine ⟨fun i hi => ?_, ?_⟩
  · cases i with
    | zero => exact Set.mem_insert_iff.mpr (.inl (by omega))
    | succ i =>
      have hmem := h.1 i (by omega)
      have hshift : d - ((i + 1 : ℕ) : ℤ) = d - 1 - (i : ℤ) := by omega
      rw [hshift]
      exact Set.mem_insert_of_mem d hmem
  · have hshift : d - ((n + 1 : ℕ) : ℤ) = d - 1 - (n : ℤ) := by omega
    rw [hshift]
    intro hmem
    rcases Set.mem_insert_iff.mp hmem with heq | hmem
    · omega
    · exact h.2 hmem

theorem LongestRun.insert (h : LongestRun S m) (hlt : ∀ x ∈ S, x < d)
    (hrun : MaximalRun (insert d S) d n) : LongestRun (insert d S) (max m n) := by
  constructor
  · rcases le_total m n with hle | hle
    · rw [max_eq_right hle]
      exact ⟨d, hrun.1⟩
    · rw [max_eq_left hle]
      obtain ⟨e, he⟩ := h.1
      exact ⟨e, he.mono (Set.subset_insert d S)⟩
  · rintro k ⟨e, hk⟩
    by_cases hd : ∃ i < k, e - (i : ℤ) = d
    · obtain ⟨i, hi, heq⟩ := hd
      have he : e = d := by
        rcases Set.mem_insert_iff.mp (hk 0 (by omega)) with h0 | h0
        · simpa using h0
        · have := hlt _ h0
          omega
      rw [he] at hk
      exact le_max_of_le_right (hrun.le hk)
    · have hne : ∀ i < k, e - (i : ℤ) ≠ d := fun i hi heq => hd ⟨i, hi, heq⟩
      exact le_max_of_le_left (h.2 ⟨e, hk.of_insert hne⟩)

/-- The numbers from `e` downwards that pass the test, before the first that fails it. -/
def countBack (p : ℤ → Bool) : ℕ → ℤ → ℕ
  | 0, _ => 0
  | fuel + 1, e => if p e then countBack p fuel (e - 1) + 1 else 0

theorem countBack_endsRun (p : ℤ → Bool) (fuel : ℕ) (e : ℤ) :
    EndsRun {d | p d = true} e (countBack p fuel e) ∧
      (countBack p fuel e = fuel ∨ p (e - (countBack p fuel e : ℤ)) = false) := by
  induction fuel generalizing e with
  | zero => exact ⟨fun i hi => absurd hi (Nat.not_lt_zero i), .inl rfl⟩
  | succ fuel ih =>
    obtain ⟨hrun, hend⟩ := ih (e - 1)
    rw [countBack]
    split
    · rename_i hp
      refine ⟨fun i hi => ?_, ?_⟩
      · cases i with
        | zero => simpa using hp
        | succ i =>
          have hmem := hrun i (by omega)
          have hshift : e - ((i + 1 : ℕ) : ℤ) = e - 1 - (i : ℤ) := by omega
          rw [hshift]
          exact hmem
      · have hshift : e - ((countBack p fuel (e - 1) + 1 : ℕ) : ℤ) =
            e - 1 - (countBack p fuel (e - 1) : ℤ) := by omega
        rw [hshift]
        exact hend.imp (congrArg (· + 1)) id
    · rename_i hp
      exact ⟨fun i hi => absurd hi (Nat.not_lt_zero i), .inr (by simpa using hp)⟩

theorem EndsRun.le_card {s : Finset ℤ} (h : EndsRun ↑s e n) : n ≤ s.card := by
  have himage : (Finset.range n).image (fun i : ℕ => e - (i : ℤ)) ⊆ s := by
    intro x hx
    obtain ⟨i, hi, rfl⟩ := Finset.mem_image.mp hx
    exact h i (Finset.mem_range.mp hi)
  have hcard : ((Finset.range n).image fun i : ℕ => e - (i : ℤ)).card = n := by
    rw [Finset.card_image_of_injective, Finset.card_range]
    intro i j hij
    have hij : e - (i : ℤ) = e - (j : ℤ) := hij
    omega
  exact hcard.symm.le.trans (Finset.card_le_card himage)

theorem countBack_maximal {p : ℤ → Bool} {s : Finset ℤ} (hs : ∀ d, p d = true → d ∈ s) {fuel : ℕ}
    (hfuel : s.card ≤ fuel) (e : ℤ) : MaximalRun {d | p d = true} e (countBack p fuel e) := by
  obtain ⟨hrun, hend⟩ := countBack_endsRun p fuel e
  refine ⟨hrun, fun hmem => ?_⟩
  rcases hend with hend | hend
  · -- One more member would be more than the set has.
    have hlonger : EndsRun ↑s e (fuel + 1) := by
      intro i hi
      rcases Nat.lt_succ_iff_lt_or_eq.mp hi with hlt | rfl
      · exact hs _ (hrun i (by omega))
      · rw [hend] at hmem
        exact hs _ hmem
    have := hlonger.le_card
    omega
  · exact Bool.false_ne_true (hend.symm.trans hmem)

end SubscriptionRouter.ConsecutiveRuns
