import Mathlib

set_option autoImplicit false

/-!
# Rankings by a comparison

A sort is given a Boolean comparison, which need not be an order. `StrictWeak` says that
it is one on the members of a list; where it separates them too (`StrictTotal`), the
sorted list depends on nothing but the members. `rank` compares by several keys in turn,
each with a tolerance, and `straddled` is the one way in which it fails to be an order.
`Balanced` is what counting for the highest average again and again keeps.
-/
namespace SubscriptionRouter.Rankings

variable {α : Type}

structure StrictWeak (lt : α → α → Bool) (l : List α) : Prop where
  irrefl : ∀ x ∈ l, lt x x = false
  trans : ∀ x ∈ l, ∀ y ∈ l, ∀ z ∈ l, lt x y = true → lt y z = true → lt x z = true
  tie : ∀ x ∈ l, ∀ y ∈ l, ∀ z ∈ l, lt x y = false → lt y x = false →
    lt y z = false → lt z y = false → lt x z = false ∧ lt z x = false

structure StrictTotal (lt : α → α → Bool) (l : List α) : Prop where
  irrefl : ∀ x ∈ l, lt x x = false
  trans : ∀ x ∈ l, ∀ y ∈ l, ∀ z ∈ l, lt x y = true → lt y z = true → lt x z = true
  separates : ∀ x ∈ l, ∀ y ∈ l, lt x y = false → lt y x = false → x = y

/-- `sort.SliceStable`: from the right, an element passes those it is less than. -/
def sliceStable (lt : α → α → Bool) (l : List α) : List α :=
  (l.reverse.insertionSort fun a b => lt a b = false).reverse

section Order
variable {lt : α → α → Bool} {l s t : List α}

theorem StrictTotal.weak (h : StrictTotal lt l) : StrictWeak lt l where
  irrefl := h.irrefl
  trans := h.trans
  tie := by
    intro x hx y hy z hz hxy hyx hyz hzy
    rw [← h.separates x hx y hy hxy hyx] at hyz hzy
    exact ⟨hyz, hzy⟩

theorem StrictTotal.of_perm (h : StrictTotal lt l) (hp : l.Perm s) : StrictTotal lt s where
  irrefl x hx := h.irrefl x (hp.mem_iff.mpr hx)
  trans x hx y hy z hz := h.trans x (hp.mem_iff.mpr hx) y (hp.mem_iff.mpr hy) z (hp.mem_iff.mpr hz)
  separates x hx y hy := h.separates x (hp.mem_iff.mpr hx) y (hp.mem_iff.mpr hy)

theorem StrictWeak.asymm (h : StrictWeak lt l) {x y : α} (hx : x ∈ l) (hy : y ∈ l)
    (hxy : lt x y = true) : lt y x = false := by
  by_contra hyx
  rw [Bool.not_eq_false] at hyx
  have hxx := h.trans x hx y hy x hx hxy hyx
  rw [h.irrefl x hx] at hxx
  exact Bool.false_ne_true hxx

theorem StrictWeak.unbeaten_trans (h : StrictWeak lt l) {x y z : α} (hx : x ∈ l) (hy : y ∈ l)
    (hz : z ∈ l) (hyx : lt y x = false) (hzy : lt z y = false) : lt z x = false := by
  by_contra hzx
  rw [Bool.not_eq_false] at hzx
  cases hxy : lt x y with
  | true => exact Bool.false_ne_true (hzy.symm.trans (h.trans z hz x hx y hy hzx hxy))
  | false => cases hyz : lt y z with
    | true => exact Bool.false_ne_true (hyx.symm.trans (h.trans y hy z hz x hx hyz hzx))
    | false =>
      have hties := h.tie x hx y hy z hz hxy hyx hyz hzy
      exact Bool.false_ne_true (hties.2.symm.trans hzx)

theorem pairwise_orderedInsert {r : α → α → Prop} [DecidableRel r] {a : α}
    (htotal : ∀ b ∈ l, r a b ∨ r b a)
    (htrans : ∀ b ∈ l, ∀ c ∈ l, r a b → r b c → r a c) (h : l.Pairwise r) :
    (l.orderedInsert r a).Pairwise r := by
  induction l with
  | nil => simp
  | cons b l ih =>
    obtain ⟨hb, hl⟩ := List.pairwise_cons.mp h
    rw [List.orderedInsert]
    split
    · rename_i hab
      refine List.pairwise_cons.mpr ⟨fun c hc => ?_, h⟩
      rcases List.mem_cons.mp hc with rfl | hc
      · exact hab
      · exact htrans b List.mem_cons_self c (List.mem_cons_of_mem b hc) hab (hb c hc)
    · rename_i hab
      have hba : r b a := (htotal b List.mem_cons_self).resolve_left hab
      have hrest := ih (fun c hc => htotal c (List.mem_cons_of_mem b hc))
        (fun c hc d hd => htrans c (List.mem_cons_of_mem b hc) d (List.mem_cons_of_mem b hd)) hl
      refine List.pairwise_cons.mpr ⟨fun c hc => ?_, hrest⟩
      rcases List.mem_cons.mp ((List.perm_orderedInsert r a l).mem_iff.mp hc) with rfl | hc
      · exact hba
      · exact hb c hc

theorem pairwise_insertionSort {r : α → α → Prop} [DecidableRel r]
    (htotal : ∀ a ∈ l, ∀ b ∈ l, r a b ∨ r b a)
    (htrans : ∀ a ∈ l, ∀ b ∈ l, ∀ c ∈ l, r a b → r b c → r a c) :
    (l.insertionSort r).Pairwise r := by
  induction l with
  | nil => simp
  | cons a l ih =>
    have hmem : ∀ b, b ∈ l.insertionSort r → b ∈ a :: l := fun b hb =>
      List.mem_cons_of_mem a ((List.mem_insertionSort r).mp hb)
    refine pairwise_orderedInsert (fun b hb => htotal a List.mem_cons_self b (hmem b hb))
      (fun b hb c hc => htrans a List.mem_cons_self b (hmem b hb) c (hmem c hc)) (ih ?_ ?_)
    · intro b hb c hc
      exact htotal b (List.mem_cons_of_mem a hb) c (List.mem_cons_of_mem a hc)
    · intro b hb c hc d hd
      exact htrans b (List.mem_cons_of_mem a hb) c (List.mem_cons_of_mem a hc)
        d (List.mem_cons_of_mem a hd)

theorem StrictWeak.pairwise_insertionSort (h : StrictWeak lt l) :
    (l.insertionSort fun a b => lt b a = false).Pairwise fun a b => lt b a = false := by
  refine Rankings.pairwise_insertionSort (fun a ha b hb => ?_) fun a ha b hb c hc => ?_
  · cases hba : lt b a with
    | false => exact .inl rfl
    | true => exact .inr (h.asymm hb ha hba)
  · exact h.unbeaten_trans ha hb hc

theorem StrictWeak.pairwise_sliceStable (h : StrictWeak lt l) :
    (sliceStable lt l).Pairwise fun a b => lt b a = false := by
  refine List.pairwise_reverse.mpr (Rankings.pairwise_insertionSort ?_ ?_)
  · intro a ha b hb
    rw [List.mem_reverse] at ha hb
    cases hab : lt a b with
    | false => exact .inl rfl
    | true => exact .inr (h.asymm ha hb hab)
  · intro a ha b hb c hc hab hbc
    rw [List.mem_reverse] at ha hb hc
    exact h.unbeaten_trans hc hb ha hbc hab

theorem perm_sliceStable (lt : α → α → Bool) (l : List α) : (sliceStable lt l).Perm l :=
  (List.reverse_perm _).trans ((List.perm_insertionSort _ _).trans (List.reverse_perm l))

theorem head_unbeaten (hirrefl : ∀ x ∈ s, lt x x = false)
    (hs : s.Pairwise fun a b => lt b a = false) {x : α} (hx : s.head? = some x) :
    ∀ y ∈ s, lt y x = false := by
  obtain ⟨rest, rfl⟩ := List.head?_eq_some_iff.mp hx
  intro y hy
  rcases List.mem_cons.mp hy with rfl | hy
  · exact hirrefl y List.mem_cons_self
  · exact (List.pairwise_cons.mp hs).1 y hy

theorem StrictTotal.sorted_unique (h : StrictTotal lt l) (hs : s.Perm l) (ht : t.Perm l)
    (hsorted : s.Pairwise fun a b => lt b a = false)
    (htsorted : t.Pairwise fun a b => lt b a = false) : s = t := by
  refine List.Perm.eq_of_pairwise ?_ hsorted htsorted (hs.trans ht.symm)
  intro a b ha hb hba hab
  exact h.separates a (hs.mem_iff.mp ha) b (ht.mem_iff.mp hb) hab hba

theorem StrictTotal.sliceStable_eq (h : StrictTotal lt l) (hp : l.Perm s) :
    sliceStable lt l = sliceStable lt s :=
  h.sorted_unique (perm_sliceStable lt l) ((perm_sliceStable lt s).trans hp.symm)
    h.weak.pairwise_sliceStable (h.of_perm hp).weak.pairwise_sliceStable

theorem sliceStable_append (h : sliceStable lt s = sliceStable lt t) (u : List α) :
    sliceStable lt (s ++ u) = sliceStable lt (t ++ u) := by
  have hsorted : List.foldr (List.orderedInsert fun a b => lt a b = false) [] s.reverse =
      List.foldr (List.orderedInsert fun a b => lt a b = false) [] t.reverse :=
    List.reverse_injective h
  unfold sliceStable List.insertionSort
  rw [List.reverse_append, List.reverse_append, List.foldr_append, List.foldr_append, hsorted]

end Order

/-- A quantity to compare by, the larger first, where it differs by more than the tolerance. -/
structure Key (α : Type) where
  value : α → ℚ
  tolerance : ℚ
  nonneg : 0 ≤ tolerance

def Key.apart (k : Key α) (x y : α) : Bool := k.tolerance < |k.value x - k.value y|

def rank (last : α → α → Bool) : List (Key α) → α → α → Bool
  | [], x, y => last x y
  | k :: ks, x, y => if k.apart x y then k.value y < k.value x else rank last ks x y

/-- At the first key that tells any two of the three apart, `y` is within the tolerance of
both `x` and `z`, and `x` is ahead of `z`; the later keys put `z` before `y` before `x`. -/
def straddled (last : α → α → Bool) : List (Key α) → α → α → α → Bool
  | [], _, _, _ => false
  | k :: ks, x, y, z => !k.apart x y && !k.apart y z &&
      if k.apart x z then k.value z < k.value x && rank last ks z y && rank last ks y x
      else straddled last ks x y z

section Keys
variable {last : α → α → Bool} {ks : List (Key α)} {l : List α} {x y z : α}

theorem Key.apart_comm (k : Key α) (x y : α) : k.apart x y = k.apart y x := by
  rw [Key.apart, Key.apart, abs_sub_comm]

theorem Key.not_apart_self (k : Key α) (x : α) : k.apart x x = false := by
  have h := k.nonneg
  simp [Key.apart, h]

theorem rank_of_apart {k : Key α} (h : k.apart x y = true) :
    rank last (k :: ks) x y = decide (k.value y < k.value x) := by
  rw [rank, if_pos h]

theorem rank_of_not_apart {k : Key α} (h : k.apart x y = false) :
    rank last (k :: ks) x y = rank last ks x y := by
  rw [rank, if_neg (by rw [h]; exact Bool.false_ne_true)]

theorem rank_irrefl (h : last x x = false) : rank last ks x x = false := by
  induction ks with
  | nil => exact h
  | cons k ks ih => rw [rank_of_not_apart (k.not_apart_self x), ih]

theorem rank_asymm (h : last x y = true → last y x = false) (hxy : rank last ks x y = true) :
    rank last ks y x = false := by
  induction ks with
  | nil => exact h hxy
  | cons k ks ih =>
    cases hk : k.apart x y with
    | true =>
      rw [rank_of_apart hk, decide_eq_true_eq] at hxy
      rw [rank_of_apart (k.apart_comm x y ▸ hk), decide_eq_false_iff_not]
      exact hxy.le.not_gt
    | false =>
      rw [rank_of_not_apart hk] at hxy
      rw [rank_of_not_apart (k.apart_comm x y ▸ hk)]
      exact ih hxy

theorem rank_separates (h : last x y = false → last y x = false → x = y)
    (hxy : rank last ks x y = false) (hyx : rank last ks y x = false) : x = y := by
  induction ks with
  | nil => exact h hxy hyx
  | cons k ks ih =>
    cases hk : k.apart x y with
    | true =>
      have hsym : k.apart y x = true := k.apart_comm x y ▸ hk
      rw [rank_of_apart hk, decide_eq_false_iff_not] at hxy
      rw [rank_of_apart hsym, decide_eq_false_iff_not] at hyx
      have heq : k.value x = k.value y := le_antisymm (not_lt.mp hxy) (not_lt.mp hyx)
      have hnonneg := k.nonneg
      simp only [Key.apart, heq, sub_self, abs_zero, decide_eq_true_eq] at hk
      linarith
    | false =>
      rw [rank_of_not_apart hk] at hxy
      rw [rank_of_not_apart (k.apart_comm x y ▸ hk)] at hyx
      exact ih hxy hyx

theorem cycle_of_straddled (h : straddled last ks x y z = true) :
    rank last ks x z = true ∧ rank last ks z y = true ∧ rank last ks y x = true := by
  induction ks with
  | nil => cases h
  | cons k ks ih =>
    simp only [straddled, Bool.and_eq_true, Bool.not_eq_true'] at h
    obtain ⟨⟨hxy, hyz⟩, h⟩ := h
    rw [k.apart_comm] at hxy hyz
    rw [rank_of_not_apart hyz, rank_of_not_apart hxy]
    split at h
    · rename_i hxz
      rw [rank_of_apart hxz]
      simpa only [Bool.and_eq_true, and_assoc] using h
    · rename_i hxz
      rw [rank_of_not_apart (Bool.eq_false_of_not_eq_true hxz)]
      exact ih h

theorem straddled_of_cycle (hlast : last x y = true → last y z = true → last z x = false)
    (hxy : rank last ks x y = true) (hyz : rank last ks y z = true)
    (hzx : rank last ks z x = true) :
    straddled last ks x z y = true ∨ straddled last ks y x z = true ∨
      straddled last ks z y x = true := by
  induction ks with
  | nil => exact absurd hzx (by rw [rank, hlast hxy hyz]; exact Bool.false_ne_true)
  | cons k ks ih =>
    have hcxy := k.apart_comm x y
    have hcyz := k.apart_comm y z
    have hczx := k.apart_comm z x
    cases h₁ : k.apart x y <;> cases h₂ : k.apart y z <;> cases h₃ : k.apart z x
    case false.false.false =>
      rw [rank_of_not_apart h₁] at hxy
      rw [rank_of_not_apart h₂] at hyz
      rw [rank_of_not_apart h₃] at hzx
      simpa [straddled, h₁, h₂, h₃, ← hcxy, ← hcyz, ← hczx] using ih hxy hyz hzx
    case true.false.false =>
      rw [rank_of_apart h₁] at hxy
      rw [rank_of_not_apart h₂] at hyz
      rw [rank_of_not_apart h₃] at hzx
      exact .inl (by simp_all [straddled])
    case false.true.false =>
      rw [rank_of_not_apart h₁] at hxy
      rw [rank_of_apart h₂] at hyz
      rw [rank_of_not_apart h₃] at hzx
      exact .inr (.inl (by simp_all [straddled]))
    case false.false.true =>
      rw [rank_of_not_apart h₁] at hxy
      rw [rank_of_not_apart h₂] at hyz
      rw [rank_of_apart h₃] at hzx
      exact .inr (.inr (by simp_all [straddled]))
    -- Two keys apart in the direction of the cycle leave the third pair apart the other way.
    all_goals
      exfalso
      simp only [rank, h₁, h₂, h₃, if_true, decide_eq_true_eq] at hxy hyz hzx
      simp only [Key.apart, decide_eq_true_eq, decide_eq_false_iff_not, lt_abs] at h₁ h₂ h₃
      grind

theorem strictTotal_rank (hlast : StrictTotal last l)
    (h : ∀ x ∈ l, ∀ y ∈ l, ∀ z ∈ l, straddled last ks x y z = false) :
    StrictTotal (rank last ks) l where
  irrefl x hx := rank_irrefl (hlast.irrefl x hx)
  separates x hx y hy := rank_separates (hlast.separates x hx y hy)
  trans := by
    intro x hx y hy z hz hxy hyz
    by_contra hxz
    rw [Bool.not_eq_true] at hxz
    cases hzx : rank last ks z x with
    | false =>
      have heq := rank_separates (hlast.separates x hx z hz) hxz hzx
      rw [heq, rank_asymm (fun hyz => hlast.weak.asymm hy hz hyz) hyz] at hxy
      exact Bool.false_ne_true hxy
    | true =>
      have hcycle := straddled_of_cycle
        (fun hxy hyz => hlast.weak.asymm hx hz (hlast.trans x hx y hy z hz hxy hyz)) hxy hyz hzx
      simp [h x hx z hz y hy, h y hy x hx z hz, h z hz y hy x hx] at hcycle

theorem strictWeak_rank_iff (hlast : StrictTotal last l) :
    StrictWeak (rank last ks) l ↔
      ∀ x ∈ l, ∀ y ∈ l, ∀ z ∈ l, straddled last ks x y z = false := by
  refine ⟨fun h x hx y hy z hz => ?_, fun h => (strictTotal_rank hlast h).weak⟩
  by_contra hs
  rw [Bool.not_eq_false] at hs
  obtain ⟨hxz, hzy, hyx⟩ := cycle_of_straddled hs
  have hxy := h.trans x hx z hz y hy hxz hzy
  rw [h.asymm hx hy hxy] at hyx
  exact Bool.false_ne_true hyx

theorem not_straddled_of_exact (h : ∀ k ∈ ks, k.tolerance = 0) :
    straddled last ks x y z = false := by
  induction ks with
  | nil => rfl
  | cons k ks ih =>
    have hk := h k List.mem_cons_self
    have hrest := ih fun k' hk' => h k' (List.mem_cons_of_mem k hk')
    simp only [straddled, Key.apart, hk, abs_pos, sub_ne_zero]
    grind

end Keys

/-! ## Highest averages -/

/-- With the counts `n`, nobody's next average is above the average of a member that has a count. -/
def Balanced (u : α → ℚ) (n : α → ℤ) (l : List α) : Prop :=
  ∀ a ∈ l, 1 ≤ n a → ∀ b ∈ l, u b / (n b + 1) ≤ u a / n a

/-- Counting once more for a member with the highest next average keeps the balance. -/
theorem Balanced.step {u : α → ℚ} {n n' : α → ℤ} {l : List α} {c : α} (h : Balanced u n l)
    (hu : ∀ x ∈ l, 0 ≤ u x) (hn : ∀ x ∈ l, 0 ≤ n x) (hmem : c ∈ l)
    (hmax : ∀ x ∈ l, u x / (n x + 1) ≤ u c / (n c + 1)) (hc : n' c = n c + 1)
    (hother : ∀ x ∈ l, x ≠ c → n' x = n x) : Balanced u n' l := by
  have hnext : u c / (n' c + 1) ≤ u c / (n c + 1) := by
    have hpos : (0 : ℚ) ≤ n c := by exact_mod_cast hn c hmem
    have huc := hu c hmem
    rw [hc]
    push_cast
    gcongr
    linarith
  -- The average of `b` is not above its average before, whoever is counted.
  have hshrinks : ∀ b ∈ l, u b / (n' b + 1) ≤ u b / (n b + 1) := by
    intro b hb
    by_cases hbc : b = c
    · rw [hbc]
      exact hnext
    · rw [hother b hb hbc]
  intro a ha hcount b hb
  by_cases hac : a = c
  · calc u b / (n' b + 1) ≤ u b / (n b + 1) := hshrinks b hb
      _ ≤ u c / (n c + 1) := hmax b hb
      _ = u a / n' a := by rw [hac, hc]; push_cast; rfl
  · rw [hother a ha hac] at hcount ⊢
    exact (hshrinks b hb).trans (h a ha hcount b hb)

end SubscriptionRouter.Rankings
