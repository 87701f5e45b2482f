import Mathlib
import SubscriptionRouter.Rankings
import SubscriptionRouter.SpendLeases

set_option autoImplicit false

/-!
# The order of the spend policy

The comparison of `Reserve` is a strict total order on candidates with distinct
identities, so the outcome does not depend on the order in which they are listed; and
because the selected one has the highest average, successive reservations stay balanced.
-/
namespace SubscriptionRouter.SpendOrder
open GoText SpendPolicy SpendLeases Rankings

variable {p : Policy} {candidates : List Candidate}

def keys (p : Policy) : List (Key Candidate) :=
  [⟨fun c => c.urgency.value / addInt 1 (p.load c.id), 0, Rat.le_refl⟩,
    ⟨fun c => -p.load c.id, 0, Rat.le_refl⟩, ⟨fun c => c.remaining.value, 0, Rat.le_refl⟩]

def idBefore (a b : Candidate) : Bool := a.id < b.id

theorem before_eq_rank (p : Policy) (a b : Candidate) :
    p.before a b = rank idBefore (keys p) a b := by
  simp only [Policy.before, keys, rank, Key.apart, abs_pos, sub_ne_zero, idBefore, ne_eq,
    decide_eq_true_eq, neg_inj, Int.cast_inj, neg_lt_neg_iff, Int.cast_lt]

theorem idBefore_total (h : (candidates.map Candidate.id).Nodup) :
    StrictTotal idBefore candidates where
  irrefl x _ := decide_eq_false (List.lt_irrefl x.id)
  trans x _ y _ z _ hxy hyz :=
    decide_eq_true (List.lt_trans (of_decide_eq_true hxy) (of_decide_eq_true hyz))
  separates x hx y hy hxy hyx := by
    have hle := of_decide_eq_false hxy
    have hge := of_decide_eq_false hyx
    exact List.inj_on_of_nodup_map h hx hy (List.le_antisymm (List.not_lt.mp hge) (List.not_lt.mp hle))

theorem before_total (p : Policy) (h : (candidates.map Candidate.id).Nodup) :
    StrictTotal p.before candidates := by
  have hrank : StrictTotal (rank idBefore (keys p)) candidates := by
    refine strictTotal_rank (idBefore_total h) fun x _ y _ z _ => not_straddled_of_exact ?_
    intro k hk
    simp only [keys, List.mem_cons, List.not_mem_nil, or_false] at hk
    rcases hk with rfl | rfl | rfl <;> rfl
  rwa [show p.before = rank idBefore (keys p) from funext₂ (before_eq_rank p)]

/-! ## Any order of the candidates -/

theorem eligible_eq (p : Policy) (now : ℤ) (seen : List GoString) (candidates : List Candidate) :
    p.eligible now seen candidates =
      if (∀ c ∈ candidates, c.id ≠ [] ∧ c.id ∉ seen) ∧ (candidates.map Candidate.id).Nodup then
        some (candidates.filter fun c => c.usable now p.maxAge && p.mode.admits c.id)
      else none := by
  induction candidates generalizing seen with
  | nil => simp [Policy.eligible]
  | cons c cs ih =>
    rw [Policy.eligible, ih, List.filter_cons]
    simp only [List.forall_mem_cons, List.map_cons, List.nodup_cons]
    simp only [List.mem_cons, not_or, List.mem_map, not_exists, not_and]
    by_cases hc : c.id = [] ∨ c.id ∈ seen
    · rw [if_pos hc, if_neg]
      rintro ⟨⟨⟨hne, hseen⟩, _⟩, _⟩
      exact hc.elim hne hseen
    · rw [if_neg hc]
      rw [not_or] at hc
      have hiff : ((∀ d ∈ cs, d.id ≠ [] ∧ d.id ≠ c.id ∧ d.id ∉ seen) ∧
            (cs.map Candidate.id).Nodup) ↔
          ((c.id ≠ [] ∧ c.id ∉ seen) ∧ ∀ d ∈ cs, d.id ≠ [] ∧ d.id ∉ seen) ∧
            (∀ d ∈ cs, d.id ≠ c.id) ∧ (cs.map Candidate.id).Nodup := by
        constructor
        · rintro ⟨hcs, hnodup⟩
          exact ⟨⟨hc, fun d hd => ⟨(hcs d hd).1, (hcs d hd).2.2⟩⟩,
            fun d hd => (hcs d hd).2.1, hnodup⟩
        · rintro ⟨⟨_, hcs⟩, hother, hnodup⟩
          exact ⟨fun d hd => ⟨(hcs d hd).1, hother d hd, (hcs d hd).2⟩, hnodup⟩
      rw [if_congr hiff rfl rfl]
      split <;> simp

theorem nodup_filter {q : Candidate → Bool} (h : (candidates.map Candidate.id).Nodup) :
    ((candidates.filter q).map Candidate.id).Nodup :=
  (List.filter_sublist.map Candidate.id).nodup h

theorem choose_perm {l l' : List Candidate} (hp : l.Perm l') (h : (l.map Candidate.id).Nodup) :
    p.choose l = p.choose l' := by
  have htotal := before_total p h
  have hsorted := (htotal.of_perm hp).weak.pairwise_insertionSort
  unfold Policy.choose
  rw [htotal.sorted_unique (List.perm_insertionSort _ l)
    ((List.perm_insertionSort _ l').trans hp.symm) htotal.weak.pairwise_insertionSort hsorted]

/-- The candidates may be listed in any order: the decision or the error is the same. -/
theorem reserve_perm (p : Policy) (now : ℤ) {candidates candidates' : List Candidate}
    (hp : candidates.Perm candidates') : p.reserve now candidates = p.reserve now candidates' := by
  have hok : ((∀ c ∈ candidates, c.id ≠ [] ∧ c.id ∉ ([] : List GoString)) ∧
        (candidates.map Candidate.id).Nodup) ↔
      (∀ c ∈ candidates', c.id ≠ [] ∧ c.id ∉ ([] : List GoString)) ∧
        (candidates'.map Candidate.id).Nodup := by
    rw [(hp.map Candidate.id).nodup_iff]
    simp only [hp.mem_iff]
  have hfilter := hp.filter fun c => c.usable now p.maxAge && p.mode.admits c.id
  unfold Policy.reserve
  rw [eligible_eq, eligible_eq]
  by_cases h : (∀ c ∈ candidates', c.id ≠ [] ∧ c.id ∉ ([] : List GoString)) ∧
      (candidates'.map Candidate.id).Nodup
  · rw [if_pos (hok.mpr h), if_pos h]
    dsimp only
    rw [choose_perm hfilter (nodup_filter (hok.mpr h).2)]
  · rw [if_neg (hok.not.mpr h), if_neg h]

theorem reserve_perm_swapped :
    (Policy.new 0).reserve 0 [idleA, { idleA with id := lit "b", urgency := .finite 2 }] =
      (Policy.new 0).reserve 0 [{ idleA with id := lit "b", urgency := .finite 2 }, idleA] :=
  reserve_perm _ 0 (List.Perm.swap _ _ _)

/-! ## Successive reservations -/

/-- One reservation at each of the times, none of them released. -/
def reserveEach (p : Policy) (candidates : List Candidate) : List ℤ → List Decision × Policy
  | [] => ([], p)
  | now :: times =>
    let reserved := p.reserve now candidates
    let rest := reserveEach reserved.2 candidates times
    (reserved.1.toOption.toList ++ rest.1, rest.2)

def decided (decisions : List Decision) (id : GoString) : ℕ :=
  decisions.countP fun d => d.accountID = id

theorem decided_ok (d : Decision) (rest : List Decision) (id : GoString) :
    decided ((Except.ok d : Except ReserveError Decision).toOption.toList ++ rest) id =
      (if d.accountID = id then 1 else 0) + decided rest id := by
  unfold decided
  rw [List.countP_append]
  simp [Except.toOption]

/-- Under the automatic mode, with counts below their limit, a reservation is for a
candidate with the highest average, or no candidate pays. -/
theorem reserve_highest {now : ℤ} (hmode : p.mode.accountID = [])
    (hcounts : ∀ id, 0 ≤ p.load id ∧ p.load id + 1 < 2 ^ 63)
    (hfresh : ∀ c ∈ candidates, c.usable now p.maxAge = true) :
    (∃ e, p.reserve now candidates = (.error e, p)) ∨
    ∃ c ∈ candidates, ∃ reason, p.reserve now candidates =
        (.ok ⟨(p.sequence + 1) % 2 ^ 64, p.revision, c.id, reason⟩, { p with
          inflight := p.inflight.insert c.id (p.load c.id + 1)
          sequence := (p.sequence + 1) % 2 ^ 64 }) ∧
      ∀ b ∈ candidates, b.urgency.value / (p.load b.id + 1) ≤ c.urgency.value / (p.load c.id + 1) := by
  have hfilter : (candidates.filter fun c => c.usable now p.maxAge && p.mode.admits c.id) =
      candidates := by
    rw [List.filter_eq_self]
    intro c hc
    simp [hfresh c hc, Mode.admits, hmode]
  have hnext : ∀ id, addInt 1 (p.load id) = p.load id + 1 := by
    intro id
    obtain ⟨hpos, hmax⟩ := hcounts id
    rw [addInt, add_comm]
    exact addInt_one hpos hmax
  unfold Policy.reserve
  rw [eligible_eq, hfilter]
  split
  · exact .inl ⟨_, rfl⟩
  · rename_i l hl
    split at hl
    · rename_i hok
      cases hl
      split
      · exact .inl ⟨_, rfl⟩
      · rename_i c hc
        have htotal := before_total p hok.2
        have hperm := List.perm_insertionSort (fun a b => p.before b a = false) candidates
        have hunbeaten := head_unbeaten (htotal.of_perm hperm.symm).irrefl
          htotal.weak.pairwise_insertionSort hc
        refine .inr ⟨c, choose_mem hc, if p.mode.accountID ≠ [] then lit "strict" else lit "auto",
          ?_, fun b hb => ?_⟩
        · obtain ⟨hpos, hmax⟩ := hcounts c.id
          rw [addInt_one hpos hmax]
        · have hbc := hunbeaten b (hperm.mem_iff.mpr hb)
          simp only [Policy.before, hnext] at hbc
          split at hbc
          · simpa using hbc
          · rename_i heq
            simpa using (not_not.mp heq).le
    · cases hl

/-- What the counts of the policy satisfy between two reservations. -/
structure Spread (p : Policy) (candidates : List Candidate) : Prop where
  auto : p.mode.accountID = []
  positive : ∀ id, 0 ≤ p.load id
  balanced : Balanced (fun c : Candidate => c.urgency.value) (fun c => p.load c.id) candidates

theorem load_reserved (p : Policy) (id : GoString) (n : ℤ) (sequence : ℕ) (a : GoString) :
    Policy.load { p with inflight := p.inflight.insert id n, sequence := sequence } a =
      if id = a then n else p.load a :=
  load_insert p id n a

theorem Spread.reserve {now : ℤ} (h : Spread p candidates)
    (hnodup : (candidates.map Candidate.id).Nodup) (hurgency : ∀ c ∈ candidates, 0 ≤ c.urgency.value)
    (hfresh : ∀ c ∈ candidates, c.usable now p.maxAge = true)
    (hsmall : ∀ id, p.load id + 1 < 2 ^ 63) :
    Spread (p.reserve now candidates).2 candidates ∧
      ∀ id, (p.reserve now candidates).2.load id =
        p.load id + decided (p.reserve now candidates).1.toOption.toList id := by
  rcases reserve_highest h.auto (fun id => ⟨h.positive id, hsmall id⟩) hfresh with
    ⟨e, he⟩ | ⟨c, hc, reason, hreserve, hmax⟩
  · rw [he]
    exact ⟨h, fun id => by simp [decided, Except.toOption]⟩
  · rw [hreserve]
    dsimp only
    refine ⟨⟨h.auto, fun id => ?_, ?_⟩, fun id => ?_⟩
    · rw [load_reserved]
      split
      · exact Int.add_nonneg (h.positive c.id) Int.one_nonneg
      · exact h.positive id
    · refine h.balanced.step hurgency (fun x _ => h.positive x.id) hc hmax ?_ fun x hx hne => ?_
      · rw [load_reserved, if_pos rfl]
      · rw [load_reserved, if_neg]
        exact fun he => hne (List.inj_on_of_nodup_map hnodup hx hc he.symm)
    · rw [load_reserved]
      by_cases hid : c.id = id
      · simp [decided, Except.toOption, hid]
      · simp [decided, Except.toOption, hid]

theorem Spread.reserveEach {times : List ℤ} (h : Spread p candidates)
    (hnodup : (candidates.map Candidate.id).Nodup) (hurgency : ∀ c ∈ candidates, 0 ≤ c.urgency.value)
    (hfresh : ∀ now ∈ times, ∀ c ∈ candidates, c.usable now p.maxAge = true)
    (hsmall : ∀ id, p.load id + times.length < 2 ^ 63) :
    Spread (reserveEach p candidates times).2 candidates ∧
      ∀ id, (SpendOrder.reserveEach p candidates times).2.load id =
        p.load id + decided (SpendOrder.reserveEach p candidates times).1 id := by
  induction times generalizing p with
  | nil => exact ⟨h, fun id => by simp [SpendOrder.reserveEach, decided]⟩
  | cons now times ih =>
    simp only [List.length_cons] at hsmall
    obtain ⟨hspread, hload⟩ := h.reserve hnodup hurgency (hfresh now List.mem_cons_self)
      fun id => by have := hsmall id; omega
    have hage : (p.reserve now candidates).2.maxAge = p.maxAge := by
      rcases reserve_cases p now candidates with ⟨e, he⟩ | ⟨id, reason, he⟩ <;> rw [he]
    have hone : ∀ id, decided (p.reserve now candidates).1.toOption.toList id ≤ 1 := by
      intro id
      refine List.countP_le_length.trans ?_
      cases (p.reserve now candidates).1.toOption <;> simp
    obtain ⟨hrest, hcount⟩ := ih hspread
      (fun t ht => by rw [hage]; exact hfresh t (List.mem_cons_of_mem now ht))
      (fun id => by have := hsmall id; have := hone id; have := hload id; omega)
    refine ⟨hrest, fun id => ?_⟩
    rw [SpendOrder.reserveEach]
    dsimp only
    rw [hcount, hload, decided, decided, decided, List.countP_append]
    push_cast
    ring

/-- Fewer than `2 ^ 63` reservations without a release are spread by highest averages. -/
theorem reservations_spread {times : List ℤ} (hmode : p.mode.accountID = [])
    (hempty : p.inflight = ∅) (hnodup : (candidates.map Candidate.id).Nodup)
    (hurgency : ∀ c ∈ candidates, 0 ≤ c.urgency.value)
    (hfresh : ∀ now ∈ times, ∀ c ∈ candidates, c.usable now p.maxAge = true)
    (hlength : times.length < 2 ^ 63) :
    ∀ a ∈ candidates, 1 ≤ decided (reserveEach p candidates times).1 a.id →
      ∀ b ∈ candidates,
        b.urgency.value / (decided (reserveEach p candidates times).1 b.id + 1) ≤
          a.urgency.value / decided (reserveEach p candidates times).1 a.id := by
  have hzero : ∀ id, p.load id = 0 := by
    intro id
    rw [Policy.load, hempty]
    rfl
  have hstart : Spread p candidates := by
    refine ⟨hmode, fun id => (hzero id).ge, fun a _ hcount => ?_⟩
    simp only [hzero] at hcount
    omega
  obtain ⟨hspread, hload⟩ := hstart.reserveEach hnodup hurgency hfresh
    fun id => by rw [hzero]; omega
  intro a ha hcount b hb
  have hbalanced := hspread.balanced a ha (by simp only [hload, hzero]; omega) b hb
  simp only [hload, hzero, zero_add] at hbalanced
  exact_mod_cast hbalanced

def urgent : Candidate := { idleA with urgency := .finite (2 ^ 64) }

def patient : Candidate := { idleA with id := lit "b" }

theorem reservations_spread_two :
    1 ≤ decided (reserveEach (Policy.new 0) [urgent, patient] [0, 0]).1 urgent.id ∧
      patient.urgency.value /
          (decided (reserveEach (Policy.new 0) [urgent, patient] [0, 0]).1 patient.id + 1) ≤
        urgent.urgency.value /
          decided (reserveEach (Policy.new 0) [urgent, patient] [0, 0]).1 urgent.id := by
  have hcount : 1 ≤ decided (reserveEach (Policy.new 0) [urgent, patient] [0, 0]).1 urgent.id := by
    decide +kernel
  exact ⟨hcount, reservations_spread rfl rfl (by decide) (by decide)
    (by decide) (by decide) urgent (by decide) hcount patient (by decide)⟩

theorem before_of_small {k : ℤ} (ha : p.load urgent.id = k) (hb : p.load patient.id = 0)
    (hk : 0 ≤ k) (hmax : k + 1 < 2 ^ 63) : p.before patient urgent = false := by
  have hnext : addInt 1 k = k + 1 := by
    rw [addInt, add_comm]
    exact addInt_one hk hmax
  have hlt : (1 : ℚ) / (1 : ℤ) < 2 ^ 64 / (k + 1 : ℤ) := by
    have hkq : (k : ℚ) + 1 < 2 ^ 63 := by exact_mod_cast hmax
    have hkpos : (0 : ℚ) ≤ k := by exact_mod_cast hk
    rw [div_lt_div_iff₀ (by norm_num) (by push_cast; linarith)]
    push_cast
    linarith
  simp only [Policy.before, ha, hb, hnext, show addInt 1 0 = 1 from by decide,
    show urgent.urgency.value = 2 ^ 64 from rfl, show patient.urgency.value = 1 from rfl]
  rw [if_pos hlt.ne]
  exact decide_eq_false hlt.le.not_gt

theorem before_of_overflow (ha : p.load urgent.id = 2 ^ 63 - 1) (hb : p.load patient.id = 0) :
    p.before patient urgent = true := by
  simp only [Policy.before, ha, hb, show addInt 1 0 = 1 from by decide,
    show addInt 1 (2 ^ 63 - 1) = -2 ^ 63 from by decide,
    show urgent.urgency.value = 2 ^ 64 from rfl, show patient.urgency.value = 1 from rfl]
  norm_num

theorem reserve_pair (hmode : p.mode.accountID = []) (hage : p.maxAge = 0) {c : Candidate}
    (hc : c = if p.before patient urgent = true then patient else urgent) :
    ∃ reason, p.reserve 0 [urgent, patient] =
      (.ok ⟨(p.sequence + 1) % 2 ^ 64, p.revision, c.id, reason⟩, { p with
        inflight := p.inflight.insert c.id (addInt (p.load c.id) 1)
        sequence := (p.sequence + 1) % 2 ^ 64 }) := by
  have hfilter : ([urgent, patient].filter fun c => c.usable 0 p.maxAge && p.mode.admits c.id) =
      [urgent, patient] := by
    rw [List.filter_eq_self, hage]
    intro c hc
    have husable : ∀ c ∈ [urgent, patient], c.usable 0 0 = true := by decide
    simp [husable c hc, Mode.admits, hmode]
  have hchoose : p.choose [urgent, patient] = some c := by
    rw [hc]
    unfold Policy.choose
    cases h : p.before patient urgent <;> simp [h]
  unfold Policy.reserve
  rw [eligible_eq, if_pos (by decide), hfilter]
  dsimp only
  rw [hchoose]
  exact ⟨_, rfl⟩

/-- The urgent account is selected until its count overflows, and then the other one. -/
theorem reserveEach_pair {k n : ℕ} (hn : k + n + 1 = 2 ^ 63) (hmode : p.mode.accountID = [])
    (hage : p.maxAge = 0) (ha : p.load urgent.id = k) (hb : p.load patient.id = 0) :
    decided (reserveEach p [urgent, patient] (List.replicate (n + 1) 0)).1 urgent.id = n ∧
      decided (reserveEach p [urgent, patient] (List.replicate (n + 1) 0)).1 patient.id = 1 := by
  have hne : urgent.id ≠ patient.id := by decide
  induction n generalizing p k with
  | zero =>
    have hover : p.before patient urgent = true := before_of_overflow (by rw [ha]; omega) hb
    obtain ⟨reason, hreserve⟩ := reserve_pair hmode hage (c := patient) (by rw [hover, if_pos rfl])
    rw [List.replicate_succ, List.replicate_zero, reserveEach, hreserve]
    simp [reserveEach, decided, Except.toOption, hne.symm]
  | succ n ih =>
    have hsmall : p.before patient urgent = false :=
      before_of_small ha hb (Int.natCast_nonneg k) (by omega)
    obtain ⟨reason, hreserve⟩ := reserve_pair hmode hage (c := urgent)
      (by rw [hsmall, if_neg Bool.false_ne_true])
    have hload : addInt (p.load urgent.id) 1 = (k + 1 : ℕ) := by
      rw [ha, addInt_one (Int.natCast_nonneg k) (by omega)]
      rfl
    rw [hload] at hreserve
    rw [List.replicate_succ, reserveEach, hreserve]
    obtain ⟨hurgent, hpatient⟩ := ih (p := { p with
      inflight := p.inflight.insert urgent.id (k + 1 : ℕ)
      sequence := (p.sequence + 1) % 2 ^ 64 }) (k := k + 1) (by omega) hmode hage
      (by rw [load_reserved, if_pos rfl]) (by rw [load_reserved, if_neg hne, hb])
    dsimp only
    rw [decided_ok, decided_ok, hurgent, hpatient, if_pos rfl, if_neg hne]
    exact ⟨Nat.add_comm 1 n, rfl⟩

/-- With `2 ^ 63` reservations an account may have been selected although the average of
another one is above its own. -/
theorem reservations_overflow :
    ¬ ∀ (p : Policy) (candidates : List Candidate) (times : List ℤ),
      p.mode.accountID = [] → p.inflight = ∅ → (candidates.map Candidate.id).Nodup →
      (∀ c ∈ candidates, 0 ≤ c.urgency.value) →
      (∀ now ∈ times, ∀ c ∈ candidates, c.usable now p.maxAge = true) →
      ∀ a ∈ candidates, 1 ≤ decided (reserveEach p candidates times).1 a.id →
        ∀ b ∈ candidates,
          b.urgency.value / (decided (reserveEach p candidates times).1 b.id + 1) ≤
            a.urgency.value / decided (reserveEach p candidates times).1 a.id := by
  intro h
  obtain ⟨hurgent, hpatient⟩ := reserveEach_pair (p := Policy.new 0) (k := 0) (n := 2 ^ 63 - 1)
    (by omega) rfl rfl rfl rfl
  have hfresh : ∀ now ∈ List.replicate (2 ^ 63 - 1 + 1) (0 : ℤ), ∀ c ∈ [urgent, patient],
      c.usable now 0 = true := by
    intro now hnow
    rw [List.eq_of_mem_replicate hnow]
    decide
  have hbalanced := h (Policy.new 0) [urgent, patient] _ rfl rfl (by decide)
    (by decide) hfresh patient (by decide) hpatient.ge urgent (by decide)
  rw [hurgent, hpatient, show urgent.urgency.value = 2 ^ 64 from rfl,
    show patient.urgency.value = 1 from rfl] at hbalanced
  norm_num at hbalanced

end SubscriptionRouter.SpendOrder
