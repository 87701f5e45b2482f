import Mathlib
import SubscriptionRouter.StoreOpen
import SubscriptionRouter.Transitions

set_option autoImplicit false

/-!
# What holds of every store

Every store that `Open` returns is valid, and every operation keeps it so. An operation
that fails puts the accounts and the owners back, except a removal whose quarantined
directory cannot be deleted.
-/
namespace SubscriptionRouter.StoreInvariant
open GoText JsonText StoreState StoreOpen Transitions

structure Valid (s : Store) : Prop where
  primary : ∃ a ∈ s.accounts, a.id = lit "primary" ∧ a.enabled = true
  controller : ∀ a ∈ s.accounts, a.controller = true ↔ a.id = lit "primary"
  ids : (s.accounts.map Account.id).Nodup
  owners : ∀ t owner : GoString, s.threadOwner t = some owner → s.accountExists owner = true
  mode : s.routingMode = .auto ∨
    s.routingMode.mode = lit "account" ∧ s.enabled s.routingMode.accountID = true

theorem accountExists_iff {s : Store} {id : GoString} :
    s.accountExists id = true ↔ ∃ a ∈ s.accounts, a.id = id := by
  simp [Store.accountExists]

theorem Valid.auto {s : Store} (h : Valid s) : Valid { s with routingMode := .auto } :=
  ⟨h.primary, h.controller, h.ids, h.owners, .inl rfl⟩

theorem length_hexEncode (bytes : List UInt8) : (hexEncode bytes).length = 2 * bytes.length := by
  induction bytes with
  | nil => rfl
  | cons b bytes ih =>
    rw [hexEncode, List.flatMap_cons, List.length_append, ← hexEncode, ih]
    simp only [List.length_cons, List.length_nil]
    omega

theorem hexEncode_ne_primary (bytes : Vector UInt8 8) : hexEncode bytes.toList ≠ lit "primary" := by
  intro h
  have hlen := congrArg List.length h
  rw [length_hexEncode, Vector.length_toList] at hlen
  exact absurd hlen (by decide)

theorem Valid.addAccount {m : Machine} (h : Valid m.store) (p : Platform) (label : GoString)
    (draws : ℕ → Option (Vector UInt8 8)) (now : ℤ) :
    Valid (m.addAccount p label draws now).2.store := by
  refine addAccount_store p m label draws now h fun bytes hfree _ => ?_
  obtain ⟨primary, hprimary, hid, hon⟩ := h.primary
  refine ⟨⟨primary, List.mem_append_left _ hprimary, hid, hon⟩, fun a ha => ?_, ?_, fun t owner ho => ?_, ?_⟩
  · rcases List.mem_append.mp ha with ha | ha
    · exact h.controller a ha
    · obtain rfl := List.mem_singleton.mp ha
      simpa using hexEncode_ne_primary bytes
  · rw [List.map_append, List.nodup_append]
    refine ⟨h.ids, by simp, ?_⟩
    rintro id hold _ hnew rfl
    obtain ⟨a, ha, rfl⟩ := List.mem_map.mp hold
    obtain hnew := List.mem_singleton.mp hnew
    rw [accountExists_iff.mpr ⟨a, ha, hnew⟩] at hfree
    cases hfree
  · obtain ⟨a, ha, hid⟩ := accountExists_iff.mp (h.owners t owner ho)
    exact accountExists_iff.mpr ⟨a, List.mem_append_left _ ha, hid⟩
  · refine h.mode.imp id fun ⟨hmode, henabled⟩ => ⟨hmode, ?_⟩
    obtain ⟨a, ha, hid⟩ := enabled_iff.mp henabled
    exact enabled_iff.mpr ⟨a, List.mem_append_left _ ha, hid⟩

theorem map_id_set {accounts : List Account} {i : ℕ} {a b : Account} (ha : accounts[i]? = some a)
    (hid : b.id = a.id) : (accounts.set i b).map Account.id = accounts.map Account.id := by
  obtain ⟨hlt, rfl⟩ := List.getElem?_eq_some_iff.mp ha
  rw [List.map_set, hid, ← List.getElem_map (h := by simpa using hlt) Account.id, List.set_getElem_self]

theorem Valid.updateAccount {m : Machine} (h : Valid m.store) (id : GoString)
    (label : Option GoString) (enabled : Option Bool) :
    Valid (m.updateAccount id label enabled).2.store := by
  refine updateAccount_store m id label enabled h (fun _ _ => h.auto) ?_
  intro i previous relabeled hi hprevious hrelabel hcontroller mode hmode
  have hindex := getElem?_of_findIdx? hi hprevious
  obtain ⟨hid, hon, hcon, _, _⟩ := relabel_spec hrelabel
  set updated : Account := { relabeled with enabled := enabled.getD relabeled.enabled }
  have hmem : previous ∈ m.store.accounts := List.mem_of_getElem? hindex
  have hlt := (List.getElem?_eq_some_iff.mp hindex).1
  have hupdated : updated ∈ m.store.accounts.set i updated :=
    List.mem_of_getElem? (List.getElem?_set_self hlt)
  have hold : ∀ a ∈ m.store.accounts, a ≠ previous → a ∈ m.store.accounts.set i updated := by
    intro a ha hne
    obtain ⟨j, hj⟩ := List.mem_iff_getElem?.mp ha
    refine List.mem_of_getElem? (i := j) ((List.getElem?_set_ne ?_).trans hj)
    rintro rfl
    exact hne (Option.some.inj (hj.symm.trans hindex))
  have hexists : ∀ a ∈ m.store.accounts, ∃ b ∈ m.store.accounts.set i updated, b.id = a.id := by
    intro a ha
    by_cases hne : a = previous
    · exact ⟨updated, hupdated, hne ▸ hid⟩
    · exact ⟨a, hold a ha hne, rfl⟩
  refine ⟨?_, fun a ha => ?_, ?_, fun t owner ho => ?_, ?_⟩
  · obtain ⟨primary, hprimary, hpid, hpon⟩ := h.primary
    by_cases hne : primary = previous
    · subst hne
      refine ⟨updated, hupdated, hid.trans hpid, ?_⟩
      cases enabled with
      | none => exact hon.trans hpon
      | some on =>
        cases on with
        | true => rfl
        | false => exact absurd ⟨rfl, (h.controller _ hmem).mpr hpid⟩ hcontroller
    · exact ⟨primary, hold primary hprimary hne, hpid, hpon⟩
  · rcases List.mem_or_eq_of_mem_set ha with ha | rfl
    · exact h.controller a ha
    · change relabeled.controller = true ↔ relabeled.id = lit "primary"
      rw [hcon, hid]
      exact h.controller previous hmem
  · change ((m.store.accounts.set i updated).map Account.id).Nodup
    rw [map_id_set (b := updated) hindex hid]
    exact h.ids
  · obtain ⟨a, ha, haid⟩ := accountExists_iff.mp (h.owners t owner ho)
    obtain ⟨b, hb, hbid⟩ := hexists a ha
    exact accountExists_iff.mpr ⟨b, hb, hbid.trans haid⟩
  · subst hmode
    split
    · exact .inl rfl
    · rename_i hoff
      refine h.mode.imp (fun hauto => hauto) fun ⟨hmode, henabled⟩ => ⟨hmode, ?_⟩
      obtain ⟨a, ha, haid, haon⟩ := enabled_iff.mp henabled
      refine enabled_iff.mpr ?_
      by_cases hne : a = previous
      · subst hne
        refine ⟨updated, hupdated, hid.trans haid, ?_⟩
        cases enabled with
        | none => exact hon.trans haon
        | some on =>
          cases on with
          | true => rfl
          | false =>
            have : a.id = id := by simpa using List.find?_some hprevious
            exact absurd ⟨rfl, haid.symm.trans this⟩ hoff
      · exact ⟨a, hold a ha hne, haid, haon⟩

theorem checkAssignments_exists {s : Store} {assignments : GoMap GoString}
    (h : checkAssignments s assignments.toList = .ok ()) {t owner : GoString}
    (ho : assignments[t]? = some owner) : s.accountExists owner = true :=
  (checkAssignments_ok_iff.mp h (t, owner) (Std.ExtTreeMap.mem_toList_iff_getElem?_eq_some.mpr ho)).2

theorem Valid.setThreadOwners {m : Machine} (h : Valid m.store) (assignments : GoMap GoString) :
    Valid (m.setThreadOwners assignments).2.store := by
  refine setThreadOwners_store m assignments h fun hok => ?_
  refine ⟨h.primary, h.controller, h.ids, fun t owner ho => ?_, h.mode⟩
  change (mergeOwners m.store.owners assignments)[t]? = some owner at ho
  rw [getElem?_mergeOwners] at ho
  rcases Option.or_eq_some_iff.mp ho with ho | ⟨_, ho⟩
  · exact checkAssignments_exists hok ho
  · exact h.owners t owner ho

theorem Valid.removeAccount {m : Machine} (h : Valid m.store) (p : Platform) (id : GoString)
    (drawn : Bool) : Valid (m.removeAccount p id drawn).2.store := by
  refine removeAccount_store p m id drawn h (fun _ => h.auto) ?_
  intro a ha hprimary _ mode hmode
  have haid : a.id = id := by simpa using List.find?_some ha
  have hkept : ∀ b ∈ m.store.accounts, b.id ≠ id →
      b ∈ m.store.accounts.eraseP (·.id = id) := fun b hb hne =>
    (List.mem_eraseP_of_neg (by simpa using hne)).mpr hb
  refine ⟨?_, fun b hb => h.controller b (List.mem_of_mem_eraseP hb), ?_, fun t owner ho => ?_, ?_⟩
  · obtain ⟨primary, hmem, hpid, hpon⟩ := h.primary
    exact ⟨primary, hkept primary hmem fun he => hprimary (haid.trans (he.symm.trans hpid)), hpid, hpon⟩
  · exact h.ids.sublist ((List.eraseP_sublist).map _)
  · change (m.store.owners.filter _)[t]? = some owner at ho
    rw [Std.ExtTreeMap.getElem?_filter', Option.filter_eq_some_iff] at ho
    obtain ⟨b, hb, hbid⟩ := accountExists_iff.mp (h.owners t owner ho.1)
    have hne : owner ≠ id := by simpa using ho.2
    exact accountExists_iff.mpr ⟨b, hkept b hb (hbid ▸ hne), hbid⟩
  · subst hmode
    split
    · exact .inl rfl
    · rename_i hselected
      refine h.mode.imp (fun hauto => hauto) fun ⟨hmode, henabled⟩ => ⟨hmode, ?_⟩
      obtain ⟨b, hb, hbid, hbon⟩ := enabled_iff.mp henabled
      exact enabled_iff.mpr ⟨b, hkept b hb (hbid ▸ hselected), hbid, hbon⟩

theorem eq_auto_of_validate {mode : RoutingMode} (h : mode.validate = true)
    (hmode : mode.mode ≠ lit "account") : mode = .auto := by
  obtain ⟨name, accountID⟩ := mode
  simp only [RoutingMode.validate, Bool.or_eq_true, Bool.and_eq_true, decide_eq_true_eq] at h
  rcases h with ⟨hname, hid⟩ | h
  · subst hname hid
    rfl
  · exact absurd h.1.1.1.1 hmode

theorem Valid.setRoutingMode {m : Machine} (h : Valid m.store) (mode : RoutingMode) :
    Valid (m.setRoutingMode mode).2.store := by
  rcases setRoutingMode_cases m mode with ⟨_, hstore, hvalid, henabled⟩ | ⟨_, hstore⟩
  · rw [hstore]
    refine ⟨h.primary, h.controller, h.ids, h.owners, ?_⟩
    by_cases hmode : mode.mode = lit "account"
    · exact .inr ⟨hmode, henabled hmode⟩
    · exact .inl (eq_auto_of_validate hvalid hmode)
  · rw [hstore]
    exact h

/-! ## What `Open` accepts -/

theorem checkAccount_ok_iff {index : ℕ} {seen : List GoString} {a : Account} :
    checkAccount index seen a = .ok () ↔
      validAccountID a.id = true ∧ asciiLower a.id ∉ seen ∧
        (trimSpace a.label ≠ [] ∧ a.label = trimSpace a.label) ∧ validLabel a.label = true ∧
        0 ≤ a.createdAt ∧ (a.controller = true → a.enabled = true) := by
  unfold checkAccount
  constructor
  · intro h
    split_ifs at h with hid hseen hlabel hvalid hcreated hcontroller
    obtain ⟨hblank, htrimmed⟩ := not_or.mp hlabel
    refine ⟨by simpa using hid, hseen, ⟨hblank, not_not.mp htrimmed⟩, by simpa using hvalid,
      not_lt.mp hcreated, fun hc => ?_⟩
    simpa using not_and.mp hcontroller hc
  · rintro ⟨hid, hseen, ⟨hblank, htrimmed⟩, hvalid, hcreated, hon⟩
    rw [if_neg (by simp [hid]), if_neg hseen, if_neg (not_or.mpr ⟨hblank, not_not.mpr htrimmed⟩),
      if_neg (by simp [hvalid]), if_neg (not_lt.mpr hcreated)]
    exact if_neg fun ⟨hc, hoff⟩ => by simp [hon hc] at hoff

theorem checkHome_controller {p : Platform} {primaryCodexHome : GoString} {m : Machine} {a : Account}
    {home : GoString} (h : (checkHome p primaryCodexHome m a).1 = .ok home)
    (hid : a.id = lit "primary") : a.controller = true := by
  rw [checkHome, if_pos hid] at h
  split at h
  · cases h
  · simpa using ‹¬ a.controller = false›

theorem validateAccounts_ok {p : Platform} {primaryCodexHome : GoString} {accounts loaded : List Account}
    {m : Machine} {index : ℕ} {seen : List GoString}
    (h : (validateAccounts p primaryCodexHome m index seen accounts).1 = .ok loaded) :
    (loaded.map fun a => asciiLower a.id).Nodup ∧ (∀ a ∈ loaded, asciiLower a.id ∉ seen) ∧
      ∀ a ∈ loaded, (a.controller = true → a.enabled = true) ∧
        (a.id = lit "primary" → a.controller = true) := by
  induction accounts generalizing m index seen loaded with
  | nil =>
    obtain rfl := Except.ok.inj h
    simp
  | cons a rest ih =>
    rw [validateAccounts] at h
    split at h
    · cases h
    · rename_i hcheck
      obtain ⟨home, hhome, hnext⟩ := andThen_ok h
      rw [hnext] at h
      obtain ⟨tail, htail, hnext⟩ := andThen_ok h
      rw [hnext] at h
      obtain rfl := Except.ok.inj h
      obtain ⟨_, hseen, _, _, _, hon⟩ := checkAccount_ok_iff.mp hcheck
      obtain ⟨hnodup, hfresh, hall⟩ := ih htail
      refine ⟨?_, fun b hb => ?_, fun b hb => ?_⟩
      · refine List.nodup_cons.mpr ⟨fun hmem => ?_, hnodup⟩
        obtain ⟨b, hb, heq⟩ := List.mem_map.mp hmem
        exact hfresh b hb (heq ▸ List.mem_cons_self)
      · rcases List.mem_cons.mp hb with rfl | hb
        · exact hseen
        · exact fun hmem => hfresh b hb (List.mem_cons_of_mem _ hmem)
      · rcases List.mem_cons.mp hb with rfl | hb
        · exact ⟨hon, checkHome_controller (a := a) hhome⟩
        · exact hall b hb

theorem checkOwners_ok_iff {accounts : List Account} {l : List (GoString × GoString)} :
    checkOwners accounts l = .ok () ↔
      ∀ e ∈ l, validThreadID e.1 = true ∧ accounts.any (·.id = e.2) = true := by
  induction l with
  | nil => simp [checkOwners]
  | cons e l ih =>
    obtain ⟨t, a⟩ := e
    rw [checkOwners]
    cases ht : validThreadID t with
    | false => simp [ht]
    | true =>
      cases ha : accounts.any (·.id = a) with
      | false => simp only [ha, List.forall_mem_cons]; simp
      | true =>
        rw [if_neg (by simp), if_neg (by simp), ih, List.forall_mem_cons]
        exact ⟨fun h => ⟨⟨ht, ha⟩, h⟩, fun h => h.2⟩

theorem eq_of_countP_eq_one {α : Type} {p : α → Bool} {l : List α} (h : l.countP p = 1) {a b : α}
    (ha : a ∈ l) (hb : b ∈ l) (hpa : p a = true) (hpb : p b = true) : a = b := by
  rw [List.countP_eq_length_filter] at h
  obtain ⟨c, hc⟩ := List.length_eq_one_iff.mp h
  have hmem : ∀ x ∈ l, p x = true → x = c := fun x hx hpx =>
    List.mem_singleton.mp (hc ▸ List.mem_filter.mpr ⟨hx, hpx⟩)
  exact (hmem a ha hpa).trans (hmem b hb hpb).symm

theorem validatePersistedState_ok {p : Platform} {primaryCodexHome : GoString} {m : Machine}
    {persisted : PersistedState} {loaded : List Account × GoMap GoString}
    (h : (validatePersistedState p primaryCodexHome m persisted).1 = .ok loaded) :
    Valid ⟨primaryCodexHome, loaded.1, loaded.2, .auto⟩ := by
  unfold validatePersistedState at h
  split at h
  · cases h
  · split at h
    · cases h
    · split at h
      · cases h
      · obtain ⟨accounts, haccounts, hnext⟩ := andThen_ok h
        rw [hnext] at h
        dsimp only at h
        split at h
        · cases h
        · rename_i hprimary
          split at h
          · cases h
          · rename_i hcontroller
            split at h
            · cases h
            · split at h
              · cases h
              · rename_i howners
                obtain rfl := Except.ok.inj h
                obtain ⟨hnodup, _, hall⟩ := validateAccounts_ok haccounts
                rw [not_not] at hprimary hcontroller
                obtain ⟨primary, hmem, hid⟩ := List.countP_pos_iff.mp (hprimary ▸ Nat.one_pos)
                have hid : primary.id = lit "primary" := by simpa using hid
                have hcon := (hall primary hmem).2 hid
                refine ⟨⟨primary, hmem, hid, (hall primary hmem).1 hcon⟩, fun a ha => ?_, ?_,
                  fun t owner ho => ?_, .inl rfl⟩
                · refine ⟨fun hac => ?_, (hall a ha).2⟩
                  rw [eq_of_countP_eq_one hcontroller ha hmem hac hcon, hid]
                · refine List.Nodup.of_map asciiLower ?_
                  rw [List.map_map]
                  exact hnodup
                · exact (checkOwners_ok_iff.mp howners (t, owner)
                    (Std.ExtTreeMap.mem_toList_iff_getElem?_eq_some.mpr ho)).2

theorem wrap_ok {α : Type} {r : Result α} {format : String} {args : List GoString} {a : α}
    (h : (Result.wrap r format args).1 = .ok a) : r.1 = .ok a := by
  obtain ⟨e | b, m⟩ := r
  · cases h
  · exact h

theorem valid_primary (primaryCodexHome : GoString) (now : ℤ) :
    Valid ⟨primaryCodexHome, [primaryAccount primaryCodexHome now], ∅, .auto⟩ where
  primary := ⟨_, List.mem_singleton_self _, rfl, rfl⟩
  controller := fun a ha => by
    obtain rfl := List.mem_singleton.mp ha
    simp [primaryAccount]
  ids := List.nodup_singleton _
  owners := fun t owner ho => by simp [Store.threadOwner] at ho
  mode := .inl rfl

theorem loadState_ok {p : Platform} {primaryCodexHome : GoString} {now : ℤ} {m : Machine}
    {loaded : List Account × GoMap GoString}
    (h : (loadState p primaryCodexHome now m).1 = .ok loaded) :
    Valid ⟨primaryCodexHome, loaded.1, loaded.2, .auto⟩ := by
  unfold loadState at h
  split at h
  · obtain ⟨_, _, hnext⟩ := andThen_ok h
    rw [hnext] at h
    exact validatePersistedState_ok (wrap_ok h)
  · split at h
    · obtain ⟨_, _, hnext⟩ := andThen_ok h
      dsimp only at h
      rw [hnext] at h
      obtain rfl := Except.ok.inj h
      exact valid_primary primaryCodexHome now
    · cases h

theorem loadRoutingMode_store {m : Machine} (h : Valid { m.store with routingMode := .auto }) :
    Valid (loadRoutingMode m).2.store := by
  unfold loadRoutingMode
  set m₀ : Machine := { m with store := { m.store with routingMode := .auto } }
  have hprobe := probe_store m₀
  dsimp only
  split
  · rename_i e m₁ hr
    rw [hr] at hprobe
    split <;> exact hprobe ▸ h
  · rename_i m₁ hr
    rw [hr] at hprobe
    replace hprobe : m₁.store = m₀.store := hprobe
    split
    · exact hprobe ▸ h
    · split
      · exact hprobe ▸ h
      · have hprobes := (probeAll_store m₁ [("", []), ("", []), ("", [])]).trans hprobe
        refine andThen_store (fun _ _ => hprobes ▸ h) fun _ _ => ?_
        set m₂ := (m₁.probeAll [("", []), ("", []), ("", [])]).2
        split
        · exact hprobes ▸ h
        · rename_i version mode _
          split
          · exact hprobes ▸ h
          · split
            · exact hprobes ▸ h
            · rename_i hvalid
              split
              · exact saveRoutingMode_store .auto (hprobes ▸ h) (hprobes ▸ h)
              · rename_i henabled
                have h₂ : Valid m₂.store := hprobes ▸ h
                refine ⟨h₂.primary, h₂.controller, h₂.ids, h₂.owners, ?_⟩
                by_cases hmode : mode.mode = lit "account"
                · exact .inr ⟨hmode, Bool.of_not_eq_false (not_and.mp henabled hmode)⟩
                · exact .inl (eq_auto_of_validate (by simpa using hvalid) hmode)

theorem opening_ok {p : Platform} {m : Machine} {primaryCodexHome : GoString} {now : ℤ}
    (h : (opening p m primaryCodexHome now).1 = .ok ()) :
    Valid (opening p m primaryCodexHome now).2.store := by
  unfold opening at h ⊢
  obtain ⟨_, _, hnext⟩ := andThen_ok h
  rw [hnext] at h ⊢
  split at h
  · cases h
  · rename_i hhome
    rw [if_neg hhome]
    obtain ⟨_, _, hnext⟩ := andThen_ok h
    rw [hnext] at h ⊢
    obtain ⟨loaded, hloaded, hnext⟩ := andThen_ok h
    rw [hnext] at h ⊢
    dsimp only at h ⊢
    obtain ⟨_, _, hnext⟩ := andThen_ok h
    rw [hnext]
    refine loadRoutingMode_store ?_
    rw [probeAll_store]
    exact loadState_ok hloaded

theorem openStore_valid {p : Platform} {m : Machine} {primaryCodexHome : GoString} {now : ℤ}
    (h : (openStore p m primaryCodexHome now).1 = .ok ()) :
    Valid (openStore p m primaryCodexHome now).2.store := by
  have hopening : (opening p m primaryCodexHome now).1 = .ok () →
      Valid (opening p m primaryCodexHome now).2.store := opening_ok
  unfold openStore at h ⊢
  split at h
  · rename_i opened hr
    rw [hr] at hopening
    exact hopening rfl
  · cases h

/-! ## Failed operations -/

/-- On an error that is not excused the accounts and the owners are those of `before`. -/
def Restores {α : Type} (excused : Error → Prop) (before : Store) (r : Result α) : Prop :=
  ∀ e, r.1 = .error e → ¬ excused e →
    r.2.store.accounts = before.accounts ∧ r.2.store.owners = before.owners

section Restoring
variable {α β : Type} {excused : Error → Prop} {before : Store}

theorem restores_of_store {r : Result α} (h : r.2.store = before) : Restores excused before r :=
  fun _ _ _ => h ▸ ⟨rfl, rfl⟩

theorem restores_ok {a : α} {m : Machine} : Restores excused before ((.ok a, m) : Result α) :=
  fun _ h => nomatch h

theorem Restores.andThen {r : Result α} {next : α → Machine → Result β}
    (h : Restores excused before r)
    (hnext : ∀ a, r.1 = .ok a → Restores excused before (next a r.2)) :
    Restores excused before (r.andThen next) := by
  obtain ⟨e | a, m⟩ := r
  · intro e' he
    obtain rfl := Except.error.inj he
    exact h e rfl
  · exact hnext a rfl

/-- Save a changed store and put the old one back on an error. -/
theorem restores_save {m : Machine} {old : Store}
    (hold : old.accounts = before.accounts ∧ old.owners = before.owners) :
    Restores excused before
      (m.saveLocked.orElse fun e m => (.error e, { m with store := old })) := by
  rcases hr : m.saveLocked with ⟨e | a, m'⟩
  · exact fun _ _ _ => hold
  · exact restores_ok

theorem saveRoutingMode_same (m : Machine) (mode : RoutingMode) :
    (m.saveRoutingModeLocked mode).2.store.accounts = m.store.accounts ∧
      (m.saveRoutingModeLocked mode).2.store.owners = m.store.owners := by
  rcases saveRoutingModeLocked_cases m mode with ⟨_, hstore⟩ | ⟨_, hstore⟩ <;>
    exact hstore ▸ ⟨rfl, rfl⟩

theorem addAccount_restores (p : Platform) (m : Machine) (label : GoString)
    (draws : ℕ → Option (Vector UInt8 8)) (now : ℤ) :
    Restores excused m.store (m.addAccount p label draws now) := by
  unfold Machine.addAccount
  dsimp only
  split
  · exact restores_of_store rfl
  · split
    · exact restores_of_store rfl
    · rename_i id _
      have hcreated := perform_store m (.createHome id)
      refine Restores.andThen (restores_of_store hcreated) fun _ _ => ?_
      set m₁ := (Result.wrap (m.perform (.createHome id)) "create account home: ").2
      have hsaved : Restores excused m.store (m₁.saveNewAccount p id (newLabel m.store label) now) := by
        have hchecked := (probeAll_store m₁ (homeChecks p id)).trans hcreated
        refine Restores.andThen (restores_of_store hchecked) fun _ _ => ?_
        exact Restores.andThen (restores_save (hchecked ▸ ⟨rfl, rfl⟩)) fun _ _ => restores_ok
      rcases hr : m₁.saveNewAccount p id (newLabel m.store label) now with ⟨e | a, m₂⟩
      · rw [hr] at hsaved
        intro e' he hexcused
        obtain rfl := Except.error.inj he
        have hcleaned := perform_store m₂ (.removeHome id)
        change (m₂.perform (.removeHome id)).2.store.accounts = _ ∧
          (m₂.perform (.removeHome id)).2.store.owners = _
        rw [hcleaned]
        exact hsaved e rfl hexcused
      · exact restores_ok

theorem updateAccount_restores (m : Machine) (id : GoString) (label : Option GoString)
    (enabled : Option Bool) : Restores excused m.store (m.updateAccount id label enabled) := by
  unfold Machine.updateAccount
  split
  · split
    · exact restores_of_store rfl
    · split
      · exact restores_of_store rfl
      · dsimp only
        split
        · have hsame := saveRoutingMode_same m .auto
          refine Restores.andThen (fun _ _ _ => hsame) fun _ _ => ?_
          exact Restores.andThen (restores_save hsame) fun _ _ => restores_ok
        · exact Restores.andThen (restores_save ⟨rfl, rfl⟩) fun _ _ => restores_ok
  · exact restores_of_store rfl

theorem setThreadOwners_restores (m : Machine) (assignments : GoMap GoString) :
    Restores excused m.store (m.setThreadOwners assignments) := by
  unfold Machine.setThreadOwners
  split
  · exact restores_of_store rfl
  · dsimp only
    split
    · exact restores_save ⟨rfl, rfl⟩
    · exact restores_of_store rfl

theorem setRoutingMode_restores (m : Machine) (mode : RoutingMode) :
    Restores excused m.store (m.setRoutingMode mode) := by
  rcases setRoutingMode_cases m mode with ⟨_, hstore, _⟩ | ⟨_, hstore⟩ <;>
    exact fun _ _ _ => hstore ▸ ⟨rfl, rfl⟩

/-- The error of a removal that failed only to delete the quarantined directory. -/
def DiscardFailed (id : GoString) (e : Error) : Prop :=
  ∃ cause : Error, e = cause.wrap
    "account metadata removed but quarantined files at %q could not be deleted: " [id]

theorem removeHome_restores {m : Machine} {previous : Store} {id : GoString} (drawn : Bool)
    (h : m.store = withoutAccount previous id) (hsame : previous.accounts = before.accounts ∧
      previous.owners = before.owners) :
    Restores (DiscardFailed id) before (m.removeHome previous id drawn) := by
  unfold Machine.removeHome
  split
  · intro _ _ _
    rw [rollbackRemoval_store _ h]
    exact hsame
  · have hq := (perform_store m (.quarantine id)).trans h
    split
    · rename_i cause m' hr
      rw [hr] at hq
      intro _ _ _
      rw [rollbackRemoval_store _ hq]
      exact hsame
    · rename_i m' hr
      rcases hd : m'.perform (.discard id) with ⟨cause | _, m''⟩
      · intro e he hexcused
        obtain rfl := Except.error.inj he
        exact absurd ⟨cause, rfl⟩ hexcused
      · exact restores_ok

theorem removeAccount_restores (p : Platform) (m : Machine) (id : GoString) (drawn : Bool) :
    Restores (DiscardFailed id) m.store (m.removeAccount p id drawn) := by
  unfold Machine.removeAccount
  split
  · exact restores_of_store rfl
  · split
    · exact restores_of_store rfl
    · rename_i a _
      split
      · exact restores_of_store rfl
      · have hhome := validateSecondaryHome_store p m a
        refine Restores.andThen (restores_of_store hhome) fun _ _ => ?_
        set m₁ := (Result.wrap (m.validateSecondaryHome p a)
          "refuse to remove untrusted account home: ").2
        replace hhome : m₁.store = m.store := hhome
        have hfinish : ∀ m₂ : Machine, m₂.store.accounts = m.store.accounts ∧
            m₂.store.owners = m.store.owners → Restores (DiscardFailed id) m.store
              (({ m₂ with store := withoutAccount m₂.store id }.saveLocked.orElse
                fun e m => (.error e, { m with store := m₂.store })).andThen
                  fun _ m => m.removeHome m₂.store id drawn) := by
          intro m₂ hsame
          refine Restores.andThen (restores_save hsame) fun _ hok => ?_
          refine removeHome_restores drawn ?_ hsame
          have hsaved := saveLocked_store { m₂ with store := withoutAccount m₂.store id }
          rcases hr : { m₂ with store := withoutAccount m₂.store id }.saveLocked with ⟨e | _, m₃⟩
          · rw [hr] at hok
            cases hok
          · rw [hr] at hsaved ⊢
            exact hsaved
        split
        · have hsame := saveRoutingMode_same m₁ .auto
          rw [hhome] at hsame
          exact Restores.andThen (fun _ _ _ => hsame) fun _ _ => hfinish _ hsame
        · exact Restores.andThen (restores_of_store hhome) fun _ _ => hfinish _ (hhome ▸ ⟨rfl, rfl⟩)

theorem openStore_restores (p : Platform) (m : Machine) (primaryCodexHome : GoString) (now : ℤ) :
    Restores excused m.store (openStore p m primaryCodexHome now) := by
  unfold openStore
  split
  · exact restores_ok
  · exact restores_of_store rfl

end Restoring

/-! ## Runs -/

inductive Call where
  | openStore (primaryCodexHome : GoString) (now : ℤ)
  | addAccount (label : GoString) (draws : ℕ → Option (Vector UInt8 8)) (now : ℤ)
  | updateAccount (id : GoString) (label : Option GoString) (enabled : Option Bool)
  | setThreadOwners (assignments : GoMap GoString)
  | removeAccount (id : GoString) (drawn : Bool)
  | setRoutingMode (mode : RoutingMode)

def Call.perform (p : Platform) (m : Machine) : Call → Result Unit
  | .openStore primaryCodexHome now => StoreOpen.openStore p m primaryCodexHome now
  | .addAccount label draws now =>
    (m.addAccount p label draws now).andThen fun _ m => (.ok (), m)
  | .updateAccount id label enabled =>
    (m.updateAccount id label enabled).andThen fun _ m => (.ok (), m)
  | .setThreadOwners assignments => m.setThreadOwners assignments
  | .removeAccount id drawn => m.removeAccount p id drawn
  | .setRoutingMode mode => m.setRoutingMode mode

/-- The machine, and whether a store has been opened on it. -/
structure Session where
  machine : Machine
  opened : Bool

/-- A call, what the operating system says about paths, and the outcomes of the
file-system calls that it makes. -/
structure Event where
  call : Call
  platform : Platform
  outcomes : List (Option Fault)

def step (u : Session) (e : Event) : Option Session :=
  let result := e.call.perform e.platform (u.machine.facing e.outcomes)
  match e.call with
  | .openStore _ _ => some ⟨result.2, u.opened || result.1.isOk⟩
  | _ => if u.opened then some ⟨result.2, true⟩ else none

/-- The error of a removal that excuses it from putting the accounts back. -/
def Call.excused : Call → Error → Prop
  | .removeAccount id _ => DiscardFailed id
  | _ => fun _ => False

theorem Call.perform_restores (p : Platform) (m : Machine) (call : Call) :
    Restores call.excused m.store (call.perform p m) := by
  cases call with
  | openStore primaryCodexHome now => exact openStore_restores p m primaryCodexHome now
  | addAccount label draws now =>
    exact Restores.andThen (addAccount_restores p m label draws now) fun _ _ => restores_ok
  | updateAccount id label enabled =>
    exact Restores.andThen (updateAccount_restores m id label enabled) fun _ _ => restores_ok
  | setThreadOwners assignments => exact setThreadOwners_restores m assignments
  | removeAccount id drawn => exact removeAccount_restores p m id drawn
  | setRoutingMode mode => exact setRoutingMode_restores m mode

theorem andThen_unit_store {α : Type} (r : Result α) :
    (r.andThen fun _ m => ((.ok (), m) : Result Unit)).2.store = r.2.store := by
  obtain ⟨e | a, m⟩ := r <;> rfl

theorem Valid.perform {m : Machine} (h : Valid m.store) (p : Platform) (call : Call) :
    Valid (call.perform p m).2.store := by
  cases call with
  | openStore primaryCodexHome now =>
    cases hr : (openStore p m primaryCodexHome now).1 with
    | ok => exact openStore_valid hr
    | error e =>
      have hstore : (openStore p m primaryCodexHome now).2.store = m.store := by
        unfold openStore at hr ⊢
        split at hr
        · cases hr
        · rfl
      exact hstore ▸ h
  | addAccount label draws now =>
    rw [Call.perform, andThen_unit_store]
    exact h.addAccount p label draws now
  | updateAccount id label enabled =>
    rw [Call.perform, andThen_unit_store]
    exact h.updateAccount id label enabled
  | setThreadOwners assignments => exact h.setThreadOwners assignments
  | removeAccount id drawn => exact h.removeAccount p id drawn
  | setRoutingMode mode => exact h.setRoutingMode mode

theorem step_valid {u v : Session} {e : Event} (h : u.opened = true → Valid u.machine.store)
    (hs : Fires step u e v) : v.opened = true → Valid v.machine.store := by
  obtain ⟨call, p, outcomes⟩ := e
  cases call with
  | openStore primaryCodexHome now =>
    cases hs
    intro ho
    rcases Bool.or_eq_true_iff.mp ho with ho | hok
    · exact (h ho).perform (m := u.machine.facing outcomes) p (.openStore primaryCodexHome now)
    · cases hr : (openStore p (u.machine.facing outcomes) primaryCodexHome now).1 with
      | ok => exact openStore_valid hr
      | error e =>
        simp only [Call.perform, hr] at hok
        cases hok
  | _ =>
    simp only [Fires, step] at hs
    split at hs
    · rename_i ho
      cases hs
      exact fun _ => (h ho).perform (m := u.machine.facing outcomes) p _
    · cases hs

theorem opened_valid {m : Machine} {u : Session} {events : List Event}
    (h : Runs (Fires step) ⟨m, false⟩ events u) : u.opened = true → Valid u.machine.store :=
  h.invariant (I := fun u => u.opened = true → Valid u.machine.store) (fun hf => nomatch hf)
    fun _ _ _ hi hs => step_valid hi hs

/-- After any calls, a store that has been opened is valid, and whatever is called next
either succeeds, or leaves the accounts and the owners as they are, or is a removal that
failed only to delete the quarantined directory. -/
theorem runs_stay_valid {m : Machine} {u : Session} {events : List Event}
    (h : Runs (Fires step) ⟨m, false⟩ events u) (ho : u.opened = true) :
    Valid u.machine.store ∧ ∀ p outcomes (call : Call),
      Restores call.excused u.machine.store (call.perform p (u.machine.facing outcomes)) :=
  ⟨opened_valid h ho, fun p _ call => call.perform_restores p _⟩

def emptyMachine : Machine := ⟨⟨[], [], ∅, .auto⟩, ⟨none, none, [], []⟩, [], []⟩

def succeeding (call : Call) : Event := ⟨call, plainPlatform, []⟩

/-- The store is opened, an account is added and selected, and the store is opened again. -/
theorem runs_stay_valid_reopened : ∃ u : Session, Valid u.machine.store ∧
    u.machine.store.accounts.length = 2 ∧
    u.machine.store.routingMode = ⟨lit "account", lit "0000000000000000"⟩ := by
  have h : (exec step ⟨emptyMachine, false⟩
      [succeeding (.openStore (lit "/home") 0),
        succeeding (.addAccount (lit "Work") (fun _ => some (Vector.replicate 8 0)) 1),
        succeeding (.setRoutingMode ⟨lit "account", lit "0000000000000000"⟩),
        succeeding (.openStore (lit "/home") 2)]).any
      (fun u => u.opened = true ∧ u.machine.store.accounts.length = 2 ∧
        u.machine.store.routingMode = ⟨lit "account", lit "0000000000000000"⟩) = true := by
    decide +kernel
  obtain ⟨u, hr, hu⟩ := runs_of_exec_any h
  obtain ⟨ho, haccounts, hmode⟩ := of_decide_eq_true hu
  exact ⟨u, (runs_stay_valid hr ho).1, haccounts, hmode⟩

end SubscriptionRouter.StoreInvariant
