import Mathlib
import SubscriptionRouter.StateFile
import SubscriptionRouter.StoreInvariant

set_option autoImplicit false

/-!
# What the loader takes

The files of a store are written by one piece of code and checked by another. `Opens`
says that files open as a given store; a store that is sound and whose state file can be
read back opens as itself.
-/
namespace SubscriptionRouter.StoreReopen
open GoText JsonText StoreState StoreOpen StoreInvariant StateFile Tallies

/-! ## File-system calls -/

/-- What `n` file-system calls leave of `m`: the steps `l` took effect, and the store is `s`. -/
def after (m : Machine) (n : ℕ) (l : List FsStep) (s : Store) : Machine where
  store := s
  disk := l.foldl Disk.apply m.disk
  steps := m.steps ++ l
  outcomes := m.outcomes.drop n

/-- The file-system call number `i` from here fails. -/
def failing (outcomes : List (Option Fault)) (i : ℕ) : Bool := (outcomes[i]?).join.isSome

section Calls
variable {m : Machine}

theorem after_after (n k : ℕ) (l l' : List FsStep) (s s' : Store) :
    after (after m n l s) k l' s' = after m (n + k) (l ++ l') s' := by
  simp only [after, List.foldl_append, List.append_assoc, List.drop_drop]

theorem after_zero : after m 0 [] m.store = m := by
  simp only [after, List.foldl_nil, List.append_nil, List.drop_zero]

theorem after_quiet (h : m.outcomes = []) (n : ℕ) : after m n [] m.store = m := by
  obtain ⟨store, disk, steps, outcomes⟩ := m
  subst h
  simp only [after, List.foldl_nil, List.append_nil, List.drop_nil]

theorem failing_drop (outcomes : List (Option Fault)) (n i : ℕ) :
    failing (outcomes.drop n) i = failing outcomes (n + i) := by
  rw [failing, failing, List.getElem?_drop]

theorem probe_succeeds (h : failing m.outcomes 0 = false) :
    m.probe = (.ok (), after m 1 [] m.store) := by
  obtain ⟨store, disk, steps, _ | ⟨_ | fault, rest⟩⟩ := m
  · simp [Machine.probe, after]
  · simp [Machine.probe, after]
  · simp [failing] at h

theorem probe_fails (h : failing m.outcomes 0 = true) :
    ∃ fault, some fault ∈ m.outcomes ∧ m.probe = (.error fault.error, after m 1 [] m.store) := by
  obtain ⟨store, disk, steps, _ | ⟨_ | fault, rest⟩⟩ := m
  · simp [failing] at h
  · simp [failing] at h
  · exact ⟨fault, List.mem_cons_self, by simp [Machine.probe, after]⟩

theorem perform_succeeds (h : failing m.outcomes 0 = false) (step : FsStep) :
    m.perform step = (.ok (), after m 1 [step] m.store) := by
  obtain ⟨store, disk, steps, _ | ⟨_ | fault, rest⟩⟩ := m
  · simp [Machine.perform, after]
  · simp [Machine.perform, after]
  · simp [failing] at h

/-- No failing call takes effect. -/
def Atomic (outcomes : List (Option Fault)) : Prop :=
  ∀ fault, some fault ∈ outcomes → fault.applied = false

theorem Atomic.drop {outcomes : List (Option Fault)} (h : Atomic outcomes) (n : ℕ) :
    Atomic (outcomes.drop n) := fun fault hf => h fault (List.mem_of_mem_drop hf)

theorem perform_fails (h : failing m.outcomes 0 = true) (ha : Atomic m.outcomes) (step : FsStep) :
    ∃ e, m.perform step = (.error e, after m 1 [] m.store) := by
  obtain ⟨store, disk, steps, _ | ⟨_ | fault, rest⟩⟩ := m
  · simp [failing] at h
  · simp [failing] at h
  · have happlied : fault.applied = false := ha fault List.mem_cons_self
    exact ⟨fault.error, by simp [Machine.perform, after, happlied]⟩

theorem probe_ok (h : m.probe.1 = .ok ()) : m.probe = (.ok (), after m 1 [] m.store) := by
  cases hf : failing m.outcomes 0 with
  | false => exact probe_succeeds hf
  | true =>
    obtain ⟨fault, _, hprobe⟩ := probe_fails hf
    rw [hprobe] at h
    cases h

theorem perform_done {step : FsStep} (h : (m.perform step).1 = .ok ()) :
    m.perform step = (.ok (), after m 1 [step] m.store) := by
  cases hf : failing m.outcomes 0 with
  | false => exact perform_succeeds hf step
  | true =>
    obtain ⟨store, disk, steps, _ | ⟨_ | fault, rest⟩⟩ := m
    · simp [failing] at hf
    · simp [failing] at hf
    · cases h

theorem wrap_pair {α : Type} {r : Result α} {a : α} {m' : Machine} (h : r = (.ok a, m'))
    (format : String) (args : List GoString) : Result.wrap r format args = (.ok a, m') := by
  rw [h]
  rfl

theorem probeAll_after (m : Machine) (checks : List (String × List GoString)) :
    ∃ r n, m.probeAll checks = (r, after m n [] m.store) ∧ (r = .ok () → n = checks.length) := by
  induction checks generalizing m with
  | nil => exact ⟨.ok (), 0, by rw [after_zero]; rfl, fun _ => rfl⟩
  | cons check checks ih =>
    rw [Machine.probeAll]
    cases hf : failing m.outcomes 0 with
    | true =>
      obtain ⟨fault, _, hprobe⟩ := probe_fails hf
      rw [hprobe]
      exact ⟨.error (fault.error.wrap check.1 check.2), 1, rfl, nofun⟩
    | false =>
      rw [wrap_pair (probe_succeeds hf), Result.andThen]
      obtain ⟨r, n, hrest, hn⟩ := ih (after m 1 [] m.store)
      refine ⟨r, 1 + n, ?_, fun hr => ?_⟩
      · rw [hrest]
        exact congrArg _ (after_after 1 n [] [] m.store m.store)
      · rw [hn hr, List.length_cons]
        omega

theorem probeAll_quiet (h : m.outcomes = []) (checks : List (String × List GoString)) :
    m.probeAll checks = (.ok (), m) := by
  induction checks with
  | nil => rfl
  | cons check checks ih =>
    have hprobe := probe_succeeds (m := m) (by rw [h]; rfl)
    rw [after_quiet h] at hprobe
    rw [Machine.probeAll, wrap_pair hprobe]
    exact ih

end Calls

/-! ## Accounts and owners -/

def settledHome (p : Platform) (home : GoString) (a : Account) : GoString :=
  if a.id = lit "primary" then home else p.canonicalHome a.id

def settle (p : Platform) (home : GoString) (a : Account) : Account :=
  { a with codexHome := settledHome p home a }

/-- The check on an account's home. -/
def HomeTaken (p : Platform) (home : GoString) (homes : List GoString) (a : Account) : Prop :=
  if a.id = lit "primary" then a.controller = true ∧ p.samePath a.codexHome home = true
  else p.managedHome a.codexHome a.id = true ∧ a.id ∈ homes

/-- The checks on an account by itself, without its home. -/
structure WellFormed (a : Account) : Prop where
  id : validAccountID a.id = true
  trimmed : trimSpace a.label ≠ [] ∧ a.label = trimSpace a.label
  label : validLabel a.label = true
  clock : 0 ≤ a.createdAt
  on : a.controller = true → a.enabled = true

structure Acceptable (p : Platform) (home : GoString) (homes : List GoString) (a : Account) :
    Prop extends WellFormed a where
  home : HomeTaken p home homes a

section Loading
variable {p : Platform} {home : GoString} {m : Machine}

theorem checkHome_taken {a : Account} {r : GoString} (h : (checkHome p home m a).1 = .ok r) :
    HomeTaken p home m.disk.homes a ∧ r = settledHome p home a ∧
      ∃ n, (checkHome p home m a).2 = after m n [] m.store := by
  unfold checkHome at h ⊢
  by_cases hid : a.id = lit "primary"
  · rw [if_pos hid] at h ⊢
    split at h
    · cases h
    · rename_i hcontroller
      rw [if_neg hcontroller]
      split at h
      · cases h
      · rename_i hpath
        rw [if_neg hpath]
        refine ⟨?_, ?_, 0, after_zero.symm⟩
        · rw [HomeTaken, if_pos hid]
          exact ⟨by simpa using hcontroller, by simpa using hpath⟩
        · rw [settledHome, if_pos hid]
          exact (Except.ok.inj h).symm
  · rw [if_neg hid] at h ⊢
    unfold Machine.validateSecondaryHome at h ⊢
    split at h
    · cases h
    · rename_i hmanaged
      rw [if_neg hmanaged]
      split at h
      · cases h
      · rename_i hexists
        rw [if_neg hexists]
        obtain ⟨_, _, hnext⟩ := andThen_ok h
        rw [hnext] at h ⊢
        obtain ⟨r', n, hprobes, _⟩ := probeAll_after m [("inspect account %q home: ", [a.id]),
          ("account %q home is not trusted: ", [a.id]), ("canonicalize account %q home: ", [a.id])]
        refine ⟨?_, ?_, n, by rw [hprobes]⟩
        · rw [HomeTaken, if_neg hid]
          exact ⟨by simpa using hmanaged, by simpa using hexists⟩
        · rw [settledHome, if_neg hid]
          exact (Except.ok.inj h).symm

theorem checkHome_quiet (hm : m.outcomes = []) {a : Account} (h : HomeTaken p home m.disk.homes a) :
    checkHome p home m a = (.ok (settledHome p home a), m) := by
  unfold checkHome
  by_cases hid : a.id = lit "primary"
  · rw [HomeTaken, if_pos hid] at h
    rw [if_pos hid, if_neg (by simp [h.1]), if_neg (by simp [h.2]), settledHome, if_pos hid]
  · rw [HomeTaken, if_neg hid] at h
    rw [if_neg hid, Machine.validateSecondaryHome, if_neg (by simp [h.1]), if_neg (not_not.mpr h.2),
      probeAll_quiet hm, settledHome, if_neg hid]
    rfl

/-- An account list as the loader takes it, and what it makes of it. -/
theorem validateAccounts_taken {accounts loaded : List Account} {index : ℕ} {seen : List GoString}
    (h : (validateAccounts p home m index seen accounts).1 = .ok loaded) :
    (∀ a ∈ accounts, Acceptable p home m.disk.homes a ∧ asciiLower a.id ∉ seen) ∧
      (accounts.map fun a => asciiLower a.id).Nodup ∧ loaded = accounts.map (settle p home) ∧
      ∃ n, (validateAccounts p home m index seen accounts).2 = after m n [] m.store := by
  induction accounts generalizing m index seen loaded with
  | nil =>
    obtain rfl := Except.ok.inj h
    exact ⟨nofun, List.nodup_nil, rfl, 0, after_zero.symm⟩
  | cons a rest ih =>
    rw [validateAccounts] at h ⊢
    split at h
    · cases h
    · rename_i hcheck
      obtain ⟨hid, hseen, htrimmed, hlabel, hclock, hon⟩ := checkAccount_ok_iff.mp hcheck
      obtain ⟨r, hhome, hnext⟩ := andThen_ok h
      obtain ⟨htaken, rfl, n, hafter⟩ := checkHome_taken hhome
      rw [hnext] at h ⊢
      obtain ⟨tail, htail, hnext⟩ := andThen_ok h
      rw [hnext] at h ⊢
      obtain rfl := Except.ok.inj h
      obtain ⟨hall, hnodup, rfl, k, hrest⟩ := ih htail
      have hdisk : (checkHome p home m a).2.disk = m.disk := by
        rw [hafter]
        rfl
      refine ⟨fun b hb => ?_, ?_, rfl, n + k, ?_⟩
      · rcases List.mem_cons.mp hb with rfl | hb
        · exact ⟨⟨⟨hid, htrimmed, hlabel, hclock, hon⟩, htaken⟩, hseen⟩
        · rw [hdisk] at hall
          exact ⟨(hall b hb).1, fun hmem => (hall b hb).2 (List.mem_cons_of_mem _ hmem)⟩
      · refine List.nodup_cons.mpr ⟨fun hmem => ?_, hnodup⟩
        obtain ⟨b, hb, heq⟩ := List.mem_map.mp hmem
        exact (hall b hb).2 (heq ▸ List.mem_cons_self)
      · dsimp only
        rw [hrest, hafter]
        exact after_after n k [] [] m.store m.store

theorem validateAccounts_quiet (hm : m.outcomes = []) {accounts : List Account}
    (hall : ∀ a ∈ accounts, Acceptable p home m.disk.homes a)
    (hnodup : (accounts.map fun a => asciiLower a.id).Nodup) {seen : List GoString}
    (hseen : ∀ a ∈ accounts, asciiLower a.id ∉ seen) (index : ℕ) :
    validateAccounts p home m index seen accounts = (.ok (accounts.map (settle p home)), m) := by
  induction accounts generalizing index seen with
  | nil => rfl
  | cons a rest ih =>
    obtain ⟨⟨hid, htrimmed, hlabel, hclock, hon⟩, htaken⟩ := hall a List.mem_cons_self
    obtain ⟨hfresh, hnodup⟩ := List.nodup_cons.mp hnodup
    rw [validateAccounts, checkAccount_ok_iff.mpr
      ⟨hid, hseen a List.mem_cons_self, htrimmed, hlabel, hclock, hon⟩]
    dsimp only
    rw [checkHome_quiet hm htaken, Result.andThen]
    rw [ih (fun b hb => hall b (List.mem_cons_of_mem a hb)) hnodup]
    · rfl
    · intro b hb hmem
      rcases List.mem_cons.mp hmem with heq | hmem
      · exact hfresh (List.mem_map.mpr ⟨b, hb, heq⟩)
      · exact hseen b (List.mem_cons_of_mem a hb) hmem

/-- What the loader demands of the accounts and owners of a state file. -/
structure Accepts (p : Platform) (home : GoString) (homes : List GoString) (accounts : List Account)
    (owners : GoMap GoString) : Prop where
  count : accounts.length ≤ maxAccounts
  each : ∀ a ∈ accounts, Acceptable p home homes a
  distinct : (accounts.map fun a => asciiLower a.id).Nodup
  primary : accounts.countP (·.id = lit "primary") = 1
  controller : accounts.countP (·.controller) = 1
  apart : sharedHome p (accounts.map (settle p home)) = none
  threads : ∀ e ∈ owners.toList, validThreadID e.1 = true ∧ accounts.any (·.id = e.2) = true

theorem countP_settle (q : Account → Bool) (hq : ∀ a, q (settle p home a) = q a)
    (accounts : List Account) : (accounts.map (settle p home)).countP q = accounts.countP q := by
  rw [List.countP_map]
  exact List.countP_congr fun a _ => by rw [Function.comp_apply, hq]

theorem any_settle (accounts : List Account) (id : GoString) :
    (accounts.map (settle p home)).any (·.id = id) = accounts.any (·.id = id) := by
  rw [List.any_map]
  rfl

theorem validate_taken {persisted : PersistedState} {loaded : List Account × GoMap GoString}
    (h : (validatePersistedState p home m persisted).1 = .ok loaded) :
    persisted.version = 1 ∧
      Accepts p home m.disk.homes persisted.accounts persisted.threadOwner ∧
      loaded = (persisted.accounts.map (settle p home), persisted.threadOwner) ∧
      ∃ n, (validatePersistedState p home m persisted).2 = after m n [] m.store := by
  unfold validatePersistedState at h ⊢
  split at h
  · cases h
  · rename_i hversion
    rw [if_neg hversion]
    split at h
    · cases h
    · rename_i hempty
      rw [if_neg hempty]
      split at h
      · cases h
      · rename_i hcount
        rw [if_neg hcount]
        obtain ⟨accounts, haccounts, hnext⟩ := andThen_ok h
        obtain ⟨hall, hnodup, rfl, n, hafter⟩ := validateAccounts_taken haccounts
        rw [hnext] at h ⊢
        dsimp only at h ⊢
        rw [countP_settle _ fun _ => rfl, countP_settle _ fun _ => rfl] at h ⊢
        split at h
        · cases h
        · rename_i hprimary
          rw [if_neg hprimary]
          split at h
          · cases h
          · rename_i hcontroller
            rw [if_neg hcontroller]
            split at h
            · cases h
            · rename_i hapart
              split at h
              · cases h
              · rename_i howners
                obtain rfl := Except.ok.inj h
                refine ⟨not_not.mp hversion, ⟨not_lt.mp hcount, fun a ha => (hall a ha).1, hnodup,
                  not_not.mp hprimary, not_not.mp hcontroller, hapart, fun e he => ?_⟩, rfl, n, hafter⟩
                have howner := checkOwners_ok_iff.mp howners e he
                rw [any_settle] at howner
                exact howner

theorem validate_quiet (hm : m.outcomes = []) {accounts : List Account} {owners : GoMap GoString}
    (h : Accepts p home m.disk.homes accounts owners) :
    validatePersistedState p home m ⟨1, accounts, owners⟩ =
      (.ok (accounts.map (settle p home), owners), m) := by
  have hne : accounts ≠ [] := by
    rintro rfl
    cases h.primary
  rw [validatePersistedState, if_neg (not_not.mpr rfl), if_neg hne, if_neg (not_lt.mpr h.count),
    validateAccounts_quiet hm h.each h.distinct (fun _ _ => List.not_mem_nil), Result.andThen]
  dsimp only
  rw [countP_settle _ fun _ => rfl, countP_settle _ fun _ => rfl,
    if_neg (not_not.mpr h.primary), if_neg (not_not.mpr h.controller), h.apart]
  dsimp only
  rw [checkOwners_ok_iff.mpr fun e he => by rw [any_settle]; exact h.threads e he]

end Loading

/-! ## Files that open -/

/-- The state file holds these accounts and owners, up to the homes. -/
def Loads (p : Platform) (home : GoString) (d : Disk) (accounts : List Account)
    (owners : GoMap GoString) : Prop :=
  ∃ data persisted, d.stateFile = some data ∧ data.length ≤ maxStateFileSize ∧
    decodePersistedState data = some ⟨1, persisted, owners⟩ ∧
    Accepts p home d.homes persisted owners ∧ accounts = persisted.map (settle p home)

/-- The routing mode that is on disk. -/
def ModeFile (d : Disk) (mode : RoutingMode) : Prop :=
  d.routingModeFile = none ∧ mode = .auto ∨
    ∃ data, d.routingModeFile = some data ∧ data.length ≤ maxRoutingModeFileSize ∧
      decodeRoutingMode data = some (1, mode) ∧ mode.validate = true

/-- The files open as the store `s`. -/
structure Opens (p : Platform) (d : Disk) (s : Store) : Prop where
  home : trimSpace s.primaryCodexHome ≠ []
  state : Loads p s.primaryCodexHome d s.accounts s.owners
  mode : ModeFile d s.routingMode
  routable : s.routingMode.mode = lit "account" → s.enabled s.routingMode.accountID = true

theorem secureHome_quiet {p : Platform} {home : GoString} {m : Machine} (hm : m.outcomes = [])
    (accounts : List Account) :
    m.probeAll (accounts.flatMap (secureHome p home)) = (.ok (), m) := probeAll_quiet hm _

theorem probe_quiet {m : Machine} (hm : m.outcomes = []) : m.probe = (.ok (), m) := by
  have h := probe_succeeds (m := m) (by rw [hm]; rfl)
  rwa [after_quiet hm] at h

theorem loadRoutingMode_quiet {m : Machine} {mode : RoutingMode} (hm : m.outcomes = [])
    (hmode : ModeFile m.disk mode)
    (hroutable : mode.mode = lit "account" → m.store.enabled mode.accountID = true) :
    loadRoutingMode m = (.ok (), { m with store := { m.store with routingMode := mode } }) := by
  unfold loadRoutingMode
  dsimp only
  rw [probe_quiet (m := { m with store := { m.store with routingMode := .auto } }) hm]
  dsimp only
  rcases hmode with ⟨hnone, rfl⟩ | ⟨data, hdata, hsize, hdecode, hvalid⟩
  · rw [hnone]
  · rw [hdata]
    dsimp only
    rw [if_neg (not_lt.mpr hsize),
      probeAll_quiet (m := { m with store := { m.store with routingMode := .auto } }) hm,
      Result.andThen]
    dsimp only
    rw [hdecode]
    dsimp only
    rw [if_neg (not_not.mpr rfl), if_neg (by simp [hvalid]), if_neg]
    rintro ⟨haccount, hoff⟩
    have hon : m.store.enabled mode.accountID = true := hroutable haccount
    rw [show m.store.enabled mode.accountID = false from hoff] at hon
    cases hon

theorem Opens.openStore {p : Platform} {m : Machine} {s : Store} (h : Opens p m.disk s)
    (hm : m.outcomes = []) (now : ℤ) :
    openStore p m s.primaryCodexHome now = (.ok (), { m with store := s }) := by
  obtain ⟨hhome, ⟨data, persisted, hdata, hsize, hdecode, haccepts, haccounts⟩, hmode, hroutable⟩ := h
  have hread : readPersistedState m = (.ok ⟨1, persisted, s.owners⟩, m) := by
    rw [readPersistedState, probe_quiet hm, Result.andThen, hdata]
    dsimp only
    rw [wrap_pair (probe_quiet hm), Result.andThen, if_neg (not_lt.mpr hsize), probe_quiet hm, Result.andThen]
    rw [hdecode]
  have hload : loadState p s.primaryCodexHome now m = (.ok (s.accounts, s.owners), m) := by
    rw [loadState, hread]
    dsimp only
    rw [wrap_pair (probe_quiet hm), Result.andThen, wrap_pair (validate_quiet hm haccepts),
      haccounts]
  have hopening : opening p m s.primaryCodexHome now = (.ok (), { m with store := s }) := by
    rw [opening, probeAll_quiet hm, Result.andThen]
    dsimp only
    rw [if_neg hhome, probe_quiet hm, Result.andThen, hload, Result.andThen]
    dsimp only
    rw [secureHome_quiet (m := { m with store := ⟨s.primaryCodexHome, s.accounts, s.owners, .auto⟩ }) hm,
      Result.andThen, wrap_pair (loadRoutingMode_quiet
      (m := { m with store := ⟨s.primaryCodexHome, s.accounts, s.owners, .auto⟩ }) hm hmode hroutable)]
  rw [StoreOpen.openStore, hopening]

theorem Opens.valid {p : Platform} {d : Disk} {s : Store} (h : Opens p d s) : Valid s := by
  have hopen := h.openStore (m := ⟨s, d, [], []⟩) rfl 0
  have hvalid : Valid (StoreOpen.openStore p ⟨s, d, [], []⟩ s.primaryCodexHome 0).2.store :=
    openStore_valid (by rw [hopen])
  rwa [hopen] at hvalid

/-! ## What `Open` leaves -/

/-- A file is said not to exist only if it does not. -/
def Honest (outcomes : List (Option Fault)) : Prop :=
  ∀ fault, some fault ∈ outcomes → isNotExist fault.error = false

theorem Honest.drop {outcomes : List (Option Fault)} (h : Honest outcomes) (n : ℕ) :
    Honest (outcomes.drop n) := fun fault hf => h fault (List.mem_of_mem_drop hf)

theorem isNotExist_args (format : String) (args : List GoString) :
    isNotExist ⟨format, args⟩ = isNotExist ⟨format, []⟩ := rfl

theorem isNotExist_wrap {e : Error}
    (h : isNotExist (e.wrap "state path is not trusted: ") = true) : isNotExist e = true := by
  have hapart : ∀ l ∈ errNotExist.format.toList.inits,
      l <:+ "state path is not trusted: ".toList → l = [] := by decide
  simp only [isNotExist, Error.wrap, decide_eq_true_eq, String.toList_append] at h ⊢
  obtain ⟨t, ht⟩ := h
  rcases List.append_eq_append_iff.mp ht with ⟨l, hcontext, htext⟩ | ⟨l, _, htext⟩
  · have hnil := hapart l (List.mem_inits _ _ |>.mpr ⟨_, htext.symm⟩) ⟨t, hcontext.symm⟩
    rw [htext, hnil]
    exact List.suffix_rfl
  · exact ⟨l, htext.symm⟩

section Inversion
variable {p : Platform} {home : GoString} {now : ℤ} {m : Machine}

theorem readPersistedState_taken {persisted : PersistedState} {m' : Machine}
    (h : readPersistedState m = (.ok persisted, m')) :
    ∃ data, m.disk.stateFile = some data ∧ data.length ≤ maxStateFileSize ∧
      decodePersistedState data = some persisted ∧ ∃ n, m' = after m n [] m.store := by
  unfold readPersistedState at h
  obtain ⟨_, hprobe, hnext⟩ := andThen_ok (congrArg Prod.fst h)
  rw [hnext, probe_ok hprobe] at h
  dsimp only at h
  split at h
  · cases h
  · rename_i data hdata
    obtain ⟨_, htrusted, hnext⟩ := andThen_ok (congrArg Prod.fst h)
    rw [hnext, wrap_pair (probe_ok (wrap_ok htrusted))] at h
    dsimp only at h
    split at h
    · cases h
    · rename_i hsize
      obtain ⟨_, hprobe, hnext⟩ := andThen_ok (congrArg Prod.fst h)
      rw [hnext, probe_ok hprobe] at h
      dsimp only at h
      split at h
      · cases h
      · rename_i decoded hdecoded
        obtain ⟨hsame, hm'⟩ := Prod.mk.inj h
        obtain rfl := Except.ok.inj hsame
        refine ⟨data, hdata, not_lt.mp hsize, hdecoded, 1 + 1 + 1, ?_⟩
        rw [← hm']
        simp only [after_after, List.append_nil]
        rfl

theorem andThen_error {α β : Type} {r : Result α} {next : α → Machine → Result β} {e : Error}
    (h : (r.andThen next).1 = .error e) :
    r.1 = .error e ∨ ∃ a, r.1 = .ok a ∧ r.andThen next = next a r.2 := by
  obtain ⟨e' | a, m⟩ := r
  · exact .inl (congrArg Except.error (Except.error.inj h))
  · exact .inr ⟨a, rfl, rfl⟩

theorem wrap_error {α : Type} {r : Result α} {format : String} {args : List GoString} {e : Error}
    (h : (Result.wrap r format args).1 = .error e) :
    ∃ cause, r.1 = .error cause ∧ e = cause.wrap format args := by
  obtain ⟨cause | a, m⟩ := r
  · exact ⟨cause, rfl, (Except.error.inj h).symm⟩
  · cases h

theorem probe_honest {e : Error} (hhonest : Honest m.outcomes) (h : m.probe.1 = .error e) :
    isNotExist e = false := by
  cases hf : failing m.outcomes 0 with
  | false =>
    rw [probe_succeeds hf] at h
    cases h
  | true =>
    obtain ⟨fault, hmem, hprobe⟩ := probe_fails hf
    rw [hprobe] at h
    obtain rfl := Except.error.inj h
    exact hhonest fault hmem

theorem readPersistedState_missing {e : Error} (hhonest : Honest m.outcomes)
    (h : (readPersistedState m).1 = .error e) (he : isNotExist e = true) :
    m.disk.stateFile = none ∧ (readPersistedState m).2 = after m 1 [] m.store := by
  unfold readPersistedState at h ⊢
  rcases andThen_error h with herror | ⟨_, hprobe, hnext⟩
  · rw [probe_honest hhonest herror] at he
    cases he
  · rw [hnext, probe_ok hprobe] at h ⊢
    set m₁ := after m 1 [] m.store
    have hhonest₁ : Honest m₁.outcomes := hhonest.drop 1
    dsimp only at h ⊢
    split at h
    · rename_i hnone
      exact ⟨hnone, rfl⟩
    · exfalso
      rcases andThen_error h with herror | ⟨_, hprobe, hnext⟩
      · obtain ⟨cause, hcause, rfl⟩ := wrap_error herror
        have hnot := probe_honest hhonest₁ hcause
        rw [isNotExist_wrap he] at hnot
        cases hnot
      · rw [hnext, wrap_pair (probe_ok (wrap_ok hprobe))] at h
        dsimp only at h
        split at h
        · obtain rfl := Except.error.inj h
          rw [isNotExist_args] at he
          exact absurd he (by decide)
        · rcases andThen_error h with herror | ⟨_, hprobe, hnext⟩
          · have hnot := probe_honest (hhonest₁.drop 1) herror
            rw [he] at hnot
            cases hnot
          · rw [hnext, probe_ok hprobe] at h
            dsimp only at h
            split at h
            · obtain rfl := Except.error.inj h
              exact absurd he (by decide)
            · cases h

end Inversion

/-! ## Stores that can be written -/

/-- An account of a store that is open. -/
structure Kept (p : Platform) (home : GoString) (homes : List GoString) (a : Account) :
    Prop extends WellFormed a where
  settled : a.codexHome = settledHome p home a
  homed : a.id ≠ lit "primary" → a.id ∈ homes

/-- The loader would take everything in the store. -/
structure Sound (p : Platform) (homes : List GoString) (s : Store) : Prop where
  home : trimSpace s.primaryCodexHome ≠ []
  valid : Valid s
  count : s.accounts.length ≤ maxAccounts
  each : ∀ a ∈ s.accounts, Kept p s.primaryCodexHome homes a
  distinct : (s.accounts.map fun a => asciiLower a.id).Nodup
  apart : (s.accounts.map Account.codexHome).Pairwise fun x y => p.samePath x y = false
  threads : ∀ t owner : GoString, s.threadOwner t = some owner → validThreadID t = true

def readableHome (p : Platform) (home : GoString) (a : Account) : Bool :=
  if a.id = lit "primary" then p.samePath (toValid a.codexHome) home
  else p.managedHome (toValid a.codexHome) a.id

/-- The state file of the store is not too long, and its strings come back as they were. A
creation time is an `int64`. -/
def readable (p : Platform) (s : Store) : Bool :=
  (s.accounts.all fun a => validString a.label && decide (a.createdAt < 2 ^ 63) &&
    readableHome p s.primaryCodexHome a) &&
  (s.owners.toList.all fun e => validString e.1) &&
  decide ((stateContents s).length ≤ maxStateFileSize)

theorem sharedHome_none {p : Platform} {accounts : List Account} :
    sharedHome p accounts = none ↔
      (accounts.map Account.codexHome).Pairwise fun x y => p.samePath x y = false := by
  induction accounts with
  | nil => simp [sharedHome]
  | cons a rest ih =>
    rw [sharedHome, List.map_cons, List.pairwise_cons, ← ih, List.forall_mem_map]
    cases hfind : rest.find? fun b => p.samePath a.codexHome b.codexHome with
    | none =>
      have hapart : ∀ b ∈ rest, p.samePath a.codexHome b.codexHome = false := by
        simpa using List.find?_eq_none.mp hfind
      exact ⟨fun h => ⟨hapart, h⟩, And.right⟩
    | some b =>
      have hpath := List.find?_some (p := fun c : Account => p.samePath a.codexHome c.codexHome) hfind
      have hmem := List.mem_of_find?_eq_some hfind
      simp only [reduceCtorEq, false_iff, not_and]
      intro h
      simp only [h b hmem, Bool.false_eq_true] at hpath

theorem countP_eq_one_of_nodup {accounts : List Account} {id : GoString}
    (hnodup : (accounts.map Account.id).Nodup) (h : ∃ a ∈ accounts, a.id = id) :
    accounts.countP (·.id = id) = 1 := by
  obtain ⟨a, ha, rfl⟩ := h
  have hcount := List.count_eq_one_of_mem hnodup (List.mem_map_of_mem (f := Account.id) ha)
  rw [List.count, List.countP_map] at hcount
  rw [← hcount]
  exact List.countP_congr fun b _ => by simp

section Writing
variable {p : Platform} {d : Disk} {s : Store}

theorem Sound.homeTaken {homes : List GoString} (h : Sound p homes s) {a : Account}
    (ha : a ∈ s.accounts) (hread : readableHome p s.primaryCodexHome a = true) :
    HomeTaken p s.primaryCodexHome homes (asRead a) := by
  unfold StoreReopen.readableHome at hread
  by_cases hid : a.id = lit "primary"
  · rw [if_pos hid] at hread
    rw [HomeTaken, if_pos (show (asRead a).id = lit "primary" from hid)]
    exact ⟨(h.valid.controller a ha).mpr hid, hread⟩
  · rw [if_neg hid] at hread
    rw [HomeTaken, if_neg (show ¬ (asRead a).id = lit "primary" from hid)]
    exact ⟨hread, (h.each a ha).homed hid⟩

theorem Sound.map_settle {homes : List GoString} (h : Sound p homes s) :
    s.accounts.map (settle p s.primaryCodexHome ∘ asRead) = s.accounts := by
  refine (List.map_congr_left fun a ha => ?_).trans (List.map_id s.accounts)
  have hsettled : settledHome p s.primaryCodexHome (asRead a) = a.codexHome :=
    (h.each a ha).settled.symm
  rw [Function.comp_apply, settle, hsettled]
  rfl

/-- What a sound store writes is taken by the loader, if it can be read back. -/
theorem Sound.accepts {homes : List GoString} (h : Sound p homes s)
    (hread : ∀ a ∈ s.accounts, StoreReopen.readableHome p s.primaryCodexHome a = true) :
    Accepts p s.primaryCodexHome homes (s.accounts.map asRead) s.owners where
  count := by
    rw [List.length_map]
    exact h.count
  each := fun b hb => by
    obtain ⟨a, ha, rfl⟩ := List.mem_map.mp hb
    obtain ⟨hid, htrimmed, hlabel, hclock, hon⟩ := (h.each a ha).toWellFormed
    exact ⟨⟨hid, htrimmed, hlabel, hclock, hon⟩, h.homeTaken ha (hread a ha)⟩
  distinct := by
    rw [List.map_map]
    exact h.distinct
  primary := by
    obtain ⟨a, ha, hid, _⟩ := h.valid.primary
    rw [List.countP_map]
    exact countP_eq_one_of_nodup h.valid.ids ⟨a, ha, hid⟩
  controller := by
    obtain ⟨a, ha, hid, _⟩ := h.valid.primary
    rw [List.countP_map, ← countP_eq_one_of_nodup h.valid.ids ⟨a, ha, hid⟩]
    refine List.countP_congr fun b hb => ?_
    rw [decide_eq_true_eq]
    exact h.valid.controller b hb
  apart := by
    rw [List.map_map, h.map_settle, sharedHome_none]
    exact h.apart
  threads := fun e he => by
    have howner := Std.ExtTreeMap.mem_toList_iff_getElem?_eq_some.mp he
    refine ⟨h.threads e.1 e.2 howner, ?_⟩
    rw [List.any_map]
    exact h.valid.owners e.1 e.2 howner

theorem Sound.loads (h : Sound p d.homes s) (hread : readable p s = true)
    (hfile : d.stateFile = some (stateContents s)) :
    Loads p s.primaryCodexHome d s.accounts s.owners := by
  simp only [readable, Bool.and_eq_true, decide_eq_true_eq, List.all_eq_true] at hread
  obtain ⟨⟨haccounts, howners⟩, hsize⟩ := hread
  have hencodable : Encodable s := by
    refine ⟨fun a ha => ⟨validString_id (h.each a ha).id, (haccounts a ha).1.1⟩,
      fun a ha => ⟨(h.each a ha).clock, (haccounts a ha).1.2⟩, fun e he => ⟨howners e he, ?_⟩⟩
    have howner := h.valid.owners e.1 e.2 (Std.ExtTreeMap.mem_toList_iff_getElem?_eq_some.mp he)
    obtain ⟨a, ha, hid⟩ := accountExists_iff.mp howner
    rw [← hid]
    exact validString_id (h.each a ha).id
  refine ⟨stateContents s, s.accounts.map asRead, hfile, hsize, decode_stateContents hencodable,
    h.accepts fun a ha => (haccounts a ha).2, ?_⟩
  rw [List.map_map, h.map_settle]

theorem ModeFile.validate {mode : RoutingMode} (h : ModeFile d mode) : mode.validate = true := by
  rcases h with ⟨_, rfl⟩ | ⟨_, _, _, _, hvalid⟩
  · decide
  · exact hvalid

theorem Opens.sound (h : Opens p d s) : Sound p d.homes s := by
  obtain ⟨_, persisted, _, _, _, haccepts, haccounts⟩ := h.state
  refine ⟨h.home, h.valid, ?_, fun b hb => ?_, ?_, ?_, fun t owner ho => ?_⟩
  · rw [haccounts, List.length_map]
    exact haccepts.count
  · rw [haccounts] at hb
    obtain ⟨a, ha, rfl⟩ := List.mem_map.mp hb
    obtain ⟨⟨hid, htrimmed, hlabel, hclock, hon⟩, htaken⟩ := haccepts.each a ha
    refine ⟨⟨hid, htrimmed, hlabel, hclock, hon⟩, rfl, fun hne => ?_⟩
    rw [HomeTaken, if_neg (show ¬ a.id = lit "primary" from hne)] at htaken
    exact htaken.2
  · rw [haccounts, List.map_map]
    exact haccepts.distinct
  · rw [haccounts]
    exact sharedHome_none.mp haccepts.apart
  · exact (haccepts.threads (t, owner) (Std.ExtTreeMap.mem_toList_iff_getElem?_eq_some.mpr ho)).1

/-! ## One step of the disk -/

theorem Opens.writeState (h : Sound p d.homes s) (hread : readable p s = true)
    (hmode : ModeFile d s.routingMode) : Opens p (d.apply (.writeState (stateContents s))) s where
  home := h.home
  state := h.loads (d := d.apply (.writeState (stateContents s))) hread rfl
  mode := hmode
  routable := fun haccount => by
    rcases h.valid.mode with hauto | ⟨_, hon⟩
    · rw [hauto] at haccount
      exact absurd haccount auto_mode_ne
    · exact hon

theorem modeFile_written {mode : RoutingMode} (h : Selects mode) (hvalid : mode.validate = true) :
    ModeFile (d.apply (.writeRoutingMode (routingModeContents mode))) mode :=
  .inr ⟨routingModeContents mode, rfl, length_routingModeContents h, decode_routingModeContents h,
    hvalid⟩

theorem validate_auto : RoutingMode.auto.validate = true := by decide

theorem selects_of_enabled {homes : List GoString} (h : Sound p homes s) {mode : RoutingMode}
    (hvalid : mode.validate = true)
    (hon : mode.mode = lit "account" → s.enabled mode.accountID = true) : Selects mode := by
  by_cases haccount : mode.mode = lit "account"
  · obtain ⟨a, ha, hid, _⟩ := enabled_iff.mp (hon haccount)
    exact .inr ⟨haccount, hid ▸ (h.each a ha).id⟩
  · exact .inl (eq_auto_of_validate hvalid haccount)

theorem Opens.writeRoutingMode (h : Opens p d s) {mode : RoutingMode} (hvalid : mode.validate = true)
    (hon : mode.mode = lit "account" → s.enabled mode.accountID = true) :
    Opens p (d.apply (.writeRoutingMode (routingModeContents mode))) { s with routingMode := mode } where
  home := h.home
  state := h.state
  mode := modeFile_written (selects_of_enabled h.sound hvalid hon) hvalid
  routable := hon

theorem Opens.writeAuto (h : Opens p d s) :
    Opens p (d.apply (.writeRoutingMode (routingModeContents .auto))) { s with routingMode := .auto } :=
  h.writeRoutingMode validate_auto fun haccount => absurd haccount auto_mode_ne

theorem Opens.homes (h : Opens p d s) {d' : Disk} (hstate : d'.stateFile = d.stateFile)
    (hmode : d'.routingModeFile = d.routingModeFile)
    (hhomes : ∀ a ∈ s.accounts, a.id ∈ d.homes → a.id ∈ d'.homes) : Opens p d' s := by
  obtain ⟨hhome, ⟨data, persisted, hdata, hsize, hdecode, haccepts, haccounts⟩, hfile, hroutable⟩ := h
  obtain ⟨hcount, heach, hdistinct, hprimary, hcontroller, hapart, hthreads⟩ := haccepts
  refine ⟨hhome, ⟨data, persisted, hstate.trans hdata, hsize, hdecode, ⟨hcount, fun a ha => ?_,
    hdistinct, hprimary, hcontroller, hapart, hthreads⟩, haccounts⟩, ?_, hroutable⟩
  · obtain ⟨hwell, htaken⟩ := heach a ha
    refine ⟨hwell, ?_⟩
    unfold HomeTaken at htaken ⊢
    split at htaken
    · rename_i hid
      rw [if_pos hid]
      exact htaken
    · rename_i hid
      rw [if_neg hid]
      have hmem : settle p s.primaryCodexHome a ∈ s.accounts := by
        rw [haccounts]
        exact List.mem_map_of_mem ha
      exact ⟨htaken.1, hhomes (settle p s.primaryCodexHome a) hmem htaken.2⟩
  · unfold ModeFile
    rw [hmode]
    exact hfile

theorem Opens.createHome (h : Opens p d s) (id : GoString) : Opens p (d.apply (.createHome id)) s := by
  refine h.homes rfl rfl fun a _ hmem => ?_
  by_cases hid : a.id = id
  · rw [hid]
    exact List.mem_cons_self
  · exact List.mem_cons_of_mem id ((List.mem_erase_of_ne hid).mpr hmem)

theorem Opens.removeHome (h : Opens p d s) {id : GoString} (hfree : s.accountExists id = false) :
    Opens p (d.apply (.removeHome id)) s := by
  refine h.homes rfl rfl fun a ha hmem => (List.mem_erase_of_ne ?_).mpr hmem
  rintro rfl
  rw [accountExists_iff.mpr ⟨a, ha, rfl⟩] at hfree
  cases hfree

theorem Opens.quarantine (h : Opens p d s) {id : GoString} (hfree : s.accountExists id = false) :
    Opens p (d.apply (.quarantine id)) s :=
  (h.removeHome hfree).homes rfl rfl fun _ _ hmem => hmem

theorem Opens.discard (h : Opens p d s) (id : GoString) : Opens p (d.apply (.discard id)) s :=
  h.homes rfl rfl fun _ _ hmem => hmem

end Writing

/-! ## The store that `Open` returns -/

/-- The primary account can be written to a new state file. -/
def startable (p : Platform) (home : GoString) (now : ℤ) : Bool :=
  decide (0 ≤ now) && readable p ⟨home, [primaryAccount home now], ∅, .auto⟩

section Opening
variable {p : Platform} {home : GoString} {now : ℤ} {m : Machine}

theorem sound_primary {homes : List GoString} (hhome : trimSpace home ≠ []) (hnow : 0 ≤ now) :
    Sound p homes ⟨home, [primaryAccount home now], ∅, .auto⟩ where
  home := hhome
  valid := valid_primary home now
  count := by
    change 1 ≤ maxAccounts
    decide
  each := fun a ha => by
    obtain rfl := List.mem_singleton.mp ha
    refine ⟨⟨?_, ?_, ?_, hnow, fun _ => rfl⟩, ?_, fun hne => absurd rfl hne⟩
    · change validAccountID (lit "primary") = true
      decide
    · change trimSpace (lit "Primary") ≠ [] ∧ lit "Primary" = trimSpace (lit "Primary")
      decide
    · change validLabel (lit "Primary") = true
      decide
    · change home = settledHome p home (primaryAccount home now)
      rw [settledHome, if_pos (show (primaryAccount home now).id = lit "primary" from rfl)]
  distinct := List.nodup_singleton _
  apart := List.pairwise_singleton _ _
  threads := fun t owner ho => by simp [Store.threadOwner] at ho

theorem loadState_taken {loaded : List Account × GoMap GoString} (hhonest : Honest m.outcomes)
    (h : (loadState p home now m).1 = .ok loaded) :
    (∃ n, (loadState p home now m).2 = after m n [] m.store ∧ Loads p home m.disk loaded.1 loaded.2) ∨
      m.disk.stateFile = none ∧ loaded = ([primaryAccount home now], ∅) ∧
        ∃ n, (loadState p home now m).2 =
          after m n [.writeState (stateContents ⟨home, [primaryAccount home now], ∅, .auto⟩)]
            ⟨home, [primaryAccount home now], ∅, .auto⟩ := by
  unfold loadState at h ⊢
  split at h
  · rename_i persisted m₁ hread
    obtain ⟨data, hdata, hsize, hdecode, n, rfl⟩ := readPersistedState_taken hread
    left
    obtain ⟨_, hsecure, hnext⟩ := andThen_ok h
    rw [hnext] at h ⊢
    rw [wrap_pair (probe_ok (wrap_ok hsecure))] at h ⊢
    obtain ⟨hversion, haccepts, rfl, k, hafter⟩ := validate_taken (wrap_ok h)
    refine ⟨n + 1 + k, ?_, data, persisted.accounts, hdata, hsize, ?_, haccepts, rfl⟩
    · change (validatePersistedState _ _ _ _).2 = _
      rw [hafter]
      dsimp only
      rw [after_after, after_after, Nat.add_assoc]
      rfl
    · rw [hdecode, ← hversion]
  · rename_i e m₁ hread
    split at h
    · rename_i hmissing
      right
      obtain ⟨hnone, hafter⟩ := readPersistedState_missing hhonest (congrArg Prod.fst hread) hmissing
      have hm₁ : m₁ = after m 1 [] m.store := (congrArg Prod.snd hread).symm.trans hafter
      subst hm₁
      dsimp only at h ⊢
      rw [if_pos hmissing]
      obtain ⟨_, hsave, hnext⟩ := andThen_ok h
      rw [hnext] at h ⊢
      have hperform := perform_done (wrap_ok hsave)
      rw [Machine.saveLocked, wrap_pair hperform] at h ⊢
      obtain rfl := Except.ok.inj h
      refine ⟨hnone, rfl, 1 + 1, ?_⟩
      dsimp only
      simp only [after, List.foldl_cons, List.foldl_nil, List.append_nil, List.drop_drop]
    · cases h

theorem saveRoutingMode_done {mode : RoutingMode} (h : (m.saveRoutingModeLocked mode).1 = .ok ()) :
    m.saveRoutingModeLocked mode = (.ok (), after m 2 [.writeRoutingMode (routingModeContents mode)]
      { m.store with routingMode := mode }) := by
  unfold Machine.saveRoutingModeLocked at h ⊢
  obtain ⟨_, hprobe, hnext⟩ := andThen_ok h
  rw [hnext, probe_ok hprobe] at h ⊢
  dsimp only at h ⊢
  obtain ⟨_, hwrite, hnext⟩ := andThen_ok h
  rw [hnext, wrap_pair (perform_done (wrap_ok hwrite))]
  simp only [after, List.foldl_nil, List.append_nil, List.drop_drop]

/-- The routing mode of an opened store is the one on disk, once `Open` is through. -/
theorem loadRoutingMode_taken (hhonest : Honest m.outcomes) (h : (loadRoutingMode m).1 = .ok ()) :
    ∃ n mode, (mode.mode = lit "account" → m.store.enabled mode.accountID = true) ∧
      ((loadRoutingMode m).2 = after m n [] { m.store with routingMode := mode } ∧
          ModeFile m.disk mode ∨
        mode = .auto ∧ (loadRoutingMode m).2 = after m n
          [.writeRoutingMode (routingModeContents .auto)] { m.store with routingMode := .auto }) := by
  unfold loadRoutingMode at h ⊢
  dsimp only at h ⊢
  set m₀ : Machine := { m with store := { m.store with routingMode := .auto } }
  have hauto : RoutingMode.auto.mode = lit "account" →
      m.store.enabled RoutingMode.auto.accountID = true := fun haccount => absurd haccount auto_mode_ne
  split at h
  · rename_i e m₁ hprobe
    split at h
    · rename_i hmissing
      rw [probe_honest (m := m₀) hhonest (congrArg Prod.fst hprobe)] at hmissing
      cases hmissing
    · cases h
  · rename_i m₁ hprobe
    have hm₁ := congrArg Prod.snd (probe_ok (congrArg Prod.fst hprobe))
    rw [hprobe] at hm₁
    dsimp only at hm₁
    subst hm₁
    split at h
    · rename_i hnone
      exact ⟨1, .auto, hauto, .inl ⟨rfl, .inl ⟨hnone, rfl⟩⟩⟩
    · rename_i data hdata
      split at h
      · cases h
      · rename_i hsize
        rw [if_neg hsize]
        obtain ⟨_, hprobes, hnext⟩ := andThen_ok h
        rw [hnext] at h ⊢
        obtain ⟨r, n, hafter, _⟩ := probeAll_after (after m₀ 1 [] m₀.store)
          [("", []), ("", []), ("", [])]
        rw [hafter, after_after] at h ⊢
        dsimp only at h ⊢
        split at h
        · cases h
        · rename_i version mode hdecode
          split at h
          · cases h
          · rename_i hversion
            rw [if_neg hversion]
            split at h
            · cases h
            · rename_i hvalid
              rw [if_neg hvalid]
              have hone : version = 1 := not_not.mp hversion
              subst hone
              have hvalid : mode.validate = true := by simpa using hvalid
              split at h
              · rename_i hoff
                rw [if_pos hoff, saveRoutingMode_done h]
                exact ⟨1 + n + 2, .auto, hauto, .inr ⟨rfl, after_after (1 + n) 2 [] _ _ _⟩⟩
              · rename_i hon
                rw [if_neg hon]
                refine ⟨1 + n, mode, fun haccount => ?_, .inl ⟨rfl, .inr ⟨data, hdata,
                  not_lt.mp hsize, hdecode, hvalid⟩⟩⟩
                exact Bool.of_not_eq_false (not_and.mp hon haccount)

theorem opening_taken (hhonest : Honest m.outcomes)
    (h : (opening p m home now).1 = .ok ()) (hstart : m.disk.stateFile = none → startable p home now = true) :
    Opens p (opening p m home now).2.disk (opening p m home now).2.store := by
  unfold opening at h ⊢
  obtain ⟨_, _, hnext⟩ := andThen_ok h
  rw [hnext] at h ⊢
  obtain ⟨r, n, hafter, _⟩ := probeAll_after m [("create state root: ", []),
    ("validate state root: ", []), ("canonicalize state root: ", []), ("secure state root: ", [])]
  rw [hafter] at h ⊢
  dsimp only at h ⊢
  split at h
  · cases h
  · rename_i hhome
    rw [if_neg hhome]
    obtain ⟨_, hprobe, hnext⟩ := andThen_ok h
    rw [hnext, probe_ok hprobe, after_after] at h ⊢
    obtain ⟨loaded, hloaded, hnext⟩ := andThen_ok h
    rw [hnext] at h ⊢
    set m₁ := after m (n + 1) ([] ++ []) (after m n [] m.store).store with hm₁
    have hhonest₁ : Honest m₁.outcomes := hhonest.drop (n + 1)
    -- The accounts and the owners are those of the state file, which may be a new one.
    have hstate : ∃ k l, (loadState p home now m₁).2.outcomes = m₁.outcomes.drop k ∧
        (loadState p home now m₁).2.disk = l ∧ Loads p home l loaded.1 loaded.2 := by
      rcases loadState_taken hhonest₁ hloaded with ⟨k, hload, hloads⟩ | ⟨hnone, rfl, k, hload⟩
      · exact ⟨k, m₁.disk, by rw [hload]; rfl, by rw [hload]; rfl, hloads⟩
      · have hstart := hstart hnone
        simp only [startable, Bool.and_eq_true, decide_eq_true_eq] at hstart
        refine ⟨k, _, by rw [hload]; rfl, rfl, ?_⟩
        rw [hload]
        exact (sound_primary hhome hstart.1).loads hstart.2 rfl
    obtain ⟨k, _, houtcomes, rfl, hloads⟩ := hstate
    set m₂ := (loadState p home now m₁).2
    obtain ⟨_, hsecure, hnext⟩ := andThen_ok h
    rw [hnext] at h ⊢
    obtain ⟨r', n', hafter', _⟩ := probeAll_after { m₂ with store := ⟨home, loaded.1, loaded.2, .auto⟩ }
      (loaded.1.flatMap (secureHome p home))
    rw [hafter'] at h ⊢
    set opened : Store := ⟨home, loaded.1, loaded.2, .auto⟩
    set m₃ := after { m₂ with store := opened } n' [] opened
    have hhonest₃ : Honest m₃.outcomes := by
      change Honest (m₂.outcomes.drop n')
      rw [houtcomes]
      exact (hhonest₁.drop k).drop n'
    have hopens : ∀ mode, ModeFile m₂.disk mode →
        (mode.mode = lit "account" → opened.enabled mode.accountID = true) →
        Opens p m₂.disk { opened with routingMode := mode } := fun _ hmode hon =>
      ⟨hhome, hloads, hmode, hon⟩
    change Opens p (loadRoutingMode m₃).2.disk (loadRoutingMode m₃).2.store
    obtain ⟨n'', mode, hon, ⟨hload, hmode⟩ | ⟨rfl, hload⟩⟩ := loadRoutingMode_taken hhonest₃ (wrap_ok h)
    · rw [hload]
      exact hopens mode hmode hon
    · rw [hload]
      exact ⟨hhome, hloads, modeFile_written (.inl rfl) validate_auto, hon⟩

/-- What `Open` leaves on disk opens again as the store that it returned. -/
theorem openStore_taken (hhonest : Honest m.outcomes) (h : (openStore p m home now).1 = .ok ())
    (hstart : m.disk.stateFile = none → startable p home now = true) :
    Opens p (openStore p m home now).2.disk (openStore p m home now).2.store := by
  unfold openStore at h ⊢
  split at h
  · rename_i opened hr
    have hopens := opening_taken hhonest (congrArg Prod.fst hr) hstart
    rwa [hr] at hopens
  · cases h

end Opening

end SubscriptionRouter.StoreReopen
