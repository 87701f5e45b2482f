import Mathlib
import SubscriptionRouter.GoUrl
import SubscriptionRouter.PrivateFiles

set_option autoImplicit false

/-!
# The token of the control server

`loadOrCreateToken` reads the token of the state directory, or makes one that
`WritePrivateFileAtomic` writes. Each boot of the router calls it once, and so may several
goroutines of one process; the instance lock and `controlTokenMu` let one call in at a time. Other
files of the directory are written meanwhile. A process may be killed at any point, and the machine
may lose its power. `configured` is what `CODEX_MUX_CONTROL_TOKEN` is for the process of a call.
-/
namespace SubscriptionRouter.ControlToken
open DurableFiles GoText GoUrl PrivateFiles Transitions

/-- `hex.DecodeString`. -/
def decodeString : GoString → Option (List UInt8)
  | [] => some []
  | [_] => none
  | a :: b :: rest => do
    let high ← unhex a
    let low ← unhex b
    let decoded ← decodeString rest
    return UInt8.ofNat (16 * high + low) :: decoded

def validateControlToken (value : GoString) : Option GoString :=
  (decodeString (trimSpace value)).bind fun decoded =>
    if decoded.length = 32 then some (trimSpace value) else none

theorem decodeString_hexEncode (bytes : List UInt8) : decodeString (hexEncode bytes) = some bytes := by
  have hdigit : ∀ n < 16, unhex (hexDigit n) = some n := by decide
  have hbyte : ∀ b : UInt8, UInt8.ofNat (16 * (b.toNat / 16) + b.toNat % 16) = b := by
    intro b
    rw [Nat.div_add_mod, UInt8.ofNat_toNat]
  induction bytes with
  | nil => rfl
  | cons b bytes ih =>
    rw [hexEncode, List.flatMap_cons, List.cons_append, List.cons_append, List.nil_append, decodeString,
      hdigit _ (by have := b.toNat_lt; omega), hdigit _ (by omega)]
    rw [hexEncode] at ih
    simp only [Option.bind_eq_bind, Option.bind_some, ih, hbyte]
    rfl

theorem trimSpace_hexEncode (bytes : List UInt8) : trimSpace (hexEncode bytes) = hexEncode bytes := by
  have hdigit : ∀ n < 16, hexDigit n < 0x80 ∧ isSpace [hexDigit n] = false := by decide
  have hbytes : ∀ c ∈ hexEncode bytes, c < 0x80 ∧ isSpace [c] = false := by
    intro c hc
    obtain ⟨b, -, hc⟩ := List.mem_flatMap.mp hc
    have hb := b.toNat_lt
    rcases List.mem_cons.mp hc with rfl | hc
    · exact hdigit _ (by omega)
    · rw [List.mem_singleton.mp hc]
      exact hdigit _ (by omega)
  have hunits : ∀ u ∈ units (hexEncode bytes), isSpace u = false := by
    rw [units_ascii fun c hc => (hbytes c hc).1]
    intro u hu
    obtain ⟨c, hc, rfl⟩ := List.mem_map.mp hu
    exact (hbytes c hc).2
  exact trimSpace_eq_self (fun u hu => hunits u (List.mem_of_mem_head? hu))
    fun u hu => hunits u (List.mem_of_mem_getLast? hu)

theorem validate_hexEncode {secret : List UInt8} (h : secret.length = 32) :
    validateControlToken (hexEncode secret) = some (hexEncode secret) := by
  rw [validateControlToken, trimSpace_hexEncode, decodeString_hexEncode, Option.bind_some, if_pos h]

/-- Where a call of `loadOrCreateToken` is; `write` is also what a writer of another file does. -/
inductive Boot where
  | idle
  | getenv
  | lstat
  | secure
  | read
  | write (s : Stage)
  | returned (token : Option GoString)
  | killed
  deriving DecidableEq

inductive Event where
  | begin
  | passed
  | missing
  | failed
  | system (o : Outcome)
  | kill

structure Root (P : Type) where
  files : Directory P
  holder : Option ℕ

def Root.release {P : Type} (r : Root P) : Root P := { r with holder := none }

abbrev Host (P : Type) := Pool (Root P) Boot

/-- What the power takes from a call. -/
def Boot.stop : Boot → Boot
  | .idle => .idle
  | .returned token => .returned token
  | _ => .killed

/-- A call that has begun and goes on. -/
def Boot.busy : Boot → Bool
  | .idle | .returned _ | .killed => false
  | _ => true

section Path
variable {P : Type} {path : P}

/-- The file under a path stays, and what a crash could bring back there does not grow. -/
structure Stays (path : P) (f f' : Directory P) : Prop where
  entries : f'.entries (.path path) = f.entries (.path path)
  contents : f'.contents (.path path) = f.contents (.path path)
  recent : f.recent (.path path) = [] → f'.recent (.path path) = []

theorem stays_refl (path : P) (f : Directory P) : Stays path f f := ⟨rfl, rfl, id⟩

theorem stays_of_values {f f' : Directory P} (hvalues : f'.values (.path path) = f.values (.path path))
    (htext : f'.text (f.entries (.path path)) = f.text (f.entries (.path path))) : Stays path f f' := by
  obtain ⟨hentries, hrecent⟩ := List.cons.inj hvalues
  exact ⟨hentries, by rw [Files.contents, hentries, htext, Files.contents], fun h => hrecent.trans h⟩

theorem text_restrict (f : Directory P) (k : ℕ) (v : Option ℕ) : (f.restrict k).text v = f.text v := by
  cases v with
  | none => rfl
  | some j =>
    simp only [Files.text, Option.bind_some]
    by_cases hj : j = k
    · subst hj
      rw [Files.restrict, modify_inodes_self, Option.map_map]
      rfl
    · rw [Files.restrict, modify_inodes_other f hj]

theorem stays_restrict (f : Directory P) (k : ℕ) : Stays path f (f.restrict k) :=
  stays_of_values rfl (text_restrict f k _)

def tokenAt (path : P) (f : Directory P) : Option GoString :=
  (f.contents (.path path)).bind validateControlToken

theorem entries_ne_none {f : Directory P} {t : GoString} (h : tokenAt path f = some t) :
    f.entries (.path path) ≠ none := by
  intro hnone
  rw [tokenAt, Files.contents, hnone] at h
  cases h

theorem Stays.tokenAt {f f' : Directory P} (h : Stays path f f') :
    ControlToken.tokenAt path f' = ControlToken.tokenAt path f := by
  rw [ControlToken.tokenAt, h.contents, ControlToken.tokenAt]

theorem owned_modify {calls : ℕ → Call P} {f : Directory P} {k other : ℕ} {s : Stage}
    {g : Inode → Inode} {p : P}
    (hk : f.entries (.path p) = some k) (h : Owned calls other f s) :
    Owned calls other (f.modify k g) s := by
  intro j x hj
  obtain ⟨hentry, hinode, hothers⟩ := h j x hj
  refine ⟨hentry, ?_, hothers⟩
  rw [modify_inodes_other f _ g, hinode]
  rintro rfl
  exact hothers (.path p) (path_ne_temporary p other) (hk ▸ mem_values_self f _)

/-- A crash takes nothing from a path whose entry is on the device. -/
theorem stays_of_crash {f g : Directory P} (hg : Crash f g) (hf : Sound f)
    (hrecent : f.recent (.path path) = []) : Stays path f g := by
  have hvalues : f.values (.path path) = [f.entries (.path path)] := by rw [Files.values, hrecent]
  have hentries := hg.entries (.path path)
  obtain ⟨v, hv, hcontents⟩ := hg.contents (hf.flushed path)
  rw [hvalues, List.mem_singleton] at hentries hv
  exact ⟨hentries, by rw [hcontents, hv, Files.contents], fun _ => hg.recent _⟩

end Path

section Model
variable {P : Type} [DecidableEq P] (platform : Platform) (configured : ℕ → GoString)
  (calls : ℕ → Call P) (path : P)

def loads (call : ℕ) : Bool := decide ((calls call).path = path)

def leave (call : ℕ) (r : Root P) (b : Boot) : Root P × Boot :=
  (if loads calls path call then r.release else r, b)

def loadOrCreateToken (call : ℕ) (r : Root P) : Boot → Event → Option (Root P × Boot)
  | .idle, .begin =>
    if loads calls path call then
      if r.holder = none then some ({ r with holder := some call }, .getenv) else none
    else some (r, .write .create)
  | .getenv, .passed =>
    if configured call = [] then some (r, .lstat)
    else some (leave calls path call r (.returned (validateControlToken (configured call))))
  | .lstat, .passed => if r.files.entries (.path path) = none then none else some (r, .secure)
  | .lstat, .missing =>
    if r.files.entries (.path path) = none then some (r, .write .create) else none
  | .lstat, .failed => some (leave calls path call r (.returned none))
  | .secure, .passed =>
    (r.files.entries (.path path)).map fun k => ({ r with files := r.files.restrict k }, .read)
  | .secure, .failed => some (leave calls path call r (.returned none))
  | .read, .passed =>
    (r.files.contents (.path path)).map fun data =>
      leave calls path call r (.returned (validateControlToken data))
  | .read, .failed => some (leave calls path call r (.returned none))
  | .write s, .system o =>
    (writePrivateFileAtomic platform calls call r.files s o).map fun x =>
      match x.2 with
      | .returned ok =>
        leave calls path call { r with files := x.1 }
          (.returned (if ok && loads calls path call then some (calls call).contents else none))
      | s' => ({ r with files := x.1 }, .write s')
  | b, .kill => if b.busy then some (leave calls path call r .killed) else none
  | _, _ => none

def act : Host P → ℕ × Event → Option (Host P) :=
  Pool.step fun call r b e => loadOrCreateToken platform configured calls path call r b e

inductive Step : Host P → Option (ℕ × Event) → Host P → Prop where
  | act {h h' : Host P} {l : ℕ × Event} (hfires : Fires (act platform configured calls path) h l h') :
      Step h (some l) h'
  | powerLoss {h : Host P} {g : Directory P} (hg : Crash h.shared.files g) :
      Step h none ⟨⟨g, none⟩, fun call => (h.threads call).stop⟩

/-! ## What a step does -/

inductive Move (call : ℕ) (r : Root P) : Boot → Event → Root P → Boot → Prop where
  | enter (hloads : loads calls path call = true) (hfree : r.holder = none) :
      Move call r .idle .begin { r with holder := some call } .getenv
  | other (hloads : loads calls path call = false) : Move call r .idle .begin r (.write .create)
  | unset (hunset : configured call = []) : Move call r .getenv .passed r .lstat
  | configured (hset : configured call ≠ []) :
      Move call r .getenv .passed (leave calls path call r .killed).1
        (.returned (validateControlToken (configured call)))
  | found : Move call r .lstat .passed r .secure
  | missing (habsent : r.files.entries (.path path) = none) :
      Move call r .lstat .missing r (.write .create)
  | secured {k : ℕ} (hk : r.files.entries (.path path) = some k) :
      Move call r .secure .passed { r with files := r.files.restrict k } .read
  | load {data : GoString} (hdata : r.files.contents (.path path) = some data) :
      Move call r .read .passed (leave calls path call r .killed).1
        (.returned (validateControlToken data))
  | stop {b b' : Boot} {e : Event} (hbusy : b.busy = true) (hevent : ∀ o, e ≠ .system o)
      (hb' : b' = .returned none ∨ b' = .killed) :
      Move call r b e (leave calls path call r .killed).1 b'
  | write {s s' : Stage} {o : Outcome} {f : Directory P}
      (he : Effect platform calls call r.files s o f s') (hs' : ∀ ok, s' ≠ .returned ok) :
      Move call r (.write s) (.system o) { r with files := f } (.write s')
  | finish {s : Stage} {o : Outcome} {f : Directory P} {ok : Bool}
      (he : Effect platform calls call r.files s o f (.returned ok)) :
      Move call r (.write s) (.system o) (leave calls path call { r with files := f } .killed).1
        (.returned (if ok && loads calls path call then some (calls call).contents else none))

variable {platform configured calls path}

theorem move_of_load {call : ℕ} {r r' : Root P} {b b' : Boot} {e : Event}
    (h : loadOrCreateToken platform configured calls path call r b e = some (r', b')) :
    Move platform configured calls path call r b e r' b' := by
  unfold loadOrCreateToken at h
  split at h
  case h_1 =>
    split at h
    · split at h
      · cases h
        exact .enter ‹_› ‹_›
      · cases h
    · cases h
      exact .other (by simpa using ‹¬loads calls path call = true›)
  case h_2 =>
    split at h
    · cases h
      exact .unset ‹_›
    · cases h
      exact .configured ‹_›
  case h_3 =>
    split at h
    · cases h
    · cases h
      exact .found
  case h_4 =>
    split at h
    · cases h
      exact .missing ‹_›
    · cases h
  case h_6 =>
    obtain ⟨k, hk, hr⟩ := Option.map_eq_some_iff.mp h
    cases hr
    exact .secured hk
  case h_8 =>
    obtain ⟨data, hdata, hr⟩ := Option.map_eq_some_iff.mp h
    cases hr
    exact .load hdata
  case h_10 s o =>
    obtain ⟨⟨f, s'⟩, hwrite, hr⟩ := Option.map_eq_some_iff.mp h
    have he := effect_of_step hwrite
    split at hr
    · rename_i ok hs'
      simp only at hs'
      subst hs'
      cases hr
      exact .finish he
    · rename_i hs'
      cases hr
      exact .write he hs'
  case h_11 =>
    split at h
    · cases h
      exact .stop ‹_› (by simp) (.inr rfl)
    · cases h
  case h_12 => cases h
  all_goals
    cases h
    exact .stop rfl (by simp) (.inl rfl)

/-! ## What is under the path -/

theorem stays_of_effect {call : ℕ} {f f' : Directory P} {s s' : Stage} {o : Outcome}
    (he : Effect platform calls call f s o f' s') (hf : Sound f) (hs : Owned calls call f s)
    (hother : o = .replaced → (calls call).path ≠ path) : Stays path f f' := by
  by_cases hquiet : Quiet o
  · have hsame := he.same hquiet hf hs
    exact stays_of_values (hsame.values path) (hsame.text (mem_values_self f _))
  · cases he with
    | create => exact absurd ⟨by simp, by simp⟩ hquiet
    | move hq => exact absurd hq hquiet
    | change _ hq => exact absurd hq hquiet
    | replace =>
      refine stays_of_values (rename_values_other (path_ne_temporary path call) ?_) rfl
      simpa using Ne.symm (hother rfl)
    | flush => exact ⟨rfl, rfl, fun _ => rfl⟩
    | discard => exact absurd ⟨by simp, by simp⟩ hquiet

/-- What is known of a call while it runs. `absent` and `written` are about the calls that make a
token: until they rename their file there is none, and then it is theirs. -/
structure Known (calls : ℕ → Call P) (path : P) (call : ℕ) (r : Root P) (b : Boot) : Prop where
  holds : loads calls path call = true → b.busy = true → r.holder = some call
  loading : b = .getenv ∨ b = .lstat ∨ b = .secure ∨ b = .read → loads calls path call = true
  owned : ∀ s, b = .write s → Owned calls call r.files s
  absent : loads calls path call = true → ∀ s, b = .write s →
    s = .create ∨ (prepared (calls call) s).isSome = true → r.files.entries (.path path) = none
  written : loads calls path call = true → b = .write .syncDirectory →
    r.files.contents (.path path) = some (calls call).contents

theorem replaces_of_effect {call : ℕ} {f f' : Directory P} {s s' : Stage}
    (he : Effect platform calls call f s .replaced f' s') :
    s' = .syncDirectory ∧ ∃ k n, s = .replace k n ∧
      f' = f.rename (.temporary call) (.path (calls call).path) := by
  cases he with
  | move hquiet => exact absurd rfl hquiet.1
  | change _ hquiet => exact absurd rfl hquiet.1
  | replace k n => exact ⟨rfl, k, n, rfl, rfl⟩

theorem prepared_before {call : ℕ} {f f' : Directory P} {s s' : Stage} {o : Outcome}
    (he : Effect platform calls call f s o f' s') (h : (prepared (calls call) s').isSome = true) :
    s = .create ∨ (prepared (calls call) s).isSome = true := by
  cases he with
  | create => exact .inl rfl
  | move _ _ _ hkeeps =>
    obtain ⟨e, hprepared⟩ := Option.isSome_iff_exists.mp h
    exact .inr (Option.isSome_iff_exists.mpr ⟨e, hkeeps e hprepared⟩)
  | change _ _ _ hbefore => exact .inr (Option.isSome_iff_exists.mpr ⟨_, hbefore⟩)
  | replace => cases h
  | flush => cases h
  | discard => cases h

theorem Known.stays_of_effect {call : ℕ} {r : Root P} {f : Directory P} {s s' : Stage} {o : Outcome}
    (h : Known calls path call r (.write s)) (hf : Sound r.files)
    (he : Effect platform calls call r.files s o f s')
    (hpath : loads calls path call = true → r.files.entries (.path path) ≠ none) :
    Stays path r.files f := by
  refine ControlToken.stays_of_effect he hf (h.owned s rfl) ?_
  rintro rfl hcall
  have hloads : loads calls path call = true := decide_eq_true hcall
  obtain ⟨-, k, n, rfl, -⟩ := replaces_of_effect he
  exact hpath hloads (h.absent hloads _ rfl (.inr rfl))

theorem leave_files (call : ℕ) (r : Root P) (b : Boot) : (leave calls path call r b).1.files = r.files := by
  unfold leave
  split <;> rfl

/-- A token stays, and the calls for other files change nothing under the path. -/
theorem Move.stays {call : ℕ} {r r' : Root P} {b b' : Boot} {e : Event}
    (hmove : Move platform configured calls path call r b e r' b') (hf : Sound r.files)
    (h : Known calls path call r b)
    (hpath : loads calls path call = true → r.files.entries (.path path) ≠ none) :
    Stays path r.files r'.files := by
  cases hmove with
  | enter => exact stays_refl path _
  | other => exact stays_refl path _
  | unset => exact stays_refl path _
  | configured =>
    rw [leave_files]
    exact stays_refl path _
  | found => exact stays_refl path _
  | missing => exact stays_refl path _
  | secured => exact stays_restrict _ _
  | load =>
    rw [leave_files]
    exact stays_refl path _
  | stop =>
    rw [leave_files]
    exact stays_refl path _
  | write he => exact h.stays_of_effect hf he hpath
  | finish he =>
    rw [leave_files]
    exact h.stays_of_effect hf he hpath

/-! ## One call at a time -/

theorem Move.sound {call : ℕ} {r r' : Root P} {b b' : Boot} {e : Event}
    (hmove : Move platform configured calls path call r b e r' b') (hf : Sound r.files)
    (h : Known calls path call r b) : Sound r'.files := by
  cases hmove with
  | enter => exact hf
  | other => exact hf
  | unset => exact hf
  | configured =>
    rw [leave_files]
    exact hf
  | found => exact hf
  | missing => exact hf
  | @secured k hk =>
    refine ⟨hf.linked.modify k _, fun p j x hj hx => ?_⟩
    by_cases hjk : j = k
    · subst hjk
      rw [Files.restrict, modify_inodes_self] at hx
      obtain ⟨y, hy, rfl⟩ := Option.map_eq_some_iff.mp hx
      exact hf.flushed p j y hj hy
    · rw [Files.restrict, modify_inodes_other _ hjk] at hx
      exact hf.flushed p j x hj hx
  | load =>
    rw [leave_files]
    exact hf
  | stop =>
    rw [leave_files]
    exact hf
  | write he => exact he.sound hf (h.owned _ rfl)
  | finish he =>
    rw [leave_files]
    exact he.sound hf (h.owned _ rfl)

theorem Known.ended {call : ℕ} {r : Root P} {b : Boot} (hbusy : b.busy = false) :
    Known calls path call r b := by
  refine ⟨fun _ h => ?_, fun h => ?_, fun s h => ?_, fun _ s h => ?_, fun _ h => ?_⟩
  · rw [hbusy] at h
    cases h
  · rcases h with rfl | rfl | rfl | rfl <;> cases hbusy
  all_goals
    subst h
    cases hbusy

theorem Move.own {call : ℕ} {r r' : Root P} {b b' : Boot} {e : Event}
    (hmove : Move platform configured calls path call r b e r' b') (hf : Sound r.files)
    (h : Known calls path call r b) : Known calls path call r' b' := by
  cases hmove with
  | enter hloads => exact ⟨fun _ _ => rfl, fun _ => hloads, by simp, by simp, by simp⟩
  | other hloads =>
    refine ⟨by simp [hloads], by simp, fun s hs => ?_, by simp [hloads], by simp [hloads]⟩
    cases hs
    exact fun _ _ hk => by cases hk
  | unset =>
    exact ⟨fun hl _ => h.holds hl rfl, fun _ => h.loading (.inl rfl), by simp, by simp, by simp⟩
  | configured => exact .ended rfl
  | found =>
    exact ⟨fun hl _ => h.holds hl rfl, fun _ => h.loading (.inr (.inl rfl)), by simp, by simp, by simp⟩
  | missing habsent =>
    refine ⟨fun hl _ => h.holds hl rfl, by simp, fun s hs => ?_, fun _ _ _ _ => habsent, by simp⟩
    cases hs
    exact fun _ _ hk => by cases hk
  | secured =>
    exact ⟨fun hl _ => h.holds hl rfl, fun _ => h.loading (.inr (.inr (.inl rfl))), by simp,
      by simp, by simp⟩
  | load => exact .ended rfl
  | stop _ _ hb' => rcases hb' with rfl | rfl <;> exact .ended rfl
  | @write s s' o f he hs' =>
    refine ⟨fun hl _ => h.holds hl rfl, by simp, fun s hs => ?_, fun hl t ht hprepared => ?_, ?_⟩
    · cases hs
      exact he.owned hf (h.owned _ rfl)
    · cases ht
      have hbefore := prepared_before he (hprepared.resolve_left he.begins)
      rw [(ControlToken.stays_of_effect he hf (h.owned s rfl) ?_).entries]
      · exact h.absent hl s rfl hbefore
      · rintro rfl
        rw [(replaces_of_effect he).1] at hprepared
        simp [prepared] at hprepared
    · intro hl hsync
      cases hsync
      obtain rfl := he.syncs rfl
      obtain ⟨-, k, n, rfl, rfl⟩ := replaces_of_effect he
      rw [← of_decide_eq_true hl]
      exact (h.owned _ rfl).renamed
  | finish => exact .ended rfl

theorem leave_holder_other {call other : ℕ} {r : Root P} {b : Boot} (hother : other ≠ call)
    (hcall : loads calls path call = true → r.holder = some call) (h : r.holder = some other) :
    (leave calls path call r b).1.holder = some other := by
  unfold leave
  split
  · rw [hcall ‹_›, Option.some.injEq] at h
    exact absurd h.symm hother
  · exact h

theorem Move.holder {call other : ℕ} {r r' : Root P} {b b' : Boot} {e : Event}
    (hmove : Move platform configured calls path call r b e r' b') (h : Known calls path call r b)
    (hother : other ≠ call) (hholder : r.holder = some other) : r'.holder = some other := by
  cases hmove with
  | enter _ hfree =>
    rw [hfree] at hholder
    cases hholder
  | other => exact hholder
  | unset => exact hholder
  | configured => exact leave_holder_other hother (fun hl => h.holds hl rfl) hholder
  | found => exact hholder
  | missing => exact hholder
  | secured => exact hholder
  | load => exact leave_holder_other hother (fun hl => h.holds hl rfl) hholder
  | stop hbusy => exact leave_holder_other hother (fun hl => h.holds hl hbusy) hholder
  | write => exact hholder
  | finish => exact leave_holder_other hother (fun hl => h.holds hl rfl) hholder

theorem Move.loads_free {call other : ℕ} {r r' : Root P} {b b' : Boot} {e : Event}
    (hmove : Move platform configured calls path call r b e r' b') (h : Known calls path call r b)
    (hother : other ≠ call) (hholder : r.holder = some other) : loads calls path call = false := by
  rw [← Bool.not_eq_true]
  intro hl
  cases hmove with
  | enter _ hfree =>
    rw [hfree] at hholder
    cases hholder
  | other hloads =>
    rw [hloads] at hl
    cases hl
  | stop hbusy => exact hother (Option.some.inj (hholder.symm.trans (h.holds hl hbusy)))
  | _ => exact hother (Option.some.inj (hholder.symm.trans (h.holds hl rfl)))

theorem Move.owned_frame {call other : ℕ} {r r' : Root P} {b b' : Boot} {e : Event} {s : Stage}
    (hmove : Move platform configured calls path call r b e r' b') (h : Known calls path call r b)
    (hother : other ≠ call) (hs : Owned calls other r.files s) : Owned calls other r'.files s := by
  cases hmove with
  | enter => exact hs
  | other => exact hs
  | unset => exact hs
  | configured => rwa [leave_files]
  | found => exact hs
  | missing => exact hs
  | secured hk => exact owned_modify hk hs
  | load => rwa [leave_files]
  | stop => rwa [leave_files]
  | write he => exact he.frame (h.owned _ rfl) hother hs
  | finish he =>
    rw [leave_files]
    exact he.frame (h.owned _ rfl) hother hs

theorem Move.frame {call other : ℕ} {r r' : Root P} {b b' c : Boot} {e : Event}
    (hmove : Move platform configured calls path call r b e r' b') (hf : Sound r.files)
    (h : Known calls path call r b) (hother : other ≠ call) (hc : Known calls path other r c) :
    Known calls path other r' c := by
  refine ⟨fun hl hbusy => hmove.holder h hother (hc.holds hl hbusy), hc.loading,
    fun s hs => hmove.owned_frame h hother (hc.owned s hs), fun hl s hs hprepared => ?_, fun hl hs => ?_⟩
  · subst hs
    have hfree := hmove.loads_free h hother (hc.holds hl rfl)
    rw [(hmove.stays hf h (by simp [hfree])).entries]
    exact hc.absent hl s rfl hprepared
  · subst hs
    have hfree := hmove.loads_free h hother (hc.holds hl rfl)
    rw [(hmove.stays hf h (by simp [hfree])).contents]
    exact hc.written hl rfl

def Sane (calls : ℕ → Call P) (path : P) : Host P → Prop :=
  Pool.Holds (fun r => Sound r.files) (Known calls path)

theorem inductive_known (platform : Platform) (configured : ℕ → GoString) (calls : ℕ → Call P) (path : P) :
    Pool.Inductive (fun call r b e => loadOrCreateToken platform configured calls path call r b e)
      (fun _ _ _ _ => True) (fun r => Sound r.files) (Known calls path) where
  own := fun _ _ _ _ _ _ hf h _ hload =>
    ⟨(move_of_load hload).sound hf h, (move_of_load hload).own hf h⟩
  frame := fun _ _ _ _ _ _ hf h _ hload _ _ hother hc => (move_of_load hload).frame hf h hother hc

theorem Boot.stop_busy (b : Boot) : b.stop.busy = false := by
  cases b <;> rfl

theorem Sane.step {h h' : Host P} {l : Option (ℕ × Event)} (hs : Sane calls path h)
    (hstep : Step platform configured calls path h l h') : Sane calls path h' := by
  cases hstep with
  | act hfires => exact (inductive_known platform configured calls path).step hs ⟨trivial, hfires⟩
  | powerLoss hg =>
    have hsettled := hg.settled hs.1.linked
    exact ⟨⟨hsettled.linked, fun _ k x _ hx => hsettled.flushed k x hx⟩,
      fun call => .ended (Boot.stop_busy _)⟩

/-! ## Tokens -/

/-- What the calls write is 32 random bytes in hexadecimal. -/
def Generated (calls : ℕ → Call P) (path : P) : Prop := ∀ call, (calls call).path = path →
  ∃ secret : List UInt8, secret.length = 32 ∧ (calls call).contents = hexEncode secret

theorem Generated.valid (h : Generated calls path) {call : ℕ}
    (hloads : loads calls path call = true) :
    validateControlToken (calls call).contents = some (calls call).contents := by
  obtain ⟨secret, hlength, hcontents⟩ := h call (of_decide_eq_true hloads)
  rw [hcontents]
  exact validate_hexEncode hlength

/-- A call that returns a token that is not configured leaves that token under the path. -/
theorem Move.returned {call : ℕ} {r r' : Root P} {b : Boot} {e : Event} {t : GoString}
    (hmove : Move platform configured calls path call r b e r' (.returned (some t))) (hf : Sound r.files)
    (h : Known calls path call r b) (hgenerated : Generated calls path)
    (hunset : e = .passed → configured call = []) : tokenAt path r'.files = some t := by
  generalize hb' : Boot.returned (some t) = b' at hmove
  cases hmove with
  | enter => cases hb'
  | other => cases hb'
  | unset => cases hb'
  | configured hset => exact absurd (hunset rfl) hset
  | found => cases hb'
  | missing => cases hb'
  | secured => cases hb'
  | load hdata =>
    rw [leave_files, tokenAt, hdata]
    exact (Boot.returned.inj hb').symm
  | stop _ _ hends => rcases hends with rfl | rfl <;> cases hb'
  | write => cases hb'
  | @finish s o f ok he =>
    have ht := (Boot.returned.inj hb').symm
    split at ht
    · rename_i hok
      rw [Bool.and_eq_true] at hok
      obtain ⟨rfl, hloads⟩ := hok
      obtain ⟨rfl, -⟩ := he.returns rfl
      have hcontents := h.written hloads rfl
      have htoken : tokenAt path r.files = some t := by
        rw [tokenAt, hcontents, Option.bind_some, hgenerated.valid hloads, ht]
      rw [leave_files, (h.stays_of_effect hf he fun _ => entries_ne_none htoken).tokenAt, htoken]
    · cases ht

/-- What is known after a step of the tokens that have been returned without being configured. -/
theorem returned_of_act {h h' : Host P} {l : ℕ × Event} (hs : Sane calls path h)
    (hgenerated : Generated calls path) (hfires : Fires (act platform configured calls path) h l h') {j : ℕ}
    {u : GoString} (hunset : configured j = []) (hj : h'.threads j = .returned (some u)) :
    h.threads j = .returned (some u) ∨ tokenAt path h'.shared.files = some u := by
  obtain ⟨r, b, hload, rfl⟩ := Pool.fires_iff.mp hfires
  by_cases hjl : j = l.1
  · subst hjl
    simp only [Function.update_self] at hj
    subst hj
    exact .inr ((move_of_load hload).returned hs.1 (hs.2 l.1) hgenerated fun _ => hunset)
  · simp only [Function.update_of_ne hjl] at hj
    exact .inl hj

theorem stays_of_act {h h' : Host P} {l : ℕ × Event} (hs : Sane calls path h)
    (hfires : Fires (act platform configured calls path) h l h')
    (hpath : h.shared.files.entries (.path path) ≠ none) :
    Stays path h.shared.files h'.shared.files := by
  obtain ⟨r, b, hload, rfl⟩ := Pool.fires_iff.mp hfires
  exact (move_of_load hload).stays hs.1 (hs.2 l.1) fun _ => hpath

theorem returned_of_stop {b : Boot} {u : GoString} (h : b.stop = .returned (some u)) :
    b = .returned (some u) := by
  cases b <;> simp_all [Boot.stop]

/-- No call has begun, and nothing that is there can be lost. -/
structure Start (h : Host P) : Prop where
  settled : h.shared.files.Settled
  idle : ∀ call, h.threads call = .idle

theorem Start.sane {h : Host P} (hstart : Start h) : Sane calls path h :=
  ⟨⟨hstart.settled.linked, fun _ k x _ hx => hstart.settled.flushed k x hx⟩,
    fun call => .ended (by rw [hstart.idle call]; rfl)⟩

theorem sane_of_runs {h₀ h : Host P} {ls : List (Option (ℕ × Event))} (hstart : Start h₀)
    (hr : Runs (Step platform configured calls path) h₀ ls h) : Sane calls path h :=
  hr.invariant hstart.sane fun _ _ _ hs hstep => hs.step hstep

/-- The power is lost only while the entry of the token is on the device. -/
def Powered (path : P) (h : Host P) (l : Option (ℕ × Event)) : Prop :=
  l = none → h.shared.files.recent (.path path) = []

/-- Every token that was ever returned without being configured is the one that is there. -/
theorem token_of_runs {h₀ h : Host P} {ls : List (Option (ℕ × Event))} (hstart : Start h₀)
    (hgenerated : Generated calls path)
    (hr : Runs (Guarded (Powered path) (Step platform configured calls path)) h₀ ls h) {i : ℕ}
    {t : GoString} (hunset : configured i = []) (hi : h.threads i = .returned (some t)) :
    tokenAt path h.shared.files = some t := by
  induction hr generalizing t with
  | refl =>
    rw [hstart.idle i] at hi
    cases hi
  | tail run last ih =>
    obtain ⟨hpowered, hstep⟩ := last
    have hs := sane_of_runs hstart run.of_guarded
    cases hstep with
    | act hfires =>
      rcases returned_of_act hs hgenerated hfires hunset hi with hi | htoken
      · rw [(stays_of_act hs hfires (entries_ne_none (ih hi))).tokenAt, ih hi]
      · exact htoken
    | powerLoss hg =>
      rw [(stays_of_crash hg hs.1 (hpowered rfl)).tokenAt]
      exact ih (returned_of_stop hi)

theorem runs_of_act {h h' : Host P} {ls : List (ℕ × Event)}
    (hr : Runs (Fires (act platform configured calls path)) h ls h') :
    Runs (Guarded (Powered path) (Step platform configured calls path)) h (ls.map some) h' := by
  induction hr with
  | refl => exact .refl _
  | tail run last ih =>
    rw [List.map_append]
    exact ih.tail ⟨fun h => absurd h (by simp), .act last⟩

/-- All calls that return a token that is not configured return the same one, whichever process they
run in, whatever fails, and whenever a process is killed. -/
theorem tokens_agree {h₀ h : Host P} {ls : List (Option (ℕ × Event))} (hstart : Start h₀)
    (hgenerated : Generated calls path)
    (hr : Runs (Guarded (Powered path) (Step platform configured calls path)) h₀ ls h) {i j : ℕ}
    {t u : GoString} (hunset : configured i = []) (hunset' : configured j = [])
    (hi : h.threads i = .returned (some t)) (hj : h.threads j = .returned (some u)) : t = u :=
  Option.some.inj ((token_of_runs hstart hgenerated hr hunset hi).symm.trans
    (token_of_runs hstart hgenerated hr hunset' hj))

def bare : Host Unit := ⟨⟨⟨fun _ => none, fun _ => none, fun _ => []⟩, none⟩, fun _ => .idle⟩

def numbered (call : ℕ) : Call Unit := ⟨(), hexEncode (List.replicate 32 call.toUInt8)⟩

theorem bare_start : Start bare :=
  ⟨⟨fun _ _ h => by simp [Files.values, bare] at h, fun _ => rfl, fun _ _ h => by cases h⟩,
    fun _ => rfl⟩

theorem numbered_generated : Generated numbered () := fun call _ => ⟨_, by simp, rfl⟩

def thirdSet (call : ℕ) : GoString := if call = 3 then hexEncode (List.replicate 32 255) else []

def making (call : ℕ) : List (ℕ × Event) :=
  [.begin, .passed, .missing, .system (.created call), .system .passed, .system .passed, .system .passed,
    .system .passed, .system .passed, .system .replaced].map fun e => (call, e)

def reading (call : ℕ) : List (ℕ × Event) :=
  [.begin, .passed, .passed, .passed, .passed].map fun e => (call, e)

/-- A process is killed before it has flushed the directory, and another one has a token configured. -/
def killedThenRead : List (ℕ × Event) :=
  making 0 ++ [(0, .kill)] ++ reading 2 ++ [(3, .begin), (3, .passed)] ++ reading 1

theorem tokens_agree_killed : ∃ h t u,
    Runs (Guarded (Powered ()) (Step windows thirdSet numbered ())) bare
      (killedThenRead.map some) h ∧
    h.threads 1 = .returned (some t) ∧ h.threads 2 = .returned (some u) ∧ t = u := by
  obtain ⟨h, hr, htest⟩ := @runs_of_exec_any _ _ (act windows thirdSet numbered ()) bare
    killedThenRead (fun h => decide (h.threads 1 = .returned (some (numbered 0).contents) ∧
      h.threads 2 = .returned (some (numbered 0).contents))) (by decide)
  obtain ⟨hone, htwo⟩ := of_decide_eq_true htest
  have hruns := runs_of_act hr
  exact ⟨h, _, _, hruns, hone, htwo, tokens_agree bare_start numbered_generated hruns rfl rfl hone htwo⟩

/-- The token `t` is on the device. -/
def Lasting (path : P) (t : GoString) (h : Host P) : Prop :=
  h.shared.files.recent (.path path) = [] ∧ tokenAt path h.shared.files = some t

theorem Lasting.step {h h' : Host P} {l : Option (ℕ × Event)} {t : GoString}
    (hlasting : Lasting path t h) (hs : Sane calls path h)
    (hstep : Step platform configured calls path h l h') : Lasting path t h' := by
  obtain ⟨hrecent, htoken⟩ := hlasting
  cases hstep with
  | act hfires =>
    have hstays := stays_of_act hs hfires (entries_ne_none htoken)
    exact ⟨hstays.recent hrecent, hstays.tokenAt.trans htoken⟩
  | powerLoss hg =>
    have hstays := stays_of_crash hg hs.1 hrecent
    exact ⟨hstays.recent hrecent, hstays.tokenAt.trans htoken⟩

theorem lasting_of_runs {h h' : Host P} {ls : List (Option (ℕ × Event))} {t : GoString}
    (hlasting : Lasting path t h) (hs : Sane calls path h)
    (hr : Runs (Step platform configured calls path) h ls h') : Lasting path t h' ∧ Sane calls path h' :=
  hr.invariant (I := fun h => Lasting path t h ∧ Sane calls path h) ⟨hlasting, hs⟩
    fun _ _ _ hi hstep => ⟨hi.1.step hi.2 hstep, hi.2.step hstep⟩

theorem returned_of_runs {h h' : Host P} {ls : List (Option (ℕ × Event))} {t : GoString}
    (hlasting : Lasting path t h) (hs : Sane calls path h) (hgenerated : Generated calls path)
    (hr : Runs (Step platform configured calls path) h ls h') {j : ℕ} {u : GoString}
    (hunset : configured j = []) (hj : h'.threads j = .returned (some u)) :
    h.threads j = .returned (some u) ∨ u = t := by
  induction hr with
  | refl => exact .inl hj
  | tail run last ih =>
    obtain ⟨hlasting', hs'⟩ := lasting_of_runs hlasting hs run
    have hafter := (hlasting'.step hs' last).2
    cases last with
    | act hfires =>
      rcases returned_of_act hs' hgenerated hfires hunset hj with hj | htoken
      · exact ih hj
      · exact .inr (Option.some.inj (htoken.symm.trans hafter))
    | powerLoss => exact ih (returned_of_stop hj)

theorem recent_of_flush {call : ℕ} {f f' : Directory P} {s s' : Stage}
    (he : Effect platform calls call f s .flushed f' s') : f'.recent (.path path) = [] := by
  cases he with
  | move hquiet => exact absurd rfl hquiet.2
  | change _ hquiet => exact absurd rfl hquiet.2
  | flush => rfl

theorem Move.flushed {call : ℕ} {r r' : Root P} {b b' : Boot}
    (hmove : Move platform configured calls path call r b (.system .flushed) r' b') :
    r'.files.recent (.path path) = [] := by
  cases hmove with
  | stop _ hevent => exact absurd rfl (hevent .flushed)
  | write he => exact recent_of_flush he
  | finish he =>
    rw [leave_files]
    exact recent_of_flush he

/-- A token that was made and whose entry was flushed outlasts every loss of power: all calls that
return a token after that return this one, unless it is configured. -/
theorem created_token_survives {h₀ h h' h'' : Host P} {ls ms : List (Option (ℕ × Event))} {i j : ℕ}
    {t u : GoString} (hstart : Start h₀) (hgenerated : Generated calls path)
    (hunset : configured j = [])
    (hr : Runs (Step platform configured calls path) h₀ ls h)
    (hlast : Fires (act platform configured calls path) h (i, .system .flushed) h')
    (ht : h'.threads i = .returned (some t)) (hr' : Runs (Step platform configured calls path) h' ms h'')
    (hj : h''.threads j = .returned (some u)) (hlater : h'.threads j ≠ .returned (some u)) : u = t := by
  have hs := sane_of_runs hstart hr
  have hs' := hs.step (.act hlast)
  have hlasting : Lasting path t h' := by
    obtain ⟨r, b, hload, rfl⟩ := Pool.fires_iff.mp hlast
    simp only [Function.update_self] at ht
    subst ht
    have hmove := move_of_load hload
    exact ⟨hmove.flushed, hmove.returned hs.1 (hs.2 i) hgenerated (by simp)⟩
  exact (returned_of_runs hlasting hs' hgenerated hr' hunset hj).resolve_left hlater

/-- What a call leaves that makes a token, and what another one then reads. -/
def flushedThenRead (h : Host Unit) : Bool :=
  (act unix thirdSet numbered () h (0, .system .flushed)).any fun h' =>
    decide (h'.threads 0 = .returned (some (numbered 0).contents) ∧ h'.threads 1 = .idle) &&
      (exec (act unix thirdSet numbered ()) h' (reading 1)).any fun h'' =>
        decide (h''.threads 1 = .returned (some (numbered 0).contents))

theorem created_token_survives_read : ∃ h h' h'' t u,
    Runs (Step unix thirdSet numbered ()) bare ((making 0).map some) h ∧
    Fires (act unix thirdSet numbered ()) h (0, .system .flushed) h' ∧
    h'.threads 0 = .returned (some t) ∧
    Runs (Step unix thirdSet numbered ()) h' ((reading 1).map some) h'' ∧
    h''.threads 1 = .returned (some u) ∧ h'.threads 1 ≠ .returned (some u) ∧ u = t := by
  obtain ⟨h, hr, hh⟩ := @runs_of_exec_any _ _ (act unix thirdSet numbered ()) bare
    (making 0) flushedThenRead
    (by decide)
  cases hlast : act unix thirdSet numbered () h (0, .system .flushed) with
  | none => simp [flushedThenRead, hlast] at hh
  | some h' =>
    simp only [flushedThenRead, hlast, Option.any_some, Bool.and_eq_true, decide_eq_true_eq] at hh
    obtain ⟨⟨hzero, hidle⟩, hread⟩ := hh
    obtain ⟨h'', hr', hone⟩ := runs_of_exec_any hread
    have hone := of_decide_eq_true hone
    have hruns := (runs_of_act hr).of_guarded
    have hruns' := (runs_of_act hr').of_guarded
    have hlater : h'.threads 1 ≠ .returned (some (numbered 0).contents) := by simp [hidle]
    exact ⟨h, h', h'', _, _, hruns, hlast, hzero, hruns', hone, hlater,
      created_token_survives bare_start numbered_generated rfl hruns hlast hzero hruns' hone hlater⟩

end Model

end SubscriptionRouter.ControlToken
