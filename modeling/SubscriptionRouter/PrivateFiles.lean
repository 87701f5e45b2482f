import Mathlib
import SubscriptionRouter.DurableFiles
import SubscriptionRouter.Transitions

set_option autoImplicit false

/-!
# Private files that are replaced as a whole

`WritePrivateFileAtomic` writes a temporary file and renames it over the path. Any number of calls
for files of one directory run at the same time, each call of the system may fail, and the machine
may stop at any point. The random name of a temporary file is taken to be its call's own.
-/
namespace SubscriptionRouter.PrivateFiles
open DurableFiles Transitions

inductive Name (P : Type) where
  | path (p : P)
  | temporary (call : ℕ)
  deriving DecidableEq

abbrev Directory (P : Type) := Files (Name P)

/-- How often a rename is tried, and whether the directory is flushed after it. -/
structure Platform where
  attempts : ℕ
  flushesDirectory : Bool

def unix : Platform := ⟨1, true⟩

/-- The length of `delays`; `syncPrivateDirectory` does nothing. -/
def windows : Platform := ⟨6, false⟩

structure Call (P : Type) where
  path : P
  contents : List UInt8

/-- The call of the system that comes next, with the temporary file. `discard` is the deferred
function after an error. -/
inductive Stage where
  | create
  | chmod (file : ℕ)
  | restrict (file : ℕ)
  | write (file : ℕ)
  | sync (file : ℕ)
  | close (file : ℕ)
  | replace (file attempt : ℕ)
  | syncDirectory
  | discard
  | returned (ok : Bool)
  deriving DecidableEq

/-- What the system answers: `busy` is a sharing or lock violation, and a write that fails has
written some bytes. -/
inductive Outcome where
  | created (file : ℕ)
  | passed
  | replaced
  | busy
  | flushed
  | failed (written : ℕ)
  deriving DecidableEq

section Paths
variable {P : Type}

/-- Behind a path there are only files that are complete on the device. -/
structure Sound (f : Directory P) : Prop where
  linked : f.Linked
  flushed : ∀ p k x, some k ∈ f.values (.path p) → f.inodes k = some x → x.flushed = true

/-- What is under a path, and all that a crash could bring back there, is the same in `f'`. -/
structure Same (f f' : Directory P) : Prop where
  entries : ∀ p, f'.entries (.path p) = f.entries (.path p)
  values : ∀ p, f'.values (.path p) = f.values (.path p)
  inodes : ∀ p k, some k ∈ f.values (.path p) → f'.inodes k = f.inodes k

theorem path_ne_temporary (p : P) (call : ℕ) : Name.path p ≠ .temporary call := by simp

theorem Same.sound {f f' : Directory P} (h : Same f f') (hf : Sound f) (hlinked : f'.Linked) :
    Sound f' where
  linked := hlinked
  flushed := fun p k x hk hx => by
    rw [h.values] at hk
    rw [h.inodes p k hk] at hx
    exact hf.flushed p k x hk hx

theorem Same.text {f f' : Directory P} (h : Same f f') {p : P} {v : Option ℕ}
    (hv : v ∈ f.values (.path p)) : f'.text v = f.text v :=
  text_congr fun k hk => h.inodes p k (hk ▸ hv)

theorem Same.contents {f f' : Directory P} (h : Same f f') (p : P) :
    f'.contents (.path p) = f.contents (.path p) := by
  rw [Files.contents, h.entries, h.text (mem_values_self f _), Files.contents]

theorem Sound.absent {f : Directory P} (h : Sound f) {k : ℕ} (hk : f.inodes k = none) (n : Name P) :
    some k ∉ f.values n := by
  intro hmem
  have hsome := h.linked n k hmem
  rw [hk] at hsome
  cases hsome

abbrev World (P : Type) := Pool (Directory P) Stage

/-- No call has begun, and nothing that is there can be lost. -/
structure Fresh (w : World P) : Prop where
  settled : w.shared.Settled
  create : ∀ call, w.threads call = .create

/-- The temporary file, as the stage has left it. -/
def prepared (c : Call P) : Stage → Option (ℕ × Inode)
  | .chmod k | .restrict k => some (k, ⟨[], false, false⟩)
  | .write k => some (k, ⟨[], false, true⟩)
  | .sync k => some (k, ⟨c.contents, false, true⟩)
  | .close k | .replace k _ => some (k, ⟨c.contents, true, true⟩)
  | _ => none

/-- The temporary file of a call is as its stage has left it, and no other name has had it. -/
def Owned (calls : ℕ → Call P) (call : ℕ) (f : Directory P) (s : Stage) : Prop :=
  ∀ k x, prepared (calls call) s = some (k, x) → f.entries (.temporary call) = some k ∧
    f.inodes k = some x ∧ ∀ n, n ≠ .temporary call → some k ∉ f.values n

theorem Fresh.sound {w : World P} (h : Fresh w) : Sound w.shared :=
  ⟨h.settled.linked, fun _ k x _ hx => h.settled.flushed k x hx⟩

theorem Fresh.owned {w : World P} (h : Fresh w) (calls : ℕ → Call P) (call : ℕ) :
    Owned calls call w.shared (w.threads call) := by
  rw [h.create call]
  exact fun _ _ hk => by cases hk

theorem Owned.text {calls : ℕ → Call P} {f : Directory P} {call k n : ℕ}
    (h : Owned calls call f (.replace k n)) :
    f.text (f.entries (.temporary call)) = some (calls call).contents := by
  obtain ⟨hentry, hinode, -⟩ := h k _ rfl
  rw [hentry, Files.text, Option.bind_some, hinode, Option.map_some]

end Paths

variable {P : Type} [DecidableEq P] (platform : Platform) (calls : ℕ → Call P)

def writePrivateFileAtomic (call : ℕ) (f : Directory P) :
    Stage → Outcome → Option (Directory P × Stage)
  | .create, .created k =>
    if f.inodes k = none ∧ f.entries (.temporary call) = none then
      some (f.create (.temporary call) k, .chmod k)
    else none
  | .create, .failed _ => some (f, .returned false)
  | .chmod k, .passed => some (f, .restrict k)
  | .chmod _, .failed _ => some (f, .discard)
  | .restrict k, .passed => some (f.restrict k, .write k)
  | .restrict _, .failed _ => some (f, .discard)
  | .write k, .passed => some (f.write k (calls call).contents, .sync k)
  | .write k, .failed n => some (f.write k ((calls call).contents.take n), .discard)
  | .sync k, .passed => some (f.flush k, .close k)
  | .sync _, .failed _ => some (f, .discard)
  | .close k, .passed => some (f, .replace k 0)
  | .close _, .failed _ => some (f, .discard)
  | .replace _ _, .replaced =>
    some (f.rename (.temporary call) (.path (calls call).path), .syncDirectory)
  | .replace k n, .busy =>
    if n + 1 < platform.attempts then some (f, .replace k (n + 1)) else some (f, .discard)
  | .replace _ _, .failed _ => some (f, .discard)
  | .syncDirectory, .flushed =>
    if platform.flushesDirectory then some (f.flushDirectory, .returned true) else none
  | .syncDirectory, .passed => if platform.flushesDirectory then none else some (f, .returned true)
  | .syncDirectory, .failed _ => if platform.flushesDirectory then some (f, .discard) else none
  | .discard, .passed => some (f.remove (.temporary call), .returned false)
  | .discard, .failed _ => some (f, .returned false)
  | _, _ => none

def step : World P → ℕ × Outcome → Option (World P) :=
  Pool.step fun call f stage outcome => writePrivateFileAtomic platform calls call f stage outcome

/-! ## What a step does -/

def Quiet (o : Outcome) : Prop := o ≠ .replaced ∧ o ≠ .flushed

inductive Effect (call : ℕ) (f : Directory P) : Stage → Outcome → Directory P → Stage → Prop where
  | create {k : ℕ} (hinode : f.inodes k = none) (hentry : f.entries (.temporary call) = none) :
      Effect call f .create (.created k) (f.create (.temporary call) k) (.chmod k)
  | move {s s' : Stage} {o : Outcome} (hquiet : Quiet o) (hends : s' ≠ .create ∧ s' ≠ .syncDirectory)
      (hreturns : s' = .returned true → platform.flushesDirectory = false ∧ s = .syncDirectory)
      (hkeeps : ∀ e, prepared (calls call) s' = some e → prepared (calls call) s = some e) :
      Effect call f s o f s'
  | change {s s' : Stage} {o : Outcome} {k : ℕ} {x : Inode} (g : Inode → Inode) (hquiet : Quiet o)
      (hends : s' ≠ .create ∧ s' ≠ .syncDirectory ∧ s' ≠ .returned true)
      (hbefore : prepared (calls call) s = some (k, x))
      (hafter : ∀ e, prepared (calls call) s' = some e → e = (k, g x))
      (hsealed : (g x).restricted = true ∨ (g x).data = []) :
      Effect call f s o (f.modify k g) s'
  | replace (k n : ℕ) : Effect call f (.replace k n) .replaced
      (f.rename (.temporary call) (.path (calls call).path)) .syncDirectory
  | flush (hflushes : platform.flushesDirectory = true) :
      Effect call f .syncDirectory .flushed f.flushDirectory (.returned true)
  | discard : Effect call f .discard .passed (f.remove (.temporary call)) (.returned false)

variable {platform calls}

theorem effect_of_step {call : ℕ} {f f' : Directory P} {s s' : Stage} {o : Outcome}
    (h : writePrivateFileAtomic platform calls call f s o = some (f', s')) :
    Effect platform calls call f s o f' s' := by
  unfold writePrivateFileAtomic at h
  split at h
  case h_1 k =>
    split at h
    · rename_i hfree
      cases h
      exact .create hfree.1 hfree.2
    · cases h
  case h_5 k =>
    cases h
    exact .change _ ⟨by simp, by simp⟩ (by simp) rfl (by simp [prepared]) (.inl rfl)
  case h_7 k =>
    cases h
    exact .change _ ⟨by simp, by simp⟩ (by simp) rfl (by simp [prepared]) (.inl rfl)
  case h_8 k n =>
    cases h
    exact .change _ ⟨by simp, by simp⟩ (by simp) rfl (by simp [prepared]) (.inl rfl)
  case h_9 k =>
    cases h
    exact .change _ ⟨by simp, by simp⟩ (by simp) rfl (by simp [prepared]) (.inl rfl)
  case h_13 k n =>
    cases h
    exact .replace k n
  case h_16 =>
    split at h
    · cases h
      exact .flush ‹_›
    · cases h
  case h_19 =>
    cases h
    exact .discard
  case h_14 =>
    split at h <;> cases h <;> exact .move ⟨by simp, by simp⟩ (by simp) (by simp) (by simp [prepared])
  case h_17 =>
    split at h
    · cases h
    · cases h
      exact .move ⟨by simp, by simp⟩ (by simp) (by simp_all) (by simp [prepared])
  case h_18 =>
    split at h
    · cases h
      exact .move ⟨by simp, by simp⟩ (by simp) (by simp) (by simp [prepared])
    · cases h
  case h_21 => cases h
  all_goals
    cases h
    exact .move ⟨by simp, by simp⟩ (by simp) (by simp) (by simp [prepared])

theorem step_effect {w w' : World P} {l : ℕ × Outcome} (h : Fires (step platform calls) w l w') :
    ∃ f s, Effect platform calls l.1 w.shared (w.threads l.1) l.2 f s ∧
      w' = ⟨f, Function.update w.threads l.1 s⟩ := by
  obtain ⟨f, s, hstep, rfl⟩ := Pool.fires_iff.mp h
  exact ⟨f, s, effect_of_step hstep, rfl⟩

/-! ## What the calls keep -/

theorem Effect.same {call : ℕ} {f f' : Directory P} {s s' : Stage} {o : Outcome}
    (h : Effect platform calls call f s o f' s') (hquiet : Quiet o) (hf : Sound f)
    (hs : Owned calls call f s) : Same f f' := by
  cases h with
  | @create k hinode hentry =>
    refine ⟨fun p => place_entries_other (path_ne_temporary p call) _,
      fun p => create_values_other (path_ne_temporary p call), fun p j hj => ?_⟩
    refine put_inodes_other f ?_ _
    rintro rfl
    exact hf.absent hinode _ hj
  | move => exact ⟨fun _ => rfl, fun _ => rfl, fun _ _ _ => rfl⟩
  | @change _ _ _ k x g _ _ hbefore =>
    refine ⟨fun _ => rfl, fun _ => rfl, fun p j hj => modify_inodes_other f ?_ g⟩
    rintro rfl
    exact (hs j x hbefore).2.2 _ (path_ne_temporary p call) hj
  | replace => exact absurd rfl hquiet.1
  | flush => exact absurd rfl hquiet.2
  | discard =>
    refine ⟨fun p => remove_entries_other (path_ne_temporary p call),
      fun p => remove_values_other (path_ne_temporary p call), fun p k _ => ?_⟩
    rw [remove_inodes]

theorem Effect.linked {call : ℕ} {f f' : Directory P} {s s' : Stage} {o : Outcome}
    (h : Effect platform calls call f s o f' s') (hf : f.Linked) : f'.Linked := by
  cases h with
  | create => exact hf.create _ _
  | move => exact hf
  | change => exact hf.modify _ _
  | replace => exact hf.rename _ _
  | flush => exact hf.flushDirectory
  | discard => exact hf.remove _

theorem mem_replaced_values {f : Directory P} {call : ℕ} {p q : P} {v : Option ℕ}
    (h : v ∈ (f.rename (.temporary call) (.path q)).values (.path p)) :
    (p = q ∧ v = f.entries (.temporary call)) ∨ v ∈ f.values (.path p) := by
  by_cases hp : p = q
  · subst hp
    rw [rename_values_target (path_ne_temporary p call).symm] at h
    exact (List.mem_cons.mp h).imp (⟨rfl, ·⟩) id
  · rw [rename_values_other (path_ne_temporary p call) (by simpa using hp)] at h
    exact .inr h

theorem Owned.renamed {f : Directory P} {call k n : ℕ} (h : Owned calls call f (.replace k n)) :
    (f.rename (.temporary call) (.path (calls call).path)).contents (.path (calls call).path) =
      some (calls call).contents := by
  rw [← h.text]
  exact congrArg f.text (rename_entries_target (path_ne_temporary _ call).symm)

theorem Effect.sound {call : ℕ} {f f' : Directory P} {s s' : Stage} {o : Outcome}
    (h : Effect platform calls call f s o f' s') (hf : Sound f) (hs : Owned calls call f s) :
    Sound f' := by
  have hlinked := h.linked hf.linked
  by_cases hquiet : Quiet o
  · exact (h.same hquiet hf hs).sound hf hlinked
  · cases h with
    | create => exact absurd ⟨by simp, by simp⟩ hquiet
    | move hq => exact absurd hq hquiet
    | change _ hq => exact absurd hq hquiet
    | replace k n =>
      obtain ⟨hentry, hinode, -⟩ := hs k _ rfl
      refine ⟨hlinked, fun p j x hj hx => ?_⟩
      rcases mem_replaced_values hj with ⟨-, hj⟩ | hj
      · rw [hentry, Option.some.injEq] at hj
        subst hj
        obtain rfl := Option.some.inj (hinode.symm.trans hx)
        rfl
      · exact hf.flushed p j x hj hx
    | flush =>
      exact ⟨hlinked, fun p j x hj hx => hf.flushed p j x (mem_flushDirectory_values hj) hx⟩
    | discard => exact absurd ⟨by simp, by simp⟩ hquiet

theorem Effect.owned {call : ℕ} {f f' : Directory P} {s s' : Stage} {o : Outcome}
    (h : Effect platform calls call f s o f' s') (hf : Sound f) (hs : Owned calls call f s) :
    Owned calls call f' s' := by
  cases h with
  | @create k hinode hentry =>
    intro j x hj
    simp only [prepared, Option.some.injEq, Prod.mk.injEq] at hj
    obtain ⟨rfl, rfl⟩ := hj
    refine ⟨Function.update_self .., put_inodes_self f k _, fun n hn => ?_⟩
    rw [create_values_other hn]
    exact hf.absent hinode n
  | move _ _ _ hkeeps => exact fun k x hk => hs k x (hkeeps _ hk)
  | @change _ _ _ k x g _ _ hbefore hafter =>
    obtain ⟨hentry, hinode, hothers⟩ := hs k x hbefore
    intro j y hj
    obtain ⟨rfl, rfl⟩ := Prod.mk.inj (hafter _ hj)
    refine ⟨hentry, ?_, hothers⟩
    rw [modify_inodes_self, hinode, Option.map_some]
  | replace => exact fun _ _ hk => by cases hk
  | flush => exact fun _ _ hk => by cases hk
  | discard => exact fun _ _ hk => by cases hk

/-- The temporary files of the other calls are left alone. -/
theorem Effect.frame {call : ℕ} {f f' : Directory P} {s s' : Stage} {o : Outcome}
    (h : Effect platform calls call f s o f' s') (hs : Owned calls call f s)
    {other : ℕ} (hother : other ≠ call) {t : Stage} (ht : Owned calls other f t) :
    Owned calls other f' t := by
  have hname : Name.temporary (P := P) other ≠ .temporary call := by simpa using hother
  intro k x hk
  obtain ⟨hentry, hinode, hothers⟩ := ht k x hk
  have hcall := hothers (.temporary call) (Ne.symm hname)
  cases h with
  | @create j hfree hnone =>
    have hjk : k ≠ j := by
      rintro rfl
      rw [hfree] at hinode
      cases hinode
    refine ⟨?_, ?_, fun n hn => ?_⟩
    · rw [← hentry]
      exact place_entries_other hname _
    · rw [← hinode]
      exact put_inodes_other f hjk _
    · intro hmem
      rcases mem_place_values hmem with hkj | hmem
      · exact hjk (Option.some.inj hkj)
      · exact hothers n hn hmem
  | move => exact ⟨hentry, hinode, hothers⟩
  | @change _ _ _ j y g _ _ hbefore =>
    refine ⟨hentry, ?_, hothers⟩
    rw [modify_inodes_other f _ g, hinode]
    rintro rfl
    exact hcall ((hs k y hbefore).1 ▸ mem_values_self f _)
  | replace j n =>
    have hjk : f.entries (.temporary call) ≠ some k := fun h => hcall (h ▸ mem_values_self f _)
    refine ⟨?_, hinode, fun n hn hmem => ?_⟩
    · rw [← hentry, Files.rename, place_entries_other hname,
        place_entries_other (path_ne_temporary _ other).symm]
    · rcases mem_place_values hmem with hnone | hmem
      · cases hnone
      · rcases mem_place_values hmem with hk' | hmem
        · exact hjk hk'.symm
        · exact hothers n hn hmem
  | flush => exact ⟨hentry, hinode, fun n hn hmem => hothers n hn (mem_flushDirectory_values hmem)⟩
  | discard =>
    refine ⟨?_, by rw [remove_inodes, hinode], fun n hn hmem => ?_⟩
    · rw [← hentry]
      exact remove_entries_other hname
    · rcases mem_remove_values hmem with hnone | hmem
      · cases hnone
      · exact hothers n hn hmem

/-! ## Whole runs -/

/-- What the path holds after the renames of a run. -/
def shown (calls : ℕ → Call P) (f : Directory P) (p : P) (ls : List (ℕ × Outcome)) :
    Option (List UInt8) :=
  ls.foldl (fun v l => if l.2 = .replaced ∧ (calls l.1).path = p then some (calls l.1).contents else v)
    (f.contents (.path p))

/-- No call has flushed the directory. -/
def Unflushed (ls : List (ℕ × Outcome)) : Prop := ∀ l ∈ ls, l.2 ≠ .flushed

/-- A path shows what the last rename put there, and all that a crash may bring back there is what
it showed at some point since the directory was flushed. -/
structure Explained (calls : ℕ → Call P) (f₀ : Directory P) (ls : List (ℕ × Outcome))
    (f : Directory P) : Prop where
  contents : ∀ p, f.contents (.path p) = shown calls f₀ p ls
  values : ∀ p v, v ∈ f.values (.path p) → ∃ past rest, ls = past ++ rest ∧ Unflushed rest ∧
    f.text v = shown calls f₀ p past

theorem inductive_sound (platform : Platform) (calls : ℕ → Call P) :
    Pool.Inductive (fun call f stage outcome => writePrivateFileAtomic platform calls call f stage outcome)
      (fun _ _ _ _ => True) Sound (Owned calls) where
  own := fun _ _ _ _ _ _ hf hs _ h => ⟨(effect_of_step h).sound hf hs, (effect_of_step h).owned hf hs⟩
  frame := fun _ _ _ _ _ _ _ hs _ h _ _ hother ht => (effect_of_step h).frame hs hother ht

theorem holds_of_runs {w₀ w : World P} {ls : List (ℕ × Outcome)} (h₀ : Fresh w₀)
    (hr : Runs (Fires (step platform calls)) w₀ ls w) : Pool.Holds Sound (Owned calls) w :=
  Pool.runs_invariant (inductive_sound platform calls) ⟨h₀.sound, h₀.owned calls⟩
    (hr.mono fun _ _ _ h => ⟨trivial, h⟩)

theorem shown_concat (calls : ℕ → Call P) (f : Directory P) (p : P) (ls : List (ℕ × Outcome))
    (l : ℕ × Outcome) :
    shown calls f p (ls ++ [l]) = if l.2 = .replaced ∧ (calls l.1).path = p
      then some (calls l.1).contents else shown calls f p ls := by
  rw [shown, List.foldl_append]
  rfl

theorem shown_quiet {f : Directory P} {p : P} {ls : List (ℕ × Outcome)} {l : ℕ × Outcome}
    (h : l.2 ≠ .replaced) : shown calls f p (ls ++ [l]) = shown calls f p ls := by
  rw [shown_concat, if_neg fun hl => h hl.1]

theorem Unflushed.concat {ls : List (ℕ × Outcome)} {l : ℕ × Outcome} (h : Unflushed ls)
    (hl : l.2 ≠ .flushed) : Unflushed (ls ++ [l]) := by
  intro m hm
  rcases List.mem_append.mp hm with hm | hm
  · exact h m hm
  · rwa [List.mem_singleton.mp hm]

/-- A value that was explained still is, unless the directory has been flushed. -/
theorem Explained.still {f₀ f f' : Directory P} {ls : List (ℕ × Outcome)} {l : ℕ × Outcome}
    (h : Explained calls f₀ ls f) (hl : l.2 ≠ .flushed) {p : P} {v : Option ℕ}
    (hv : v ∈ f.values (.path p)) (htext : f'.text v = f.text v) :
    ∃ past rest, ls ++ [l] = past ++ rest ∧ Unflushed rest ∧ f'.text v = shown calls f₀ p past := by
  obtain ⟨past, rest, hls, hrest, hshown⟩ := h.values p v hv
  exact ⟨past, rest ++ [l], by rw [hls, List.append_assoc], hrest.concat hl, htext.trans hshown⟩

theorem Explained.same {f₀ f f' : Directory P} {ls : List (ℕ × Outcome)} {l : ℕ × Outcome}
    (h : Explained calls f₀ ls f) (hl : Quiet l.2) (hsame : Same f f') :
    Explained calls f₀ (ls ++ [l]) f' where
  contents := fun p => by rw [hsame.contents, h.contents, shown_quiet hl.1]
  values := fun p v hv => by
    rw [hsame.values] at hv
    exact h.still hl.2 hv (hsame.text hv)

theorem Explained.replaced {f₀ f : Directory P} {ls : List (ℕ × Outcome)} {call k n : ℕ}
    (h : Explained calls f₀ ls f) (hs : Owned calls call f (.replace k n)) :
    Explained calls f₀ (ls ++ [(call, .replaced)])
      (f.rename (.temporary call) (.path (calls call).path)) := by
  have hcontents : ∀ p, (f.rename (.temporary call) (.path (calls call).path)).contents (.path p) =
      shown calls f₀ p (ls ++ [(call, .replaced)]) := by
    intro p
    rw [shown_concat]
    by_cases hp : (calls call).path = p
    · rw [if_pos ⟨rfl, hp⟩, ← hp]
      exact hs.renamed
    · rw [if_neg fun hl => hp hl.2, ← h.contents]
      exact congrArg f.text (rename_entries_other (path_ne_temporary p call) (by simpa using Ne.symm hp))
  refine ⟨hcontents, fun p v hv => ?_⟩
  rcases mem_replaced_values hv with ⟨rfl, rfl⟩ | hv
  · refine ⟨ls ++ [(call, .replaced)], [], (List.append_nil _).symm, by simp [Unflushed], ?_⟩
    rw [shown_concat, if_pos ⟨rfl, rfl⟩]
    exact hs.text
  · exact h.still (by simp) hv rfl

theorem Explained.flushed {f₀ f : Directory P} {ls : List (ℕ × Outcome)} {l : ℕ × Outcome}
    (h : Explained calls f₀ ls f) (hl : l.2 = .flushed) :
    Explained calls f₀ (ls ++ [l]) f.flushDirectory := by
  have hcontents : ∀ p, f.contents (.path p) = shown calls f₀ p (ls ++ [l]) := by
    intro p
    rw [shown_quiet (by simp [hl]), h.contents]
  refine ⟨hcontents, fun p v hv => ⟨ls ++ [l], [], (List.append_nil _).symm, by simp [Unflushed], ?_⟩⟩
  rw [List.mem_singleton.mp hv]
  exact hcontents p

theorem Explained.step {f₀ f f' : Directory P} {ls : List (ℕ × Outcome)} {l : ℕ × Outcome}
    {s s' : Stage} (h : Explained calls f₀ ls f) (hf : Sound f) (hs : Owned calls l.1 f s)
    (he : Effect platform calls l.1 f s l.2 f' s') : Explained calls f₀ (ls ++ [l]) f' := by
  by_cases hquiet : Quiet l.2
  · exact h.same hquiet (he.same hquiet hf hs)
  · obtain ⟨call, o⟩ := l
    cases he with
    | create => exact absurd ⟨by simp, by simp⟩ hquiet
    | move hq => exact absurd hq hquiet
    | change _ hq => exact absurd hq hquiet
    | replace k n =>
      exact h.replaced hs
    | flush => exact h.flushed rfl
    | discard => exact absurd ⟨by simp, by simp⟩ hquiet

theorem Fresh.explained {w : World P} (h : Fresh w) : Explained calls w.shared [] w.shared where
  contents := fun _ => rfl
  values := fun p v hv => by
    refine ⟨[], [], rfl, by simp [Unflushed], ?_⟩
    rw [Files.values, h.settled.recent, List.mem_singleton] at hv
    rw [hv]
    rfl

theorem explained_of_runs {w₀ w : World P} {ls : List (ℕ × Outcome)} (h₀ : Fresh w₀)
    (hr : Runs (Fires (step platform calls)) w₀ ls w) : Explained calls w₀.shared ls w.shared := by
  induction hr with
  | refl => exact h₀.explained
  | @tail u v ls l run last ih =>
    obtain ⟨hf, hs⟩ := holds_of_runs h₀ run
    obtain ⟨f, s, he, rfl⟩ := step_effect last
    exact ih.step hf (hs l.1) he

/-- The renames and the flushes of the directory that the calls have behind them. -/
structure Logged (platform : Platform) (ls : List (ℕ × Outcome)) (w : World P) : Prop where
  renamed : ∀ call, w.threads call = .syncDirectory → (call, .replaced) ∈ ls
  flushed : ∀ call, (call, .flushed) ∈ ls → (call, .replaced) ∈ ls
  returned : ∀ call, w.threads call = .returned true →
    (call, .replaced) ∈ ls ∧ (platform.flushesDirectory = true → (call, .flushed) ∈ ls)

theorem Effect.syncs {call : ℕ} {f f' : Directory P} {s s' : Stage} {o : Outcome}
    (h : Effect platform calls call f s o f' s') (hs : s' = .syncDirectory) : o = .replaced := by
  cases h with
  | create => cases hs
  | move _ hends => exact absurd hs hends.2
  | change _ _ hends => exact absurd hs hends.2.1
  | replace => rfl
  | flush => cases hs
  | discard => cases hs

theorem Effect.begins {call : ℕ} {f f' : Directory P} {s s' : Stage} {o : Outcome}
    (h : Effect platform calls call f s o f' s') : s' ≠ .create := by
  cases h with
  | move _ hends => exact hends.1
  | change _ _ hends => exact hends.1
  | _ => simp

theorem Effect.flushes {call : ℕ} {f f' : Directory P} {s s' : Stage} {o : Outcome}
    (h : Effect platform calls call f s o f' s') (ho : o = .flushed) : s = .syncDirectory := by
  cases h with
  | create => cases ho
  | move hquiet => exact absurd ho hquiet.2
  | change _ hquiet => exact absurd ho hquiet.2
  | replace => cases ho
  | flush => rfl
  | discard => cases ho

theorem Effect.returns {call : ℕ} {f f' : Directory P} {s s' : Stage} {o : Outcome}
    (h : Effect platform calls call f s o f' s') (hs : s' = .returned true) :
    s = .syncDirectory ∧ (platform.flushesDirectory = true → o = .flushed) := by
  cases h with
  | create => cases hs
  | move _ _ hreturns =>
    obtain ⟨hplatform, hstage⟩ := hreturns hs
    exact ⟨hstage, fun hflushes => by rw [hplatform] at hflushes; cases hflushes⟩
  | change _ _ hends => exact absurd hs hends.2.2
  | replace => cases hs
  | flush => exact ⟨rfl, fun _ => rfl⟩
  | discard => cases hs

theorem Logged.step {ls : List (ℕ × Outcome)} {w : World P} {l : ℕ × Outcome} {f : Directory P}
    {s : Stage} (h : Logged platform ls w)
    (he : Effect platform calls l.1 w.shared (w.threads l.1) l.2 f s) :
    Logged platform (ls ++ [l]) ⟨f, Function.update w.threads l.1 s⟩ := by
  have hold : ∀ {m : ℕ × Outcome}, m ∈ ls → m ∈ ls ++ [l] := fun hm => List.mem_append_left _ hm
  have hlast : ∀ {o : Outcome}, l.2 = o → (l.1, o) ∈ ls ++ [l] := by
    rintro o rfl
    exact List.mem_append_right _ List.mem_cons_self
  refine ⟨fun call hcall => ?_, fun call hcall => ?_, fun call hcall => ?_⟩
  · by_cases hown : call = l.1
    · subst hown
      simp only [Function.update_self] at hcall
      exact hlast (he.syncs hcall)
    · simp only [Function.update_of_ne hown] at hcall
      exact hold (h.renamed call hcall)
  · rcases List.mem_append.mp hcall with hcall | hcall
    · exact hold (h.flushed call hcall)
    · obtain rfl := List.mem_singleton.mp hcall
      exact hold (h.renamed call (he.flushes rfl))
  · by_cases hown : call = l.1
    · subst hown
      simp only [Function.update_self] at hcall
      obtain ⟨hstage, hflushes⟩ := he.returns hcall
      exact ⟨hold (h.renamed l.1 hstage), fun hplatform => hlast (hflushes hplatform)⟩
    · simp only [Function.update_of_ne hown] at hcall
      exact (h.returned call hcall).imp hold fun hf hplatform => hold (hf hplatform)

theorem logged_of_runs {w₀ w : World P} {ls : List (ℕ × Outcome)} (h₀ : Fresh w₀)
    (hr : Runs (Fires (step platform calls)) w₀ ls w) : Logged platform ls w := by
  induction hr with
  | refl =>
    refine ⟨fun call h => ?_, fun _ h => absurd h List.not_mem_nil, fun call h => ?_⟩
    all_goals
      rw [h₀.create call] at h
      cases h
  | tail _ last ih =>
    obtain ⟨f, s, he, rfl⟩ := step_effect last
    exact ih.step he

/-- A rename that a call has made shows until a later one for the same path. -/
theorem shown_after (calls : ℕ → Call P) (f : Directory P) (call : ℕ)
    (past rest : List (ℕ × Outcome)) :
    ∃ later, (later = call ∨ (later, .replaced) ∈ rest) ∧ (calls later).path = (calls call).path ∧
      shown calls f (calls call).path (past ++ (call, .replaced) :: rest) =
        some (calls later).contents := by
  induction rest using List.reverseRecOn with
  | nil =>
    refine ⟨call, .inl rfl, rfl, ?_⟩
    rw [shown_concat, if_pos ⟨rfl, rfl⟩]
  | append_singleton rest l ih =>
    have hshown := shown_concat calls f (calls call).path
      (past ++ (call, .replaced) :: rest) l
    rw [List.append_assoc, List.cons_append] at hshown
    rw [hshown]
    split
    · rename_i hl
      refine ⟨l.1, .inr ?_, hl.2, rfl⟩
      rw [← hl.1]
      exact List.mem_append_right _ List.mem_cons_self
    · obtain ⟨later, hlater, hpath, hih⟩ := ih
      exact ⟨later, hlater.imp_right (List.mem_append_left _), hpath, hih⟩

/-- Two calls for one file, in an empty directory. The second one does its rename first. -/
def empty : World Unit := ⟨⟨fun _ => none, fun _ => none, fun _ => []⟩, fun _ => .create⟩

def counted (call : ℕ) : Call Unit := ⟨(), [call.toUInt8]⟩

def twoCalls : List (ℕ × Outcome) :=
  [(0, .created 0), (1, .created 1), (1, .passed), (0, .passed), (1, .passed), (1, .passed),
    (0, .passed), (1, .passed), (0, .passed), (1, .passed), (1, .replaced), (0, .passed), (0, .passed),
    (0, .replaced), (1, .flushed)]

theorem empty_fresh : Fresh empty :=
  ⟨⟨fun _ _ h => by simp [Files.values, empty] at h, fun _ => rfl, fun _ _ h => by cases h⟩,
    fun _ => rfl⟩

theorem twoCalls_run : ∃ w g, Runs (Fires (step unix counted)) empty twoCalls w ∧ Crash w.shared g ∧
    w.threads 1 = .returned true ∧ w.shared.inodes 0 = some ⟨[0], true, true⟩ := by
  obtain ⟨w, hr, hw⟩ := @runs_of_exec_any _ _ (step unix counted) empty twoCalls
    (fun w => decide (w.threads 1 = .returned true ∧ w.shared.inodes 0 = some ⟨[0], true, true⟩))
    (by decide)
  obtain ⟨g, hg⟩ := exists_crash w.shared
  exact ⟨w, g, hr, hg, of_decide_eq_true hw⟩

theorem crash_explained {w₀ w : World P} {ls : List (ℕ × Outcome)} {g : Directory P} (h₀ : Fresh w₀)
    (hr : Runs (Fires (step platform calls)) w₀ ls w) (hg : Crash w.shared g) (p : P) :
    ∃ past rest, ls = past ++ rest ∧ Unflushed rest ∧
      g.contents (.path p) = shown calls w₀.shared p past := by
  obtain ⟨v, hv, hcontents⟩ := hg.contents ((holds_of_runs h₀ hr).1.flushed p)
  rw [hcontents]
  exact (explained_of_runs h₀ hr).values p v hv

/-- A path always has what the last rename put there, and a crash leaves there what the path had at
some point since the directory was last flushed: never a part of a call's contents. -/
theorem contents_of_runs {w₀ w : World P} {ls : List (ℕ × Outcome)} (h₀ : Fresh w₀)
    (hr : Runs (Fires (step platform calls)) w₀ ls w) (p : P) :
    w.shared.contents (.path p) = shown calls w₀.shared p ls ∧
      ∀ g, Crash w.shared g → ∃ past rest, ls = past ++ rest ∧ Unflushed rest ∧
        g.contents (.path p) = shown calls w₀.shared p past :=
  ⟨(explained_of_runs h₀ hr).contents p, fun _ hg => crash_explained h₀ hr hg p⟩

theorem contents_of_runs_twoCalls : ∃ w, Runs (Fires (step unix counted)) empty twoCalls w ∧
    w.shared.contents (.path ()) = shown counted empty.shared () twoCalls ∧
      ∀ g, Crash w.shared g → ∃ past rest, twoCalls = past ++ rest ∧ Unflushed rest ∧
        g.contents (.path ()) = shown counted empty.shared () past := by
  obtain ⟨w, g, hr, -⟩ := twoCalls_run
  exact ⟨w, hr, contents_of_runs empty_fresh hr ()⟩

/-- Where a successful call has flushed the directory, a crash does not take its file back: the path
has the contents of that call or of one that renamed after it. -/
theorem success_survives {w₀ w : World P} {ls : List (ℕ × Outcome)} {g : Directory P} {call : ℕ}
    (h₀ : Fresh w₀) (hr : Runs (Fires (step platform calls)) w₀ ls w) (hg : Crash w.shared g)
    (hplatform : platform.flushesDirectory = true) (hcall : w.threads call = .returned true) :
    ∃ past rest, ls = past ++ (call, .replaced) :: rest ∧
      ∃ later, (later = call ∨ (later, .replaced) ∈ rest) ∧ (calls later).path = (calls call).path ∧
        g.contents (.path (calls call).path) = some (calls later).contents := by
  obtain ⟨before, after, rfl, hafter, hcontents⟩ := crash_explained h₀ hr hg (calls call).path
  have hflushed := ((logged_of_runs h₀ hr).returned call hcall).2 hplatform
  have hbefore : (call, Outcome.flushed) ∈ before :=
    (List.mem_append.mp hflushed).resolve_right fun h => hafter _ h rfl
  obtain ⟨u, hu, -⟩ := hr.of_append
  obtain ⟨past, rest, rfl⟩ := List.append_of_mem ((logged_of_runs h₀ hu).flushed call hbefore)
  obtain ⟨later, hlater, hpath, hshown⟩ := shown_after calls w₀.shared call past rest
  refine ⟨past, rest ++ after, by simp, later, ?_, hpath, hcontents.trans hshown⟩
  exact hlater.imp_right (List.mem_append_left _)

theorem success_survives_twoCalls : ∃ w g, Runs (Fires (step unix counted)) empty twoCalls w ∧
    Crash w.shared g ∧ ∃ past rest, twoCalls = past ++ (1, .replaced) :: rest ∧
      ∃ later, (later = 1 ∨ (later, .replaced) ∈ rest) ∧ (counted later).path = (counted 1).path ∧
        g.contents (.path (counted 1).path) = some (counted later).contents := by
  obtain ⟨w, g, hr, hg, hreturned, -⟩ := twoCalls_run
  exact ⟨w, g, hr, hg, success_survives empty_fresh hr hg rfl hreturned⟩

theorem Effect.sealed {call : ℕ} {f f' : Directory P} {s s' : Stage} {o : Outcome}
    (h : Effect platform calls call f s o f' s') (hs : Owned calls call f s) {k : ℕ} {x : Inode}
    (hx : f'.inodes k = some x) : f.inodes k = some x ∨ x.restricted = true ∨ x.data = [] := by
  cases h with
  | @create j =>
    by_cases hk : k = j
    · subst hk
      obtain rfl := Option.some.inj ((put_inodes_self f k _).symm.trans hx)
      exact .inr (.inr rfl)
    · exact .inl ((put_inodes_other f hk _).symm.trans hx)
  | move => exact .inl hx
  | @change _ _ _ j y g _ _ hbefore _ hsealed =>
    by_cases hk : k = j
    · subst hk
      rw [modify_inodes_self, (hs k y hbefore).2.1, Option.map_some, Option.some.injEq] at hx
      rw [← hx]
      exact .inr hsealed
    · exact .inl ((modify_inodes_other f hk g).symm.trans hx)
  | replace => exact .inl hx
  | flush => exact .inl hx
  | discard => exact .inl (by rwa [remove_inodes] at hx)

/-- No file that a run has made holds a byte before it is closed to everyone else. -/
theorem sealed_of_runs {w₀ w : World P} {ls : List (ℕ × Outcome)} (h₀ : Fresh w₀)
    (hr : Runs (Fires (step platform calls)) w₀ ls w) {k : ℕ} {x : Inode}
    (hnew : w₀.shared.inodes k = none) (hx : w.shared.inodes k = some x) :
    x.restricted = true ∨ x.data = [] := by
  induction hr generalizing x with
  | refl =>
    rw [hnew] at hx
    cases hx
  | @tail u v ls l run last ih =>
    obtain ⟨f, s, he, rfl⟩ := step_effect last
    rcases he.sealed ((holds_of_runs h₀ run).2 l.1) hx with hx | hsealed
    · exact ih hx
    · exact hsealed

theorem sealed_of_runs_twoCalls : ∃ w x, Runs (Fires (step unix counted)) empty twoCalls w ∧
    w.shared.inodes 0 = some x ∧ (x.restricted = true ∨ x.data = []) := by
  obtain ⟨w, g, hr, -, -, hx⟩ := twoCalls_run
  exact ⟨w, _, hr, hx, sealed_of_runs empty_fresh hr rfl hx⟩

end SubscriptionRouter.PrivateFiles
