import Mathlib

set_option autoImplicit false

/-!
# Files that a crash may take back

The files of one directory. The device holds the bytes of a file for certain once the file is
flushed, and an entry of the directory once the directory is flushed. Until then a crash leaves
any bytes in the file, and in the entry any of the values that it has had.
-/
namespace SubscriptionRouter.DurableFiles

/-- What is read from a file, whether the device holds just that, and whether the file is closed
to everyone but its owner. -/
structure Inode where
  data : List UInt8
  flushed : Bool
  restricted : Bool
  deriving DecidableEq

/-- `recent` has the values of an entry, but for the present one, since the directory was flushed. -/
structure Files (N : Type) where
  inodes : ℕ → Option Inode
  entries : N → Option ℕ
  recent : N → List (Option ℕ)

variable {N : Type}

def Files.modify (f : Files N) (k : ℕ) (g : Inode → Inode) : Files N :=
  { f with inodes := Function.update f.inodes k ((f.inodes k).map g) }

def Files.put (f : Files N) (k : ℕ) (x : Inode) : Files N :=
  { f with inodes := Function.update f.inodes k (some x) }

def Files.restrict (f : Files N) (k : ℕ) : Files N := f.modify k fun x => { x with restricted := true }

def Files.write (f : Files N) (k : ℕ) (bytes : List UInt8) : Files N :=
  f.modify k fun x => { x with data := x.data ++ bytes, flushed := false }

def Files.flush (f : Files N) (k : ℕ) : Files N := f.modify k fun x => { x with flushed := true }

def Files.flushDirectory (f : Files N) : Files N := { f with recent := fun _ => [] }

def Files.values (f : Files N) (n : N) : List (Option ℕ) := f.entries n :: f.recent n

def Files.text (f : Files N) (v : Option ℕ) : Option (List UInt8) :=
  v.bind fun k => (f.inodes k).map Inode.data

def Files.contents (f : Files N) (n : N) : Option (List UInt8) := f.text (f.entries n)

structure Crash (f g : Files N) : Prop where
  entries : ∀ n, g.entries n ∈ f.values n
  recent : ∀ n, g.recent n = []
  absent : ∀ k, f.inodes k = none → g.inodes k = none
  present : ∀ k x, f.inodes k = some x → ∃ y, g.inodes k = some y ∧ y.flushed = true ∧
    (x.flushed = true → y = x)

def Files.Linked (f : Files N) : Prop := ∀ n k, some k ∈ f.values n → (f.inodes k).isSome = true

/-- Nothing can be lost. -/
structure Files.Settled (f : Files N) : Prop where
  linked : f.Linked
  recent : ∀ n, f.recent n = []
  flushed : ∀ k x, f.inodes k = some x → x.flushed = true

/-! ## Bytes -/

@[simp]
theorem modify_values (f : Files N) (k : ℕ) (g : Inode → Inode) (n : N) :
    (f.modify k g).values n = f.values n := rfl

@[simp]
theorem put_values (f : Files N) (k : ℕ) (x : Inode) (n : N) : (f.put k x).values n = f.values n := rfl

theorem modify_inodes_self (f : Files N) (k : ℕ) (g : Inode → Inode) :
    (f.modify k g).inodes k = (f.inodes k).map g := Function.update_self ..

theorem modify_inodes_other (f : Files N) {j k : ℕ} (h : j ≠ k) (g : Inode → Inode) :
    (f.modify k g).inodes j = f.inodes j := Function.update_of_ne h ..

theorem put_inodes_self (f : Files N) (k : ℕ) (x : Inode) : (f.put k x).inodes k = some x :=
  Function.update_self ..

theorem put_inodes_other (f : Files N) {j k : ℕ} (h : j ≠ k) (x : Inode) :
    (f.put k x).inodes j = f.inodes j := Function.update_of_ne h ..

theorem mem_values_self (f : Files N) (n : N) : f.entries n ∈ f.values n := List.mem_cons_self

theorem text_congr {f g : Files N} {v : Option ℕ} (h : ∀ k, v = some k → f.inodes k = g.inodes k) :
    f.text v = g.text v := by
  cases v with
  | none => rfl
  | some k => rw [Files.text, Files.text, Option.bind_some, Option.bind_some, h k rfl]

theorem Crash.contents {f g : Files N} (h : Crash f g) {n : N}
    (hflushed : ∀ k x, some k ∈ f.values n → f.inodes k = some x → x.flushed = true) :
    ∃ v ∈ f.values n, g.contents n = f.text v := by
  refine ⟨g.entries n, h.entries n, ?_⟩
  refine text_congr fun k hk => ?_
  have hmem := h.entries n
  rw [hk] at hmem
  cases hx : f.inodes k with
  | none => exact h.absent k hx
  | some x =>
    obtain ⟨y, hy, -, hsame⟩ := h.present k x hx
    rw [hy, hsame (hflushed k x hmem hx)]

theorem exists_crash (f : Files N) : ∃ g, Crash f g := by
  refine ⟨⟨fun k => (f.inodes k).map fun x => { x with flushed := true }, f.entries, fun _ => []⟩,
    mem_values_self f, fun _ => rfl, fun k hk => ?_, fun k x hx => ?_⟩
  · simp only [hk, Option.map_none]
  · refine ⟨{ x with flushed := true }, by simp only [hx, Option.map_some], rfl, fun hflushed => ?_⟩
    rw [← hflushed]

theorem Crash.settled {f g : Files N} (h : Crash f g) (hf : f.Linked) : g.Settled where
  linked := fun n k hk => by
    rw [Files.values, h.recent n, List.mem_singleton] at hk
    have hmem := h.entries n
    rw [← hk] at hmem
    obtain ⟨x, hx⟩ := Option.isSome_iff_exists.mp (hf n k hmem)
    obtain ⟨y, hy, -, -⟩ := h.present k x hx
    rw [hy]
    rfl
  recent := h.recent
  flushed := fun k y hy => by
    cases hx : f.inodes k with
    | none =>
      rw [h.absent k hx] at hy
      cases hy
    | some x =>
      obtain ⟨z, hz, hflushed, -⟩ := h.present k x hx
      obtain rfl := Option.some.inj (hz.symm.trans hy)
      exact hflushed

theorem Files.Linked.modify {f : Files N} (h : f.Linked) (k : ℕ) (g : Inode → Inode) :
    (f.modify k g).Linked := by
  intro n j hj
  have hsome := h n j hj
  by_cases hjk : j = k
  · subst hjk
    rw [modify_inodes_self, Option.isSome_map]
    exact hsome
  · rwa [modify_inodes_other f hjk]

theorem Files.Linked.put {f : Files N} (h : f.Linked) (k : ℕ) (x : Inode) : (f.put k x).Linked := by
  intro n j hj
  by_cases hjk : j = k
  · subst hjk
    rw [put_inodes_self]
    rfl
  · rw [put_inodes_other f hjk]
    exact h n j hj

theorem Files.Linked.entry {f : Files N} (h : f.Linked) {n : N} {k : ℕ} (hk : f.entries n = some k) :
    (f.inodes k).isSome = true :=
  h n k (hk ▸ mem_values_self f n)

theorem mem_flushDirectory_values {f : Files N} {n : N} {v : Option ℕ}
    (h : v ∈ f.flushDirectory.values n) : v ∈ f.values n := by
  rw [List.mem_singleton.mp h]
  exact mem_values_self f n

theorem Files.Linked.flushDirectory {f : Files N} (h : f.Linked) : f.flushDirectory.Linked :=
  fun n k hk => h n k (mem_flushDirectory_values hk)

/-! ## Names -/

section Names
variable [DecidableEq N]

def Files.place (f : Files N) (n : N) (v : Option ℕ) : Files N :=
  { f with
    entries := Function.update f.entries n v
    recent := Function.update f.recent n (f.entries n :: f.recent n) }

def Files.create (f : Files N) (n : N) (k : ℕ) : Files N :=
  (f.put k ⟨[], false, false⟩).place n (some k)

def Files.rename (f : Files N) (a b : N) : Files N := (f.place b (f.entries a)).place a none

def Files.remove (f : Files N) (n : N) : Files N := if f.entries n = none then f else f.place n none

variable {f : Files N} {k : ℕ}

@[simp]
theorem place_inodes (n : N) (v : Option ℕ) : (f.place n v).inodes = f.inodes := rfl

theorem place_entries_other {m n : N} (h : m ≠ n) (v : Option ℕ) :
    (f.place n v).entries m = f.entries m := Function.update_of_ne h ..

theorem place_values_self (n : N) (v : Option ℕ) : (f.place n v).values n = v :: f.values n := by
  simp [Files.values, Files.place]

theorem place_values_other {m n : N} (h : m ≠ n) (v : Option ℕ) :
    (f.place n v).values m = f.values m := by
  simp [Files.values, Files.place, Function.update_of_ne h]

theorem mem_place_values {m n : N} {u v : Option ℕ} (h : u ∈ (f.place n v).values m) :
    u = v ∨ u ∈ f.values m := by
  by_cases hm : m = n
  · subst hm
    rw [place_values_self] at h
    exact List.mem_cons.mp h
  · rw [place_values_other hm] at h
    exact .inr h

theorem create_values_other {m n : N} (h : m ≠ n) : (f.create n k).values m = f.values m :=
  place_values_other h (some k)

theorem rename_entries_target {a b : N} (h : a ≠ b) : (f.rename a b).entries b = f.entries a := by
  rw [Files.rename, place_entries_other h.symm]
  exact Function.update_self ..

theorem rename_entries_other {a b n : N} (ha : n ≠ a) (hb : n ≠ b) :
    (f.rename a b).entries n = f.entries n := by
  rw [Files.rename, place_entries_other ha, place_entries_other hb]

theorem rename_values_target {a b : N} (h : a ≠ b) :
    (f.rename a b).values b = f.entries a :: f.values b := by
  rw [Files.rename, place_values_other h.symm, place_values_self]

theorem rename_values_other {a b n : N} (ha : n ≠ a) (hb : n ≠ b) :
    (f.rename a b).values n = f.values n := by
  rw [Files.rename, place_values_other ha, place_values_other hb]

theorem remove_inodes (n : N) : (f.remove n).inodes = f.inodes := by
  unfold Files.remove
  split <;> rfl

theorem remove_values_other {m n : N} (h : m ≠ n) : (f.remove n).values m = f.values m := by
  unfold Files.remove
  split
  · rfl
  · exact place_values_other h none

theorem remove_entries_other {m n : N} (h : m ≠ n) : (f.remove n).entries m = f.entries m :=
  (List.cons.inj (remove_values_other h)).1

theorem mem_remove_values {m n : N} {v : Option ℕ} (h : v ∈ (f.remove n).values m) :
    v = none ∨ v ∈ f.values m := by
  unfold Files.remove at h
  split at h
  · exact .inr h
  · exact mem_place_values h

theorem Files.Linked.place {f : Files N} (h : f.Linked) (n : N) {v : Option ℕ}
    (hv : ∀ k, v = some k → (f.inodes k).isSome = true) : (f.place n v).Linked := by
  intro m k hk
  rcases mem_place_values hk with hkv | hk
  · exact hv k hkv.symm
  · exact h m k hk

theorem Files.Linked.create {f : Files N} (h : f.Linked) (n : N) (k : ℕ) : (f.create n k).Linked := by
  refine (h.put k _).place n fun j hj => ?_
  cases hj
  rw [put_inodes_self]
  rfl

theorem Files.Linked.rename {f : Files N} (h : f.Linked) (a b : N) : (f.rename a b).Linked :=
  (h.place b fun _ hk => h.entry hk).place a fun _ hk => by cases hk

theorem Files.Linked.remove {f : Files N} (h : f.Linked) (n : N) : (f.remove n).Linked := by
  unfold Files.remove
  split
  · exact h
  · exact h.place n fun _ hk => by cases hk

end Names

end SubscriptionRouter.DurableFiles
