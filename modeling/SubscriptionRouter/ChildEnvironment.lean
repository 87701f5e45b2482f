import Mathlib
import SubscriptionRouter.LaunchPlan
import SubscriptionRouter.Tallies

set_option autoImplicit false

/-!
# The environment of the launched app

`childEnvironment` takes the variables away that must not reach the app and sets the router's own,
in the place of an inherited one where there is one. It compares names by `strings.ToUpper`.
-/
namespace SubscriptionRouter.ChildEnvironment
open GoText GoCase LaunchPlan

/-! ## Entries -/

def nameOf (entry : GoString) : Option GoString :=
  let name := entry.takeWhile (· ≠ 0x3D)
  if 0x3D ∈ entry ∧ name ≠ [] then some name else none

def valueOf (entry : GoString) : GoString := (entry.dropWhile (· ≠ 0x3D)).tail

def entryOf (name value : GoString) : GoString := name ++ 0x3D :: value

/-! ## The environment -/

def strippedChildEnvironment : List GoString := [lit "CODEX_MUX_CONTROL_TOKEN", lit "CODEX_MUX_UI_TESTS"]

def appshotsEnvironment : GoString := lit "CODEX_ROUTER_ENABLE_APPSHOTS"

def controlPortEnvironment : GoString := lit "CODEX_MUX_CONTROL_PORT"

def environmentWithout (environment names : List GoString) : List GoString :=
  let blocked := names.map toUpper
  environment.filter fun entry => !(nameOf entry).any fun name => toUpper name ∈ blocked

/-- The loop over the entries, with the keys that were emitted. -/
def replaceEntries (normalized : GoMap GoString) :
    List GoString → List GoString → List GoString × List GoString
  | [], emitted => ([], emitted)
  | entry :: environment, emitted =>
    match nameOf entry with
    | none =>
      let kept := replaceEntries normalized environment emitted
      (entry :: kept.1, kept.2)
    | some name =>
      match normalized[toUpper name]? with
      | none =>
        let kept := replaceEntries normalized environment emitted
        (entry :: kept.1, kept.2)
      | some value =>
        if toUpper name ∈ emitted then replaceEntries normalized environment emitted
        else
          let after := replaceEntries normalized environment (toUpper name :: emitted)
          (entryOf name value :: after.1, after.2)

def normalize (replacements : List (GoString × GoString)) : GoMap GoString :=
  Std.ExtTreeMap.ofList (replacements.map fun r => (toUpper r.1, r.2)) compare

def environmentWith (environment : List GoString) (replacements : List (GoString × GoString)) :
    List GoString :=
  let normalized := normalize replacements
  let replaced := replaceEntries normalized environment []
  let remaining := normalized.toList.filter fun entry => entry.1 ∉ replaced.2
  replaced.1 ++ remaining.map fun entry => entryOf entry.1 entry.2

/-- Every occurrence has to be exactly `1`. -/
def explicitEnvironmentOptIn (environment : List GoString) (name : GoString) : Bool :=
  let found := environment.filter fun entry => (nameOf entry).any fun n => equalFold n name
  found ≠ [] && found.all fun entry => valueOf entry = lit "1"

def routerVariables (plan : Plan) (appshots : Bool) : List (GoString × GoString) :=
  [(lit "CODEX_ROUTER_DATA_DIR", plan.stateRoot),
    (lit "CODEX_MUX_HOME", plan.stateRoot),
    (lit "CODEX_MUX_STATE_ROOT", plan.stateRoot),
    (lit "CODEX_ELECTRON_USER_DATA_PATH", plan.profile),
    (lit "CODEX_CLI_PATH", plan.mux),
    (lit "CODEX_MUX_REAL_CODEX", plan.realCodex),
    (lit "CODEX_MUX_REQUEST_SPENDING", lit "1"),
    (lit "CODEX_SPARKLE_ENABLED", lit "false"),
    (controlPortEnvironment, itoa plan.controlPort),
    (appshotsEnvironment, if appshots then lit "1" else lit "0")]

def childEnvironment (environment : List GoString) (plan : Plan) : List GoString :=
  environmentWith (environmentWithout environment strippedChildEnvironment)
    (routerVariables plan (explicitEnvironmentOptIn environment appshotsEnvironment))

/-! ## The environment that is meant -/

def sameName (a b : GoString) : Bool := a.map upperByte = b.map upperByte

/-- The entry is for the variable, whatever the case of its ASCII letters. -/
def named (entry v : GoString) : Bool := (nameOf entry).any fun name => sameName name v

def optedIn (environment : List GoString) : Bool :=
  let found := environment.filter fun entry => named entry appshotsEnvironment
  found ≠ [] && found.all fun entry => valueOf entry = lit "1"

def routerNames : List GoString := (routerVariables ⟨[], [], [], [], [], [], [], 0, 0, []⟩ false).map Prod.fst

structure AsPlanned (plan : Plan) (environment child : List GoString) : Prop where
  router : ∀ v ∈ routerVariables plan (optedIn environment), ∃ name,
    child.filter (fun entry => named entry v.1) = [entryOf name v.2]
  stripped : ∀ v ∈ strippedChildEnvironment, ∀ entry ∈ child, named entry v = false
  others : child.filter (fun entry => ∀ v ∈ routerNames, named entry v = false) =
    environment.filter fun entry => ∀ v ∈ routerNames ++ strippedChildEnvironment, named entry v = false

/-! ## Names -/

def key (entry : GoString) : Option GoString := (nameOf entry).map toUpper

section Names
variable {entry name value v : GoString}

theorem nameOf_eq_some (h : nameOf entry = some name) :
    name ≠ [] ∧ 0x3D ∉ name ∧ entry = entryOf name (valueOf entry) := by
  unfold nameOf at h
  by_cases hif : 0x3D ∈ entry ∧ entry.takeWhile (· ≠ 0x3D) ≠ []
  · rw [if_pos hif, Option.some.injEq] at h
    subst h
    refine ⟨hif.2, fun hmem => by simpa using List.mem_takeWhile_imp hmem, ?_⟩
    have hrest : entry.dropWhile (· ≠ 0x3D) ≠ [] := by
      simpa using hif.1
    obtain ⟨b, after, hcons⟩ := List.exists_cons_of_ne_nil hrest
    have hb : b = 0x3D := by
      have hfirst := List.head?_dropWhile_not (fun b : UInt8 => decide (b ≠ 0x3D)) entry
      rw [hcons] at hfirst
      simpa using hfirst
    conv_lhs => rw [← List.takeWhile_append_dropWhile (p := fun b => decide (b ≠ (0x3D : UInt8))) (l := entry)]
    rw [entryOf, valueOf, hcons, hb, List.tail_cons]
  · rw [if_neg hif] at h
    cases h

theorem nameOf_entryOf (hne : name ≠ []) (hseparator : 0x3D ∉ name) (value : GoString) :
    nameOf (entryOf name value) = some name := by
  have hbefore : ∀ b ∈ name, decide (b ≠ 0x3D) = true := by
    intro b hb
    refine decide_eq_true ?_
    rintro rfl
    exact hseparator hb
  have htake : (entryOf name value).takeWhile (· ≠ 0x3D) = name := by
    rw [entryOf, List.takeWhile_append_of_pos hbefore, List.takeWhile_cons_of_neg (by simp), List.append_nil]
  unfold nameOf
  rw [htake, if_pos ⟨by simp [entryOf], hne⟩]

/-- The names of the source are upper case ASCII. -/
structure Upper (v : GoString) : Prop where
  ne : v ≠ []
  separator : 0x3D ∉ v
  ascii : ∀ b ∈ v, b < 0x80
  upper : v.map upperByte = v

def isNameByte (b : UInt8) : Bool := (0x41 ≤ b.toNat && b.toNat ≤ 0x5A) || b.toNat = 0x5F

theorem upper_of_nameBytes (hne : v ≠ []) (h : v.all isNameByte = true) : Upper v := by
  have hbyte : ∀ b ∈ v, (0x41 ≤ b.toNat ∧ b.toNat ≤ 0x5A) ∨ b.toNat = 0x5F := fun b hb => by
    simpa [isNameByte] using List.all_eq_true.mp h b hb
  refine ⟨hne, fun hmem => absurd (hbyte _ hmem) (by decide), fun b hb => ?_, ?_⟩
  · have hlow := hbyte b hb
    exact UInt8.lt_iff_toNat_lt.mpr (show b.toNat < 128 by omega)
  · refine (List.map_congr_left fun b hb => ?_).trans (List.map_id v)
    have hlow := hbyte b hb
    have hnot : ¬ 0x61 ≤ b.toNat := by omega
    simp [upperByte, UInt8.le_iff_toNat_le, hnot]

theorem upper_names : ∀ v ∈ routerNames ++ strippedChildEnvironment, Upper v := by
  have h : ∀ v ∈ routerNames ++ strippedChildEnvironment, (v ≠ [] && v.all isNameByte) = true := by
    decide
  intro v hv
  obtain ⟨hne, hbytes⟩ := (Bool.and_eq_true _ _).mp (h v hv)
  exact upper_of_nameBytes (of_decide_eq_true hne) hbytes

theorem names_nodup : (routerNames ++ strippedChildEnvironment).Nodup := by decide

theorem ascii_of_sameName (hv : Upper v) (h : sameName name v = true) : ∀ b ∈ name, b < 0x80 := by
  intro b hb
  have hmem := List.mem_map_of_mem (f := upperByte) hb
  rw [of_decide_eq_true h, hv.upper] at hmem
  exact upperByte_lt (hv.ascii _ hmem)

theorem toUpper_of_sameName (hv : Upper v) (h : sameName name v = true) : toUpper name = v := by
  rw [toUpper_ascii (ascii_of_sameName hv h), of_decide_eq_true h, hv.upper]

theorem key_of_named (hv : Upper v) (h : named entry v = true) : key entry = some v := by
  unfold named at h
  cases hname : nameOf entry with
  | none => simp [hname] at h
  | some name =>
    rw [hname, Option.any_some] at h
    rw [key, hname, Option.map_some, toUpper_of_sameName hv h]

end Names

/-! ## What the loop leaves -/

section Replace
variable {normalized : GoMap GoString} {environment emitted : List GoString} {v value : GoString}

theorem key_entryOf {name : GoString} (hne : name ≠ []) (hseparator : 0x3D ∉ name) (value : GoString) :
    key (entryOf name value) = some (toUpper name) := by
  rw [key, nameOf_entryOf hne hseparator, Option.map_some]

def spared (normalized : GoMap GoString) (entry : GoString) : Bool :=
  (key entry).all fun k => normalized[k]?.isNone

/-- An entry is kept, left out, or replaced. -/
theorem replaceEntries_cons (normalized : GoMap GoString) (entry : GoString)
    (environment emitted : List GoString) :
    (spared normalized entry = true ∧ replaceEntries normalized (entry :: environment) emitted =
      (entry :: (replaceEntries normalized environment emitted).1,
        (replaceEntries normalized environment emitted).2)) ∨
    (∃ k value, key entry = some k ∧ normalized[k]? = some value ∧ k ∈ emitted ∧
      replaceEntries normalized (entry :: environment) emitted =
        replaceEntries normalized environment emitted) ∨
    ∃ name value, nameOf entry = some name ∧ normalized[toUpper name]? = some value ∧ toUpper name ∉ emitted ∧
      replaceEntries normalized (entry :: environment) emitted =
        (entryOf name value :: (replaceEntries normalized environment (toUpper name :: emitted)).1,
          (replaceEntries normalized environment (toUpper name :: emitted)).2) := by
  cases hname : nameOf entry with
  | none => exact .inl ⟨by simp [spared, key, hname], by simp [replaceEntries, hname]⟩
  | some name =>
    cases hfound : normalized[toUpper name]? with
    | none => exact .inl ⟨by simp [spared, key, hname, hfound], by simp [replaceEntries, hname, hfound]⟩
    | some value =>
      by_cases hseen : toUpper name ∈ emitted
      · exact .inr (.inl ⟨_, value, by rw [key, hname, Option.map_some], hfound, hseen,
          by simp [replaceEntries, hname, hfound, hseen]⟩)
      · exact .inr (.inr ⟨name, value, rfl, hfound, hseen, by simp [replaceEntries, hname, hfound, hseen]⟩)

theorem key_replaced {entry name : GoString} (h : nameOf entry = some name) (value : GoString) :
    key (entryOf name value) = some (toUpper name) :=
  key_entryOf (nameOf_eq_some h).1 (nameOf_eq_some h).2.1 value

theorem key_ne_of_spared {entry : GoString} (hv : normalized[v]? = some value)
    (h : spared normalized entry = true) : ¬ key entry = some v := by
  intro hkey
  rw [spared, hkey, Option.all_some, hv] at h
  cases h

variable (environment) in
theorem replaceEntries_emitted (hv : normalized[v]? = some value) (hemitted : v ∈ emitted) :
    (replaceEntries normalized environment emitted).1.filter (fun entry => key entry = some v) = [] ∧
      v ∈ (replaceEntries normalized environment emitted).2 := by
  induction environment generalizing emitted with
  | nil => exact ⟨rfl, hemitted⟩
  | cons entry environment ih =>
    rcases replaceEntries_cons normalized entry environment emitted with
      ⟨hspared, h⟩ | ⟨k, value', -, -, -, h⟩ | ⟨name, value', hname, -, hfresh, h⟩
    · rw [h, List.filter_cons_of_neg (by simpa using key_ne_of_spared hv hspared)]
      exact ih hemitted
    · rw [h]
      exact ih hemitted
    · have hne : ¬ key (entryOf name value') = some v := by
        rw [key_replaced hname, Option.some.injEq]
        rintro rfl
        exact hfresh hemitted
      rw [h, List.filter_cons_of_neg (by simpa using hne)]
      exact ih (List.mem_cons_of_mem _ hemitted)

variable (environment) in
/-- The first entry of a key keeps the spelling of its name and gets the value. -/
theorem replaceEntries_key (hv : normalized[v]? = some value) (hemitted : v ∉ emitted) :
    (∃ entry ∈ environment, ∃ name, nameOf entry = some name ∧ toUpper name = v ∧
      (replaceEntries normalized environment emitted).1.filter (fun entry => key entry = some v) =
        [entryOf name value] ∧
      v ∈ (replaceEntries normalized environment emitted).2) ∨
    ((replaceEntries normalized environment emitted).1.filter (fun entry => key entry = some v) = [] ∧
      v ∉ (replaceEntries normalized environment emitted).2) := by
  induction environment generalizing emitted with
  | nil => exact .inr ⟨rfl, hemitted⟩
  | cons entry environment ih =>
    have hlift {P : GoString → Prop} (h : ∃ e ∈ environment, P e) : ∃ e ∈ entry :: environment, P e := by
      obtain ⟨e, he, hP⟩ := h
      exact ⟨e, List.mem_cons_of_mem _ he, hP⟩
    rcases replaceEntries_cons normalized entry environment emitted with
      ⟨hspared, h⟩ | ⟨k, value', -, -, -, h⟩ | ⟨name, value', hname, hfound, hfresh, h⟩
    · rw [h, List.filter_cons_of_neg (by simpa using key_ne_of_spared hv hspared)]
      exact (ih hemitted).imp_left hlift
    · rw [h]
      exact (ih hemitted).imp_left hlift
    · rw [h]
      by_cases hsame : toUpper name = v
      · -- the loop has met the key, so nothing after it is emitted for the key
        obtain ⟨hnone, hmem⟩ := replaceEntries_emitted environment hv
          (hsame ▸ List.mem_cons_self (a := toUpper name) (l := emitted))
        rw [hsame] at hfound
        obtain rfl : value = value' := Option.some.inj (hv.symm.trans hfound)
        refine .inl ⟨entry, List.mem_cons_self, name, hname, hsame, ?_, ?_⟩
        · rw [List.filter_cons_of_pos (by simpa [key_replaced hname] using hsame), hsame, hnone]
        · rw [hsame]
          exact hmem
      · have hne : ¬ key (entryOf name value') = some v := by
          rwa [key_replaced hname, Option.some.injEq]
        rw [List.filter_cons_of_neg (by simpa using hne)]
        refine (ih ?_).imp_left hlift
        rw [List.mem_cons, not_or]
        exact ⟨Ne.symm hsame, hemitted⟩

theorem replaceEntries_spared :
    (replaceEntries normalized environment emitted).1.filter (spared normalized) =
      environment.filter (spared normalized) := by
  induction environment generalizing emitted with
  | nil => rfl
  | cons entry environment ih =>
    rcases replaceEntries_cons normalized entry environment emitted with
      ⟨hspared, h⟩ | ⟨k, value, hkey, hfound, -, h⟩ | ⟨name, value, hname, hfound, -, h⟩
    · rw [h, List.filter_cons_of_pos hspared, List.filter_cons_of_pos hspared, ih]
    · have hnot : ¬ spared normalized entry = true := fun hspared => key_ne_of_spared hfound hspared hkey
      rw [h, List.filter_cons_of_neg hnot, ih]
    · have hkey : key entry = some (toUpper name) := by rw [key, hname, Option.map_some]
      have hnot : ¬ spared normalized entry = true := fun hspared => key_ne_of_spared hfound hspared hkey
      have hnot' : ¬ spared normalized (entryOf name value) = true :=
        fun hspared => key_ne_of_spared hfound hspared (key_replaced hname value)
      rw [h, List.filter_cons_of_neg hnot, List.filter_cons_of_neg hnot', ih]

theorem nameOf_replaceEntries {entry : GoString}
    (h : entry ∈ (replaceEntries normalized environment emitted).1) :
    ∃ entry' ∈ environment, nameOf entry = nameOf entry' := by
  induction environment generalizing emitted with
  | nil => cases h
  | cons first environment ih =>
    have hlift (h : ∃ e ∈ environment, nameOf entry = nameOf e) :
        ∃ e ∈ first :: environment, nameOf entry = nameOf e := by
      obtain ⟨e, he, hname⟩ := h
      exact ⟨e, List.mem_cons_of_mem _ he, hname⟩
    rcases replaceEntries_cons normalized first environment emitted with
      ⟨-, hr⟩ | ⟨k, value, -, -, -, hr⟩ | ⟨name, value, hname, -, -, hr⟩
    · rw [hr, List.mem_cons] at h
      rcases h with rfl | h
      · exact ⟨entry, List.mem_cons_self, rfl⟩
      · exact hlift (ih h)
    · rw [hr] at h
      exact hlift (ih h)
    · rw [hr, List.mem_cons] at h
      rcases h with rfl | h
      · refine ⟨first, List.mem_cons_self, ?_⟩
        rw [hname, nameOf_entryOf (nameOf_eq_some hname).1 (nameOf_eq_some hname).2.1]
      · exact hlift (ih h)

end Replace

/-! ## What replacing gives -/

section With
variable {replacements : List (GoString × GoString)} {environment : List GoString} {v value : GoString}

/-- Replacements under different names that are upper case already. -/
structure Plain (replacements : List (GoString × GoString)) : Prop where
  upper : ∀ r ∈ replacements, Upper r.1
  nodup : (replacements.map Prod.fst).Nodup

theorem toUpper_self (hv : Upper v) : toUpper v = v := by
  rw [toUpper_ascii hv.ascii, hv.upper]

theorem Plain.normalize_eq (h : Plain replacements) :
    replacements.map (fun r => (toUpper r.1, r.2)) = replacements := by
  conv_rhs => rw [← List.map_id replacements]
  refine List.map_congr_left fun r hr => ?_
  rw [toUpper_self (h.upper r hr)]
  rfl

theorem Plain.lookup_of_mem (h : Plain replacements) (hv : (v, value) ∈ replacements) :
    (normalize replacements)[v]? = some value := by
  rw [normalize, h.normalize_eq]
  refine Std.ExtTreeMap.getElem?_ofList_of_mem Std.ReflCmp.compare_self ?_ hv
  refine (List.pairwise_map.mp h.nodup).imp fun hne heq => hne (Std.LawfulEqCmp.eq_of_compare heq)

theorem Plain.lookup (h : Plain replacements) : (normalize replacements)[v]? = some value ↔
    (v, value) ∈ replacements := by
  constructor
  · intro hlookup
    have hmem : v ∈ normalize replacements := Std.ExtTreeMap.mem_iff_isSome_getElem?.mpr (by rw [hlookup]; rfl)
    rw [normalize, h.normalize_eq, Std.ExtTreeMap.mem_ofList, List.contains_iff_mem] at hmem
    obtain ⟨⟨v', value'⟩, hpair, rfl⟩ := List.mem_map.mp hmem
    rw [h.lookup_of_mem hpair] at hlookup
    exact Option.some.inj hlookup ▸ hpair
  · exact h.lookup_of_mem

theorem Plain.spared_iff (h : Plain replacements) {entry : GoString} :
    spared (normalize replacements) entry = true ↔ ∀ v ∈ replacements.map Prod.fst, key entry ≠ some v := by
  unfold spared
  cases hkey : key entry with
  | none => simp
  | some k =>
    rw [Option.all_some, Option.isNone_iff_eq_none, Option.eq_none_iff_forall_ne_some]
    constructor
    · rintro hnone v hv heq
      obtain ⟨⟨v', value⟩, hmem, rfl⟩ := List.mem_map.mp hv
      exact hnone value (Option.some.inj heq ▸ h.lookup_of_mem hmem)
    · intro hne value hlookup
      exact hne k (List.mem_map_of_mem (h.lookup.mp hlookup)) rfl

theorem filter_eq_singleton {α : Type} {l : List α} {p : α → Bool} {a : α} (hnodup : l.Nodup)
    (h : ∀ b, b ∈ l ∧ p b = true ↔ b = a) : l.filter p = [a] := by
  refine List.perm_singleton.mp ((List.perm_ext_iff_of_nodup (hnodup.filter p)
    (List.nodup_singleton a)).mpr fun b => ?_)
  rw [List.mem_filter, h, List.mem_singleton]

/-- What is emitted after the loop for a key that was not met. -/
theorem Plain.key_remaining (h : Plain replacements) (hv : (v, value) ∈ replacements)
    (emitted : List GoString) :
    (((normalize replacements).toList.filter fun entry => entry.1 ∉ emitted).map
        fun entry => entryOf entry.1 entry.2).filter (fun entry => key entry = some v) =
      if v ∈ emitted then [] else [entryOf v value] := by
  have hkey {k w : GoString} (hmem : (k, w) ∈ (normalize replacements).toList) :
      key (entryOf k w) = some k := by
    have hupper := h.upper _ (h.lookup.mp (Std.ExtTreeMap.mem_toList_iff_getElem?_eq_some.mp hmem))
    rw [key_entryOf hupper.ne hupper.separator, toUpper_self hupper]
  rw [List.filter_map]
  by_cases hmem : v ∈ emitted
  · rw [if_pos hmem, List.map_eq_nil_iff, List.filter_eq_nil_iff]
    rintro ⟨k, w⟩ hentry hsame
    obtain ⟨hentry, hfresh⟩ := List.mem_filter.mp hentry
    have hkv := of_decide_eq_true hsame
    rw [hkey hentry, Option.some.injEq] at hkv
    subst hkv
    exact of_decide_eq_true hfresh hmem
  · rw [if_neg hmem]
    have hnodup := (Tallies.nodup_toList (normalize replacements)).filter fun entry => entry.1 ∉ emitted
    rw [filter_eq_singleton (a := (v, value)) hnodup]
    · rfl
    · rintro ⟨k, w⟩
      constructor
      · rintro ⟨hentry, hsame⟩
        have hpair := (List.mem_filter.mp hentry).1
        have hkv := of_decide_eq_true hsame
        rw [hkey hpair, Option.some.injEq] at hkv
        subst hkv
        have hw := Std.ExtTreeMap.mem_toList_iff_getElem?_eq_some.mp hpair
        rw [h.lookup_of_mem hv] at hw
        rw [Option.some.inj hw]
      · intro heq
        obtain ⟨rfl, rfl⟩ := Prod.mk.inj heq
        have hpair := Std.ExtTreeMap.mem_toList_iff_getElem?_eq_some.mpr (h.lookup_of_mem hv)
        exact ⟨List.mem_filter.mpr ⟨hpair, decide_eq_true hmem⟩, decide_eq_true (hkey hpair)⟩

variable (environment) in
theorem Plain.environmentWith_key (h : Plain replacements) (hv : (v, value) ∈ replacements) :
    ∃ name, ((∃ entry ∈ environment, nameOf entry = some name) ∨ name = v) ∧ toUpper name = v ∧
      (environmentWith environment replacements).filter (fun entry => key entry = some v) =
        [entryOf name value] := by
  have hlookup := h.lookup_of_mem hv
  have hremaining := h.key_remaining hv (replaceEntries (normalize replacements) environment []).2
  unfold environmentWith
  rw [List.filter_append, hremaining]
  rcases replaceEntries_key environment hlookup (List.not_mem_nil (a := v)) with
    ⟨entry, hentry, name, hname, hupper, hone, hmem⟩ | ⟨hnone, hmem⟩
  · exact ⟨name, .inl ⟨entry, hentry, hname⟩, hupper, by rw [if_pos hmem, List.append_nil, hone]⟩
  · exact ⟨v, .inr rfl, toUpper_self (h.upper _ hv), by rw [if_neg hmem, hnone, List.nil_append]⟩

theorem Plain.remaining (h : Plain replacements) {emitted : List GoString} {entry : GoString}
    (hmem : entry ∈ ((normalize replacements).toList.filter fun entry => entry.1 ∉ emitted).map
      fun entry => entryOf entry.1 entry.2) :
    ∃ v ∈ replacements.map Prod.fst, nameOf entry = some v := by
  obtain ⟨⟨k, w⟩, hpair, rfl⟩ := List.mem_map.mp hmem
  have hreplacement := h.lookup.mp (Std.ExtTreeMap.mem_toList_iff_getElem?_eq_some.mp
    (List.mem_filter.mp hpair).1)
  have hupper := h.upper _ hreplacement
  exact ⟨k, List.mem_map_of_mem hreplacement, nameOf_entryOf hupper.ne hupper.separator w⟩

theorem Plain.environmentWith_spared (h : Plain replacements) :
    (environmentWith environment replacements).filter (spared (normalize replacements)) =
      environment.filter (spared (normalize replacements)) := by
  unfold environmentWith
  rw [List.filter_append, replaceEntries_spared]
  refine (congrArg _ (List.filter_eq_nil_iff.mpr ?_)).trans (List.append_nil _)
  intro entry hmem hspared
  obtain ⟨v, hv, hname⟩ := h.remaining hmem
  refine h.spared_iff.mp hspared v hv ?_
  obtain ⟨r, hr, rfl⟩ := List.mem_map.mp hv
  rw [key, hname, Option.map_some, toUpper_self (h.upper r hr)]

theorem Plain.environmentWith_name (h : Plain replacements) {entry : GoString}
    (hmem : entry ∈ environmentWith environment replacements) :
    (∃ entry' ∈ environment, nameOf entry = nameOf entry') ∨
      ∃ v ∈ replacements.map Prod.fst, nameOf entry = some v := by
  unfold environmentWith at hmem
  rcases List.mem_append.mp hmem with hmem | hmem
  · exact .inl (nameOf_replaceEntries hmem)
  · exact .inr (h.remaining hmem)

end With

/-! ## The child -/

section Child
variable {plan : Plan} {environment : List GoString} {entry v : GoString}

theorem names_routerVariables (plan : Plan) (appshots : Bool) :
    (routerVariables plan appshots).map Prod.fst = routerNames := rfl

theorem plain_routerVariables (plan : Plan) (appshots : Bool) : Plain (routerVariables plan appshots) where
  upper := by
    intro r hr
    have hmem := List.mem_map_of_mem (f := Prod.fst) hr
    rw [names_routerVariables] at hmem
    exact upper_names r.1 (List.mem_append_left _ hmem)
  nodup := (List.nodup_append.mp names_nodup).1

theorem stays_iff :
    (!(nameOf entry).any fun name => toUpper name ∈ strippedChildEnvironment.map toUpper) = true ↔
    ∀ v ∈ strippedChildEnvironment, key entry ≠ some v := by
  have hself : strippedChildEnvironment.map toUpper = strippedChildEnvironment := by
    conv_rhs => rw [← List.map_id strippedChildEnvironment]
    exact List.map_congr_left fun v hv => toUpper_self (upper_names v (List.mem_append_right _ hv))
  rw [hself, key]
  cases nameOf entry with
  | none => simp
  | some name =>
    rw [Option.any_some, Option.map_some, Bool.not_eq_true', decide_eq_false_iff_not]
    constructor
    · rintro hnot v hv heq
      exact hnot (Option.some.inj heq ▸ hv)
    · intro hne hmem
      exact hne _ hmem rfl

/-- No inherited name is one of the router's for `strings.ToUpper` only. -/
def Plainly (environment : List GoString) : Prop :=
  ∀ entry ∈ environment, ∀ v ∈ routerNames ++ strippedChildEnvironment,
    key entry = some v → named entry v = true

theorem Plainly.named_iff (h : Plainly environment) (hentry : entry ∈ environment)
    (hv : v ∈ routerNames ++ strippedChildEnvironment) : named entry v = true ↔ key entry = some v :=
  ⟨key_of_named (upper_names v hv), h entry hentry v hv⟩

theorem Plainly.none_iff (h : Plainly environment) (hentry : entry ∈ environment) {names : List GoString}
    (hnames : ∀ v ∈ names, v ∈ routerNames ++ strippedChildEnvironment) :
    (∀ v ∈ names, named entry v = false) ↔ ∀ v ∈ names, key entry ≠ some v := by
  refine forall₂_congr fun v hv => ?_
  rw [Bool.eq_false_iff, Ne, h.named_iff hentry (hnames v hv)]

/-- The name of an entry of the child is inherited or the router's. -/
theorem name_of_child (h : entry ∈ childEnvironment environment plan) :
    (∃ entry' ∈ environment, nameOf entry = nameOf entry' ∧
      ∀ v ∈ strippedChildEnvironment, key entry' ≠ some v) ∨
      ∃ v ∈ routerNames, nameOf entry = some v := by
  rcases (plain_routerVariables plan _).environmentWith_name h with ⟨entry', hentry', hname⟩ | hname
  · obtain ⟨hmem, hstays⟩ := List.mem_filter.mp hentry'
    exact .inl ⟨entry', hmem, hname, stays_iff.mp hstays⟩
  · exact .inr hname

theorem key_of_routerName (hv : v ∈ routerNames) (hname : nameOf entry = some v) : key entry = some v := by
  rw [key, hname, Option.map_some, toUpper_self (upper_names v (List.mem_append_left _ hv))]

theorem named_of_name (hname : nameOf entry = some v) : named entry v = true := by
  rw [named, hname, Option.any_some]
  exact decide_eq_true rfl

theorem key_child_not_stripped (h : entry ∈ childEnvironment environment plan)
    (hv : v ∈ strippedChildEnvironment) : key entry ≠ some v := by
  rcases name_of_child h with ⟨entry', -, hname, hstays⟩ | ⟨w, hw, hname⟩
  · rw [key, hname]
    exact hstays v hv
  · rw [key_of_routerName hw hname, Ne, Option.some.injEq]
    rintro rfl
    exact (List.nodup_append.mp names_nodup).2.2 w hw w hv rfl

theorem Plainly.child (h : Plainly environment) : Plainly (childEnvironment environment plan) := by
  intro entry hentry v hv hkey
  rcases name_of_child hentry with ⟨entry', hentry', hname, -⟩ | ⟨w, hw, hname⟩
  · rw [key, hname] at hkey
    rw [named, hname]
    exact h entry' hentry' v hv hkey
  · rw [key_of_routerName hw hname, Option.some.injEq] at hkey
    exact named_of_name (hkey ▸ hname)

theorem foldUnit_upper {u : GoString} {b : UInt8} (hu : foldUnit u = [b]) (hb : b ≠ 0x4B) :
    upperUnit u = [b] := by
  unfold foldUnit at hu
  by_cases hlong : u = [0xC5, 0xBF]
  · rw [if_pos hlong] at hu
    rw [hlong, ← hu]
    decide
  · by_cases hkelvin : u = [0xE2, 0x84, 0xAA]
    · rw [if_neg hlong, if_pos hkelvin] at hu
      have hk : [0x4B] = [b] := Eq.trans (by decide) hu
      exact absurd (List.singleton_inj.mp hk).symm hb
    · rw [if_neg hlong, if_neg hkelvin] at hu
      obtain ⟨c, rfl, hc⟩ := List.map_eq_singleton_iff.mp hu
      rw [upperUnit_byte, ← hc]
      rfl

theorem toUpper_of_equalFold {name : GoString} (h : equalFold name appshotsEnvironment = true) :
    toUpper name = appshotsEnvironment := by
  have hfold : (units name).map foldUnit = appshotsEnvironment.map fun b => [b] :=
    (of_decide_eq_true h).trans (by decide)
  have hletters : ∀ b ∈ appshotsEnvironment, b ≠ 0x4B := by decide +kernel
  have hsame : (units name).map upperUnit = (units name).map foldUnit := by
    refine List.map_congr_left fun u hu => ?_
    have hmem := List.mem_map_of_mem (f := foldUnit) hu
    rw [hfold] at hmem
    obtain ⟨b, hb, heq⟩ := List.mem_map.mp hmem
    rw [foldUnit_upper heq.symm (hletters b hb), heq]
  rw [toUpper, hsame, hfold, ← List.flatMap_def, List.flatMap_singleton']

theorem equalFold_of_sameName {name : GoString} (h : sameName name appshotsEnvironment = true) :
    equalFold name appshotsEnvironment = true := by
  have hv : Upper appshotsEnvironment := upper_names _ (by decide)
  have hbyte (b : UInt8) : foldUnit [b] = [upperByte b] := by simp [foldUnit]
  have hunits {s : GoString} (hs : ∀ b ∈ s, b < 0x80) :
      (units s).map foldUnit = (s.map upperByte).map fun b => [b] := by
    rw [units_ascii hs, List.map_map, List.map_map]
    exact List.map_congr_left fun b _ => hbyte b
  unfold equalFold
  rw [hunits (ascii_of_sameName hv h), hunits hv.ascii, of_decide_eq_true h]
  exact decide_eq_true rfl

theorem optedIn_eq (h : Plainly environment) :
    explicitEnvironmentOptIn environment appshotsEnvironment = optedIn environment := by
  have hfound : environment.filter (fun entry => (nameOf entry).any fun n => equalFold n appshotsEnvironment) =
      environment.filter fun entry => named entry appshotsEnvironment := by
    refine List.filter_congr fun entry hentry => ?_
    have hv : appshotsEnvironment ∈ routerNames ++ strippedChildEnvironment := by decide
    cases hname : nameOf entry with
    | none => simp [named, hname]
    | some name =>
      rw [named, hname, Option.any_some, Option.any_some, Bool.eq_iff_iff]
      constructor
      · intro hfold
        have hkey : key entry = some appshotsEnvironment := by
          rw [key, hname, Option.map_some, toUpper_of_equalFold hfold]
        have hnamed := h entry hentry _ hv hkey
        rwa [named, hname, Option.any_some] at hnamed
      · exact equalFold_of_sameName
  unfold explicitEnvironmentOptIn optedIn
  rw [hfound]

theorem key_filter (environment : List GoString) (plan : Plan) {value : GoString}
    (hv : (v, value) ∈ routerVariables plan (explicitEnvironmentOptIn environment appshotsEnvironment)) :
    ∃ name, (childEnvironment environment plan).filter (fun entry => key entry = some v) =
      [entryOf name value] := by
  obtain ⟨name, -, -, hone⟩ := (plain_routerVariables plan _).environmentWith_key
    (environmentWithout environment strippedChildEnvironment) hv
  exact ⟨name, hone⟩

theorem asPlanned_of_plainly (h : Plainly environment) :
    AsPlanned plan environment (childEnvironment environment plan) where
  router := by
    rintro ⟨v, value⟩ hv
    have hname := names_routerVariables plan _ ▸ List.mem_map_of_mem (f := Prod.fst) hv
    rw [← optedIn_eq h] at hv
    obtain ⟨name, hone⟩ := key_filter environment plan hv
    refine ⟨name, hone ▸ List.filter_congr fun entry hentry => ?_⟩
    rw [Bool.eq_iff_iff, decide_eq_true_iff]
    exact h.child.named_iff hentry (List.mem_append_left _ hname)
  stripped := by
    intro v hv entry hentry
    rw [Bool.eq_false_iff]
    intro hnamed
    exact key_child_not_stripped hentry hv (key_of_named (upper_names v (List.mem_append_right _ hv)) hnamed)
  others := by
    have hspared (entry : GoString) : spared (normalize (routerVariables plan
        (explicitEnvironmentOptIn environment appshotsEnvironment))) entry = true ↔
          ∀ v ∈ routerNames, key entry ≠ some v :=
      (plain_routerVariables plan _).spared_iff
    have hchild : (childEnvironment environment plan).filter
          (fun entry => ∀ v ∈ routerNames, named entry v = false) =
        (childEnvironment environment plan).filter (spared (normalize (routerVariables plan _))) :=
      List.filter_congr fun entry hentry => by
        rw [Bool.eq_iff_iff, decide_eq_true_iff, hspared]
        exact h.child.none_iff hentry fun v hv => List.mem_append_left _ hv
    rw [hchild]
    unfold childEnvironment
    rw [(plain_routerVariables plan _).environmentWith_spared, environmentWithout, List.filter_filter]
    refine List.filter_congr fun entry hentry => ?_
    rw [Bool.eq_iff_iff, Bool.and_eq_true, decide_eq_true_iff, hspared, stays_iff,
      h.none_iff hentry (fun v hv => hv), List.forall_mem_append]

theorem plainly_of_asPlanned (h : AsPlanned plan environment (childEnvironment environment plan)) :
    Plainly environment := by
  intro entry hentry v hv hkey
  by_contra hnot
  have hmem : entry ∈ childEnvironment environment plan := by
    have hother : entry ∈ environment.filter fun entry =>
        ∀ v ∈ routerNames ++ strippedChildEnvironment, named entry v = false := by
      refine List.mem_filter.mpr ⟨hentry, decide_eq_true fun w hw => ?_⟩
      rw [Bool.eq_false_iff]
      intro hnamed
      have hsame := (key_of_named (upper_names w hw) hnamed).symm.trans hkey
      exact hnot (Option.some.inj hsame ▸ hnamed)
    rw [← h.others] at hother
    exact List.mem_of_mem_filter hother
  rcases List.mem_append.mp hv with hv | hv
  · -- the one entry of the key is the inherited one, which is not named as the variable is
    have hold (appshots : Bool) : ∃ value, (v, value) ∈ routerVariables plan appshots := by
      rw [← names_routerVariables plan appshots] at hv
      obtain ⟨⟨_, value⟩, hpair, rfl⟩ := List.mem_map.mp hv
      exact ⟨value, hpair⟩
    obtain ⟨value, hpair⟩ := hold (explicitEnvironmentOptIn environment appshotsEnvironment)
    obtain ⟨name, hone⟩ := key_filter environment plan hpair
    obtain ⟨value', hpair'⟩ := hold (optedIn environment)
    obtain ⟨name', hplanned⟩ := h.router _ hpair'
    have hset : entryOf name' value' ∈ (childEnvironment environment plan).filter fun entry => named entry v :=
      hplanned ▸ List.mem_singleton_self _
    obtain ⟨hset, hnamed⟩ := List.mem_filter.mp hset
    have hkey' := key_of_named (upper_names v (List.mem_append_left _ hv)) hnamed
    have hfirst := List.mem_singleton.mp (hone ▸ List.mem_filter.mpr ⟨hmem, decide_eq_true hkey⟩)
    have hsecond := List.mem_singleton.mp (hone ▸ List.mem_filter.mpr ⟨hset, decide_eq_true hkey'⟩)
    rw [hfirst, ← hsecond] at hnot
    exact hnot hnamed
  · exact key_child_not_stripped hmem hv hkey

end Child

/-- The environment is the plan's exactly if no inherited name has a letter that is not ASCII in the
place of one of a router variable or of a variable that is taken away. -/
theorem childEnvironment_asPlanned_iff (environment : List GoString) (plan : Plan) :
    AsPlanned plan environment (childEnvironment environment plan) ↔
      ∀ entry ∈ environment, ∀ v ∈ routerNames ++ strippedChildEnvironment,
        key entry = some v → named entry v = true :=
  ⟨plainly_of_asPlanned, asPlanned_of_plainly⟩

def samplePlan : Plan where
  appDirectory := lit "C:\\Router"
  realApp := lit "C:\\Router\\ChatGPT.real.exe"
  mux := lit "C:\\Router\\resources\\codex.exe"
  realCodex := lit "C:\\Router\\resources\\codex.real.exe"
  stateRoot := lit "D:\\State"
  rootSource := lit "sidecar"
  profile := lit "D:\\State\\Profile"
  controlPort := 50000
  configSchemaVersion := 2
  arguments := [lit "--user-data-dir=D:\\State\\Profile"]

/-- A variable with a dotless i takes the setting, and the app is left without the variable. -/
theorem dotless_variable_captures :
    (childEnvironment [lit "CODEX_CLı_PATH=x"] samplePlan).filter
        (fun entry => named entry (lit "CODEX_CLI_PATH")) = [] ∧
      ¬ AsPlanned samplePlan [lit "CODEX_CLı_PATH=x"]
        (childEnvironment [lit "CODEX_CLı_PATH=x"] samplePlan) := by
  have hnone : (childEnvironment [lit "CODEX_CLı_PATH=x"] samplePlan).filter
      (fun entry => named entry (lit "CODEX_CLI_PATH")) = [] := by decide
  refine ⟨hnone, fun h => ?_⟩
  obtain ⟨name, hone⟩ := h.router (lit "CODEX_CLI_PATH", samplePlan.mux) (by decide)
  rw [hnone] at hone
  cases hone

end SubscriptionRouter.ChildEnvironment
