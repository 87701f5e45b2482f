import Mathlib

set_option autoImplicit false

/-!
# Trees of keys that carry named values

A key is named by the path that leads to it, and every key stands under its parent. An edit makes a
key with the parents it needs, sets a value of a key or takes it away, or takes a key away that has
no keys under it. The hive itself is the empty path, which is not one of the keys.
-/
namespace SubscriptionRouter.PathTrees

theorem mem_inits_tail {N : Type} {p q : List N} : q ∈ p.inits.tail ↔ q ≠ [] ∧ q <+: p := by
  cases p with
  | nil => simp [List.inits]
  | cons n p =>
    rw [List.inits, List.tail_cons, List.mem_map]
    constructor
    · rintro ⟨r, hr, rfl⟩
      exact ⟨by simp, List.cons_prefix_cons.mpr ⟨rfl, (List.mem_inits _ _).mp hr⟩⟩
    · rintro ⟨hne, hq⟩
      obtain ⟨m, r, rfl⟩ := List.exists_cons_of_ne_nil hne
      obtain ⟨rfl, hr⟩ := List.cons_prefix_cons.mp hq
      exact ⟨r, (List.mem_inits _ _).mpr hr, rfl⟩

/-- Keys in the order in which they are made, each with its values. -/
abbrev Layout (N V : Type) := List (List N × List (N × V))

/-- No key comes twice, and none before the keys it stands under. -/
structure Sound {N V : Type} (l : Layout N V) : Prop where
  distinct : (l.map Prod.fst).Nodup
  parents : ∀ front k back, l = front ++ k :: back → ∀ p, p <+: k.1 → p ≠ k.1 →
    p ∈ front.map Prod.fst

theorem Sound.of_append {N V : Type} {l l' : Layout N V} (h : Sound (l ++ l')) : Sound l where
  distinct := (List.map_append ▸ h.distinct).of_append_left
  parents := fun front k back hl => h.parents front k (back ++ l') (by simp [hl])

variable {N V : Type} [Ord N] [Std.TransOrd N]

abbrev Values (N V : Type) [Ord N] := Std.ExtTreeMap N V

structure Tree (N V : Type) [Ord N] [Std.TransOrd N] where
  keys : Std.ExtTreeMap (List N) (Values N V)
  closed : ∀ p q : List N, q ≠ [] → q <+: p → p ∈ keys → q ∈ keys

def Tree.get (t : Tree N V) (p : List N) : Option (Values N V) := t.keys[p]?

theorem Tree.mem_keys_iff {t : Tree N V} {p : List N} : p ∈ t.keys ↔ (t.get p).isSome = true :=
  Std.ExtTreeMap.mem_iff_isSome_getElem?

theorem Tree.isSome_of_prefix {t : Tree N V} {p q : List N} (hne : q ≠ []) (hpart : q <+: p)
    (hp : (t.get p).isSome = true) : (t.get q).isSome = true :=
  Tree.mem_keys_iff.mp (t.closed p q hne hpart (Tree.mem_keys_iff.mpr hp))

theorem Tree.get_below {t : Tree N V} {p q : List N} (hne : p ≠ []) (hp : t.get p = none)
    (hpart : p <+: q) : t.get q = none := by
  by_contra hq
  have hsome := Tree.isSome_of_prefix hne hpart (Option.isSome_iff_ne_none.mpr hq)
  rw [hp] at hsome
  cases hsome

section Edits
variable [Std.LawfulEqOrd N] [DecidableEq N]

def insertMissing (keys : Std.ExtTreeMap (List N) (Values N V)) (p : List N) :
    Std.ExtTreeMap (List N) (Values N V) := keys.insertIfNew p ∅

theorem getElem?_insertMissing (keys : Std.ExtTreeMap (List N) (Values N V)) (p q : List N) :
    (insertMissing keys p)[q]? = keys[q]?.or (if p = q then some ∅ else none) := by
  simp only [insertMissing, Std.ExtTreeMap.getElem?_insertIfNew, Std.compare_eq_iff_eq,
    Std.ExtTreeMap.mem_iff_isSome_getElem?]
  by_cases h : p = q
  · subst h
    cases keys[p]? <;> simp
  · simp [h]

theorem getElem?_foldl_insertMissing (ps : List (List N)) (keys : Std.ExtTreeMap (List N) (Values N V))
    (q : List N) :
    (ps.foldl insertMissing keys)[q]? = keys[q]?.or (if q ∈ ps then some ∅ else none) := by
  induction ps generalizing keys with
  | nil => simp
  | cons p ps ih =>
    rw [List.foldl_cons, ih, getElem?_insertMissing, Option.or_assoc]
    by_cases hp : p = q
    · subst hp
      simp
    · simp [hp, Ne.symm hp]

/-- Make the key under a path, and its parents, where they are missing. -/
def Tree.create (t : Tree N V) (path : List N) : Tree N V where
  keys := path.inits.tail.foldl insertMissing t.keys
  closed := by
    intro p q hne hpart hp
    rw [Std.ExtTreeMap.mem_iff_isSome_getElem?, getElem?_foldl_insertMissing, Option.isSome_or,
      Bool.or_eq_true] at hp ⊢
    rcases hp with hp | hp
    · exact .inl (Tree.isSome_of_prefix hne hpart hp)
    · rw [Option.isSome_ite, mem_inits_tail] at hp ⊢
      exact .inr ⟨hne, hpart.trans hp.2⟩

theorem Tree.get_create (t : Tree N V) (path p : List N) :
    (t.create path).get p = (t.get p).or (if p ≠ [] ∧ p <+: path then some ∅ else none) := by
  rw [Tree.get, Tree.create, getElem?_foldl_insertMissing]
  simp only [mem_inits_tail, Tree.get]

/-- Set a value of a key that is there. -/
def Tree.set (t : Tree N V) (path : List N) (name : N) (value : V) : Tree N V where
  keys := t.keys.modify path fun values => values.insert name value
  closed := by
    intro p q hne hpart hp
    rw [Std.ExtTreeMap.mem_modify] at hp ⊢
    exact t.closed p q hne hpart hp

theorem Tree.get_set (t : Tree N V) (path : List N) (name : N) (value : V) (p : List N) :
    (t.set path name value).get p =
      if path = p then (t.get p).map fun values => values.insert name value else t.get p := by
  simp only [Tree.get, Tree.set, Std.ExtTreeMap.getElem?_modify, Std.compare_eq_iff_eq]
  by_cases h : path = p
  · subst h
    simp
  · simp [h]

/-- Take a value of a key away. -/
def Tree.unset (t : Tree N V) (path : List N) (name : N) : Tree N V where
  keys := t.keys.modify path fun values => values.erase name
  closed := by
    intro p q hne hpart hp
    rw [Std.ExtTreeMap.mem_modify] at hp ⊢
    exact t.closed p q hne hpart hp

theorem Tree.get_unset (t : Tree N V) (path : List N) (name : N) (p : List N) :
    (t.unset path name).get p =
      if path = p then (t.get p).map fun values => values.erase name else t.get p := by
  simp only [Tree.get, Tree.unset, Std.ExtTreeMap.getElem?_modify, Std.compare_eq_iff_eq]
  by_cases h : path = p
  · subst h
    simp
  · simp [h]

def Tree.hasBelow (t : Tree N V) (path : List N) : Bool :=
  t.keys.keys.any fun p => path.isPrefixOf p && path ≠ p

theorem Tree.hasBelow_iff {t : Tree N V} {path : List N} : t.hasBelow path = true ↔
    ∃ p, path <+: p ∧ path ≠ p ∧ (t.get p).isSome = true := by
  rw [Tree.hasBelow, List.any_eq_true]
  constructor
  · rintro ⟨p, hp, h⟩
    rw [Bool.and_eq_true, List.isPrefixOf_iff_prefix, decide_eq_true_iff] at h
    exact ⟨p, h.1, h.2, Tree.mem_keys_iff.mp (Std.ExtTreeMap.mem_keys.mp hp)⟩
  · rintro ⟨p, hpart, hne, hp⟩
    refine ⟨p, Std.ExtTreeMap.mem_keys.mpr (Tree.mem_keys_iff.mpr hp), ?_⟩
    rw [Bool.and_eq_true, List.isPrefixOf_iff_prefix, decide_eq_true_iff]
    exact ⟨hpart, hne⟩

/-- Take a key away that has no keys under it; any other key stays. -/
def Tree.delete (t : Tree N V) (path : List N) : Tree N V :=
  if h : t.hasBelow path = true then t
  else
    { keys := t.keys.erase path
      closed := by
        intro p q hne hpart hp
        rw [Std.ExtTreeMap.mem_erase, ne_eq, Std.compare_eq_iff_eq] at hp ⊢
        refine ⟨?_, t.closed p q hne hpart hp.2⟩
        rintro rfl
        exact h (Tree.hasBelow_iff.mpr ⟨p, hpart, hp.1, Tree.mem_keys_iff.mp hp.2⟩) }

theorem Tree.get_delete (t : Tree N V) (path p : List N) : (t.delete path).get p =
    if path = p ∧ t.hasBelow path = false then none else t.get p := by
  rw [Tree.delete]
  split
  · simp [*]
  · rename_i h
    simp only [Tree.get, Std.ExtTreeMap.getElem?_erase, Std.compare_eq_iff_eq]
    simp [Bool.eq_false_iff.mpr h]

inductive Edit (N V : Type) where
  | create (path : List N)
  | set (path : List N) (name : N) (value : V)
  | unset (path : List N) (name : N)
  | delete (path : List N)

def Tree.apply (t : Tree N V) : Edit N V → Tree N V
  | .create path => t.create path
  | .set path name value => t.set path name value
  | .unset path name => t.unset path name
  | .delete path => t.delete path

def Edit.path : Edit N V → List N
  | .create path | .set path _ _ | .unset path _ | .delete path => path

def Edit.Within (root : List N) (e : Edit N V) : Prop := root <+: e.path

theorem Tree.get_apply_of_within (t : Tree N V) {root p : List N} {e : Edit N V} (he : e.Within root)
    (hunder : ¬ root <+: p) (habove : ¬ p <+: root) : (t.apply e).get p = t.get p := by
  cases e with
  | create path =>
    have hpart : ¬ p <+: path := fun h => (List.prefix_or_prefix_of_prefix h he).elim habove hunder
    simp [Tree.apply, Tree.get_create, hpart]
  | set path name value =>
    have hne : path ≠ p := fun h => hunder (h ▸ he)
    simp [Tree.apply, Tree.get_set, hne]
  | unset path name =>
    have hne : path ≠ p := fun h => hunder (h ▸ he)
    simp [Tree.apply, Tree.get_unset, hne]
  | delete path =>
    have hne : path ≠ p := fun h => hunder (h ▸ he)
    simp [Tree.apply, Tree.get_delete, hne]

theorem Tree.get_apply_of_not_within (t : Tree N V) {root p : List N} {e : Edit N V}
    (he : ¬ e.Within root) (hunder : root <+: p) : (t.apply e).get p = t.get p := by
  cases e with
  | create path =>
    have hpart : ¬ p <+: path := fun h => he (hunder.trans h)
    simp [Tree.apply, Tree.get_create, hpart]
  | set path name value =>
    have hne : path ≠ p := fun h => he (h ▸ hunder)
    simp [Tree.apply, Tree.get_set, hne]
  | unset path name =>
    have hne : path ≠ p := fun h => he (h ▸ hunder)
    simp [Tree.apply, Tree.get_unset, hne]
  | delete path =>
    have hne : path ≠ p := fun h => he (h ▸ hunder)
    simp [Tree.apply, Tree.get_delete, hne]

/-- Making keys, setting values and taking keys away under a root changes no key that was there
before, unless it is under the root itself. -/
theorem Tree.get_apply_above (t : Tree N V) {root p : List N} {e : Edit N V} (he : e.Within root)
    (hunder : ¬ root <+: p) : (t.apply e).get p = t.get p ∨
      t.get p = none ∧ p ≠ [] ∧ p <+: root ∧ (t.apply e).get p = some ∅ := by
  cases e with
  | create path =>
    rw [Tree.apply, Tree.get_create]
    cases hp : t.get p with
    | some values => exact .inl rfl
    | none =>
      rw [Option.none_or]
      split
      · rename_i h
        exact .inr ⟨rfl, h.1, (List.prefix_or_prefix_of_prefix h.2 he).resolve_right hunder, rfl⟩
      · exact .inl rfl
  | set path name value =>
    have hne : path ≠ p := fun h => hunder (h ▸ he)
    exact .inl (by simp [Tree.apply, Tree.get_set, hne])
  | unset path name =>
    have hne : path ≠ p := fun h => hunder (h ▸ he)
    exact .inl (by simp [Tree.apply, Tree.get_unset, hne])
  | delete path =>
    have hne : path ≠ p := fun h => hunder (h ▸ he)
    exact .inl (by simp [Tree.apply, Tree.get_delete, hne])

def Tree.Agree (O : Set (List N)) (t t' : Tree N V) : Prop := ∀ p ∈ O, t.get p = t'.get p

theorem Tree.Agree.apply {O : Set (List N)} {t t' : Tree N V} (h : Tree.Agree O t t')
    (hO : ∀ p ∈ O, ∀ q, p <+: q → q ∈ O) (e : Edit N V) : Tree.Agree O (t.apply e) (t'.apply e) := by
  intro p hp
  cases e with
  | create path => rw [Tree.apply, Tree.apply, Tree.get_create, Tree.get_create, h p hp]
  | set path name value => rw [Tree.apply, Tree.apply, Tree.get_set, Tree.get_set, h p hp]
  | unset path name => rw [Tree.apply, Tree.apply, Tree.get_unset, Tree.get_unset, h p hp]
  | delete path =>
    rw [Tree.apply, Tree.apply, Tree.get_delete, Tree.get_delete, h p hp]
    by_cases hpath : path = p
    · subst hpath
      have hbelow : t.hasBelow path = t'.hasBelow path := by
        rw [Bool.eq_iff_iff, Tree.hasBelow_iff, Tree.hasBelow_iff]
        refine exists_congr fun q => and_congr_right fun hpart => ?_
        rw [h q (hO path hp q hpart)]
      rw [hbelow]
    · simp [hpath]

end Edits

/-! ## The keys under a root -/

section Subtrees
variable [Std.LawfulEqOrd N] [DecidableEq N]

def Tree.relative (t : Tree N V) (root : List N) : List (List N × Values N V) :=
  t.keys.toList.filterMap fun e => (e.1.dropPrefix? root).map fun p => (p, e.2)

theorem Tree.mem_relative {t : Tree N V} {root p : List N} {values : Values N V} :
    (p, values) ∈ t.relative root ↔ t.get (root ++ p) = some values := by
  simp only [Tree.relative, List.mem_filterMap, Option.map_eq_some_iff, List.dropPrefix?_eq_some_iff,
    Prod.mk.injEq, Prod.exists, Std.ExtTreeMap.mem_toList_iff_getElem?_eq_some, beq_iff_eq]
  constructor
  · rintro ⟨q, vs, hq, r, ⟨front, rfl, hfront⟩, rfl, rfl⟩
    obtain rfl := hfront
    exact hq
  · intro h
    exact ⟨root ++ p, values, h, p, ⟨root, rfl, rfl⟩, rfl, rfl⟩

/-- The keys under a root, by the paths that lead to them from it. -/
def Tree.subtree (t : Tree N V) (root : List N) : Std.ExtTreeMap (List N) (Values N V) :=
  Std.ExtTreeMap.ofList (t.relative root)

theorem Tree.getElem?_subtree (t : Tree N V) (root p : List N) :
    (t.subtree root)[p]? = t.get (root ++ p) := by
  cases h : t.get (root ++ p) with
  | some values =>
    refine Std.ExtTreeMap.getElem?_ofList_of_mem Std.ReflCmp.compare_self ?_ (Tree.mem_relative.mpr h)
    refine List.Pairwise.filterMap _ (fun a b hab x hx y hy hxy => hab ?_) Std.ExtTreeMap.distinct_keys_toList
    simp only [Option.map_eq_some_iff, List.dropPrefix?_eq_some_iff, beq_iff_eq] at hx hy
    obtain ⟨r, ⟨_, ha, rfl⟩, rfl⟩ := hx
    obtain ⟨r', ⟨_, hb, rfl⟩, rfl⟩ := hy
    rw [Std.compare_eq_iff_eq] at hxy ⊢
    rw [ha, hb, show r = r' from hxy]
  | none =>
    refine Std.ExtTreeMap.getElem?_ofList_of_contains_eq_false ?_
    rw [Bool.eq_false_iff, ne_eq, List.contains_iff_mem, List.mem_map]
    rintro ⟨⟨q, values⟩, hmem, rfl⟩
    rw [Tree.mem_relative.mp hmem] at h
    cases h

end Subtrees

/-! ## Trees that are written out key by key -/

def valuesOf (named : List (N × V)) : Values N V :=
  named.foldl (fun values e => values.insert e.1 e.2) ∅

def keyEdits (path : List N) (named : List (N × V)) : List (Edit N V) :=
  .create path :: named.map fun e => .set path e.1 e.2

def layoutEdits (root : List N) (l : Layout N V) : List (Edit N V) :=
  l.flatMap fun k => keyEdits (root ++ k.1) k.2

section Layouts
variable [DecidableEq N]

def layoutGet (l : Layout N V) (p : List N) : Option (Values N V) :=
  (l.find? fun k => k.1 = p).map fun k => valuesOf k.2

theorem layoutGet_concat {l : Layout N V} {k : List N × List (N × V)} (hk : k.1 ∉ l.map Prod.fst)
    (p : List N) : layoutGet (l ++ [k]) p = if k.1 = p then some (valuesOf k.2) else layoutGet l p := by
  rw [layoutGet, List.find?_append]
  by_cases h : k.1 = p
  · subst h
    have hnone : l.find? (fun e => e.1 = k.1) = none := by
      rw [List.find?_eq_none]
      intro e he heq
      exact hk (List.mem_map.mpr ⟨e, he, of_decide_eq_true heq⟩)
    simp [hnone]
  · simp [h, layoutGet]

theorem layoutGet_isSome {l : Layout N V} {p : List N} :
    (layoutGet l p).isSome = true ↔ p ∈ l.map Prod.fst := by
  rw [layoutGet, Option.isSome_map, List.find?_isSome, List.mem_map]
  simp only [decide_eq_true_iff]

theorem layoutGet_eq_some {l : Layout N V} (h : Sound l) {p : List N} {values : Values N V} :
    layoutGet l p = some values ↔ ∃ named, (p, named) ∈ l ∧ values = valuesOf named := by
  rw [layoutGet, Option.map_eq_some_iff]
  constructor
  · rintro ⟨⟨q, named⟩, hfind, rfl⟩
    obtain rfl : q = p := by simpa using List.find?_some hfind
    exact ⟨named, List.mem_of_find?_eq_some hfind, rfl⟩
  · rintro ⟨named, hmem, rfl⟩
    have hsome : (l.find? fun k => k.1 = p).isSome = true :=
      List.find?_isSome.mpr ⟨_, hmem, decide_eq_true rfl⟩
    obtain ⟨⟨q, other⟩, hfind⟩ := Option.isSome_iff_exists.mp hsome
    obtain rfl : q = p := by simpa using List.find?_some hfind
    have heq := List.inj_on_of_nodup_map h.distinct (List.mem_of_find?_eq_some hfind) hmem rfl
    exact ⟨_, hfind, by rw [heq]⟩

variable [Std.LawfulEqOrd N]

theorem getElem?_valuesOf {named : List (N × V)} (h : (named.map Prod.fst).Nodup) {name : N} {value : V} :
    (valuesOf named)[name]? = some value ↔ (name, value) ∈ named := by
  induction named using List.reverseRecOn with
  | nil => simp [valuesOf]
  | append_singleton named e ih =>
    rw [List.map_append, List.map_singleton, List.nodup_append] at h
    have hfresh : ∀ v, (e.1, v) ∉ named :=
      fun v hv => h.2.2 _ (List.mem_map_of_mem hv) _ (List.mem_singleton_self _) rfl
    rw [valuesOf, List.foldl_append, List.foldl_cons, List.foldl_nil, ← valuesOf,
      Std.ExtTreeMap.getElem?_insert]
    simp only [Std.compare_eq_iff_eq]
    rw [List.mem_append, List.mem_singleton]
    by_cases hname : e.1 = name
    · subst hname
      simp [hfresh, Prod.ext_iff, eq_comm]
    · simp [hname, ih h.1, Prod.ext_iff, Ne.symm hname]

def Tree.applyAll (t : Tree N V) (es : List (Edit N V)) : Tree N V := es.foldl Tree.apply t

theorem get_applyAll_set (path : List N) (named : List (N × V)) (t : Tree N V) (p : List N) :
    (t.applyAll (named.map fun e => .set path e.1 e.2)).get p =
      if path = p then (t.get p).map fun values => named.foldl (fun m e => m.insert e.1 e.2) values
      else t.get p := by
  induction named generalizing t with
  | nil => simp [Tree.applyAll]
  | cons e named ih =>
    rw [List.map_cons, Tree.applyAll, List.foldl_cons, ← Tree.applyAll, ih, Tree.apply, Tree.get_set]
    by_cases h : path = p
    · simp [h, Function.comp_def]
    · simp [h]

theorem get_keyEdits (path : List N) (named : List (N × V)) {t : Tree N V} (hne : path ≠ [])
    (hnone : t.get path = none) (p : List N) : (t.applyAll (keyEdits path named)).get p =
      if path = p then some (valuesOf named)
      else (t.get p).or (if p ≠ [] ∧ p <+: path then some ∅ else none) := by
  rw [keyEdits, Tree.applyAll, List.foldl_cons, ← Tree.applyAll, get_applyAll_set, Tree.apply,
    Tree.get_create]
  by_cases h : path = p
  · subst h
    simp [hnone, hne, valuesOf]
  · simp [h]

theorem Sound.get_edits {l : Layout N V} (h : Sound l) {root : List N} (hroot : root ≠ [])
    {t : Tree N V} (hnone : t.get root = none) (p : List N) :
    (t.applyAll (layoutEdits root l)).get (root ++ p) = layoutGet l p := by
  induction l using List.reverseRecOn generalizing p with
  | nil =>
    rw [layoutEdits, List.flatMap_nil, Tree.applyAll, List.foldl_nil, layoutGet, List.find?_nil,
      Option.map_none]
    exact Tree.get_below hroot hnone (List.prefix_append root p)
  | append_singleton l k ih =>
    have hk : k.1 ∉ l.map Prod.fst := by
      have hnodup := h.distinct
      rw [List.map_append, List.map_singleton, List.nodup_append] at hnodup
      exact fun hmem => hnodup.2.2 _ hmem _ (List.mem_singleton_self _) rfl
    have hbefore := ih h.of_append
    have hmissing : (t.applyAll (layoutEdits root l)).get (root ++ k.1) = none := by
      rw [hbefore, ← Option.not_isSome_iff_eq_none, layoutGet_isSome]
      exact hk
    rw [layoutEdits, List.flatMap_append, List.flatMap_singleton, ← layoutEdits, Tree.applyAll,
      List.foldl_append, ← Tree.applyAll, ← Tree.applyAll, get_keyEdits _ _ (by simp [hroot]) hmissing,
      layoutGet_concat hk, hbefore]
    by_cases hp : k.1 = p
    · simp [hp]
    · simp only [List.append_cancel_left_eq, hp, if_false]
      rw [if_congr Iff.rfl rfl rfl]
      -- a parent of the key has been made before it
      by_cases hpart : p <+: k.1
      · have hparent := h.parents l k [] rfl p hpart (Ne.symm hp)
        obtain ⟨values, hvalues⟩ := Option.isSome_iff_exists.mp (layoutGet_isSome.mpr hparent)
        rw [hvalues, Option.some_or]
      · simp [hpart]

end Layouts

end SubscriptionRouter.PathTrees
