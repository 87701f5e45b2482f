import Mathlib
import SubscriptionRouter.ThreadSpendFile

set_option autoImplicit false

/-!
# Members that are stored in the same field

The check for duplicate keys compares names as they are, while the decoder stores a member
under a name that differs in case in the same field. Whether a field is set twice is decided
object by object, for the objects that are decoded into structs.
-/
namespace SubscriptionRouter.DuplicateFields
open GoText JsonText Messages StoreOpen StoreState ThreadSpending ThreadSpendFile

/-! ## The decoders -/

def modeFields : List GoString := [lit "mode", lit "accountId"]

def modeField (r : RoutingMode) (name : GoString) (v : Json) : Option RoutingMode :=
  match (matchField modeFields name).bind fun f => modeFields.idxOf? f with
  | some 0 => (decodeString r.mode v).map fun mode => { r with mode }
  | some 1 => (decodeString r.accountID v).map fun accountID => { r with accountID }
  | _ => none

def parseRoutingMode (data : GoString) : Option RoutingMode :=
  ((strictParse data).bind (decodeObject modeField ⟨[], []⟩)).filter RoutingMode.validate

/-- An object that is decoded into a struct, with the fields of the struct. -/
structure StructObject where
  fields : List GoString
  members : List (GoString × Json)

def objectMembers : Json → List (GoString × Json)
  | .object ms => ms
  | _ => []

def arrayElements : Json → List Json
  | .array vs => vs
  | _ => []

def accountObjects (m : GoString × Json) : List StructObject :=
  if matchField stateFields m.1 = some (lit "accounts") then
    (arrayElements m.2).map fun v => ⟨accountFields, objectMembers v⟩
  else []

/-- The strict decoders: of the state file, of a routing mode, of the file with the routing mode
and of the record of a thread. -/
inductive Decoder where
  | state | routingMode | routingModeFile | threadSpend
  deriving DecidableEq

def Decoder.accepts (time : GoString → Option ℤ) (data : GoString) : Decoder → Bool
  | .state => (decodePersistedState data).isSome
  | .routingMode => (parseRoutingMode data).isSome
  | .routingModeFile => (decodeRoutingMode data).isSome
  | .threadSpend => (decodeThreadSpend time data).isSome

/-- The objects of a document that are decoded into structs. -/
def Decoder.objects (v : Json) : Decoder → List StructObject
  | .state => ⟨stateFields, objectMembers v⟩ :: (objectMembers v).flatMap accountObjects
  | .routingMode => [⟨modeFields, objectMembers v⟩]
  | .routingModeFile => [⟨[lit "version", lit "mode", lit "accountId"], objectMembers v⟩]
  | .threadSpend => [⟨threadSpendFields, objectMembers v⟩]

/-! ## What a decoder stores -/

def StructObject.storedIn (o : StructObject) (field : GoString) : List (GoString × Json) :=
  o.members.filter fun m => matchField o.fields m.1 = some field

def StructObject.SetsOnce (o : StructObject) : Prop := ∀ field, (o.storedIn field).length ≤ 1

/-- No two different names are the same with their case removed. -/
def StructObject.NamesDiffer (o : StructObject) : Prop :=
  ∀ m ∈ o.members, ∀ m' ∈ o.members, foldName m.1 = foldName m'.1 → m.1 = m'.1

def StructObject.Unrepeated (o : StructObject) : Prop := (o.members.map Prod.fst).Nodup

def StructObject.AllStored (o : StructObject) : Prop :=
  ∀ m ∈ o.members, (matchField o.fields m.1).isSome

def DistinctFields (fields : List GoString) : Prop :=
  ∀ f ∈ fields, ∀ g ∈ fields, foldName f = foldName g → f = g

instance (fields : List GoString) : Decidable (DistinctFields fields) :=
  inferInstanceAs (Decidable (∀ f ∈ fields, ∀ g ∈ fields, foldName f = foldName g → f = g))

theorem matchField_some {fields : List GoString} {name f : GoString}
    (h : matchField fields name = some f) : f ∈ fields ∧ foldName f = foldName name := by
  rw [matchField] at h
  split at h
  · rename_i hmem
    obtain rfl := Option.some.inj h
    exact ⟨hmem, rfl⟩
  · exact ⟨List.mem_of_find?_eq_some h, by simpa using List.find?_some h⟩

theorem matchField_eq_iff {fields : List GoString} (hfields : DistinctFields fields)
    {name name' : GoString} (h : (matchField fields name).isSome) (h' : (matchField fields name').isSome) :
    matchField fields name = matchField fields name' ↔ foldName name = foldName name' := by
  obtain ⟨f, hf⟩ := Option.isSome_iff_exists.mp h
  obtain ⟨g, hg⟩ := Option.isSome_iff_exists.mp h'
  obtain ⟨hmem, hfold⟩ := matchField_some hf
  obtain ⟨hmem', hfold'⟩ := matchField_some hg
  rw [hf, hg, Option.some.injEq, ← hfold, ← hfold']
  exact ⟨congrArg foldName, hfields f hmem g hmem'⟩

theorem setsOnce_iff_nodup {o : StructObject} (h : o.AllStored) :
    o.SetsOnce ↔ (o.members.map fun m => matchField o.fields m.1).Nodup := by
  have hcount : ∀ f, (o.members.map fun m => matchField o.fields m.1).count (some f) =
      (o.storedIn f).length := by
    intro f
    rw [List.count_eq_countP, List.countP_map, List.countP_eq_length_filter, StructObject.storedIn]
    congr 2
    funext m
    exact Bool.eq_iff_iff.mpr (by simp)
  rw [List.nodup_iff_count_le_one]
  constructor
  · intro hset f
    cases f with
    | none =>
      refine (List.count_eq_zero_of_not_mem fun hmem => ?_).le.trans (Nat.zero_le 1)
      obtain ⟨m, hm, hnone⟩ := List.mem_map.mp hmem
      have hstored := h m hm
      rw [hnone] at hstored
      cases hstored
    | some f =>
      rw [hcount]
      exact hset f
  · intro hnodup f
    rw [← hcount]
    exact hnodup (some f)

theorem setsOnce_iff {o : StructObject} (hfields : DistinctFields o.fields) (h : o.AllStored)
    (hunique : o.Unrepeated) : o.SetsOnce ↔ o.NamesDiffer := by
  have hnames : (o.members.map fun m => matchField o.fields m.1).Nodup ↔
      ((o.members.map Prod.fst).map foldName).Nodup := by
    rw [List.map_map, List.Nodup, List.Nodup, List.pairwise_map, List.pairwise_map]
    refine List.Pairwise.iff_of_mem fun hm hm' => ?_
    rw [ne_eq, ne_eq, matchField_eq_iff hfields (h _ hm) (h _ hm')]
    rfl
  rw [setsOnce_iff_nodup h, hnames, List.nodup_map_iff_inj_on hunique]
  simp only [List.forall_mem_map]
  rfl

theorem uniqueNames_of_mem {vs : List Json} (h : uniqueNamesAll vs = true) : ∀ v ∈ vs, uniqueNames v = true := by
  induction vs with
  | nil => nofun
  | cons v vs ih =>
    rw [uniqueNamesAll, Bool.and_eq_true] at h
    exact List.forall_mem_cons.mpr ⟨h.1, ih h.2⟩

theorem uniqueNames_of_member {ms : List (GoString × Json)} (h : uniqueNamesMembers ms = true) :
    ∀ m ∈ ms, uniqueNames m.2 = true := by
  induction ms with
  | nil => nofun
  | cons m ms ih =>
    rw [uniqueNamesMembers, Bool.and_eq_true] at h
    exact List.forall_mem_cons.mpr ⟨h.1, ih h.2⟩

theorem objectMembers_unique {v : Json} (h : uniqueNames v = true) :
    ((objectMembers v).map Prod.fst).Nodup ∧ ∀ m ∈ objectMembers v, uniqueNames m.2 = true := by
  cases v with
  | object ms =>
    rw [uniqueNames, Bool.and_eq_true, decide_eq_true_eq] at h
    exact ⟨h.1, uniqueNames_of_member h.2⟩
  | _ => exact ⟨List.nodup_nil, fun m hm => absurd hm List.not_mem_nil⟩

theorem arrayElements_unique {v : Json} (h : uniqueNames v = true) :
    ∀ w ∈ arrayElements v, uniqueNames w = true := by
  cases v with
  | array vs => exact uniqueNames_of_mem h
  | _ => exact fun w hw => absurd hw List.not_mem_nil

theorem unrepeated_of_unique {v : Json} (h : uniqueNames v = true) (d : Decoder) :
    ∀ o ∈ d.objects v, o.Unrepeated := by
  obtain ⟨hnames, hmembers⟩ := objectMembers_unique h
  cases d with
  | state =>
    refine List.forall_mem_cons.mpr ⟨hnames, fun o ho => ?_⟩
    obtain ⟨m, hm, hom⟩ := List.mem_flatMap.mp ho
    rw [accountObjects] at hom
    split at hom
    · obtain ⟨w, hw, rfl⟩ := List.mem_map.mp hom
      exact (objectMembers_unique (arrayElements_unique (hmembers m hm) w hw)).1
    · cases hom
  | routingMode => exact List.forall_mem_singleton.mpr hnames
  | routingModeFile => exact List.forall_mem_singleton.mpr hnames
  | threadSpend => exact List.forall_mem_singleton.mpr hnames

/-! ## What an accepted document is -/

section Decoding
variable {α : Type} {field : α → GoString → Json → Option α} {fields : List GoString}

theorem decodeMembers_mem {old new : α} {ms : List (GoString × Json)}
    (h : decodeMembers field old ms = some new) : ∀ m ∈ ms, ∃ a b, field a m.1 m.2 = some b := by
  induction ms generalizing old with
  | nil => nofun
  | cons m ms ih =>
    obtain ⟨name, v⟩ := m
    obtain ⟨next, hnext, hrest⟩ := Option.bind_eq_some_iff.mp h
    exact List.forall_mem_cons.mpr ⟨⟨old, next, hnext⟩, ih hrest⟩

theorem decodeObject_mem {old new : α} {v : Json} (h : decodeObject field old v = some new) :
    ∀ m ∈ objectMembers v, ∃ a b, field a m.1 m.2 = some b := by
  cases v with
  | object ms => exact decodeMembers_mem h
  | _ => nofun

/-- A decoder that knows the fields stores no member under another name. -/
def Known (field : α → GoString → Json → Option α) (fields : List GoString) : Prop :=
  ∀ a name v b, field a name v = some b → (matchField fields name).isSome

theorem known_of_unmatched
    (h : ∀ a name v, matchField fields name = none → field a name v = none) : Known field fields := by
  intro a name v b hfield
  by_contra hmatch
  rw [h a name v (Option.not_isSome_iff_eq_none.mp hmatch)] at hfield
  cases hfield

theorem allStored_of_decodes (hknown : Known field fields) {old new : α} {v : Json}
    (h : decodeObject field old v = some new) : (StructObject.mk fields (objectMembers v)).AllStored := by
  intro m hm
  obtain ⟨a, b, hfield⟩ := decodeObject_mem h m hm
  exact hknown a m.1 m.2 b hfield

end Decoding

theorem known_account : Known accountField accountFields :=
  known_of_unmatched fun _ _ _ h => by
    rw [accountField, h]
    rfl

theorem known_state : Known stateField stateFields :=
  known_of_unmatched fun _ _ _ h => by
    rw [stateField, h]
    rfl

theorem known_mode : Known modeField modeFields :=
  known_of_unmatched fun _ _ _ h => by
    rw [modeField, h]
    rfl

theorem known_routingMode : Known routingModeField [lit "version", lit "mode", lit "accountId"] :=
  known_of_unmatched fun _ _ _ h => by
    simp only [routingModeField, h]
    rfl

theorem known_threadSpend (time : GoString → Option ℤ) :
    Known (threadSpendField time) threadSpendFields :=
  known_of_unmatched fun _ _ _ h => by
    rw [threadSpendField, h]
    rfl

theorem decodeElements_mem {array : List Account} {vs : List Json} {slice : Slice}
    (h : decodeElements array vs = some slice) :
    ∀ v ∈ vs, ∃ a b, decodeObject accountField a v = some b := by
  induction vs generalizing array slice with
  | nil => nofun
  | cons v vs ih =>
    obtain ⟨a, ha, hrest⟩ := Option.bind_eq_some_iff.mp h
    obtain ⟨rest, hrest, -⟩ := Option.map_eq_some_iff.mp hrest
    exact List.forall_mem_cons.mpr ⟨⟨_, a, ha⟩, ih hrest⟩

theorem decodeSlice_mem {old new : Slice} {v : Json} (h : decodeSlice old v = some new) :
    ∀ w ∈ arrayElements v, ∃ a b, decodeObject accountField a w = some b := by
  cases v with
  | array vs =>
    cases vs with
    | nil => nofun
    | cons w ws => exact decodeElements_mem h
  | _ => nofun

theorem allStored_accounts {d new : Decoded} {m : GoString × Json}
    (h : stateField d m.1 m.2 = some new) : ∀ o ∈ accountObjects m, o.AllStored := by
  rw [accountObjects]
  split
  · rename_i hmatch
    intro o ho
    obtain ⟨v, hv, rfl⟩ := List.mem_map.mp ho
    have haccounts : stateField d m.1 m.2 =
        (decodeSlice d.accounts m.2).map fun accounts => { d with accounts } := by
      rw [stateField, hmatch]
      rfl
    rw [haccounts] at h
    obtain ⟨slice, hslice, -⟩ := Option.map_eq_some_iff.mp h
    obtain ⟨a, b, hdecode⟩ := decodeSlice_mem hslice v hv
    exact allStored_of_decodes known_account hdecode
  · nofun

/-- What a decoder accepts is a document without repeated names all of whose members were stored. -/
theorem allStored_of_accepts {time : GoString → Option ℤ} {data : GoString} {d : Decoder}
    (h : d.accepts time data = true) :
    ∃ v, strictParse data = some v ∧ ∀ o ∈ d.objects v, o.AllStored := by
  cases d with
  | state =>
    obtain ⟨p, hp⟩ := Option.isSome_iff_exists.mp h
    obtain ⟨v, hv, hdecode⟩ := Option.bind_eq_some_iff.mp hp
    obtain ⟨decoded, hdecoded, -⟩ := Option.map_eq_some_iff.mp hdecode
    refine ⟨v, hv, List.forall_mem_cons.mpr ⟨allStored_of_decodes known_state hdecoded, ?_⟩⟩
    intro o ho
    obtain ⟨m, hm, hom⟩ := List.mem_flatMap.mp ho
    obtain ⟨a, b, hfield⟩ := decodeObject_mem hdecoded m hm
    exact allStored_accounts hfield o hom
  | routingMode =>
    obtain ⟨r, hr⟩ := Option.isSome_iff_exists.mp h
    obtain ⟨v, hv, hdecode⟩ := Option.bind_eq_some_iff.mp (Option.filter_eq_some_iff.mp hr).1
    exact ⟨v, hv, List.forall_mem_singleton.mpr (allStored_of_decodes known_mode hdecode)⟩
  | routingModeFile =>
    obtain ⟨r, hr⟩ := Option.isSome_iff_exists.mp h
    obtain ⟨v, hv, hdecode⟩ := Option.bind_eq_some_iff.mp hr
    exact ⟨v, hv,
      List.forall_mem_singleton.mpr (allStored_of_decodes known_routingMode hdecode)⟩
  | threadSpend =>
    obtain ⟨r, hr⟩ := Option.isSome_iff_exists.mp h
    obtain ⟨v, hv, hdecode⟩ := Option.bind_eq_some_iff.mp hr
    exact ⟨v, hv,
      List.forall_mem_singleton.mpr (allStored_of_decodes (known_threadSpend time) hdecode)⟩

theorem distinctFields (d : Decoder) (v : Json) : ∀ o ∈ d.objects v, DistinctFields o.fields := by
  have hstate : DistinctFields stateFields := by decide
  have haccount : DistinctFields accountFields := by decide
  have hmode : DistinctFields modeFields := by decide
  have hfile : DistinctFields [lit "version", lit "mode", lit "accountId"] := by decide
  have hthread : DistinctFields threadSpendFields := by decide
  cases d with
  | state =>
    refine List.forall_mem_cons.mpr ⟨hstate, fun o ho => ?_⟩
    obtain ⟨m, -, hom⟩ := List.mem_flatMap.mp ho
    rw [accountObjects] at hom
    split at hom
    · obtain ⟨w, -, rfl⟩ := List.mem_map.mp hom
      exact haccount
    · cases hom
  | routingMode => exact List.forall_mem_singleton.mpr hmode
  | routingModeFile => exact List.forall_mem_singleton.mpr hfile
  | threadSpend => exact List.forall_mem_singleton.mpr hthread

/-- In a document that is accepted every field is set at most once exactly if no object that is
decoded into a struct has two names that differ in case only. -/
theorem fields_set_once {time : GoString → Option ℤ} {data : GoString} {d : Decoder}
    (h : d.accepts time data = true) : ∃ v, parse data = some v ∧
      ((∀ o ∈ d.objects v, o.SetsOnce) ↔ ∀ o ∈ d.objects v, o.NamesDiffer) := by
  obtain ⟨v, hv, hstored⟩ := allStored_of_accepts h
  obtain ⟨hparse, hstrict⟩ := Option.filter_eq_some_iff.mp hv
  refine ⟨v, hparse, forall₂_congr fun o ho => ?_⟩
  exact setsOnce_iff (distinctFields d v o ho) (hstored o ho)
    (unrepeated_of_unique (Bool.and_eq_true_iff.mp hstrict).1 d o ho)

def accountRequest : GoString := lit "\x7b\"mode\":\"account\",\"accountId\":\"b\"\x7d"

theorem fields_set_once_account : ∃ v, parse accountRequest = some v ∧
    ∀ o ∈ Decoder.routingMode.objects v, o.SetsOnce := by
  obtain ⟨v, hv, hiff⟩ :=
    @fields_set_once Rfc3339.parseRFC3339 accountRequest .routingMode (by decide)
  refine ⟨v, hv, hiff.mpr ?_⟩
  have hdocument : parse accountRequest = some (.object [(lit "mode", .string (lit "account")),
      (lit "accountId", .string (lit "b"))]) := by
    rfl
  obtain rfl := Option.some.inj (hdocument.symm.trans hv)
  refine List.forall_mem_singleton.mpr ?_
  unfold StructObject.NamesDiffer
  decide

def twoModesRequest : GoString :=
  lit "\x7b\"mode\":\"auto\",\"Mode\":\"account\",\"accountId\":\"b\"\x7d"

/-- A mode that was set to `auto` is set again, and the account is the one that is routed to. -/
theorem mode_set_twice : parseRoutingMode twoModesRequest = some ⟨lit "account", lit "b"⟩ ∧
    ∃ v, parse twoModesRequest = some v ∧ ∃ o ∈ Decoder.routingMode.objects v, ¬ o.SetsOnce := by
  refine ⟨by decide, _, by rfl, _, List.mem_cons_self, fun h => ?_⟩
  have htwice := h (lit "mode")
  revert htwice
  decide

end SubscriptionRouter.DuplicateFields
