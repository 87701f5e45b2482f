import Mathlib
import SubscriptionRouter.JsonRoundTrip
import SubscriptionRouter.StoreOpen
import SubscriptionRouter.Tallies

set_option autoImplicit false

/-!
# The files of the store read back

`saveLocked` writes the accounts and the thread owners, `saveRoutingModeLocked` the routing
mode. What they write decodes to what was written, as long as every string is UTF-8 and
every creation time is one. A home directory that is not UTF-8 comes back with replacement
characters.
-/
namespace SubscriptionRouter.StateFile
open GoText JsonText JsonRoundTrip Messages StoreState StoreOpen Tallies

/-- Apart from the homes, the accounts and the owners are the same after encoding and
decoding. -/
structure Encodable (s : Store) : Prop where
  texts : ∀ a ∈ s.accounts, validString a.id = true ∧ validString a.label = true
  clock : ∀ a ∈ s.accounts, 0 ≤ a.createdAt ∧ a.createdAt < 2 ^ 63
  owners : ∀ e ∈ s.owners.toList, validString e.1 = true ∧ validString e.2 = true

def asRead (a : Account) : Account := { a with codexHome := toValid a.codexHome }

def storeAsRead (s : Store) : Store := { s with accounts := s.accounts.map asRead }

variable {s : Store}

theorem Encodable.asRead (h : Encodable s) : Encodable (storeAsRead s) where
  texts := fun b hb => by
    obtain ⟨a, ha, rfl⟩ := List.mem_map.mp hb
    exact h.texts a ha
  clock := fun b hb => by
    obtain ⟨a, ha, rfl⟩ := List.mem_map.mp hb
    exact h.clock a ha
  owners := h.owners

theorem toValid_self {t : GoString} (h : validString t = true) : toValid t = t :=
  toValid_eq_self_iff.mpr h

theorem toValid_lit (name : String) (h : (lit name).all (· < 0x80) = true) :
    toValid (lit name) = lit name :=
  toValid_self (validString_of_ascii fun b hb => of_decide_eq_true (List.all_eq_true.mp h b hb))

theorem itoa_eq {n : ℤ} (h : 0 ≤ n) : itoa n = itoaNat n.toNat := by
  obtain ⟨m, rfl⟩ := Int.eq_ofNat_of_zero_le h
  rfl

theorem fitsFloat64_itoaNat {n : ℕ} (h : n < 2 ^ 64) : fitsFloat64 (itoaNat n) = true := by
  have hdigits := isDigit_digits (n + 1) n
  have hlength : (itoaNat n).length ≤ 20 := itoaNat_length_le (h.trans (by decide))
  have hall : (itoaNat n).takeWhile isDigit = itoaNat n := List.takeWhile_eq_self_iff.mpr hdigits
  have hrest : (itoaNat n).dropWhile isDigit = [] := List.dropWhile_eq_nil_iff.mpr hdigits
  have hscaled : scaled (itoaNat n) =
      ((parseNat ((itoaNat n).dropWhile (· = 0x30))).getD 0,
        ((itoaNat n).dropWhile (· = 0x30)).length, 0) := by
    unfold scaled
    split
    · rename_i t ht
      have hdash := hdigits 0x2D (by rw [← itoaNat, ht]; exact List.mem_cons_self)
      exact absurd rfl (dash_not_digit hdash)
    · dsimp only
      rw [hall, hrest, List.append_nil]
      rfl
  have hshort := (List.dropWhile_sublist (l := itoaNat n) (· = 0x30)).length_le
  unfold fitsFloat64
  rw [hscaled]
  simp only [add_zero, Bool.or_eq_true, decide_eq_true_eq]
  exact .inl (.inr (by omega))

/-! ## The document -/

theorem readBack_encodeAccount {a : Account} (h : validString a.id = true ∧
    validString a.label = true) : readBack (encodeAccount a) = encodeAccount (asRead a) := by
  obtain ⟨hid, hlabel⟩ := h
  simp only [encodeAccount, readBack, readBackMembers, toValid_self hid, toValid_self hlabel,
    asRead]
  rw [toValid_lit "id" (by decide), toValid_lit "label" (by decide),
    toValid_lit "codexHome" (by decide), toValid_lit "enabled" (by decide),
    toValid_lit "controller" (by decide), toValid_lit "createdAt" (by decide)]

theorem readBack_encodeState (h : Encodable s) :
    readBack (encodeState s) = encodeState (storeAsRead s) := by
  have haccounts : (s.accounts.map encodeAccount).map readBack =
      (s.accounts.map asRead).map encodeAccount := by
    rw [List.map_map, List.map_map]
    exact List.map_congr_left fun a ha => readBack_encodeAccount (h.texts a ha)
  have howners : (s.owners.toList.map fun e => (e.1, Json.string e.2)).map
      (fun m => (toValid m.1, readBack m.2)) =
      s.owners.toList.map fun e => (e.1, Json.string e.2) := by
    rw [List.map_map]
    refine List.map_congr_left fun e he => ?_
    obtain ⟨hthread, howner⟩ := h.owners e he
    simp only [Function.comp_apply, readBack, toValid_self hthread, toValid_self howner]
  simp only [encodeState, storeAsRead, readBack, readBackMembers, readBackAll_eq, haccounts]
  rw [readBackMembers_eq, howners, toValid_lit "version" (by decide),
    toValid_lit "accounts" (by decide), toValid_lit "threadOwner" (by decide)]

theorem wellNumbered_encodeState (h : Encodable s) : wellNumbered (encodeState s) = true := by
  have haccounts : wellNumberedAll (s.accounts.map encodeAccount) = true := by
    refine wellNumberedAll_iff.mpr fun v hv => ?_
    obtain ⟨a, ha, rfl⟩ := List.mem_map.mp hv
    have hclock := validNumber_itoaNat a.createdAt.toNat
    rw [← itoa_eq (h.clock a ha).1] at hclock
    simp only [encodeAccount, wellNumbered, wellNumberedMembers, hclock, Bool.and_true]
  have howners : wellNumberedMembers (s.owners.toList.map fun e => (e.1, Json.string e.2)) =
      true := by
    refine wellNumberedMembers_iff.mpr fun m hm => ?_
    obtain ⟨e, _, rfl⟩ := List.mem_map.mp hm
    rfl
  simp only [encodeState, wellNumbered, wellNumberedMembers, haccounts, howners]
  decide

theorem depth_encodeState (s : Store) : depth (encodeState s) ≤ maxNestingDepth := by
  have haccounts : depthAll (s.accounts.map encodeAccount) ≤ 1 := by
    refine depthAll_le fun v hv => ?_
    obtain ⟨a, _, rfl⟩ := List.mem_map.mp hv
    exact le_rfl
  have howners : depthMembers (s.owners.toList.map fun e => (e.1, Json.string e.2)) ≤ 0 := by
    refine depthMembers_le fun m hm => ?_
    obtain ⟨e, _, rfl⟩ := List.mem_map.mp hm
    exact le_rfl
  simp only [encodeState, depth, depthMembers, maxNestingDepth]
  omega

theorem uniqueNames_encodeState (s : Store) : uniqueNames (encodeState s) = true := by
  have haccounts : uniqueNamesAll (s.accounts.map encodeAccount) = true := by
    refine uniqueNamesAll_iff.mpr fun v hv => ?_
    obtain ⟨a, _, rfl⟩ := List.mem_map.mp hv
    simp only [encodeAccount, uniqueNames, uniqueNamesMembers, List.map_cons, List.map_nil,
      Bool.and_true]
    decide
  have howners : uniqueNamesMembers (s.owners.toList.map fun e => (e.1, Json.string e.2)) =
      true := by
    refine uniqueNamesMembers_iff.mpr fun m hm => ?_
    obtain ⟨e, _, rfl⟩ := List.mem_map.mp hm
    rfl
  have hkeys : ((s.owners.toList.map fun e => (e.1, Json.string e.2)).map Prod.fst).Nodup := by
    rw [List.map_map]
    have hdistinct := Std.ExtTreeMap.distinct_keys_toList (t := s.owners)
    refine List.pairwise_map.mpr (hdistinct.imp fun {a b} h hab => ?_)
    exact h (by rw [show a.1 = b.1 from hab]; exact Std.ReflCmp.compare_self)
  simp only [encodeState, uniqueNames, uniqueNamesMembers, List.map_cons, List.map_nil, haccounts,
    howners, hkeys, decide_true, Bool.and_true]
  decide

theorem decodesToAny_encodeState (h : Encodable s) : decodesToAny (encodeState s) = true := by
  have hall : ∀ vs : List Json, (∀ v ∈ vs, decodesToAny v = true) → decodesToAnyAll vs = true := by
    intro vs hvs
    induction vs with
    | nil => rfl
    | cons v vs ih =>
      rw [decodesToAnyAll, hvs v List.mem_cons_self,
        ih fun w hw => hvs w (List.mem_cons_of_mem v hw)]
      rfl
  have hmembers : ∀ ms : List (GoString × Json), (∀ m ∈ ms, decodesToAny m.2 = true) →
      decodesToAnyMembers ms = true := by
    intro ms hms
    induction ms with
    | nil => rfl
    | cons m ms ih =>
      rw [decodesToAnyMembers, hms m List.mem_cons_self,
        ih fun w hw => hms w (List.mem_cons_of_mem m hw)]
      rfl
  have haccounts : decodesToAnyAll (s.accounts.map encodeAccount) = true := by
    refine hall _ fun v hv => ?_
    obtain ⟨a, ha, rfl⟩ := List.mem_map.mp hv
    obtain ⟨hpos, hlt⟩ := h.clock a ha
    have hclock := fitsFloat64_itoaNat (n := a.createdAt.toNat) (by omega)
    rw [← itoa_eq hpos] at hclock
    simp only [encodeAccount, decodesToAny, decodesToAnyMembers, hclock, Bool.and_true]
  have howners : decodesToAnyMembers (s.owners.toList.map fun e => (e.1, Json.string e.2)) =
      true := by
    refine hmembers _ fun m hm => ?_
    obtain ⟨e, _, rfl⟩ := List.mem_map.mp hm
    rfl
  simp only [encodeState, decodesToAny, decodesToAnyMembers, haccounts, howners, Bool.and_true]
  decide

theorem strictParse_stateContents (h : Encodable s) :
    strictParse (stateContents s) = some (encodeState (storeAsRead s)) := by
  have hparse := parse_render indented (encodeState s) (wellNumbered_encodeState h)
    (depth_encodeState s)
  rw [readBack_encodeState h] at hparse
  rw [strictParse, stateContents, marshalIndent, hparse, Option.filter_some, if_pos]
  rw [uniqueNames_encodeState, decodesToAny_encodeState h.asRead]
  rfl

/-! ## Decoding -/

theorem decode_encodeAccount (old a : Account) (h : 0 ≤ a.createdAt ∧ a.createdAt < 2 ^ 63) :
    decodeObject accountField old (encodeAccount a) = some a := by
  have hid : ∀ (b : Account) v, accountField b (lit "id") v =
      (decodeString b.id v).map fun id => { b with id } := fun _ _ => rfl
  have hlabel : ∀ (b : Account) v, accountField b (lit "label") v =
      (decodeString b.label v).map fun label => { b with label } := fun _ _ => rfl
  have hhome : ∀ (b : Account) v, accountField b (lit "codexHome") v =
      (decodeString b.codexHome v).map fun codexHome => { b with codexHome } := fun _ _ => rfl
  have henabled : ∀ (b : Account) v, accountField b (lit "enabled") v =
      (decodeBool b.enabled v).map fun enabled => { b with enabled } := fun _ _ => rfl
  have hcontroller : ∀ (b : Account) v, accountField b (lit "controller") v =
      (decodeBool b.controller v).map fun controller => { b with controller } := fun _ _ => rfl
  have hcreated : ∀ (b : Account) v, accountField b (lit "createdAt") v =
      (decodeInt b.createdAt v).map fun createdAt => { b with createdAt } := fun _ _ => rfl
  have hclock : ∀ old, decodeInt old (.number (itoa a.createdAt)) = some a.createdAt := fun old => by
    rw [decodeInt, itoa_eq h.1, parseInt64_itoaNat (by omega), Int.toNat_of_nonneg h.1]
  rw [encodeAccount, decodeObject]
  simp only [decodeMembers, hid, hlabel, hhome, henabled, hcontroller, hcreated, hclock,
    decodeString, decodeBool, Option.map_some, Option.bind_some]

theorem decodeElements_encode {l : List Account}
    (h : ∀ a ∈ l, 0 ≤ a.createdAt ∧ a.createdAt < 2 ^ 63) :
    decodeElements [] (l.map encodeAccount) = some ⟨l, []⟩ := by
  induction l with
  | nil => rfl
  | cons a l ih =>
    rw [List.map_cons, decodeElements, decode_encodeAccount _ a (h a List.mem_cons_self),
      Option.bind_some, List.tail_nil, ih fun b hb => h b (List.mem_cons_of_mem a hb)]
    rfl

theorem decodeSlice_encode {l : List Account}
    (h : ∀ a ∈ l, 0 ≤ a.createdAt ∧ a.createdAt < 2 ^ 63) :
    decodeSlice ⟨[], []⟩ (.array (l.map encodeAccount)) = some ⟨l, []⟩ := by
  cases l with
  | nil => rfl
  | cons a l => exact decodeElements_encode h

theorem decodeOwners_encode (owners : GoMap GoString) :
    decodeOwners ∅ (.object (owners.toList.map fun e => (e.1, .string e.2))) = some owners := by
  have hall : ∀ (l : List (GoString × GoString)) (old : GoMap GoString),
      decodeMembers ownerField old (l.map fun e => (e.1, .string e.2)) =
        some (l.foldl (fun next e => next.insert e.1 e.2) old) := by
    intro l
    induction l with
    | nil => exact fun _ => rfl
    | cons e l ih =>
      intro old
      rw [List.map_cons, decodeMembers, List.foldl_cons, ← ih]
      rfl
  rw [decodeOwners, hall, foldl_insert_toList]

theorem decode_stateContents (h : Encodable s) :
    decodePersistedState (stateContents s) = some ⟨1, s.accounts.map asRead, s.owners⟩ := by
  have hversion : ∀ (d : Decoded) v, stateField d (lit "version") v =
      (decodeInt d.version v).map fun version => { d with version } := fun _ _ => rfl
  have haccounts : ∀ (d : Decoded) v, stateField d (lit "accounts") v =
      (decodeSlice d.accounts v).map fun accounts => { d with accounts } := fun _ _ => rfl
  have howners : ∀ (d : Decoded) v, stateField d (lit "threadOwner") v =
      (decodeOwners d.threadOwner v).map fun threadOwner => { d with threadOwner } :=
    fun _ _ => rfl
  have hone : decodeInt Decoded.zero.version (.number (lit "1")) = some 1 := by decide
  have hslice : decodeSlice ⟨[], []⟩ (.array ((s.accounts.map asRead).map encodeAccount)) =
      some ⟨s.accounts.map asRead, []⟩ := decodeSlice_encode h.asRead.clock
  rw [decodePersistedState, strictParse_stateContents h, Option.bind_some, encodeState,
    decodeObject]
  simp only [decodeMembers]
  rw [hversion, hone, Option.map_some, Option.bind_some, haccounts]
  change (((decodeSlice ⟨[], []⟩ (.array ((s.accounts.map asRead).map encodeAccount))).map
    _).bind _).map _ = _
  rw [hslice, Option.map_some, Option.bind_some, howners]
  change (((decodeOwners ∅ (.object (s.owners.toList.map fun e => (e.1, .string e.2)))).map
    _).bind _).map _ = _
  rw [decodeOwners_encode]
  rfl

/-! ## The routing mode -/

def idByte (b : UInt8) : Bool :=
  0x61 ≤ b && b ≤ 0x7A || 0x41 ≤ b && b ≤ 0x5A || 0x30 ≤ b && b ≤ 0x39 || b = 0x2D || b = 0x5F

theorem idByte_plain : ∀ b, idByte b = true → b < 0x80 ∧ quoteUnit [b] = [[b]] := by
  decide +kernel

theorem validAccountID_bytes {id : GoString} (h : validAccountID id = true) :
    ∀ b ∈ id, idByte b = true := by
  simp only [validAccountID, Bool.and_eq_true] at h
  exact fun b hb => List.all_eq_true.mp h.2 b hb

theorem validString_id {id : GoString} (h : validAccountID id = true) : validString id = true :=
  validString_of_ascii fun b hb => (idByte_plain b (validAccountID_bytes h b hb)).1

theorem quote_id {id : GoString} (h : validAccountID id = true) :
    (quote id).flatten = lit "\"" ++ id ++ lit "\"" := by
  have hbytes := validAccountID_bytes h
  have hunits : ∀ l : GoString, (∀ b ∈ l, idByte b = true) →
      ((l.map fun b => [b]).flatMap quoteUnit).flatten = l := by
    intro l hl
    induction l with
    | nil => rfl
    | cons b l ih =>
      rw [List.map_cons, List.flatMap_cons, (idByte_plain b (hl b List.mem_cons_self)).2,
        List.flatten_append, ih fun c hc => hl c (List.mem_cons_of_mem b hc)]
      rfl
  rw [quote, units_ascii fun b hb => (idByte_plain b (hbytes b hb)).1, List.flatten_append,
    List.flatten_append, hunits id hbytes]
  rfl

def Selects (r : RoutingMode) : Prop :=
  r = .auto ∨ r.mode = lit "account" ∧ validAccountID r.accountID = true

theorem routingModeContents_account {id : GoString} (hne : id ≠ []) :
    routingModeContents ⟨lit "account", id⟩ =
      lit "\x7b\"version\":1,\"mode\":\"account\",\"accountId\":" ++
        ((quote id).flatten ++ lit "\x7d\n") := by
  rw [routingModeContents, marshal, encodeRoutingMode, if_neg hne]
  simp only [List.cons_append, List.nil_append, render, renderMembers, List.flatten_append,
    List.append_assoc]
  rfl

theorem length_routingModeContents {r : RoutingMode} (h : Selects r) :
    (routingModeContents r).length ≤ maxRoutingModeFileSize := by
  rcases h with rfl | ⟨hmode, hid⟩
  · decide
  · obtain ⟨mode, id⟩ := r
    subst hmode
    have hne : id ≠ [] := by
      rintro rfl
      cases hid
    have hlength : id.length ≤ maxAccountID := by
      simp only [validAccountID, Bool.and_eq_true, decide_eq_true_eq] at hid
      exact hid.1.2
    have hfront : (lit "\x7b\"version\":1,\"mode\":\"account\",\"accountId\":").length = 42 := by
      decide
    have hmark : (lit "\"").length = 1 := by decide
    have hback : (lit "\x7d\n").length = 2 := by decide
    rw [routingModeContents_account hne, quote_id hid]
    simp only [List.length_append, hfront, hmark, hback]
    simp only [maxAccountID, maxRoutingModeFileSize] at hlength ⊢
    omega

theorem strictParse_marshal {v : Json} (hnumbers : wellNumbered v = true)
    (hdepth : depth v ≤ maxNestingDepth) (hsame : readBack v = v) (hnames : uniqueNames v = true)
    (hany : decodesToAny v = true) : strictParse (marshal v ++ lit "\n") = some v := by
  have hparse := parse_render compact v hnumbers hdepth
  rw [hsame] at hparse
  rw [strictParse, marshal, hparse, Option.filter_some, if_pos]
  rw [hnames, hany]
  rfl

theorem decode_routingModeContents {r : RoutingMode} (h : Selects r) :
    decodeRoutingMode (routingModeContents r) = some (1, r) := by
  have hversion : ∀ (x : ℤ × RoutingMode) v, routingModeField x (lit "version") v =
      (decodeInt x.1 v).map fun version => (version, x.2) := fun _ _ => rfl
  have hmode : ∀ (x : ℤ × RoutingMode) v, routingModeField x (lit "mode") v =
      (decodeString x.2.mode v).map fun mode => (x.1, { x.2 with mode }) := fun _ _ => rfl
  have haccountID : ∀ (x : ℤ × RoutingMode) v, routingModeField x (lit "accountId") v =
      (decodeString x.2.accountID v).map fun accountID => (x.1, { x.2 with accountID }) :=
    fun _ _ => rfl
  have hone : ∀ old, decodeInt old (.number (lit "1")) = some 1 := fun _ => by
    rw [decodeInt]
    decide
  rcases h with rfl | ⟨hname, hid⟩
  · rw [decodeRoutingMode, routingModeContents, strictParse_marshal (by decide) (by decide) (by rfl)
      (by decide) (by decide)]
    rfl
  · obtain ⟨mode, id⟩ := r
    subst hname
    have hne : id ≠ [] := by
      rintro rfl
      cases hid
    have hencode : encodeRoutingMode ⟨lit "account", id⟩ = .object [(lit "version", .number (lit "1")),
        (lit "mode", .string (lit "account")), (lit "accountId", .string id)] := by
      rw [encodeRoutingMode, if_neg hne]
      rfl
    have hsame : readBack (encodeRoutingMode ⟨lit "account", id⟩) =
        encodeRoutingMode ⟨lit "account", id⟩ := by
      rw [hencode]
      simp only [readBack, readBackMembers, toValid_self (validString_id hid)]
      rw [toValid_lit "version" (by decide), toValid_lit "mode" (by decide),
        toValid_lit "account" (by decide), toValid_lit "accountId" (by decide)]
    rw [decodeRoutingMode, routingModeContents, strictParse_marshal (by rw [hencode]; rfl)
      (by rw [hencode]; exact Nat.le_add_left 1 9999) hsame (by rw [hencode]; rfl)
      (by rw [hencode]; rfl), hencode,
      Option.bind_some, decodeObject]
    simp only [decodeMembers, hversion, hone, hmode, haccountID, decodeString, Option.map_some,
      Option.bind_some]

end SubscriptionRouter.StateFile
