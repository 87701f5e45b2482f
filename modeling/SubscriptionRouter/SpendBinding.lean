import Mathlib
import SubscriptionRouter.WrittenJson

set_option autoImplicit false

/-!
# Binding threads to the spend gateway

With request spending enabled, `forwardRoute` rewrites the params of the requests that
start or continue a thread, so that the child takes its model from the local gateway.
-/
namespace SubscriptionRouter.SpendBinding
open GoText JsonText Messages JsonValues Tallies WrittenJson

def spendProvider : GoString := lit "codex_router_spend"

def boundMethods : List GoString := [lit "thread/start", lit "thread/resume", lit "thread/fork"]

def bind (p : GoMap Value) : Value :=
  marshalMap (p.insert (lit "modelProvider") (.string spendProvider))

/-- Params as they came, or as the value of what the encoder writes. -/
inductive Sent where
  | unchanged (params : RawMessage)
  | encoded (v : Value)

def Sent.value : Sent → Option Value
  | .unchanged params => (written params).map valueOf
  | .encoded v => some v

/-- Absent params are the empty text. -/
def bindSpendProvider (requestSpending : Bool) (method : GoString) (params : RawMessage) : Sent :=
  if !requestSpending then .unchanged params
  else if method ∉ boundMethods then .unchanged params
  else if params = [] then .encoded (bind ∅)
  else match unmarshalMap (parse params) with
    | some (some p) => .encoded (bind p)
    | _ => .unchanged params

/-- The provider is the gateway, and every other member is what it was. -/
def Bound (params : RawMessage) (sent : Option Value) : Prop :=
  (∃ ms, sent = some (.object ms)) ∧ membersOf sent =
    (membersOf ((written params).map valueOf)).insert (lit "modelProvider") (.string spendProvider)

/-- The other members consist of characters and of numbers that come back from `float64`; or a
number is out of its range, so that nothing is rewritten, and the provider is the gateway already. -/
def Rewritable : Option Json → Prop
  | some (.object ms) =>
    if decodesToAnyMembers ms then
      ∀ name v, name ≠ lit "modelProvider" → (settle (memberValues ms))[name]? = some v →
        Survives name v
    else (settle (memberValues ms))[lit "modelProvider"]? = some (.string spendProvider)
  | _ => False

def Bindable (params : RawMessage) : Prop := params = [] ∨ Rewritable (written params)

theorem membersOf_bind_iff (ms : List (GoString × Json)) :
    membersOf (some (bind ((settle (memberValues (mapStringsMembers received ms))).map fun _ v =>
        mapNumbers Float64.nearestFloat64 v))) =
        (settle (memberValues ms)).insert (lit "modelProvider") (.string spendProvider) ↔
      ∀ name v, name ≠ lit "modelProvider" → (settle (memberValues ms))[name]? = some v →
        Survives name v := by
  have hlookup : ∀ name, (membersOf (some (bind ((settle (memberValues (mapStringsMembers received
      ms))).map fun _ v => mapNumbers Float64.nearestFloat64 v))))[name]? =
        if lit "modelProvider" = name then some (.string spendProvider) else returned ms name := by
    intro name
    rw [bind, membersOf_marshalMap, Std.ExtTreeMap.getElem?_map, getElem?_insert_eq]
    split
    · rfl
    · rw [Std.ExtTreeMap.getElem?_map, Option.map_map]
      rfl
  rw [← carried_iff fun name hname => ?_]
  · constructor
    · intro h name hne
      have hname := hlookup name
      rw [h, getElem?_insert_eq, if_neg hne.symm, if_neg hne.symm] at hname
      exact hname.symm
    · intro h
      refine Std.ExtTreeMap.ext_getElem? fun name => ?_
      rw [hlookup, getElem?_insert_eq]
      split
      · rfl
      · rename_i hne
        exact h name (Ne.symm hne)
  · rw [not_not.mp hname]
    decide

theorem insert_eq_self_iff {m : GoMap Value} {name : GoString} {v : Value} :
    m = m.insert name v ↔ m[name]? = some v := by
  constructor
  · intro h
    rw [h, getElem?_insert_eq, if_pos rfl]
  · intro h
    refine Std.ExtTreeMap.ext_getElem? fun k => ?_
    rw [getElem?_insert_eq]
    split
    · rename_i hk
      rw [← hk, h]
    · rfl

theorem membersOf_bind_empty : membersOf (some (bind ∅)) =
    (∅ : GoMap Value).insert (lit "modelProvider") (.string spendProvider) := by
  rw [bind, membersOf_marshalMap]
  refine Std.ExtTreeMap.ext_getElem? fun name => ?_
  rw [Std.ExtTreeMap.getElem?_map, getElem?_insert_eq]
  split
  · rfl
  · rw [Std.ExtTreeMap.getElem?_empty]
    rfl

/-- The rewrite keeps everything but the provider exactly when the params are bindable. -/
theorem bindSpendProvider_iff {method : GoString} (h : method ∈ boundMethods)
    (params : RawMessage) :
    Bound params (bindSpendProvider true method params).value ↔ Bindable params := by
  have hmethod : ¬ method ∉ boundMethods := not_not.mpr h
  unfold bindSpendProvider Bindable
  rw [if_neg (by decide), if_neg hmethod]
  by_cases habsent : params = []
  · rw [if_pos habsent, habsent]
    exact iff_of_true ⟨⟨_, rfl⟩, membersOf_bind_empty⟩ (.inl rfl)
  rw [if_neg habsent, parse_eq, Bound, or_iff_right habsent]
  have hunchanged : (Sent.unchanged params).value = (written params).map valueOf := rfl
  cases hwritten : written params with
  | none =>
    rw [hwritten] at hunchanged
    refine iff_of_false ?_ id
    rintro ⟨⟨_, hobject⟩, _⟩
    cases hunchanged.symm.trans hobject
  | some v =>
    rw [hwritten] at hunchanged
    cases v with
    | object ms =>
      rw [Option.map_some, Option.map_some, membersOf_valueOf, Rewritable, mapStrings, unmarshalMap,
        decodesToAnyMembers_mapped]
      by_cases hfits : decodesToAnyMembers ms = true
      · rw [if_pos hfits, if_pos hfits, ← membersOf_bind_iff]
        exact ⟨fun hb => hb.2, fun hb => ⟨⟨_, rfl⟩, hb⟩⟩
      · rw [if_neg hfits, if_neg hfits]
        dsimp only
        rw [hunchanged, Option.map_some, membersOf_valueOf, insert_eq_self_iff, valueOf]
        exact ⟨fun hb => hb.2, fun hb => ⟨⟨_, rfl⟩, hb⟩⟩
    | _ =>
      refine iff_of_false ?_ id
      rintro ⟨⟨_, hobject⟩, _⟩
      cases hunchanged.symm.trans hobject

def resumeParams : RawMessage := lit "\x7b\"threadId\":\"t\",\"limit\":42\x7d"

/-- A thread is resumed with an integer that a `float64` can hold. -/
theorem bindSpendProvider_resume :
    Bound resumeParams (bindSpendProvider true (lit "thread/resume") resumeParams).value := by
  refine (bindSpendProvider_iff (by decide) _).mpr (.inr ?_)
  have hwritten : written resumeParams = some (.object [(lit "threadId", .string (lit "t")),
      (lit "limit", .number (lit "42"))]) := rfl
  rw [hwritten, Rewritable, if_pos (by decide)]
  intro name v _ hv
  simp only [memberValues, settle, List.foldl_cons, List.foldl_nil, getElem?_insert_eq] at hv
  split_ifs at hv with hlimit hthread
  · obtain rfl := Option.some.inj hv
    subst hlimit
    decide +kernel
  · obtain rfl := Option.some.inj hv
    subst hthread
    decide
  · simp at hv

def surrogateParams : RawMessage := lit "\x7b\"\\ud800\":1,\"\\ud801\":2\x7d"

/-- The params `null` are not bound, a large integer is rounded, and of members whose names are
unpaired surrogates one is lost. -/
theorem params_not_bound :
    ¬ Bound (lit "null") (bindSpendProvider true (lit "thread/start") (lit "null")).value ∧
      (¬ Bound (lit "\x7b\"id\":9007199254740993\x7d") (bindSpendProvider true (lit "thread/start")
        (lit "\x7b\"id\":9007199254740993\x7d")).value) ∧
      ¬ Bound surrogateParams (bindSpendProvider true (lit "thread/start") surrogateParams).value := by
  refine ⟨?_, ?_, ?_⟩
  · rintro ⟨⟨_, hobject⟩, _⟩
    cases hobject
  · rintro ⟨_, hmembers⟩
    have hid := congrArg (fun m : GoMap Value => (m[lit "id"]?).map numbers) hmembers
    revert hid
    decide +kernel
  · rintro ⟨_, hmembers⟩
    have hsize := congrArg Std.ExtTreeMap.size hmembers
    revert hsize
    decide

end SubscriptionRouter.SpendBinding
