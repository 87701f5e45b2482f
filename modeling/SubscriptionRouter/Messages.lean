import Mathlib
import SubscriptionRouter.GoText
import SubscriptionRouter.JsonText

set_option autoImplicit false

/-!
# App-server messages

The JSONL envelope, the thread identifiers read from requests and results, and
the test for a usage-limit error. A field of type `RawMessage` is the text of
one JSON value, and an absent field is the empty text.
-/
namespace SubscriptionRouter.Messages
open GoText JsonText

abbrev RawMessage := GoString

structure RPCError where
  code : ℤ
  message : GoString
  data : RawMessage := []
  deriving DecidableEq

structure Message where
  id : RawMessage := []
  method : GoString := []
  params : RawMessage := []
  result : RawMessage := []
  error : Option RPCError := none
  deriving DecidableEq

def requestIDKey (id : RawMessage) : GoString := trimSpace id

def stringID (value : GoString) : RawMessage := marshal (.string value)

def request (method : GoString) (id params : RawMessage) : Message := { id, method, params }

def success (id result : RawMessage) : Message :=
  { id, result := if result = [] then lit "{}" else result }

def failure (id : RawMessage) (code : ℤ) (message : GoString) : Message :=
  { id, error := some { code, message } }

/-! ## Decoding into Go values -/

/-- Leading zeros dropped, the digits of a number literal and its power of ten. -/
def scaled (literal : GoString) : ℕ × ℕ × ℤ :=
  let s := match literal with | 0x2D :: t => t | _ => literal
  let whole := s.takeWhile isDigit
  let rest := s.dropWhile isDigit
  let fraction := match rest with | 0x2E :: t => t.takeWhile isDigit | _ => []
  let tail := match rest with | 0x2E :: t => t.dropWhile isDigit | _ => rest
  let exponent : ℤ := match tail with
    | _ :: 0x2D :: t => -((parseNat t).getD 0 : ℤ)
    | _ :: 0x2B :: t => (parseNat t).getD 0
    | _ :: t => (parseNat t).getD 0
    | [] => 0
  let ds := (whole ++ fraction).dropWhile (· = 0x30)
  ((parseNat ds).getD 0, ds.length, exponent - fraction.length)

/-- Whether `strconv.ParseFloat` accepts a literal without a range error. -/
def fitsFloat64 (literal : GoString) : Bool :=
  let (mantissa, size, exponent) := scaled literal
  mantissa = 0 || size + exponent < 309 || size + exponent = 309 &&
    mantissa * 10 ^ exponent.toNat < (2 ^ 1024 - 2 ^ 970) * 10 ^ (-exponent).toNat

mutual
/-- Decoding into `any` fails only on a number outside the range of `float64`. -/
def decodesToAny : Json → Bool
  | .number literal => fitsFloat64 literal
  | .array vs => decodesToAnyAll vs
  | .object ms => decodesToAnyMembers ms
  | _ => true

def decodesToAnyAll : List Json → Bool
  | [] => true
  | v :: vs => decodesToAny v && decodesToAnyAll vs

def decodesToAnyMembers : List (GoString × Json) → Bool
  | [] => true
  | (_, v) :: ms => decodesToAny v && decodesToAnyMembers ms
end

def member (name : GoString) (ms : List (GoString × Json)) : Option Json :=
  (ms.reverse.find? fun m => m.1 = name).map Prod.snd

def stringMember (name : GoString) (ms : List (GoString × Json)) : Option GoString :=
  match member name ms with
  | some (.string s) => some s
  | _ => none

def threadIDFromParams (params : RawMessage) : GoString :=
  match parse params with
  | some (.object ms) =>
    if decodesToAnyMembers ms then
      ((stringMember (lit "threadId") ms).orElse fun _ => stringMember (lit "thread_id") ms).getD []
    else []
  | _ => []

/-- Decode the members of one object into a string field, keeping the last value. -/
def decodeStringField (field : GoString) : List (GoString × Json) → GoString → Option GoString
  | [], value => some value
  | (name, v) :: ms, value =>
    if matchField [field] name = none then decodeStringField field ms value
    else match v with
      | .string s => decodeStringField field ms s
      | .null => decodeStringField field ms value
      | _ => none

/-- The `thread.id` of a result, `none` when decoding fails. -/
def decodeThreadID : List (GoString × Json) → GoString → Option GoString
  | [], id => some id
  | (name, v) :: ms, id =>
    if matchField [lit "thread"] name = none then decodeThreadID ms id
    else match v with
      | .object inner => (decodeStringField (lit "id") inner id).bind (decodeThreadID ms)
      | .null => decodeThreadID ms id
      | _ => none

def threadIDFromResult (result : RawMessage) : GoString :=
  match parse result with
  | some (.object ms) => (decodeThreadID ms []).getD []
  | _ => []

/-! ## Usage limits -/

/-- `strings.ToLower` as far as ASCII results go: besides the ASCII letters, the
dotted capital I and the Kelvin sign have ASCII lower cases. -/
def lowerUnit (u : GoString) : GoString :=
  if u = [0xC4, 0xB0] then lit "i"
  else if u = [0xE2, 0x84, 0xAA] then lit "k"
  else u.map fun b => if u.length = 1 then lowerByte b else b

def toLower (s : GoString) : GoString := ((units s).map lowerUnit).flatten

def usageLimitCode (value : GoString) : Bool :=
  toLower (trimSpace value) ∈ [lit "usage_limit_exceeded", lit "rate_limit_exceeded",
    lit "quota_exceeded", lit "usage_limit_reached", lit "rate_limit_reached"]

def usageLimitKey (key : GoString) : Bool :=
  toLower (key.filter (· ≠ 0x5F)) ∈
    [lit "codexerrorinfo", lit "code", lit "type", lit "error", lit "reason"]

mutual
def structuredContainsUsageLimit : Json → Bool
  | .object ms => membersContainUsageLimit ms
  | .array vs => elementsContainUsageLimit vs
  | _ => false

def elementsContainUsageLimit : List Json → Bool
  | [] => false
  | v :: vs => structuredContainsUsageLimit v || elementsContainUsageLimit vs

/-- A member shadowed by a later one of its name is not in the decoded map. -/
def membersContainUsageLimit : List (GoString × Json) → Bool
  | [] => false
  | (key, v) :: ms =>
    !(key ∈ ms.map Prod.fst) &&
        ((match v with | .string text => usageLimitKey key && usageLimitCode text | _ => false) ||
          structuredContainsUsageLimit v) ||
      membersContainUsageLimit ms
end

def isUsageLimitError (error : RPCError) : Bool :=
  (match parse error.data with
    | some v => decodesToAny v && structuredContainsUsageLimit v
    | none => false) ||
  [lit "usage limit", lit "usage_limit_exceeded", lit "rate limit exceeded",
    lit "rate_limit_exceeded", lit "quota exceeded"].any (contains (toLower error.message))

def isUsageLimitResponse (message : Message) : Bool := message.error.any isUsageLimitError

example : isUsageLimitResponse (failure (lit "1") 429 (lit "Usage Limit hit")) = true := by decide
example : threadIDFromResult (lit "\x7b\"Thread\": \x7b\"id\": \"t1\"\x7d\x7d") = lit "t1" := by decide
example : fitsFloat64 (lit "1e999") = false := by decide

end SubscriptionRouter.Messages
