import Mathlib
import SubscriptionRouter.Frames
import SubscriptionRouter.JsonRoundTrip
import SubscriptionRouter.JsonValues

set_option autoImplicit false

/-!
# The requests of the Chrome extension

The native host reads a request from a frame and answers it itself or with what the router's
control endpoint says. The texts of errors that come from outside, and what the endpoint and
the disk do, are the surroundings of a request.
-/
namespace SubscriptionRouter.ChromeBridge
open GoText JsonText Messages JsonValues Float64

def protocolVersion : GoString := lit "codex-router-native-v1"

def hostName : GoString := lit "io.github.thedanixsx.codex_subscription_router"

def maxMessageSize : ℕ := 1024 * 1024

structure Request where
  protocol : GoString
  id : GoString
  type : GoString
  payload : Option Json

structure Failed where
  code : GoString
  message : GoString

structure Response where
  id : GoString
  result : Except Failed (Option Json)

def failure (id code message : GoString) : Response := ⟨id, .error ⟨code, message⟩⟩

/-! ## Quoting -/

def runeOf : GoString → ℕ
  | [a] => a.toNat
  | [a, b] => (a.toNat - 0xC0) * 0x40 + (b.toNat - 0x80)
  | [a, b, c] => (a.toNat - 0xE0) * 0x1000 + (b.toNat - 0x80) * 0x40 + (c.toNat - 0x80)
  | [a, b, c, d] => (a.toNat - 0xF0) * 0x40000 + (b.toNat - 0x80) * 0x1000 +
      (c.toNat - 0x80) * 0x40 + (d.toNat - 0x80)
  | _ => 0

def hexDigits (count n : ℕ) : GoString :=
  (List.range count).reverse.map fun i => hexDigit (n / 16 ^ i % 16)

/-- One rune of a quoted text; `isPrint` is the table of `strconv.IsPrint`. -/
def quoteRune (isPrint : ℕ → Bool) (u : GoString) : GoString :=
  if badUnit u then lit "\\x" ++ hexDigits 2 (runeOf u)
  else if u = lit "\"" ∨ u = lit "\\" then lit "\\" ++ u
  else if isPrint (runeOf u) then u
  else match u with
    | [0x07] => lit "\\a"
    | [0x08] => lit "\\b"
    | [0x0C] => lit "\\f"
    | [0x0A] => lit "\\n"
    | [0x0D] => lit "\\r"
    | [0x09] => lit "\\t"
    | [0x0B] => lit "\\v"
    | _ =>
      if runeOf u < 0x20 ∨ runeOf u = 0x7F then lit "\\x" ++ hexDigits 2 (runeOf u)
      else if runeOf u < 0x10000 then lit "\\u" ++ hexDigits 4 (runeOf u)
      else lit "\\U" ++ hexDigits 8 (runeOf u)

/-- `strconv.Quote`. -/
def quoted (isPrint : ℕ → Bool) (s : GoString) : GoString :=
  lit "\"" ++ (units s).flatMap (quoteRune isPrint) ++ lit "\""

/-! ## Documents as `any` -/

def places (x : ℚ) : ℕ := ((List.range 40).find? fun k => (x * 10 ^ k).den = 1).getD 0

def fixedPoint (x : ℚ) : GoString :=
  let k := places x
  let n := (x * 10 ^ k).num.natAbs
  let fraction := itoaNat (n % 10 ^ k)
  itoaNat (n / 10 ^ k) ++
    if k = 0 then [] else lit "." ++ List.replicate (k - fraction.length) 0x30 ++ fraction

def scientific (x : ℚ) : GoString :=
  let e := Int.log 10 x
  fixedPoint (x / 10 ^ e) ++ (if e < 0 then lit "e-" else lit "e+") ++ itoaNat e.natAbs

/-- A number literal once it has been read into a `float64` and written again. -/
def formatFloat64 (literal : GoString) : GoString :=
  let x := shortestDecimal (nearestFloat64 |numberValue literal|)
  let text := if x = 0 then lit "0"
    else if x < 1 / 10 ^ 6 ∨ 10 ^ 21 ≤ x then scientific x
    else fixedPoint x
  match literal with
  | 0x2D :: _ => 0x2D :: text
  | _ => text

mutual
/-- A document once it has been read into an `any` and written again. -/
def reencode : Json → Json
  | .number literal => .number (formatFloat64 literal)
  | .array vs => .array (reencodeAll vs)
  | .object ms => .object (settle (reencodeMembers ms)).toList
  | v => v

def reencodeAll : List Json → List Json
  | [] => []
  | v :: vs => reencode v :: reencodeAll vs

def reencodeMembers : List (GoString × Json) → List (GoString × Json)
  | [] => []
  | (name, v) :: ms => (name, reencode v) :: reencodeMembers ms
end

/-! ## Requests -/

def firstDocument (data : GoString) : Option (Json × GoString) :=
  (List.range (data.length + 1)).findSome? fun n =>
    (parse (data.take n)).map fun v => (v, data.drop n)

def requestFields : List GoString := [lit "protocol", lit "id", lit "type", lit "payload"]

/-- Stores one member; `none` for an unknown one, or one of another type. -/
def storeMember (request : Request) (member : GoString × Json) : Option Request :=
  match matchField requestFields member.1 with
  | none => none
  | some field =>
    if field = lit "payload" then some { request with payload := some member.2 }
    else match member.2 with
      | .null => some request
      | .string s =>
        if field = lit "protocol" then some { request with protocol := s }
        else if field = lit "id" then some { request with id := s }
        else some { request with type := s }
      | _ => none

def decodeRequest : Json → Option Request
  | .null => some ⟨[], [], [], none⟩
  | .object ms => ms.foldlM storeMember ⟨[], [], [], none⟩
  | _ => none

/-- What the control endpoint does with a request. A body is what is read before the
connection ends, with the error it ends with. -/
inductive Endpoint where
  | requestFailed (error : GoString)
  | unreachable
  | answered (status : Fin 1000) (body : GoString) (readError : Option GoString)

structure Surroundings where
  isPrint : ℕ → Bool
  /-- What the decoder says about a request it cannot read, and about a browser context. -/
  requestError : GoString → GoString
  contextError : Option Json → GoString
  absoluteURL : GoString → Bool
  readControlToken : Except GoString Unit
  endpoint : Endpoint
  /-- The random part of the name of a stored context. -/
  writeContext : Except GoString (Fin 16 → UInt8)

def parseRequest (w : Surroundings) (data : GoString) : Except GoString Request :=
  match (firstDocument data).bind fun d => (decodeRequest d.1).map fun request => (request, d.2) with
  | none => .error (lit "invalid request JSON: " ++ w.requestError data)
  | some (decoded, rest) =>
    if !(units rest).all isBlank then .error (lit "request contains trailing JSON")
    else
      let request : Request := { decoded with
        protocol := trimSpace decoded.protocol
        id := trimSpace decoded.id
        type := trimSpace decoded.type }
      if request.protocol ≠ protocolVersion then
        .error (lit "unsupported protocol " ++ quoted w.isPrint request.protocol)
      else if request.id = [] ∨ 128 < request.id.length then
        .error (lit "request id must contain 1 to 128 characters")
      else if request.type = [] ∨ 64 < request.type.length then
        .error (lit "request type must contain 1 to 64 characters")
      else .ok request

/-- The id of a payload that is no valid request. -/
def extractID (data : GoString) : GoString :=
  let id := match parse data with
    | some (.object ms) => (decodeStringField (lit "id") ms []).getD []
    | _ => []
  if 128 < id.length then [] else id

/-! ## Browser contexts -/

def contextFields : List GoString := [lit "url", lit "title", lit "selection", lit "text"]

def storeText (fields : GoMap GoString) (member : GoString × Json) : Option (GoMap GoString) :=
  match matchField contextFields member.1, member.2 with
  | some _, .null => some fields
  | some field, .string s => some (fields.insert field s)
  | _, _ => none

def decodeContext : Option Json → Option (GoMap GoString)
  | some .null => some ∅
  | some (.object ms) => ms.foldlM storeText ∅
  | _ => none

/-- The error of a context that is not valid. -/
def browserContextError (w : Surroundings) (payload : Option Json) : Option GoString :=
  match decodeContext payload with
  | none => some (lit "invalid browser context: " ++ w.contextError payload)
  | some fields =>
    let url := trimSpace (fields[lit "url"]?.getD [])
    if url.length = 0 ∨ 16 * 1024 < url.length then
      some (lit "url must contain 1 to 16384 characters")
    else if !w.absoluteURL url then some (lit "url must be an absolute http or https URL")
    else if 4096 < (trimSpace (fields[lit "title"]?.getD [])).length then
      some (lit "title exceeds 4096 characters")
    else if 64 * 1024 < (fields[lit "selection"]?.getD []).length then
      some (lit "selection exceeds 65536 characters")
    else if 256 * 1024 < (fields[lit "text"]?.getD []).length then
      some (lit "text exceeds 262144 characters")
    else none

def contextID (random : Fin 16 → UInt8) : GoString :=
  (List.ofFn random).flatMap fun b => hexDigits 2 b.toNat

/-! ## Responses -/

def fetch (id : GoString) : Endpoint → Response
  | .requestFailed error => failure id (lit "router_request_failed") error
  | .unreachable =>
    failure id (lit "router_unavailable") (lit "router control endpoint is unavailable")
  | .answered status body readError =>
    if maxMessageSize < body.length then
      failure id (lit "router_response_failed") (lit "router response exceeds the native message limit")
    else match readError with
      | some error => failure id (lit "router_response_failed") error
      | none =>
        if status.val < 200 ∨ 300 ≤ status.val then
          failure id (lit "router_response_failed") (lit "router returned HTTP " ++ itoaNat status)
        else match parse body with
          | none => failure id (lit "router_response_failed") (lit "router returned invalid JSON")
          | some v =>
            if !decodesToAny v then
              failure id (lit "router_response_failed") (lit "router returned invalid JSON")
            else match v with
              | .null => ⟨id, .ok none⟩
              | v => ⟨id, .ok (some (reencode v))⟩

def routerRequest (w : Surroundings) (id : GoString) (needsToken : Bool) : Response :=
  match w.endpoint, needsToken, w.readControlToken with
  | .requestFailed error, _, _ => fetch id (.requestFailed error)
  | _, true, .error error => failure id (lit "router_unavailable") error
  | endpoint, _, _ => fetch id endpoint

def capabilities : List GoString :=
  [lit "router.health", lit "router.accounts", lit "router.profile", lit "browser.context.publish"]

def handle (w : Surroundings) (request : Request) : Response :=
  if request.type = lit "hello" then
    ⟨request.id, .ok (some (.object [(lit "capabilities", .array (capabilities.map .string)),
      (lit "hostName", .string hostName)]))⟩
  else if request.type = lit "router.health" then routerRequest w request.id false
  else if request.type = lit "router.accounts" ∨ request.type = lit "router.profile" then
    routerRequest w request.id true
  else if request.type = lit "browser.context.publish" then
    match browserContextError w request.payload, w.writeContext with
    | some error, _ => failure request.id (lit "invalid_payload") error
    | none, .error error => failure request.id (lit "context_write_failed") error
    | none, .ok random =>
      ⟨request.id, .ok (some (.object [(lit "contextId", .string (contextID random))]))⟩
  else failure request.id (lit "unsupported_type") (lit "request type is not supported")

/-- The response to a payload. -/
def respond (w : Surroundings) (data : GoString) : Response :=
  match parseRequest w data with
  | .error error => failure (extractID data) (lit "invalid_request") error
  | .ok request => handle w request

def resultMembers : Except Failed (Option Json) → List (GoString × Json)
  | .ok none => [(lit "ok", .bool true)]
  | .ok (some v) => [(lit "ok", .bool true), (lit "result", v)]
  | .error failed => [(lit "ok", .bool false), (lit "error", .object
      [(lit "code", .string failed.code), (lit "message", .string failed.message)])]

/-- Members that are empty are left out. -/
def encode (response : Response) : GoString :=
  marshal (.object ((lit "protocol", .string protocolVersion) ::
    ((if response.id = [] then [] else [(lit "id", .string response.id)]) ++
      resultMembers response.result)))

end SubscriptionRouter.ChromeBridge
