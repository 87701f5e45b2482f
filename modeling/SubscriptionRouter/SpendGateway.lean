import Mathlib
import SubscriptionRouter.GoCase
import SubscriptionRouter.GoText
import SubscriptionRouter.JsonText
import SubscriptionRouter.Messages
import SubscriptionRouter.SpendPolicy
import SubscriptionRouter.Transitions

set_option autoImplicit false

/-!
# The spend gateway

`ServeHTTP` and `createVoiceCall` as a handler that waits for one answer of its
environment at a time: the body or a part of it, the candidates, a reservation,
credentials, the upstream response, a read, a client write or a flush. What the
handler does to the outside is its log. Deferred calls run when it returns, last
first. Catalog requests never reserve or spend.
-/
namespace SubscriptionRouter.SpendGateway
open GoCase GoText JsonText Messages SpendPolicy Transitions

/-! ## HTTP data -/

def tokenByte (b : UInt8) : Bool :=
  0x30 ≤ b && b ≤ 0x39 || 0x41 ≤ b && b ≤ 0x5A || 0x61 ≤ b && b ≤ 0x7A ||
    b ∈ lit "!#$%&'*+-.^_" || b = 0x60 || b ∈ lit "|~"

def capitalize : Bool → GoString → GoString
  | _, [] => []
  | first, b :: s => (if first then upperByte b else lowerByte b) :: capitalize (b = 0x2D) s

/-- `http.CanonicalHeaderKey`. -/
def canonicalHeaderKey (name : GoString) : GoString :=
  if name.all tokenByte then capitalize true name else name

/-- The first value of each header, by canonical name. -/
abbrev Header := GoMap GoString

def Header.get (h : Header) (name : GoString) : GoString :=
  (Std.ExtTreeMap.get? h (canonicalHeaderKey name)).getD []

def Header.set (h : Header) (name value : GoString) : Header :=
  Std.ExtTreeMap.insert h (canonicalHeaderKey name) value

structure URL where
  scheme : GoString
  user : Option GoString
  host : GoString
  path : GoString
  rawPath : GoString
  rawQuery : GoString
  fragment : GoString
  deriving DecidableEq

structure Request where
  method : GoString
  path : GoString
  rawQuery : GoString
  header : Header
  contentLength : ℤ

/-- The parsers of the standard library that read a request's query and media type. -/
structure Library where
  parseQuery : GoString → Option (GoMap (List GoString))
  parseMediaType : GoString → Option (GoString × GoMap GoString)

/-- What `errors.Is` and `errors.As` find in an error. -/
inductive Cause where
  | unexpectedEOF
  | connectionReset
  | connectionAborted
  | brokenPipe
  | tooLong
  | canceled
  | deadlineExceeded
  | networkTimeout
  deriving DecidableEq

abbrev Failure := List Cause

def transportFailureKind (e : Failure) : GoString :=
  if .unexpectedEOF ∈ e then lit "unexpected-eof"
  else if .connectionReset ∈ e then lit "connection-reset"
  else if .connectionAborted ∈ e then lit "connection-aborted"
  else if .brokenPipe ∈ e then lit "broken-pipe"
  else if .tooLong ∈ e then lit "event-too-large"
  else if .canceled ∈ e then lit "canceled"
  else if .deadlineExceeded ∈ e ∨ .networkTimeout ∈ e then lit "timeout"
  else lit "transport-error"

structure Credentials where
  bearer : GoString
  accountID : GoString
  deriving DecidableEq

inductive Outcome where
  | notSent
  | deliveryUnknown
  | upstreamRejected
  | accepted
  | invalidCompactionResponse
  | invalidVoiceResponse
  | clientDisconnected
  | completed
  | upstreamFailed
  | streamInterrupted
  | voiceCallCreated
  deriving DecidableEq

/-- `Record` without its duration. -/
structure Record where
  decision : Decision := ⟨0, 0, [], []⟩
  status : ℤ := 0
  outcome : Outcome := .notSent
  threadID : GoString := []
  turnID : GoString := []
  subagent : Bool := false
  failureKind : GoString := []
  deriving DecidableEq

structure Gateway where
  token : GoString
  policy : Bool
  candidates : Bool
  credentials : Bool
  roundTrip : Bool
  upstream : Option URL
  observe : Bool
  accepted : Bool

/-- The upstream of a gateway whose boundary is configured. -/
def Gateway.configured (g : Gateway) : Option URL :=
  if g.policy && g.candidates && g.credentials && g.roundTrip then
    g.upstream.filter fun u =>
      u.scheme = lit "https" && u.user.isNone && u.rawQuery = [] && u.fragment = []
  else none

/-! ## What a handler does and waits for -/

/-- What is sent: the body as it came, or the `json.Marshal` of the voice fields. -/
inductive Payload where
  | bytes (body : GoString)
  | fields (fields : GoMap RawMessage)

structure Upstream where
  url : URL
  header : Header
  body : Payload

structure Response where
  status : ℤ
  header : Header

inductive Event where
  | reserved (decision : Decision)
  | resolved (accountID : GoString) (credentials : Credentials)
  | roundTrip (upstream : Upstream) (result : Except Failure Response)
  | accepted (record : Record)
  | respond (status : ℤ) (header : List (GoString × GoString))
  | relayed (bytes : GoString)
  | gatewayError (status : ℕ) (message : GoString)
  | closedBody
  | observed (record : Record)
  | released (decision : Decision)

inductive Deferred where
  | release (decision : Decision)
  | observe
  | closeBody
  deriving DecidableEq

/-- An inference with its body and decoded envelope, or a call creation with its fields. -/
inductive Call where
  | responses (compact : Bool) (body : GoString) (envelope : List (GoString × Json))
  | voice (fields : GoMap RawMessage)

inductive Stage where
  | readBody (compact : Bool)
  | nextPart (fields : GoMap RawMessage)
  | readPart (fields : GoMap RawMessage) (name : GoString)
  | candidates (call : Call) (retried : Bool)
  | reserve (call : Call) (candidates : List Candidate)
  | credentials (call : Call) (decision : Decision)
  | newRequest (call : Call) (decision : Decision) (credentials : Credentials)
  | roundTrip (call : Call) (decision : Decision) (upstream : Upstream)
  | readCompact (decision : Decision) (response : Response)
  | writeCompact
  | scan
  | writeLine (terminal : Option Outcome)
  | writeBlank (terminal : Outcome)
  | flush (terminal : Option Outcome)
  | readSDP (decision : Decision) (response : Response)
  | writeSDP
  | catalogRoundTrip
  | catalogRead
  | returned

structure Handler where
  stage : Stage
  record : Record
  deferred : List Deferred
  log : List Event

/-- A part of a multipart body: its form name and its file name. -/
structure Part where
  formName : GoString
  fileName : GoString

inductive ReadError where
  | tooLarge
  | other

inductive Answer where
  | body (result : Except ReadError GoString)
  | part (result : Except Failure (Option Part))
  | candidates (result : Except Failure (List Candidate)) (contextDone : Bool)
  | reserve (result : Except ReserveError Decision)
  | credentials (result : Except Failure Credentials)
  | newRequest (ok : Bool)
  | roundTrip (result : Except Failure Response)
  | read (result : Except Failure GoString)
  | line (line : GoString)
  | endOfLines (error : Option Failure)
  | write (result : Except Failure Unit)

def Handler.emit (h : Handler) (e : Event) : Handler := { h with log := h.log ++ [e] }

def Deferred.run (g : Gateway) (record : Record) : Deferred → List Event
  | .release decision => [.released decision]
  | .observe => if g.observe then [.observed record] else []
  | .closeBody => [.closedBody]

def Handler.return (g : Gateway) (h : Handler) : Handler :=
  { h with stage := .returned, deferred := [], log := h.log ++ h.deferred.flatMap (·.run g h.record) }

def Handler.refuse (g : Gateway) (h : Handler) (status : ℕ) (message : GoString) : Handler :=
  (h.emit (.gatewayError status message)).return g

def Handler.finish (g : Gateway) (h : Handler) (outcome : Outcome) (failureKind : GoString) : Handler :=
  { h with record := { h.record with outcome, failureKind } }.return g

/-! ## Before the reservation -/

def Handler.init : Handler := ⟨.returned, {}, [], []⟩

def maxInferenceRequestBytes : ℤ := 128 * 2 ^ 20

def requestTooLarge : GoString := lit "inference request exceeds router limit of 128 MiB"

def voiceQuery (lib : Library) (rawQuery : GoString) : Bool :=
  match lib.parseQuery rawQuery with
  | none => false
  | some query => rawQuery = [] || query.size = 2 &&
      query[lit "intent"]? = some [lit "quicksilver"] && query[lit "architecture"]? = some [lit "avas"]

def voiceMedia (lib : Library) (contentType : GoString) : Bool :=
  match lib.parseMediaType contentType with
  | none => false
  | some (mediaType, params) =>
    mediaType = lit "multipart/form-data" && (params[lit "boundary"]?).getD [] ≠ []

/-- `createVoiceCall` up to the first part. -/
def createVoiceCall (g : Gateway) (lib : Library) (r : Request) : Handler :=
  let h := Handler.init
  if g.configured.isNone then h.refuse g 503 (lit "voice boundary is not configured")
  else if r.header.get (lit "Content-Encoding") ≠ [] then
    h.refuse g 415 (lit "compressed voice setup is unsupported")
  else if !voiceQuery lib r.rawQuery then h.refuse g 400 (lit "unsupported voice query")
  else if !voiceMedia lib (r.header.get (lit "Content-Type")) then
    h.refuse g 415 (lit "voice setup requires multipart SDP and session")
  else { h with stage := .nextPart ∅ }

def catalogQuery (lib : Library) (rawQuery : GoString) : Bool :=
  match lib.parseQuery rawQuery with
  | none => false
  | some query => match query[lit "client_version"]? with
    | some [version] => query.size ≤ 1 && version.length ≤ 64
    | _ => false

def catalog (g : Gateway) (lib : Library) (r : Request) : Handler :=
  let h := Handler.init
  let upstream := g.upstream.filter fun u =>
    u.scheme = lit "https" && u.user.isNone && u.rawQuery = [] && u.fragment = []
  if upstream.isNone || !g.roundTrip then h.refuse g 503 (lit "catalog unavailable")
  else if !catalogQuery lib r.rawQuery then h.refuse g 400 (lit "invalid catalog query")
  else { h with stage := .catalogRoundTrip }

def authorized (g : Gateway) (r : Request) : Bool :=
  32 ≤ g.token.length && (r.header.get (lit "X-Codex-Spend-Token") = g.token ||
    r.header.get (lit "Authorization") = lit "Bearer " ++ g.token)

/-- `ServeHTTP` up to the body. -/
def serveHTTP (g : Gateway) (lib : Library) (r : Request) : Handler :=
  let h := Handler.init
  let compact : Bool := r.path = lit "/v1/responses/compact"
  if !authorized g r then h.refuse g 401 (lit "unauthorized")
  else if r.header.get (lit "Origin") ≠ [] ∨ r.header.get (lit "Upgrade") ≠ [] then
    h.refuse g 403 (lit "browser and WebSocket traffic is not qualified")
  else if r.method = lit "POST" ∧ (r.path = lit "/v1/live" ∨ r.path = lit "/v1/realtime/calls") then
    createVoiceCall g lib r
  else if r.method = lit "GET" ∧ r.path = lit "/v1/models" then catalog g lib r
  else if r.method ≠ lit "POST" ∨ (r.path ≠ lit "/v1/responses" ∧ compact = false) ∨ r.rawQuery ≠ [] then
    h.refuse g 404 (lit "unsupported inference operation")
  else if g.configured.isNone then h.refuse g 503 (lit "inference boundary is not configured")
  else if r.header.get (lit "Content-Encoding") ≠ [] then
    h.refuse g 415 (lit "compressed requests are not qualified")
  else if maxInferenceRequestBytes < r.contentLength then h.refuse g 413 requestTooLarge
  else { h with stage := .readBody compact }

/-- Whether the raw text of a member is neither `null` nor `""`. -/
def continues : Json → Bool
  | .null => false
  | .string s => s ≠ []
  | _ => true

def isFalse : Json → Bool
  | .bool b => !b
  | _ => false

def Handler.readBody (g : Gateway) (h : Handler) (compact : Bool) :
    Except ReadError GoString → Handler
  | .error .tooLarge => h.refuse g 413 requestTooLarge
  | .error .other => h.refuse g 400 (lit "cannot read inference request; inference not sent")
  | .ok body => match parse body with
    | some (.object envelope) =>
      if [lit "previous_response_id", lit "conversation"].any
          fun key => (member key envelope).any continues then
        h.refuse g 409 (lit "account-bound continuation requires a qualified replay path")
      else if (member (lit "background") envelope).any fun v => !isFalse v then
        h.refuse g 400 (lit "background responses are not qualified")
      else { h with stage := .candidates (.responses compact body envelope) false }
    | _ => h.refuse g 400 (lit "invalid inference JSON")

/-- All parts are read: the record and its observation begin. -/
def Handler.beginVoice (g : Gateway) (r : Request) (h : Handler) (fields : GoMap RawMessage) :
    Handler :=
  if fields.size ≠ 2 then h.refuse g 400 (lit "missing voice fields")
  else
    let id := r.header.get (lit "Thread-Id")
    { h with
      record := { threadID := if id.length ≤ 64 then id else [] }
      deferred := [.observe]
      stage := .candidates (.voice fields) false }

def Handler.nextPart (g : Gateway) (r : Request) (h : Handler) (fields : GoMap RawMessage) :
    Except Failure (Option Part) → Handler
  | .ok none => h.beginVoice g r fields
  | .error _ => h.refuse g 400 (lit "invalid voice setup")
  | .ok (some part) =>
    if part.formName ∈ fields ∨ (part.formName ≠ lit "sdp" ∧ part.formName ≠ lit "session") ∨
        part.fileName ≠ [] then
      h.refuse g 400 (lit "invalid voice fields")
    else { h with stage := .readPart fields part.formName }

def Handler.readPart (g : Gateway) (h : Handler) (fields : GoMap RawMessage) (name : GoString) :
    Except Failure GoString → Handler
  | .error _ => h.refuse g 413 (lit "voice setup too large")
  | .ok data =>
    if name = lit "sdp" then
      if !(lit "v=0").isPrefixOf data then h.refuse g 400 (lit "invalid SDP")
      else { h with stage := .nextPart (fields.insert name (marshal (.string data))) }
    else match parse data with
      | some (.object _) => { h with stage := .nextPart (fields.insert name data) }
      | _ => h.refuse g 400 (lit "invalid voice session")

def Handler.capacityUnavailable (g : Gateway) (h : Handler) (call : Call) (e : Failure) : Handler :=
  let kind := transportFailureKind e
  match call with
  | .responses _ _ _ =>
    let h := if g.observe then h.emit (.observed { status := 503, failureKind := lit "capacity-" ++ kind })
      else h
    h.refuse g 503 (lit "subscription capacity " ++ kind ++ lit "; inference not sent")
  | .voice _ => { h with record := { h.record with failureKind := lit "capacity-" ++ kind } }.refuse
      g 503 (lit "voice capacity unavailable; call not sent")

/-- A timeout is retried once, while the request's context lives. -/
def Handler.candidates (g : Gateway) (h : Handler) (call : Call) (retried contextDone : Bool) :
    Except Failure (List Candidate) → Handler
  | .ok candidates => { h with stage := .reserve call candidates }
  | .error e =>
    if Cause.deadlineExceeded ∈ e ∧ contextDone = false ∧ retried = false then
      { h with stage := .candidates call true }
    else h.capacityUnavailable g call e

/-! ## From the reservation to the dispatch -/

def metadata (envelope : List (GoString × Json)) (key : String) : GoString :=
  match member (lit "client_metadata") envelope with
  | some (.object ms) => (stringMember (lit key) ms).getD []
  | _ => []

def bounded (id : GoString) : GoString := if id.length ≤ 64 then id else []

def Handler.reserve (g : Gateway) (h : Handler) (call : Call) :
    Except ReserveError Decision → Handler
  | .error e => h.refuse g 409 e.text
  | .ok decision =>
    let h := { h.emit (.reserved decision) with stage := .credentials call decision }
    match call with
    | .responses _ _ envelope => { h with
        deferred := [.observe, .release decision]
        record := {
          decision
          threadID := bounded (metadata envelope "thread_id")
          turnID := bounded (metadata envelope "turn_id")
          subagent := metadata envelope "x-openai-subagent" ≠ [] } }
    | .voice _ => { h with
        deferred := .release decision :: h.deferred
        record := { h.record with decision } }

def Handler.credentials (g : Gateway) (h : Handler) (call : Call) (decision : Decision)
    (result : Except Failure Credentials) : Handler :=
  let unavailable := h.refuse g 503 (match call with
    | .responses _ _ _ => lit "selected subscription credentials unavailable"
    | .voice _ => lit "voice subscription credentials unavailable")
  match result with
  | .error _ => unavailable
  | .ok credentials =>
    if credentials.bearer = [] ∨ credentials.accountID = [] then unavailable
    else { h.emit (.resolved decision.accountID credentials) with
      stage := .newRequest call decision credentials }

def Call.accept : Call → GoString
  | .responses _ _ _ => lit "text/event-stream"
  | .voice _ => lit "application/sdp"

def inferenceHeaders : List GoString :=
  [lit "Originator", lit "OpenAI-Beta", lit "X-Codex-Turn-Metadata", lit "X-Codex-Session-Id",
    lit "X-Codex-Parent-Thread-Id", lit "X-OpenAI-Subagent"]

def voiceHeaders : List GoString :=
  [lit "Originator", lit "OpenAI-Alpha", lit "OpenAI-Beta", lit "X-Session-Id", lit "Session-Id",
    lit "Thread-Id", lit "X-Codex-Turn-Metadata", lit "X-Codex-Session-Id",
    lit "X-Codex-Parent-Thread-Id", lit "Session_id", lit "Conversation_id"]

def Call.forwarded : Call → List GoString
  | .responses _ _ _ => inferenceHeaders
  | .voice _ => voiceHeaders

def ownHeader (call : Call) (c : Credentials) : Header :=
  ((((Header.set ∅ (lit "Authorization") (lit "Bearer " ++ c.bearer)).set
    (lit "ChatGPT-Account-ID") c.accountID).set (lit "Content-Type") (lit "application/json")).set
    (lit "Accept") call.accept).set (lit "User-Agent") (lit "Codex Subscription Router")

def forwardHeaders (client : Header) (keys : List GoString) (h : Header) : Header :=
  keys.foldl (fun h key => if client.get key ≠ [] then h.set key (client.get key) else h) h

def destination (call : Call) (u : URL) : URL :=
  match call with
  | .responses compact _ _ => if compact then { u with path := u.path ++ lit "/compact" } else u
  | .voice _ => { u with
      path := lit "/backend-api/codex/realtime/calls"
      rawPath := []
      rawQuery := lit "intent=quicksilver&architecture=avas" }

def Call.payload : Call → Payload
  | .responses _ body _ => .bytes body
  | .voice fields => .fields fields

def upstreamRequest (u : URL) (r : Request) (call : Call) (c : Credentials) : Upstream :=
  ⟨destination call u, forwardHeaders r.header call.forwarded (ownHeader call c), call.payload⟩

/-- `http.NewRequestWithContext` may reject the destination. -/
def Handler.newRequest (g : Gateway) (r : Request) (h : Handler) (call : Call) (decision : Decision)
    (c : Credentials) (ok : Bool) : Handler :=
  match g.upstream with
  | some u =>
    if ok then { h with stage := .roundTrip call decision (upstreamRequest u r call c) }
    else h.refuse g 500 (match call with
      | .responses _ _ _ => lit "cannot construct inference request"
      | .voice _ => lit "cannot construct voice setup")
  | none => h

/-! ## After the dispatch -/

def uncertain (call : Call) (kind : GoString) : GoString :=
  match call with
  | .responses _ _ _ => lit "inference " ++ kind ++
      lit "; delivery uncertain; not retried to avoid duplicate spending"
  | .voice _ => lit "voice call delivery uncertain; not retried"

def rejected (call : Call) (status : ℤ) : GoString :=
  match call with
  | .responses _ _ _ => lit "selected subscription returned HTTP " ++ itoa status ++
      lit "; no automatic retry"
  | .voice _ => lit "voice subscription returned HTTP " ++ itoa status ++ lit "; not retried"

def accepts (status : ℤ) : Bool := 200 ≤ status && status < 300

/-- The headers of a relayed inference response. -/
def routerHeader (decision : Decision) (response : Response) : List (GoString × GoString) :=
  [(lit "Content-Type", response.header.get (lit "Content-Type")),
    (lit "X-Router-Account", decision.accountID),
    (lit "X-Router-Decision", itoaNat decision.sequence)]

def Handler.accept (g : Gateway) (h : Handler) : Handler :=
  if g.accepted then h.emit (.accepted { h.record with outcome := .accepted }) else h

def Handler.beginRelay (h : Handler) (call : Call) (decision : Decision) (response : Response) :
    Handler :=
  match call with
  | .responses true _ _ => { h with stage := .readCompact decision response }
  | .responses false _ _ =>
    { h.emit (.respond response.status (routerHeader decision response)) with stage := .scan }
  | .voice _ => { h with stage := .readSDP decision response }

def Handler.roundTrip (g : Gateway) (h : Handler) (call : Call) (decision : Decision)
    (upstream : Upstream) (result : Except Failure Response) : Handler :=
  let h := h.emit (.roundTrip upstream result)
  match result with
  | .error e =>
    let kind := transportFailureKind e
    { h with record := { h.record with outcome := .deliveryUnknown, failureKind := kind } }.refuse
      g 502 (uncertain call kind)
  | .ok response =>
    let h := { h with
      deferred := .closeBody :: h.deferred
      record := { h.record with status := response.status } }
    if accepts response.status then (h.accept g).beginRelay call decision response
    else { h with record := { h.record with outcome := .upstreamRejected } }.refuse
      g 502 (rejected call response.status)

/-- A compacted history is read up to one byte more than 32 MiB. -/
def Handler.readCompact (g : Gateway) (h : Handler) (decision : Decision) (response : Response)
    (result : Except Failure GoString) : Handler :=
  match result with
  | .ok data =>
    if data.length ≤ 32 * 2 ^ 20 ∧ (parse data).isSome then
      { (h.emit (.respond 200 (routerHeader decision response))).emit (.relayed data) with
        stage := .writeCompact }
    else { h with record := { h.record with outcome := .invalidCompactionResponse } }.refuse
      g 502 (lit "invalid compaction response; not retried")
  | .error _ => { h with record := { h.record with outcome := .invalidCompactionResponse } }.refuse
      g 502 (lit "invalid compaction response; not retried")

def Handler.writeCompact (g : Gateway) (h : Handler) (result : Except Failure Unit) : Handler :=
  h.finish g (if result.isOk then .completed else .clientDisconnected) h.record.failureKind

/-- The outcome an event of the stream ends the response with. -/
def terminalOf (line : GoString) : Option Outcome :=
  if (lit "data:").isPrefixOf line then
    match parse (trimSpace (line.drop 5)) with
    | some (.object ms) => match decodeStringField (lit "type") ms [] with
      | some type =>
        if type = lit "response.completed" then some .completed
        else if type ∈ [lit "response.failed", lit "response.incomplete", lit "error"] then
          some .upstreamFailed
        else none
      | none => none
    | _ => none
  else none

def Handler.scanLine (h : Handler) (line : GoString) : Handler :=
  { h.emit (.relayed (line ++ lit "\n")) with stage := .writeLine (terminalOf line) }

def Handler.scanEnd (g : Gateway) (h : Handler) (error : Option Failure) : Handler :=
  h.finish g .streamInterrupted (match error with
    | some e => lit "stream-" ++ transportFailureKind e
    | none => lit "stream-eof-before-terminal")

def Handler.writeLine (g : Gateway) (h : Handler) (terminal : Option Outcome) :
    Except Failure Unit → Handler
  | .error _ => h.finish g .clientDisconnected h.record.failureKind
  | .ok () => match terminal with
    | some outcome => { h.emit (.relayed (lit "\n")) with stage := .writeBlank outcome }
    | none => { h with stage := .flush none }

def Handler.writeBlank (g : Gateway) (h : Handler) (terminal : Outcome) :
    Except Failure Unit → Handler
  | .error e => h.finish g .clientDisconnected (transportFailureKind e)
  | .ok () => { h with stage := .flush (some terminal) }

def Handler.flush (g : Gateway) (h : Handler) (terminal : Option Outcome) :
    Except Failure Unit → Handler
  | .error e => h.finish g .clientDisconnected (transportFailureKind e)
  | .ok () => match terminal with
    | some outcome => h.finish g outcome h.record.failureKind
    | none => { h with stage := .scan }

def splitOn (separator : UInt8) : GoString → List GoString
  | [] => [[]]
  | b :: s =>
    if b = separator then [] :: splitOn separator s
    else match splitOn separator s with
      | part :: parts => (b :: part) :: parts
      | [] => [[b]]

def callIDByte (b : UInt8) : Bool :=
  0x61 ≤ b && b ≤ 0x7A || 0x41 ≤ b && b ≤ 0x5A || 0x30 ≤ b && b ≤ 0x39 || b = 0x5F || b = 0x2D

def validCallID (id : GoString) : Bool :=
  id.length ≤ 200 &&
    ((lit "rtc_").isPrefixOf id && 4 < id.length ||
      id.length = 36 && [8, 13, 18, 23].all fun i => id[i]? = some 0x2D) &&
    id.all callIDByte

def voiceCallID (location : GoString) : GoString :=
  ((splitOn 0x2F (location.takeWhile (· ≠ 0x3F))).reverse.find? validCallID).getD []

def Handler.readSDP (g : Gateway) (h : Handler) (decision : Decision) (response : Response)
    (result : Except Failure GoString) : Handler :=
  let callID := voiceCallID (response.header.get (lit "Location"))
  let invalid := { h with record := { h.record with outcome := .invalidVoiceResponse } }.refuse
    g 502 (lit "invalid voice setup response; not retried")
  match result with
  | .ok sdp =>
    if sdp.length ≤ 2 ^ 20 ∧ (lit "v=0").isPrefixOf sdp ∧ callID ≠ [] then
      let header := [(lit "Content-Type", lit "application/sdp"),
        (lit "Location", lit "/v1/realtime/calls/" ++ callID),
        (lit "X-Router-Account", decision.accountID)]
      { (h.emit (.respond response.status header)).emit (.relayed sdp) with stage := .writeSDP }
    else invalid
  | .error _ => invalid

def Handler.writeSDP (g : Gateway) (h : Handler) (result : Except Failure Unit) : Handler :=
  h.finish g (if result.isOk then .voiceCallCreated else .clientDisconnected) h.record.failureKind

def Handler.catalogRoundTrip (g : Gateway) (h : Handler) : Except Failure Response → Handler
  | .error _ => h.refuse g 502 (lit "catalog unavailable")
  | .ok response =>
    let h := { h with deferred := [.closeBody] }
    if response.status = 200 then { h with stage := .catalogRead }
    else h.refuse g 502 (lit "catalog rejected by upstream")

def Handler.catalogRead (g : Gateway) (h : Handler) (result : Except Failure GoString) : Handler :=
  match result with
  | .ok body =>
    if body.length ≤ 4 * 2 ^ 20 ∧ (parse body).isSome then
      (h.emit (.respond 200 [(lit "Content-Type", lit "application/json")])).return g
    else h.refuse g 502 (lit "invalid catalog response")
  | .error _ => h.refuse g 502 (lit "invalid catalog response")

def step (g : Gateway) (r : Request) (h : Handler) (answer : Answer) : Option Handler :=
  match h.stage, answer with
  | .readBody compact, .body result => some (h.readBody g compact result)
  | .nextPart fields, .part result => some (h.nextPart g r fields result)
  | .readPart fields name, .read result => some (h.readPart g fields name result)
  | .candidates call retried, .candidates result contextDone =>
    some (h.candidates g call retried contextDone result)
  | .reserve call _, .reserve result => some (h.reserve g call result)
  | .credentials call decision, .credentials result => some (h.credentials g call decision result)
  | .newRequest call decision c, .newRequest ok => some (h.newRequest g r call decision c ok)
  | .roundTrip call decision upstream, .roundTrip result =>
    some (h.roundTrip g call decision upstream result)
  | .readCompact decision response, .read result => some (h.readCompact g decision response result)
  | .writeCompact, .write result => some (h.writeCompact g result)
  | .scan, .line line => some (h.scanLine line)
  | .scan, .endOfLines error => some (h.scanEnd g error)
  | .writeLine terminal, .write result => some (h.writeLine g terminal result)
  | .writeBlank terminal, .write result => some (h.writeBlank g terminal result)
  | .flush terminal, .write result => some (h.flush g terminal result)
  | .readSDP decision response, .read result => some (h.readSDP g decision response result)
  | .writeSDP, .write result => some (h.writeSDP g result)
  | .catalogRoundTrip, .roundTrip result => some (h.catalogRoundTrip g result)
  | .catalogRead, .read result => some (h.catalogRead g result)
  | _, _ => none

/-! ## The protocol -/

def Event.reservation : Event → Option Decision
  | .reserved d => some d
  | _ => none

def Event.resolution : Event → Option (GoString × Credentials)
  | .resolved id c => some (id, c)
  | _ => none

def Event.dispatch : Event → Option (Upstream × Except Failure Response)
  | .roundTrip up result => some (up, result)
  | _ => none

def Event.acceptance : Event → Option Record
  | .accepted record => some record
  | _ => none

def Event.observation : Event → Option Record
  | .observed record => some record
  | _ => none

def Event.releasing : Event → Option Decision
  | .released d => some d
  | _ => none

abbrev reservations (log : List Event) := log.filterMap Event.reservation
abbrev resolutions (log : List Event) := log.filterMap Event.resolution
abbrev dispatches (log : List Event) := log.filterMap Event.dispatch
abbrev acceptances (log : List Event) := log.filterMap Event.acceptance
abbrev observations (log : List Event) := log.filterMap Event.observation
abbrev releases (log : List Event) := log.filterMap Event.releasing

/-- Upstream answered with a status of 2xx. -/
def Accepting (log : List Event) : Prop :=
  ∃ d ∈ dispatches log, ∃ response, d.2 = .ok response ∧ accepts response.status = true

/-- The credentials are `c`, and every other header is the router's own or one of
the client's that is passed on. -/
structure HeadersOf (r : Request) (call : Call) (c : Credentials) (h : Header) : Prop where
  authorization : h.get (lit "Authorization") = lit "Bearer " ++ c.bearer
  accountID : h.get (lit "ChatGPT-Account-ID") = c.accountID
  allowed : ∀ name value : GoString, Std.ExtTreeMap.get? h name = some value →
    Std.ExtTreeMap.get? (ownHeader call c) name = some value ∨
      ∃ key ∈ call.forwarded, name = canonicalHeaderKey key ∧ value = r.header.get key

structure Protocol (g : Gateway) (r : Request) (h : Handler) : Prop where
  dispatchOnce : (dispatches h.log).length ≤ 1
  dispatch : ∀ past up result rest, h.log = past ++ .roundTrip up result :: rest →
    ∃ d ∈ reservations past, ∃ c, (d.accountID, c) ∈ resolutions past ∧
      ∃ call : Call, up.body = call.payload ∧ HeadersOf r call c up.header
  releaseOnce : (releases h.log).length ≤ 1
  releaseReserved : ∀ d ∈ releases h.log, d ∈ reservations h.log
  observeOnce : (observations h.log).length ≤ 1
  acceptOnce : (acceptances h.log).length ≤ 1
  acceptedIff : acceptances h.log ≠ [] ↔ g.accepted = true ∧ Accepting h.log
  acceptedFirst : ∀ past bytes rest, h.log = past ++ .relayed bytes :: rest →
    Accepting past ∧ (g.accepted = true → acceptances past ≠ [])
  outcome : ∀ record ∈ observations h.log, record.outcome = .notSent ↔ dispatches h.log = []
  exit : h.stage = .returned → releases h.log = reservations h.log ∧
    (g.observe = true → reservations h.log ≠ [] → observations h.log ≠ [])

/-- What must have happened before each entry of the log. -/
def rule (g : Gateway) (r : Request) (past : List Event) : Event → Prop
  | .reserved _ => reservations past = []
  | .roundTrip up _ => dispatches past = [] ∧ observations past = [] ∧
      ∃ d ∈ reservations past, ∃ c, (d.accountID, c) ∈ resolutions past ∧
        ∃ call : Call, up.body = call.payload ∧ HeadersOf r call c up.header
  | .accepted _ => acceptances past = [] ∧ g.accepted = true ∧ Accepting past
  | .relayed _ => Accepting past ∧ (g.accepted = true → acceptances past ≠ [])
  | .observed record => observations past = [] ∧ (record.outcome = .notSent ↔ dispatches past = [])
  | .released d => d ∈ reservations past ∧ releases past = []
  | _ => True

theorem outcome_of_justified {g : Gateway} {r : Request} {log : List Event}
    (h : Justified (rule g r) log) {record : Record} (hr : record ∈ observations log) :
    record.outcome = .notSent ↔ dispatches log = [] := by
  obtain ⟨e, he, hrecord⟩ := List.mem_filterMap.mp hr
  obtain ⟨past, rest, rfl⟩ := List.append_of_mem he
  cases e with
  | observed record' =>
    obtain rfl := Option.some.inj hrecord
    refine h.entry.2.trans ?_
    have hrest : dispatches rest = [] := by
      refine List.filterMap_eq_nil_iff.mpr fun e' he' => ?_
      obtain ⟨mid, last, rfl⟩ := List.append_of_mem he'
      cases e' with
      | roundTrip up result =>
        -- Nothing is sent after the observation.
        have hlog : past ++ Event.observed record' :: (mid ++ .roundTrip up result :: last) =
            (past ++ .observed record' :: mid) ++ .roundTrip up result :: last := by simp
        rw [hlog] at h
        obtain ⟨_, hnone, _⟩ := h.entry
        simp [observations, Event.observation] at hnone
      | _ => rfl
    have hall : dispatches (past ++ .observed record' :: rest) =
        dispatches past ++ dispatches rest := List.filterMap_append
    rw [hall, hrest, List.append_nil]
  | _ => cases hrecord

/-! ## Headers -/

theorem forwardHeaders_get? (client : Header) {keys : List GoString} {h : Header}
    {name value : GoString}
    (hv : Std.ExtTreeMap.get? (forwardHeaders client keys h) name = some value) :
    Std.ExtTreeMap.get? h name = some value ∨
      ∃ key ∈ keys, name = canonicalHeaderKey key ∧ value = client.get key := by
  induction keys generalizing h with
  | nil => exact .inl hv
  | cons key keys ih =>
    rcases ih hv with hv | ⟨key', hk, h'⟩
    · dsimp only at hv
      split at hv
      · simp only [Header.set, Std.ExtTreeMap.get?_eq_getElem?, Std.ExtTreeMap.getElem?_insert] at hv
        split at hv
        · rename_i hname
          exact .inr ⟨key, List.mem_cons_self, (Std.LawfulEqCmp.eq_of_compare hname).symm,
            (Option.some.inj hv).symm⟩
        · exact .inl hv
      · exact .inl hv
    · exact .inr ⟨key', List.mem_cons_of_mem _ hk, h'⟩

theorem forwardHeaders_other (client : Header) {keys : List GoString} (h : Header) {name : GoString}
    (hn : ∀ key ∈ keys, canonicalHeaderKey key ≠ name) :
    Std.ExtTreeMap.get? (forwardHeaders client keys h) name = Std.ExtTreeMap.get? h name := by
  induction keys generalizing h with
  | nil => rfl
  | cons key keys ih =>
    refine (ih _ fun k hk => hn k (List.mem_cons_of_mem _ hk)).trans ?_
    dsimp only
    split
    · simp only [Header.set, Std.ExtTreeMap.get?_eq_getElem?, Std.ExtTreeMap.getElem?_insert]
      rw [if_neg fun he => hn key List.mem_cons_self (Std.LawfulEqCmp.eq_of_compare he)]
    · rfl

theorem get_set (h : Header) (name value : GoString) : (h.set name value).get name = value := by
  simp [Header.get, Header.set]

theorem get_set_other (h : Header) {name other : GoString} (value : GoString)
    (hn : canonicalHeaderKey other ≠ canonicalHeaderKey name) :
    (h.set other value).get name = h.get name := by
  simp only [Header.get, Header.set, Std.ExtTreeMap.get?_eq_getElem?, Std.ExtTreeMap.getElem?_insert]
  rw [if_neg fun he => hn (Std.LawfulEqCmp.eq_of_compare he)]

theorem forwarded_not_own (call : Call) : ∀ key ∈ call.forwarded,
    canonicalHeaderKey key ≠ canonicalHeaderKey (lit "Authorization") ∧
      canonicalHeaderKey key ≠ canonicalHeaderKey (lit "ChatGPT-Account-ID") := by
  cases call with
  | responses =>
    change ∀ key ∈ inferenceHeaders, _
    decide
  | voice =>
    change ∀ key ∈ voiceHeaders, _
    decide

theorem headersOf_upstreamRequest (u : URL) (r : Request) (call : Call) (c : Credentials) :
    HeadersOf r call c (upstreamRequest u r call c).header := by
  refine ⟨?_, ?_, fun name value hv => forwardHeaders_get? r.header hv⟩
  · change (Std.ExtTreeMap.get? (forwardHeaders _ _ _) _).getD [] = _
    rw [forwardHeaders_other r.header (ownHeader call c) fun key hk => (forwarded_not_own call key hk).1]
    change (ownHeader call c).get _ = _
    unfold ownHeader
    rw [get_set_other _ _ (by decide), get_set_other _ _ (by decide), get_set_other _ _ (by decide),
      get_set_other _ _ (by decide), get_set]
  · change (Std.ExtTreeMap.get? (forwardHeaders _ _ _) _).getD [] = _
    rw [forwardHeaders_other r.header (ownHeader call c) fun key hk => (forwarded_not_own call key hk).2]
    change (ownHeader call c).get _ = _
    unfold ownHeader
    rw [get_set_other _ _ (by decide), get_set_other _ _ (by decide), get_set_other _ _ (by decide),
      get_set]

/-! ## What holds while a handler runs -/

/-- What the deferred calls still have to do, given what the log shows. -/
inductive Owed (log : List Event) : List Deferred → Prop where
  | nothing (hr : reservations log = []) : Owed log []
  | observation (hr : reservations log = []) (ho : observations log = []) : Owed log [.observe]
  | both {d : Decision} {l : List Deferred} (hr : reservations log = [d])
      (ho : observations log = []) (hl : l = [.observe, .release d] ∨ l = [.release d, .observe]) :
      Owed log l
  | closing {l : List Deferred} (h : Owed log l) : Owed log (.closeBody :: l)

theorem Owed.mono {log log' : List Event} {l : List Deferred} (h : Owed log l)
    (hr : reservations log' = reservations log) (ho : observations log' = observations log) :
    Owed log' l := by
  induction h with
  | nothing h => exact .nothing (hr.trans h)
  | observation h h' => exact .observation (hr.trans h) (ho.trans h')
  | both h h' hl => exact .both (hr.trans h) (ho.trans h') hl
  | closing _ ih => exact .closing ih

structure Ready (g : Gateway) (r : Request) (h : Handler) : Prop where
  justified : Justified (rule g r) h.log
  accepted : g.accepted = true → Accepting h.log → acceptances h.log ≠ []
  unreleased : releases h.log = []
  owed : Owed h.log h.deferred

structure Done (g : Gateway) (r : Request) (log : List Event) : Prop where
  justified : Justified (rule g r) log
  accepted : g.accepted = true → Accepting log → acceptances log ≠ []
  released : releases log = reservations log
  observed : g.observe = true → reservations log ≠ [] → observations log ≠ []

theorem accepted_concat {g : Gateway} {log : List Event} {e : Event} (he : e.dispatch = none)
    (h : g.accepted = true → Accepting log → acceptances log ≠ []) :
    g.accepted = true → Accepting (log ++ [e]) → acceptances (log ++ [e]) ≠ [] := by
  intro hg ha
  rw [Accepting, dispatches, filterMap_concat_none he] at ha
  rw [acceptances, List.filterMap_append]
  exact List.append_ne_nil_of_left_ne_nil (h hg ha) _

theorem releases_concat {log : List Event} {d : Decision} (hr : reservations log = [d])
    (hu : releases log = []) :
    releases (log ++ [Event.released d]) = reservations (log ++ [Event.released d]) := by
  have hd : Event.releasing (.released d) = some d := rfl
  rw [releases, filterMap_concat_some hd, show log.filterMap Event.releasing = [] from hu]
  exact hr.symm.trans (filterMap_concat_none rfl _).symm

theorem observations_concat (log : List Event) (record : Record) :
    observations (log ++ [Event.observed record]) ≠ [] := by
  have hrecord : Event.observation (.observed record) = some record := rfl
  rw [observations, filterMap_concat_some hrecord]
  exact List.append_ne_nil_of_right_ne_nil _ (List.cons_ne_nil _ _)

theorem done_of_owed {g : Gateway} {r : Request} {record : Record} {log : List Event}
    {l : List Deferred} (hj : Justified (rule g r) log)
    (ha : g.accepted = true → Accepting log → acceptances log ≠ [])
    (ho : record.outcome = .notSent ↔ dispatches log = []) (hu : releases log = [])
    (h : Owed log l) : Done g r (log ++ l.flatMap (·.run g record)) := by
  induction l generalizing log with
  | nil =>
    rw [List.flatMap_nil, List.append_nil]
    cases h with
    | nothing hr => exact ⟨hj, ha, hu.trans hr.symm, fun _ hn => absurd hr hn⟩
    | both _ _ hl => simp at hl
  | cons deferred l ih =>
    cases h with
    | observation hr hobs =>
      have hobserved : Justified (rule g r) (log ++ [Event.observed record]) := hj.concat ⟨hobs, ho⟩
      have hr' : reservations (log ++ [Event.observed record]) = [] :=
        filterMap_concat_eq hr rfl
      simp only [List.flatMap_cons, List.flatMap_nil, List.append_nil, Deferred.run]
      split
      · exact ⟨hobserved, accepted_concat rfl ha,
          (filterMap_concat_eq hu rfl).trans hr'.symm, fun _ hn => absurd hr' hn⟩
      · rw [List.append_nil]
        exact ⟨hj, ha, hu.trans hr.symm, fun _ hn => absurd hr hn⟩
    | @both d _ hr hobs hl =>
      have hmem : d ∈ reservations log := by
        rw [hr]
        exact List.mem_singleton_self d
      have hobserved : Justified (rule g r) (log ++ [Event.observed record]) := hj.concat ⟨hobs, ho⟩
      have hreleased : Justified (rule g r) (log ++ [Event.released d]) := hj.concat ⟨hmem, hu⟩
      have haccepted := accepted_concat (e := .released d) rfl ha
      rcases hl with hl | hl <;> obtain ⟨rfl, rfl⟩ := List.cons.inj hl <;>
        simp only [List.flatMap_cons, List.flatMap_nil, List.append_nil, Deferred.run] <;> split
      · -- Observed, then released.
        rw [← List.append_assoc]
        have hr' : reservations (log ++ [Event.observed record]) = [d] :=
          filterMap_concat_eq hr rfl
        have hu' : releases (log ++ [Event.observed record]) = [] :=
          filterMap_concat_eq hu rfl
        refine ⟨hobserved.concat ⟨?_, hu'⟩, accepted_concat rfl (accepted_concat rfl ha),
          releases_concat hr' hu', fun _ _ hn => ?_⟩
        · rw [hr']
          exact List.mem_singleton_self d
        · exact observations_concat log record ((filterMap_concat_none rfl _).symm.trans hn)
      · rename_i hg
        rw [List.nil_append]
        exact ⟨hreleased, haccepted, releases_concat hr hu, fun h => absurd h hg⟩
      · -- Released, then observed.
        rw [← List.append_assoc]
        have hobs' : observations (log ++ [Event.released d]) = [] :=
          filterMap_concat_eq hobs rfl
        have ho' : record.outcome = .notSent ↔ dispatches (log ++ [Event.released d]) = [] := by
          rw [dispatches, filterMap_concat_none rfl]
          exact ho
        refine ⟨hreleased.concat ⟨hobs', ho'⟩, accepted_concat rfl haccepted, ?_,
          fun _ _ => observations_concat _ record⟩
        exact (filterMap_concat_none rfl _).trans
          ((releases_concat hr hu).trans (filterMap_concat_none rfl _).symm)
      · rename_i hg
        rw [List.append_nil]
        exact ⟨hreleased, haccepted, releases_concat hr hu, fun h => absurd h hg⟩
    | closing h =>
      have hbody : rule g r log .closedBody := trivial
      have ho' : record.outcome = .notSent ↔ dispatches (log ++ [Event.closedBody]) = [] := by
        rw [dispatches, filterMap_concat_none rfl]
        exact ho
      have := ih (hj.concat hbody) (accepted_concat rfl ha) ho'
        (filterMap_concat_eq hu rfl)
        (h.mono (filterMap_concat_none rfl _) (filterMap_concat_none rfl _))
      rwa [List.append_assoc] at this

/-- Nothing has been sent, and the record says so. -/
structure Unsent (h : Handler) : Prop where
  dispatches : dispatches h.log = []
  acceptances : acceptances h.log = []
  outcome : h.record.outcome = .notSent

def Call.deferred : Call → List Deferred
  | .responses _ _ _ => []
  | .voice _ => [.observe]

/-- Before a reservation, with these calls deferred. -/
structure Unreserved (h : Handler) (deferred : List Deferred) : Prop extends Unsent h where
  reservations : reservations h.log = []
  observations : observations h.log = []
  deferred : h.deferred = deferred

def StageInv (r : Request) (h : Handler) : Prop :=
  match h.stage with
  | .readBody _ | .nextPart _ | .readPart _ _ | .catalogRoundTrip => Unreserved h []
  | .candidates call _ | .reserve call _ => Unreserved h call.deferred
  | .credentials _ d => Unsent h ∧ d ∈ reservations h.log
  | .newRequest _ d c => Unsent h ∧ d ∈ reservations h.log ∧ (d.accountID, c) ∈ resolutions h.log
  | .roundTrip call d up => Unsent h ∧ d ∈ reservations h.log ∧ ∃ c,
      (d.accountID, c) ∈ resolutions h.log ∧ up.body = call.payload ∧ HeadersOf r call c up.header
  | .readCompact _ _ | .writeCompact | .scan | .readSDP _ _ | .writeSDP => Accepting h.log
  | .writeLine terminal | .flush terminal => Accepting h.log ∧ terminal ≠ some .notSent
  | .writeBlank terminal => Accepting h.log ∧ terminal ≠ .notSent
  | .catalogRead => Unsent h
  | .returned => False

inductive Inv (g : Gateway) (r : Request) (h : Handler) : Prop where
  | live (ready : Ready g r h) (stage : StageInv r h)
  | done (hstage : h.stage = .returned) (done : Done g r h.log)

section Steps
variable {g : Gateway} {r : Request} {h : Handler}

theorem Ready.return (hr : Ready g r h) (ho : h.record.outcome = .notSent ↔ dispatches h.log = []) :
    Inv g r (h.return g) :=
  .done rfl (done_of_owed hr.justified hr.accepted ho hr.unreleased hr.owed)

/-- An entry of the log that says nothing about reservations, dispatches and records. -/
theorem Ready.emit (hr : Ready g r h) {e : Event} (hrule : rule g r h.log e)
    (hreservation : e.reservation = none) (hdispatch : e.dispatch = none)
    (hobservation : e.observation = none) (hreleasing : e.releasing = none) :
    Ready g r (h.emit e) where
  justified := hr.justified.concat hrule
  accepted := accepted_concat hdispatch hr.accepted
  unreleased := filterMap_concat_eq hr.unreleased hreleasing
  owed := hr.owed.mono (filterMap_concat_none hreservation _) (filterMap_concat_none hobservation _)

theorem Ready.refuse (hr : Ready g r h) (ho : h.record.outcome = .notSent ↔ dispatches h.log = [])
    (status : ℕ) (message : GoString) : Inv g r (h.refuse g status message) := by
  have herror : rule g r h.log (.gatewayError status message) := trivial
  refine (hr.emit herror rfl rfl rfl rfl).return (ho.trans ?_)
  rw [Handler.emit, dispatches, dispatches, filterMap_concat_none rfl]

theorem Unsent.outcome_iff (hu : Unsent h) :
    h.record.outcome = .notSent ↔ SpendGateway.dispatches h.log = [] :=
  iff_of_true hu.outcome hu.dispatches

theorem Accepting.ne_nil {log : List Event} (h : Accepting log) : dispatches log ≠ [] := by
  obtain ⟨d, hd, _⟩ := h
  exact List.ne_nil_of_mem hd

theorem Owed.unobserved {log : List Event} {l : List Deferred} (h : Owed log l) {d : Decision}
    (hd : d ∈ reservations log) : observations log = [] := by
  induction h with
  | nothing hr | observation hr _ =>
    rw [hr] at hd
    cases hd
  | both _ ho _ => exact ho
  | closing _ ih => exact ih

theorem Ready.finish (hr : Ready g r h) (ha : Accepting h.log) (failureKind : GoString)
    {outcome : Outcome} (ho : outcome ≠ .notSent) : Inv g r (h.finish g outcome failureKind) := by
  have hr' : Ready g r { h with record := { h.record with outcome, failureKind } } := { hr with }
  exact hr'.return (iff_of_false ho ha.ne_nil)

theorem Ready.refuseSent (hr : Ready g r h) (hsent : dispatches h.log ≠ []) {outcome : Outcome}
    (ho : outcome ≠ .notSent) (failureKind : GoString) (status : ℕ) (message : GoString) :
    Inv g r ({ h with record := { h.record with outcome, failureKind } }.refuse g status message) := by
  have hr' : Ready g r { h with record := { h.record with outcome, failureKind } } := { hr with }
  exact hr'.refuse (iff_of_false ho hsent) status message

/-! ## Before the reservation -/

theorem Inv.readBody (hr : Ready g r h) (hu : Unreserved h []) (compact : Bool)
    (result : Except ReadError GoString) : Inv g r (h.readBody g compact result) := by
  have ho := hu.outcome_iff
  unfold Handler.readBody
  split
  · exact hr.refuse ho _ _
  · exact hr.refuse ho _ _
  · split
    · split
      · exact hr.refuse ho _ _
      · split
        · exact hr.refuse ho _ _
        · exact .live { hr with } { hu with }
    · exact hr.refuse ho _ _

theorem Inv.beginVoice (hr : Ready g r h) (hu : Unreserved h []) (fields : GoMap RawMessage) :
    Inv g r (h.beginVoice g r fields) := by
  unfold Handler.beginVoice
  split
  · exact hr.refuse hu.outcome_iff _ _
  · exact .live { hr with owed := .observation hu.reservations hu.observations }
      { hu with outcome := rfl, deferred := rfl }

theorem Inv.nextPart (hr : Ready g r h) (hu : Unreserved h []) (fields : GoMap RawMessage)
    (result : Except Failure (Option Part)) : Inv g r (h.nextPart g r fields result) := by
  have ho := hu.outcome_iff
  unfold Handler.nextPart
  split
  · exact Inv.beginVoice hr hu fields
  · exact hr.refuse ho _ _
  · split
    · exact hr.refuse ho _ _
    · exact .live { hr with } { hu with }

theorem Inv.readPart (hr : Ready g r h) (hu : Unreserved h []) (fields : GoMap RawMessage)
    (name : GoString) (result : Except Failure GoString) :
    Inv g r (h.readPart g fields name result) := by
  have ho := hu.outcome_iff
  unfold Handler.readPart
  split
  · exact hr.refuse ho _ _
  · split
    · split
      · exact hr.refuse ho _ _
      · exact .live { hr with } { hu with }
    · split
      · exact .live { hr with } { hu with }
      · exact hr.refuse ho _ _

theorem Inv.capacityUnavailable (hr : Ready g r h) {call : Call} (hu : Unreserved h call.deferred)
    (e : Failure) : Inv g r (h.capacityUnavailable g call e) := by
  have ho := hu.outcome_iff
  cases call with
  | voice fields =>
    have hr' : Ready g r { h with record := { h.record with
      failureKind := lit "capacity-" ++ transportFailureKind e } } := { hr with }
    exact hr'.refuse ho _ _
  | responses compact body envelope =>
    unfold Handler.capacityUnavailable
    dsimp only
    split
    · rename_i hg
      let record : Record :=
        { status := 503, failureKind := lit "capacity-" ++ transportFailureKind e }
      have hobserved : rule g r h.log (.observed record) :=
        ⟨hu.observations, iff_of_true rfl hu.dispatches⟩
      have hnone : SpendGateway.dispatches (h.log ++ [Event.observed record]) = [] :=
        filterMap_concat_eq hu.dispatches rfl
      have hr' : Ready g r (h.emit (.observed record)) := {
        justified := hr.justified.concat hobserved
        accepted := fun _ ha => absurd hnone ha.ne_nil
        unreleased := filterMap_concat_eq hr.unreleased rfl
        owed := by
          rw [Handler.emit, show h.deferred = [] from hu.deferred]
          exact .nothing (filterMap_concat_eq hu.reservations rfl) }
      exact hr'.refuse (iff_of_true hu.outcome hnone) _ _
    · exact hr.refuse ho _ _

theorem Inv.candidates (hr : Ready g r h) {call : Call} (hu : Unreserved h call.deferred)
    (retried contextDone : Bool) (result : Except Failure (List Candidate)) :
    Inv g r (h.candidates g call retried contextDone result) := by
  unfold Handler.candidates
  split
  · exact .live { hr with } { hu with }
  · split
    · exact .live { hr with } { hu with }
    · exact Inv.capacityUnavailable hr hu _

/-! ## From the reservation to the dispatch -/

theorem Inv.reserve (hr : Ready g r h) {call : Call} (hu : Unreserved h call.deferred)
    (result : Except ReserveError Decision) : Inv g r (h.reserve g call result) := by
  cases result with
  | error e => exact hr.refuse hu.outcome_iff _ _
  | ok d =>
    have hj : Justified (rule g r) (h.log ++ [Event.reserved d]) :=
      hr.justified.concat hu.reservations
    have hnone : SpendGateway.dispatches (h.log ++ [Event.reserved d]) = [] :=
      filterMap_concat_eq hu.dispatches rfl
    have hacceptances : SpendGateway.acceptances (h.log ++ [Event.reserved d]) = [] :=
      filterMap_concat_eq hu.acceptances rfl
    have hreserved : SpendGateway.reservations (h.log ++ [Event.reserved d]) = [d] :=
      filterMap_concat_single hu.reservations rfl
    have hobserved : SpendGateway.observations (h.log ++ [Event.reserved d]) = [] :=
      filterMap_concat_eq hu.observations rfl
    have haccepted : g.accepted = true → Accepting (h.log ++ [Event.reserved d]) →
        SpendGateway.acceptances (h.log ++ [Event.reserved d]) ≠ [] :=
      fun _ ha => absurd hnone ha.ne_nil
    have hreleases : releases (h.log ++ [Event.reserved d]) = [] :=
      filterMap_concat_eq hr.unreleased rfl
    have hmem : d ∈ SpendGateway.reservations (h.log ++ [Event.reserved d]) := by
      rw [hreserved]
      exact List.mem_singleton_self d
    cases call with
    | responses compact body envelope =>
      exact .live ⟨hj, haccepted, hreleases, .both hreserved hobserved (.inl rfl)⟩
        ⟨⟨hnone, hacceptances, rfl⟩, hmem⟩
    | voice fields =>
      refine .live ⟨hj, haccepted, hreleases, ?_⟩ ⟨⟨hnone, hacceptances, hu.outcome⟩, hmem⟩
      refine .both hreserved hobserved (.inr ?_)
      change Deferred.release d :: h.deferred = _
      rw [hu.deferred]
      rfl

theorem Inv.credentials (hr : Ready g r h) (hu : Unsent h) {d : Decision}
    (hd : d ∈ reservations h.log) (call : Call) (result : Except Failure Credentials) :
    Inv g r (h.credentials g call d result) := by
  have ho := hu.outcome_iff
  unfold Handler.credentials
  dsimp only
  split
  · exact hr.refuse ho _ _
  · rename_i c
    split
    · exact hr.refuse ho _ _
    · have hresolved : rule g r h.log (.resolved d.accountID c) := trivial
      have hr' := hr.emit hresolved rfl rfl rfl rfl
      refine .live { hr' with } ⟨⟨?_, ?_, hu.outcome⟩, ?_, ?_⟩
      · exact filterMap_concat_eq hu.dispatches rfl
      · exact filterMap_concat_eq hu.acceptances rfl
      · refine List.mem_filterMap.mpr ?_
        obtain ⟨e, he, hed⟩ := List.mem_filterMap.mp hd
        exact ⟨e, List.mem_append_left _ he, hed⟩
      · exact List.mem_filterMap.mpr ⟨.resolved d.accountID c,
          List.mem_append_right _ (List.mem_singleton_self _), rfl⟩

theorem Inv.newRequest (hr : Ready g r h) (hu : Unsent h) {call : Call} {d : Decision}
    {c : Credentials} (hstage : h.stage = .newRequest call d c) (hd : d ∈ reservations h.log)
    (hc : (d.accountID, c) ∈ resolutions h.log) (ok : Bool) :
    Inv g r (h.newRequest g r call d c ok) := by
  unfold Handler.newRequest
  split
  · rename_i u _
    split
    · exact .live { hr with } ⟨{ hu with }, hd, c, hc, rfl, headersOf_upstreamRequest u r call c⟩
    · exact hr.refuse hu.outcome_iff _ _
  · exact .live hr (by
      rw [StageInv, hstage]
      exact ⟨hu, hd, hc⟩)

/-! ## After the dispatch -/

theorem Ready.relay (hr : Ready g r h) (ha : Accepting h.log) (bytes : GoString) :
    Ready g r (h.emit (.relayed bytes)) :=
  hr.emit ⟨ha, fun hg => hr.accepted hg ha⟩ rfl rfl rfl rfl

theorem Ready.respond (hr : Ready g r h) (status : ℤ) (header : List (GoString × GoString)) :
    Ready g r (h.emit (.respond status header)) :=
  have hrespond : rule g r h.log (.respond status header) := trivial
  hr.emit hrespond rfl rfl rfl rfl

theorem Accepting.append {log : List Event} (h : Accepting log) (rest : List Event) :
    Accepting (log ++ rest) := by
  obtain ⟨d, hd, response, hok, h2xx⟩ := h
  refine ⟨d, ?_, response, hok, h2xx⟩
  rw [dispatches, List.filterMap_append]
  exact List.mem_append_left _ hd

theorem Inv.beginRelay (hr : Ready g r h) (ha : Accepting h.log) (call : Call) (d : Decision)
    (response : Response) : Inv g r (h.beginRelay call d response) := by
  unfold Handler.beginRelay
  split
  · exact .live { hr with } ha
  · exact .live { hr.respond _ _ with } (ha.append _)
  · exact .live { hr with } ha

/-- `Accepted` comes first after a status of 2xx. -/
theorem ready_accept (hj : Justified (rule g r) h.log) (hnone : acceptances h.log = [])
    (ha : Accepting h.log) (hreleases : releases h.log = []) (howed : Owed h.log h.deferred) :
    Ready g r (h.accept g) ∧ Accepting (h.accept g).log := by
  unfold Handler.accept
  split
  · rename_i hg
    have haccepted : rule g r h.log (.accepted { h.record with outcome := .accepted }) :=
      ⟨hnone, hg, ha⟩
    refine ⟨⟨hj.concat haccepted, fun _ _ => ?_, ?_, ?_⟩, ha.append _⟩
    · rw [Handler.emit, acceptances, List.filterMap_append]
      exact List.append_ne_nil_of_right_ne_nil _ (List.cons_ne_nil _ _)
    · refine Eq.trans ?_ hreleases
      exact filterMap_concat_none rfl h.log
    · refine howed.mono ?_ ?_
      · exact filterMap_concat_none rfl h.log
      · exact filterMap_concat_none rfl h.log
  · rename_i hg
    exact ⟨⟨hj, fun h' => absurd h' hg, hreleases, howed⟩, ha⟩

theorem Inv.roundTrip (hr : Ready g r h) (hu : Unsent h) {call : Call} {d : Decision}
    {up : Upstream} {c : Credentials} (hd : d ∈ reservations h.log)
    (hc : (d.accountID, c) ∈ resolutions h.log) (hbody : up.body = call.payload)
    (hheader : HeadersOf r call c up.header) (result : Except Failure Response) :
    Inv g r (h.roundTrip g call d up result) := by
  have hj : Justified (rule g r) (h.log ++ [Event.roundTrip up result]) :=
    hr.justified.concat ⟨hu.dispatches, hr.owed.unobserved hd, d, hd, c, hc, call, hbody, hheader⟩
  have hsent : dispatches (h.log ++ [Event.roundTrip up result]) = [(up, result)] :=
    filterMap_concat_single hu.dispatches rfl
  have hnone : acceptances (h.log ++ [Event.roundTrip up result]) = [] :=
    filterMap_concat_eq hu.acceptances rfl
  have hreleases : releases (h.log ++ [Event.roundTrip up result]) = [] :=
    filterMap_concat_eq hr.unreleased rfl
  have howed : Owed (h.log ++ [Event.roundTrip up result]) h.deferred :=
    hr.owed.mono (filterMap_concat_none rfl _) (filterMap_concat_none rfl _)
  have hready : ∀ h' : Handler, h'.log = h.log ++ [Event.roundTrip up result] →
      Owed h'.log h'.deferred → ¬ Accepting h'.log → Ready g r h' := by
    intro h' hlog howed' ha
    exact ⟨hlog ▸ hj, fun _ ha' => absurd ha' ha, hlog ▸ hreleases, howed'⟩
  have hne : dispatches (h.log ++ [Event.roundTrip up result]) ≠ [] := by
    rw [hsent]
    exact List.cons_ne_nil _ _
  cases result with
  | error e =>
    refine (hready _ rfl howed ?_).refuse (iff_of_false (by simp) hne) _ _
    rintro ⟨x, hx, response, hok, _⟩
    rw [show x = (up, .error e) from List.mem_singleton.mp (hsent ▸ hx)] at hok
    cases hok
  | ok response =>
    unfold Handler.roundTrip
    dsimp only
    split
    · rename_i h2xx
      have ha : Accepting (h.log ++ [Event.roundTrip up (.ok response)]) := by
        refine ⟨(up, .ok response), ?_, response, rfl, h2xx⟩
        rw [hsent]
        exact List.mem_singleton_self _
      obtain ⟨hr', ha'⟩ := ready_accept (g := g) (h := { h.emit (.roundTrip up (.ok response)) with
        deferred := .closeBody :: h.deferred
        record := { h.record with status := response.status } }) hj hnone ha hreleases
        (.closing howed)
      exact Inv.beginRelay hr' ha' call d response
    · rename_i h2xx
      refine (hready _ rfl (.closing howed) ?_).refuse (iff_of_false (by simp) hne) _ _
      rintro ⟨x, hx, response', hok, h2xx'⟩
      rw [show x = (up, .ok response) from List.mem_singleton.mp (hsent ▸ hx)] at hok
      obtain rfl := Except.ok.inj hok
      exact h2xx h2xx'

theorem Inv.readCompact (hr : Ready g r h) (ha : Accepting h.log) (d : Decision)
    (response : Response) (result : Except Failure GoString) :
    Inv g r (h.readCompact g d response result) := by
  unfold Handler.readCompact
  split
  · split
    · have hr' := hr.respond 200 (routerHeader d response)
      exact .live { hr'.relay (ha.append _) _ with } ((ha.append _).append _)
    · exact hr.refuseSent ha.ne_nil (by simp) _ _ _
  · exact hr.refuseSent ha.ne_nil (by simp) _ _ _

theorem Inv.readSDP (hr : Ready g r h) (ha : Accepting h.log) (d : Decision)
    (response : Response) (result : Except Failure GoString) :
    Inv g r (h.readSDP g d response result) := by
  unfold Handler.readSDP
  dsimp only
  split
  · split
    · have hr' := hr.respond response.status [(lit "Content-Type", lit "application/sdp"),
        (lit "Location", lit "/v1/realtime/calls/" ++
          voiceCallID (response.header.get (lit "Location"))),
        (lit "X-Router-Account", d.accountID)]
      exact .live { hr'.relay (ha.append _) _ with } ((ha.append _).append _)
    · exact hr.refuseSent ha.ne_nil (by simp) _ _ _
  · exact hr.refuseSent ha.ne_nil (by simp) _ _ _

theorem terminalOf_ne_notSent (line : GoString) : terminalOf line ≠ some .notSent := by
  unfold terminalOf
  split
  · split
    · split
      · split
        · simp
        · split <;> simp
      · simp
    · simp
  · simp

theorem Inv.writeLine (hr : Ready g r h) (ha : Accepting h.log) {terminal : Option Outcome}
    (ht : terminal ≠ some .notSent) (result : Except Failure Unit) :
    Inv g r (h.writeLine g terminal result) := by
  unfold Handler.writeLine
  split
  · exact hr.finish ha _ (by simp)
  · split
    · rename_i outcome
      exact .live { hr.relay ha _ with } ⟨ha.append _, fun ho => ht (by rw [ho])⟩
    · exact .live { hr with } ⟨ha, by simp⟩

theorem Inv.writeBlank (hr : Ready g r h) (ha : Accepting h.log) {terminal : Outcome}
    (ht : terminal ≠ .notSent) (result : Except Failure Unit) :
    Inv g r (h.writeBlank g terminal result) := by
  unfold Handler.writeBlank
  split
  · exact hr.finish ha _ (by simp)
  · exact .live { hr with } ⟨ha, fun ho => ht (Option.some.inj ho)⟩

theorem Inv.flush (hr : Ready g r h) (ha : Accepting h.log) {terminal : Option Outcome}
    (ht : terminal ≠ some .notSent) (result : Except Failure Unit) :
    Inv g r (h.flush g terminal result) := by
  unfold Handler.flush
  split
  · exact hr.finish ha _ (by simp)
  · split
    · exact hr.finish ha _ fun ho => ht (by rw [ho])
    · exact .live { hr with } ha

theorem Inv.catalogRoundTrip (hr : Ready g r h) (hu : Unreserved h [])
    (result : Except Failure Response) : Inv g r (h.catalogRoundTrip g result) := by
  unfold Handler.catalogRoundTrip
  split
  · exact hr.refuse hu.outcome_iff _ _
  · have hr' : Ready g r { h with deferred := [.closeBody] } :=
      { hr with owed := .closing (.nothing hu.reservations) }
    dsimp only
    split
    · exact .live { hr' with } { hu with }
    · exact hr'.refuse hu.outcome_iff _ _

theorem Inv.catalogRead (hr : Ready g r h) (hu : Unsent h) (result : Except Failure GoString) :
    Inv g r (h.catalogRead g result) := by
  have ho := hu.outcome_iff
  unfold Handler.catalogRead
  split
  · split
    · refine (hr.respond _ _).return (ho.trans ?_)
      rw [Handler.emit, dispatches, dispatches, filterMap_concat_none rfl]
    · exact hr.refuse ho _ _
  · exact hr.refuse ho _ _

theorem Inv.step {h' : Handler} {answer : Answer} (hi : Inv g r h)
    (h₁ : step g r h answer = some h') : Inv g r h' := by
  cases hi with
  | done hstage _ => simp [SpendGateway.step, hstage] at h₁
  | live hr hs =>
    rw [StageInv] at hs
    unfold SpendGateway.step at h₁
    split at h₁ <;> cases h₁
    all_goals rename_i hstage; rw [hstage] at hs
    · exact Inv.readBody hr hs _ _
    · exact Inv.nextPart hr hs _ _
    · exact Inv.readPart hr hs _ _ _
    · exact Inv.candidates hr hs _ _ _
    · exact Inv.reserve hr hs _
    · exact Inv.credentials hr hs.1 hs.2 _ _
    · exact Inv.newRequest hr hs.1 hstage hs.2.1 hs.2.2 _
    · obtain ⟨hu, hd, c, hc, hbody, hheader⟩ := hs
      exact Inv.roundTrip hr hu hd hc hbody hheader _
    · exact Inv.readCompact hr hs _ _ _
    · refine hr.finish hs _ ?_
      split <;> simp
    · exact .live { hr.relay hs _ with } ⟨hs.append _, terminalOf_ne_notSent _⟩
    · exact hr.finish hs _ (by simp)
    · exact Inv.writeLine hr hs.1 hs.2 _
    · exact Inv.writeBlank hr hs.1 hs.2 _
    · exact Inv.flush hr hs.1 hs.2 _
    · exact Inv.readSDP hr hs _ _ _
    · refine hr.finish hs _ ?_
      split <;> simp
    · exact Inv.catalogRoundTrip hr hs _
    · exact Inv.catalogRead hr hs _

end Steps

/-! ## The start and the runs -/

section Runs
variable {g : Gateway} {r : Request}

theorem ready_init (g : Gateway) (r : Request) : Ready g r Handler.init where
  justified := .nil
  accepted := fun _ ha => absurd rfl ha.ne_nil
  unreleased := rfl
  owed := .nothing rfl

theorem inv_refuse_init (status : ℕ) (message : GoString) :
    Inv g r (Handler.init.refuse g status message) :=
  (ready_init g r).refuse (iff_of_true rfl rfl) status message

theorem unreserved_init (stage : Stage) : Unreserved { Handler.init with stage } [] :=
  ⟨⟨rfl, rfl, rfl⟩, rfl, rfl, rfl⟩

theorem inv_createVoiceCall (lib : Library) : Inv g r (createVoiceCall g lib r) := by
  unfold createVoiceCall
  dsimp only
  split
  · exact inv_refuse_init _ _
  · split
    · exact inv_refuse_init _ _
    · split
      · exact inv_refuse_init _ _
      · split
        · exact inv_refuse_init _ _
        · exact .live { ready_init g r with } (unreserved_init _)

theorem inv_catalog (lib : Library) : Inv g r (catalog g lib r) := by
  unfold catalog
  dsimp only
  split
  · exact inv_refuse_init _ _
  · split
    · exact inv_refuse_init _ _
    · exact .live { ready_init g r with } (unreserved_init _)

theorem inv_serveHTTP (lib : Library) : Inv g r (serveHTTP g lib r) := by
  unfold serveHTTP
  dsimp only
  split
  · exact inv_refuse_init _ _
  · split
    · exact inv_refuse_init _ _
    · split
      · exact inv_createVoiceCall lib
      · split
        · exact inv_catalog lib
        · split
          · exact inv_refuse_init _ _
          · split
            · exact inv_refuse_init _ _
            · split
              · exact inv_refuse_init _ _
              · split
                · exact inv_refuse_init _ _
                · exact .live { ready_init g r with } (unreserved_init _)

theorem Inv.justified {h : Handler} (hi : Inv g r h) : Justified (rule g r) h.log := by
  cases hi with
  | live ready _ => exact ready.justified
  | done _ done => exact done.justified

theorem Inv.accepted {h : Handler} (hi : Inv g r h) :
    g.accepted = true → Accepting h.log → acceptances h.log ≠ [] := by
  cases hi with
  | live ready _ => exact ready.accepted
  | done _ done => exact done.accepted

theorem accepting_of_acceptance {log : List Event} (hj : Justified (rule g r) log)
    (h : acceptances log ≠ []) : g.accepted = true ∧ Accepting log := by
  obtain ⟨record, hrecord⟩ := List.exists_mem_of_ne_nil _ h
  obtain ⟨e, he, _⟩ := List.mem_filterMap.mp hrecord
  obtain ⟨past, rest, rfl⟩ := List.append_of_mem he
  cases e with
  | accepted record' => exact ⟨hj.entry.2.1, hj.entry.2.2.append _⟩
  | _ => contradiction

theorem reserved_of_release {log : List Event} (hj : Justified (rule g r) log) {d : Decision}
    (h : d ∈ releases log) : d ∈ reservations log := by
  obtain ⟨e, he, hd⟩ := List.mem_filterMap.mp h
  obtain ⟨past, rest, rfl⟩ := List.append_of_mem he
  cases e with
  | released d' =>
    obtain rfl := Option.some.inj hd
    rw [reservations, List.filterMap_append]
    exact List.mem_append_left _ hj.entry.1
  | _ => cases hd

theorem Inv.protocol {h : Handler} (hi : Inv g r h) : Protocol g r h where
  dispatchOnce := hi.justified.once fun past e he hs => by
    cases e with
    | roundTrip up result => exact he.1
    | _ => cases hs
  dispatch := fun past up result rest hlog => (hlog ▸ hi.justified).entry.2.2
  releaseOnce := hi.justified.once fun past e he hs => by
    cases e with
    | released d => exact he.2
    | _ => cases hs
  releaseReserved := fun d hd => reserved_of_release hi.justified hd
  observeOnce := hi.justified.once fun past e he hs => by
    cases e with
    | observed record => exact he.1
    | _ => cases hs
  acceptOnce := hi.justified.once fun past e he hs => by
    cases e with
    | accepted record => exact he.1
    | _ => cases hs
  acceptedIff := ⟨accepting_of_acceptance hi.justified, fun ha => hi.accepted ha.1 ha.2⟩
  acceptedFirst := fun past bytes rest hlog => (hlog ▸ hi.justified).entry
  outcome := fun record hrecord => outcome_of_justified hi.justified hrecord
  exit := fun hstage => by
    cases hi with
    | live _ hs =>
      rw [StageInv, hstage] at hs
      cases hs
    | done _ done => exact ⟨done.released, done.observed⟩

/-- In every run of a handler, over any request and any answers, the protocol holds. -/
theorem runs_follow_protocol {lib : Library} {answers : List Answer} {h : Handler}
    (hr : Runs (Fires (step g r)) (serveHTTP g lib r) answers h) : Protocol g r h :=
  (hr.invariant (I := Inv g r) (inv_serveHTTP lib) fun _ _ _ hi hs => hi.step hs).protocol

end Runs

def gatewayToken : GoString := lit "0123456789abcdef0123456789abcdef"

def chatgptGateway : Gateway where
  token := gatewayToken
  policy := true
  candidates := true
  credentials := true
  roundTrip := true
  upstream := some ⟨lit "https", none, lit "chatgpt.com", lit "/backend-api/codex/responses", [], [], []⟩
  observe := true
  accepted := true

def noLibrary : Library := ⟨fun _ => none, fun _ => none⟩

def inferenceRequest : Request where
  method := lit "POST"
  path := lit "/v1/responses"
  rawQuery := []
  header := Header.set ∅ (lit "X-Codex-Spend-Token") gatewayToken
  contentLength := 2

/-- An inference whose upstream stream is one completing event. -/
def completedInference : List Answer :=
  [.body (.ok (lit "{}")), .candidates (.ok []) false,
    .reserve (.ok ⟨1, 0, lit "a", lit "auto"⟩), .credentials (.ok ⟨lit "token", lit "acct"⟩),
    .newRequest true, .roundTrip (.ok ⟨200, ∅⟩),
    .line (lit "data: \x7b\"type\":\"response.completed\"\x7d"),
    .write (.ok ()), .write (.ok ()), .write (.ok ())]

theorem runs_follow_protocol_completed :
    ∃ h, Protocol chatgptGateway inferenceRequest h ∧
      (observations h.log).map Record.outcome = [.completed] ∧ (releases h.log).length = 1 := by
  have h : (exec (step chatgptGateway inferenceRequest)
      (serveHTTP chatgptGateway noLibrary inferenceRequest) completedInference).any (fun h =>
        (observations h.log).map Record.outcome = [.completed] ∧ (releases h.log).length = 1) =
          true := by
    decide
  obtain ⟨u, hr, ho⟩ := runs_of_exec_any h
  exact ⟨u, runs_follow_protocol hr, of_decide_eq_true ho⟩

end SubscriptionRouter.SpendGateway
