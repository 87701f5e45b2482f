import Mathlib
import SubscriptionRouter.ChromeBridge
import SubscriptionRouter.JsonSize

set_option autoImplicit false

/-!
# The Chrome native host

The host answers frame after frame. It stops at a response that does not fit in a frame, so
what matters is how long a response is for what the request and the router put into it.
-/
namespace SubscriptionRouter.ChromeHost
open ChromeBridge Frames GoText JsonSize JsonText JsonValues Messages

/-- What the host writes for its input, with the surroundings of each frame. -/
def run (w : ℕ → Surroundings) (input : List UInt8) : List UInt8 × Ending :=
  serve maxMessageSize (fun n data => encode (respond (w n) data)) 0 input

/-- The id that is read from a frame. -/
def frameID (w : Surroundings) (data : GoString) : GoString :=
  match parseRequest w data with
  | .error _ => extractID data
  | .ok request => request.id

def frameIDs (w : ℕ → Surroundings) : ℕ → List GoString → List GoString
  | _, [] => []
  | n, data :: payloads => frameID (w n) data :: frameIDs w (n + 1) payloads

/-- Every frame gets one response, with its id and in its turn, and the host serves until the
input ends. -/
def AnswersAll (w : ℕ → Surroundings) (payloads : List GoString) : Prop :=
  ∃ responses : List Response,
    run w (payloads.flatMap frame) = (responses.flatMap fun r => frame (encode r), .finished) ∧
    responses.map Response.id = frameIDs w 0 payloads

/-! ## The size of a response -/

def idSize (id : GoString) : ℕ := if id = [] then 0 else 6 + quotedSize id

theorem idMember_size (id : GoString) :
    membersSize (if id = [] then [] else [(lit "id", .string id)]) = idSize id := by
  have hname : quotedSize (lit "id") = 4 := by decide
  unfold idSize
  split
  · rfl
  · rw [membersSize, membersSize, marshal_string_size, hname]
    omega

theorem encode_size (id : GoString) (result : Except Failed (Option Json)) :
    (encode ⟨id, result⟩).length = 37 + idSize id + membersSize (resultMembers result) := by
  have hname : quotedSize (lit "protocol") = 10 := by decide
  have hversion : quotedSize protocolVersion = 24 := by decide
  rw [encode, marshal_object_size, membersSize, membersSize_append, idMember_size,
    marshal_string_size, hname, hversion]
  dsimp only
  omega

theorem ok_size : quotedSize (lit "ok") = 4 := by decide

theorem encode_none_size (id : GoString) : (encode ⟨id, .ok none⟩).length = 47 + idSize id := by
  have htrue : (marshal (.bool true)).length = 4 := by decide
  rw [encode_size, resultMembers, membersSize, membersSize, ok_size, htrue]
  omega

theorem encode_some_size (id : GoString) (v : Json) :
    (encode ⟨id, .ok (some v)⟩).length = 57 + idSize id + (marshal v).length := by
  have htrue : (marshal (.bool true)).length = 4 := by decide
  have hname : quotedSize (lit "result") = 8 := by decide
  rw [encode_size, resultMembers, membersSize, membersSize, membersSize, ok_size, htrue, hname]
  omega

theorem encode_failure_size (id code message : GoString) :
    (encode (failure id code message)).length =
      77 + idSize id + quotedSize code + quotedSize message := by
  have hfalse : (marshal (.bool false)).length = 5 := by decide
  have herror : quotedSize (lit "error") = 7 := by decide
  have hcode : quotedSize (lit "code") = 6 := by decide
  have hmessage : quotedSize (lit "message") = 9 := by decide
  rw [ChromeBridge.failure, encode_size, resultMembers, membersSize, membersSize, membersSize,
    marshal_object_size, membersSize, membersSize, membersSize, marshal_string_size,
    marshal_string_size, ok_size, hfalse, herror, hcode, hmessage]
  dsimp only
  omega

theorem encode_ne_nil (r : Response) : encode r ≠ [] := by
  intro h
  have hsize := encode_size r.id r.result
  rw [show encode ⟨r.id, r.result⟩ = [] from h, List.length_nil] at hsize
  omega

/-! ## Short texts -/

theorem idSize_le {id : GoString} (h : id.length ≤ 128) : idSize id ≤ 776 := by
  have hquoted := quotedSize_le id
  unfold idSize
  split_ifs
  · exact Nat.zero_le _
  · omega

/-! ## Which responses fit -/

def FailureFits (id code message : GoString) : Prop :=
  77 + idSize id + quotedSize code + quotedSize message ≤ maxMessageSize

def ResultFits (id : GoString) (v : Json) : Prop :=
  57 + idSize id + (marshal v).length ≤ maxMessageSize

/-- What the endpoint answers leaves room for the response around it. -/
def EndpointFits (id : GoString) : Endpoint → Prop
  | .requestFailed error => FailureFits id (lit "router_request_failed") error
  | .unreachable => True
  | .answered status body readError =>
    body.length ≤ maxMessageSize → match readError with
      | some error => FailureFits id (lit "router_response_failed") error
      | none => 200 ≤ status.val → status.val < 300 → ∀ v, parse body = some v →
          decodesToAny v = true → v ≠ .null → ResultFits id (reencode v)

def RouterFits (w : Surroundings) (id : GoString) (needsToken : Bool) : Prop :=
  match w.endpoint, needsToken, w.readControlToken with
  | .requestFailed error, _, _ => EndpointFits id (.requestFailed error)
  | _, true, .error error => FailureFits id (lit "router_unavailable") error
  | endpoint, _, _ => EndpointFits id endpoint

def RequestFits (w : Surroundings) (request : Request) : Prop :=
  if request.type = lit "router.health" then RouterFits w request.id false
  else if request.type = lit "router.accounts" ∨ request.type = lit "router.profile" then
    RouterFits w request.id true
  else if request.type = lit "browser.context.publish" then
    match decodeContext request.payload with
    | none => FailureFits request.id (lit "invalid_payload")
        (lit "invalid browser context: " ++ w.contextError request.payload)
    | some _ => browserContextError w request.payload = none →
        ∀ error, w.writeContext = .error error → FailureFits request.id (lit "context_write_failed") error
  else True

/-- The texts that the response to a frame takes from outside leave room for the rest. -/
def Answerable (w : Surroundings) (data : GoString) : Prop :=
  match (firstDocument data).bind fun d => (decodeRequest d.1).map fun request => (request, d.2) with
  | none => FailureFits (extractID data) (lit "invalid_request")
      (lit "invalid request JSON: " ++ w.requestError data)
  | some (decoded, rest) => (units rest).all isBlank = true →
      (trimSpace decoded.protocol ≠ protocolVersion → FailureFits (extractID data)
        (lit "invalid_request")
        (lit "unsupported protocol " ++ quoted w.isPrint (trimSpace decoded.protocol))) ∧
      ∀ request, parseRequest w data = .ok request → RequestFits w request

theorem failure_fits_iff {id code message : GoString} :
    Fits maxMessageSize (encode (ChromeBridge.failure id code message)) ↔
      FailureFits id code message := by
  unfold Fits FailureFits
  rw [encode_failure_size]
  exact ⟨fun h => h.2, fun h => ⟨encode_ne_nil _, h⟩⟩

theorem result_fits_iff {id : GoString} {v : Json} :
    Fits maxMessageSize (encode ⟨id, .ok (some v)⟩) ↔ ResultFits id v := by
  unfold Fits ResultFits
  rw [encode_some_size]
  exact ⟨fun h => h.2, fun h => ⟨encode_ne_nil _, h⟩⟩

/-- A failure whose texts are short fits. -/
theorem failureFits_of_short {id code message : GoString} (hid : id.length ≤ 128)
    (hcode : code.length ≤ 1000) (hmessage : message.length ≤ 1000) : FailureFits id code message := by
  have h1 := idSize_le hid
  have h2 := quotedSize_le code
  have h3 := quotedSize_le message
  unfold FailureFits maxMessageSize
  omega

theorem failure_fits_short {id code message : GoString} (hid : id.length ≤ 128)
    (hcode : code.length ≤ 1000) (hmessage : message.length ≤ 1000) :
    Fits maxMessageSize (encode (ChromeBridge.failure id code message)) :=
  failure_fits_iff.mpr (failureFits_of_short hid hcode hmessage)

/-- A document that is `null` leaves the result out. -/
theorem reencoded_fits_iff {id : GoString} (hid : id.length ≤ 128) (v : Json) :
    Fits maxMessageSize (encode (match v with
      | .null => ⟨id, .ok none⟩
      | v => ⟨id, .ok (some (reencode v))⟩)) ↔ (v ≠ .null → ResultFits id (reencode v)) := by
  cases v with
  | null =>
    refine iff_of_true ⟨encode_ne_nil _, ?_⟩ fun hnull => absurd rfl hnull
    have hsize := idSize_le hid
    rw [encode_none_size, maxMessageSize]
    omega
  | _ => exact result_fits_iff.trans (imp_iff_right nofun).symm

theorem fetch_fits_iff {id : GoString} (hid : id.length ≤ 128) (endpoint : Endpoint) :
    Fits maxMessageSize (encode (fetch id endpoint)) ↔ EndpointFits id endpoint := by
  have hcode : (lit "router_response_failed").length ≤ 1000 := by decide
  have hinvalid : Fits maxMessageSize (encode (ChromeBridge.failure id (lit "router_response_failed")
      (lit "router returned invalid JSON"))) := failure_fits_short hid hcode (by decide)
  cases endpoint with
  | requestFailed error => exact failure_fits_iff
  | unreachable =>
    exact iff_of_true (failure_fits_short hid (by decide) (by decide)) trivial
  | answered status body readError =>
    unfold fetch EndpointFits
    dsimp only
    by_cases hlong : maxMessageSize < body.length
    · rw [if_pos hlong]
      exact iff_of_true (failure_fits_short hid hcode (by decide)) fun h => absurd hlong (by omega)
    · rw [if_neg hlong, imp_iff_right (by omega)]
      cases readError with
      | some error => exact failure_fits_iff
      | none =>
        dsimp only
        by_cases hstatus : status.val < 200 ∨ 300 ≤ status.val
        · rw [if_pos hstatus]
          refine iff_of_true (failure_fits_short hid hcode ?_) fun hlow hhigh => ?_
          · have hdigits : (itoaNat status).length ≤ 2 + 1 := itoaNat_length_le status.isLt
            have htext : (lit "router returned HTTP ").length = 21 := by decide
            rw [List.length_append, htext]
            omega
          · omega
        · rw [if_neg hstatus, imp_iff_right (by omega), imp_iff_right (by omega)]
          cases hparse : parse body with
          | none => exact iff_of_true hinvalid nofun
          | some v =>
            dsimp only
            by_cases hany : decodesToAny v = true
            · rw [if_neg (by simp [hany])]
              refine (reencoded_fits_iff hid v).trans ⟨fun h v' he _ hnull => ?_, fun h => h v rfl hany⟩
              obtain rfl := Option.some.inj he
              exact h hnull
            · rw [if_pos (by simpa using hany)]
              exact iff_of_true hinvalid fun v' he hany' => absurd hany' (Option.some.inj he ▸ hany)

theorem routerRequest_fits_iff {id : GoString} (hid : id.length ≤ 128) (w : Surroundings)
    (needsToken : Bool) :
    Fits maxMessageSize (encode (routerRequest w id needsToken)) ↔ RouterFits w id needsToken := by
  unfold routerRequest RouterFits
  cases w.readControlToken with
  | ok => cases w.endpoint <;> cases needsToken <;> exact fetch_fits_iff hid _
  | error error =>
    cases needsToken with
    | false => cases w.endpoint <;> exact fetch_fits_iff hid _
    | true =>
      cases w.endpoint with
      | requestFailed error => exact fetch_fits_iff hid _
      | _ => exact failure_fits_iff

theorem contextID_size (random : Fin 16 → UInt8) : (contextID random).length = 32 := by
  have h : ∀ l : List UInt8, (l.flatMap fun b => hexDigits 2 b.toNat).length = 2 * l.length := by
    intro l
    induction l with
    | nil => rfl
    | cons b l ih =>
      rw [List.flatMap_cons, List.length_append, ih, List.length_cons, hexDigits, List.length_map]
      simp only [List.length_reverse, List.length_range]
      omega
  rw [contextID, h, List.length_ofFn]

theorem browserContextError_short {w : Surroundings} {payload : Option Json} {fields : GoMap GoString}
    (h : decodeContext payload = some fields) {error : GoString}
    (herror : browserContextError w payload = some error) : error.length ≤ 1000 := by
  unfold browserContextError at herror
  rw [h] at herror
  dsimp only at herror
  split_ifs at herror
  all_goals
    obtain rfl := Option.some.inj herror
    decide

theorem result_fits_short {id : GoString} (hid : id.length ≤ 128) {v : Json}
    (hv : (marshal v).length ≤ 1000) : Fits maxMessageSize (encode ⟨id, .ok (some v)⟩) := by
  have hsize := idSize_le hid
  refine result_fits_iff.mpr ?_
  unfold ResultFits maxMessageSize
  omega

theorem context_fits_iff {w : Surroundings} {id : GoString} (hid : id.length ≤ 128)
    (payload : Option Json) :
    Fits maxMessageSize (encode (match browserContextError w payload, w.writeContext with
      | some error, _ => ChromeBridge.failure id (lit "invalid_payload") error
      | none, .error error => ChromeBridge.failure id (lit "context_write_failed") error
      | none, .ok random => ⟨id, .ok (some (.object
          [(lit "contextId", .string (contextID random))]))⟩)) ↔
      match decodeContext payload with
      | none => FailureFits id (lit "invalid_payload")
          (lit "invalid browser context: " ++ w.contextError payload)
      | some _ => browserContextError w payload = none →
          ∀ error, w.writeContext = .error error →
            FailureFits id (lit "context_write_failed") error := by
  cases hdecoded : decodeContext payload with
  | none =>
    have herror : browserContextError w payload =
        some (lit "invalid browser context: " ++ w.contextError payload) := by
      unfold browserContextError
      rw [hdecoded]
    rw [herror]
    exact failure_fits_iff
  | some fields =>
    dsimp only
    cases herror : browserContextError w payload with
    | some error =>
      exact iff_of_true (failure_fits_short hid (by decide) (browserContextError_short hdecoded herror))
        nofun
    | none =>
      rw [imp_iff_right rfl]
      cases w.writeContext with
      | error error =>
        exact failure_fits_iff.trans ⟨fun h _ he => by cases he; exact h, fun h => h error rfl⟩
      | ok random =>
        refine iff_of_true (result_fits_short hid ?_) nofun
        have hquoted := quotedSize_le (contextID random)
        have hname : quotedSize (lit "contextId") = 11 := by decide
        rw [contextID_size] at hquoted
        rw [marshal_object_size, membersSize, membersSize, marshal_string_size, hname]
        omega

theorem handle_fits_iff {w : Surroundings} {request : Request} (hid : request.id.length ≤ 128) :
    Fits maxMessageSize (encode (handle w request)) ↔ RequestFits w request := by
  unfold handle RequestFits
  by_cases hhello : request.type = lit "hello"
  · rw [if_pos hhello, hhello, if_neg (by decide), if_neg (by decide), if_neg (by decide)]
    exact iff_of_true (result_fits_short hid (by decide +kernel)) trivial
  · rw [if_neg hhello]
    split_ifs with hhealth haccounts hcontext
    · exact routerRequest_fits_iff hid w false
    · exact routerRequest_fits_iff hid w true
    · exact context_fits_iff hid request.payload
    · exact iff_of_true (failure_fits_short hid (by decide) (by decide)) trivial

theorem extractID_short (data : GoString) : (extractID data).length ≤ 128 := by
  unfold extractID
  dsimp only
  split_ifs with hlong
  · exact Nat.zero_le _
  · omega

theorem parseRequest_id {w : Surroundings} {data : GoString} {request : Request}
    (h : parseRequest w data = .ok request) : request.id.length ≤ 128 := by
  unfold parseRequest at h
  split at h
  · cases h
  · dsimp only at h
    split_ifs at h with hrest hprotocol hid htype
    cases h
    exact Nat.le_of_not_lt fun hlong => hid (.inr hlong)

theorem parseRequest_decoded {w : Surroundings} {data : GoString} {decoded : Request} {rest : GoString}
    (h : ((firstDocument data).bind fun d => (decodeRequest d.1).map fun request => (request, d.2)) =
      some (decoded, rest)) :
    parseRequest w data =
      if !(units rest).all isBlank then .error (lit "request contains trailing JSON")
      else if trimSpace decoded.protocol ≠ protocolVersion then
        .error (lit "unsupported protocol " ++ quoted w.isPrint (trimSpace decoded.protocol))
      else if trimSpace decoded.id = [] ∨ 128 < (trimSpace decoded.id).length then
        .error (lit "request id must contain 1 to 128 characters")
      else if trimSpace decoded.type = [] ∨ 64 < (trimSpace decoded.type).length then
        .error (lit "request type must contain 1 to 64 characters")
      else .ok { decoded with
        protocol := trimSpace decoded.protocol
        id := trimSpace decoded.id
        type := trimSpace decoded.type } := by
  unfold parseRequest
  rw [h]

theorem respond_fits_iff (w : Surroundings) (data : GoString) :
    Fits maxMessageSize (encode (respond w data)) ↔ Answerable w data := by
  have hid := extractID_short data
  have hcode : (lit "invalid_request").length ≤ 1000 := by decide
  unfold Answerable
  split
  · rename_i hdecoded
    have hparse : parseRequest w data =
        .error (lit "invalid request JSON: " ++ w.requestError data) := by
      unfold parseRequest
      rw [hdecoded]
    rw [respond, hparse]
    exact failure_fits_iff
  · rename_i decoded rest hdecoded
    have hequation := parseRequest_decoded (w := w) hdecoded
    by_cases hblank : (units rest).all isBlank = true
    · rw [imp_iff_right hblank]
      rw [if_neg (by simp [hblank])] at hequation
      by_cases hprotocol : trimSpace decoded.protocol = protocolVersion
      · rw [if_neg (by simpa using hprotocol)] at hequation
        have hshort : ∀ text : GoString, text.length ≤ 1000 → parseRequest w data = .error text →
            (Fits maxMessageSize (encode (respond w data)) ↔
              (trimSpace decoded.protocol ≠ protocolVersion → FailureFits (extractID data)
                (lit "invalid_request")
                (lit "unsupported protocol " ++ quoted w.isPrint (trimSpace decoded.protocol))) ∧
              ∀ request, parseRequest w data = .ok request → RequestFits w request) := by
          intro text htext hparse
          rw [respond, hparse]
          exact iff_of_true (failure_fits_short hid hcode htext)
            ⟨fun h => absurd hprotocol h, fun _ he => by cases he⟩
        split_ifs at hequation
        · exact hshort _ (by decide) hequation
        · exact hshort _ (by decide) hequation
        · rw [respond, hequation]
          refine (handle_fits_iff (parseRequest_id hequation)).trans
            ⟨fun h => ⟨fun hne => absurd hprotocol hne, fun _ he => ?_⟩, fun h => h.2 _ rfl⟩
          cases he
          exact h
      · rw [if_pos (by simpa using hprotocol)] at hequation
        rw [respond, hequation]
        exact failure_fits_iff.trans
          ⟨fun h => ⟨fun _ => h, fun _ he => by cases he⟩, fun h => h.1 hprotocol⟩
    · rw [if_pos (by simpa using hblank)] at hequation
      rw [respond, hequation]
      exact iff_of_true (failure_fits_short hid hcode (by decide)) fun h => absurd h hblank

/-! ## The host -/

theorem fetch_id (id : GoString) (endpoint : Endpoint) : (fetch id endpoint).id = id := by
  unfold fetch
  repeat' split
  all_goals rfl

theorem routerRequest_id (w : Surroundings) (id : GoString) (needsToken : Bool) :
    (routerRequest w id needsToken).id = id := by
  unfold routerRequest
  split
  · exact fetch_id id _
  · rfl
  · exact fetch_id id _

theorem respond_id (w : Surroundings) (data : GoString) : (respond w data).id = frameID w data := by
  unfold respond frameID
  cases parseRequest w data with
  | error text => rfl
  | ok request =>
    dsimp only
    unfold handle
    split_ifs
    · rfl
    · exact routerRequest_id w request.id false
    · exact routerRequest_id w request.id true
    · split <;> rfl
    · rfl

theorem answers_eq_map (w : ℕ → Surroundings) (n : ℕ) (payloads : List GoString) :
    ∃ responses : List Response,
      answers (fun n data => encode (respond (w n) data)) n payloads = responses.map encode ∧
        responses.map Response.id = frameIDs w n payloads := by
  induction payloads generalizing n with
  | nil => exact ⟨[], rfl, rfl⟩
  | cons data payloads ih =>
    obtain ⟨responses, hanswers, hids⟩ := ih (n + 1)
    refine ⟨respond (w n) data :: responses, ?_, ?_⟩
    · rw [answers, hanswers, List.map_cons]
    · rw [List.map_cons, frameIDs, respond_id, hids]

theorem run_stops (w : ℕ → Surroundings) {payloads : List GoString}
    (h : ∀ payload ∈ payloads, Fits maxMessageSize payload) {i : ℕ} {payload : GoString}
    (hpayload : payloads[i]? = some payload) (hlong : ¬ Answerable (w i) payload) :
    (run w (payloads.flatMap frame)).2 = .stopped := by
  refine serve_of_not_fits (by decide) h 0 ⟨_, mem_answers.mpr ⟨i, payload, hpayload, rfl⟩, ?_⟩
  rw [Nat.zero_add, respond_fits_iff]
  exact hlong

/-- The host answers every frame exactly when each of them is answerable, in the
surroundings it meets. -/
theorem run_iff (w : ℕ → Surroundings) {payloads : List GoString}
    (h : ∀ payload ∈ payloads, Fits maxMessageSize payload) :
    AnswersAll w payloads ↔
      ∀ (i : ℕ) (payload : GoString), payloads[i]? = some payload → Answerable (w i) payload := by
  constructor
  · rintro ⟨responses, hrun, _⟩ i payload hpayload
    by_contra hlong
    have hstopped := run_stops w h hpayload hlong
    rw [hrun] at hstopped
    cases hstopped
  · intro hanswerable
    obtain ⟨responses, hanswers, hids⟩ := answers_eq_map w 0 payloads
    refine ⟨responses, ?_, hids⟩
    rw [run, serve_of_fits (by decide) h 0, hanswers, List.flatMap_map]
    intro answer hmem
    obtain ⟨i, payload, hpayload, rfl⟩ := mem_answers.mp hmem
    rw [Nat.zero_add, respond_fits_iff]
    exact hanswerable i payload hpayload

/-! ## A health request -/

def healthFrame : GoString :=
  lit "\x7b\"protocol\":\"codex-router-native-v1\",\"id\":\"1\",\"type\":\"router.health\"\x7d"

def answering (body : GoString) : Surroundings where
  isPrint := fun _ => true
  requestError := fun _ => lit "unexpected EOF"
  contextError := fun _ => lit "EOF"
  absoluteURL := fun _ => true
  readControlToken := .ok ()
  endpoint := .answered 200 body none
  writeContext := .ok fun _ => 0

theorem run_health :
    AnswersAll (fun _ => answering (lit "\x7b\"ok\":true\x7d")) [healthFrame, lit "\x7b"] := by
  refine (run_iff _ ?_).mpr fun i payload hpayload => ?_
  · intro payload hmem
    rcases List.mem_cons.mp hmem with rfl | hmem
    · exact ⟨by decide, by decide +kernel⟩
    · rw [List.mem_singleton.mp hmem]
      exact ⟨by decide, by decide⟩
  · match i, hpayload with
    | 0, rfl =>
      rw [← respond_fits_iff]
      exact ⟨encode_ne_nil _, by decide +kernel⟩
    | 1, rfl =>
      rw [← respond_fits_iff]
      exact ⟨encode_ne_nil _, by decide +kernel⟩

def letters (n : ℕ) : GoString := List.replicate n 0x61

def letterBody (n : ℕ) : GoString := (render compact 0 (.string (letters n))).flatten ++ lit "\n"

theorem units_letters (n : ℕ) : units (letters n) = List.replicate n [0x61] := by
  have hletters : letters n = (List.replicate n [0x61]).flatten := by
    rw [letters, List.flatten_replicate_singleton]
  rw [hletters]
  exact units_flatten_of_encodings fun u hu => by
    rw [List.eq_of_mem_replicate hu]
    exact .one (by decide)

theorem quotedSize_letters (n : ℕ) : quotedSize (letters n) = n + 2 := by
  have hquoted : (List.replicate n ([0x61] : GoString)).flatMap quoteUnit =
      List.replicate n [0x61] := by
    rw [List.flatMap_replicate]
    exact List.flatten_replicate_singleton
  rw [quotedSize, quote, units_letters, hquoted, List.flatten_append, List.flatten_append,
    List.length_append, List.length_append, List.flatten_replicate_singleton, List.length_replicate]
  change 1 + n + 1 = _
  omega

theorem toValid_letters (n : ℕ) : toValid (letters n) = letters n := by
  rw [toValid, units_letters, List.map_replicate]
  exact List.flatten_replicate_singleton

theorem letterBody_length (n : ℕ) : (letterBody n).length = n + 3 := by
  have hsize := quotedSize_letters n
  rw [letterBody, List.length_append]
  change quotedSize (letters n) + 1 = _
  omega

theorem parse_letterBody (n : ℕ) : parse (letterBody n) = some (.string (letters n)) := by
  rw [letterBody, JsonRoundTrip.parse_render compact _ rfl (Nat.zero_le _), JsonRoundTrip.readBack,
    toValid_letters]

theorem parseRequest_healthFrame (w : Surroundings) : ∃ request : Request,
    parseRequest w healthFrame = .ok request ∧ request.id = lit "1" ∧
      request.type = lit "router.health" := by
  have hfields : (((firstDocument healthFrame).bind fun d =>
      (decodeRequest d.1).map fun request => (request, d.2)).map fun d =>
        (d.1.protocol, d.1.id, d.1.type, d.2)) =
      some (protocolVersion, lit "1", lit "router.health", []) := by
    decide +kernel
  obtain ⟨⟨decoded, rest⟩, hdecoded, hfields⟩ := Option.map_eq_some_iff.mp hfields
  simp only [Prod.mk.injEq] at hfields
  obtain ⟨hprotocol, hid, htype, hrest⟩ := hfields
  rw [parseRequest_decoded hdecoded, hprotocol, hid, htype, hrest, if_neg (by decide),
    if_neg (by decide +kernel), if_neg (by decide +kernel), if_neg (by decide +kernel)]
  have htrimmed : trimSpace (lit "1") = lit "1" ∧ trimSpace (lit "router.health") =
      lit "router.health" := by
    decide +kernel
  exact ⟨_, rfl, htrimmed⟩

theorem letterBody_not_answerable {n : ℕ} (hbody : n + 3 ≤ maxMessageSize)
    (hlong : maxMessageSize < n + 68) : ¬ Answerable (answering (letterBody n)) healthFrame := by
  obtain ⟨request, hparse, hid, htype⟩ := parseRequest_healthFrame (answering (letterBody n))
  have hidSize : idSize (lit "1") = 9 := by decide
  have hresponse : respond (answering (letterBody n)) healthFrame =
      ⟨lit "1", .ok (some (.string (letters n)))⟩ := by
    have hlength := letterBody_length n
    have hrouter : routerRequest (answering (letterBody n)) (lit "1") false =
        fetch (lit "1") (.answered 200 (letterBody n) none) := rfl
    rw [respond, hparse]
    dsimp only
    rw [handle, htype, hid, if_neg (by decide), if_pos rfl, hrouter]
    unfold fetch
    dsimp only
    rw [if_neg (by omega), if_neg (by decide), parse_letterBody]
    rfl
  rw [← respond_fits_iff, hresponse, result_fits_iff, ResultFits, marshal_string_size,
    quotedSize_letters, hidSize]
  omega

theorem full_body_stops_host :
    Fits maxMessageSize healthFrame ∧
      ¬ AnswersAll (fun _ => answering (letterBody (maxMessageSize - 3))) [healthFrame] := by
  have hmax : 3 < maxMessageSize := by decide
  have hframe : Fits maxMessageSize healthFrame := ⟨by decide, by decide +kernel⟩
  refine ⟨hframe, ?_⟩
  rintro ⟨responses, hrun, _⟩
  have hstopped : (run (fun _ => answering (letterBody (maxMessageSize - 3)))
      ([healthFrame].flatMap frame)).2 = .stopped := by
    refine run_stops _ (fun payload hmem => List.mem_singleton.mp hmem ▸ hframe) (i := 0) rfl ?_
    exact letterBody_not_answerable (by omega) (by omega)
  rw [hrun] at hstopped
  cases hstopped

end SubscriptionRouter.ChromeHost
