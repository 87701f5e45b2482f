import Mathlib
import SubscriptionRouter.RateLimitWindows
import SubscriptionRouter.Transitions

set_option autoImplicit false

/-!
# Banked resets and their cache

Routing looks up how many resets an account has left. The lookups, the requests of the menu and
the redemptions run at the same time, and share the cache and the previews. Each step takes one of
the two locks at most once. A call has a number of its own. The answers of the endpoint and the
time are not the program's.
-/
namespace SubscriptionRouter.ResetCredits
open GoText RateLimitWindows Transitions

deriving instance DecidableEq for ResetCreditMetadata

/-! ## What an answer says -/

structure Credit where
  status : GoString
  expiresAt : GoString

structure Response where
  availableCount : Option ℤ
  applicableAvailableCount : Option ℤ
  credits : List Credit

/-- `json.Unmarshal` into a `Response`, and `time.Parse` of a time in seconds since 1970. -/
structure Decoding where
  unmarshal : GoString → Option Response
  parseTime : GoString → Option ℤ

def earlier (earliest : Option ℤ) (unix : ℤ) : Option ℤ :=
  match earliest with
  | none => some unix
  | some t => if unix < t then some unix else some t

/-- The body of the loop over the credits. -/
def considerCredit (d : Decoding) (earliest : Option ℤ) (credit : Credit) : Option ℤ :=
  if credit.status ≠ [] ∧ credit.status ≠ lit "available" then earliest
  else match d.parseTime credit.expiresAt with
    | none => earliest
    | some unix => earlier earliest unix

def decodeResetCreditMetadata (d : Decoding) (payload : GoString) : Option ResetCreditMetadata := do
  let response ← d.unmarshal payload
  let count ← response.applicableAvailableCount <|> response.availableCount
  guard (0 ≤ count)
  return ⟨true, count, response.credits.foldl (considerCredit d) none⟩

def expiries (d : Decoding) (credits : List Credit) : List ℤ :=
  (credits.filter fun credit => credit.status = [] ∨ credit.status = lit "available").filterMap
    fun credit => d.parseTime credit.expiresAt

/-! ## The calls and what they share -/

def resetCreditsCacheTTL : ℤ := 5 * minute

def resetCreditsErrorTTL : ℤ := minute

structure CacheEntry where
  metadata : ResetCreditMetadata
  expiresAt : ℤ

/-- `routingResetCredits`, `RateLimitResetCredits`, `ConsumeRateLimitResetCredit` and
`SetResetCreditsPreview`. -/
inductive Operation where
  | routing
  | listing
  | consume
  | setPreview (availableCount : ℤ)
  deriving DecidableEq

inductive Result where
  | metadata (m : ResetCreditMetadata)
  | payload (payload : GoString)
  | previewed (availableCount : ℤ)
  | reset
  | noCredit
  | redeemed
  | accepted
  | failed
  deriving DecidableEq

/-- `listing` tells whether the answer goes to the menu. -/
inductive Call (A : Type) where
  | idle
  | entered (op : Operation) (a : A)
  | unpreviewed (a : A)
  | timed (a : A) (now : ℤ)
  | fetching (listing : Bool) (a : A)
  | waiting (listing : Bool) (a : A)
  | storing (a : A) (m : ResetCreditMetadata) (ttl : ℤ) (result : Result)
  | posting (a : A)
  | redeeming (a : A)
  | spending (a : A) (availableCount : ℤ)
  | clearing (a : A) (result : Result)
  | done (a : A) (result : Result)
  deriving DecidableEq

structure State (A : Type) where
  now : ℤ
  resetCreditsCache : A → Option CacheEntry
  resetPreviews : A → Option ℤ
  calls : ℕ → Call A

/-- What a call does next. `lose` is a request that fails before it is sent. -/
inductive Action (A : Type) where
  | enter (op : Operation) (a : A)
  | refuse
  | look
  | time
  | read
  | get (a : A)
  | got (answer : Option GoString)
  | lose
  | store
  | post (a : A)
  | posted (accepted : Bool)
  | write
  | clear
  deriving DecidableEq

inductive Label (A : Type) where
  | tick (d : ℕ)
  | act (c : ℕ) (x : Action A)
  deriving DecidableEq

/-- What a step leaves behind in what the calls share. -/
inductive Write (A : Type) where
  | keep
  | cache (a : A) (entry : Option CacheEntry)
  | preview (a : A) (availableCount : ℤ)

variable {A : Type}

def look (a : A) : Operation → Option ℤ → Option (Call A)
  | .routing, some count => some (.done a (.metadata ⟨true, count, none⟩))
  | .routing, none => some (.unpreviewed a)
  | .listing, some count => some (.done a (.previewed count))
  | .listing, none => some (.fetching true a)
  | .consume, some count => some (if count ≤ 0 then .done a .noCredit else .spending a count)
  | .consume, none => some (.posting a)
  | .setPreview _, _ => none

def lookup (a : A) (now : ℤ) : Option CacheEntry → Call A
  | some entry =>
    if now < entry.expiresAt then .done a (.metadata entry.metadata) else .fetching false a
  | none => .fetching false a

def received (d : Decoding) (a : A) (answer : Option GoString) : Bool → Call A
  | false =>
    match answer.bind (decodeResetCreditMetadata d) with
    | some m => .storing a m resetCreditsCacheTTL (.metadata m)
    | none => .storing a ⟨false, 0, none⟩ resetCreditsErrorTTL (.metadata ⟨false, 0, none⟩)
  | true =>
    match answer with
    | none => .done a .failed
    | some payload =>
      match decodeResetCreditMetadata d payload with
      | some m => .storing a m resetCreditsCacheTTL (.payload payload)
      | none => .done a (.payload payload)

section Steps
variable [DecidableEq A]

def act (d : Decoding) (s : State A) : Call A → Action A → Option (Call A × Write A)
  | .idle, .enter op a => some (.entered op a, .keep)
  | .entered op a, .refuse => if op = .routing then none else some (.done a .failed, .keep)
  | .entered op a, .look => (look a op (s.resetPreviews a)).map fun call => (call, .keep)
  | .entered (.setPreview count) a, .write =>
    if 0 ≤ count ∧ count ≤ 100 then some (.clearing a .accepted, .preview a count) else none
  | .unpreviewed a, .time => some (.timed a s.now, .keep)
  | .timed a now, .read => some (lookup a now (s.resetCreditsCache a), .keep)
  | .fetching listing a, .get b => if b = a then some (.waiting listing a, .keep) else none
  | .fetching listing a, .lose => some (received d a none listing, .keep)
  | .waiting listing a, .got answer => some (received d a answer listing, .keep)
  | .storing a m ttl result, .store => some (.done a result, .cache a (some ⟨m, s.now + ttl⟩))
  | .posting a, .post b => if b = a then some (.redeeming a, .keep) else none
  | .posting a, .lose => some (.done a .failed, .keep)
  | .redeeming a, .posted accepted =>
    some (if accepted then .clearing a .redeemed else .done a .failed, .keep)
  | .spending a count, .write => some (.done a .reset, .preview a (count - 1))
  | .clearing a result, .clear => some (.done a result, .cache a none)
  | _, _ => none

def State.apply (s : State A) : Write A → State A
  | .keep => s
  | .cache a entry => { s with resetCreditsCache := Function.update s.resetCreditsCache a entry }
  | .preview a count => { s with resetPreviews := Function.update s.resetPreviews a (some count) }

def State.setCall (s : State A) (c : ℕ) (call : Call A) : State A :=
  { s with calls := Function.update s.calls c call }

def step (d : Decoding) (s : State A) : Label A → Option (State A)
  | .tick n => some { s with now := s.now + n }
  | .act c x => (act d s (s.calls c) x).map fun r => (s.apply r.2).setCall c r.1

end Steps

def start (now : ℤ) : State A := ⟨now, fun _ => none, fun _ => none, fun _ => .idle⟩

/-! ## What an answer is taken for -/

theorem foldl_considerCredit (d : Decoding) (credits : List Credit) (earliest : Option ℤ) :
    credits.foldl (considerCredit d) earliest = (expiries d credits).foldl earlier earliest := by
  induction credits generalizing earliest with
  | nil => rfl
  | cons credit credits ih =>
    rw [List.foldl_cons, ih, expiries, expiries, considerCredit]
    by_cases hstatus : credit.status ≠ [] ∧ credit.status ≠ lit "available"
    · rw [if_pos hstatus, List.filter_cons_of_neg (by simpa using hstatus)]
    · rw [if_neg hstatus, List.filter_cons_of_pos (by simpa [or_iff_not_imp_left] using hstatus),
        List.filterMap_cons]
      cases d.parseTime credit.expiresAt with
      | none => rfl
      | some unix => rfl

theorem foldl_earlier (times : List ℤ) (t : ℤ) :
    times.foldl earlier (some t) = some (times.foldl min t) := by
  induction times generalizing t with
  | nil => rfl
  | cons u times ih =>
    rw [List.foldl_cons, List.foldl_cons, ← ih]
    congr 1
    rw [earlier]
    split
    · rename_i h
      rw [min_eq_right h.le]
    · rename_i h
      rw [min_eq_left (not_lt.mp h)]

/-- The expiry is the first one of the credits that may be used. -/
theorem decodeResetCreditMetadata_iff {d : Decoding} {payload : GoString} {m : ResetCreditMetadata} :
    decodeResetCreditMetadata d payload = some m ↔ ∃ response, d.unmarshal payload = some response ∧
      (response.applicableAvailableCount <|> response.availableCount) = some m.availableCount ∧
      0 ≤ m.availableCount ∧ m.known = true ∧ m.earliestExpiry = (expiries d response.credits).min? := by
  have hfold : ∀ credits, credits.foldl (considerCredit d) none = (expiries d credits).min? := by
    intro credits
    rw [foldl_considerCredit]
    cases expiries d credits with
    | nil => rfl
    | cons t times => exact foldl_earlier times t
  simp only [decodeResetCreditMetadata, Option.bind_eq_bind, Option.bind_eq_some_iff,
    Option.guard_eq_some', Option.pure_def, Option.some.injEq, exists_const, hfold]
  constructor
  · rintro ⟨response, hresponse, count, hcount, hnonneg, rfl⟩
    exact ⟨response, hresponse, hcount, hnonneg, rfl, rfl⟩
  · rintro ⟨response, hresponse, hcount, hnonneg, hknown, hexpiry⟩
    refine ⟨response, hresponse, m.availableCount, hcount, hnonneg, ?_⟩
    rw [← hknown, ← hexpiry]

/-! ## What a step does -/

inductive Acts (d : Decoding) (s : State A) : Call A → Action A → Call A → Write A → Prop where
  | enter (op : Operation) (a : A) : Acts d s .idle (.enter op a) (.entered op a) .keep
  | refuse {op : Operation} (a : A) (hop : op ≠ .routing) :
      Acts d s (.entered op a) .refuse (.done a .failed) .keep
  | look {op : Operation} {a : A} {call : Call A} (hlook : look a op (s.resetPreviews a) = some call) :
      Acts d s (.entered op a) .look call .keep
  | setPreview {count : ℤ} (a : A) (hcount : 0 ≤ count ∧ count ≤ 100) :
      Acts d s (.entered (.setPreview count) a) .write (.clearing a .accepted) (.preview a count)
  | time (a : A) : Acts d s (.unpreviewed a) .time (.timed a s.now) .keep
  | read (a : A) (now : ℤ) :
      Acts d s (.timed a now) .read (lookup a now (s.resetCreditsCache a)) .keep
  | get (listing : Bool) (a : A) : Acts d s (.fetching listing a) (.get a) (.waiting listing a) .keep
  | lose (listing : Bool) (a : A) : Acts d s (.fetching listing a) .lose (received d a none listing) .keep
  | got (listing : Bool) (a : A) (answer : Option GoString) :
      Acts d s (.waiting listing a) (.got answer) (received d a answer listing) .keep
  | store (a : A) (m : ResetCreditMetadata) (ttl : ℤ) (result : Result) :
      Acts d s (.storing a m ttl result) .store (.done a result) (.cache a (some ⟨m, s.now + ttl⟩))
  | post (a : A) : Acts d s (.posting a) (.post a) (.redeeming a) .keep
  | losePost (a : A) : Acts d s (.posting a) .lose (.done a .failed) .keep
  | posted (a : A) (accepted : Bool) : Acts d s (.redeeming a) (.posted accepted)
      (if accepted then .clearing a .redeemed else .done a .failed) .keep
  | spend (a : A) (count : ℤ) :
      Acts d s (.spending a count) .write (.done a .reset) (.preview a (count - 1))
  | clear (a : A) (result : Result) :
      Acts d s (.clearing a result) .clear (.done a result) (.cache a none)

section Steps
variable [DecidableEq A] {d : Decoding} {s s' : State A}

theorem acts_of_act {call call' : Call A} {x : Action A} {w : Write A}
    (h : act d s call x = some (call', w)) : Acts d s call x call' w := by
  unfold act at h
  split at h
  case h_2 op a =>
    split at h
    · cases h
    · rename_i hop
      cases h
      exact .refuse a hop
  case h_3 op a =>
    obtain ⟨seen, hseen, hcall⟩ := Option.map_eq_some_iff.mp h
    cases hcall
    exact .look hseen
  case h_4 count a =>
    split at h
    · rename_i hcount
      cases h
      exact .setPreview a hcount
    · cases h
  case h_7 listing a b =>
    split at h
    · rename_i hb
      cases h
      cases hb
      exact .get listing a
    · cases h
  case h_11 a b =>
    split at h
    · rename_i hb
      cases h
      cases hb
      exact .post a
    · cases h
  case h_16 => cases h
  all_goals
    cases h
    constructor

theorem step_act {c : ℕ} {x : Action A} (h : step d s (.act c x) = some s') :
    ∃ call w, Acts d s (s.calls c) x call w ∧ s' = (s.apply w).setCall c call := by
  obtain ⟨⟨call, w⟩, hact, hs⟩ := Option.map_eq_some_iff.mp h
  exact ⟨call, w, acts_of_act hact, hs.symm⟩

@[simp]
theorem calls_apply (s : State A) (w : Write A) : (s.apply w).calls = s.calls := by
  cases w <;> rfl

@[simp]
theorem now_apply (s : State A) (w : Write A) : (s.apply w).now = s.now := by
  cases w <;> rfl

end Steps

@[simp]
theorem setCall_self (s : State A) (c : ℕ) (call : Call A) : (s.setCall c call).calls c = call :=
  Function.update_self ..

theorem setCall_other {c c' : ℕ} (h : c' ≠ c) (s : State A) (call : Call A) :
    (s.setCall c call).calls c' = s.calls c' := Function.update_of_ne h ..

/-! ## Where the metadata come from -/

def ticks (log : List (Label A)) : ℤ :=
  (log.map fun | .tick n => (n : ℤ) | .act _ _ => 0).sum

def At (l : Label A) (t : ℤ) (log : List (Label A)) : Prop := ∃ x y, log = x ++ l :: y ∧ ticks x = t

def Fetched (d : Decoding) (a : A) (c : ℕ) (m : ResetCreditMetadata) (log : List (Label A)) : Prop :=
  ∃ payload x y z, log = x ++ .act c (.get a) :: (y ++ .act c (.got (some payload)) :: z) ∧
    decodeResetCreditMetadata d payload = some m

def unknown : ResetCreditMetadata := ⟨false, 0, none⟩

def Sourced (d : Decoding) (a : A) (c : ℕ) (m : ResetCreditMetadata) (log : List (Label A)) : Prop :=
  m = unknown ∨ Fetched d a c m log

def lifetime (m : ResetCreditMetadata) : ℤ :=
  if m.known then resetCreditsCacheTTL else resetCreditsErrorTTL

/-- The call has fetched the metadata itself, or they were not too old when it took the time. -/
def Fresh (d : Decoding) (a : A) (c : ℕ) (m : ResetCreditMetadata) (log : List (Label A)) : Prop :=
  ∃ c' t, Sourced d a c' m log ∧ At (.act c' .store) t log ∧
    (c' = c ∨ ∃ now, At (.act c .time) now log ∧ now < t + lifetime m)

/-- When the call looked, the preview of the account had so many resets. -/
def Looked [DecidableEq A] (d : Decoding) (base : State A) (a : A) (c : ℕ) (count : ℤ)
    (log : List (Label A)) : Prop :=
  ∃ before after s, log = before ++ .act c .look :: after ∧ Runs (Fires (step d)) base before s ∧
    s.resetPreviews a = some count

/-- What routing is told is the preview it has seen, or it has come from the endpoint. -/
def Routed [DecidableEq A] (d : Decoding) (base : State A) (a : A) (c : ℕ) (m : ResetCreditMetadata)
    (log : List (Label A)) : Prop :=
  (∃ count, Looked d base a c count log ∧ m = ⟨true, count, none⟩) ∨ Fresh d a c m log

variable {d : Decoding} {a : A} {m : ResetCreditMetadata} {log : List (Label A)} {l : Label A} {c : ℕ}
  {base : State A}

theorem ticks_concat (log : List (Label A)) (l : Label A) : ticks (log ++ [l]) = ticks log + ticks [l] := by
  simp [ticks]

theorem At.concat {l' : Label A} {t : ℤ} (h : At l t log) : At l t (log ++ [l']) := by
  obtain ⟨x, y, rfl, ht⟩ := h
  exact ⟨x, y ++ [l'], by simp, ht⟩

theorem at_last (l : Label A) (log : List (Label A)) : At l (ticks log) (log ++ [l]) := ⟨log, [], rfl, rfl⟩

theorem Fetched.concat (h : Fetched d a c m log) : Fetched d a c m (log ++ [l]) := by
  obtain ⟨payload, x, y, z, rfl, hm⟩ := h
  exact ⟨payload, x, y, z ++ [l], by simp, hm⟩

theorem Sourced.concat (h : Sourced d a c m log) : Sourced d a c m (log ++ [l]) :=
  h.imp_right Fetched.concat

theorem Fresh.concat (h : Fresh d a c m log) : Fresh d a c m (log ++ [l]) := by
  obtain ⟨c', t, hsource, hstore, htime⟩ := h
  refine ⟨c', t, hsource.concat, hstore.concat, htime.imp_right ?_⟩
  rintro ⟨now, hnow, hlt⟩
  exact ⟨now, hnow.concat, hlt⟩

section Steps
variable [DecidableEq A]

theorem Looked.concat {count : ℤ} (h : Looked d base a c count log) :
    Looked d base a c count (log ++ [l]) := by
  obtain ⟨before, after, s, rfl, hrun, hcount⟩ := h
  exact ⟨before, after ++ [l], s, by simp, hrun, hcount⟩

theorem looked_last {s : State A} {count : ℤ} (hrun : Runs (Fires (step d)) base log s)
    (hcount : s.resetPreviews a = some count) : Looked d base a c count (log ++ [.act c .look]) :=
  ⟨log, [], s, rfl, hrun, hcount⟩

theorem Routed.concat (h : Routed d base a c m log) : Routed d base a c m (log ++ [l]) := by
  refine h.imp ?_ Fresh.concat
  rintro ⟨count, hlooked, hm⟩
  exact ⟨count, hlooked.concat, hm⟩

end Steps

/-! ## The calls of one account -/

/-- A request for the account was sent, and what it brings is not in the cache yet. -/
def UnderWay (a : A) : Call A → Prop
  | .waiting _ b => b = a
  | .storing b _ _ _ => b = a
  | _ => False

/-- What is known of a call that has come to this point after the steps of the log. -/
def Traced [DecidableEq A] (d : Decoding) (a : A) (base : State A) (log : List (Label A)) (c : ℕ) :
    Call A → Prop
  | .waiting _ b => b = a → .act c (.get a) ∈ log
  | .storing b m ttl result => b = a →
      Sourced d a c m log ∧ ttl = lifetime m ∧ ∀ m', result = .metadata m' → m' = m
  | .timed b now => b = a → base.calls c = .idle → ∃ t, At (.act c .time) t log ∧ now = base.now + t
  | .clearing b result => b = a → base.calls c = .idle → ∀ m, result ≠ .metadata m
  | .done b result => b = a → base.calls c = .idle → ∀ m, result = .metadata m → Routed d base a c m log
  | _ => True

def Cached (d : Decoding) (a : A) (base : State A) (log : List (Label A)) (entry : CacheEntry) : Prop :=
  ∃ c t, Sourced d a c entry.metadata log ∧ At (.act c .store) t log ∧
    entry.expiresAt = base.now + t + lifetime entry.metadata

structure Trace [DecidableEq A] (d : Decoding) (a : A) (base : State A) (log : List (Label A))
    (s : State A) : Prop where
  run : Runs (Fires (step d)) base log s
  clock : s.now = base.now + ticks log
  calls : ∀ c, Traced d a base log c (s.calls c)
  cache : ∀ entry, s.resetCreditsCache a = some entry → Cached d a base log entry

theorem Cached.concat {entry : CacheEntry} (h : Cached d a base log entry) :
    Cached d a base (log ++ [l]) entry := by
  obtain ⟨c, t, hsource, ht, hexpires⟩ := h
  exact ⟨c, t, hsource.concat, ht.concat, hexpires⟩

/-- No request for the account is under way, and its metadata are not in the cache. -/
structure Quiet (a : A) (s : State A) : Prop where
  calls : ∀ c, ¬UnderWay a (s.calls c)
  cache : s.resetCreditsCache a = none

theorem cache_apply [DecidableEq A] {s : State A} {w : Write A} {entry : CacheEntry}
    (h : (s.apply w).resetCreditsCache a = some entry) :
    s.resetCreditsCache a = some entry ∨ w = .cache a (some entry) := by
  cases w with
  | keep => exact .inl h
  | preview b count => exact .inl h
  | cache b written =>
    change Function.update s.resetCreditsCache b written a = some entry at h
    by_cases hb : a = b
    · subst hb
      rw [Function.update_self] at h
      exact .inr (h ▸ rfl)
    · rw [Function.update_of_ne hb] at h
      exact .inl h

section Steps
variable [DecidableEq A] {s s' : State A}

theorem Traced.concat {call : Call A} (h : Traced d a base log c call) :
    Traced d a base (log ++ [l]) c call := by
  cases call with
  | waiting listing b => exact fun hb => List.mem_append_left _ (h hb)
  | storing b m ttl result => exact fun hb => ⟨(h hb).1.concat, (h hb).2⟩
  | timed b now =>
    intro hb hidle
    obtain ⟨t, ht, hnow⟩ := h hb hidle
    exact ⟨t, ht.concat, hnow⟩
  | clearing b result => exact h
  | done b result => exact fun hb hidle m hm => (h hb hidle m hm).concat
  | _ => trivial

theorem traced_received {x : Action A} {answer : Option GoString} {b : A}
    (hanswer : ∀ payload, answer = some payload → x = .got answer ∧ (b = a → .act c (.get a) ∈ log))
    (listing : Bool) : Traced d a base (log ++ [.act c x]) c (received d b answer listing) := by
  have hfetched : ∀ payload m, answer = some payload → decodeResetCreditMetadata d payload = some m →
      b = a → Fetched d a c m (log ++ [.act c x]) := by
    intro payload m hpayload hm hb
    obtain ⟨rfl, hget⟩ := hanswer payload hpayload
    obtain ⟨before, after, rfl⟩ := List.append_of_mem (hget hb)
    exact ⟨payload, before, after, [], by simp [hpayload], hm⟩
  have hlifetime : ∀ {payload m}, decodeResetCreditMetadata d payload = some m →
      resetCreditsCacheTTL = lifetime m := by
    intro payload m hm
    obtain ⟨-, -, -, -, hknown, -⟩ := decodeResetCreditMetadata_iff.mp hm
    rw [lifetime, if_pos hknown]
  cases listing with
  | false =>
    unfold received
    dsimp only
    split
    · rename_i m hm
      obtain ⟨payload, hpayload, hm⟩ := Option.bind_eq_some_iff.mp hm
      intro hb
      refine ⟨.inr (hfetched payload m hpayload hm hb), hlifetime hm, fun m' hm' => ?_⟩
      cases hm'
      rfl
    · intro hb
      refine ⟨.inl rfl, rfl, fun m' hm' => ?_⟩
      cases hm'
      rfl
  | true =>
    unfold received
    dsimp only
    split
    · intro _ _ m hm
      cases hm
    · rename_i payload
      split
      · rename_i m hm
        intro hb
        refine ⟨.inr (hfetched payload m rfl hm hb), hlifetime hm, fun m' hm' => ?_⟩
        cases hm'
      · intro _ _ m hm
        cases hm

theorem Quiet.trace (h : Quiet a base) : Trace d a base [] base where
  run := .refl _
  clock := by simp [ticks]
  calls := fun c => by
    have hquiet := h.calls c
    generalize hcall : base.calls c = call at hquiet
    cases call with
    | waiting listing b => exact fun hb => absurd hb hquiet
    | storing b m ttl result => exact fun hb => absurd hb hquiet
    | timed b now => exact fun _ hidle => by cases hcall.symm.trans hidle
    | clearing b result => exact fun _ hidle => by cases hcall.symm.trans hidle
    | done b result => exact fun _ hidle => by cases hcall.symm.trans hidle
    | _ => trivial
  cache := fun entry hentry => by cases h.cache.symm.trans hentry

theorem traced_look {op : Operation} {b : A} {call : Call A} (hrun : Runs (Fires (step d)) base log s)
    (hlook : look b op (s.resetPreviews b) = some call) :
    Traced d a base (log ++ [.act c .look]) c call := by
  cases hpreview : s.resetPreviews b with
  | none =>
    rw [hpreview] at hlook
    cases op <;> cases hlook <;> trivial
  | some count =>
    rw [hpreview] at hlook
    cases op with
    | routing =>
      cases hlook
      rintro rfl - m hm
      cases hm
      exact .inl ⟨count, looked_last hrun hpreview, rfl⟩
    | listing =>
      cases hlook
      intro _ _ m hm
      cases hm
    | consume =>
      obtain rfl := Option.some.inj hlook
      split
      · intro _ _ m hm
        cases hm
      · trivial
    | setPreview n => cases hlook

theorem traced_read {b : A} {now : ℤ} (h : Trace d a base log s)
    (hcall : Traced d a base log c (.timed b now)) :
    Traced d a base (log ++ [.act c .read]) c (lookup b now (s.resetCreditsCache b)) := by
  unfold lookup
  split
  · rename_i entry hentry
    split
    · rename_i hlt
      rintro rfl hidle m hm
      cases hm
      obtain ⟨c', t, hsource, hstore, hexpires⟩ := h.cache entry hentry
      obtain ⟨t', htime, hnow⟩ := hcall rfl hidle
      refine .inr ⟨c', t, hsource.concat, hstore.concat, .inr ⟨t', htime.concat, ?_⟩⟩
      omega
    · trivial
  · trivial

theorem traced_store {b : A} {ttl : ℤ} {result : Result}
    (hcall : Traced d a base log c (.storing b m ttl result)) :
    Traced d a base (log ++ [.act c .store]) c (.done b result) := by
  rintro rfl - m' hm'
  obtain ⟨hsource, -, hresult⟩ := hcall rfl
  obtain rfl := hresult m' hm'
  exact .inr ⟨c, ticks log, hsource.concat, at_last _ log, .inl rfl⟩

theorem traced_of_acts (h : Trace d a base log s) {call : Call A} {x : Action A} {w : Write A}
    (hact : Acts d s (s.calls c) x call w) : Traced d a base (log ++ [.act c x]) c call := by
  have hcall := h.calls c
  generalize s.calls c = before at hact hcall
  have hother : ∀ {b : A} {result : Result}, (∀ m, result ≠ .metadata m) →
      Traced d a base (log ++ [.act c x]) c (.done b result) :=
    fun hresult _ _ m hm => absurd hm (hresult m)
  cases hact with
  | enter op b => trivial
  | refuse b hop => exact hother (by simp)
  | look hlook => exact traced_look h.run hlook
  | setPreview b hcount =>
    intro _ _ m hm
    cases hm
  | time b => exact fun _ _ => ⟨ticks log, at_last _ log, h.clock⟩
  | read b now => exact traced_read h hcall
  | get listing b =>
    rintro rfl
    simp
  | lose listing b =>
    exact traced_received (fun payload hpayload => by cases hpayload) listing
  | got listing b answer => exact traced_received (fun payload hpayload => ⟨rfl, hcall⟩) listing
  | store b m ttl result => exact traced_store hcall
  | post b => trivial
  | losePost b => exact hother (by simp)
  | posted b accepted =>
    cases accepted with
    | false => exact hother (by simp)
    | true =>
      intro _ _ m hm
      cases hm
  | spend b count => exact hother (by simp)
  | clear b result => exact fun hb hidle m hm => absurd hm (hcall hb hidle m)

theorem Trace.step (h : Trace d a base log s) (hstep : step d s l = some s') :
    Trace d a base (log ++ [l]) s' := by
  cases l with
  | tick n =>
    have hrun := h.run.tail hstep
    cases hstep
    refine ⟨hrun, ?_, fun c => (h.calls c).concat, fun entry hentry => (h.cache entry hentry).concat⟩
    rw [ticks_concat, ← add_assoc, ← h.clock]
    simp [ticks]
  | act c x =>
    have hrun := h.run.tail hstep
    obtain ⟨call, w, hact, rfl⟩ := step_act hstep
    refine ⟨hrun, ?_, fun c' => ?_, fun entry hentry => ?_⟩
    · have hnow : (s.apply w).now = base.now + ticks log := (now_apply s w).trans h.clock
      exact hnow.trans (by simp [ticks])
    · by_cases hc : c' = c
      · subst hc
        rw [setCall_self]
        exact traced_of_acts h hact
      · rw [setCall_other hc, calls_apply]
        exact (h.calls c').concat
    · rcases cache_apply hentry with hentry | rfl
      · exact (h.cache entry hentry).concat
      · have hcall := h.calls c
        generalize s.calls c = before at hact hcall
        cases hact with
        | store b m ttl result =>
          obtain ⟨hsource, rfl, -⟩ := hcall rfl
          refine ⟨c, ticks log, hsource.concat, at_last _ log, ?_⟩
          rw [← h.clock]

theorem Quiet.trace_of_runs (h : Quiet a base) (hrun : Runs (Fires (step d)) base log s) :
    Trace d a base log s := by
  induction hrun with
  | refl => exact h.trace
  | tail _ last ih => exact ih.step last

/-- What routing is told is the preview it has seen, or it has come from the endpoint for the same
account and was not too old. -/
theorem metadata_of_runs {now : ℤ} {log : List (Label A)} {c : ℕ} {m : ResetCreditMetadata}
    (hrun : Runs (Fires (step d)) (start now) log s) (hdone : s.calls c = .done a (.metadata m)) :
    Routed d (start now) a c m log := by
  have hquiet : Quiet a (start now) := ⟨fun _ => id, rfl⟩
  have hcall := (hquiet.trace_of_runs hrun).calls c
  rw [hdone] at hcall
  exact hcall rfl rfl m rfl

def twoResets : GoString := lit "\x7b\"available_count\":2\x7d"

def sampleDecoding : Decoding where
  unmarshal := fun payload => if payload = twoResets then some ⟨some 2, none, []⟩ else none
  parseTime := fun _ => none

def cachedRun : List (Label ℕ) :=
  [.act 0 (.enter .listing 7), .act 0 .look, .act 0 (.get 7), .act 0 (.got (some twoResets)),
    .act 0 .store, .tick 60000000000, .act 1 (.enter .routing 7), .act 1 .look, .act 1 .time, .act 1 .read]

theorem metadata_of_cachedRun : ∃ s, Runs (Fires (step sampleDecoding)) (start 0) cachedRun s ∧
    Routed sampleDecoding (start 0) 7 1 ⟨true, 2, none⟩ cachedRun := by
  obtain ⟨s, hrun, hdone⟩ := @runs_of_exec_any _ _ (step sampleDecoding) (start 0) cachedRun
    (fun s => s.calls 1 = .done 7 (.metadata ⟨true, 2, none⟩)) (by decide +kernel)
  exact ⟨s, hrun, metadata_of_runs hrun (of_decide_eq_true hdone)⟩

/-- What was asked for before a redemption is not used after it. -/
theorem metadata_after_clear {log : List (Label A)} {c c' : ℕ} {m : ResetCreditMetadata} {result : Result}
    (hclearing : base.calls c' = .clearing a result) (hcalls : ∀ c, ¬UnderWay a (base.calls c))
    (hclear : step d base (.act c' .clear) = some s) (hrun : Runs (Fires (step d)) s log s')
    (hidle : s.calls c = .idle) (hdone : s'.calls c = .done a (.metadata m)) :
    Routed d s a c m log := by
  have hquiet : Quiet a s := by
    obtain ⟨call, w, hact, rfl⟩ := step_act hclear
    rw [hclearing] at hact
    cases hact
    constructor
    · intro c
      by_cases hc : c = c'
      · subst hc
        rw [setCall_self]
        exact id
      · rw [setCall_other hc, calls_apply]
        exact hcalls c
    · change Function.update base.resetCreditsCache a none a = none
      exact Function.update_self ..
  have hcall := (hquiet.trace_of_runs hrun).calls c
  rw [hdone] at hcall
  exact hcall rfl hidle m rfl

/-- A redemption has been answered, and its answer has been read. -/
def redeemedState : State ℕ where
  now := 0
  resetCreditsCache := fun _ => some ⟨⟨true, 3, none⟩, resetCreditsCacheTTL⟩
  resetPreviews := fun _ => none
  calls := fun c => if c = 0 then .clearing 7 .redeemed else .idle

def askedAgain : List (Label ℕ) :=
  [.act 1 (.enter .routing 7), .act 1 .look, .act 1 .time, .act 1 .read, .act 1 (.get 7),
    .act 1 (.got (some twoResets)), .act 1 .store]

theorem metadata_after_clear_redeemed : ∃ s s', step sampleDecoding redeemedState (.act 0 .clear) = some s ∧
    Runs (Fires (step sampleDecoding)) s askedAgain s' ∧
    Routed sampleDecoding s 7 1 ⟨true, 2, none⟩ askedAgain := by
  obtain ⟨s', hrun, hdone⟩ := @runs_of_exec_any _ _ (step sampleDecoding)
    ((redeemedState.apply (.cache 7 none)).setCall 0 (.done 7 .redeemed)) askedAgain
    (fun s => s.calls 1 = .done 7 (.metadata ⟨true, 2, none⟩)) (by decide +kernel)
  have hclear : step sampleDecoding redeemedState (.act 0 .clear) =
      some ((redeemedState.apply (.cache 7 none)).setCall 0 (.done 7 .redeemed)) := rfl
  have hclearing : redeemedState.calls 0 = .clearing 7 .redeemed := rfl
  refine ⟨_, s', hclear, hrun, metadata_after_clear hclearing (fun c => ?_) hclear hrun rfl
    (of_decide_eq_true hdone)⟩
  change ¬UnderWay 7 (if c = 0 then .clearing 7 .redeemed else .idle)
  split <;> exact id

end Steps

/-! ## Previews -/

def Bounded (count : ℤ) : Prop := 0 ≤ count ∧ count ≤ 100

def Affordable : Call A → Prop
  | .spending _ count => 0 < count ∧ count ≤ 100
  | _ => True

structure Previews (s : State A) : Prop where
  previews : ∀ a count, s.resetPreviews a = some count → Bounded count
  calls : ∀ c, Affordable (s.calls c)

theorem affordable_received (b : A) (answer : Option GoString) (listing : Bool) :
    Affordable (received d b answer listing) := by
  cases listing with
  | false =>
    unfold received
    dsimp only
    split <;> trivial
  | true =>
    unfold received
    dsimp only
    split
    · trivial
    · split <;> trivial

theorem affordable_of_acts {x : Action A} {w : Write A} {call : Call A} {s : State A}
    (h : Previews s)
    (hact : Acts d s (s.calls c) x call w) : Affordable call := by
  generalize s.calls c = before at hact
  cases hact with
  | @look op b call hlook =>
    cases op with
    | consume =>
      cases hpreview : s.resetPreviews b with
      | none =>
        rw [hpreview] at hlook
        cases hlook
        trivial
      | some count =>
        rw [hpreview] at hlook
        obtain rfl := Option.some.inj hlook
        split
        · trivial
        · rename_i hcount
          exact ⟨not_le.mp hcount, (h.previews b count hpreview).2⟩
    | setPreview count => cases hlook
    | _ =>
      generalize s.resetPreviews b = preview at hlook
      cases preview <;> cases hlook <;> trivial
  | read b now =>
    unfold lookup
    split
    · split <;> trivial
    · trivial
  | lose listing b => exact affordable_received b none listing
  | got listing b answer => exact affordable_received b answer listing
  | posted b accepted => cases accepted <;> trivial
  | _ => trivial

section Steps
variable [DecidableEq A] {s s' : State A}

/-- The call has left the preview of the account with so many resets. -/
def Spent (d : Decoding) (base : State A) (a : A) (c : ℕ) (count : ℤ) (log : List (Label A)) : Prop :=
  ∃ before after s, log = before ++ .act c .write :: after ∧
    Runs (Fires (step d)) base (before ++ [.act c .write]) s ∧ s.resetPreviews a = some count

/-- An answer that the call has made from the preview it has seen. -/
def Simulated (d : Decoding) (base : State A) (a : A) (c : ℕ) (log : List (Label A)) : Result → Prop
  | .metadata m => ∃ count, Looked d base a c count log ∧ Bounded count ∧ m = ⟨true, count, none⟩
  | .previewed count => Looked d base a c count log ∧ Bounded count
  | .noCredit => Looked d base a c 0 log
  | .reset => ∃ count, Looked d base a c count log ∧ 0 < count ∧ count ≤ 100 ∧
      Spent d base a c (count - 1) log
  | .payload _ | .redeemed => False
  | .accepted | .failed => True

/-- The call does not go to the endpoint for the account. -/
def Local (d : Decoding) (base : State A) (a : A) (c : ℕ) (log : List (Label A)) : Call A → Prop
  | .unpreviewed b => b ≠ a
  | .timed b _ => b ≠ a
  | .fetching _ b => b ≠ a
  | .waiting _ b => b ≠ a
  | .storing b _ _ _ => b ≠ a
  | .posting b => b ≠ a
  | .redeeming b => b ≠ a
  | .spending b count => b = a → Looked d base a c count log
  | .clearing b result => b = a → result = .accepted
  | .done b result => b = a → Simulated d base a c log result
  | _ => True

theorem Spent.concat {count : ℤ} (h : Spent d base a c count log) :
    Spent d base a c count (log ++ [l]) := by
  obtain ⟨before, after, s, rfl, hrun, hcount⟩ := h
  exact ⟨before, after ++ [l], s, by simp, hrun, hcount⟩

theorem Simulated.concat {result : Result} (h : Simulated d base a c log result) :
    Simulated d base a c (log ++ [l]) result := by
  cases result with
  | metadata m =>
    obtain ⟨count, hlooked, hrest⟩ := h
    exact ⟨count, hlooked.concat, hrest⟩
  | payload payload => exact h
  | previewed count => exact ⟨h.1.concat, h.2⟩
  | reset =>
    obtain ⟨count, hlooked, hpos, hle, hspent⟩ := h
    exact ⟨count, hlooked.concat, hpos, hle, hspent.concat⟩
  | noCredit => exact Looked.concat h
  | redeemed => exact h
  | accepted => trivial
  | failed => trivial

theorem Local.concat {call : Call A} (h : Local d base a c log call) :
    Local d base a c (log ++ [l]) call := by
  cases call with
  | spending b count => exact fun hb => (h hb).concat
  | done b result => exact fun hb => (h hb).concat
  | _ => exact h

theorem local_done {b : A} (hb : b ≠ a) (result : Result) : Local d base a c log (.done b result) :=
  fun hb' => absurd hb' hb

theorem local_received {b : A} (hb : b ≠ a) (answer : Option GoString) (listing : Bool) :
    Local d base a c log (received d b answer listing) := by
  cases listing with
  | false =>
    unfold received
    dsimp only
    split
    · exact hb
    · exact hb
  | true =>
    unfold received
    dsimp only
    split
    · exact local_done hb _
    · split
      · exact hb
      · exact local_done hb _

theorem local_look_other {op : Operation} {b : A} {call : Call A} {preview : Option ℤ} (hb : b ≠ a)
    (hlook : look b op preview = some call) : Local d base a c log call := by
  cases preview with
  | none => cases op <;> cases hlook <;> exact hb
  | some count =>
    cases op with
    | routing =>
      cases hlook
      exact local_done hb _
    | listing =>
      cases hlook
      exact local_done hb _
    | consume =>
      obtain rfl := Option.some.inj hlook
      split
      · exact local_done hb _
      · exact fun hb' => absurd hb' hb
    | setPreview n => cases hlook

/-- A call that looks and finds a preview answers from it. -/
theorem local_look {op : Operation} {call : Call A} {count : ℤ}
    (hrun : Runs (Fires (step d)) base log s) (hcount : s.resetPreviews a = some count)
    (hbound : Bounded count) (hlook : look a op (s.resetPreviews a) = some call) :
    Local d base a c (log ++ [.act c .look]) call := by
  have hlooked : Looked d base a c count (log ++ [.act c .look]) := looked_last hrun hcount
  rw [hcount] at hlook
  cases op with
  | routing =>
    cases hlook
    exact fun _ => ⟨count, hlooked, hbound, rfl⟩
  | listing =>
    cases hlook
    exact fun _ => ⟨hlooked, hbound⟩
  | consume =>
    obtain rfl := Option.some.inj hlook
    split
    · rename_i hle
      obtain rfl := le_antisymm hle hbound.1
      exact fun _ => hlooked
    · exact fun _ => hlooked
  | setPreview n => cases hlook

theorem Previews.step (h : Previews s) (hstep : step d s l = some s') : Previews s' := by
  cases l with
  | tick n =>
    cases hstep
    exact ⟨h.previews, h.calls⟩
  | act c x =>
    obtain ⟨call, w, hact, rfl⟩ := step_act hstep
    refine ⟨fun b count hcount => ?_, fun c' => ?_⟩
    · have hbefore := h.calls c
      generalize s.calls c = before at hact hbefore
      cases w with
      | keep => exact h.previews b count hcount
      | cache b' entry => exact h.previews b count hcount
      | preview b' written =>
        change Function.update s.resetPreviews b' (some written) b = some count at hcount
        by_cases hb : b = b'
        · subst hb
          rw [Function.update_self] at hcount
          obtain rfl := Option.some.inj hcount
          cases hact with
          | setPreview _ hbound => exact hbound
          | spend _ n =>
            obtain ⟨hpos, hle⟩ := hbefore
            constructor <;> omega
        · rw [Function.update_of_ne hb] at hcount
          exact h.previews b count hcount
    · by_cases hc : c' = c
      · subst hc
        rw [setCall_self]
        exact affordable_of_acts h hact
      · rw [setCall_other hc, calls_apply]
        exact h.calls c'

/-- A redemption writes the preview it has seen, less one. -/
theorem local_spend {b : A} {count : ℤ} {call : Call A} {w : Write A}
    (hrun : Runs (Fires (step d)) base (log ++ [.act c .write]) ((s.apply w).setCall c call))
    (hw : w = .preview b (count - 1)) (haffordable : Affordable (.spending b count))
    (hlocal : Local d base a c log (.spending b count)) :
    Local d base a c (log ++ [.act c .write]) (.done b .reset) := by
  rintro rfl
  refine ⟨count, (hlocal rfl).concat, haffordable.1, haffordable.2, log, [], _, rfl, hrun, ?_⟩
  rw [hw]
  exact Function.update_self ..

theorem local_of_acts {x : Action A} {w : Write A} {call : Call A} (h : Previews s)
    (hrun : Runs (Fires (step d)) base log s)
    (hnext : Runs (Fires (step d)) base (log ++ [.act c x]) ((s.apply w).setCall c call))
    (hpreview : (s.resetPreviews a).isSome) (hlocal : Local d base a c log (s.calls c))
    (hact : Acts d s (s.calls c) x call w) : Local d base a c (log ++ [.act c x]) call := by
  have haffordable := h.calls c
  generalize s.calls c = before at hact hlocal haffordable
  cases hact with
  | enter op b => trivial
  | refuse b hop => exact fun _ => trivial
  | @look op b call hlook =>
    by_cases hb : b = a
    · subst hb
      obtain ⟨count, hcount⟩ := Option.isSome_iff_exists.mp hpreview
      exact local_look hrun hcount (h.previews b count hcount) hlook
    · exact local_look_other hb hlook
  | setPreview b hcount => exact fun _ => rfl
  | time b => exact hlocal
  | read b now =>
    unfold lookup
    split
    · split
      · exact local_done hlocal _
      · exact hlocal
    · exact hlocal
  | get listing b => exact hlocal
  | lose listing b => exact local_received hlocal none listing
  | got listing b answer => exact local_received hlocal answer listing
  | store b m ttl result => exact local_done hlocal _
  | post b => exact hlocal
  | losePost b => exact local_done hlocal _
  | posted b accepted =>
    split
    · exact fun hb => absurd hb hlocal
    · exact local_done hlocal _
  | spend b count => exact local_spend hnext rfl haffordable hlocal
  | clear b result =>
    intro hb
    rw [hlocal hb]
    trivial

theorem not_sent {x : Action A} {w : Write A} {call call' : Call A} (hlocal : Local d base a c log call)
    (hact : Acts d s call x call' w) : x ≠ .get a ∧ x ≠ .post a := by
  constructor
  · rintro rfl
    cases hact with
    | get listing b => exact hlocal rfl
  · rintro rfl
    cases hact with
    | post b => exact hlocal rfl

structure Shielded (d : Decoding) (a : A) (base : State A) (log : List (Label A)) (s : State A) : Prop where
  run : Runs (Fires (step d)) base log s
  previews : Previews s
  preview : (s.resetPreviews a).isSome
  calls : ∀ c, base.calls c = .idle → Local d base a c log (s.calls c)
  requests : ∀ c, base.calls c = .idle → .act c (.get a) ∉ log ∧ .act c (.post a) ∉ log

theorem isSome_apply (w : Write A) (h : (s.resetPreviews a).isSome) :
    ((s.apply w).resetPreviews a).isSome := by
  cases w with
  | keep => exact h
  | cache b entry => exact h
  | preview b count =>
    by_cases hb : a = b
    · subst hb
      simp [State.apply]
    · simpa [State.apply, Function.update_of_ne hb] using h

theorem Shielded.step (h : Shielded d a base log s) (hstep : step d s l = some s') :
    Shielded d a base (log ++ [l]) s' := by
  have hpreviews := h.previews.step hstep
  have hrun := h.run.tail hstep
  cases l with
  | tick n =>
    cases hstep
    exact ⟨hrun, hpreviews, h.preview, fun c hidle => (h.calls c hidle).concat,
      fun c hidle => by simpa using h.requests c hidle⟩
  | act c x =>
    obtain ⟨call, w, hact, rfl⟩ := step_act hstep
    refine ⟨hrun, hpreviews, isSome_apply w h.preview, fun c' hidle => ?_, fun c' hidle => ?_⟩
    · by_cases hc : c' = c
      · subst hc
        rw [setCall_self]
        exact local_of_acts h.previews h.run hrun h.preview (h.calls c' hidle) hact
      · rw [setCall_other hc, calls_apply]
        exact (h.calls c' hidle).concat
    · obtain ⟨hget, hpost⟩ := h.requests c' hidle
      simp only [List.mem_append, List.mem_singleton, Label.act.injEq, hget, hpost, false_or]
      by_cases hc : c' = c
      · subst hc
        obtain ⟨hget, hpost⟩ := not_sent (h.calls c' hidle) hact
        exact ⟨fun hx => hget hx.2.symm, fun hx => hpost hx.2.symm⟩
      · exact ⟨fun hx => hc hx.1, fun hx => hc hx.1⟩

/-- Once an account has a preview, nothing that begins is sent to the endpoint for it, and what is
answered is what the call has seen in the preview. -/
theorem preview_shields {now : ℤ} {log log' : List (Label A)}
    (hbefore : Runs (Fires (step d)) (start now) log base) (hpreview : (base.resetPreviews a).isSome)
    (hrun : Runs (Fires (step d)) base log' s) :
    (∃ count, s.resetPreviews a = some count ∧ Bounded count) ∧
      ∀ c, base.calls c = .idle → (.act c (.get a) ∉ log' ∧ .act c (.post a) ∉ log') ∧
        ∀ result, s.calls c = .done a result → Simulated d base a c log' result := by
  have hpreviews : Previews base := by
    refine hbefore.invariant (I := Previews) ?_ fun _ _ _ h hstep => h.step hstep
    exact ⟨fun b count hcount => (by cases hcount), fun c => trivial⟩
  have hshielded : Shielded d a base log' s := by
    induction hrun with
    | refl =>
      refine ⟨.refl _, hpreviews, hpreview, fun c hidle => ?_, fun c hidle => by simp⟩
      rw [hidle]
      trivial
    | tail _ last ih => exact ih.step last
  refine ⟨?_, fun c hidle => ⟨hshielded.requests c hidle, fun result hdone => ?_⟩⟩
  · obtain ⟨count, hcount⟩ := Option.isSome_iff_exists.mp hshielded.preview
    exact ⟨count, hcount, hshielded.previews.previews a count hcount⟩
  · have hcall := hshielded.calls c hidle
    rw [hdone] at hcall
    exact hcall rfl

def previewSet : List (Label ℕ) :=
  [.act 0 (.enter (.setPreview 1) 7), .act 0 .write, .act 0 .clear]

def previewRedeemed : List (Label ℕ) := [.act 1 (.enter .consume 7), .act 1 .look, .act 1 .write]

theorem preview_shields_redeemed : ∃ base s, Runs (Fires (step sampleDecoding)) (start 0) previewSet base ∧
    Runs (Fires (step sampleDecoding)) base previewRedeemed s ∧
    Simulated sampleDecoding base 7 1 previewRedeemed .reset := by
  obtain ⟨s, hrun, hover⟩ := @runs_of_exec_any _ _ (step sampleDecoding) (start 0)
    (previewSet ++ previewRedeemed) (fun s => s.calls 1 = .done 7 .reset) (by decide +kernel)
  obtain ⟨base, hbefore, hafter⟩ := hrun.of_append
  have hbase := exec_of_runs hbefore
  have hset : (exec (step sampleDecoding) (start 0) previewSet).any fun s =>
      (s.resetPreviews 7).isSome && s.calls 1 = .idle := by
    decide +kernel
  rw [hbase, Option.any_some, Bool.and_eq_true] at hset
  obtain ⟨hpreview, hidle⟩ := hset
  exact ⟨base, s, hbefore, hafter, ((preview_shields hbefore hpreview hafter).2 1
    (of_decide_eq_true hidle)).2 .reset (of_decide_eq_true hover)⟩

end Steps

end SubscriptionRouter.ResetCredits
