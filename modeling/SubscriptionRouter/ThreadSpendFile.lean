import Mathlib
import SubscriptionRouter.JsonSize
import SubscriptionRouter.Rfc3339
import SubscriptionRouter.StateFile
import SubscriptionRouter.ThreadSpending

set_option autoImplicit false

/-!
# The sidecar file of a thread

`SaveThreadSpend` writes the record of a thread into a file of its own, and `ThreadSpend` reads
it back under checks of its own. A time is an instant with the offset of a zone; the reader
gives the instant.
-/
namespace SubscriptionRouter.ThreadSpendFile
open GoText JsonText JsonRoundTrip JsonSize Messages Rfc3339 StateFile StoreOpen StoreState ThreadSpending

/-! ## Writing -/

def encodeThreadSpend (r : ThreadSpend) (acceptedAt : GoString) : Json :=
  .object [(lit "version", .number (lit "1")), (lit "threadId", .string r.threadID),
    (lit "accountId", .string r.accountID), (lit "accountLabel", .string r.accountLabel),
    (lit "sequence", .number (itoaNat r.sequence)), (lit "acceptedAt", .string acceptedAt)]

/-- What is written for a record whose time is in a zone; a time may not be encoded. -/
def threadSpendContents (r : ThreadSpend) (offset : ℤ) : Option GoString :=
  (marshalTime r.acceptedAt offset).map fun text => marshal (encodeThreadSpend r text) ++ lit "\n"

/-- The files under the root, the digest that names them, and the parser of times that is tried
where `parseRFC3339` fails. -/
structure Sidecars where
  files : GoMap GoString
  sha256 : GoString → List UInt8
  parseTime : GoString → Option ℤ

def Sidecars.threadSpendPath (s : Sidecars) (threadID : GoString) : GoString :=
  lit "thread-spending/" ++ hexEncode (s.sha256 threadID) ++ lit ".json"

/-- `none` is an error; `writes` says whether the file system lets the file be written. -/
def Sidecars.saveThreadSpend (s : Sidecars) (r : ThreadSpend) (offset : ℤ) (writes : Bool) :
    Option Sidecars :=
  if !r.validate then none
  else (threadSpendContents r offset).bind fun data =>
    if writes then some { s with files := s.files.insert (s.threadSpendPath r.threadID) data }
    else none

/-! ## Reading -/

def decodeUint64 (old : ℕ) : Json → Option ℕ
  | .number literal => (parseNat literal).filter fun n => n < 2 ^ 64
  | .null => some old
  | _ => none

/-- `Time.UnmarshalJSON`. -/
def decodeTime (time : GoString → Option ℤ) (old : ℤ) : Json → Option ℤ
  | .string s => time s
  | .null => some old
  | _ => none

def threadSpendFields : List GoString :=
  [lit "version", lit "threadId", lit "accountId", lit "accountLabel", lit "sequence",
    lit "acceptedAt"]

/-- The version and the record. -/
def threadSpendField (time : GoString → Option ℤ) (r : ℤ × ThreadSpend) (name : GoString) (v : Json) :
    Option (ℤ × ThreadSpend) :=
  match (matchField threadSpendFields name).bind fun f => threadSpendFields.idxOf? f with
  | some 0 => (decodeInt r.1 v).map fun version => (version, r.2)
  | some 1 => (decodeString r.2.threadID v).map fun threadID => (r.1, { r.2 with threadID })
  | some 2 => (decodeString r.2.accountID v).map fun accountID => (r.1, { r.2 with accountID })
  | some 3 => (decodeString r.2.accountLabel v).map fun accountLabel => (r.1, { r.2 with accountLabel })
  | some 4 => (decodeUint64 r.2.sequence v).map fun sequence => (r.1, { r.2 with sequence })
  | some 5 => (decodeTime time r.2.acceptedAt v).map fun acceptedAt => (r.1, { r.2 with acceptedAt })
  | _ => none

def decodeThreadSpend (time : GoString → Option ℤ) (data : GoString) : Option (ℤ × ThreadSpend) :=
  (strictParse data).bind (decodeObject (threadSpendField time) (0, ⟨[], [], [], 0, 0⟩))

def maxThreadSpendFileSize : ℕ := 4096

/-- `parseStrictRFC3339`. -/
def Sidecars.unmarshalTime (s : Sidecars) (text : GoString) : Option ℤ :=
  (parseRFC3339 text).or (s.parseTime text)

/-- The record of a thread, or none when there is no file. -/
def Sidecars.threadSpend (s : Sidecars) (threadID : GoString) : Except Error (Option ThreadSpend) :=
  if !validThreadID threadID || 64 < threadID.length then .error ⟨"invalid thread ID", []⟩
  else match s.files[s.threadSpendPath threadID]? with
    | none => .ok none
    | some data =>
      if maxThreadSpendFileSize < data.length then .error ⟨"invalid thread spending file", []⟩
      else match decodeThreadSpend s.unmarshalTime data with
        | none => .error errMalformed
        | some (version, r) =>
          if version ≠ 1 ∨ r.threadID ≠ threadID then
            .error ⟨"invalid thread spending identity or version", []⟩
          else if !r.validate then .error ⟨"invalid thread spending observation", []⟩
          else .ok (some r)

/-! ## The contents of a file -/

variable {r : ThreadSpend} {offset : ℤ} {text : GoString}

theorem validate_iff (r : ThreadSpend) : r.validate = true ↔ validThreadID r.threadID = true ∧
    r.threadID.length ≤ 64 ∧ validAccountID r.accountID = true ∧ r.accountLabel.length ≤ 256 ∧
      r.sequence ≠ 0 ∧ r.acceptedAt ≠ 0 := by
  simp [ThreadSpend.validate, and_assoc]

/-- What the reader makes of a record: its strings without ill-formed bytes, and its time. -/
def asRead (r : ThreadSpend) (acceptedAt : ℤ) : ThreadSpend :=
  ⟨toValid r.threadID, r.accountID, toValid r.accountLabel, r.sequence, acceptedAt⟩

theorem marshalTime_format (h : marshalTime r.acceptedAt offset = some text) :
    text = format r.acceptedAt offset := by
  rw [marshalTime] at h
  split at h
  · exact (Option.some.inj h).symm
  · cases h

theorem readBack_encodeThreadSpend (hid : validAccountID r.accountID = true)
    (htext : validString text = true) (acceptedAt : ℤ) :
    readBack (encodeThreadSpend r text) = encodeThreadSpend (asRead r acceptedAt) text := by
  simp only [encodeThreadSpend, asRead, readBack, readBackMembers, toValid_self (validString_id hid),
    toValid_self htext]
  rw [toValid_lit "version" (by decide), toValid_lit "threadId" (by decide),
    toValid_lit "accountId" (by decide), toValid_lit "accountLabel" (by decide),
    toValid_lit "sequence" (by decide), toValid_lit "acceptedAt" (by decide)]

theorem wellNumbered_encodeThreadSpend (r : ThreadSpend) (text : GoString) :
    wellNumbered (encodeThreadSpend r text) = true := by
  simp only [encodeThreadSpend, wellNumbered, wellNumberedMembers, validNumber_itoaNat, Bool.and_true]
  decide

theorem strictParse_contents (hid : validAccountID r.accountID = true)
    (hsequence : r.sequence < 2 ^ 64) (htext : validString text = true) (acceptedAt : ℤ) :
    strictParse (marshal (encodeThreadSpend r text) ++ lit "\n") =
      some (encodeThreadSpend (asRead r acceptedAt) text) := by
  have hparse := parse_render compact (encodeThreadSpend r text)
    (wellNumbered_encodeThreadSpend r text) (by exact Nat.le_add_left 1 9999)
  have hany : decodesToAny (encodeThreadSpend (asRead r acceptedAt) text) = true := by
    simp only [encodeThreadSpend, asRead, decodesToAny, decodesToAnyMembers,
      fitsFloat64_itoaNat hsequence, Bool.and_true]
    decide
  have hnames : uniqueNames (encodeThreadSpend (asRead r acceptedAt) text) = true := by
    simp only [encodeThreadSpend, uniqueNames, uniqueNamesMembers, List.map_cons, List.map_nil,
      Bool.and_true]
    decide
  rw [readBack_encodeThreadSpend hid htext acceptedAt] at hparse
  rw [strictParse, marshal, hparse, Option.filter_some, if_pos]
  rw [hnames, hany]
  rfl

theorem decodeUint64_itoaNat {n : ℕ} (h : n < 2 ^ 64) (old : ℕ) :
    decodeUint64 old (.number (itoaNat n)) = some n := by
  rw [decodeUint64, parseNat_itoaNat, Option.filter_some, if_pos (by simpa using h)]

/-- Decoding what was encoded asks only what the time is. -/
theorem decode_encodeThreadSpend (time : GoString → Option ℤ) (r : ThreadSpend)
    (h : r.sequence < 2 ^ 64) (text : GoString) (old : ℤ × ThreadSpend) :
    decodeObject (threadSpendField time) old (encodeThreadSpend r text) =
      (time text).map fun acceptedAt => (1, { r with acceptedAt }) := by
  have hversion : ∀ (x : ℤ × ThreadSpend) v, threadSpendField time x (lit "version") v =
      (decodeInt x.1 v).map fun version => (version, x.2) := fun _ _ => rfl
  have hthreadID : ∀ (x : ℤ × ThreadSpend) v, threadSpendField time x (lit "threadId") v =
      (decodeString x.2.threadID v).map fun threadID => (x.1, { x.2 with threadID }) := fun _ _ => rfl
  have haccountID : ∀ (x : ℤ × ThreadSpend) v, threadSpendField time x (lit "accountId") v =
      (decodeString x.2.accountID v).map fun accountID => (x.1, { x.2 with accountID }) :=
    fun _ _ => rfl
  have hlabel : ∀ (x : ℤ × ThreadSpend) v, threadSpendField time x (lit "accountLabel") v =
      (decodeString x.2.accountLabel v).map fun accountLabel => (x.1, { x.2 with accountLabel }) :=
    fun _ _ => rfl
  have hsequence : ∀ (x : ℤ × ThreadSpend) v, threadSpendField time x (lit "sequence") v =
      (decodeUint64 x.2.sequence v).map fun sequence => (x.1, { x.2 with sequence }) := fun _ _ => rfl
  have hacceptedAt : ∀ (x : ℤ × ThreadSpend) v, threadSpendField time x (lit "acceptedAt") v =
      (decodeTime time x.2.acceptedAt v).map fun acceptedAt => (x.1, { x.2 with acceptedAt }) :=
    fun _ _ => rfl
  have hone : ∀ old, decodeInt old (.number (lit "1")) = some 1 := fun _ => by
    rw [decodeInt]
    decide
  rw [encodeThreadSpend, decodeObject]
  simp only [decodeMembers, hversion, hthreadID, haccountID, hlabel, hsequence, hacceptedAt, hone,
    decodeString, decodeUint64_itoaNat h, decodeTime, Option.map_some, Option.bind_some]
  cases time text <;> rfl

theorem length_contents (hid : r.threadID.length ≤ 64) (haccount : r.accountID.length ≤ 64)
    (hlabel : r.accountLabel.length ≤ 256) (hsequence : r.sequence < 2 ^ 64)
    (htext : text.length ≤ 35) :
    (marshal (encodeThreadSpend r text) ++ lit "\n").length ≤ maxThreadSpendFileSize := by
  have hidSize := quotedSize_le r.threadID
  have haccountSize := quotedSize_le r.accountID
  have hlabelSize := quotedSize_le r.accountLabel
  have htextSize := quotedSize_le text
  have hdigits : (itoaNat r.sequence).length ≤ 20 := itoaNat_length_le (hsequence.trans (by decide))
  rw [List.length_append, encodeThreadSpend, marshal_object_size]
  simp only [membersSize, marshal_string_size, marshal_number_size]
  have hversion : quotedSize (lit "version") = 9 ∧ quotedSize (lit "threadId") = 10 ∧
      quotedSize (lit "accountId") = 11 ∧ quotedSize (lit "accountLabel") = 14 ∧
      quotedSize (lit "sequence") = 10 ∧ quotedSize (lit "acceptedAt") = 12 := by
    decide
  obtain ⟨h1, h2, h3, h4, h5, h6⟩ := hversion
  have hone : (lit "1").length = 1 := by decide
  have hnewline : (lit "\n").length = 1 := by decide
  rw [h1, h2, h3, h4, h5, h6, hone, hnewline, maxThreadSpendFileSize]
  omega

/-! ## The round trip -/

variable {s s' : Sidecars} {writes : Bool}

theorem save_contents (h : s.saveThreadSpend r offset writes = some s') :
    r.validate = true ∧ ∃ text, marshalTime r.acceptedAt offset = some text ∧
      s'.files = s.files.insert (s.threadSpendPath r.threadID)
        (marshal (encodeThreadSpend r text) ++ lit "\n") ∧ s'.sha256 = s.sha256 := by
  rw [Sidecars.saveThreadSpend] at h
  split at h
  · cases h
  · rename_i hvalid
    obtain ⟨data, hdata, hs⟩ := Option.bind_eq_some_iff.mp h
    obtain ⟨text, htext, rfl⟩ := Option.map_eq_some_iff.mp hdata
    split at hs
    · cases hs
      exact ⟨by simpa using hvalid, text, htext, rfl, rfl⟩
    · cases hs

theorem threadSpend_saved (h : s.saveThreadSpend r offset writes = some s') (hseq : r.sequence < 2 ^ 64) :
    s'.threadSpend r.threadID =
      let back := asRead r (r.acceptedAt + (offset - offset.tdiv 60 * 60) * 10 ^ 9)
      if back.threadID ≠ r.threadID then .error ⟨"invalid thread spending identity or version", []⟩
      else if !back.validate then .error ⟨"invalid thread spending observation", []⟩
      else .ok (some back) := by
  obtain ⟨hvalid, text, htext, hfiles, hsha⟩ := save_contents h
  obtain ⟨hthread, hshort, haccount, hlabel, -, -⟩ := (validate_iff r).mp hvalid
  have hformat := marshalTime_format htext
  have hascii : validString text = true := by
    rw [hformat]
    exact validString_of_ascii (ascii_format _ _)
  have hfile : s'.files[s'.threadSpendPath r.threadID]? =
      some (marshal (encodeThreadSpend r text) ++ lit "\n") := by
    rw [Sidecars.threadSpendPath, hsha, hfiles, ← Sidecars.threadSpendPath]
    simp
  have hsize : (marshal (encodeThreadSpend r text) ++ lit "\n").length ≤ maxThreadSpendFileSize := by
    refine length_contents hshort ?_ hlabel hseq ?_
    · simp only [validAccountID, Bool.and_eq_true, decide_eq_true_eq] at haccount
      exact haccount.1.2
    · rw [hformat]
      exact length_format _ _
  have htime : s'.unmarshalTime text =
      some (r.acceptedAt + (offset - offset.tdiv 60 * 60) * 10 ^ 9) := by
    rw [Sidecars.unmarshalTime, parse_format htext]
    rfl
  have hdecode : decodeThreadSpend s'.unmarshalTime (marshal (encodeThreadSpend r text) ++ lit "\n") =
      some (1, asRead r (r.acceptedAt + (offset - offset.tdiv 60 * 60) * 10 ^ 9)) := by
    rw [decodeThreadSpend, strictParse_contents haccount hseq hascii 0, Option.bind_some,
      decode_encodeThreadSpend _ (asRead r 0) hseq, htime]
    rfl
  have hsaved : ¬ (!validThreadID r.threadID || decide (64 < r.threadID.length)) = true := by
    simp [hthread, hshort]
  rw [Sidecars.threadSpend, if_neg hsaved, hfile]
  simp only [if_neg (not_lt.mpr hsize), hdecode]
  simp

/-- A record is read back as it was written exactly if its texts are UTF-8 and its zone is of whole
minutes. -/
theorem save_roundTrip (h : s.saveThreadSpend r offset writes = some s') (hseq : r.sequence < 2 ^ 64) :
    s'.threadSpend r.threadID = .ok (some r) ↔
      validString r.threadID = true ∧ validString r.accountLabel = true ∧ offset % 60 = 0 := by
  have hvalid := (save_contents h).1
  rw [threadSpend_saved h hseq]
  dsimp only
  constructor
  · intro hread
    split at hread
    · cases hread
    · split at hread
      · cases hread
      · have hback := Option.some.inj (Except.ok.inj hread)
        have hthread : toValid r.threadID = r.threadID := congrArg ThreadSpend.threadID hback
        have hlabel : toValid r.accountLabel = r.accountLabel := congrArg ThreadSpend.accountLabel hback
        have htime : r.acceptedAt + (offset - offset.tdiv 60 * 60) * 10 ^ 9 = r.acceptedAt :=
          congrArg ThreadSpend.acceptedAt hback
        exact ⟨toValid_eq_self_iff.mp hthread, toValid_eq_self_iff.mp hlabel, by omega⟩
  · rintro ⟨hthread, hlabel, hzone⟩
    have htime : r.acceptedAt + (offset - offset.tdiv 60 * 60) * 10 ^ 9 = r.acceptedAt := by
      have hdvd : (60 : ℤ) ∣ offset := Int.dvd_of_emod_eq_zero hzone
      rw [Int.tdiv_mul_cancel hdvd]
      omega
    have hback : asRead r r.acceptedAt = r := by
      rw [asRead, toValid_self hthread, toValid_self hlabel]
    rw [htime, hback, if_neg (by simp), if_neg (by simp [hvalid])]

def taskDigest : List UInt8 :=
  [0x0E, 0xBB, 0x42, 0x9F, 0xA8, 0x6D, 0x48, 0x1C, 0x26, 0x30, 0xFA, 0xC5, 0x3D, 0xB1, 0xC9, 0x1C,
    0xFF, 0xED, 0x5D, 0x4D, 0x41, 0xD1, 0x02, 0x1C, 0x17, 0x94, 0x44, 0xEB, 0x67, 0xE7, 0xEE, 0x0B]

def strayDigest : List UInt8 :=
  [0xA8, 0x10, 0x0A, 0xE6, 0xAA, 0x19, 0x40, 0xD0, 0xB6, 0x63, 0xBB, 0x31, 0xCD, 0x46, 0x61, 0x42,
    0xEB, 0xBD, 0xBD, 0x51, 0x87, 0x13, 0x1B, 0x92, 0xD9, 0x38, 0x18, 0x98, 0x78, 0x32, 0xEB, 0x89]

/-- No files yet; the digests are those of the two threads below. -/
def noSidecars : Sidecars where
  files := ∅
  sha256 threadID := if threadID = lit "task" then taskDigest else strayDigest
  parseTime := parseRFC3339

def taskSpend : ThreadSpend := ⟨lit "task", lit "primary", lit "Primary", 1, 63909302400500000000⟩

theorem save_task : ∃ s', noSidecars.saveThreadSpend taskSpend 7200 true = some s' ∧
    s'.threadSpend (lit "task") = .ok (some taskSpend) := by
  refine ⟨_, rfl, ?_⟩
  exact (@save_roundTrip taskSpend 7200 noSidecars _ true rfl (by decide)).mpr (by decide)

def straySpend : ThreadSpend := { taskSpend with threadID := [0xFF] }

/-- A thread id that is no UTF-8 is written, and then found to be another one. -/
theorem stray_byte_not_read : ∃ s', noSidecars.saveThreadSpend straySpend 0 true = some s' ∧
    s'.threadSpend straySpend.threadID =
      .error ⟨"invalid thread spending identity or version", []⟩ := by
  refine ⟨_, rfl, ?_⟩
  exact (@threadSpend_saved straySpend 0 noSidecars _ true rfl (by decide)).trans (if_pos (by decide))

end SubscriptionRouter.ThreadSpendFile
