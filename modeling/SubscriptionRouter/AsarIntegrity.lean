import Mathlib
import SubscriptionRouter.Frames
import SubscriptionRouter.PlainField

set_option autoImplicit false

/-!
# The integrity resource of an executable

`integrity_hash_slot` goes through the headers, the section table and three levels of directories
to a payload, and gives where the payload has the digits of a digest.
-/
namespace SubscriptionRouter.AsarIntegrity
open GoText Frames Transducers PythonText PythonJson HashField HashDocument PlainField Readers

/-! ## The headers -/

def maxPeBytes : ℕ := 128 * 1024 * 1024

/-- The bytes of `struct.unpack_from`, when they are in the file. -/
def unpack (offset size : ℕ) : Reader (List UInt8) := do
  let length ← Reader.getLength
  Reader.ensure (offset + size ≤ length)
  Reader.getBytes offset size

def unpackHalf (offset : ℕ) : Reader ℕ := do return ofLittleEndian (← unpack offset 2)

def unpackWord (offset : ℕ) : Reader ℕ := do return ofLittleEndian (← unpack offset 4)

def word (bytes : List UInt8) (index : ℕ) : ℕ := ofLittleEndian (slice bytes (4 * index) 4)

structure Section where
  address : ℕ
  rawSize : ℕ
  raw : ℕ

def readSection (entry : ℕ) : Reader Section := do
  let words ← unpack (entry + 8) 16
  let length ← Reader.getLength
  Reader.ensure (word words 3 + word words 2 ≤ length)
  return ⟨word words 1, word words 2, word words 3⟩

structure Headers where
  resourceRva : ℕ
  resourceSize : ℕ
  sections : List Section

def readHeaders : Reader Headers := do
  let dos ← Reader.getBytes 0 2
  Reader.ensure (dos = lit "MZ")
  let pe ← unpackWord 0x3C
  let signature ← Reader.getBytes pe 4
  Reader.ensure (signature = lit "PE" ++ [0, 0])
  let sectionsCount ← unpackHalf (pe + 6)
  let optionalSize ← unpackHalf (pe + 20)
  let magic ← unpackHalf (pe + 24)
  Reader.ensure (magic = 0x20B ∧ 1 ≤ sectionsCount ∧ sectionsCount ≤ 96 ∧ 136 ≤ optionalSize)
  let directoryCount ← unpackWord (pe + 24 + 108)
  Reader.ensure (3 ≤ directoryCount)
  let resource ← unpack (pe + 24 + 128) 8
  let sections ← Reader.collect (fun index => readSection (pe + 24 + optionalSize + index * 40))
    (List.range sectionsCount)
  return ⟨word resource 0, word resource 1, sections⟩

/-- `file_offset`: an address is in one section and no other. -/
def fileOffset (sections : List Section) (rva size : ℕ) : Reader ℕ :=
  match sections.filter fun s => s.address ≤ rva && rva + size ≤ s.address + s.rawSize with
  | [s] => return s.raw + rva - s.address
  | _ => .refuse

/-! ## The directories -/

/-- The resource section in the file. -/
structure Area where
  base : ℕ
  size : ℕ
  deriving DecidableEq

/-- `resource_offset`. -/
def Area.offset (area : Area) (relative size : ℕ) : Reader ℕ := do
  Reader.ensure (relative + size ≤ area.size)
  return area.base + relative

inductive Key where
  | number (n : ℕ)
  | name (text : Text)
  deriving DecidableEq

/-- `bytes.decode("utf-16le")`, which refuses a surrogate that is alone. -/
def decodeName (bytes : List UInt8) : Option Text :=
  ((utf16 false).run ⟨none, none⟩ bytes).filter fun text =>
    text.all fun c => !isHighSurrogate c && !isLowSurrogate c

def readKey (area : Area) (name : ℕ) : Reader Key :=
  if name.testBit 31 then do
    let chars ← unpackHalf (← area.offset (name % 2 ^ 31) 2)
    Reader.ensure (chars ≤ 256)
    let start ← area.offset (name % 2 ^ 31 + 2) (chars * 2)
    match decodeName (← Reader.getBytes start (chars * 2)) with
    | some text => return .name text
    | none => .refuse
  else return .number name

structure Entry where
  key : Key
  target : ℕ

/-- `directory`. -/
def readDirectory (area : Area) (relative : ℕ) : Reader (List Entry) := do
  let offset ← area.offset relative 16
  let counts ← unpack (offset + 12) 4
  let count := ofLittleEndian (slice counts 0 2) + ofLittleEndian (slice counts 2 2)
  Reader.ensure (count ≤ 4096)
  let _ ← area.offset (relative + 16) (count * 8)
  Reader.collect (fun index => do
    let words ← unpack (offset + 16 + index * 8) 8
    let key ← readKey area (word words 0)
    return ⟨key, word words 1⟩) (List.range count)

/-- The one directory with a name in another. -/
def subdirectory (area : Area) (relative : ℕ) (name : Text) : Reader ℕ := do
  let entries ← readDirectory area relative
  match entries.filter fun entry => entry.key = .name name with
  | [entry] =>
    Reader.ensure (entry.target.testBit 31)
    return entry.target % 2 ^ 31
  | _ => .refuse

/-- The one entry of the last directory: the English one, which is no directory. -/
def language (area : Area) (relative : ℕ) : Reader ℕ := do
  match ← readDirectory area relative with
  | [entry] =>
    Reader.ensure (entry.key = .number 1033 ∧ ¬ entry.target.testBit 31)
    return entry.target
  | _ => .refuse

structure Resource where
  area : Area
  payload : ℕ × ℕ
  deriving DecidableEq

def resourcePath : List Text := [codes (lit "INTEGRITY"), codes (lit "ELECTRONASAR")]

/-- What `integrity_hash_slot` reads before the payload. -/
def locate : Reader Resource := do
  let headers ← readHeaders
  Reader.ensure (16 ≤ headers.resourceSize ∧ headers.resourceSize ≤ maxPeBytes)
  let base ← fileOffset headers.sections headers.resourceRva headers.resourceSize
  let area : Area := ⟨base, headers.resourceSize⟩
  let current ← resourcePath.foldlM (subdirectory area) 0
  let target ← language area current
  let words ← unpack (← area.offset target 16) 16
  Reader.ensure (64 ≤ word words 1 ∧ word words 1 ≤ 4096 ∧ word words 3 = 0)
  let payload ← fileOffset headers.sections (word words 0) (word words 1)
  Reader.ensure (base ≤ payload ∧ payload + word words 1 ≤ base + headers.resourceSize)
  return ⟨area, payload, word words 1⟩

def payloadOf (data : List UInt8) (resource : Resource) : List UInt8 :=
  slice data resource.payload.1 resource.payload.2

/-- `integrity_hash_slot`. -/
def integrityHashSlot (limit : ℕ) (data : List UInt8) : Option (ℕ × Text) := do
  let resource ← locate.run data
  let found ← hashField limit (payloadOf data resource)
  return (resource.payload.1 + found.1, found.2)

/-! ## Where the payload is -/

section Bounds
variable {data : List UInt8}

theorem readSection_bound {entry : ℕ} {s : Section} (h : (readSection entry).run data = some s) :
    s.raw + s.rawSize ≤ data.length := by
  simp only [readSection, Reader.run_bind, Option.bind_eq_some_iff, Reader.run_getLength, Reader.run_pure,
    Option.some.injEq] at h
  obtain ⟨words, -, length, rfl, u, hbound, rfl⟩ := h
  exact Reader.run_ensure.mp hbound

theorem readHeaders_bound {headers : Headers} (h : readHeaders.run data = some headers) :
    ∀ s ∈ headers.sections, s.raw + s.rawSize ≤ data.length := by
  simp only [readHeaders, Reader.run_bind, Option.bind_eq_some_iff, Reader.run_pure, Option.some.injEq] at h
  obtain ⟨_, -, _, -, _, -, _, -, _, -, _, -, _, -, _, -, _, -, _, -, _, -, _, -, sections, hsections, rfl⟩ := h
  intro s hs
  obtain ⟨index, -, hread⟩ := Reader.run_collect hsections s hs
  exact readSection_bound hread

theorem fileOffset_bound {sections : List Section} {rva size offset : ℕ}
    (h : (fileOffset sections rva size).run data = some offset) :
    ∃ s ∈ sections, offset + size ≤ s.raw + s.rawSize := by
  unfold fileOffset at h
  cases hfilter : sections.filter fun s => s.address ≤ rva && rva + size ≤ s.address + s.rawSize with
  | nil =>
    rw [hfilter] at h
    cases h
  | cons s others =>
    cases others with
    | cons _ _ =>
      rw [hfilter] at h
      cases h
    | nil =>
      rw [hfilter] at h
      obtain rfl := Option.some.inj h
      have hmem : s ∈ sections.filter _ := hfilter ▸ List.mem_singleton_self s
      obtain ⟨hs, hwithin⟩ := List.mem_filter.mp hmem
      simp only [Bool.and_eq_true, decide_eq_true_eq] at hwithin
      exact ⟨s, hs, by omega⟩

theorem locate_bounds {resource : Resource} (h : locate.run data = some resource) :
    resource.area.base + resource.area.size ≤ data.length ∧ resource.area.base ≤ resource.payload.1 ∧
      resource.payload.1 + resource.payload.2 ≤ resource.area.base + resource.area.size := by
  simp only [locate, Reader.run_bind, Option.bind_eq_some_iff, Reader.run_pure, Option.some.injEq] at h
  obtain ⟨headers, hheaders, _, -, base, hbase, _, -, _, -, _, -, _, -, _, -, payload, -, _, hwithin, rfl⟩ := h
  obtain ⟨s, hs, hsection⟩ := fileOffset_bound hbase
  have hfile := readHeaders_bound hheaders s hs
  obtain ⟨hlow, hhigh⟩ := Reader.run_ensure.mp hwithin
  exact ⟨Nat.le_trans hsection hfile, hlow, hhigh⟩
end Bounds

/-! ## A small executable -/

def packHalf (n : ℕ) : List UInt8 := [UInt8.ofNat n, UInt8.ofNat (n / 256)]

def blank (n : ℕ) : List UInt8 := List.replicate n 0

def packDirectory (name target : ℕ) : List UInt8 :=
  blank 12 ++ packHalf 0 ++ packHalf 1 ++ littleEndian name ++ littleEndian target

def packName (name : List UInt8) : List UInt8 := packHalf name.length ++ name.flatMap fun b => [b, 0]

def resourceSection (payload : List UInt8) : List UInt8 :=
  packDirectory (0x80000000 + 88) (0x80000000 + 24) ++ packDirectory (0x80000000 + 108) (0x80000000 + 48) ++
    packDirectory 1033 72 ++ littleEndian (4096 + 134) ++ littleEndian payload.length ++ blank 8 ++
    packName (lit "INTEGRITY") ++ packName (lit "ELECTRONASAR") ++ payload

/-- The executable of the tests, without the room between its parts. -/
def executable (payload : List UInt8) : List UInt8 :=
  let resources := resourceSection payload
  lit "MZ" ++ blank 58 ++ littleEndian 64 ++ lit "PE" ++ blank 4 ++ packHalf 1 ++ blank 12 ++ packHalf 136 ++
    blank 2 ++ packHalf 0x20B ++ blank 106 ++ littleEndian 3 ++ blank 16 ++ littleEndian 4096 ++
    littleEndian resources.length ++ blank 12 ++ littleEndian 4096 ++ littleEndian resources.length ++ littleEndian 264 ++
    blank 16 ++ resources

def samplePayload (digest : List UInt8) : List UInt8 :=
  lit "[\x7b\"file\":\"resources\\\\app.asar\",\"alg\":\"SHA256\",\"value\":\"" ++ digest ++ lit "\"\x7d]"

def sampleDigest (b : UInt8) : List UInt8 := List.replicate 64 b

/-! ## Other digits in the slot -/

/-- No step before the payload reads a byte of it. -/
def PayloadApart (data : List UInt8) : Prop :=
  ∀ resource, locate.run data = some resource → ∀ range ∈ locate.ranges data, Apart resource.payload range

section Splice
variable {limit s : ℕ} {data new : List UInt8} {digest : Text} {resource : Resource}

theorem integrityHashSlot_eq_some : integrityHashSlot limit data = some (s, digest) ↔
    ∃ resource start, locate.run data = some resource ∧
      hashField limit (payloadOf data resource) = some (start, digest) ∧ s = resource.payload.1 + start := by
  simp only [integrityHashSlot, Option.bind_eq_bind, Option.bind_eq_some_iff, Option.pure_def,
    Option.some.injEq, Prod.mk.injEq, Prod.exists]
  constructor
  · rintro ⟨resource, hresource, start, found, hfound, rfl, rfl⟩
    exact ⟨resource, start, hresource, hfound, rfl⟩
  · rintro ⟨resource, start, hresource, hfound, rfl⟩
    exact ⟨resource, hresource, start, digest, hfound, rfl, rfl⟩

theorem length_payloadOf (h : locate.run data = some resource) :
    (payloadOf data resource).length = resource.payload.2 := by
  obtain ⟨hfile, -, hpayload⟩ := locate_bounds h
  exact length_slice (Nat.le_trans hpayload hfile)

theorem locate_splice {start : ℕ} (hresource : locate.run data = some resource) (hapart : PayloadApart data)
    (hwithin : start + new.length ≤ resource.payload.2) :
    locate.run (splice data (resource.payload.1 + start) new) = some resource := by
  obtain ⟨hfile, -, hpayload⟩ := locate_bounds hresource
  have hlength : resource.payload.1 + start + new.length ≤ data.length := by omega
  have hsame := Reader.run_congr (length_splice hlength) locate fun range hrange => by
    refine slice_splice_of_apart hlength fun i hlow hhigh => ?_
    by_contra hin
    rcases hapart resource hresource range hrange i (by omega) (by omega) with h | h <;> omega
  rw [hsame.1, hresource]

theorem splice_keeps_slot (h : integrityHashSlot limit data = some (s, digest)) (hapart : PayloadApart data)
    (hnew : IsDigest new) : ∃ resource, locate.run data = some resource ∧
      (resource.area.base ≤ s ∧ s + 64 ≤ resource.area.base + resource.area.size ∧
        resource.area.base + resource.area.size ≤ data.length) ∧
      (splice data s new).length = data.length ∧
      (∀ i, i < s ∨ s + 64 ≤ i → (splice data s new)[i]? = data[i]?) ∧
      ∃ digest', integrityHashSlot limit (splice data s new) = some (s, digest') ∧
        (RepeatsNoName limit (payloadOf data resource) → digest' = codes new) := by
  obtain ⟨resource, start, hresource, hfound, rfl⟩ := integrityHashSlot_eq_some.mp h
  have hwithin := hashField_within hfound
  obtain ⟨digest', hspliced, hreported, -⟩ := hashField_splice hfound hnew
  rw [length_payloadOf hresource] at hwithin
  obtain ⟨hfile, hbase, hpayload⟩ := locate_bounds hresource
  have hlength : resource.payload.1 + start + new.length ≤ data.length := by
    rw [hnew.length]
    omega
  refine ⟨resource, hresource, ⟨by omega, by omega, hfile⟩, length_splice hlength, fun i hi => ?_,
    digest', integrityHashSlot_eq_some.mpr ⟨resource, start, ?_, ?_, rfl⟩, hreported⟩
  · rw [← hnew.length] at hi
    exact getElem?_splice hlength hi
  · exact locate_splice hresource hapart (by rw [hnew.length]; exact hwithin)
  · rw [payloadOf, slice_splice_inside (Nat.le_trans hpayload hfile) (by rw [hnew.length]; exact hwithin)]
    exact hspliced

def integrityNames {S : Type} : Option (Value S) → List S
  | some (.array [.object members]) => members.map Prod.fst
  | _ => []

def sampleExecutable : List UInt8 := executable (samplePayload (sampleDigest 0x61))

theorem sample_located : locate.run sampleExecutable = some ⟨⟨264, 256⟩, 398, 122⟩ := by decide +kernel

theorem sample_apart : PayloadApart sampleExecutable := by
  have hranges : ∀ range ∈ locate.ranges sampleExecutable, range.1 + range.2 ≤ 398 := by decide +kernel
  intro resource hresource range hrange
  obtain rfl := Option.some.inj (sample_located.symm.trans hresource)
  exact apart_of_le (.inr (hranges range hrange))

/-- The executable of the tests. -/
theorem splice_keeps_sample :
    let data := executable (samplePayload (sampleDigest 0x61))
    integrityHashSlot 1000 data = some (453, codes (sampleDigest 0x61)) ∧
      integrityHashSlot 1000 (splice data 453 (sampleDigest 0x62)) = some (453, codes (sampleDigest 0x62)) := by
  intro data
  have hslot : integrityHashSlot 1000 data = some (453, codes (sampleDigest 0x61)) := by decide +kernel
  have hlocate : locate.run data = some ⟨⟨264, 256⟩, 398, 122⟩ := sample_located
  have hnew : IsDigest (sampleDigest 0x62) := ⟨rfl, by decide +kernel⟩
  obtain ⟨resource, hresource, -, -, -, digest', hspliced, hreported⟩ := splice_keeps_slot hslot sample_apart hnew
  obtain rfl := Option.some.inj (hlocate.symm.trans hresource)
  refine ⟨hslot, ?_⟩
  rw [hspliced, hreported]
  intro members hdocument
  have hnames : (integrityNames (document 1000 (payloadOf data ⟨⟨264, 256⟩, 398, 122⟩))).Nodup := by
    decide +kernel
  rw [hdocument] at hnames
  exact hnames
end Splice

/-! ## The digits in the slot -/

section Stored
variable {limit s : ℕ} {data new : List UInt8} {digest : Text} {resource : Resource}

def Stored (limit : ℕ) (data : List UInt8) : Prop :=
  ∀ s digest, integrityHashSlot limit data = some (s, digest) → codes (slice data s 64) = digest

theorem slice_payloadOf {start : ℕ} (hwithin : start + 64 ≤ resource.payload.2) :
    slice data (resource.payload.1 + start) 64 = slice (payloadOf data resource) start 64 := by
  apply List.ext_getElem?
  intro i
  by_cases hi : i < 64
  · rw [getElem?_slice hi, getElem?_slice hi, payloadOf, getElem?_slice (by omega), Nat.add_assoc]
  · rw [getElem?_slice_of_le (Nat.le_of_not_lt hi), getElem?_slice_of_le (Nat.le_of_not_lt hi)]

def aliasPayload : List UInt8 :=
  lit "[\x7b\"file\":\"resources\\\\app.asar\",\"alg\":\"SHA256\",\"value\":\"" ++ sampleDigest 0x61 ++
    lit "\",\"v\\u0061lue\":\"" ++ sampleDigest 0x62 ++ lit "\"\x7d]"

/-- Two spellings of one name: the slot is in the first member and the digest is from the second. -/
theorem alias_not_stored : ¬ Stored 1000 (executable aliasPayload) := by
  intro hstored
  have hslot : integrityHashSlot 1000 (executable aliasPayload) = some (453, codes (sampleDigest 0x62)) := by
    decide +kernel
  have hslice : slice (executable aliasPayload) 453 64 = sampleDigest 0x61 := by decide +kernel
  have hsame := hstored 453 _ hslot
  rw [hslice] at hsame
  exact absurd hsame (by decide +kernel)

/-- Where the member that counts is written otherwise, other digits in the slot are not reported. -/
theorem splice_not_stored (h : integrityHashSlot limit data = some (s, digest)) (hapart : PayloadApart data)
    (hresource : locate.run data = some resource) (hspelled : ¬ SpelledPlainly limit (payloadOf data resource))
    (hnew : IsDigest new) (hother : codes new ≠ digest) :
    integrityHashSlot limit (splice data s new) = some (s, digest) ∧ ¬ Stored limit (splice data s new) := by
  obtain ⟨located, start, hlocated, hfound, rfl⟩ := integrityHashSlot_eq_some.mp h
  obtain rfl := Option.some.inj (hresource.symm.trans hlocated)
  have hwithin := hashField_within hfound
  obtain ⟨digest', hspliced, -, hkept⟩ := hashField_splice hfound hnew
  obtain rfl := hkept hspelled
  rw [length_payloadOf hresource, ← hnew.length] at hwithin
  obtain ⟨hfile, -, hpayload⟩ := locate_bounds hresource
  have hkeeps : integrityHashSlot limit (splice data (resource.payload.1 + start) new) =
      some (resource.payload.1 + start, digest') := by
    refine integrityHashSlot_eq_some.mpr ⟨resource, start, locate_splice hresource hapart hwithin, ?_, rfl⟩
    rw [payloadOf, slice_splice_inside (Nat.le_trans hpayload hfile) hwithin]
    exact hspliced
  refine ⟨hkeeps, fun hstored => hother ?_⟩
  have hsame := hstored _ _ hkeeps
  rwa [← hnew.length, slice_splice (by omega)] at hsame

/-- Where the member that counts is written plainly, its digits are in the slot. Where it is not, the
slot may have them by chance, and with any other digits in it they are not the ones that are
reported. -/
theorem stored_of_plain (h : integrityHashSlot limit data = some (s, digest))
    (hresource : locate.run data = some resource) :
    (SpelledPlainly limit (payloadOf data resource) → codes (slice data s 64) = digest) ∧
      (PayloadApart data → ¬ SpelledPlainly limit (payloadOf data resource) →
        ∀ new, IsDigest new → codes new ≠ digest → ¬ Stored limit (splice data s new)) := by
  refine ⟨fun hplain => ?_, fun hapart hspelled new hnew hother =>
    (splice_not_stored h hapart hresource hspelled hnew hother).2⟩
  obtain ⟨located, start, hlocated, hfound, rfl⟩ := integrityHashSlot_eq_some.mp h
  obtain rfl := Option.some.inj (hresource.symm.trans hlocated)
  have hwithin := length_payloadOf hresource ▸ hashField_within hfound
  rw [slice_payloadOf hwithin]
  exact stored_of_spelledPlainly hplain hfound

theorem stored_of_plain_sample :
    let data := executable (samplePayload (sampleDigest 0x61))
    integrityHashSlot 1000 data = some (453, codes (sampleDigest 0x61)) ∧
      codes (slice data 453 64) = codes (sampleDigest 0x61) := by
  intro data
  have hslot : integrityHashSlot 1000 data = some (453, codes (sampleDigest 0x61)) := by decide +kernel
  have hlocate : locate.run data = some ⟨⟨264, 256⟩, 398, 122⟩ := sample_located
  have hspliced : integrityHashSlot 1000 (splice data 453 (sampleDigest 0x62)) =
      some (453, codes (sampleDigest 0x62)) := by decide +kernel
  have hdigits : codes (sampleDigest 0x62) ≠ codes (sampleDigest 0x61) := by decide +kernel
  refine ⟨hslot, (stored_of_plain hslot hlocate).1 ?_⟩
  -- otherwise the other digits would not have been reported
  by_contra hspelled
  have hkept := (splice_not_stored hslot sample_apart hlocate hspelled ⟨rfl, by decide +kernel⟩ hdigits).1
  rw [hspliced, Option.some.injEq, Prod.mk.injEq] at hkept
  exact hdigits hkept.2
end Stored

end SubscriptionRouter.AsarIntegrity
