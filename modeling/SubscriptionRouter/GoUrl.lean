import Mathlib
import SubscriptionRouter.GoText

set_option autoImplicit false

/-!
# Go's `net/url`

Parsing a URL and its query. A user is kept as it is written, and a host in brackets, which has to
be an IPv6 address, is refused.
-/
namespace SubscriptionRouter.GoUrl
open GoText

/-- `strings.Cut`. -/
def cut (c : UInt8) (s : GoString) : GoString × GoString :=
  (s.takeWhile (· ≠ c), (s.dropWhile (· ≠ c)).tail)

def isLetter (c : UInt8) : Bool := (0x61 ≤ c && c ≤ 0x7A) || (0x41 ≤ c && c ≤ 0x5A)

def isDigit (c : UInt8) : Bool := 0x30 ≤ c && c ≤ 0x39

/-! ## Escapes -/

inductive Encoding where
  | path
  | host
  | queryComponent
  | fragment
  deriving DecidableEq

/-- The value of a hexadecimal digit. -/
def unhex (c : UInt8) : Option ℕ :=
  if 0x30 ≤ c ∧ c ≤ 0x39 then some (c.toNat - 0x30)
  else if 0x61 ≤ c ∧ c ≤ 0x66 then some (c.toNat - 0x57)
  else if 0x41 ≤ c ∧ c ≤ 0x46 then some (c.toNat - 0x37)
  else none

/-- The ASCII bytes that may stand in a host. -/
def inHost (c : UInt8) : Bool := isLetter c || isDigit c || c ∈ lit "!$&'()*+,;=:[]<>\"-_.~"

def unescape (mode : Encoding) : GoString → Option GoString
  | [] => some []
  | c :: rest =>
    if c = 0x25 then
      match rest with
      | a :: b :: rest => do
        let high ← unhex a
        let low ← unhex b
        guard (mode ≠ .host ∨ 8 ≤ high ∨ (a = 0x32 ∧ b = 0x35))
        let decoded ← unescape mode rest
        return UInt8.ofNat (16 * high + low) :: decoded
      | _ => none
    else do
      guard (mode ≠ .host ∨ 0x80 ≤ c ∨ inHost c)
      let decoded ← unescape mode rest
      return (if c = 0x2B ∧ mode = .queryComponent then 0x20 else c) :: decoded

/-! ## URLs -/

structure URL where
  scheme : GoString
  opaqueText : GoString
  user : Option GoString
  host : GoString
  path : GoString
  rawQuery : GoString
  fragment : GoString
  deriving DecidableEq

/-- The scheme and what follows it. A colon at the start is an error. -/
def getScheme (rawURL : GoString) : GoString → GoString → Option (GoString × GoString)
  | _, [] => some ([], rawURL)
  | read, c :: rest =>
    if isLetter c then getScheme rawURL (read ++ [c]) rest
    else if isDigit c ∨ c ∈ lit "+-." then
      if read = [] then some ([], rawURL) else getScheme rawURL (read ++ [c]) rest
    else if c = 0x3A then
      if read = [] then none else some (read, rest)
    else some ([], rawURL)

def validOptionalPort (port : GoString) : Bool :=
  match port with
  | [] => true
  | c :: digits => c = 0x3A && digits.all isDigit

def fromLastColon (host : GoString) : GoString :=
  if 0x3A ∈ host then 0x3A :: (host.reverse.takeWhile (· ≠ 0x3A)).reverse else []

/-- Only for two schemes the port starts at the last colon if there are more. -/
def parseHost (scheme host : GoString) : Option GoString := do
  guard (0x5B ∉ host)
  let colonPort :=
    if scheme = lit "postgresql" ∨ scheme = lit "postgres" then fromLastColon host
    else host.dropWhile (· ≠ 0x3A)
  guard (validOptionalPort colonPort)
  unescape .host host

def parseAuthority (scheme authority : GoString) : Option (Option GoString × GoString) := do
  let host := (authority.reverse.takeWhile (· ≠ 0x40)).reverse
  let user := if 0x40 ∈ authority then some (authority.take (authority.length - host.length - 1)) else none
  let decoded ← parseHost scheme host
  return (user, decoded)

/-- `parse` for a URL that need not come from a request, and without its fragment. -/
def parseReference (rawURL : GoString) : Option URL := do
  guard (∀ c ∈ rawURL, 0x20 ≤ c ∧ c ≠ 0x7F)
  if rawURL = lit "*" then return ⟨[], [], none, [], lit "*", [], []⟩
  else
    let (rawScheme, afterScheme) ← getScheme rawURL [] rawURL
    let scheme := asciiLower rawScheme
    let (rest, rawQuery) := cut 0x3F afterScheme
    if rest.head? ≠ some 0x2F ∧ scheme ≠ [] then return ⟨scheme, rest, none, [], [], rawQuery, []⟩
    else
      guard (rest.head? = some 0x2F ∨ 0x3A ∉ (cut 0x2F rest).1)
      if (scheme ≠ [] ∨ ¬ (lit "///").isPrefixOf rest) ∧ (lit "//").isPrefixOf rest then
        let authority := (rest.drop 2).takeWhile (· ≠ 0x2F)
        let (user, host) ← parseAuthority scheme authority
        let path ← unescape .path (rest.drop (2 + authority.length))
        return ⟨scheme, [], user, host, path, rawQuery, []⟩
      else
        let path ← unescape .path rest
        return ⟨scheme, [], none, [], path, rawQuery, []⟩

/-- `url.Parse`. -/
def parse (rawURL : GoString) : Option URL := do
  let url ← parseReference (cut 0x23 rawURL).1
  let fragment ← unescape .fragment (cut 0x23 rawURL).2
  return { url with fragment := fragment }

def splitHostPort (hostPort : GoString) : GoString × GoString :=
  let colonPort := fromLastColon hostPort
  let (host, port) :=
    if colonPort ≠ [] ∧ validOptionalPort colonPort then
      (hostPort.take (hostPort.length - colonPort.length), colonPort.tail)
    else (hostPort, [])
  if host.head? = some 0x5B ∧ host.getLast? = some 0x5D then (host.tail.dropLast, port) else (host, port)

def URL.hostname (url : URL) : GoString := (splitHostPort url.host).1

def URL.port (url : URL) : GoString := (splitHostPort url.host).2

/-! ## Queries -/

/-- One `key=value`. -/
def parseParameter (parameter : GoString) : Option (GoString × GoString) := do
  guard (0x3B ∉ parameter)
  let key ← unescape .queryComponent (cut 0x3D parameter).1
  let value ← unescape .queryComponent (cut 0x3D parameter).2
  return (key, value)

/-- `url.ParseQuery`, with the values in their order. -/
def parseQuery (query : GoString) : Option (List (GoString × GoString)) := do
  let parameters := query.splitOn 0x26
  guard (parameters.length ≤ 10000)
  (parameters.filter (· ≠ [])).mapM parseParameter

example : parse (lit "codex-router://open/?path=C%3A%5Ca") =
    some ⟨lit "codex-router", [], none, lit "open", lit "/", lit "path=C%3A%5Ca", []⟩ := by decide +kernel

end SubscriptionRouter.GoUrl
