import MarketFeed.Text.Digit
import MarketFeed.Text.Utf8

/-!
# Addresses of resources

The address of a resource on the web: who serves it and what is asked for there. An address is read
leniently. White space around it and line ends within it do not count, a backslash is a slash, the
parts `.` and `..` of a path are followed, and characters that may not stand in a request are
written as their bytes.

## Main definitions

* `Url`: the addresses
* `Url.ofText`: reads one
* `Url.target`: what is asked for, as it stands in a request
* `UrlFault`: why a text is no address to which a request can be sent
-/

namespace MarketFeed

/-- The address of a resource. -/
structure Url where
  scheme : String
  /-- the host, and the port unless it is the scheme's own -/
  authority : String
  path : String
  query : Option String
  deriving DecidableEq

/-- Why a text is no address to which a request can be sent. -/
inductive UrlFault
  /-- it has no scheme -/
  | relative
  | emptyHost
  | badPort
  /-- requests are not sent by this scheme -/
  | scheme (text : String)
  deriving DecidableEq

/-- the wording of a fault -/
def UrlFault.message : UrlFault → String
  | .relative => "builder error: relative URL without a base"
  | .emptyHost => "builder error: empty host"
  | .badPort => "builder error: invalid port number"
  | .scheme text => s!"builder error for url ({text}): URL scheme is not allowed"

namespace Url

/-- what is asked for, as it stands in a request -/
def target (u : Url) : String :=
  match u.query with
  | some q => s!"{u.path}?{q}"
  | none => u.path

/-- the address as a text -/
def text (u : Url) : String := s!"{u.scheme}://{u.authority}{u.target}"

/-- Characters that are written as their bytes wherever they stand. -/
def unsafeAnywhere (c : Char) : Bool :=
  c.toNat ≤ 0x20 || 0x7F ≤ c.toNat || c == '"' || c == '<' || c == '>' || c == '#'

/-- Characters of a path that are written as their bytes. -/
def unsafeInPath (c : Char) : Bool :=
  unsafeAnywhere c || c == '?' || c == '\x60' || c == '\x7b' || c == '\x7d'

/-- Characters of a query that are written as their bytes. -/
def unsafeInQuery (c : Char) : Bool := unsafeAnywhere c || c == '\''

/-- A hexadecimal digit in upper case. -/
def hexDigit (n : Nat) : Char := if n < 10 then Text.digit n else Char.ofNat ('A'.toNat + n - 10)

/-- A byte as a percent sign and two digits. -/
def percentByte (b : Nat) : List Char := ['%', hexDigit (b / 16), hexDigit (b % 16)]

/-- A text in which some characters are written as their bytes. -/
def escape (isUnsafe : Char → Bool) (cs : List Char) : List Char :=
  cs.flatMap fun c => if isUnsafe c then (Text.encodeChar c).flatMap percentByte else [c]

/-- A slash of either slant. -/
def isSlash (c : Char) : Bool := c == '/' || c == '\\'

/-- The parts of a text between slashes. -/
def splitSlashes : List Char → List (List Char)
  | [] => [[]]
  | c :: cs =>
    if isSlash c then [] :: splitSlashes cs
    else match splitSlashes cs with
      | part :: parts => (c :: part) :: parts
      | [] => [[c]]

/-- A part with its points written plainly. -/
def plainDots : List Char → List Char
  | '%' :: '2' :: 'e' :: cs | '%' :: '2' :: 'E' :: cs => '.' :: plainDots cs
  | c :: cs => c :: plainDots cs
  | [] => []

/-- The parts of a path after `.` and `..` have been followed, the last one first. One of them at
the end leaves an empty part. -/
def follow : List (List Char) → List (List Char) → List (List Char)
  | back, [] => back
  | back, part :: parts =>
    let back := if plainDots part = ['.', '.'] then back.tail
      else if plainDots part = ['.'] then back
      else part :: back
    if parts.isEmpty ∧ (plainDots part = ['.', '.'] ∨ plainDots part = ['.']) then [] :: back
    else follow back parts

/-- The path that a text writes. -/
def pathOf (cs : List Char) : String :=
  let parts := match cs with
    | c :: rest => splitSlashes (if isSlash c then rest else cs)
    | [] => [[]]
  String.ofList ((follow [] parts).reverse.flatMap fun part => '/' :: escape unsafeInPath part)

/-- The path and the query that a text writes; what follows a hash mark is not sent. -/
def resourceOf (cs : List Char) : String × Option String :=
  match (cs.takeWhile (· ≠ '#')).span (· ≠ '?') with
  | (path, _ :: query) => (pathOf path, some (String.ofList (escape unsafeInQuery query)))
  | (path, []) => (pathOf path, none)

/-- The scheme at the front of a text, in lower case, and what follows its colon. -/
def scheme? : List Char → Option (List Char × List Char)
  | [] => none
  | c :: cs =>
    let follows := fun (c : Char) => c.isAlphanum || c == '+' || c == '-' || c == '.'
    if c.isAlpha then
      match cs.span follows with
      | (more, ':' :: rest) => some ((c :: more).map Char.toLower, rest)
      | _ => none
    else none

/-- The port at the end of an authority; none is the scheme's own. -/
def portOf (own : Nat) : List Char → Except UrlFault (Option Nat)
  | [] => .ok none
  | cs =>
    match Text.readNat? 65536 cs with
    | some n => .ok (if n = own then none else some n)
    | none => .error .badPort

/-- The host and the port that a text writes. What stands before an at sign is the user's name. -/
def authorityOf (own : Nat) (cs : List Char) : Except UrlFault String := do
  let served := (cs.reverse.takeWhile (· ≠ '@')).reverse
  let (host, rest) := match served with
    | '[' :: _ =>
      let (address, rest) := served.span (· ≠ ']')
      (address ++ rest.take 1, rest.drop 1)
    | _ => served.span (· ≠ ':')
  if host.isEmpty then .error .emptyHost
  else
    match rest with
    | [] => return String.ofList (host.map Char.toLower)
    | _ :: port =>
      match ← portOf own port with
      | none => return String.ofList (host.map Char.toLower)
      | some n => return s!"{String.ofList (host.map Char.toLower)}:{n}"

/-- A text without white space around it and line ends and tabs within. -/
def trimmed (cs : List Char) : List Char :=
  let blank := fun (c : Char) => decide (c.toNat ≤ 0x20)
  (((cs.dropWhile blank).reverse.dropWhile blank).reverse).filter fun c =>
    c ≠ '\t' ∧ c ≠ '\n' ∧ c ≠ '\r'

/-- The text of an address of a scheme by which nothing is sent. -/
def foreignText (scheme rest : List Char) : String :=
  let head := String.ofList scheme
  let isControl := fun (c : Char) => decide (c.toNat < 0x20) || decide (0x7F ≤ c.toNat)
  match rest with
  | '/' :: '/' :: rest =>
    let (authority, rest) := rest.span fun c => c ≠ '/' ∧ c ≠ '?' ∧ c ≠ '#'
    let (path, query) := resourceOf rest
    (Url.mk head (String.ofList authority) path query).text
  | _ => s!"{head}:" ++ String.ofList (escape isControl rest)

/-- The address that a text writes. Requests are sent by two schemes only. -/
def ofText (s : String) : Except UrlFault Url := do
  match scheme? (trimmed s.toList) with
  | none => .error .relative
  | some (scheme, rest) =>
    let own? := [("http", 80), ("https", 443)].lookup (String.ofList scheme)
    match own? with
    | none => .error (.scheme (foreignText scheme rest))
    | some own =>
      let (authority, rest) := (rest.dropWhile isSlash).span fun c =>
        !(isSlash c || c == '?' || c == '#')
      let authority ← authorityOf own authority
      let (path, query) := resourceOf rest
      return ⟨String.ofList scheme, authority, path, query⟩

end Url

end MarketFeed
