import SecurityScan.Url.Host
import SecurityScan.Json.Printer

namespace SecurityScan

open Decimal

/-!
# Absolute addresses

* `Url` — the parts of an absolute address;
* `Url.parse?` — reads an address as browsers do: blanks at the ends and line breaks do not count,
  and schemes that name machines must name one;
* `Url.target` — what a request to the address asks for.
-/

/-- An absolute address. -/
structure Url where
  scheme : String
  /-- There is a user name or a password. -/
  hasUserInfo : Bool
  host : Option Url.Host
  /-- The port, unless it is the scheme's own. -/
  port : Option Nat
  path : String
  query : Option String
deriving DecidableEq, Repr

namespace Url

/-- The schemes that name machines, with their ports. -/
def specialPort? (scheme : String) : Option (Option Nat) :=
  [("http", some 80), ("https", some 443), ("ws", some 80), ("wss", some 443), ("ftp", some 21),
    ("file", none)].lookup scheme

/-- A character that does not count at either end of an address. -/
def isEdge (c : Char) : Bool := c.toNat ≤ 0x20

/-- The characters of an address that count. -/
def significant (s : String) : List Char :=
  let cs := s.toList.dropWhile isEdge
  ((cs.reverse.dropWhile isEdge).reverse).filter fun c => !(c = '\t' || c = '\n' || c = '\r')

/-- The scheme, and what follows its colon. -/
def readScheme (cs : List Char) : Option (String × List Char) :=
  let name := cs.takeWhile fun c => c.isAlphanum || c = '+' || c = '-' || c = '.'
  match cs.drop name.length with
  | ':' :: rest =>
    if name.head?.any Char.isAlpha then some (String.ofList (name.map Char.toLower), rest) else none
  | _ => none

/-- A port after its colon: nothing, or digits below the bound. -/
def readPort (ds : List Char) : Option (Option Nat) :=
  if ds.isEmpty then some none
  else if ds.all Char.isDigit && value ds < 65536 then some (some (value ds))
  else none

/-- Splits a host from its port: at the last colon that is not inside brackets. -/
def splitPort (cs : List Char) : List Char × Option (List Char) :=
  let back := cs.reverse.takeWhile fun c => c != ':' && c != ']'
  match cs.reverse.drop back.length with
  | ':' :: rest => (rest.reverse, some back.reverse)
  | _ => (cs, none)

/-- Splits off what stands before the last `@`. -/
def splitUserInfo (cs : List Char) : Option (List Char) × List Char :=
  let back := cs.reverse.takeWhile (· != '@')
  match cs.reverse.drop back.length with
  | _ :: rest => (some rest.reverse, back.reverse)
  | [] => (none, cs)

/-! ### Paths -/

/-- A character as percent-escapes of its UTF-8 octets. -/
def escapeOctets (c : Char) : List Char :=
  (String.singleton c).toUTF8.toList.flatMap fun b =>
    ['%', (Json.hexDigit (b.toNat / 16)).toUpper, (Json.hexDigit b.toNat).toUpper]

/-- Escapes control characters, characters outside ASCII and those of a list. -/
def escapeIn (marks : String) (cs : List Char) : List Char :=
  cs.flatMap fun c =>
    if c.toNat < 0x20 || 0x7e < c.toNat || marks.toList.contains c then escapeOctets c else [c]

/-- The step that stays in place. -/
def isHere (step : List Char) : Bool := [".", "%2e"].contains (String.ofList (step.map Char.toLower))

/-- The step that goes one up. -/
def isUp (step : List Char) : Bool :=
  ["..", ".%2e", "%2e.", "%2e%2e"].contains (String.ofList (step.map Char.toLower))

/-- The steps of a path after it has been walked; `done` holds those walked, the last first. -/
def walk : List (List Char) → List (List Char) → List (List Char)
  | [], done => done.reverse
  | step :: rest, done =>
    if isUp step then
      walk rest (if rest.isEmpty then [] :: done.drop 1 else done.drop 1)
    else if isHere step then walk rest (if rest.isEmpty then [] :: done else done)
    else walk rest (escapeIn " \"#<>?`\x7b\x7d" step :: done)

/-- The path of an address that names a machine: it starts with a slash. -/
def hierarchicalPath (cs : List Char) : String :=
  let cs := if cs.head? = some '/' then cs.drop 1 else cs
  String.ofList ((walk (Text.splitAt '/' cs) []).flatMap fun step => '/' :: step)

/-! ### Addresses -/

/-- Splits off the fragment, then the query. -/
def splitTail (cs : List Char) : List Char × Option (List Char) :=
  let cs := cs.takeWhile (· != '#')
  let path := cs.takeWhile (· != '?')
  (path, (cs.drop path.length)[0]?.map fun _ => cs.drop (path.length + 1))

/-- The address with the given parts, its query escaped. -/
def assemble (scheme : String) (special hasUserInfo : Bool) (host : Option Host)
    (port : Option Nat) (path : String) (query : Option (List Char)) : Url :=
  { scheme, hasUserInfo, host, port, path
    query := query.map fun q =>
      String.ofList (escapeIn (if special then " \"#<>'" else " \"#<>") q) }

/-- An address whose double slash has been read. -/
def readAuthority (scheme : String) (special : Bool) (own : Option Nat) (cs : List Char) :
    Option Url := do
  let (front, query) := splitTail cs
  let front := if special then front.map fun c => if c = '\\' then '/' else c else front
  let authority := front.takeWhile (· != '/')
  let (user, machine) := splitUserInfo authority
  let (name, digits) := splitPort machine
  let port ← readPort (digits.getD [])
  let named := user.isSome || digits.isSome
  let host ←
    if special then
      if name.isEmpty && scheme = "file" && !named then pure none else (Host.parse? name).map some
    else if name.isEmpty then (if named then none else pure none)
    else (Host.parseOpaque? name).map some
  let rest := front.drop authority.length
  return assemble scheme special (user.any fun u => !u.isEmpty) host
    (port.filter fun p => some p ≠ own)
    (if special || !rest.isEmpty then hierarchicalPath rest else "") query

/-- The address that a text writes out in full. -/
def parse? (s : String) : Option Url := do
  let (scheme, rest) ← readScheme (significant s)
  match specialPort? scheme with
  | some own =>
    if scheme = "file" then
      match rest.map fun c => if c = '\\' then '/' else c with
      | '/' :: '/' :: _ => readAuthority scheme true own (rest.drop 2)
      | _ =>
        let (path, query) := splitTail rest
        return assemble scheme true false none none
          (hierarchicalPath (path.map fun c => if c = '\\' then '/' else c)) query
    else readAuthority scheme true own (rest.dropWhile fun c => c = '/' || c = '\\')
  | none =>
    match rest with
    | '/' :: '/' :: more => readAuthority scheme false none more
    | _ =>
      let (path, query) := splitTail rest
      let path := if path.head? = some '/' then hierarchicalPath path
        else String.ofList (escapeIn "" path)
      return assemble scheme false false none none path query

/-- What a request asks for: the path, and the query after a question mark. -/
def target (u : Url) : String :=
  u.path ++ (match u.query with
    | some q => "?" ++ q
    | none => "")

end Url

end SecurityScan
