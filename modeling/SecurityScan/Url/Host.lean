import SecurityScan.Text.Blank
import SecurityScan.Decimal.Reading

namespace SecurityScan.Url

open Decimal

/-!
# Hosts

* `Host` — a name, an address of either kind, or the opaque host of a scheme with no rules of its
  own;
* `percentDecode?` — a text with its percent-escapes decoded, if that is UTF-8;
* `Host.parse?` and `Host.parseOpaque?` — the host that a text names.
-/

/-- The host of an address. -/
inductive Host where
  | domain (name : String)
  | ipv4 (address : Nat)
  | ipv6 (pieces : List Nat)
  | opaqueName (name : String)
deriving DecidableEq, Repr

/-! ### Percent-escapes -/

/-- The octets of a text after its percent-escapes are decoded; a percent sign that starts no escape
    stands for itself. -/
def decodeOctets : List Char → List UInt8
  | '%' :: a :: b :: cs =>
    if isDigitOf 16 a && isDigitOf 16 b then UInt8.ofNat (valueIn 16 [a, b]) :: decodeOctets cs
    else 0x25 :: decodeOctets (a :: b :: cs)
  | c :: cs => (String.singleton c).toUTF8.toList ++ decodeOctets cs
  | [] => []
termination_by cs => cs.length

/-- A text with its percent-escapes decoded. -/
def percentDecode? (cs : List Char) : Option (List Char) :=
  (String.fromUTF8? (ByteArray.mk (decodeOctets cs).toArray)).map (·.toList)

/-! ### Addresses of four octets -/

/-- A number in an address: hexadecimal after `0x`, octal after another zero, else decimal. -/
def addressNumber? (ds : List Char) : Option Nat :=
  let read (radix : Nat) (ds : List Char) : Option Nat :=
    if ds.all (isDigitOf radix) then some (valueIn radix ds) else none
  match ds with
  | [] => none
  | '0' :: 'x' :: rest | '0' :: 'X' :: rest => read 16 rest
  | '0' :: d :: rest => read 8 (d :: rest)
  | ds => read 10 ds

/-- The parts of a name between its dots, without an empty last part. -/
def dotParts (cs : List Char) : List (List Char) :=
  let parts := Text.splitAt '.' cs
  if 1 < parts.length ∧ parts.getLast? = some [] then parts.dropLast else parts

/-- The last part of the name is a number, so the name must be an address. -/
def endsInNumber (cs : List Char) : Bool :=
  match (dotParts cs).getLast? with
  | some last => !last.isEmpty && (last.all Char.isDigit || (addressNumber? last).isSome)
  | none => false

/-- The address of at most four numbers, of which the last fills what the others leave. -/
def ipv4? (cs : List Char) : Option Nat := do
  let numbers ← (dotParts cs).mapM addressNumber?
  if 4 < numbers.length then none
  let last ← numbers.getLast?
  let leading := numbers.dropLast
  if leading.any (255 < ·) || Nat.pow 256 (4 - leading.length) ≤ last then none
  return (leading.mapIdx fun i n => n * Nat.pow 256 (3 - i)).foldl (· + ·) last

/-! ### Addresses of eight pieces -/

/-- The pieces between colons; the last may be an address of four octets, which makes two. -/
def pieces? : List (List Char) → Option (List Nat)
  | [] => some []
  | [last] =>
    if last.contains '.' then do
      let octets := Text.splitAt '.' last
      if octets.length ≠ 4 then none
      let ns ← octets.mapM fun ds =>
        if ds.isEmpty || !ds.all Char.isDigit || (1 < ds.length && ds.head? = some '0') ||
          255 < value ds then none else some (value ds)
      match ns with
      | [a, b, c, d] => return [a * 256 + b, c * 256 + d]
      | _ => none
    else piece last |>.map ([·])
  | p :: ps => do return (← piece p) :: (← pieces? ps)
where
  /-- One to four hexadecimal digits. -/
  piece (ds : List Char) : Option Nat :=
    if ds.isEmpty || 4 < ds.length || !ds.all (isDigitOf 16) then none else some (valueIn 16 ds)

/-- Splits at the first double colon. -/
def splitDouble : List Char → Option (List Char × List Char)
  | ':' :: ':' :: rest => some ([], rest)
  | c :: rest => (splitDouble rest).map fun p => (c :: p.1, p.2)
  | [] => none

/-- The eight pieces of an address; a double colon stands for at least one zero. -/
def ipv6? (cs : List Char) : Option (List Nat) :=
  let read (cs : List Char) : Option (List Nat) :=
    if cs.isEmpty then some [] else pieces? (Text.splitAt ':' cs)
  match splitDouble cs with
  | none => (read cs).filter (·.length = 8)
  | some (front, back) => do
    if front.contains '.' then none
    let front ← read front
    let back ← read back
    if 7 < front.length + back.length then none
    return front ++ List.replicate (8 - front.length - back.length) 0 ++ back

/-! ### Hosts -/

/-- The characters that no host may hold. -/
def isForbiddenInHost (c : Char) : Bool :=
  "\x00\t\n\r #/:<>?@[\\]^|".toList.contains c

/-- The characters that no name may hold. -/
def isForbiddenInDomain (c : Char) : Bool :=
  isForbiddenInHost c || c.toNat < 0x20 || c = '%' || c = '\x7f'

/-- The host of a scheme that names machines. -/
def Host.parse? (cs : List Char) : Option Host :=
  match cs with
  | '[' :: rest =>
    if rest.getLast? = some ']' then (ipv6? rest.dropLast).map .ipv6 else none
  | cs => do
    let name := (← percentDecode? cs).map Char.toLower
    if name.isEmpty || name.any isForbiddenInDomain then none
    if endsInNumber name then (ipv4? name).map .ipv4
    else return .domain (String.ofList name)

/-- The host of any other scheme. -/
def Host.parseOpaque? (cs : List Char) : Option Host :=
  match cs with
  | '[' :: rest =>
    if rest.getLast? = some ']' then (ipv6? rest.dropLast).map .ipv6 else none
  | cs => if cs.any isForbiddenInHost then none else some (.opaqueName (String.ofList cs))

end SecurityScan.Url
