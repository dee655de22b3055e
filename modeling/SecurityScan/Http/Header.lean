import SecurityScan.Text.Search
import SecurityScan.Decimal.Reading

namespace SecurityScan.Http

/-!
# Header fields

* `Headers.get?` — the value under a name, which may be written in any case;
* `received` — a value as it arrives;
* `isFieldValue` — the texts that can be sent as values;
* `count?` — a value that is a number;
* `isJsonType` — a media type that stands for JSON.
-/

/-- Names and values of header fields, in their order. -/
abbrev Headers := List (String × String)

/-- The value under a name; the first if there are several. -/
def Headers.get? (hs : Headers) (name : String) : Option String :=
  (hs.find? fun h => Text.sameWord h.1 name).map (·.2)

/-- A value as it arrives: without the blanks and tabs at its ends. -/
def received (value : String) : String := String.ofList (Text.stripEnds Text.isPad value.toList)

/-- The text can be sent as a value: it holds no control characters but tabs. -/
def isFieldValue (s : String) : Bool :=
  s.toList.all fun c => c = '\t' || (0x20 ≤ c.toNat && c.toNat ≠ 0x7f)

/-- The number of a value, which must be below `2 ^ 64` and may have a plus sign. -/
def count? (s : String) : Option Nat :=
  let digits := match s.toList with
    | '+' :: ds => ds
    | ds => ds
  (Decimal.natIn? 10 digits).filter (· < Nat.pow 2 64)

/-! ### Media types -/

/-- The characters of the words in a media type. -/
def isTokenChar (c : Char) : Bool := c.isAlphanum || "!#$%&'*+-.^_\x60|~".toList.contains c

/-- A list of characters is a word. -/
def isToken (cs : List Char) : Bool := !cs.isEmpty && cs.all isTokenChar

/-- What follows a quoted value and its semicolon, the text starting after the opening quote.  The
    value must not be empty. -/
def afterQuoted? (cs : List Char) : Option (List Char) :=
  let isQuotable (c : Char) : Bool := 0x20 ≤ c.toNat && c.toNat < 0x7f
  match cs with
  | [] => none
  | first :: rest =>
    if !isQuotable first then none
    else
      let value := rest.takeWhile fun c => c ≠ '"'
      match rest.dropWhile fun c => c ≠ '"' with
      | _ :: more =>
        if !value.all isQuotable then none
        else match more.dropWhile (· = ' ') with
          | [] => some []
          | ';' :: next => some next
          | _ => none
      | [] => none

/-- What follows one parameter and its semicolon. -/
def afterParameter? (cs : List Char) : Option (List Char) :=
  match cs.dropWhile isTokenChar with
  | '=' :: '"' :: quoted => if (cs.takeWhile isTokenChar).isEmpty then none else afterQuoted? quoted
  | '=' :: value =>
    if (cs.takeWhile isTokenChar).isEmpty then none
    else match value.dropWhile isTokenChar with
      | [] => some []
      | ';' :: next => if (value.takeWhile isTokenChar).isEmpty then none else some next
      | _ => none
  | _ => none

/-- The text is a list of parameters; blanks may stand before each. -/
def areParameters (cs : List Char) : Bool :=
  match cs.dropWhile (· = ' ') with
  | [] => true
  | c :: rest =>
    match afterParameter? (c :: rest) with
    | some next => if next.length < cs.length then areParameters next else false
    | none => false
termination_by cs.length

/-- The subtype stands for JSON: the word itself, perhaps with a suffix, or any word with it as its
    suffix.  A plus sign at the start begins no suffix. -/
def isJsonSubtype (cs : List Char) : Bool :=
  match cs with
  | [] => false
  | first :: rest =>
    match (Text.splitAt '+' rest).reverse with
    | last :: others =>
      if others.isEmpty then Text.sameWord (String.ofList cs) "json"
      else
        let base := first :: ['+'].intercalate others.reverse
        Text.sameWord (String.ofList base) "json" || Text.sameWord (String.ofList last) "json"
    | [] => false

/-- The media type stands for JSON. -/
def isJsonType (s : String) : Bool :=
  let isSemicolon (c : Char) : Bool := c = ';'
  let essence := s.toList.takeWhile fun c => !isSemicolon c
  let parameters := (s.toList.dropWhile fun c => !isSemicolon c).drop 1
  match Text.splitAt '/' essence with
  | [main, sub] =>
    Text.sameWord (String.ofList main) "application" && isToken sub && isJsonSubtype sub &&
      areParameters parameters
  | _ => false

end SecurityScan.Http
