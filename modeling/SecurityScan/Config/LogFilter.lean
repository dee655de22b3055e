import SecurityScan.Decimal.Reading
import SecurityScan.Text.Search
import SecurityScan.Config.Basic

namespace SecurityScan

/-!
# Log filters

A filter is a list of directives with commas between them, such as `info,store[open]=debug`.

* `LogFilter.isLevel` — the words and numbers for levels;
* `LogFilter.isDirective` and `LogFilter.isValid` — a directive, and a whole filter;
* `LoggingConfig.filter?` — the filter in force, which the environment may override;
* `LoggingConfig.install` — a logger for a process that has none yet.
-/

namespace LogFilter

/-- The words for levels. -/
def levelWords : List String := ["off", "error", "warn", "info", "debug", "trace"]

/-- The text is a level: nothing, a word in any case, or a number up to five. -/
def isLevel (cs : List Char) : Bool :=
  let digits := match cs with
    | '+' :: ds => ds
    | ds => ds
  cs.isEmpty || levelWords.any (Text.sameWord (String.ofList cs)) ||
    (Decimal.natIn? 10 digits).any (· < levelWords.length)

/-- The blocks of signs outside ASCII that are neither letters nor digits. -/
def signBlocks : List (Nat × Nat) :=
  [(0x80, 0xa9), (0xab, 0xb1), (0xb4, 0xb4), (0xb6, 0xb8), (0xbb, 0xbb), (0xbf, 0xbf),
    (0xd7, 0xd7), (0xf7, 0xf7), (0x2000, 0x206f), (0x20a0, 0x20cf), (0x2190, 0x245f),
    (0x2500, 0x2775), (0x2794, 0x2bff), (0x2e00, 0x2e7f), (0x3000, 0x3004), (0x3008, 0x3020),
    (0xe000, 0xf8ff), (0xfe00, 0xfe0f), (0xfeff, 0xfeff), (0x1f000, 0x1f0ff), (0x1f300, 0x1faff)]

/-- The character may start the name of a target. -/
def startsTarget (c : Char) : Bool :=
  c.isAlphanum || "-:_".toList.contains c ||
    (0x80 ≤ c.toNat && !signBlocks.any fun b => b.1 ≤ c.toNat && c.toNat ≤ b.2)

/-- Where the reading of a directive stands. -/
inductive Place where
  | start
  /-- In a word that may be a level or the name of a target. -/
  | target
  | span
  /-- In a field of a span; nothing of it may have been read yet. -/
  | field (blank : Bool)
  | afterFields
  | afterSpan
  /-- In a level, which starts at an index. -/
  | level (index : Nat)

/-- The character at an index moves the reading on. -/
def Place.step (p : Place) (c : Char) (index : Nat) : Option Place :=
  match p, c with
  | .start, '[' => some .span
  | .start, c => if startsTarget c then some .target else none
  | .target, '=' => some (.level (index + 1))
  | .target, '[' => some .span
  | .target, _ => some .target
  | .span, ']' => some .afterSpan
  | .span, '\x7b' => some (.field true)
  | .span, _ => some .span
  | .field blank, '\x7d' => if blank then none else some .afterFields
  | .field _, _ => some (.field false)
  | .afterFields, ']' => some .afterSpan
  | .afterSpan, '=' => some (.level (index + 1))
  | .level i, _ => some (.level i)
  | _, _ => none

/-- The reading of the characters from an index on. -/
def Place.run (p : Place) (index : Nat) : List Char → Option Place
  | [] => some p
  | c :: cs => (p.step c index).bind fun q => q.run (index + 1) cs

/-- The text is a directive.  Blanks at its ends do not count for its form, but the level is looked
    for as many characters from the start as it would stand without them. -/
def isDirective (cs : List Char) : Bool :=
  match Place.start.run 0 (Text.trim (String.ofList cs)).toList with
  | some .target | some .afterSpan => true
  | some (.level index) => isLevel (cs.drop index)
  | _ => false

/-- The text is a filter; there may be nothing between two commas. -/
def isValid (filter : String) : Bool :=
  (Text.splitAt ',' filter.toList).all fun piece => piece.isEmpty || isDirective piece

end LogFilter

/-- What is logged, and how. -/
structure Logger where
  filter : String
  format : LogFormat
deriving DecidableEq, Repr

/-- Why there is no new logger. -/
inductive LoggingError where
  | malformedFilter (text : String)
  /-- The process has a logger already. -/
  | installed
deriving DecidableEq, Repr

/-- How each error is introduced. -/
def LoggingError.lead : LoggingError → String
  | .malformedFilter _ => "Invalid log filter: "
  | .installed => "Failed to install tracing subscriber: "

/-- The filter in force: the one of the environment if it is valid, else the configured one. -/
def LoggingConfig.filter? (c : LoggingConfig) (fromEnvironment : Option String) : Option String :=
  match fromEnvironment.filter LogFilter.isValid with
  | some f => some f
  | none => if LogFilter.isValid c.level then some c.level else none

/-- A logger for a process, unless it has one. -/
def LoggingConfig.install (c : LoggingConfig) (fromEnvironment : Option String)
    (current : Option Logger) : Except LoggingError Logger :=
  match c.filter? fromEnvironment, current with
  | none, _ => .error (.malformedFilter c.level)
  | some _, some _ => .error .installed
  | some f, none => .ok ⟨f, c.format⟩

end SecurityScan
