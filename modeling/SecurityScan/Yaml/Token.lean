namespace SecurityScan.Yaml

/-!
# Tokens of YAML text

* `Token` — what a YAML text consists of once its indentation has been turned into the starts and
  ends of blocks.
-/

/-- A token; the end of the list of tokens is the end of the text. -/
inductive Token where
  | version (major minor : Nat)
  | tagShorthand (handle lead : String)
  | documentStart
  | documentEnd
  | blockSequenceStart
  | blockMappingStart
  | blockEnd
  | flowSequenceStart
  | flowSequenceEnd
  | flowMappingStart
  | flowMappingEnd
  | blockEntry
  | flowEntry
  | key
  | value
  | alias (name : String)
  | anchor (name : String)
  | tag (handle suffix : String)
  /-- A scalar; only a plain one, written without quotes, can be anything but a string. -/
  | scalar (plain : Bool) (text : String)
deriving DecidableEq, Repr, Inhabited

end SecurityScan.Yaml
