import SecurityScan.Text.Blank

namespace SecurityScan.Text

/-!
# Searching without regard to case

The words searched for are ASCII words in lower case.  A character outside ASCII can only matter if
its lower case holds an ASCII letter, and there are two such characters: the Kelvin sign and the
capital I with a dot.

* `foldCase` — the lower case of a text as far as such a search can see it;
* `mentions` — a word occurs in a text, whatever the case of the letters;
* `sameWord` — two texts differ at most in the case of ASCII letters.
-/

/-- The lower case of a character, except that a character whose lower case holds no ASCII letter
    stays itself. -/
def foldChar (c : Char) : List Char :=
  if c = '\u212a' then ['k']
  else if c = '\u0130' then ['i', '\u0307']
  else [c.toLower]

/-- The lower case of a text, as far as a search for ASCII words can tell. -/
def foldCase (cs : List Char) : List Char := cs.flatMap foldChar

/-- The word occurs in the text in some mixture of cases. -/
def mentions (text : List Char) (word : String) : Bool := occurs word.toList (foldCase text)

/-- Two texts are equal but for the case of ASCII letters. -/
def sameWord (a b : String) : Bool := a.map Char.toLower == b.map Char.toLower

theorem sameWord_iff {a b : String} :
    sameWord a b = true ↔ a.toList.map Char.toLower = b.toList.map Char.toLower := by
  rw [sameWord, beq_iff_eq, ← String.toList_inj, String.toList_map, String.toList_map]

end SecurityScan.Text
