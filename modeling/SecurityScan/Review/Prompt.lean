import SecurityScan.Text.Blank

namespace SecurityScan.Review

/-!
# What a generator is asked

* `instruction` — the role the generator shall take;
* `template` — the question, with places for the name of the language and for the source text;
* `question` — the question about a source text.
-/

/-- The role the generator shall take. -/
def instruction : String :=
  "You are a security-focused code analysis assistant. Analyze code for security issues and " ++
  "provide detailed, actionable feedback."

/-- The place for the name of the language. -/
def languagePlace : String := "\x7blanguage\x7d"

/-- The place for the source text. -/
def codePlace : String := "\x7bcode\x7d"

/-- The lines of the question. -/
def templateLines : List String :=
  ["Analyze the following " ++ languagePlace ++
      " code for security vulnerabilities, code quality issues, and potential bugs.",
    "Focus on:",
    "1. Security vulnerabilities (XSS, SQL injection, etc.)",
    "2. Input validation issues",
    "3. Authentication/Authorization concerns",
    "4. Data exposure risks",
    "5. Code quality and best practices",
    "6. Performance considerations",
    "",
    "Code to analyze:",
    codePlace,
    "",
    "Provide a detailed analysis including:",
    "- Severity level for each issue (high/medium/low)",
    "- Description of each vulnerability or issue",
    "- Location in code (if applicable)",
    "- Recommendations for fixing",
    "- Secure code examples where relevant",
    "- General best practices"]

/-- The question with its places; each line ends with a line feed. -/
def template : String := String.join (templateLines.map (· ++ "\n"))

/-- Puts a text in every place of a kind. -/
def fill (place text : String) (cs : List Char) : List Char :=
  Text.replaceAll place.toList text.toList cs

/-- The question about a source text.  The name of the language is put in first, so that a place
    for the source text inside that name is filled too, but nothing in the source text is. -/
def question (code language : String) : String :=
  String.ofList (fill codePlace code (fill languagePlace language template.toList))

end SecurityScan.Review
