import SecurityScan.Text.Blank

namespace SecurityScan.Source

/-!
# Examples of secure code

* `SecureExample` — a snippet and the texts that call for it;
* `SecureExample.all` — the snippets in the order of their priority;
* `secureExample?` — the snippet for a text.

What calls for a snippet is looked for in the plain text, so it can be there where no probe fires.
-/

/-- A snippet and the texts that must all occur to call for it. -/
structure SecureExample where
  triggers : List String
  snippet : String

/-- A text of several lines. -/
def textOfLines (lines : List String) : String := "\n".intercalate lines

namespace SecureExample

/-- What to write instead of `eval`. -/
def eval : SecureExample where
  triggers := ["eval("]
  snippet := textOfLines [
    "// Instead of eval, use safer alternatives:",
    "const jsonData = JSON.parse(jsonString);",
    "",
    "// For dynamic property access:",
    "const obj = \x7b",
    "  prop1: 'value1',",
    "  prop2: 'value2'",
    "\x7d;",
    "const prop = 'prop1';",
    "const value = obj[prop]; // Safe way to access properties dynamically"]

/-- What to write instead of an assignment to `innerHTML`. -/
def innerHtml : SecureExample where
  triggers := ["innerHTML"]
  snippet := textOfLines [
    "// Instead of innerHTML, use safer alternatives:",
    "// 1. For text content:",
    "element.textContent = sanitizedContent;",
    "",
    "// 2. For creating elements:",
    "const newElement = document.createElement('div');",
    "newElement.textContent = sanitizedContent;",
    "parentElement.appendChild(newElement);"]

/-- What to write instead of a timer that is given source text. -/
def timer : SecureExample where
  triggers := ["setTimeout", "\""]
  snippet := textOfLines [
    "// Instead of setTimeout with string:",
    "// Bad:",
    "setTimeout(\"doSomething()\", 1000);",
    "",
    "// Good:",
    "setTimeout(() => \x7b",
    "  doSomething();",
    "\x7d, 1000);"]

/-- What to write instead of `document.write`. -/
def documentWrite : SecureExample where
  triggers := ["document.write"]
  snippet := textOfLines [
    "// Instead of document.write, use modern DOM manipulation:",
    "// Bad:",
    "document.write('<h1>Hello</h1>');",
    "",
    "// Good:",
    "const heading = document.createElement('h1');",
    "heading.textContent = 'Hello';",
    "document.body.appendChild(heading);"]

/-- What to write instead of a regular expression put together at run time. -/
def regexp : SecureExample where
  triggers := ["RegExp(", "+"]
  snippet := textOfLines [
    "// Instead of dynamic RegExp, use static patterns:",
    "// Bad:",
    "const userInput = 'hello';",
    "const regex = new RegExp(userInput + '.*');",
    "",
    "// Good:",
    "const regex = /^[a-zA-Z]+.*$/;",
    "// Or if dynamic is necessary, validate the pattern:",
    "if (/^[a-zA-Z]+$/.test(userInput)) \x7b",
    "  const regex = new RegExp(userInput + '.*');",
    "\x7d"]

/-- The snippets in the order of their priority. -/
def all : List SecureExample := [eval, innerHtml, timer, documentWrite, regexp]

/-- The text calls for the snippet. -/
def isFor (e : SecureExample) (text : List Char) : Bool :=
  e.triggers.all fun t => Text.occurs t.toList text

end SecureExample

/-- The snippet for a text: the first that the text calls for. -/
def secureExample? (text : List Char) : Option String :=
  (SecureExample.all.find? fun e => e.isFor text).map (·.snippet)

end SecurityScan.Source
