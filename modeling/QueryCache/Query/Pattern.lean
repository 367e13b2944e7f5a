/-!
# Text patterns and regular expressions

In a pattern `%` stands for any run of characters, `_` for any one character and every other
character for itself. As a regular expression the pattern is anchored at both ends; a run becomes
`.*`, a single character `.`, and the text between them is escaped where a regular expression would
read it otherwise.

## Main definitions

* `Pattern.escape` : a text as a literal of a regular expression.
* `Pattern.toRegex` : the anchored regular expression of a pattern.
-/

namespace QueryCache.Pattern

/-- The characters that a regular expression does not read as themselves. -/
def metacharacters : List Char :=
  ['\\', '.', '+', '*', '?', '(', ')', '|', '[', ']', '\x7b', '\x7d', '^', '$', '#', '&', '-', '~']

/-- A literal text within a regular expression. -/
def escape (text : List Char) : List Char :=
  text.flatMap fun c => if c ∈ metacharacters then ['\\', c] else [c]

/-- The rest of a pattern behind a literal text, which ends at the next wildcard or with the
pattern. -/
def translate (literal : List Char) : List Char → List Char
  | [] => escape literal
  | '%' :: rest => escape literal ++ '.' :: '*' :: translate [] rest
  | '_' :: rest => escape literal ++ '.' :: translate [] rest
  | c :: rest => translate (literal ++ [c]) rest

/-- The anchored regular expression of a pattern. -/
def toRegex (pattern : String) : String :=
  "^" ++ String.ofList (translate [] pattern.toList) ++ "$"

end QueryCache.Pattern
