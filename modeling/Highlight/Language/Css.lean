/-
# The grammar of CSS

Three grammars: style sheets, what stands in an at-rule, and what stands in a
`url(…)`.  An at-rule falls back to the grammar of style sheets, so that its
prelude gets properties and punctuation beside its own keywords.

Patterns are read with the ASCII flag: word characters and case are those of
ASCII, and letters beyond it are listed as `\xA0-\uFFFF`.  Space is spelled
out, with the separators beyond ASCII and U+FEFF.

`sources_compile` says that every pattern of the three grammars compiles.
-/

import Highlight.Grammar.Store

namespace Highlight
namespace Css

/-! ### The sources of the patterns -/

/-- The members of the set of space characters. -/
def spaceMembers : Text :=
  "\\t\\n\\v\\f\\r \\xa0\\u1680\\u2000-\\u200a\\u2028\\u2029\\u202f\\u205f\\u3000\\ufeff".toList

/-- The set of space characters. -/
def space : Text :=
  "[".toList ++ spaceMembers ++ "]".toList

/-- A string between double or single quotes. -/
def string : Text :=
  "(?:\"(?:\\\\(?:\\r\\n|[\\s\\S])|[^\"\\\\\\r\\n])*\"|".toList ++
    "'(?:\\\\(?:\\r\\n|[\\s\\S])|[^'\\\\\\r\\n])*')".toList

/-- A comment. -/
def comment : Text :=
  "/\\*[\\s\\S]*?\\*/".toList

/-- The name and prelude of an at-rule, up to its block or its end. -/
def atRule : Text :=
  "@[\\w-](?:[^;\x7b".toList ++ spaceMembers ++ "\\\"']|".toList ++
    space ++ "+(?!".toList ++ space ++ ")|".toList ++
    string ++ ")*?(?:;|(?=".toList ++ space ++ "*\\\x7b))".toList

/-- A location, quoted or not. -/
def url : Text :=
  "\\burl\\((?:".toList ++ string ++ "|(?:[^\\\\\\r\\n()\\\"']|\\\\[\\s\\S])*)\\)".toList

/-- What stands before a block. -/
def selector : Text :=
  "(^|[\x7b\x7d".toList ++ spaceMembers ++ "])[^\x7b\x7d".toList ++ spaceMembers ++
    "](?:[^\x7b\x7d;\\\"'".toList ++ spaceMembers ++ "]|".toList ++
    space ++ "+(?![".toList ++ spaceMembers ++ "\x7b])|".toList ++
    string ++ ")*(?=".toList ++ space ++ "*\\\x7b)".toList

/-- What stands before a colon. -/
def property : Text :=
  "(^|[^-\\w\\xA0-\\uFFFF])(?!".toList ++ space ++ ")[-_a-z\\xA0-\\uFFFF](?:(?!".toList ++
    space ++ ")[-\\w\\xA0-\\uFFFF])*(?=".toList ++ space ++ "*:)".toList

/-- The mark of priority. -/
def important : Text :=
  "!important\\b".toList

/-- What stands before an opening parenthesis. -/
def function : Text :=
  "(^|[^-a-z0-9])[-a-z0-9]+(?=\\()".toList

/-- Brackets and separators. -/
def punctuation : Text :=
  "[()\x7b\x7d;:,]".toList

/-- The name of an at-rule. -/
def ruleName : Text :=
  "^@[\\w-]+".toList

/-- What a selector query asks for. -/
def selectorArgument : Text :=
  "(\\bselector".toList ++ space ++ "*\\(".toList ++ space ++ "*(?![".toList ++ spaceMembers ++
    ")]))(?:[^()".toList ++ spaceMembers ++ "]|".toList ++
    space ++ "+(?![".toList ++ spaceMembers ++ ")])".toList ++
    "|\\((?:[^()]|\\([^()]*\\))*\\))+(?=".toList ++ space ++ "*\\))".toList

/-- The connectives of a media query. -/
def keyword : Text :=
  "(^|[^\\w-])(?:and|not|only|or)(?![\\w-])".toList

/-- The name of the location function. -/
def urlName : Text :=
  "^url".toList

/-- The brackets of a location. -/
def urlBrackets : Text :=
  "^\\(|\\)\\Z".toList

/-- A location that is nothing but a string. -/
def urlString : Text :=
  "^".toList ++ string ++ "\\Z".toList

/-! ### The patterns -/

/-- With the ASCII flag alone. -/
def plainFlags : Pattern.Flags where
  ascii := true

/-- With the ASCII flag and no regard to case. -/
def foldFlags : Pattern.Flags where
  ascii := true
  ignoreCase := true

/-- The source and the flags of every pattern of the three grammars. -/
def sources : List (Text × Pattern.Flags) :=
  [(comment, plainFlags), (atRule, plainFlags), (url, foldFlags), (selector, plainFlags),
    (string, plainFlags), (property, foldFlags), (important, foldFlags), (function, foldFlags),
    (punctuation, plainFlags), (ruleName, plainFlags), (selectorArgument, plainFlags),
    (keyword, plainFlags), (urlName, foldFlags), (urlBrackets, plainFlags),
    (urlString, plainFlags)]

/-- **Every pattern of the three grammars compiles.** -/
theorem sources_compile :
    sources.all (fun s => (Pattern.compile s.1 s.2).toOption.isSome) = true := by
  decide +kernel

/-- The pattern of one of the sources. -/
def pattern (source : Text) (flags : Pattern.Flags) (h : (source, flags) ∈ sources) : Pattern :=
  (Pattern.compile source flags).toOption.get (List.all_eq_true.mp sources_compile _ h)

/-! ### The grammars -/

/-- The number of the grammar of style sheets. -/
def sheetId : GrammarId := 0

/-- The number of the grammar of at-rules. -/
def atRuleId : GrammarId := 1

/-- The number of the grammar of locations. -/
def urlId : GrammarId := 2

/-- An entry that is a pattern. -/
def bare (p : Pattern) : Declaration :=
  .single (.pattern (.compiled p))

/-- An entry that is a rule. -/
def ruled (r : Rule Pattern Ref) : Declaration :=
  .single (.rule { r with pattern := .expression (.compiled r.pattern) })

/-- The grammar of style sheets. -/
def sheet : Grammar where
  name := "css"
  entries := [
    ("comment", bare (pattern comment plainFlags (by simp [sources]))),
    ("atrule", ruled
      { pattern := pattern atRule plainFlags (by simp [sources])
        inside := some (.grammar atRuleId) }),
    ("url", ruled
      { pattern := pattern url foldFlags (by simp [sources])
        greedy := true
        inside := some (.grammar urlId) }),
    ("selector", ruled
      { pattern := pattern selector plainFlags (by simp [sources])
        lookbehind := true }),
    ("string", ruled
      { pattern := pattern string plainFlags (by simp [sources])
        greedy := true }),
    ("property", ruled
      { pattern := pattern property foldFlags (by simp [sources])
        lookbehind := true }),
    ("important", bare (pattern important foldFlags (by simp [sources]))),
    ("function", ruled
      { pattern := pattern function foldFlags (by simp [sources])
        lookbehind := true }),
    ("punctuation", bare (pattern punctuation plainFlags (by simp [sources])))]

/-- The grammar of at-rules. -/
def atRuleGrammar : Grammar where
  name := "css-atrule"
  rest := some (.grammar sheetId)
  entries := [
    ("rule", bare (pattern ruleName plainFlags (by simp [sources]))),
    ("selector-function-argument", ruled
      { pattern := pattern selectorArgument plainFlags (by simp [sources])
        lookbehind := true
        display := "selector" }),
    ("keyword", ruled
      { pattern := pattern keyword plainFlags (by simp [sources])
        lookbehind := true })]

/-- The grammar of locations. -/
def urlGrammar : Grammar where
  name := "css-url"
  entries := [
    ("function", bare (pattern urlName foldFlags (by simp [sources]))),
    ("punctuation", bare (pattern urlBrackets plainFlags (by simp [sources]))),
    ("string", ruled
      { pattern := pattern urlString plainFlags (by simp [sources])
        display := "url" })]

/-- The store that holds the three grammars, none of them resolved. -/
def store : Store where
  grammars := #[sheet, atRuleGrammar, urlGrammar]

end Css
end Highlight
