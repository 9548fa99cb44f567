import StackMigrate.Core.Python

/-!
# Text utilities and the publishable-path check

`slugify` and `find_capitalized_tokens` read arbitrary names that an LLM returned;
`publishable_path_problem` guards what is pushed with our credentials. Regular
expressions become the list functions that compute their leftmost greedy matches.
-/

namespace StackMigrate

/-- `re.sub(r"(?<!^)(?=[A-Z])", "_", s)` behind the first character. -/
def splitCamel : List Char → List Char
  | [] => []
  | c :: cs => if c.isUpper then '_' :: c :: splitCamel cs else c :: splitCamel cs

/-- The same substitution on a whole name: no underscore before its first character. -/
def splitCamelCase : List Char → List Char
  | [] => []
  | c :: cs => c :: splitCamel cs

/-- `re.sub(r"[^A-Za-z0-9]+", "_", s)`; the flag says that the current run has
already produced its underscore. -/
def collapseRuns : Bool → List Char → List Char
  | _, [] => []
  | inRun, c :: cs =>
    if c.isAlphanum then c :: collapseRuns false cs
    else if inRun then collapseRuns true cs
    else '_' :: collapseRuns true cs

/-- `s.strip(c)`. -/
def stripChar (c : Char) (s : List Char) : List Char :=
  ((s.dropWhile (· == c)).reverse.dropWhile (· == c)).reverse

/-- Everything outside `[A-Za-z0-9_]` is gone before the final `lower`, so ASCII
lower-casing is all of it. -/
def slugify (name : String) : String :=
  String.ofList ((stripChar '_' (collapseRuns false (splitCamelCase name.toList))).map
    Char.toLower)

/-- `[A-Z][A-Za-z0-9]{2,}` on a whole token. -/
def isCapitalizedToken : List Char → Bool
  | [] => false
  | c :: cs => c.isUpper && cs.all Char.isAlphanum && 2 ≤ cs.length

/-- `re.findall(r"\b[A-Z][A-Za-z0-9]{2,}\b", text)`. Both boundaries of a match are
word boundaries, so a match is a maximal run of word characters. -/
def findCapitalizedTokens [UnicodeData] (text : String) : List String :=
  ((text.toList.splitOnP fun c => !isWordChar c).filter isCapitalizedToken).map String.ofList

/-! ### Publishable paths -/

def isSafeChar [UnicodeData] (c : Char) : Bool := isWordChar c || c == '.' || c == '/' || c == '-'

/-- One or more safe characters between the anchors `^` and `$`, as `match` finds them:
`$` also matches right before a newline that ends the string. -/
def matchesSafeChars [UnicodeData] (path : String) : Bool :=
  let rest := path.toList.dropWhile isSafeChar
  !(path.toList.takeWhile isSafeChar).isEmpty && (rest.isEmpty || rest == ['\n'])

def forbiddenSegments : List String := [".git", ".github"]

def forbiddenFiles : List String := [".gitmodules", ".gitattributes"]

/-- The reason a path is refused, or `none`. -/
def publishablePathProblem [UnicodeData] (path : String) : Option String :=
  if path = "" ∨ startsWith path "/" ∨ '\\' ∈ path.toList then
    some "empty, absolute, or contains a backslash"
  else if ¬ matchesSafeChars path then
    some "contains characters outside [A-Za-z0-9_./-]"
  else
    let segments := splitOnChar path '/'
    let lowered := segments.map UnicodeData.lower
    if segments.any (fun seg => seg ∈ ["", ".", ".."]) then
      some "contains an empty, '.', or '..' path segment"
    else if lowered.any (fun seg => seg ∈ forbiddenSegments) then
      some "targets .git or .github"
    else if lowered.getLast?.any (fun seg => seg ∈ forbiddenFiles) then
      some "targets a protected git metadata file"
    else none

end StackMigrate
