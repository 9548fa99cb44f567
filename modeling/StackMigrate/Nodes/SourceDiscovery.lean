import StackMigrate.Core.Text
import StackMigrate.Graph.Collaborators
import StackMigrate.Sandbox.Workspace
import Mathlib.Data.List.DropRight
import Mathlib.Data.List.Infix

/-!
# Which source files are in scope

The Spring Boot adapter walks `src/main/java`. The capitalised words of the scope description
are its terms: a file that a term matches is an anchor, and what lies in the directory of an
anchor is taken along.
-/

namespace StackMigrate

/-! ### Paths -/

/-- `os.path.join(path, rest)` for a relative `rest`; the path may be empty. -/
def joinRelative (path rest : String) : String :=
  if path = "" then rest else joinPath path rest

/-- The names below a path, one after the other. -/
def joinNames (path : String) (names : List String) : String := names.foldl joinRelative path

/-- `os.path.relpath(joinNames(root, names), root)`, for names as a directory lists them. -/
def relpath (names : List String) : String := String.intercalate "/" names

/-- `os.path.basename`. -/
def basename (path : String) : String := String.ofList (path.toList.rtakeWhile (· != '/'))

/-- `os.path.dirname`. Slashes at the end of it go away, unless nothing else is there. -/
def dirname (path : String) : String :=
  let head := path.toList.rdropWhile (· != '/')
  String.ofList (if head.all (· == '/') then head else head.rdropWhile (· == '/'))

/-- `needle in text`. -/
def isSubstring (needle text : String) : Bool := needle.toList <:+: text.toList

/-! ### The source tree -/

/-- A name that a directory can list. -/
abbrev FileName := { name : String // IsName name }

/-- What a directory lists, in its order. One that cannot be read lists nothing. -/
inductive Listing
  | nil
  | file (name : FileName) (rest : Listing)
  /-- A link to a directory. -/
  | linked (name : FileName) (rest : Listing)
  | directory (name : FileName) (entries rest : Listing)

structure SourceRepo where
  repoRoot : String
  /-- What stands at `src/main/java`, if that is a directory. -/
  javaRoot : Option Listing
  /-- `_read_file`: nothing for a file that cannot be opened or is not UTF-8. -/
  readFile : String → Option String

def Listing.filenames : Listing → List FileName
  | .nil => []
  | .file name rest => name :: rest.filenames
  | .linked _ rest => rest.filenames
  | .directory _ _ rest => rest.filenames

/-- `_SKIP_DIR_NAMES`. -/
def skipDirNames : List String := ["target", "build", ".git", "node_modules", "test", "tests"]

/-- What `os.walk` yields below a directory: for each directory its names below the
repository and its files. Links are listed and not followed. -/
def Listing.walkBelow [UnicodeData] (dir : List String) :
    Listing → List (List String × List FileName)
  | .nil => []
  | .file _ rest => rest.walkBelow dir
  | .linked _ rest => rest.walkBelow dir
  | .directory name entries rest =>
    (if UnicodeData.lower name.val ∈ skipDirNames then []
      else (dir ++ [name.val], entries.filenames) :: entries.walkBelow (dir ++ [name.val])) ++
    rest.walkBelow dir

/-- `os.walk`, top down. -/
def Listing.walk [UnicodeData] (dir : List String) (entries : Listing) :
    List (List String × List FileName) :=
  (dir, entries.filenames) :: entries.walkBelow dir

/-! ### Discovery -/

structure Candidate where
  fullPath : String
  relativePath : String
  deriving DecidableEq

/-- The path of `_find_java_source_root` below the repository. -/
def javaSourceRoot : List String := ["src", "main", "java"]

def candidateAt (repoRoot : String) (dir : List String) (filename : FileName) : Candidate where
  fullPath := joinRelative (joinNames repoRoot dir) filename.val
  relativePath := relpath (dir ++ [filename.val])

/-- The `.java` files of the tree, before any scope applies. -/
def SourceRepo.candidates [UnicodeData] (repo : SourceRepo) : List Candidate :=
  match repo.javaRoot with
  | none => []
  | some entries =>
    (entries.walk javaSourceRoot).flatMap fun (dir, filenames) =>
      (filenames.filter fun filename => endsWith filename.val ".java").map
        (candidateAt repo.repoRoot dir)

/-- `_extract_scope_terms`. -/
def extractScopeTerms [UnicodeData] (scopeDescription : String) : List String :=
  findCapitalizedTokens scopeDescription

/-- `_matches_scope`. The name of the file is handed over and not looked at. -/
def matchesScope [UnicodeData] (relativePath _filename : String) (scopeTerms : List String) :
    Bool :=
  let haystack := UnicodeData.lower relativePath
  scopeTerms.any fun term => isSubstring (UnicodeData.lower term) haystack

/-- `_ANNOTATION_TO_KIND`. -/
def annotationToKind : List (String × SemanticUnitKind) :=
  [("@RestController", .endpoint), ("@Controller", .endpoint), ("@Service", .service),
    ("@Component", .service), ("@Repository", .repository), ("@Entity", .dataModel),
    ("@Embeddable", .dataModel), ("@ConfigurationProperties", .config),
    ("@Configuration", .config), ("@Aspect", .middleware), ("@Interceptor", .middleware)]

/-- `_guess_kind`: the first annotation of the table that occurs. -/
def guessKind (content : String) : Option SemanticUnitKind :=
  (annotationToKind.find? fun entry => isSubstring entry.1 content).map Prod.snd

/-- `selected_paths`. -/
def selectedPaths [UnicodeData] (candidates : List Candidate) (scopeTerms : List String) :
    List String :=
  if scopeTerms.isEmpty then candidates.map Candidate.fullPath
  else
    let anchorDirs := (candidates.filter fun c =>
      matchesScope c.relativePath (basename c.fullPath) scopeTerms).map fun c =>
        dirname c.fullPath
    (candidates.filter fun c => dirname c.fullPath ∈ anchorDirs).map Candidate.fullPath

/-- `discover_files`. -/
def discoverFiles [UnicodeData] (repo : SourceRepo) (scopeDescription : String) :
    List DiscoveredFile :=
  let selected := selectedPaths repo.candidates (extractScopeTerms scopeDescription)
  repo.candidates.filterMap fun c =>
    if c.fullPath ∈ selected then
      (repo.readFile c.fullPath).map fun content =>
        { path := c.fullPath
          relativePath := c.relativePath
          likelyKind := guessKind content
          content := content }
    else none

end StackMigrate
