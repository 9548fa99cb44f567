import StackMigrate.Core.Python
import StackMigrate.Library.KeyedList

/-!
# A file system with symbolic links

A location is the list of segments below the root. Every entry other than the root
has a directory above it; the operations that change a tree carry the proof. There are
two ways to read a path: `os.path.realpath` of POSIX in its non-strict mode, link loops
included, and the stricter walk of a system call. Permissions, name lengths and disk space
are not modelled.
-/

namespace StackMigrate

open KeyedList

abbrev Location := List String

/-- The absolute path string of a location. -/
def Location.toPath (loc : Location) : String := "/" ++ String.intercalate "/" loc

inductive Entry
  | file (content : String)
  | directory
  | symlink (target : String)
  deriving DecidableEq, Repr

/-- What may stand between two slashes of a path without links. -/
def IsName (name : String) : Prop :=
  name ≠ "" ∧ name ≠ "." ∧ name ≠ ".." ∧ '/' ∉ name.toList

structure FileSystem where
  entries : List (Location × Entry)
  cwd : Location
  cwd_names : ∀ name ∈ cwd, IsName name
  distinct : (entries.map Prod.fst).Nodup
  parents : ∀ e ∈ entries, e.1 ≠ [] ∧
    (e.1.dropLast ≠ [] → (e.1.dropLast, Entry.directory) ∈ entries)

namespace FileSystem

/-- A root directory with nothing in it. -/
def empty : FileSystem where
  entries := []
  cwd := []
  cwd_names := by simp
  distinct := List.nodup_nil
  parents := by simp

variable (fs : FileSystem)

/-- `os.lstat`: the entry at a location, links not followed. -/
def lookup (loc : Location) : Option Entry :=
  if loc = [] then some .directory else (KeyedList.lookup Prod.fst fs.entries loc).map Prod.snd

theorem mem_entries_of_lookup {loc : Location} {e : Entry} (hne : loc ≠ [])
    (h : fs.lookup loc = some e) : (loc, e) ∈ fs.entries := by
  rw [lookup, if_neg hne, Option.map_eq_some_iff] at h
  obtain ⟨x, hx, rfl⟩ := h
  have hk : x.1 = loc := key_of_lookup hx
  exact hk ▸ mem_of_lookup hx

theorem lookup_of_mem_entries {loc : Location} {e : Entry} (h : (loc, e) ∈ fs.entries) :
    fs.lookup loc = some e := by
  have hl := lookup_of_mem fs.distinct h
  rw [lookup, if_neg (fs.parents _ h).1, hl]
  rfl

/-! ### Path resolution -/

/-- Links met so far, each with the location it stands for once that is known. -/
abbrev SeenLinks := List (Location × Option Location)

structure Resolution where
  path : Location
  ok : Bool
  seen : SeenLinks

/-- `os.path.normpath` of the remaining segments, behind a normal location. -/
def normalize : Location → List String → Location
  | path, [] => path
  | path, name :: rest =>
    if name = "" ∨ name = "." then normalize path rest
    else if name = ".." then normalize path.dropLast rest
    else normalize (path ++ [name]) rest

/-- `join(path, rest)` for the unresolved rest of a path: a rest that begins with a
slash replaces the path. -/
def joinRest (path : Location) : List String → Location
  | "" :: name :: rest => normalize [] (name :: rest)
  | rest => normalize path rest

/-- The loop of `_joinrealpath` over the remaining segments; `follow` resolves the
target of a link. -/
def walk (follow : Location → List String → SeenLinks → Resolution) :
    Location → List String → SeenLinks → Resolution
  | path, [], seen => ⟨path, true, seen⟩
  | path, name :: rest, seen =>
    if name = "" ∨ name = "." then walk follow path rest seen
    else if name = ".." then walk follow path.dropLast rest seen
    else
      match fs.lookup (path ++ [name]) with
      | some (.symlink target) =>
        match seen.lookup (path ++ [name]) with
        | some (some resolved) => walk follow resolved rest seen
        -- the link is met again while it is being resolved: a loop
        | some none => ⟨joinRest (path ++ [name]) rest, false, seen⟩
        | none =>
          let start := if startsWith target "/" then [] else path
          let r := follow start (splitOnChar target '/') ((path ++ [name], none) :: seen)
          if r.ok then walk follow r.path rest ((path ++ [name], some r.path) :: r.seen)
          else ⟨joinRest r.path rest, false, r.seen⟩
      | _ => walk follow (path ++ [name]) rest seen

/-- `_joinrealpath`. A link is entered only while it is unseen, so links nest at most
as deep as there are entries and the fuel below is never used up. -/
def joinRealpath : ℕ → Location → List String → SeenLinks → Resolution
  | 0 => fun path rest seen => ⟨joinRest path rest, false, seen⟩
  | fuel + 1 => fs.walk (joinRealpath fuel)

def resolve (path : Location) (rest : List String) : Resolution :=
  fs.joinRealpath (fs.entries.length + 1) path rest []

/-- `os.path.realpath`. -/
def realpath (path : String) : Location :=
  (fs.resolve (if startsWith path "/" then [] else fs.cwd) (splitOnChar path '/')).path

/-- The path walk of the kernel. Every name but the last has to lead to a directory; a link
is replaced by its target, which `follow` walks on from. -/
def pathWalk (follow : Location → List String → Option Location) :
    Location → List String → Option Location
  | here, [] => some here
  | here, name :: rest =>
    if name = "" ∨ name = "." then pathWalk follow here rest
    else if name = ".." then pathWalk follow here.dropLast rest
    else
      match fs.lookup (here ++ [name]) with
      | some (.symlink target) =>
        follow (if startsWith target "/" then [] else here) (splitOnChar target '/' ++ rest)
      | some .directory => pathWalk follow (here ++ [name]) rest
      | _ => if rest = [] then some (here ++ [name]) else none

/-- `ELOOP` is raised for more links than this. -/
def maxSymlinks : ℕ := 40

/-- A path walk that may follow that many links. -/
def pathResolve : ℕ → Location → List String → Option Location
  | 0 => fs.pathWalk fun _ _ => none
  | links + 1 => fs.pathWalk (pathResolve links)

/-- The location a system call reaches, or creates; `none` where it fails on the way. -/
def target? (loc : Location) : Option Location := fs.pathResolve maxSymlinks [] loc

/-- `os.stat`. -/
def stat (loc : Location) : Option Entry := (fs.target? loc).bind fs.lookup

def isFile (loc : Location) : Bool :=
  match fs.stat loc with
  | some (.file _) => true
  | _ => false

def isDir (loc : Location) : Bool := fs.stat loc = some .directory

/-- Where the directory entry named by a location lives: only links above it are followed. -/
def entryLocation (loc : Location) : Option Location :=
  match loc.getLast? with
  | none => some []
  | some name => (fs.target? loc.dropLast).map (· ++ [name])

def isLink (loc : Location) : Bool :=
  match (fs.entryLocation loc).bind fs.lookup with
  | some (.symlink _) => true
  | _ => false

/-! ### Changing the tree -/

/-- Create an entry, or replace one that is not a directory, below an existing directory. -/
def put (loc : Location) (e : Entry) : Option FileSystem :=
  if h : loc ≠ [] ∧ fs.lookup loc.dropLast = some .directory ∧
      fs.lookup loc ≠ some .directory then
    some
      { entries := upsert Prod.fst fs.entries (loc, e)
        cwd := fs.cwd
        cwd_names := fs.cwd_names
        distinct := nodup_keys_upsert fs.distinct _
        parents := by
          intro x hx
          have keep : ∀ p, (p, Entry.directory) ∈ fs.entries →
              (p, Entry.directory) ∈ upsert Prod.fst fs.entries (loc, e) := by
            intro p hp
            refine mem_upsert_of_ne hp fun (hpl : p = loc) => h.2.2 ?_
            exact hpl ▸ fs.lookup_of_mem_entries hp
          rcases mem_of_mem_upsert hx with hx | rfl
          · exact ⟨(fs.parents x hx).1, fun hne => keep _ ((fs.parents x hx).2 hne)⟩
          · exact ⟨h.1, fun hne => keep _ (fs.mem_entries_of_lookup hne h.2.1)⟩ }
  else none

/-- Drop an entry that is not a directory. -/
def delete (loc : Location) : FileSystem :=
  if h : fs.lookup loc = some .directory then fs
  else
    { entries := fs.entries.filter fun e => e.1 ≠ loc
      cwd := fs.cwd
      cwd_names := fs.cwd_names
      distinct := fs.distinct.sublist (List.filter_sublist.map Prod.fst)
      parents := by
        intro x hx
        have hx' := List.mem_of_mem_filter hx
        refine ⟨(fs.parents x hx').1, fun hne => ?_⟩
        have hp := (fs.parents x hx').2 hne
        refine List.mem_filter.mpr ⟨hp, ?_⟩
        simp only [ne_eq, decide_eq_true_eq]
        exact fun hpl => h (hpl ▸ fs.lookup_of_mem_entries hp) }

end FileSystem

/-- A system call or a batch of them: the tree it leaves behind, also when it raises. -/
abbrev FsResult (α : Type) := FileSystem × Except PyException α

theorem FsResult.eq_mk {α : Type} {r : FsResult α} {outcome : Except PyException α}
    (h : r.2 = outcome) : r = (r.1, outcome) := Prod.ext rfl h

namespace FileSystem

variable (fs : FileSystem)

/-- `os.mkdir`. -/
def mkdir (loc : Location) : FsResult Unit :=
  match fs.entryLocation loc with
  | none => (fs, .error (.osError "ELOOP"))
  | some here =>
    if (fs.lookup here).isSome then (fs, .error (.osError "EEXIST"))
    else
      match fs.put here .directory with
      | none => (fs, .error (.osError "ENOENT or ENOTDIR"))
      | some fs' => (fs', .ok ())

/-- `os.makedirs(path, exist_ok=True)` for the segments below a location. -/
def makedirsFrom (fs : FileSystem) : Location → List String → FsResult Unit
  | _, [] => (fs, .ok ())
  | above, name :: rest =>
    if fs.isDir (above ++ [name]) then makedirsFrom fs (above ++ [name]) rest
    else
      match fs.mkdir (above ++ [name]) with
      | (fs', .ok ()) => makedirsFrom fs' (above ++ [name]) rest
      | (fs', .error e) => (fs', .error e)

def makedirs (loc : Location) : FsResult Unit := fs.makedirsFrom [] loc

/-- The same for a path that is not resolved. -/
def makedirsPath (path : String) : FsResult Unit :=
  if path = "" then (fs, .error (.osError "ENOENT"))
  else fs.makedirsFrom (if startsWith path "/" then [] else fs.cwd) (splitOnChar path '/')

/-- `os.remove`. -/
def remove (loc : Location) : FsResult Unit :=
  match fs.entryLocation loc with
  | none => (fs, .error (.osError "ELOOP"))
  | some here =>
    match fs.lookup here with
    | none => (fs, .error (.osError "ENOENT"))
    | some .directory => (fs, .error (.osError "EISDIR"))
    | some _ => (fs.delete here, .ok ())

/-- `open(path, "w")` followed by one `write`. A link at the end is followed. -/
def writeFile (loc : Location) (content : String) : FsResult Unit :=
  match fs.target? loc with
  | none => (fs, .error (.osError "ELOOP"))
  | some here =>
    match fs.put here (.file content) with
    | none => (fs, .error (.osError "EISDIR, ENOENT or ENOTDIR"))
    | some fs' => (fs', .ok ())

end FileSystem
end StackMigrate
