import CimBroker.Files.Error
import CimBroker.Files.Path

/-!
# A file store

The files that authentication touches: secret files written by the server,
read by the client and removed once redeemed, in a tree of directories that
may also hold symbolic links.

A store maps absolute paths, as lists of names below the root, to entries.
The root always exists. A path text is looked up the way a kernel does it.
A text holding a NUL character is refused before anything else, one of
`maxPathBytes` bytes or more is too long, and the empty text names nothing.
A name longer than `maxNameBytes` bytes is too long when it is looked up,
so a missing directory before it is reported first. Lookup starts at the root (relative paths too:
the root stands for the working directory) and walks every name but the
last: `.` stays, `..` goes up (the root is its own parent), and a name must
exist and be a directory or a link, which is followed (a relative target
from the link's directory). At most `maxLinks` links are followed in one
lookup. The last name is left to the operation, which also sees whether a
slash ends the text:

* `lookup` (a status query) follows a link in the last place only when a
  slash ends the text, and then wants a directory;
* `mkdir` and `symlink` create a new entry: `.`, `..` or the root in the last
  place, or an existing entry, is "exists"; a slash at the end is fine for
  a directory, "not found" for a new link;
* `write` opens for writing, creating a file: a slash at the end, or a
  directory, is "is a directory", and a link in the last place is followed;
* `createNew` creates exclusively and never follows the last name;
* `removeFile` removes a file or link, never a directory.
-/

namespace CimBroker.Files

/-- What a path of the store holds. -/
inductive Entry where
  | file (content : String)
  | dir
  | link (target : String)
deriving DecidableEq, Repr

/-- Entries by absolute path, newest first. -/
structure Store where
  entries : List (List String × Entry) := []
deriving Repr

/-- A path text taken apart: whether it starts at the root, its names (empty
ones dropped), and whether a slash follows its last name. -/
structure PathText where
  absolute : Bool
  names : List String
  trailingSlash : Bool
deriving DecidableEq, Repr

/-- The parts of a path text. -/
def PathText.ofString (s : String) : PathText :=
  let names := (slashParts s).filter (· ≠ "")
  ⟨s.startsWith "/", names, !names.isEmpty && s.endsWith "/"⟩

/-- How a path text ends. -/
inductive Last where
  /-- No name at all: the text is slashes only. -/
  | root
  /-- `.` or `..`. -/
  | dots
  | name (n : String)
deriving DecidableEq, Repr

/-- The kind of a last name. -/
def Last.ofName (n : String) : Last :=
  if n = "." ∨ n = ".." then .dots else .name n

namespace Store

/-- Links followed in one lookup before giving up. -/
def maxLinks : Nat := 40

/-- The longest name, in bytes. -/
def maxNameBytes : Nat := 255

/-- Every path text is shorter than this many bytes. -/
def maxPathBytes : Nat := 4096

/-- Whether a text holds a NUL character. -/
def hasNul (s : String) : Bool := s.toList.contains '\x00'

/-- A path text taken apart, once it is known to hold no NUL character
(refused before the system is asked), to be shorter than `maxPathBytes`
bytes, and not to be empty. -/
def checkText (s : String) : Except IoError PathText :=
  if hasNul s then .error .nulInName
  else if s.utf8ByteSize ≥ maxPathBytes then .error .nameTooLong
  else if s.isEmpty then .error .notFound
  else .ok (PathText.ofString s)

/-- Whether a name is too long to be looked up. -/
def tooLong (n : String) : Bool := n.utf8ByteSize > maxNameBytes

/-- The entry at an absolute path; the root is a directory. -/
def get? (st : Store) (path : List String) : Option Entry :=
  if path.isEmpty then some .dir else (st.entries.find? (·.1 = path)).map (·.2)

/-- The store with `path` holding `e`. -/
def put (st : Store) (path : List String) (e : Entry) : Store :=
  ⟨(path, e) :: st.entries.filter (·.1 ≠ path)⟩

/-- The store without `path`. -/
def erase (st : Store) (path : List String) : Store :=
  ⟨st.entries.filter (·.1 ≠ path)⟩

/-- The path text of an absolute path. -/
def render (path : List String) : String := "/" ++ "/".intercalate path

/-! ## Walking to a directory -/

/-- Walks `names` from directory `dir` to the directory they name, following
every link; `links` is the budget of links, and what is left of it at the
end is answered with the directory. -/
def intoDir (st : Store) (links : Nat) (dir : List String) (names : List String) :
    Except IoError {r : List String × Nat // r.2 ≤ links} :=
  match names with
  | [] => .ok ⟨(dir, links), Nat.le_refl _⟩
  | n :: rest =>
    if n = "." then intoDir st links dir rest
    else if n = ".." then intoDir st links dir.dropLast rest
    else if tooLong n then .error .nameTooLong
    else
      let here := dir ++ [n]
      match st.get? here with
      | none => .error .notFound
      | some .dir => intoDir st links here rest
      | some (.file _) => .error .notADirectory
      | some (.link target) =>
        if h : links = 0 then .error .tooManyLinks
        else
          let t := PathText.ofString target
          (intoDir st (links - 1) (if t.absolute then [] else dir) (t.names ++ rest)).map
            fun r => ⟨r.1, by have := r.2; omega⟩
termination_by (links, names.length)

/-- The directory holding the last name of `t` (read from `dir`), the last
name, and what is left of the budget. -/
def parentOf (st : Store) (links : Nat) (dir : List String) (t : PathText) :
    Except IoError {r : List String × Last × Nat // r.2.2 ≤ links} :=
  let start := if t.absolute then [] else dir
  match t.names.getLast? with
  | none => .ok ⟨(start, .root, links), Nat.le_refl _⟩
  | some n =>
    (st.intoDir links start t.names.dropLast).map fun r => ⟨(r.1.1, Last.ofName n, r.1.2), r.2⟩

/-! ## Looking up -/

/-- The absolute path that `t` names from `dir`, for a status query. A link
in the last place is followed when `follow` is set, which a slash at the
end of the text also sets, together with `wantDir`: then the end must be a
directory. The entry must exist. -/
def locate (st : Store) (links : Nat) (follow wantDir : Bool) (dir : List String) (t : PathText) :
    Except IoError (List String) :=
  match st.parentOf links dir t with
  | .error e => .error e
  | .ok ⟨(parent, last, left), _hle⟩ =>
    let follow := follow || t.trailingSlash
    let wantDir := wantDir || t.trailingSlash
    match last with
    | .root => .ok parent
    | .dots => .ok (if t.names.getLast? = some ".." then parent.dropLast else parent)
    | .name n =>
      let here := parent ++ [n]
      if tooLong n then .error .nameTooLong
      else match st.get? here with
        | none => .error .notFound
        | some (.link target) =>
          if !follow then .ok here
          else if h : left = 0 then .error .tooManyLinks
          else st.locate (left - 1) true wantDir parent (PathText.ofString target)
        | some .dir => .ok here
        | some (.file _) => if wantDir then .error .notADirectory else .ok here
termination_by links
decreasing_by all_goals (dsimp only at *; omega)

/-- The absolute path that path text `s` names, without following a link in
the last place unless a slash ends the text. -/
def lookup (st : Store) (s : String) : Except IoError (List String) := do
  let t ← checkText s
  st.locate maxLinks false false [] t

/-- Whether `s` names something; a link counts, even one that leads nowhere. -/
def exists? (st : Store) (s : String) : Bool :=
  match st.lookup s with
  | .ok _ => true
  | .error _ => false

/-! ## Creating and removing -/

/-- Where a new entry named by `s` goes: the text must name a new entry in an
existing directory. `slashFine` says whether a slash may end the text. -/
def newEntry (st : Store) (slashFine : Bool) (s : String) : Except IoError (List String) := do
  let t ← checkText s
  let ⟨(parent, last, _), _⟩ ← st.parentOf maxLinks [] t
  match last with
  | .root | .dots => .error .alreadyExists
  | .name n =>
    let here := parent ++ [n]
    if tooLong n then .error .nameTooLong
    else if (st.get? here).isSome then .error .alreadyExists
    else if t.trailingSlash && !slashFine then .error .notFound
    else .ok here

/-- Creates directory `s`. -/
def mkdir (st : Store) (s : String) : Except IoError Store := do
  let p ← st.newEntry true s
  .ok (st.put p .dir)

/-- Creates a link at `s` pointing at `target`. The target is checked as a
path text first, but need not lead anywhere. -/
def symlink (st : Store) (target s : String) : Except IoError Store := do
  if hasNul target ∨ hasNul s then .error .nulInName
  else
    let _ ← checkText target
    let p ← st.newEntry false s
    .ok (st.put p (.link target))

/-- The regular file that opening `t` (from `dir`) for writing reaches,
created if missing: a link in the last place is followed. -/
def writeTarget (st : Store) (links : Nat) (dir : List String) (t : PathText) :
    Except IoError (List String) :=
  match st.parentOf links dir t with
  | .error e => .error e
  | .ok ⟨(parent, last, left), _hle⟩ =>
    match last with
    | .root | .dots => .error .isADirectory
    | .name n =>
      if t.trailingSlash then .error .isADirectory
      else if tooLong n then .error .nameTooLong
      else
        let here := parent ++ [n]
        match st.get? here with
        | none => .ok here
        | some .dir => .error .isADirectory
        | some (.file _) => .ok here
        | some (.link target) =>
          if h : left = 0 then .error .tooManyLinks
          else st.writeTarget (left - 1) parent (PathText.ofString target)
termination_by links
decreasing_by all_goals (dsimp only at *; omega)

/-- Writes `content` to `s`, creating the file or replacing its content,
through a link if `s` is one. -/
def write (st : Store) (s : String) (content : String) : Except IoError Store := do
  let t ← checkText s
  let p ← st.writeTarget maxLinks [] t
  .ok (st.put p (.file content))

/-- Creates file `s` with `content`; fails if anything, even a link that
leads nowhere, is there already. -/
def createNew (st : Store) (s : String) (content : String) : Except IoError Store := do
  let t ← checkText s
  let ⟨(parent, last, _), _⟩ ← st.parentOf maxLinks [] t
  match last with
  | .root | .dots => .error .alreadyExists
  | .name n =>
    if t.trailingSlash then .error .isADirectory
    else if tooLong n then .error .nameTooLong
    else
      let here := parent ++ [n]
      if (st.get? here).isSome then .error .alreadyExists
      else .ok (st.put here (.file content))

/-- Removes the file or link `s`; a directory is refused, and so is a slash
at the end. -/
def removeFile (st : Store) (s : String) : Except IoError Store := do
  let t ← checkText s
  let ⟨(parent, last, _), _⟩ ← st.parentOf maxLinks [] t
  match last with
  | .root | .dots => .error .isADirectory
  | .name n =>
    let here := parent ++ [n]
    if tooLong n then .error .nameTooLong
    else match st.get? here with
      | none => .error .notFound
      | some .dir => .error .isADirectory
      | some _ => if t.trailingSlash then .error .notADirectory else .ok (st.erase here)

/-- The content of `s` if it is a regular file itself, not a link to one. -/
def readRegular (st : Store) (s : String) : Except IoError String := do
  let p ← st.lookup s
  match st.get? p with
  | some (.file c) => .ok c
  | _ => .error .notRegularFile

/-- The paths of the entries directly inside directory `s`. -/
def list (st : Store) (s : String) : List String :=
  match st.lookup (s ++ "/") with
  | .ok dir => (st.entries.filter fun (p, _) => p.dropLast = dir ∧ p.length = dir.length + 1).map
      fun (p, _) => render p
  | .error _ => []

end Store

end CimBroker.Files
