/-!
# Paths as components

Paths compare by their components, not by their text: repeated and trailing
slashes do not count, nor does a `.` anywhere but at the start of a relative
path, while `..` counts as written. So `/tmp//x/` and `/tmp/./x` are the path
`/tmp/x`, but `/tmp/y/../x` is not.

The parent of a path drops its last component. A path that is only a root,
or empty, has no parent; the parent of a one-component relative path is the
empty path.
-/

namespace CimBroker.Files

/-- One component of a path. -/
inductive Component where
  /-- The root `/` at the start of an absolute path. -/
  | root
  /-- A `.` at the start of a relative path. -/
  | current
  /-- A `..`. -/
  | up
  /-- A name. -/
  | name (text : String)
deriving DecidableEq, Repr

/-- The parts of a text between slashes, empty ones included. -/
def slashParts (s : String) : List String := (s.splitOn "/")

/-- The components of a path text. -/
def components (s : String) : List Component :=
  let parts := slashParts s
  let absolute := s.startsWith "/"
  let lead : List Component :=
    if absolute then [.root]
    else if parts.head? = some "." then [.current]
    else []
  let named := parts.filterMap fun p =>
    if p = "" ∨ p = "." then none
    else if p = ".." then some Component.up
    else some (.name p)
  lead ++ named

/-- Whether two path texts name the same path, component by component. -/
def samePath (a b : String) : Bool := components a == components b

/-- The components of the parent of a path, if it has one. -/
def parentComponents (s : String) : Option (List Component) :=
  match (components s).reverse with
  | [] => none
  | .root :: _ => none
  | _ :: rest => some rest.reverse

/-- Whether the parent of path `s` is the path `dir`. -/
def parentIs (s dir : String) : Bool := parentComponents s == some (components dir)

/-- The path `dir/name`: `name` alone when `dir` is empty, and no doubled slash
when `dir` ends with one. -/
def join (dir name : String) : String :=
  if dir.isEmpty then name
  else if dir.endsWith "/" then dir ++ name
  else dir ++ "/" ++ name

end CimBroker.Files
