import CimBroker.Toml.Scalar

/-!
# TOML documents

A reader for TOML documents as configuration files are written: key/value
lines, `[table]` and `[[array of tables]]` headers, comments, a byte order
mark at the start. It answers the document's root table, or `none` for text
that is not a document.

How tables may be defined and extended is decided by two facts kept on each
table while reading: whether it is *implicit* (made on the way to a header
or a dotted key, not named by a header itself) and whether it is *dotted*
(made by a dotted key).

* A dotted key walks through tables, creating implicit dotted ones, and
  through the last table of an array of tables; it may not walk into a
  value (an inline table included) or into a table that a header defined.
* The table a key/value line lands in must be dotted exactly when the key
  is dotted. So `b.x.y = 1` may extend an implicit table `b` made by an
  earlier header `[a.b.c]`, by way of a new dotted table `x`, while
  `b.x = 1` may not.
* A header walks the same way without those checks, creating implicit
  tables. It may name a new table or an implicit one that no dotted key
  made, whose entries it then takes over; `[[name]]` adds a table to an
  array of tables, or starts one.
* The entries under a header are kept apart until the next header or the
  end of the text, and only then joined to the tree.
* Inside an inline table a dotted key walks only through inline tables
  that dotted keys made: one written out as a value is complete, and
  `{a = {}, a.b.c = 1}` is refused.
-/

namespace CimBroker.Toml

/-- A value or table while a document is read. -/
inductive Node where
  /-- A value that is no inline table. -/
  | leaf (v : Value)
  /-- An inline table; `dotted` when a dotted key inside an inline table made it. -/
  | inline (dotted : Bool) (entries : List (String × Node))
  /-- A table of the document's tree. -/
  | table (implicit dotted : Bool) (entries : List (String × Node))
  /-- An array of tables, each given by its entries. -/
  | tables (items : List (List (String × Node)))

mutual
/-- The value of a finished node. -/
def Node.toValue : Node → Value
  | .leaf v => v
  | .inline _ es => .table (entriesValue es)
  | .table _ _ es => .table (entriesValue es)
  | .tables items => .array (itemsValue items)
/-- The values of finished entries. -/
def entriesValue : List (String × Node) → List (String × Value)
  | [] => []
  | (k, n) :: rest => (k, n.toValue) :: entriesValue rest
/-- The tables of a finished array of tables. -/
def itemsValue : List (List (String × Node)) → List Value
  | [] => []
  | es :: rest => .table (entriesValue es) :: itemsValue rest
end

/-- Entries with the node at key `k` replaced by `n`. -/
def setEntry (k : String) (n : Node) (es : List (String × Node)) : List (String × Node) :=
  es.map fun (k', m) => if k' = k then (k', n) else (k', m)

/-! ## Walking the tree -/

/-- Applies `f` to the table at `path` of a document's tree, handing it
whether that table is dotted. On the way, missing tables are created
implicit (and dotted when `dotted`), and an array of tables is entered at
its last table. Walking into a value fails, and so does a dotted walk into
a table that is not implicit. `isDotted` tells whether the table `es`
itself is dotted. -/
def walk {α : Type} (dotted : Bool)
    (f : Bool → List (String × Node) → Option (List (String × Node) × α)) :
    List String → Bool → List (String × Node) → Option (List (String × Node) × α)
  | [], isDotted, es => f isDotted es
  | k :: ks, _, es =>
    match es.lookup k with
    | none => do
      let (sub, a) ← walk dotted f ks dotted []
      some (es ++ [(k, .table true dotted sub)], a)
    | some (.table implicit d sub) =>
      if dotted && !implicit then none
      else do
        let (sub, a) ← walk dotted f ks d sub
        some (setEntry k (.table implicit d sub) es, a)
    | some (.tables items) => do
      let last ← items.getLast?
      let (last, a) ← walk dotted f ks false last
      some (setEntry k (.tables (items.dropLast ++ [last])) es, a)
    | some _ => none

/-- Adds `n` under `key` to the table at the dotted key `path` of `es`,
the table of a header (or the root): the landing table must be dotted
exactly when `path` is not empty, and `key` must be new in it. -/
def insertAt (path : List String) (key : String) (n : Node) (es : List (String × Node)) :
    Option (List (String × Node)) :=
  (walk true (fun isDotted t =>
      if isDotted == path.isEmpty then none
      else if (t.lookup key).isSome then none
      else some (t ++ [(key, n)], ())) path false es).map (·.1)

/-- Applies `f` to the inline table at `path` of an inline table's
entries, creating missing ones as dotted; walking into anything but an
inline table made by a dotted key fails, so an inline table written out as
a value is never extended. -/
def walkInline (f : Bool → List (String × Node) → Option (List (String × Node))) :
    List String → Bool → List (String × Node) → Option (List (String × Node))
  | [], isDotted, es => f isDotted es
  | k :: ks, _, es =>
    match es.lookup k with
    | none => do
      let sub ← walkInline f ks true []
      some (es ++ [(k, .inline true sub)])
    | some (.inline d sub) =>
      if !d then none
      else do
        let sub ← walkInline f ks d sub
        some (setEntry k (.inline d sub) es)
    | some _ => none

/-- Adds `n` under `key` at the dotted key `path` of an inline table's
entries, by the same rule as `insertAt`. -/
def insertInline (path : List String) (key : String) (n : Node) (es : List (String × Node)) :
    Option (List (String × Node)) :=
  walkInline (fun isDotted t =>
    if isDotted == path.isEmpty then none
    else if (t.lookup key).isSome then none
    else some (t ++ [(key, n)])) path false es

/-! ## Values -/

mutual
/-- A value at the front of `cs`, inside `depth` arrays and inline tables. -/
def value : Nat → Nat → List Char → Option (Node × List Char)
  | 0, _, _ => none
  | fuel + 1, depth, cs =>
    match cs with
    | '"' :: '"' :: '"' :: rest =>
      (multilineBasic (rest.length + 1) (dropFirstBreak rest) []).map fun (s, r) => (.leaf (.str s), r)
    | '"' :: rest => (basicString (rest.length + 1) rest []).map fun (s, r) => (.leaf (.str s), r)
    | '\'' :: '\'' :: '\'' :: rest =>
      (multilineLiteral (rest.length + 1) (dropFirstBreak rest) []).map fun (s, r) => (.leaf (.str s), r)
    | '\'' :: rest => (literalString rest).map fun (s, r) => (.leaf (.str s), r)
    | '[' :: rest => if depth + 1 ≥ maxDepth then none else arrayItems fuel (depth + 1) rest []
    | '{' :: rest =>
      if depth + 1 ≥ maxDepth then none
      else match skipBlanks rest with
        | '}' :: more => some (.inline false [], more)
        | _ => inlineEntries fuel (depth + 1) rest []
    | _ => (scalar cs).map fun (v, r) => (.leaf v, r)

/-- The items of an array after its `[`; `acc` holds those read, reversed. -/
def arrayItems : Nat → Nat → List Char → List Value → Option (Node × List Char)
  | 0, _, _, _ => none
  | fuel + 1, depth, cs, acc => do
    let cs ← skipSpace (cs.length + 1) cs
    match cs with
    | ']' :: rest => some (.leaf (.array acc.reverse), rest)
    | _ => do
      let (v, rest) ← value fuel depth cs
      let rest ← skipSpace (rest.length + 1) rest
      match rest with
      | ',' :: more => arrayItems fuel depth more (v.toValue :: acc)
      | ']' :: more => some (.leaf (.array (v.toValue :: acc).reverse), more)
      | _ => none

/-- The entries of an inline table after its `{`. -/
def inlineEntries : Nat → Nat → List Char → List (String × Node) → Option (Node × List Char)
  | 0, _, _, _ => none
  | fuel + 1, depth, cs, es => do
    let ((path, key), rest) ← dottedKey cs
    let rest ← match skipBlanks rest with
      | '=' :: r => some (skipBlanks r)
      | _ => none
    let (v, rest) ← value fuel depth rest
    let es ← insertInline path key v es
    match skipBlanks rest with
    | ',' :: more => inlineEntries fuel depth more es
    | '}' :: more => some (.inline false es, more)
    | _ => none
end

/-! ## Documents -/

/-- The state of reading a document: the tree so far, and the entries under
the last header (the root's own entries before the first), kept apart from
the tree until the next header. -/
structure Reading where
  tree : List (String × Node) := []
  /-- The entries under the last header. -/
  current : List (String × Node) := []
  /-- The key of the last header; empty before the first. -/
  path : List String := []
  /-- Whether the last header adds to an array of tables. -/
  isArray : Bool := false

namespace Reading

/-- Joins the entries under the last header to the tree: as the root's own
entries, as a new table of an array of tables, or as a table that is new
or takes the place of an implicit one. -/
def close (r : Reading) : Option (List (String × Node)) :=
  match r.path.getLast? with
  | none => some r.current
  | some k =>
    (walk false (fun _ es =>
      if r.isArray then
        match es.lookup k with
        | none => some (es ++ [(k, .tables [r.current])], ())
        | some (.tables items) => some (setEntry k (.tables (items ++ [r.current])) es, ())
        | some _ => none
      else
        match es.lookup k with
        | none => some (es ++ [(k, .table false false r.current)], ())
        | some (.table true _ _) => some (setEntry k (.table false false r.current) es, ())
        | some _ => none) r.path.dropLast false r.tree).map (·.1)

/-- A `[table]` header at `parent` and `key`: the tree takes the last
header's entries, and the new table starts empty or with the entries of the
implicit, not dotted, table of that name, which leaves the tree. -/
def openTable (r : Reading) (parent : List String) (key : String) : Option Reading := do
  let tree ← r.close
  let (tree, current) ← walk false (fun _ es =>
    match es.lookup key with
    | none => some (es, [])
    | some (.table true false sub) => some (es.filter (·.1 ≠ key), sub)
    | some _ => none) parent false tree
  some { tree, current, path := parent ++ [key], isArray := false }

/-- A `[[table]]` header at `parent` and `key`: the tree takes the last
header's entries, and the name must be new or an array of tables. -/
def openArray (r : Reading) (parent : List String) (key : String) : Option Reading := do
  let tree ← r.close
  let (tree, _) ← walk false (fun _ es =>
    match es.lookup key with
    | none => some (es ++ [(key, .tables [])], ())
    | some (.tables _) => some (es, ())
    | some _ => none) parent false tree
  some { tree, current := [], path := parent ++ [key], isArray := true }

end Reading

/-- Reads the lines of a document. -/
def lines : Nat → List Char → Reading → Option Reading
  | 0, _, _ => none
  | fuel + 1, cs, r =>
    match skipBlanks cs with
    | [] => some r
    | '\n' :: rest => lines fuel rest r
    | '\r' :: '\n' :: rest => lines fuel rest r
    | '#' :: rest => do
      let rest ← endLine ('#' :: rest)
      lines fuel rest r
    | '[' :: '[' :: rest => do
      let ((parent, key), rest) ← dottedKey rest
      let rest ← match skipBlanks rest with
        | ']' :: ']' :: r => some r
        | _ => none
      let rest ← endLine rest
      let r ← r.openArray parent key
      lines fuel rest r
    | '[' :: rest => do
      let ((parent, key), rest) ← dottedKey rest
      let rest ← match skipBlanks rest with
        | ']' :: r => some r
        | _ => none
      let rest ← endLine rest
      let r ← r.openTable parent key
      lines fuel rest r
    | line => do
      let ((path, key), rest) ← dottedKey line
      let rest ← match skipBlanks rest with
        | '=' :: r => some (skipBlanks r)
        | _ => none
      let (v, rest) ← value (rest.length + 1) 0 rest
      let rest ← endLine rest
      let current ← insertAt path key v r.current
      lines fuel rest { r with current }

/-- The text without a byte order mark in front. -/
def dropByteOrderMark : List Char → List Char
  | '\uFEFF' :: rest => rest
  | cs => cs

/-- The root table of a TOML document, or `none` if the text is not one. -/
def parse (text : String) : Option (List (String × Value)) := do
  let cs := dropByteOrderMark text.toList
  let r ← lines (cs.length + 1) cs {}
  let root ← r.close
  some (entriesValue root)

end CimBroker.Toml
