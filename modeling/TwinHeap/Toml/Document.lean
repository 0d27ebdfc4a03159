import TwinHeap.Toml.Number

/-!
Reading a TOML document.

`document` gives the entries of the root table. It accepts the documents of TOML 1.0 whose keys and
values nest less than eighty deep.
-/

namespace TwinHeap.Toml

/-- Reads the items of an array up to its bracket, each item by `item`. -/
def arrayItems (item : Reader Node) : Nat → Reader (List Node)
  | 0, _ => none
  | fuel + 1, s => do
    let s ← skipLines s.length s
    match s with
    | ']' :: rest => return ([], rest)
    | _ => do
      let (node, rest) ← item s
      let rest ← skipLines rest.length rest
      match rest with
      | ',' :: rest => do
        let (nodes, rest) ← arrayItems item fuel rest
        return (node :: nodes, rest)
      | ']' :: rest => return ([node], rest)
      | _ => none

/-- A key and its value, the value read by `item`. -/
def keyValue (item : Reader Node) : Reader (List String × Node) := fun s => do
  let (path, rest) ← key (nestingLimit - 1) s
  let rest ← expect '=' rest
  let (node, rest) ← item (skipBlanks rest)
  return ((path, node), rest)

/-- Reads the entries of a table in braces, at least one, up to the closing brace. -/
def bracesEntries (item : Reader Node) : Nat → Entries → Reader Entries
  | 0, _, _ => none
  | fuel + 1, es, s => do
    let ((path, node), rest) ← keyValue item s
    let es ← es.insertAt path.dropLast (path.getLastD "") node .braces
    match skipBlanks rest with
    | ',' :: rest => bracesEntries item fuel es rest
    | '}' :: rest => return (es, rest)
    | _ => none

/-- A value, with at most `depth` arrays and tables around its parts. -/
def value : Nat → Reader Node
  | 0, s => scalar s
  | depth + 1, s =>
    match s with
    | '[' :: rest =>
      (arrayItems (value depth) (rest.length + 1) rest).map fun (items, rest) =>
        (.array items, rest)
    | '{' :: rest =>
      match skipBlanks rest with
      | '}' :: rest => some (.table .braces [], rest)
      | rest =>
        (bracesEntries (value depth) (rest.length + 1) [] rest).map fun (es, rest) =>
          (.table .braces es, rest)
    | _ => scalar s
where
  scalar (s : List Char) : Option (Node × List Char) :=
    match s with
    | '"' :: _ | '\'' :: _ => (string s).map fun (t, rest) => (.string t, rest)
    | 't' :: 'r' :: 'u' :: 'e' :: rest => some (.boolean true, rest)
    | 'f' :: 'a' :: 'l' :: 's' :: 'e' :: rest => some (.boolean false, rest)
    | _ => number s

/-- The table that the lines of a document are being written into. -/
structure Section where
  /-- Where the table goes when it is finished; the root has no place to go. -/
  place : Option (List String × String)
  /-- Whether it is one table of an array. -/
  inArray : Bool
  content : Entries

/-- A document that is being read: the finished tables and the open one. -/
structure Draft where
  root : Entries
  current : Section

namespace Draft

def start : Draft := ⟨[], ⟨none, false, []⟩⟩

/-- The root entries with the open table put in its place. -/
def close (d : Draft) : Option Entries :=
  match d.current.place with
  | none => some d.current.content
  | some (path, key) =>
    if d.current.inArray then d.root.closeTables path key d.current.content
    else d.root.closeTable path key d.current.content

/-- Begins the table of a header. -/
def header (d : Draft) (inArray : Bool) (path : List String) : Option Draft := do
  let root ← d.close
  let parents := path.dropLast
  let last := path.getLastD ""
  if inArray then
    let root ← root.openTables parents last
    return ⟨root, ⟨some (parents, last), true, []⟩⟩
  else
    let (content, root) ← root.openTable parents last
    return ⟨root, ⟨some (parents, last), false, content⟩⟩

/-- Adds a key and its value to the open table. -/
def insert (d : Draft) (path : List String) (node : Node) : Option Draft := do
  let content ←
    d.current.content.insertAt path.dropLast (path.getLastD "") node .header
  return { d with current := { d.current with content := content } }

end Draft

/-- Reads a header, its first bracket being read already. -/
def headerLine (d : Draft) (s : List Char) : Option (Draft × List Char) := do
  let (inArray, s) := match s with
    | '[' :: rest => (true, rest)
    | _ => (false, s)
  let (path, rest) ← key (nestingLimit - 1) s
  let rest ← expect ']' rest
  let rest ← if inArray then expect ']' rest else some rest
  let d ← d.header inArray path
  return (d, rest)

/-- Reads the lines of a document. -/
def lines : Nat → Draft → List Char → Option Draft
  | 0, _, _ => none
  | fuel + 1, d, s =>
    match skipBlanks s with
    | [] => some d
    | '#' :: rest => (nextLine ('#' :: rest)).bind (lines fuel d)
    | '[' :: rest => do
      let (d, rest) ← headerLine d rest
      lines fuel d (← nextLine rest)
    | c :: rest =>
      match lineEnd? (c :: rest) with
      | some rest => lines fuel d rest
      | none => do
        let ((path, node), rest) ← keyValue (value (nestingLimit - 1)) (c :: rest)
        let d ← d.insert path node
        lines fuel d (← nextLine rest)

/-- The entries of the root table, if the text is a document; a byte order mark may come first. -/
def document (text : String) : Option Entries := do
  let s := match text.toList with
    | '\uFEFF' :: rest => rest
    | s => s
  let d ← lines (s.length + 1) .start s
  d.close

end TwinHeap.Toml
