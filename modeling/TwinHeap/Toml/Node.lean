/-!
The tree of a TOML document, and how a document may build it.

A table may be named several times, but its content is written once: a table that a header opened,
or that was written in braces, is closed to other headers, and one that dotted keys made grows by
dotted keys alone. A `Form` remembers how a table came to be, and `insertAt` and `openTable` refuse
what its form does not allow.
-/

namespace TwinHeap.Toml

/-- How a table came to be. -/
inductive Form
  /-- Written in braces; a value like any other. -/
  | braces
  /-- Opened by its own header. -/
  | header
  /-- Named on the way to a table below it. -/
  | implied
  /-- Named on the way to a dotted key. -/
  | dotted
deriving DecidableEq, Repr

/-- A value, or a part of a document that is still being written. -/
inductive Node
  | string (text : String)
  | integer (value : Int)
  | float
  | boolean (value : Bool)
  | dateTime
  | array (items : List Node)
  | table (form : Form) (entries : List (String × Node))
  /-- The tables of one array header, the last one open. -/
  | tables (items : List Node)

/-- The entries of a table. -/
abbrev Entries := List (String × Node)

namespace Entries

def child? (es : Entries) (key : String) : Option Node :=
  (List.find? (fun e => e.1 == key) es).map Prod.snd

def remove (es : Entries) (key : String) : Entries :=
  es.filter fun e => e.1 != key

/-- Binds `key` to `node` in place of its old value, or at the end. -/
def set (es : Entries) (key : String) (node : Node) : Entries :=
  if es.any fun e => e.1 == key then es.map fun e => if e.1 == key then (key, node) else e
  else es ++ [(key, node)]

/-- Changes the entries of the table at the end of `path` by `f`. Tables on the way that do not
exist are made; of an array of tables the last one is meant. With `dotted` the path belongs to a
dotted key, which may not enter a table that has a form of its own. `f` is also told the form of
the table it changes. -/
def update (dotted : Bool) (f : Form → Entries → Option Entries) :
    List String → Form → Entries → Option Entries
  | [], form, es => f form es
  | key :: path, _, es =>
    match es.child? key with
    | none => do
      let form := if dotted then .dotted else .implied
      let inner ← update dotted f path form []
      return es ++ [(key, .table form inner)]
    | some (.table form inner) =>
      if form = .braces || (dotted && form = .header) then none
      else do
        let inner ← update dotted f path form inner
        return es.set key (.table form inner)
    | some (.tables items) =>
      match items.getLast? with
      | some (.table form inner) => do
        let inner ← update dotted f path form inner
        return es.set key (.tables (items.dropLast ++ [.table form inner]))
      | _ => none
    | some _ => none

/-- Binds `key` in the table at the end of a dotted path. The key must be new, and a path may only
end in a table that dotted keys made. -/
def insertAt (path : List String) (key : String) (node : Node) (form : Form) (es : Entries) :
    Option Entries :=
  update true
    (fun form es =>
      if (!path.isEmpty && form != .dotted) || (es.child? key).isSome then none
      else some (es ++ [(key, node)]))
    path form es

/-- Takes the table that a header opens out of the document: its entries so far. Only a table that
was merely implied can be opened. -/
def openTable (path : List String) (key : String) (root : Entries) :
    Option (Entries × Entries) := do
  let check ← update false
    (fun _ es =>
      match es.child? key with
      | none | some (.table .implied _) => some es
      | some _ => none)
    path .header root
  let taken := taken path root
  let root ← update false (fun _ es => some (es.remove key)) path .header check
  return (taken, root)
where
  taken : List String → Entries → Entries
    | [], es =>
      match es.child? key with
      | some (.table _ inner) => inner
      | _ => []
    | k :: path, es =>
      match es.child? k with
      | some (.table _ inner) => taken path inner
      | some (.tables items) =>
        match items.getLast? with
        | some (.table _ inner) => taken path inner
        | _ => []
      | _ => []

/-- Puts the table of a finished header in its place. -/
def closeTable (path : List String) (key : String) (root content : Entries) :
    Option Entries :=
  update false
    (fun _ es =>
      match es.child? key with
      | none | some (.table .implied _) => some (es.set key (.table .header content))
      | some _ => none)
    path .header root

/-- Checks that `key` can name an array of tables, and makes the array. -/
def openTables (path : List String) (key : String) (root : Entries) : Option Entries :=
  update false
    (fun _ es =>
      match es.child? key with
      | none => some (es ++ [(key, .tables [])])
      | some (.tables _) => some es
      | some _ => none)
    path .header root

/-- Adds one table to an array of tables. -/
def closeTables (path : List String) (key : String) (root content : Entries) :
    Option Entries :=
  update false
    (fun _ es =>
      match es.child? key with
      | some (.tables items) => some (es.set key (.tables (items ++ [.table .header content])))
      | _ => none)
    path .header root

end Entries

end TwinHeap.Toml
