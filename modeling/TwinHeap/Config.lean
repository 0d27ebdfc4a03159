import TwinHeap.Log.Settings
import TwinHeap.Text.Quoted
import TwinHeap.Toml.Document

/-!
The configuration of a bridge, read from TOML.

Every key may be left out, and unknown keys are ignored. A section may also be written as an array,
which gives its fields in order.
-/

namespace TwinHeap

/-- Where the fixed methods of the foreign side are found. -/
structure EngineBinding where
  assembly : String
  nameSpace : String
  objectClass : String
  factoryClass : String
deriving DecidableEq, Repr

def EngineBinding.default : EngineBinding :=
  ⟨"Interop.Engine", "Interop.Engine", "Object", "ObjectFactory"⟩

/-- The logging section. -/
structure LogSection where
  level : String
  format : Log.Format
  /-- The directory of the log files; without one the log goes to the console. -/
  file : Option String
  showSpans : Bool
deriving DecidableEq, Repr

def LogSection.default : LogSection := ⟨"info", .compact, none, false⟩

/-- The configuration of a bridge. -/
structure Config where
  /-- Whether classes made in the editor may have proxy classes of their own. -/
  bindEditorClasses : Bool
  /-- Whether a sweep asks for a full collection. -/
  fullCollection : Bool
  engine : EngineBinding
  logging : LogSection
deriving DecidableEq, Repr

def Config.default : Config := ⟨true, true, .default, .default⟩

/-- Why there is no configuration. -/
inductive ConfigError
  /-- The text is no document, or a value has the wrong type. -/
  | parse
  /-- The file is not there. -/
  | notFound
  /-- The file is no text. -/
  | invalidData
deriving DecidableEq, Repr

namespace Toml.Node

def asString? : Node → Option String
  | string t => some t
  | _ => none

def asBool? : Node → Option Bool
  | boolean b => some b
  | _ => none

/-- The fields of a section in the order of `names`. A date counts as a section without fields. -/
def fields? (names : List String) : Node → Option (List (Option Node))
  | table _ es => some (names.map fun n => Entries.child? es n)
  | array items | tables items =>
    some ((items.map some ++ List.replicate names.length none).take names.length)
  | dateTime => some (names.map fun _ => none)
  | _ => none

/-- Whether nothing is in an array or a table. -/
def isHollow : Node → Bool
  | array items | tables items => items.isEmpty
  | table _ es => es.isEmpty
  | _ => false

/-- The name of a choice: a string, or a table with one hollow entry. -/
def choice? : Node → Option String
  | string t => some t
  | table _ [(name, node)] => if node.isHollow then some name else none
  | _ => none

/-- The value of a field, or its default if it is left out. -/
def fieldOr {α : Type} (decode : Node → Option α) (default : α) : Option Node → Option α
  | none => some default
  | some n => decode n

end Toml.Node

open Toml.Node

namespace Log.Format

def name : Format → String
  | pretty => "pretty"
  | compact => "compact"
  | json => "json"

def ofNode? (n : Toml.Node) : Option Format := do
  let name ← choice? n
  [pretty, compact, json].find? fun f => f.name == name

end Log.Format

def EngineBinding.ofNode? (n : Toml.Node) : Option EngineBinding := do
  match ← n.fields? ["assembly", "namespace", "object_class", "factory_class"] with
  | [a, s, o, f] =>
    let d := EngineBinding.default
    return ⟨← fieldOr asString? d.assembly a, ← fieldOr asString? d.nameSpace s,
      ← fieldOr asString? d.objectClass o, ← fieldOr asString? d.factoryClass f⟩
  | _ => none

def LogSection.ofNode? (n : Toml.Node) : Option LogSection := do
  match ← n.fields? ["level", "format", "file", "show_spans"] with
  | [l, f, p, s] =>
    let d := LogSection.default
    return ⟨← fieldOr asString? d.level l, ← fieldOr Log.Format.ofNode? d.format f,
      ← fieldOr (fun n => n.asString?.map some) d.file p, ← fieldOr asBool? d.showSpans s⟩
  | _ => none

namespace Config

def ofNode? (n : Toml.Node) : Option Config := do
  match ← n.fields?
      ["support_blueprint_binding", "full_collection_after_sweep", "engine", "logging"] with
  | [b, c, e, l] =>
    let d := Config.default
    return ⟨← fieldOr asBool? d.bindEditorClasses b, ← fieldOr asBool? d.fullCollection c,
      ← fieldOr EngineBinding.ofNode? d.engine e, ← fieldOr LogSection.ofNode? d.logging l⟩
  | _ => none

/-- The configuration that a document holds. -/
def parse (text : String) : Except ConfigError Config :=
  match Toml.document text with
  | none => .error .parse
  | some root =>
    match ofNode? (.table .header root) with
    | some c => .ok c
    | none => .error .parse

/-- The configuration in a file, of which the content is given if the file exists. -/
def load (content : Option ByteArray) : Except ConfigError Config :=
  match content with
  | none => .error .notFound
  | some bytes =>
    match String.fromUTF8? bytes with
    | none => .error .invalidData
    | some text => parse text

/-- The settings of the log. -/
def logSettings (c : Config) : Log.Settings :=
  { level := Log.Level.ofName c.logging.level
    format := c.logging.format
    output := c.logging.file.elim .stdout fun d => .file d Log.fileStem
    showSpans := c.logging.showSpans
    trackPerformance := true }

/-- The configuration in full, on one line. -/
def describe (c : Config) : String :=
  let file := match c.logging.file with
    | none => "None"
    | some d => s!"Some({Text.quote d})"
  let format := match c.logging.format with
    | .pretty => "Pretty"
    | .compact => "Compact"
    | .json => "Json"
  let e := c.engine
  s!"BridgeConfig \x7b support_blueprint_binding: {c.bindEditorClasses}, " ++
    s!"full_collection_after_sweep: {c.fullCollection}, " ++
    s!"engine: EngineBindingConfig \x7b assembly: {Text.quote e.assembly}, " ++
    s!"namespace: {Text.quote e.nameSpace}, object_class: {Text.quote e.objectClass}, " ++
    s!"factory_class: {Text.quote e.factoryClass} \x7d, " ++
    s!"logging: LoggingSection \x7b level: {Text.quote c.logging.level}, format: {format}, " ++
    s!"file: {file}, show_spans: {c.logging.showSpans} \x7d \x7d"

end Config

end TwinHeap
