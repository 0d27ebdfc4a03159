import TwinHeap.Bridge.Library
import TwinHeap.Scenario.Answer
import TwinHeap.Scenario.Step

/-!
What a scenario remembers, and how it names and describes things.

Host objects and classes go by the labels of the steps that made them. Foreign objects are numbered
in the order in which answers first show them, so an address never shows.
-/

namespace TwinHeap.Scenario

/-- The memory of a running scenario. -/
structure Notes where
  objects : Table String Address
  classes : Table String Address
  /-- Foreign objects by the names that steps gave them. -/
  aliases : Table String Address
  /-- The numbers of the foreign objects that were shown. -/
  numbers : Table Address Nat
  delegates : Table String Delegate
  multicasts : Table String Multicast
  holds : Table String Nat
  /-- The calls that have ended, by the step in which they were made: the innermost step first. -/
  calls : List (List Datum)
  /-- The answer of the last step. -/
  answer : Option Answer

namespace Notes

def empty : Notes := ⟨.empty, .empty, .empty, .empty, .empty, .empty, .empty, [], none⟩

/-- The label of an address. -/
def label (n : Notes) (a : Address) : Datum :=
  match (n.objects.entries ++ n.classes.entries).find? fun e => e.2 = a with
  | some (name, _) => .text name
  | none =>
    match a with
    | .raw 0 => .null
    | .raw v => .text s!"#{v}"
    | _ => .text "#?"

/-- The address of a label, or of `#` and a number; an unknown label is null. -/
def address (table : Table String Address) (name : String) : Address :=
  match name.toList with
  | '#' :: ds => .raw ((String.ofList ds).toNat?.getD 0)
  | _ => (table.get? name).getD .null

/-- The object of a given name, or of `f` and its number. -/
def foreign? (n : Notes) (name : String) : Option Address :=
  match n.aliases.get? name with
  | some a => some a
  | none =>
    match name.toList with
    | 'f' :: ds =>
      let entry := (String.ofList ds).toNat?.bind fun i => n.numbers.entries.find? (·.2 = i)
      entry.map Prod.fst
    | _ => none

/-- The calls made in the step that is being taken. -/
def currentCalls (n : Notes) : List Datum := n.calls.headD []

/-- Begins a step. -/
def openStep (n : Notes) : Notes := { n with calls := [] :: n.calls }

/-- Ends a step. -/
def closeStep (n : Notes) : Notes := { n with calls := n.calls.tail }

/-- Adds a call that has ended to the step it was made in. -/
def addCall (n : Notes) (call : Datum) : Notes :=
  match n.calls with
  | [] => n
  | made :: rest => { n with calls := (made ++ [call]) :: rest }

end Notes

/-- Code of a scenario. -/
abbrev Play := Code Notes

namespace Play

open Code

def notes : Play Notes := memory

def note (f : Notes → Notes) : Play Unit := do remember (f (← notes))

def label (a : Address) : Play Datum := return (← notes).label a

/-- The number of a foreign object, given to it now if it has none. -/
def numberOf (a : Address) : Play String := do
  let n ← notes
  match n.numbers.get? a with
  | some i => return s!"f{i}"
  | none => do
    let i := n.numbers.size + 1
    remember { n with numbers := n.numbers.insert a i }
    return s!"f{i}"

def containerDatum (c : Container) : Datum :=
  .record [("hex", .text (Hex.encode c.bytes)), ("len", .nat c.len)]

/-- What is to be said about a foreign object, or null. -/
def describe (object : Option Address) : Play Datum := do
  match object with
  | none => return .null
  | some a => do
    let id := ("id", Datum.text (← numberOf a))
    let known (what : String) (more : List (String × Datum)) : Datum :=
      .record ([id, ("is", .text what)] ++ more)
    match (← state).heap.get? a with
    | none => return known "collected" []
    | some (.object type native) =>
      return known "instance" [("type", .nat type), ("native", ← label native)]
    | some (.boxed _ len) => return known "boxed" [("len", .nat len)]
    | some (.soft path) => return known "soft" [("path", .text path)]
    | some (.collection c) => return known "collection" [("value", containerDatum c)]
    | some (.string s) => return known "string" [("text", .text s)]

/-- Asks for a value to be put into storage. -/
def allot (v : Value) : Play Nat := ask (.allot v)

/-- The bytes of octets; the fragments of an address count as zero. -/
def bytesOf (os : List Octet) : List UInt8 := os.map Octet.byte

def ofBytes (bytes : List UInt8) : List Octet := bytes.map .value

/-- The number in some bytes, lowest first. -/
def signed (bytes : List UInt8) : Int :=
  let n := ofLittleEndian bytes
  if 2 * n ≥ octetRange bytes.length then (n : Int) - (octetRange bytes.length : Nat) else n

/-- The low bytes of a number. -/
def wrap (width : Nat) (n : Int) : List UInt8 :=
  littleEndian width (n % (octetRange width : Nat)).toNat

/-- A number as it is written: eight bytes may hold more than a reader's number does. -/
def integer (width : Nat) (n : Int) : Datum := if width < 8 then .number n else .digits n

/-- Whether a scalar is a binary fraction, which is written by its bits. -/
def isFloat : Scalar → Bool
  | .float32 | .float64 => true
  | _ => false

def isSigned : Scalar → Bool
  | .int8 | .int16 | .int32 | .int64 => true
  | _ => false

def scalarDatum (type : Scalar) (bytes : List UInt8) : Datum :=
  if isFloat type then .text (Hex.encode bytes.reverse)
  else integer type.width (if isSigned type then signed bytes else ofLittleEndian bytes)

def scalarBytes (type : Scalar) (d : Datum) : List UInt8 :=
  match d, isFloat type with
  | .text s, true => ((Hex.decode s).reverse ++ List.replicate type.width 0).take type.width
  | d, _ => wrap type.width (d.toInt?.getD 0)

/-- Whether an enumeration of a width is written as a number. -/
def isCommonWidth (w : Nat) : Bool := [1, 2, 4, 8].contains w

def enumerationDatum (bytes : List UInt8) : Datum :=
  if isCommonWidth bytes.length then integer bytes.length (ofLittleEndian bytes)
  else .text (Hex.encode bytes)

/-- The bytes of a text of digits, filled up or cut to a size. -/
def sized (size : Nat) (bytes : List UInt8) : List UInt8 :=
  (bytes ++ List.replicate size 0).take size

def enumerationBytes (width : Nat) (d : Datum) : List UInt8 :=
  match d, isCommonWidth width with
  | .text s, false => sized width (Hex.decode s)
  | d, _ => wrap width (d.toInt?.getD 0)

def delegateDatum (d : Delegate) : Play Datum := do
  return .record [("object", ← label (d.object.getD .null)), ("function", .text d.function),
    ("bound", .bool d.isBound)]

def multicastDatum (m : Multicast) : Play Datum := return .list (← m.mapM delegateDatum)

/-- A host value of a kind. -/
def hostDatum (kind : Kind) (v : Value) : Play Datum := do
  let read (n : Nat) := bytesOf (v.read n)
  match kind with
  | .bool _ => return .nat v.first.byte.toNat
  | .scalar type => return scalarDatum type (read type.width)
  | .enumeration w => return enumerationDatum (read w)
  | .string | .text | .softObject | .softClass => return .text v.text
  | .name => do
    let name := HostName.ofOctets (v.read 12)
    return .record [("comparison", .nat name.comparison), ("display", .nat name.display),
      ("number", .nat name.number),
      ("text", Datum.ofOption .text ((← state).host.nameText name))]
  | .object | .classRef => label (Address.ofOctets (v.read addressSize))
  | .struct info => return .text (Hex.encode (read info.layout.size))
  | .arrayOf _ | .setOf _ | .mapOf _ _ => return containerDatum v.contents
  | .delegate _ =>
    match v with
    | .delegate d => delegateDatum d
    | _ => delegateDatum .unbound
  | .multicast _ =>
    match v with
    | .multicast m => multicastDatum m
    | _ => return .list []

/-- The delegate that a datum stands for: the name of one, or an object with a function. -/
def readDelegate (n : Notes) (d : Datum) : Delegate :=
  match d with
  | .text id => (n.delegates.get? id).getD .unbound
  | d =>
    match d.field "object" with
    | .text name =>
      (Notes.address n.objects name).nonNull.elim .unbound fun a =>
        ⟨some a, (d.field "function").asText⟩
    | _ => .unbound

def readContainer (d : Datum) : Container :=
  ⟨Hex.decode (d.field "hex").asText, (d.field "len").toNat?.getD 0⟩

def readAddress (table : Table String Address) (d : Datum) : Address :=
  match d with
  | .text name => Notes.address table name
  | _ => .null

/-- The host value of a kind that a datum stands for; null stands for the default. -/
def readHost (kind : Kind) (d : Datum) : Play Value := do
  if d.isNull then return Value.default (Property.ofKind "" kind)
  let plain (bytes : List UInt8) := Value.plain (ofBytes bytes)
  match kind with
  | .bool _ => return plain (wrap 1 (d.toInt?.getD 0))
  | .scalar type => return plain (scalarBytes type d)
  | .enumeration w => return plain (enumerationBytes w d)
  | .string | .text | .softObject | .softClass => return .string d.asText
  | .name => do
    let name ← ask (.intern (d.field "text").asText ((d.field "number").toNat?.getD 0))
    return .plain name.octets
  | .object => return .plain (readAddress (← notes).objects d).octets
  | .classRef => return .plain (readAddress (← notes).classes d).octets
  | .struct info => return plain (sized info.layout.size (Hex.decode d.asText))
  | .arrayOf _ | .setOf _ | .mapOf _ _ => return .container (readContainer d)
  | .delegate _ => return .delegate (readDelegate (← notes) d)
  | .multicast _ => do
    let n ← notes
    return .multicast (d.items.map (readDelegate n))

/-- The foreign data of a kind at an address. -/
def foreignDatum (kind : Kind) (place : Address) : Play Datum := do
  let s ← state
  let read (n : Nat) := bytesOf (s.readAt place n)
  match kind with
  | .bool _ => return .nat (ofLittleEndian (read 1))
  | .scalar type => return scalarDatum type (read type.width)
  | .enumeration w => return enumerationDatum (read w)
  | .name => do
    let record := NameRecord.ofOctets (s.readAt place 8)
    return .record [("comparison", .nat record.comparison), ("number", .nat record.number)]
  | .classRef => label (s.addressAt place)
  | .struct info => return .text (Hex.encode (read info.layout.size))
  | _ => describe (s.addressAt place).nonNull

/-- The octets of the foreign data of a kind that a datum stands for. -/
def readForeign (kind : Kind) (d : Datum) : Play (List Octet) := do
  match kind with
  | .bool _ => return ofBytes (wrap 1 (d.toInt?.getD 0))
  | .scalar type => return ofBytes (scalarBytes type d)
  | .enumeration w => return ofBytes (enumerationBytes w d)
  | .name =>
    return NameRecord.octets
      ⟨(d.field "comparison").toNat?.getD 0, (d.field "number").toNat?.getD 0⟩
  | .classRef => return (readAddress (← notes).classes d).octets
  | .struct info => return ofBytes (sized info.layout.size (Hex.decode d.asText))
  | _ =>
    match d with
    | .text s => return (← ask (.allocate (.string s))).octets
    | _ => return Address.null.octets

end Play

end TwinHeap.Scenario
