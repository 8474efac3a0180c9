import JuliaStubs.Dump.Basic
import JuliaStubs.Dump.Docs
import JuliaStubs.Json.Decoder

/-!
# The written form of dumps

How the records of a reflection dump and of a documentation dump are written in JSON: the keys of their fields, the defaults of those
that may be missing, and the tagged form of values. `Host.ofText` and `Docs.ofText` read whole dumps.
-/

namespace JuliaStubs.Dump

open Json

/-! ### Values -/

/-- A real number, or one of the three words for those that JSON has no numeral for. -/
def real? : Draft → Option Float
  | .number (some n) => some n.toFloat
  | .string (some "inf") => some (1 / 0)
  | .string (some "-inf") => some (-1 / 0)
  | .string (some "nan") => some (0 / 0)
  | _ => none

/-- A whole number between two bounds. -/
def intWithin? (low high : Int) : Draft → Option Int
  | .number (some n) => n.within? low high
  | _ => none

/-- The items of an array. -/
def arrayItems? : Draft → Option (List Draft)
  | .array items => some items.toList
  | _ => none

/-- The real components of a vector. -/
def reals? (payload : Draft) : Option (List Float) := do (← arrayItems? payload).mapM real?

/-- The integer components of a vector. -/
def ints? (payload : Draft) : Option (List Int32) := do
  return (← (← arrayItems? payload).mapM (intWithin? Int32.minValue.toInt Int32.maxValue.toInt)).map Int32.ofInt

/-- The value of a kind with a payload; none when the kind has no literal form or the payload does not fit it. -/
def Value.ofPayload? (kind : String) (payload : Draft) : Option Value :=
  match kind with
  | "Nil" | "nil" => some .nil
  | "bool" =>
    match payload with
    | .bool b => some (.bool b)
    | _ => none
  | "int" => (intWithin? Int64.minValue.toInt Int64.maxValue.toInt payload).map fun n => .int (Int64.ofInt n)
  | "float" => (real? payload).map .float
  | "String" =>
    match payload with
    | .string (some s) => some (.string s)
    | _ => none
  | "StringName" =>
    match payload with
    | .string (some s) => some (.stringName s)
    | _ => none
  | "Vector2" =>
    match reals? payload with
    | some [x, y] => some (.vector2 x y)
    | _ => none
  | "Vector3" =>
    match reals? payload with
    | some [x, y, z] => some (.vector3 x y z)
    | _ => none
  | "Vector4" =>
    match reals? payload with
    | some [x, y, z, w] => some (.vector4 x y z w)
    | _ => none
  | "Vector2i" =>
    match ints? payload with
    | some [x, y] => some (.vector2i x y)
    | _ => none
  | "Vector3i" =>
    match ints? payload with
    | some [x, y, z] => some (.vector3i x y z)
    | _ => none
  | "Vector4i" =>
    match ints? payload with
    | some [x, y, z, w] => some (.vector4i x y z w)
    | _ => none
  | _ => none

/-- A record that is being read: the value so far, and the required fields still missing. -/
structure Pending (α : Type) where
  value : α
  missing : List String

namespace Pending

/-- The value when no required field is missing. -/
def complete? {α : Type} (p : Pending α) : Option α := if p.missing.isEmpty then some p.value else none

end Pending

/-- A required field. -/
def required {α β : Type} (key : String) (decode : Decoder β) (store : β → α → α) : RecordField (Pending α) :=
  field key decode fun b p => ⟨store b p.value, p.missing.erase key⟩

/-- A field with a default. -/
def defaulted {α β : Type} (key : String) (decode : Decoder β) (store : β → α → α) : RecordField (Pending α) :=
  field key decode fun b p => { p with value := store b p.value }

/-- A value, written as its kind and its payload. -/
def valueDecoder : Decoder Value :=
  Record.decoder
    [required "type" .string fun kind (pair : String × Draft) => (kind, pair.2),
      defaulted "value" .raw fun payload pair => (pair.1, payload)]
    ⟨("", .null), ["type"]⟩
    fun p => p.complete?.map fun (kind, payload) => (Value.ofPayload? kind payload).getD (.unsupported kind)

/-! ### Slots, properties and methods -/

/-- A partition. -/
def partitionDecoder : Decoder Partition := .word Partition.ofSpelling?

/-- How the words of slots and methods are read. -/
structure WordReading where
  kind : Decoder ValueKind
  width : Decoder Width

namespace WordReading

/-- Words that are read where they stand. -/
def direct : WordReading := ⟨.word ValueKind.ofSpelling?, .word Width.ofSpelling?⟩

/-- Words of a record that is read once the object around it is complete. -/
def kept : WordReading := ⟨.keptWord ValueKind.ofSpelling?, .keptWord Width.ofSpelling?⟩

end WordReading

/-- Usage flags. -/
def usageDecoder : Decoder SlotUsage := Decoder.string.refine fun s => (SlotUsage.names.read? s).map .mk

/-- Method flags. -/
def methodFlagsDecoder : Decoder MethodFlags := Decoder.string.refine fun s => (MethodFlags.names.read? s).map .mk

/-- The fields of a slot. -/
def slotFields (words : WordReading) : List (RecordField (Pending Slot)) :=
  [defaulted "name" .string fun name slot => { slot with name },
    defaulted "type" words.kind fun kind slot => { slot with kind },
    defaulted "class_name" .string fun className slot => { slot with className },
    defaulted "usage" usageDecoder fun usage slot => { slot with usage }]

/-- A slot. -/
def slotDecoder (words : WordReading) : Decoder Slot := Record.decoder (slotFields words) ⟨.blank, []⟩ Pending.complete?

/-- A property: the fields of its slot beside its own. -/
def propertyDecoder : Decoder PropertyInfo :=
  Record.merged
    [defaulted "getter" (.optional .string) fun getter (p : PropertyInfo) => { p with getter },
      defaulted "setter" (.optional .string) fun setter p => { p with setter },
      defaulted "index" .int32 fun index p => { p with index },
      defaulted "invalid" .bool fun isInvalid p => { p with isInvalid }]
    ⟨⟨.blank, none, none, -1, false⟩, []⟩ (slotFields .kept) ⟨.blank, []⟩
    fun own slot => do return { (← own.complete?) with slot := (← slot.complete?) }

/-- The method that nothing is said about. -/
def blankMethod : MethodInfo := ⟨"", .none, .blank, [], .unspecified, [], []⟩

/-- The fields of a method, its defaults apart. -/
def methodFields (words : WordReading) : List (RecordField (Pending MethodInfo)) :=
  [required "name" .string fun name method => { method with name },
    defaulted "flags" methodFlagsDecoder fun flags method => { method with flags },
    defaulted "return" (slotDecoder words) fun result method => { method with result },
    defaulted "arguments" (.list (slotDecoder words)) fun arguments method => { method with arguments },
    defaulted "return_meta" words.width fun resultWidth method => { method with resultWidth },
    defaulted "argument_meta" (.list words.width) fun argumentWidths method => { method with argumentWidths }]

/-- A method without defaults. -/
def signatureDecoder : Decoder MethodInfo :=
  Record.decoder (methodFields .direct) ⟨blankMethod, ["name"]⟩ Pending.complete?

/-- A method with the defaults of its trailing arguments. -/
def methodDecoder : Decoder MethodInfo :=
  Record.merged
    [defaulted "default_arguments" (.list valueDecoder) fun defaults (_ : List Value) => defaults]
    ⟨[], []⟩ (methodFields .kept) ⟨blankMethod, ["name"]⟩
    fun defaults method => do return { (← method.complete?) with defaults := (← defaults.complete?) }

/-! ### Classes and the global scope -/

/-- A constant of a class. -/
def constantDecoder : Decoder ConstantInfo :=
  Record.decoder
    [required "name" .string fun name (c : ConstantInfo) => { c with name },
      required "value" .int64 fun value c => { c with value }]
    ⟨⟨"", 0⟩, ["name", "value"]⟩ Pending.complete?

/-- An enum of a class. -/
def enumDecoder : Decoder EnumInfo :=
  Record.decoder
    [required "name" .string fun name (e : EnumInfo) => { e with name },
      defaulted "constants" (.list .string) fun members e => { e with members },
      defaulted "is_bitfield" .bool fun isBitfield e => { e with isBitfield }]
    ⟨⟨"", [], false⟩, ["name"]⟩ Pending.complete?

/-- A global constant. -/
def globalConstantDecoder : Decoder GlobalConstantInfo :=
  Record.decoder
    [required "name" .string fun name (c : GlobalConstantInfo) => { c with name },
      required "value" .int64 fun value c => { c with value },
      defaulted "enum" (.optional .string) fun enumName c => { c with enumName },
      defaulted "is_bitfield" .bool fun isBitfield c => { c with isBitfield }]
    ⟨⟨"", 0, none, false⟩, ["name", "value"]⟩ Pending.complete?

/-- A class. -/
def classDecoder : Decoder ClassInfo :=
  Record.decoder
    [required "name" .string fun name (c : ClassInfo) => { c with name },
      defaulted "parent" (.optional .string) fun parent c => { c with parent },
      defaulted "api_type" partitionDecoder fun partition c => { c with partition },
      defaulted "exposed" .bool fun isExposed c => { c with isExposed },
      defaulted "enabled" .bool fun isEnabled c => { c with isEnabled },
      defaulted "singleton" .bool fun isSingleton c => { c with isSingleton },
      defaulted "instantiable" .bool fun isInstantiable c => { c with isInstantiable },
      defaulted "properties" (.list propertyDecoder) fun properties c => { c with properties },
      defaulted "methods" (.list methodDecoder) fun methods c => { c with methods },
      defaulted "constants" (.list constantDecoder) fun constants c => { c with constants },
      defaulted "enums" (.list enumDecoder) fun enums c => { c with enums }]
    ⟨⟨"", none, .core, true, true, false, false, [], [], [], []⟩, ["name"]⟩ Pending.complete?

/-- A whole reflection dump. -/
def hostDecoder : Decoder Host :=
  Record.decoder
    [defaulted "classes" (.list classDecoder) fun classes (h : Host) => { h with classes },
      defaulted "global_constants" (.list globalConstantDecoder) fun globalConstants h => { h with globalConstants }]
    ⟨⟨[], []⟩, []⟩ Pending.complete?

/-- Reads a reflection dump. -/
def Host.ofText (text : String) : Except Flaw Host := decodeText hostDecoder text

/-- Reads a reflection dump that is in memory. -/
def Host.ofDraft (draft : Draft) : Except Flaw Host := decodeValue hostDecoder draft

/-! ### Documentation -/

/-- The documentation of a member. -/
def memberDocDecoder : Decoder MemberDoc :=
  Record.decoder
    [required "name" .string fun name (d : MemberDoc) => { d with name },
      defaulted "description" .string fun description d => { d with description }]
    ⟨⟨"", ""⟩, ["name"]⟩ Pending.complete?

/-- The documentation of a class. -/
def classDocDecoder : Decoder ClassDoc :=
  Record.decoder
    [required "name" .string fun name (d : ClassDoc) => { d with name },
      defaulted "brief_description" .string fun brief d => { d with brief },
      defaulted "description" .string fun description d => { d with description },
      defaulted "methods" (.list memberDocDecoder) fun methods d => { d with methods },
      defaulted "properties" (.list memberDocDecoder) fun properties d => { d with properties },
      defaulted "constants" (.list memberDocDecoder) fun constants d => { d with constants }]
    ⟨⟨"", "", "", [], [], []⟩, ["name"]⟩ Pending.complete?

/-- A whole documentation dump. -/
def docsDecoder : Decoder Docs :=
  Record.decoder
    [defaulted "classes" (.list classDocDecoder) fun classes (_ : Docs) => ⟨classes⟩]
    ⟨.empty, []⟩ Pending.complete?

/-- Reads a documentation dump. -/
def Docs.ofText (text : String) : Except Flaw Docs := decodeText docsDecoder text

/-- Reads a documentation dump that is in memory. -/
def Docs.ofDraft (draft : Draft) : Except Flaw Docs := decodeValue docsDecoder draft

end JuliaStubs.Dump
