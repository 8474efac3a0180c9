import JuliaStubs.Dump.Flags
import JuliaStubs.Dump.Value
import JuliaStubs.Dump.Vocabulary

/-!
# Reflection dumps

What a host reports about its classes and its global scope, and the questions asked of it. Class names may repeat: the last class of
a name answers for it, while every class of the dump counts as an inheriter of the parent it names.
-/

namespace JuliaStubs.Dump

/-- A property, an argument or a return value: a typed place. -/
structure Slot where
  name : String
  kind : ValueKind
  /-- The class or enum that qualifies the kind. -/
  className : String
  usage : SlotUsage
deriving DecidableEq

/-- The slot that nothing is said about. -/
def Slot.blank : Slot := ⟨"", .nil, "", .none⟩

/-- A property of a class. -/
structure PropertyInfo where
  slot : Slot
  getter : Option String
  setter : Option String
  index : Int32
  /-- Whether the host fails to look the index up. -/
  isInvalid : Bool
deriving DecidableEq

/-- A method of a class. -/
structure MethodInfo where
  name : String
  flags : MethodFlags
  result : Slot
  arguments : List Slot
  resultWidth : Width
  argumentWidths : List Width
  /-- The default values of the trailing arguments. -/
  defaults : List Value
deriving DecidableEq

/-- A named integer. -/
structure ConstantInfo where
  name : String
  value : Int64
deriving DecidableEq

/-- An enum of a class: the names of its members in declaration order. -/
structure EnumInfo where
  name : String
  members : List String
  isBitfield : Bool
deriving DecidableEq

/-- A constant of the global scope and the enum it belongs to, if any. -/
structure GlobalConstantInfo where
  name : String
  value : Int64
  enumName : Option String
  isBitfield : Bool
deriving DecidableEq

/-- A class. -/
structure ClassInfo where
  name : String
  parent : Option String
  partition : Partition
  isExposed : Bool
  isEnabled : Bool
  isSingleton : Bool
  isInstantiable : Bool
  properties : List PropertyInfo
  methods : List MethodInfo
  constants : List ConstantInfo
  enums : List EnumInfo
deriving DecidableEq

/-- Everything a host reports. -/
structure Host where
  classes : List ClassInfo
  globalConstants : List GlobalConstantInfo
deriving DecidableEq

/-- The width at a place of a list, unspecified past its end. -/
def widthAt (widths : List Width) (index : Nat) : Width := (widths[index]?).getD .unspecified

/-- The width of an argument, or of the result for a negative index. -/
def MethodInfo.width (method : MethodInfo) (index : Int) : Width :=
  if index < 0 then method.resultWidth else widthAt method.argumentWidths index.toNat

/-- The object behind a callable method: what the host knows when it binds the method. -/
structure Binding where
  isStatic : Bool
  isVararg : Bool
  argumentCount : Nat
  resultWidth : Width
  argumentWidths : List Width
  /-- The default values of the trailing arguments, in argument order. -/
  defaults : List Value
deriving DecidableEq

namespace Binding

/-- The width of an argument, or of the result for a negative index. -/
def width (binding : Binding) (index : Int) : Width :=
  if index < 0 then binding.resultWidth else widthAt binding.argumentWidths index.toNat

/-- The first argument with a default; the first of all when there are more defaults than arguments. -/
def firstDefaulted (binding : Binding) : Nat := binding.argumentCount - binding.defaults.length

/-- Whether an argument has a default. -/
def hasDefault (binding : Binding) (index : Nat) : Bool :=
  index < binding.argumentCount && binding.firstDefaulted ≤ index

/-- The default of an argument. -/
def default? (binding : Binding) (index : Nat) : Option Value :=
  if binding.hasDefault index then binding.defaults[index - binding.firstDefaulted]? else none

end Binding

/-- The binding of a method; virtual methods have none. -/
def MethodInfo.binding? (method : MethodInfo) : Option Binding :=
  if method.flags.isVirtual then none
  else some
    { isStatic := method.flags.isStatic
      isVararg := method.flags.isVararg
      argumentCount := method.arguments.length
      resultWidth := method.resultWidth
      argumentWidths := method.argumentWidths
      defaults := method.defaults }

namespace ClassInfo

/-- The first property of a name. -/
def property? (cls : ClassInfo) (name : String) : Option PropertyInfo :=
  cls.properties.find? fun property => property.slot.name == name

/-- The binding of the first method of a name. -/
def binding? (cls : ClassInfo) (name : String) : Option Binding :=
  (cls.methods.find? fun method => method.name == name).bind MethodInfo.binding?

/-- The value of the first constant of a name. -/
def constant? (cls : ClassInfo) (name : String) : Option Int64 :=
  (cls.constants.find? fun constant => constant.name == name).map ConstantInfo.value

end ClassInfo

namespace Host

/-- The class of a name: the last one of the dump. -/
def class? (host : Host) (name : String) : Option ClassInfo :=
  host.classes.reverse.find? fun cls => cls.name == name

/-- The names of the classes that give a name as their parent, in dump order. -/
def inheriters (host : Host) (name : String) : List String :=
  (host.classes.filter fun cls => cls.parent == some name).map ClassInfo.name

/-- The partition of a class, unlisted for an unknown one. -/
def partition (host : Host) (name : String) : Partition := ((host.class? name).map ClassInfo.partition).getD .unlisted

/-- A flag of a class, false for an unknown one. -/
def flag (host : Host) (name : String) (of : ClassInfo → Bool) : Bool := ((host.class? name).map of).getD false

/-- The parent that a class names. -/
def parent? (host : Host) (name : String) : Option String := (host.class? name).bind ClassInfo.parent

/-- At most `steps` classes: the one of a name, its parent, and so on while they are known. -/
def chain (host : Host) : Nat → String → List ClassInfo
  | 0, _ => []
  | steps + 1, name =>
    match host.class? name with
    | none => []
    | some cls =>
      match cls.parent with
      | none => [cls]
      | some parent => cls :: host.chain steps parent

/-- A class and its ancestors, followed for as many steps as the dump has classes, so that cycles end. -/
def lineage (host : Host) (name : String) : List ClassInfo := host.chain host.classes.length name

/-- Whether a class is another one or inherits from it. -/
def inherits (host : Host) (name ancestor : String) : Bool :=
  (host.lineage name).any fun cls => cls.name == ancestor

/-- The slots of the properties of a class. -/
def properties (host : Host) (name : String) : List Slot :=
  ((host.class? name).map fun cls => cls.properties.map PropertyInfo.slot).getD []

/-- The property of a class. -/
def property? (host : Host) (name property : String) : Option PropertyInfo :=
  (host.class? name).bind fun cls => cls.property? property

/-- The getter of a property. -/
def getter? (host : Host) (name property : String) : Option String :=
  (host.property? name property).bind PropertyInfo.getter

/-- The setter of a property. -/
def setter? (host : Host) (name property : String) : Option String :=
  (host.property? name property).bind PropertyInfo.setter

/-- The index of a property, none when the host reports it as invalid. -/
def propertyIndex? (host : Host) (name property : String) : Option Int32 :=
  (host.property? name property).bind fun info => if info.isInvalid then none else some info.index

/-- The methods of a class. -/
def methods (host : Host) (name : String) : List MethodInfo := ((host.class? name).map ClassInfo.methods).getD []

/-- The binding of a method of a class. -/
def binding? (host : Host) (name method : String) : Option Binding :=
  (host.class? name).bind fun cls => cls.binding? method

/-- The names of the integer constants of a class. -/
def constantNames (host : Host) (name : String) : List String :=
  ((host.class? name).map fun cls => cls.constants.map ConstantInfo.name).getD []

/-- The value of an integer constant of a class. -/
def constant? (host : Host) (name constant : String) : Option Int64 :=
  (host.class? name).bind fun cls => cls.constant? constant

/-- The enums of a class. -/
def enums (host : Host) (name : String) : List EnumInfo := ((host.class? name).map ClassInfo.enums).getD []

end Host

end JuliaStubs.Dump
