import JuliaStubs.Text.Blank
import JuliaStubs.Text.Replace

/-!
# Flag words

Sets of flags of thirty-two bits, written as the names of the flags with bars between them. Bits without a name are written in
hexadecimal and are kept.
-/

namespace JuliaStubs.Dump

open Text

/-- The flag word with one bit set. -/
def flagBit (position : UInt32) : UInt32 := 1 <<< position

/-- The names of the flags of one vocabulary, in declaration order. -/
abbrev FlagNames := List (String × UInt32)

namespace FlagNames

/-- The value of a hexadecimal digit. -/
def hexValue? (c : Char) : Option Nat :=
  if '0' ≤ c ∧ c ≤ '9' then some (c.toNat - '0'.toNat)
  else if 'a' ≤ c ∧ c ≤ 'f' then some (c.toNat - 'a'.toNat + 10)
  else if 'A' ≤ c ∧ c ≤ 'F' then some (c.toNat - 'A'.toNat + 10)
  else none

/-- The bits given by hexadecimal digits, at least one and after an optional plus sign; none past thirty-two bits. -/
def hexBits? (digits : List Char) : Option UInt32 :=
  let digits := match digits with
    | '+' :: rest => rest
    | _ => digits
  if digits.isEmpty then none
  else do
    let values ← digits.mapM hexValue?
    let n := values.foldl (fun n d => 16 * n + d) 0
    if n < UInt32.size then some (UInt32.ofNat n) else none

/-- The bits of one part: a name of the vocabulary, or hexadecimal digits after `0x`. -/
def part? (names : FlagNames) (part : List Char) : Option UInt32 :=
  match part with
  | '0' :: 'x' :: digits => hexBits? digits
  | _ => (names.find? fun entry => entry.1.toList == part).map (·.2)

/-- The bits that a text names; a blank text names none, an empty part between bars is an error. -/
def read? (names : FlagNames) (text : String) : Option UInt32 :=
  let chars := text.toList
  if isBlankText chars then some 0
  else do
    let parts ← (splitOn '|' chars).mapM fun part => names.part? (trim part)
    some (parts.foldl (· ||| ·) 0)

/-- The names of the flags contained in the bits, and then the bits that no name covers. -/
def write (names : FlagNames) (bits : UInt32) : String :=
  let contained := names.filter fun entry => bits &&& entry.2 == entry.2
  let rest := contained.foldl (fun rest entry => rest &&& ~~~entry.2) bits
  let unnamed := if rest = 0 then [] else ["0x" ++ String.ofList (Nat.toDigits 16 rest.toNat)]
  " | ".intercalate (contained.map (·.1) ++ unnamed)

end FlagNames

/-- Usage flags of a property, an argument or a return value. -/
structure SlotUsage where
  bits : UInt32
deriving DecidableEq

namespace SlotUsage

/-- The usage without flags. -/
def none : SlotUsage := ⟨0⟩

/-- The names of the usage flags. -/
def names : FlagNames :=
  [("STORAGE", flagBit 1), ("EDITOR", flagBit 2), ("GROUP", flagBit 6), ("CATEGORY", flagBit 7), ("SUBGROUP", flagBit 8),
    ("CLASS_IS_BITFIELD", flagBit 9), ("CLASS_IS_ENUM", flagBit 16), ("NIL_IS_VARIANT", flagBit 17), ("ARRAY", flagBit 18)]

/-- Whether one of the given bits is set. -/
def meets (usage : SlotUsage) (bits : UInt32) : Bool := usage.bits &&& bits != 0

/-- Whether the entry is a heading of the editor and not a property: a group, a subgroup or a category. -/
def isGrouping (usage : SlotUsage) : Bool := usage.meets (flagBit 6 ||| flagBit 7 ||| flagBit 8)

/-- Whether an integer slot carries an enum or a bit field. -/
def isEnumLike (usage : SlotUsage) : Bool := usage.meets (flagBit 16 ||| flagBit 9)

/-- Whether a nil return value stands for any variant. -/
def nilIsVariant (usage : SlotUsage) : Bool := usage.meets (flagBit 17)

/-- Whether the entry heads an array of properties. -/
def isArray (usage : SlotUsage) : Bool := usage.meets (flagBit 18)

end SlotUsage

/-- Flags of a method. -/
structure MethodFlags where
  bits : UInt32
deriving DecidableEq

namespace MethodFlags

/-- No method flags. -/
def none : MethodFlags := ⟨0⟩

/-- The names of the method flags. -/
def names : FlagNames :=
  [("NORMAL", flagBit 0), ("EDITOR", flagBit 1), ("CONST", flagBit 2), ("VIRTUAL", flagBit 3), ("VARARG", flagBit 4),
    ("STATIC", flagBit 5)]

/-- Whether the method is virtual. -/
def isVirtual (flags : MethodFlags) : Bool := flags.bits &&& flagBit 3 != 0

/-- Whether the method takes any number of arguments. -/
def isVararg (flags : MethodFlags) : Bool := flags.bits &&& flagBit 4 != 0

/-- Whether the method is static. -/
def isStatic (flags : MethodFlags) : Bool := flags.bits &&& flagBit 5 != 0

end MethodFlags

end JuliaStubs.Dump
