import JuliaStubs.Json.Number

/-!
# Drafts of JSON values

A draft is a JSON text read as far as it is well formed. Where the text goes wrong the draft has a breach, so that a reader that walks
a draft from left to right meets the first problem first, whether it is in the text or in the shape of the value. A value that is
skipped is judged less strictly than one that is kept.
-/

namespace JuliaStubs.Json

/-- What is wrong with a text: it ended early, it is not JSON, or the value has the wrong shape. -/
inductive Flaw where
  | truncated
  | malformed
  | misfit
deriving DecidableEq

/-- The name of a flaw. -/
def Flaw.name : Flaw → String
  | truncated => "eof"
  | malformed => "syntax"
  | misfit => "data"

/-- A place where a text goes wrong, as it counts for a value that is kept, for one that is skipped, and where one word of a list is
expected. -/
structure Breach where
  kept : Flaw
  skipped : Flaw
  asWord : Flaw
deriving DecidableEq

/-- A breach that counts the same everywhere. -/
def Breach.plain (flaw : Flaw) : Breach := ⟨flaw, flaw, flaw⟩

/-- A breach inside a value that cannot be a word, whose first character is already wrong where a word is expected. -/
def Breach.inside (kept skipped : Flaw) : Breach := ⟨kept, skipped, .malformed⟩

mutual

/-- A JSON value as far as its text is well formed. -/
inductive Draft where
  | null
  | bool (b : Bool)
  /-- A number, none when it is too large for a double. -/
  | number (n : Option Number)
  /-- A string, none when it has an unpaired surrogate. -/
  | string (s : Option String)
  | array (items : Items)
  | object (members : Members)
  | broken (breach : Breach)

/-- The items of an array, up to its end or to a breach. -/
inductive Items where
  | closed
  | broken (breach : Breach)
  | item (value : Draft) (rest : Items)

/-- The members of an object, up to its end or to a breach; a key is none when it has an unpaired surrogate. -/
inductive Members where
  | closed
  | broken (breach : Breach)
  | member (key : Option String) (value : Draft) (rest : Members)

end

mutual

/-- The first flaw of a value that is skipped. -/
def Draft.skipFlaw? : Draft → Option Flaw
  | .array items => items.skipFlaw?
  | .object members => members.skipFlaw?
  | .broken breach => some breach.skipped
  | _ => none

/-- The first flaw of the items of an array that is skipped. -/
def Items.skipFlaw? : Items → Option Flaw
  | .closed => none
  | .broken breach => some breach.skipped
  | .item value rest => value.skipFlaw?.or rest.skipFlaw?

/-- The first flaw of the members of an object that is skipped. -/
def Members.skipFlaw? : Members → Option Flaw
  | .closed => none
  | .broken breach => some breach.skipped
  | .member _ value rest => value.skipFlaw?.or rest.skipFlaw?

end

mutual

/-- The first flaw of a value that is kept with room for `depth` levels, of which the last must stay free. -/
def Draft.keepFlaw? (depth : Nat) : Draft → Option Flaw
  | .null | .bool _ => none
  | .number n => if n.isNone then some .malformed else none
  | .string s => if s.isNone then some .malformed else none
  | .array items => if depth ≤ 1 then some .malformed else items.keepFlaw? (depth - 1)
  | .object members => if depth ≤ 1 then some .malformed else members.keepFlaw? (depth - 1)
  | .broken breach => some breach.kept

/-- The first flaw of the items of an array that is kept. -/
def Items.keepFlaw? (depth : Nat) : Items → Option Flaw
  | .closed => none
  | .broken breach => some breach.kept
  | .item value rest => (value.keepFlaw? depth).or (rest.keepFlaw? depth)

/-- The first flaw of the members of an object that is kept. -/
def Members.keepFlaw? (depth : Nat) : Members → Option Flaw
  | .closed => none
  | .broken breach => some breach.kept
  | .member key value rest =>
    if key.isNone then some .malformed else (value.keepFlaw? depth).or (rest.keepFlaw? depth)

end

/-- Why a value is not of another shape: its own flaw if it is a flawed scalar, else that it does not fit. -/
def Draft.mismatch : Draft → Flaw
  | .number none | .string none => .malformed
  | .broken breach => breach.kept
  | _ => .misfit

/-- The items of an array without breaches. -/
def Items.toList : Items → List Draft
  | .item value rest => value :: rest.toList
  | _ => []

/-- Whether an object has a member with a key. -/
def Members.hasKey (key : Option String) : Members → Bool
  | .member k _ rest => k == key || rest.hasKey key
  | _ => false

/-- The value of the last member with a key. -/
def Members.find? (key : String) : Members → Option Draft
  | .member k value rest => (rest.find? key).or (if k == some key then some value else none)
  | _ => none

mutual

/-- The value with only the last of the members that share a key, in every object. -/
def Draft.lastWins : Draft → Draft
  | .array items => .array items.lastWins
  | .object members => .object members.lastWins
  | draft => draft

/-- The items, each with only the last of the members that share a key. -/
def Items.lastWins : Items → Items
  | .item value rest => .item value.lastWins rest.lastWins
  | ending => ending

/-- The members without those whose key comes again. -/
def Members.lastWins : Members → Members
  | .member key value rest => if rest.hasKey key then rest.lastWins else .member key value.lastWins rest.lastWins
  | ending => ending

end

end JuliaStubs.Json
