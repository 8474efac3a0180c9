import JuliaStubs.Json.Reader

/-!
# Decoding drafts

A decoder walks a draft from left to right and either returns a value or the first flaw it meets. Records are objects whose known
keys may come in any order, once each, or arrays of their fields in declaration order.
-/

namespace JuliaStubs.Json

/-- Reads a value out of a draft, with room for a number of levels of nesting. -/
abbrev Decoder (α : Type) := Nat → Draft → Except Flaw α

/-- The room for nesting at the root of a text: one level more than can be opened. -/
def rootDepth : Nat := 128

/-- Opens one level of nesting. -/
def enter {α : Type} (depth : Nat) (inside : Nat → Except Flaw α) : Except Flaw α :=
  if depth ≤ 1 then .error .malformed else inside (depth - 1)

namespace Decoder

/-- Reads what can be refused for its shape. -/
def refine {α β : Type} (decode : Decoder α) (select : α → Option β) : Decoder β := fun depth draft => do
  let value ← decode depth draft
  match select value with
  | some value => .ok value
  | none => .error .misfit

/-- Reads a string. -/
def string : Decoder String
  | _, .string (some s) => .ok s
  | _, draft => .error draft.mismatch

/-- Reads a truth value. -/
def bool : Decoder Bool
  | _, .bool b => .ok b
  | _, draft => .error draft.mismatch

/-- Reads a number. -/
def number : Decoder Number
  | _, .number (some n) => .ok n
  | _, draft => .error draft.mismatch

/-- Reads a whole number between two bounds. -/
def intWithin (low high : Int) : Decoder Int := number.refine (Number.within? low high)

/-- Reads a 64-bit integer. -/
def int64 : Decoder Int64 := fun depth draft =>
  Int64.ofInt <$> intWithin Int64.minValue.toInt Int64.maxValue.toInt depth draft

/-- Reads a 32-bit integer. -/
def int32 : Decoder Int32 := fun depth draft =>
  Int32.ofInt <$> intWithin Int32.minValue.toInt Int32.maxValue.toInt depth draft

/-- Reads a value or `null`. -/
def optional {α : Type} (decode : Decoder α) : Decoder (Option α)
  | _, .null => .ok none
  | depth, draft => some <$> decode depth draft

/-- Keeps a value as it is, when it is well formed throughout. -/
def raw : Decoder Draft := fun depth draft =>
  match draft.keepFlaw? depth with
  | some flaw => .error flaw
  | none => .ok draft

/-- Reads the items of an array. -/
def items {α : Type} (decode : Decoder α) (depth : Nat) : Items → Except Flaw (List α)
  | .closed => .ok []
  | .broken breach => .error breach.kept
  | .item value rest => do
    let first ← decode depth value
    let others ← items decode depth rest
    return first :: others

/-- Reads an array. -/
def list {α : Type} (decode : Decoder α) : Decoder (List α)
  | depth, .array inner => enter depth fun depth => items decode depth inner
  | _, draft => .error draft.mismatch

/-- Reads the rest of an object that holds a word as its only key, with `null`. -/
def wordAsKey {α : Type} (find : String → Option α) : Members → Except Flaw α
  | .closed => .error .malformed
  | .broken breach => .error breach.asWord
  | .member none _ _ => .error .malformed
  | .member (some key) value rest =>
    match find key, value, rest with
    | none, _, _ => .error .misfit
    | some word, .null, .closed => .ok word
    | some _, .null, .broken breach => .error breach.asWord
    | some _, .null, .member .. => .error .malformed
    | some _, value, _ => .error value.mismatch

/-- Reads a word of a closed list: a string, or an object with that one key and `null`. -/
def word {α : Type} (find : String → Option α) : Decoder α
  | _, .string (some s) =>
    match find s with
    | some word => .ok word
    | none => .error .misfit
  | depth, .object members => enter depth fun _ => wordAsKey find members
  | _, .broken breach => .error breach.asWord
  | _, _ => .error .malformed

/-- Reads a word out of a value that was kept for later, where an empty object beside the word counts as `null`. -/
def keptWord {α : Type} (find : String → Option α) : Decoder α
  | depth, .object (.member key (.object .closed) .closed) => word find depth (.object (.member key .null .closed))
  | depth, draft => word find depth draft

end Decoder

/-- A field of a record: its key, and how a value of it changes the record. -/
structure RecordField (σ : Type) where
  key : String
  read : Decoder (σ → σ)

/-- A field that is read by a decoder and stored. -/
def field {σ α : Type} (key : String) (decode : Decoder α) (store : α → σ → σ) : RecordField σ :=
  ⟨key, fun depth draft => store <$> decode depth draft⟩

namespace Record

variable {σ : Type}

/-- Reads the members of a record: each known key once, unknown ones are skipped. -/
def members (fields : List (RecordField σ)) (depth : Nat) : List String → σ → Members → Except Flaw σ
  | _, record, .closed => .ok record
  | _, _, .broken breach => .error breach.kept
  | _, _, .member none _ _ => .error .malformed
  | seen, record, .member (some key) value rest =>
    match fields.find? fun known => known.key == key with
    | some known =>
      if seen.contains key then .error .misfit
      else do
        let update ← known.read depth value
        members fields depth (key :: seen) (update record) rest
    | none =>
      match value.skipFlaw? with
      | some flaw => .error flaw
      | none => members fields depth seen record rest

/-- Reads the fields of a record in declaration order; those that are missing at the end keep their defaults. -/
def positional (depth : Nat) : List (RecordField σ) → σ → Items → Except Flaw σ
  | _, record, .closed => .ok record
  | _, _, .broken breach => .error breach.kept
  | [], _, .item .. => .error .malformed
  | known :: fields, record, .item value rest => do
    let update ← known.read depth value
    positional depth fields (update record) rest

/-- Reads a record, which `finish` refuses when a required field is missing. -/
def decoder {α : Type} (fields : List (RecordField σ)) (blank : σ) (finish : σ → Option α) : Decoder α :=
  let body : Decoder σ := fun depth draft =>
    match draft with
    | .object inner => enter depth fun depth => members fields depth [] blank inner
    | .array inner => enter depth fun depth => positional depth fields blank inner
    | draft => .error draft.mismatch
  body.refine finish

/-- Splits the members of an open record into the record of its own fields and the members that are left, which are kept. -/
def openMembers (fields : List (RecordField σ)) (depth : Nat) :
    List String → σ → Members → Except Flaw (σ × Members)
  | _, record, .closed => .ok (record, .closed)
  | _, _, .broken breach => .error breach.kept
  | _, _, .member none _ _ => .error .malformed
  | seen, record, .member (some key) value rest =>
    match fields.find? fun known => known.key == key with
    | some known =>
      if seen.contains key then .error .misfit
      else do
        let update ← known.read depth value
        openMembers fields depth (key :: seen) (update record) rest
    | none =>
      match value.keepFlaw? depth with
      | some flaw => .error flaw
      | none => do
        let (record, others) ← openMembers fields depth seen record rest
        return (record, .member (some key) value others)

/-- Reads an object that holds the fields of two records. The second record is read once the object is complete, and whatever does
not fit it is a misfit. -/
def merged {τ α : Type} (fields : List (RecordField σ)) (blank : σ) (inner : List (RecordField τ)) (innerBlank : τ)
    (finish : σ → τ → Option α) : Decoder α :=
  let body : Decoder (σ × τ) := fun depth draft =>
    match draft with
    | .object all => enter depth fun depth => do
      let (record, others) ← openMembers fields depth [] blank all
      match members inner depth [] innerBlank others with
      | .ok innerRecord => .ok (record, innerRecord)
      | .error _ => .error .misfit
    | draft => .error draft.mismatch
  body.refine fun pair => finish pair.1 pair.2

end Record

/-- Decodes a text; after a value that fits, the rest of the text must be blank. -/
def decodeText {α : Type} (decode : Decoder α) (text : String) : Except Flaw α := do
  let document := Document.ofText text
  let value ← decode rootDepth document.root
  match document.trailing with
  | some flaw => .error flaw
  | none => .ok value

/-- Decodes a value that is in memory: the last member of a key wins, and whatever does not fit is a misfit. -/
def decodeValue {α : Type} (decode : Decoder α) (draft : Draft) : Except Flaw α :=
  match decode rootDepth draft.lastWins with
  | .ok value => .ok value
  | .error _ => .error .misfit

end JuliaStubs.Json
