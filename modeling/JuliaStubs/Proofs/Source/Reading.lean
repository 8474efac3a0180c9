import JuliaStubs.Source.Literal
import Mathlib.Algebra.Group.Int.Defs
import Mathlib.Data.List.Basic

/-!
# Reading Julia literals

What the source of a default means in Julia, for the forms that literals without reals take: `read` evaluates a source where a parameter
of a known type is expected. It shares nothing with the writer: integer types have their ranges from their width, and a source is
taken apart from the outside. What is read of the parts that the writer puts together is said beside each part.
-/

namespace JuliaStubs.Source

open Catalog

/-! ## Types -/

/-- An integer type of Julia. -/
structure IntegerType where
  isSigned : Bool
  bits : Nat
deriving DecidableEq

namespace IntegerType

def int32 : IntegerType := ⟨true, 32⟩

def int64 : IntegerType := ⟨true, 64⟩

/-- The name of the type, which is also that of its constructor. -/
def name (type : IntegerType) : String := (if type.isSigned then "Int" else "UInt") ++ toString type.bits

/-- The least number of the type. -/
def low (type : IntegerType) : Int := if type.isSigned then -2 ^ (type.bits - 1) else 0

/-- The first number above the type. -/
def bound (type : IntegerType) : Int := if type.isSigned then 2 ^ (type.bits - 1) else 2 ^ type.bits

/-- A number of the type. -/
def Holds (type : IntegerType) (n : Int) : Prop := type.low ≤ n ∧ n < type.bound

instance (type : IntegerType) (n : Int) : Decidable (type.Holds n) := inferInstanceAs (Decidable (_ ∧ _))

end IntegerType

/-- The Julia type of an integer kind. -/
def integerType? : BuiltinKind → Option IntegerType
  | .int8 => some ⟨true, 8⟩
  | .int16 => some ⟨true, 16⟩
  | .int32 => some ⟨true, 32⟩
  | .int64 => some ⟨true, 64⟩
  | .uint8 => some ⟨false, 8⟩
  | .uint16 => some ⟨false, 16⟩
  | .uint32 => some ⟨false, 32⟩
  | .uint64 => some ⟨false, 64⟩
  | _ => none

/-- The constructor of a kind of integer vectors and its number of components. -/
def vectorType? : BuiltinKind → Option (String × Nat)
  | .vector2i => some ("Vector2i", 2)
  | .vector3i => some ("Vector3i", 3)
  | .vector4i => some ("Vector4i", 4)
  | _ => none

/-! ## Values -/

/-- A Julia value that is not boxed. -/
inductive Datum where
  | bool (b : Bool)
  | integer (type : IntegerType) (n : Int)
  | string (s : String)
  | stringName (s : String)
  | vector (kind : BuiltinKind) (components : List Int)
deriving DecidableEq

/-- What the source of a default evaluates to. -/
inductive Evaluated where
  | datum (d : Datum)
  /-- A value of any type in a box, or nothing in it. -/
  | boxed (content : Option Datum)
  | member (enumeration : String) (n : Int)
  | nullObject (cls : String)
deriving DecidableEq

/-- A value is one of the type of a parameter. A bit field takes integers as well as members. -/
inductive Evaluated.HasType : Evaluated → Destination → Prop where
  | bool (b : Bool) : HasType (.datum (.bool b)) (.builtin .bool)
  | integer {kind : BuiltinKind} {type : IntegerType} {n : Int} : integerType? kind = some type → type.Holds n →
      HasType (.datum (.integer type n)) (.builtin kind)
  | string (s : String) : HasType (.datum (.string s)) (.builtin .string)
  | stringName (s : String) : HasType (.datum (.stringName s)) (.builtin .stringName)
  | vector {kind : BuiltinKind} {name : String} {components : List Int} : vectorType? kind = some (name, components.length) →
      (∀ c ∈ components, IntegerType.int32.Holds c) → HasType (.datum (.vector kind components)) (.builtin kind)
  | boxed (content : Option Datum) : HasType (.boxed content) (.builtin .variant)
  | member {enumeration : String} {n : Int} : IntegerType.int32.Holds n → HasType (.member enumeration n) (.enumeration enumeration false)
  | flags {enumeration : String} {n : Int} : IntegerType.int64.Holds n →
      HasType (.datum (.integer .int64 n)) (.enumeration enumeration true)
  | nullObject (cls : String) : HasType (.nullObject cls) (.object cls)

/-! ## Calls -/

/-- What stands between the parentheses of a call of a function. -/
def inParentheses? (function : String) (source : List Char) : Option (List Char) :=
  (source.dropPrefix? (function.toList ++ ['('])).bind fun rest => rest.dropSuffix? [')']

theorem inParentheses?_eq_some_iff {function : String} {source inner : List Char} :
    inParentheses? function source = some inner ↔ source = function.toList ++ '(' :: inner ++ [')'] := by
  simp only [inParentheses?, Option.bind_eq_some_iff, List.dropPrefix?_eq_some_iff, List.dropSuffix?_eq_some_iff, beq_iff_eq]
  constructor
  · rintro ⟨_, ⟨_, rfl, rfl⟩, _, rfl, rfl⟩
    simp
  · rintro rfl
    exact ⟨inner ++ [')'], ⟨_, by simp, rfl⟩, _, rfl, rfl⟩

/-! ## Integers -/

/-- A number of digits alone. -/
def readDigits (source : List Char) : Option Nat :=
  if !source.isEmpty && source.all Char.isDigit then some (Nat.ofDigitChars 10 source 0) else none

/-- A number in decimal, with a sign in front of its digits if it is negative. -/
def readDecimal (source : List Char) : Option Int :=
  if source.head? = some '-' then (readDigits source.tail).map Int.negOfNat else (readDigits source).map Int.ofNat

theorem isDigit_of_mem_repr {n : Nat} {c : Char} (h : c ∈ n.repr.toList) : c.isDigit = true := by
  rw [Nat.repr, String.toList_ofList] at h
  exact Nat.isDigit_of_mem_toDigits (by decide) (by decide) h

theorem readDigits_repr (n : Nat) : readDigits n.repr.toList = some n := by
  have hdigits : n.repr.toList.all Char.isDigit = true := List.all_eq_true.mpr fun _ hc => isDigit_of_mem_repr hc
  rw [readDigits, hdigits, Nat.repr, String.toList_ofList, Nat.ofDigitChars_ten_toDigits]
  simp

/-- A negative number is written with a sign. -/
theorem toString_negSucc (n : Nat) : (toString (Int.negSucc n)).toList = '-' :: n.succ.repr.toList :=
  String.toList_append

theorem readDecimal_toString (n : Int) : readDecimal (toString n).toList = some n := by
  cases n with
  | ofNat n =>
    have hhead : n.repr.toList.head? ≠ some '-' := fun hsign => by
      have hdigit := isDigit_of_mem_repr (List.mem_of_mem_head? hsign)
      nomatch hdigit
    exact (if_neg hhead).trans (congrArg (Option.map Int.ofNat) (readDigits_repr n))
  | negSucc n =>
    rw [toString_negSucc, readDecimal, List.head?_cons, if_pos rfl, List.tail_cons, readDigits_repr]
    rfl

/-- A number is written with digits and a sign. -/
theorem mem_toString {n : Int} {c : Char} (h : c ∈ (toString n).toList) : c = '-' ∨ c.isDigit = true := by
  cases n with
  | ofNat n => exact Or.inr (isDigit_of_mem_repr h)
  | negSucc n =>
    rw [toString_negSucc] at h
    exact (List.mem_cons.mp h).imp id isDigit_of_mem_repr

/-- A number of an integer type: the plain number for 64 bits, a call of the constructor for other types. -/
def readInteger (type : IntegerType) (source : List Char) : Option Int :=
  ((if type = .int64 then some source else inParentheses? type.name source).bind readDecimal).filter type.Holds

/-! ## Strings -/

/-- The character that an escape stands for. -/
def unescape? : Char → Option Char
  | '"' => some '"'
  | '\\' => some '\\'
  | '$' => some '$'
  | 'n' => some '\n'
  | 't' => some '\t'
  | 'r' => some '\r'
  | _ => none

/-- The characters up to the closing quote, which ends the source. No quote and no interpolation stands inside. -/
def readToQuote : List Char → Option (List Char)
  | [] => none
  | ['"'] => some []
  | '"' :: _ :: _ => none
  | '$' :: _ => none
  | ['\\'] => none
  | '\\' :: c :: rest => (unescape? c).bind fun c => (readToQuote rest).map (c :: ·)
  | c :: rest => (readToQuote rest).map (c :: ·)

/-- A string between quotes. -/
def readQuoted : List Char → Option String
  | '"' :: rest => (readToQuote rest).map String.ofList
  | _ => none

theorem readToQuote_escapeChar (c : Char) (rest : List Char) :
    readToQuote (Literal.escapeChar c ++ rest) = (readToQuote rest).map (c :: ·) := by
  unfold Literal.escapeChar
  split
  · rfl
  · rfl
  · rfl
  · rfl
  · rfl
  · rfl
  · rename_i hquote hbackslash hdollar _ _ _
    rw [List.singleton_append, readToQuote.eq_def]
    split <;> simp_all

theorem readToQuote_escaped (s : List Char) : readToQuote (s.flatMap Literal.escapeChar ++ ['"']) = some s := by
  induction s with
  | nil => rfl
  | cons c rest ih =>
    rw [List.flatMap_cons, List.append_assoc, readToQuote_escapeChar, ih]
    rfl

theorem readQuoted_quoted (s : String) : readQuoted (Literal.quoted s).toList = some s := by
  rw [Literal.quoted, String.toList_ofList, List.cons_append, readQuoted, readToQuote_escaped, Option.map_some,
    String.ofList_toList]

/-- A host string. -/
def readString (source : List Char) : Option String := (inParentheses? "String" source).bind readQuoted

/-! ## Vectors -/

/-- The items between commas, without the blanks before them. -/
def splitItems (source : List Char) : List (List Char) := (source.splitOn ',').map fun item => item.dropWhile (· == ' ')

/-- A component of an integer vector. -/
def readComponent (source : List Char) : Option Int := (readDecimal source).filter IntegerType.int32.Holds

/-- The components of an integer vector, as many as its type has. -/
def readComponents (size : Nat) (source : List Char) : Option (List Int) :=
  ((splitItems source).mapM readComponent).filter fun components => components.length = size

/-- Items with a comma and a blank between each two are the items after the first with a blank before each, and commas between. -/
theorem intercalate_eq (first : List Char) (rest : List (List Char)) :
    [',', ' '].intercalate (first :: rest) = [','].intercalate (first :: rest.map (' ' :: ·)) := by
  induction rest generalizing first with
  | nil => rfl
  | cons second rest ih =>
    rw [List.map_cons, List.intercalate_cons_cons, List.intercalate_cons_cons, ih]
    cases rest with
    | nil => simp
    | cons third rest => simp [List.intercalate_cons_cons]

theorem splitItems_intercalate {items : List (List Char)} (hne : items ≠ []) (hcomma : ∀ item ∈ items, ',' ∉ item)
    (hblank : ∀ item ∈ items, ' ' ∉ item) : splitItems ([',', ' '].intercalate items) = items := by
  have hdrop : ∀ item ∈ items, item.dropWhile (· == ' ') = item := fun item hitem => by
    cases item with
    | nil => rfl
    | cons c rest =>
      refine List.dropWhile_cons_of_neg fun hc => hblank _ hitem ?_
      rw [← beq_iff_eq.mp hc]
      exact List.mem_cons_self
  cases items with
  | nil => exact absurd rfl hne
  | cons first rest =>
    rw [intercalate_eq, splitItems, List.splitOn_intercalate _ _ (List.cons_ne_nil _ _)]
    · rw [List.map_cons, List.map_map, hdrop first List.mem_cons_self]
      congr 1
      refine (List.map_congr_left fun item hitem => ?_).trans (List.map_id rest)
      exact hdrop item (List.mem_cons_of_mem _ hitem)
    · intro item hitem
      rcases List.mem_cons.mp hitem with rfl | hitem
      · exact hcomma _ List.mem_cons_self
      · obtain ⟨other, hother, rfl⟩ := List.mem_map.mp hitem
        have := hcomma other (List.mem_cons_of_mem _ hother)
        simpa using this

/-! ## Sources -/

/-- A value that is not boxed, where one of a builtin type is expected. -/
def readDatum (kind : BuiltinKind) (source : List Char) : Option Datum :=
  match kind with
  | .bool =>
    match String.ofList source with
    | "true" => some (.bool true)
    | "false" => some (.bool false)
    | _ => none
  | .string => (readString source).map .string
  | .stringName => ((inParentheses? "StringName" source).bind readString).map .stringName
  | kind =>
    match integerType? kind with
    | some type => (readInteger type source).map (.integer type)
    | none =>
      (vectorType? kind).bind fun (name, size) => ((inParentheses? name source).bind (readComponents size)).map (.vector kind)

theorem readDatum_of_integerType? {kind : BuiltinKind} {type : IntegerType} (h : integerType? kind = some type)
    (source : List Char) : readDatum kind source = (readInteger type source).map (.integer type) := by
  cases kind <;> cases h <;> rfl

theorem readDatum_of_vectorType? {kind : BuiltinKind} {name : String} {size : Nat} (h : vectorType? kind = some (name, size))
    (source : List Char) :
    readDatum kind source = ((inParentheses? name source).bind (readComponents size)).map (.vector kind) := by
  cases kind <;> cases h <;> rfl

/-- What a source that is not a number has before its first parenthesis, with the kind that this tells. -/
def heads : List (String × BuiltinKind) :=
  [("true", .bool), ("false", .bool), ("String", .string), ("StringName", .stringName), ("Vector2i", .vector2i),
    ("Vector3i", .vector3i), ("Vector4i", .vector4i)]

/-- The kind of a source where any may stand. -/
def kindOf (source : List Char) : BuiltinKind :=
  ((heads.find? fun head => head.1.toList == source.takeWhile (· ≠ '(')).map Prod.snd).getD .int64

/-- The value of a source where one of the type of a parameter is expected. -/
def read : Destination → List Char → Option Evaluated
  | .builtin .variant, source => (inParentheses? "Variant" source).bind fun inner =>
    if inner = [] then some (.boxed none) else (readDatum (kindOf inner) inner).map fun d => .boxed (some d)
  | .builtin kind, source => (readDatum kind source).map .datum
  | .enumeration name false, source =>
    (((inParentheses? name source).bind readDecimal).filter IntegerType.int32.Holds).map (.member name)
  | .enumeration _ true, source => (readInteger .int64 source).map fun n => .datum (.integer .int64 n)
  | .object cls, source => if inParentheses? cls source = some "C_NULL".toList then some (.nullObject cls) else none

theorem read_builtin {kind : BuiltinKind} (h : kind ≠ .variant) (source : List Char) :
    read (.builtin kind) source = (readDatum kind source).map .datum := by
  cases kind <;> first | rfl | exact absurd rfl h

theorem holds_of_readInteger {type : IntegerType} {source : List Char} {n : Int} (h : readInteger type source = some n) :
    type.Holds n := of_decide_eq_true (Option.filter_eq_some_iff.mp h).2

/-- A result of steps over a list is the result of one of them. -/
theorem exists_of_mapM_some {α β : Type} {step : α → Option β} {items : List α} {results : List β}
    (h : items.mapM step = some results) : ∀ result ∈ results, ∃ item ∈ items, step item = some result := by
  induction items generalizing results with
  | nil =>
    obtain rfl := Option.some.inj h
    exact fun _ hr => nomatch hr
  | cons item rest ih =>
    rw [List.mapM_cons] at h
    obtain ⟨first, hfirst, h⟩ := Option.bind_eq_some_iff.mp h
    obtain ⟨others, hothers, h⟩ := Option.bind_eq_some_iff.mp h
    obtain rfl := Option.some.inj h
    intro result hr
    rcases List.mem_cons.mp hr with rfl | hr
    · exact ⟨item, List.mem_cons_self, hfirst⟩
    · obtain ⟨other, ho, hstep⟩ := ih hothers result hr
      exact ⟨other, List.mem_cons_of_mem _ ho, hstep⟩

theorem holds_of_readComponents {size : Nat} {source : List Char} {components : List Int}
    (h : readComponents size source = some components) :
    components.length = size ∧ ∀ c ∈ components, IntegerType.int32.Holds c := by
  obtain ⟨hread, hlength⟩ := Option.filter_eq_some_iff.mp h
  refine ⟨of_decide_eq_true hlength, fun c hc => ?_⟩
  obtain ⟨item, _, hitem⟩ := exists_of_mapM_some hread c hc
  exact of_decide_eq_true (Option.filter_eq_some_iff.mp hitem).2

theorem hasType_of_readDatum {kind : BuiltinKind} {source : List Char} {d : Datum} (h : readDatum kind source = some d) :
    Evaluated.HasType (.datum d) (.builtin kind) := by
  unfold readDatum at h
  split at h
  · split at h
    · obtain rfl := Option.some.inj h
      exact .bool true
    · obtain rfl := Option.some.inj h
      exact .bool false
    · nomatch h
  · obtain ⟨s, _, rfl⟩ := Option.map_eq_some_iff.mp h
    exact .string s
  · obtain ⟨s, _, rfl⟩ := Option.map_eq_some_iff.mp h
    exact .stringName s
  · split at h
    · rename_i type htype
      obtain ⟨n, hn, rfl⟩ := Option.map_eq_some_iff.mp h
      exact .integer htype (holds_of_readInteger hn)
    · obtain ⟨⟨name, size⟩, hvector, h⟩ := Option.bind_eq_some_iff.mp h
      obtain ⟨components, hread, rfl⟩ := Option.map_eq_some_iff.mp h
      obtain ⟨inner, _, hread⟩ := Option.bind_eq_some_iff.mp hread
      obtain ⟨rfl, hholds⟩ := holds_of_readComponents hread
      exact .vector hvector hholds

/-- What is read is of the type that is expected. -/
theorem hasType_of_read {destination : Destination} {source : List Char} {v : Evaluated} (h : read destination source = some v) :
    v.HasType destination := by
  unfold read at h
  split at h
  · obtain ⟨inner, _, h⟩ := Option.bind_eq_some_iff.mp h
    split at h
    · obtain rfl := Option.some.inj h
      exact .boxed none
    · obtain ⟨d, _, rfl⟩ := Option.map_eq_some_iff.mp h
      exact .boxed (some d)
  · obtain ⟨d, hd, rfl⟩ := Option.map_eq_some_iff.mp h
    exact hasType_of_readDatum hd
  · obtain ⟨n, hn, rfl⟩ := Option.map_eq_some_iff.mp h
    exact .member (of_decide_eq_true (Option.filter_eq_some_iff.mp hn).2)
  · obtain ⟨n, hn, rfl⟩ := Option.map_eq_some_iff.mp h
    exact .flags (holds_of_readInteger hn)
  · split at h
    · obtain rfl := Option.some.inj h
      exact .nullObject _
    · nomatch h

end JuliaStubs.Source
