import JuliaStubs.Proofs.Source.Reading
import Mathlib.Data.List.TakeWhile

/-!
# Default literals read back

The source that `synthesize` writes for a value without reals evaluates to that value again, as one of the type of the parameter
(`read_synthesize`). So no value is cut or wrapped on the way, and no two values of a kind share a source.
-/

namespace JuliaStubs.Source

open Catalog Dump

/-! ## What values say -/

/-- What a value says, whatever its type. -/
inductive Content where
  | nil
  | bool (b : Bool)
  | int (n : Int)
  | text (s : String)
  | ints (components : List Int)
deriving DecidableEq

/-- What a host value says, if it has no reals. -/
def contentOf? : Value → Option Content
  | .nil => some .nil
  | .bool b => some (.bool b)
  | .int n => some (.int n.toInt)
  | .string s | .stringName s => some (.text s)
  | .vector2i x y => some (.ints ([x, y].map Int32.toInt))
  | .vector3i x y z => some (.ints ([x, y, z].map Int32.toInt))
  | .vector4i x y z w => some (.ints ([x, y, z, w].map Int32.toInt))
  | .float _ | .vector2 .. | .vector3 .. | .vector4 .. | .unsupported _ => none

/-- Whether a host value has reals. -/
def hasReals : Value → Bool
  | .float _ | .vector2 .. | .vector3 .. | .vector4 .. => true
  | _ => false

/-- Whether a real is expected. -/
def expectsReal : Destination → Bool
  | .builtin kind => kind.isReal
  | _ => false

/-- What a datum says. -/
def Datum.content : Datum → Content
  | .bool b => .bool b
  | .integer _ n => .int n
  | .string s | .stringName s => .text s
  | .vector _ components => .ints components

/-- What the value of a source says. -/
def Evaluated.content : Evaluated → Content
  | .datum d => d.content
  | .boxed d => (d.map Datum.content).getD .nil
  | .member _ n => .int n
  | .nullObject _ => .nil

/-- A host value as a Julia value of the corresponding type; none for nil. -/
def datumOf? : Value → Option Datum
  | .bool b => some (.bool b)
  | .int n => some (.integer .int64 n.toInt)
  | .string s => some (.string s)
  | .stringName s => some (.stringName s)
  | .vector2i x y => some (.vector .vector2i ([x, y].map Int32.toInt))
  | .vector3i x y z => some (.vector .vector3i ([x, y, z].map Int32.toInt))
  | .vector4i x y z w => some (.vector .vector4i ([x, y, z, w].map Int32.toInt))
  | .nil | .float _ | .vector2 .. | .vector3 .. | .vector4 .. | .unsupported _ => none

/-- Values of a kind that say the same are the same. -/
theorem eq_of_contentOf? {value other : Value} (hkind : value.kindName = other.kindName) (hsome : contentOf? value ≠ none)
    (h : contentOf? value = contentOf? other) : value = other := by
  cases value <;> cases other <;> simp_all [contentOf?, Value.kindName, Int64.toInt_inj, Int32.toInt_inj]

/-! ## Integers in range -/

/-- The range that a literal is checked against is that of the integer type. -/
theorem range?_eq (kind : BuiltinKind) : kind.range? = (integerType? kind).map fun type => (type.low, type.bound - 1) := by
  cases kind <;> rfl

theorem juliaName_eq {kind : BuiltinKind} {type : IntegerType} (h : integerType? kind = some type) : kind.juliaName = type.name := by
  cases kind <;> cases h <;> decide

theorem eq_int64_iff {kind : BuiltinKind} {type : IntegerType} (h : integerType? kind = some type) :
    kind = .int64 ↔ type = .int64 := by
  cases kind <;> cases h <;> decide

theorem int64_holds (n : Int64) : IntegerType.int64.Holds n.toInt :=
  ⟨n.le_toInt, n.toInt_lt⟩

theorem int32_holds (n : Int32) : IntegerType.int32.Holds n.toInt :=
  ⟨n.le_toInt, n.toInt_lt⟩

theorem fitsInt32_iff (n : Int64) : Enum.fitsInt32 n = true ↔ IntegerType.int32.Holds n.toInt := by
  rw [Enum.fitsInt32, Bool.and_eq_true, decide_eq_true_eq, decide_eq_true_eq]
  exact and_congr Iff.rfl Int.lt_add_one_iff.symm

/-! ## The writer's parts -/

namespace Literal

theorem renderAll_eq_map (literals : List Literal) : renderAll literals = literals.map render := by
  induction literals with
  | nil => rfl
  | cons first rest ih => rw [renderAll, ih, List.map_cons]

theorem toList_render_call (function : String) (arguments : List Literal) : (call function arguments).render.toList =
    function.toList ++ '(' :: [',', ' '].intercalate (arguments.map fun argument => argument.render.toList) ++ [')'] := by
  rw [render, renderAll_eq_map]
  simp [String.toList_append, String.toList_intercalate, Function.comp_def]

/-- The one argument of a call is found between its parentheses. -/
theorem inParentheses?_call (function : String) (argument : Literal) :
    inParentheses? function (call function [argument]).render.toList = some argument.render.toList := by
  rw [inParentheses?_eq_some_iff, toList_render_call, List.map_singleton, List.intercalate_singleton]

theorem inParentheses?_call_nil (function : String) : inParentheses? function (call function []).render.toList = some [] := by
  rw [inParentheses?_eq_some_iff, toList_render_call]
  rfl

theorem readDecimal_int (n : Int) : readDecimal (int n).render.toList = some n := readDecimal_toString n

/-- The literal of a number for an integer type is read by that type. -/
theorem readInteger_literal {type : IntegerType} {n : Int} (h : type.Holds n) :
    readInteger type (if type = .int64 then int n else call type.name [int n]).render.toList = some n := by
  rw [readInteger, Option.filter_eq_some_iff]
  refine ⟨?_, decide_eq_true h⟩
  split
  · exact readDecimal_int n
  · rw [inParentheses?_call]
    exact readDecimal_int n

theorem readString_hostString (s : String) : readString (hostString s).render.toList = some s := by
  rw [readString, hostString, inParentheses?_call]
  exact readQuoted_quoted s

/-- The literal of an integer vector is read by its components. -/
theorem readComponents_ints (name : String) (components : List Int32) (hne : components ≠ []) :
    (inParentheses? name (ints name components).render.toList).bind (readComponents components.length) =
      some (components.map Int32.toInt) := by
  have hinner : inParentheses? name (ints name components).render.toList =
      some ([',', ' '].intercalate (components.map fun c => (toString c.toInt).toList)) := by
    rw [inParentheses?_eq_some_iff, ints, toList_render_call, List.map_map]
    rfl
  have hitems : splitItems ([',', ' '].intercalate (components.map fun c => (toString c.toInt).toList)) =
      components.map fun c => (toString c.toInt).toList := by
    have hchars : ∀ item ∈ components.map (fun c => (toString c.toInt).toList), ∀ c ∈ item, c = '-' ∨ c.isDigit = true := by
      intro item hitem c hc
      obtain ⟨x, _, rfl⟩ := List.mem_map.mp hitem
      exact mem_toString hc
    refine splitItems_intercalate (by simpa using hne) (fun item hitem hin => ?_) (fun item hitem hin => ?_)
    · exact absurd (hchars item hitem _ hin) (by decide)
    · exact absurd (hchars item hitem _ hin) (by decide)
  have hread : (components.map fun c => (toString c.toInt).toList).mapM readComponent = some (components.map Int32.toInt) := by
    clear hinner hitems hne
    induction components with
    | nil => rfl
    | cons c rest ih =>
      have hc : readComponent (toString c.toInt).toList = some c.toInt :=
        Option.filter_eq_some_iff.mpr ⟨readDecimal_toString _, decide_eq_true (int32_holds c)⟩
      rw [List.map_cons, List.mapM_cons, hc, ih]
      rfl
  rw [hinner, Option.bind_some, readComponents, hitems, hread]
  exact Option.filter_eq_some_iff.mpr ⟨rfl, by simp⟩

/-- The kind of a call is told by its function. -/
theorem kindOf_call {function : String} (h : '(' ∉ function.toList) (arguments : List Literal) :
    kindOf (call function arguments).render.toList = kindOf function.toList := by
  have hname : ∀ c ∈ function.toList, decide (c ≠ '(') = true := fun c hc =>
    decide_eq_true fun heq => h (heq ▸ hc)
  have htake : (function.toList).takeWhile (· ≠ '(') = function.toList := List.takeWhile_eq_self_iff.mpr hname
  rw [kindOf, kindOf, toList_render_call, List.append_assoc, List.takeWhile_append_of_pos hname, htake, List.cons_append,
    List.takeWhile_cons_of_neg (by decide), List.append_nil]

theorem kindOf_int (n : Int) : kindOf (int n).render.toList = .int64 := by
  have htake : ((int n).render.toList).takeWhile (· ≠ '(') = (toString n).toList :=
    List.takeWhile_eq_self_iff.mpr fun c hc => decide_eq_true fun heq => absurd (mem_toString hc) (heq ▸ by decide)
  have hhead : ∀ head ∈ heads, head.1.toList.all (fun c => c == '-' || c.isDigit) = false := by decide
  rw [kindOf, htake, List.find?_eq_none.mpr]
  · rfl
  · intro head hm heq
    have hall : head.1.toList.all (fun c => c == '-' || c.isDigit) = true := by
      rw [beq_iff_eq.mp heq, List.all_eq_true]
      exact fun c hc => by simpa using mem_toString hc
    exact Bool.false_ne_true ((hhead head hm).symm.trans hall)

/-! ## Literals of a value's own kind -/

theorem readDatum_bool (b : Bool) : readDatum .bool (bool b).render.toList = some (.bool b) := by
  cases b <;> rfl

theorem readDatum_integer (kind : BuiltinKind) {type : IntegerType} (htype : integerType? kind = some type) {n : Int}
    (hn : type.Holds n) : readDatum kind (if kind = .int64 then int n else call kind.juliaName [int n]).render.toList =
      some (.integer type n) := by
  rw [readDatum_of_integerType? htype, juliaName_eq htype]
  simp only [eq_int64_iff htype]
  rw [readInteger_literal hn]
  rfl

theorem readDatum_string (s : String) : readDatum .string (hostString s).render.toList = some (.string s) := by
  rw [readDatum, readString_hostString]
  rfl

theorem readDatum_stringName (s : String) : readDatum .stringName (hostStringName s).render.toList = some (.stringName s) := by
  rw [readDatum, hostStringName, inParentheses?_call, Option.bind_some, readString_hostString]
  rfl

theorem readDatum_ints (kind : BuiltinKind) {name : String} {components : List Int32}
    (h : vectorType? kind = some (name, components.length)) :
    readDatum kind (ints name components).render.toList = some (.vector kind (components.map Int32.toInt)) := by
  have hne : components ≠ [] := by
    rintro rfl
    cases kind <;> nomatch h
  rw [readDatum_of_vectorType? h, readComponents_ints name components hne]
  rfl

theorem kindOf_bool (b : Bool) : kindOf (bool b).render.toList = .bool := by
  cases b <;> decide

theorem kindOf_hostString (s : String) : kindOf (hostString s).render.toList = .string :=
  (kindOf_call (by decide) _).trans (by decide)

theorem kindOf_hostStringName (s : String) : kindOf (hostStringName s).render.toList = .stringName :=
  (kindOf_call (by decide) _).trans (by decide)

/-- The constructor of an integer vector tells its kind. -/
theorem kindOf_ints (kind : BuiltinKind) {name : String} {size : Nat} (h : vectorType? kind = some (name, size))
    (components : List Int32) : kindOf (ints name components).render.toList = kind := by
  cases kind <;> cases h <;> exact (kindOf_call (by decide) _).trans (by decide)

/-- The literal of a value of its own kind is read as such, wherever any kind may stand. -/
theorem readDatum_natural {realIsDouble : Bool} {value : Value} {literal : Literal}
    (h : natural? realIsDouble value = some literal) (hreal : hasReals value = false) :
    ∃ d, datumOf? value = some d ∧ contentOf? value = some d.content ∧
      readDatum (kindOf literal.render.toList) literal.render.toList = some d := by
  cases value with
  | bool b =>
    obtain rfl := Option.some.inj h
    refine ⟨_, rfl, rfl, ?_⟩
    rw [kindOf_bool]
    exact readDatum_bool b
  | int n =>
    obtain rfl := Option.some.inj h
    refine ⟨_, rfl, rfl, ?_⟩
    rw [kindOf_int]
    exact readDatum_integer .int64 rfl (int64_holds n)
  | string s =>
    obtain rfl := Option.some.inj h
    refine ⟨_, rfl, rfl, ?_⟩
    rw [kindOf_hostString]
    exact readDatum_string s
  | stringName s =>
    obtain rfl := Option.some.inj h
    refine ⟨_, rfl, rfl, ?_⟩
    rw [kindOf_hostStringName]
    exact readDatum_stringName s
  | vector2i x y =>
    obtain rfl := Option.some.inj h
    refine ⟨_, rfl, rfl, ?_⟩
    rw [kindOf_ints .vector2i rfl]
    exact readDatum_ints .vector2i rfl
  | vector3i x y z =>
    obtain rfl := Option.some.inj h
    refine ⟨_, rfl, rfl, ?_⟩
    rw [kindOf_ints .vector3i rfl]
    exact readDatum_ints .vector3i rfl
  | vector4i x y z w =>
    obtain rfl := Option.some.inj h
    refine ⟨_, rfl, rfl, ?_⟩
    rw [kindOf_ints .vector4i rfl]
    exact readDatum_ints .vector4i rfl
  | nil | unsupported _ => nomatch h
  | float _ | vector2 _ _ | vector3 _ _ _ | vector4 _ _ _ _ => nomatch hreal

/-- The literal of an integer for an integer type, and when there is one. -/
theorem integer?_eq {kind : BuiltinKind} {type : IntegerType} (h : integerType? kind = some type) (n : Int64) :
    integer? kind n = if type.Holds n.toInt then
      some (if kind = .int64 then .int n.toInt else .call kind.juliaName [.int n.toInt]) else none := by
  rw [integer?, range?_eq, h]
  have hrange : type.low ≤ n.toInt ∧ n.toInt ≤ type.bound - 1 ↔ type.Holds n.toInt := and_congr Iff.rfl Int.le_sub_one_iff
  simp only [Option.map_some, hrange]

theorem floating?_eq_none {kind : BuiltinKind} (h : kind.isReal = false) (x : Float) : floating? kind x = none := by
  cases kind <;> first | rfl | exact absurd h (by decide)

theorem builtin?_int {kind : BuiltinKind} {type : IntegerType} (h : integerType? kind = some type) (realIsDouble : Bool)
    (n : Int64) : builtin? realIsDouble kind (.int n) = integer? kind n := by
  cases kind <;> cases h <;> rfl

end Literal

/-! ## Sources read back -/

section ReadBack

variable {realIsDouble : Bool} {value : Value} {literal : Literal}

theorem read_variant (h : Literal.variant? realIsDouble value = some literal) (hreal : hasReals value = false) :
    read (.builtin .variant) literal.render.toList = some (.boxed (datumOf? value)) ∧
      contentOf? value = some (Evaluated.boxed (datumOf? value)).content := by
  unfold Literal.variant? at h
  split at h
  · obtain rfl := Option.some.inj h
    refine ⟨?_, rfl⟩
    rw [read, Literal.inParentheses?_call_nil]
    rfl
  · obtain ⟨inner, hinner, rfl⟩ := Option.map_eq_some_iff.mp h
    obtain ⟨d, hdatum, hcontent, hread⟩ := Literal.readDatum_natural hinner hreal
    have hne : inner.render.toList ≠ [] := by
      intro hnil
      have hnone : readDatum (kindOf []) [] = none := by decide +kernel
      rw [hnil, hnone] at hread
      cases hread
    rw [read, Literal.inParentheses?_call, Option.bind_some, if_neg hne, hread, hdatum]
    exact ⟨rfl, hcontent⟩

theorem read_builtin_literal {kind : BuiltinKind} (hkind : kind ≠ .variant) (hexpected : kind.isReal = false)
    (h : Literal.builtin? realIsDouble kind value = some literal) (hreal : hasReals value = false) :
    ∃ d : Datum, read (.builtin kind) literal.render.toList = some (.datum d) ∧ contentOf? value = some d.content := by
  have hread : ∀ d, readDatum kind literal.render.toList = some d →
      read (.builtin kind) literal.render.toList = some (.datum d) := by
    intro d hd
    rw [read_builtin hkind, hd]
    rfl
  unfold Literal.builtin? at h
  split at h
  · exact absurd rfl hkind
  · obtain rfl := Option.some.inj h
    exact ⟨_, hread _ (Literal.readDatum_bool _), rfl⟩
  · obtain rfl := Option.some.inj h
    exact ⟨_, hread _ (Literal.readDatum_string _), rfl⟩
  · obtain rfl := Option.some.inj h
    exact ⟨_, hread _ (Literal.readDatum_string _), rfl⟩
  · obtain rfl := Option.some.inj h
    exact ⟨_, hread _ (Literal.readDatum_stringName _), rfl⟩
  · obtain rfl := Option.some.inj h
    exact ⟨_, hread _ (Literal.readDatum_stringName _), rfl⟩
  · nomatch hreal
  · nomatch hreal
  · nomatch hreal
  · obtain rfl := Option.some.inj h
    exact ⟨_, hread _ (Literal.readDatum_ints .vector2i rfl), rfl⟩
  · obtain rfl := Option.some.inj h
    exact ⟨_, hread _ (Literal.readDatum_ints .vector3i rfl), rfl⟩
  · obtain rfl := Option.some.inj h
    exact ⟨_, hread _ (Literal.readDatum_ints .vector4i rfl), rfl⟩
  · rename_i n _ _ _
    -- of the kinds that are left only integer types take a number: reals are not expected
    cases htype : integerType? kind with
    | some type =>
      rw [if_pos (by rw [BuiltinKind.isInteger, range?_eq, htype]; rfl), Literal.integer?_eq htype] at h
      split at h
      · rename_i hn
        obtain rfl := Option.some.inj h
        exact ⟨_, hread _ (Literal.readDatum_integer kind htype hn), rfl⟩
      · nomatch h
    | none =>
      rw [if_neg (by rw [BuiltinKind.isInteger, range?_eq, htype]; exact Bool.false_ne_true), Literal.floating?_eq_none hexpected] at h
      nomatch h
  · nomatch hreal
  · nomatch h

theorem read_enumeration_literal {name : String} {isFlags : Bool} {n : Int64}
    (h : Literal.enumeration? name isFlags n = some literal) :
    ∃ v : Evaluated, read (.enumeration name isFlags) literal.render.toList = some v ∧ v.content = .int n.toInt := by
  unfold Literal.enumeration? at h
  split at h
  · rename_i hn
    obtain rfl := Option.some.inj h
    cases isFlags with
    | true =>
      have hread : readInteger .int64 (Literal.int n.toInt).render.toList = some n.toInt :=
        Literal.readInteger_literal (int64_holds n)
      exact ⟨.datum (.integer .int64 n.toInt), by rw [read, if_pos rfl, hread]; rfl, rfl⟩
    | false =>
      refine ⟨.member name n.toInt, ?_, rfl⟩
      rw [read, if_neg Bool.false_ne_true, Literal.inParentheses?_call, Option.bind_some, Literal.readDecimal_int]
      rw [Option.filter_some, if_pos (decide_eq_true ((fitsInt32_iff n).mp hn))]
      rfl
  · nomatch h

/-- A source is read as what its value says, and in a box as a value of the same kind. -/
theorem read_synthesize {destination : Destination} {source : String} (hreal : hasReals value = false)
    (hexpected : expectsReal destination = false) (h : synthesize value destination realIsDouble = some source) :
    ∃ v, read destination source.toList = some v ∧ contentOf? value = some v.content ∧
      (destination = .builtin .variant → v = .boxed (datumOf? value)) := by
  obtain ⟨literal, hliteral, rfl⟩ := Option.map_eq_some_iff.mp h
  cases destination with
  | builtin kind =>
    by_cases hkind : kind = .variant
    · subst hkind
      obtain ⟨hread, hcontent⟩ := read_variant hliteral hreal
      exact ⟨_, hread, hcontent, fun _ => rfl⟩
    · obtain ⟨d, hread, hcontent⟩ := read_builtin_literal hkind hexpected hliteral hreal
      exact ⟨_, hread, hcontent, fun heq => absurd (Destination.builtin.inj heq) hkind⟩
  | enumeration name isFlags =>
    cases value with
    | int n =>
      obtain ⟨v, hread, hcontent⟩ := read_enumeration_literal hliteral
      exact ⟨v, hread, congrArg some hcontent.symm, fun heq => nomatch heq⟩
    | _ => nomatch hliteral
  | object cls =>
    cases value with
    | nil =>
      obtain rfl := Option.some.inj hliteral
      refine ⟨.nullObject cls, ?_, rfl, fun heq => nomatch heq⟩
      rw [read, Literal.inParentheses?_call]
      rfl
    | _ => nomatch hliteral

/-- Two values of a kind with the same source for a parameter are the same. -/
theorem eq_of_synthesize {other : Value} {destination : Destination} {source : String} (hreal : hasReals value = false)
    (hreal' : hasReals other = false) (hexpected : expectsReal destination = false) (hkind : value.kindName = other.kindName)
    (h : synthesize value destination realIsDouble = some source)
    (h' : synthesize other destination realIsDouble = some source) : value = other := by
  obtain ⟨v, hread, hcontent, _⟩ := read_synthesize hreal hexpected h
  obtain ⟨v', hread', hcontent', _⟩ := read_synthesize hreal' hexpected h'
  obtain rfl := Option.some.inj (hread.symm.trans hread')
  exact eq_of_contentOf? hkind (hcontent ▸ Option.some_ne_none _) (hcontent.trans hcontent'.symm)

end ReadBack

/-- An integer has a source for an integer type when it is one of the type. -/
theorem isSome_synthesize_integer {kind : BuiltinKind} {type : IntegerType} (h : integerType? kind = some type)
    (realIsDouble : Bool) (n : Int64) :
    (synthesize (.int n) (.builtin kind) realIsDouble).isSome = true ↔ type.Holds n.toInt := by
  rw [synthesize, Literal.for?, Literal.builtin?_int h, Literal.integer?_eq h]
  split <;> simp [*]

theorem isSome_synthesize_enumeration (name : String) (isFlags realIsDouble : Bool) (n : Int64) :
    (synthesize (.int n) (.enumeration name isFlags) realIsDouble).isSome = true ↔ IntegerType.int32.Holds n.toInt := by
  rw [synthesize, Literal.for?, Literal.enumeration?, ← fitsInt32_iff]
  split <;> simp [*]

/-- The sources of defaults, reals aside. Each is read, where a value of the type of the parameter is expected, as a value of this type
that says what the host value says, and in a box as a value of the same kind; so two values of a kind never have the same source. An
integer has a source for an integer type exactly when it is one of the type, for an enum exactly when it is one of 32 bits, and in a box
always. -/
theorem literals_read_back (realIsDouble : Bool) :
    (∀ value destination source, hasReals value = false → expectsReal destination = false →
        synthesize value destination realIsDouble = some source →
          ∃ v, read destination source.toList = some v ∧ v.HasType destination ∧ contentOf? value = some v.content ∧
            (destination = .builtin .variant → v = .boxed (datumOf? value))) ∧
      (∀ value other destination source, hasReals value = false → hasReals other = false →
        expectsReal destination = false → value.kindName = other.kindName →
          synthesize value destination realIsDouble = some source →
            synthesize other destination realIsDouble = some source → value = other) ∧
      (∀ n kind type, integerType? kind = some type →
        ((synthesize (.int n) (.builtin kind) realIsDouble).isSome = true ↔ type.Holds n.toInt)) ∧
      (∀ n name isFlags, (synthesize (.int n) (.enumeration name isFlags) realIsDouble).isSome = true ↔
        IntegerType.int32.Holds n.toInt) ∧
      ∀ n, (synthesize (.int n) (.builtin .variant) realIsDouble).isSome = true := by
  refine ⟨fun value destination source hreal hexpected h => ?_,
    fun _ _ _ _ hreal hreal' hexpected hkind => eq_of_synthesize hreal hreal' hexpected hkind,
    fun n _ _ htype => isSome_synthesize_integer htype realIsDouble n,
    fun n name isFlags => isSome_synthesize_enumeration name isFlags realIsDouble n, fun n => rfl⟩
  obtain ⟨v, hread, hcontent, hboxed⟩ := read_synthesize hreal hexpected h
  exact ⟨v, hread, hasType_of_read hread, hcontent, hboxed⟩

theorem literals_read_back_escaped : ∃ v, read (.builtin .string) "String(\"\\$a\\\"b\")".toList = some v ∧
    v.HasType (.builtin .string) ∧ v.content = .text "$a\"b" := by
  have hsource : synthesize (.string "$a\"b") (.builtin .string) false = some "String(\"\\$a\\\"b\")" := by decide +kernel
  obtain ⟨v, hread, htype, hcontent, _⟩ := (literals_read_back false).1 _ _ _ rfl rfl hsource
  exact ⟨v, hread, htype, (Option.some.inj hcontent).symm⟩

end JuliaStubs.Source
