import JuliaStubs.Proofs.Catalog.EnumPartition
import JuliaStubs.Proofs.Dump.Lookups
import JuliaStubs.Proofs.Source.RoundTrip
import JuliaStubs.Proofs.Source.Undocumented

/-!
# What the block of an enum declares

The text of an enum, documentation aside: a number for the first member of each value, and after the declaration a second name for
every other member. `evaluate` reads such a text the way Julia does, without the enum that it was made of. It binds every name to its
own value (`enum_block`).
-/

namespace JuliaStubs.Source

open Catalog

/-! ## Identifiers -/

/-- The characters that an identifier starts with: letters, the underscore, and whatever is not ASCII. -/
def startsIdentifier (c : Char) : Bool := c.isAlpha || c == '_' || 0x80 ≤ c.toNat

/-- A name that code can use: not empty, of letters, digits and marks, and not a reserved word. -/
def isIdentifier (name : String) : Bool :=
  name.toList.head?.any startsIdentifier && name.toList.all (fun c => startsIdentifier c || c.isDigit || c == '!') &&
    !Naming.isReserved name

theorem not_mem_of_isIdentifier {name : String} (h : isIdentifier name = true) : ' ' ∉ name.toList := by
  rw [isIdentifier, Bool.and_eq_true, Bool.and_eq_true, List.all_eq_true] at h
  intro hblank
  exact absurd (h.1.2 ' ' hblank) (by decide)

/-! ## Evaluation -/

/-- The base type of the members, by the first line of a declaration. -/
def baseType? (header : String) : Option IntegerType :=
  ((header.toList.dropPrefix? "@enum ".toList).bind fun rest => rest.dropSuffix? " begin".toList).map fun type =>
    if "::Int64".toList.isSuffixOf type then .int64 else .int32

/-- The name on the left of a line and what is on its right. -/
def readAssignment? (line : String) : Option (String × List Char) :=
  let name := String.ofList (line.toList.takeWhile (· ≠ ' '))
  if isIdentifier name then ((line.toList.dropWhile (· ≠ ' ')).dropPrefix? " = ".toList).map fun source => (name, source)
  else none

/-- The value that a name is bound to. -/
def valueOf? (bound : List (String × Int)) (name : String) : Option Int :=
  (bound.find? fun entry => entry.1 == name).map Prod.snd

/-- Reads the lines of a declaration up to its end. Each binds a new name to a number of the base type that no name before it has. -/
def evaluateMembers (base : IntegerType) (bound : List (String × Int)) :
    List String → Option (List (String × Int) × List String)
  | [] => none
  | line :: rest =>
    if line = "end" then some (bound, rest)
    else do
      let (name, source) ← readAssignment? line
      let value ← (readDecimal source).filter base.Holds
      if name ∈ bound.map Prod.fst ∨ value ∈ bound.map Prod.snd then none
      else evaluateMembers base ((name, value) :: bound) rest

/-- Reads the lines after a declaration, of which empty ones mean nothing. Each binds a new name to what another one is bound to. -/
def evaluateSynonyms (bound : List (String × Int)) : List String → Option (List (String × Int))
  | [] => some bound
  | line :: rest =>
    if line = "" then evaluateSynonyms bound rest
    else do
      let (name, source) ← readAssignment? line
      let value ← valueOf? bound (String.ofList source)
      if name ∈ bound.map Prod.fst then none
      else evaluateSynonyms ((name, value) :: bound) rest

/-- The constants that the lines of an enum bind, the last one in front. -/
def evaluate : List String → Option (List (String × Int))
  | [] => none
  | header :: rest => do
    let base ← baseType? header
    let (bound, rest) ← evaluateMembers base [] rest
    evaluateSynonyms bound rest

/-! ## Lines -/

theorem dropPrefix?_append (front rest : List Char) : (front ++ rest).dropPrefix? front = some rest :=
  List.dropPrefix?_eq_some_iff.mpr ⟨front, rfl, BEq.rfl⟩

theorem readAssignment?_line {name source : String} (h : isIdentifier name = true) :
    readAssignment? (name ++ " = " ++ source) = some (name, source.toList) := by
  have hline : (name ++ " = " ++ source).toList = name.toList ++ ' ' :: '=' :: ' ' :: source.toList := by
    simp [String.toList_append]
  have hall : ∀ c ∈ name.toList, decide (c ≠ ' ') = true := fun c hc =>
    decide_eq_true fun hblank => not_mem_of_isIdentifier h (hblank ▸ hc)
  have htake : (name ++ " = " ++ source).toList.takeWhile (· ≠ ' ') = name.toList := by
    rw [hline, List.takeWhile_append_of_pos hall]
    simp
  have hdrop : (name ++ " = " ++ source).toList.dropWhile (· ≠ ' ') = " = ".toList ++ source.toList := by
    rw [hline, List.dropWhile_append_of_pos hall]
    simp
  unfold readAssignment?
  dsimp only
  rw [htake, hdrop, String.ofList_toList, if_pos h, dropPrefix?_append, Option.map_some]

/-- A line with a blank is neither the end of a declaration nor empty. -/
theorem line_ne (name source : String) : name ++ " = " ++ source ≠ "end" ∧ name ++ " = " ++ source ≠ "" := by
  have hmem : ' ' ∈ (name ++ " = " ++ source).toList := by simp [String.toList_append]
  exact ⟨fun h => absurd (h ▸ hmem) (by decide), fun h => absurd (h ▸ hmem) (by decide)⟩

/-- The value of a name, where no name is bound twice. -/
theorem valueOf?_of_mem {bound : List (String × Int)} (hnd : (bound.map Prod.fst).Nodup) {entry : String × Int}
    (h : entry ∈ bound) : valueOf? bound entry.1 = some entry.2 := by
  rw [valueOf?, (Dump.find?_name_iff hnd).mpr ⟨h, rfl⟩, Option.map_some]

/-- Lines that bind numbers to new names bind these names to these numbers. -/
theorem evaluateMembers_eq {base : IntegerType} {members : List Constant} {bound : List (String × Int)} (rest : List String)
    (hid : ∀ member ∈ members, isIdentifier member.name = true) (hbase : ∀ member ∈ members, base.Holds member.value.toInt)
    (hnames : (bound.map Prod.fst ++ members.map Constant.name).Nodup)
    (hvalues : (bound.map Prod.snd ++ members.map fun member => member.value.toInt).Nodup) :
    evaluateMembers base bound (members.map (fun member => Statement.assignment member.name member.value) ++ "end" :: rest) =
      some ((members.map fun member => (member.name, member.value.toInt)).reverse ++ bound, rest) := by
  induction members generalizing bound with
  | nil => rfl
  | cons member members ih =>
    rw [List.map_cons] at hnames hvalues
    have hread : readAssignment? (Statement.assignment member.name member.value) =
        some (member.name, (toString member.value.toInt).toList) := readAssignment?_line (hid member List.mem_cons_self)
    have hend : Statement.assignment member.name member.value ≠ "end" := (line_ne _ _).1
    have hvalue : (readDecimal (toString member.value.toInt).toList).filter (fun n => decide (base.Holds n)) =
        some member.value.toInt := by
      rw [readDecimal_toString, Option.filter_some, if_pos (decide_eq_true (hbase member List.mem_cons_self))]
    have hnew : ¬(member.name ∈ bound.map Prod.fst ∨ member.value.toInt ∈ bound.map Prod.snd) := by
      rintro (hmem | hmem)
      · exact (List.nodup_append.mp hnames).2.2 _ hmem _ List.mem_cons_self rfl
      · exact (List.nodup_append.mp hvalues).2.2 _ hmem _ List.mem_cons_self rfl
    rw [List.map_cons, List.cons_append, evaluateMembers, if_neg hend, hread]
    simp only [Option.bind_eq_bind, Option.bind_some, hvalue, if_neg hnew]
    rw [@ih ((member.name, member.value.toInt) :: bound) (fun other ho => hid other (List.mem_cons_of_mem _ ho))
      (fun other ho => hbase other (List.mem_cons_of_mem _ ho)) (List.perm_middle.nodup_iff.mp hnames)
      (List.perm_middle.nodup_iff.mp hvalues)]
    simp

/-- Lines that bind new names to names that are bound bind the new ones to the same numbers. -/
theorem evaluateSynonyms_eq {aliases : List (Constant × Constant)} {bound : List (String × Int)}
    (hid : ∀ pair ∈ aliases, isIdentifier pair.1.name = true)
    (hbound : ∀ pair ∈ aliases, (pair.2.name, pair.1.value.toInt) ∈ bound)
    (hnames : (bound.map Prod.fst ++ aliases.map fun pair => pair.1.name).Nodup) :
    evaluateSynonyms bound (aliases.map (fun pair => pair.1.name ++ " = " ++ pair.2.name) ++ [""]) =
      some ((aliases.map fun pair => (pair.1.name, pair.1.value.toInt)).reverse ++ bound) := by
  induction aliases generalizing bound with
  | nil => rfl
  | cons pair aliases ih =>
    rw [List.map_cons] at hnames
    have hread : readAssignment? (pair.1.name ++ " = " ++ pair.2.name) = some (pair.1.name, pair.2.name.toList) :=
      readAssignment?_line (hid pair List.mem_cons_self)
    have hvalue : valueOf? bound pair.2.name = some pair.1.value.toInt :=
      valueOf?_of_mem (List.nodup_append.mp hnames).1 (hbound pair List.mem_cons_self)
    have hnew : pair.1.name ∉ bound.map Prod.fst := fun hmem =>
      (List.nodup_append.mp hnames).2.2 _ hmem _ List.mem_cons_self rfl
    rw [List.map_cons, List.cons_append, evaluateSynonyms, if_neg (line_ne _ _).2, hread]
    simp only [Option.bind_eq_bind, Option.bind_some, String.ofList_toList, hvalue, if_neg hnew]
    rw [@ih ((pair.1.name, pair.1.value.toInt) :: bound) (fun other ho => hid other (List.mem_cons_of_mem _ ho))
      (fun other ho => List.mem_cons_of_mem _ (hbound other (List.mem_cons_of_mem _ ho)))
      (List.perm_middle.nodup_iff.mp hnames)]
    simp

/-! ## The block of an enum -/

section Block

variable (e : Enum)

/-- The lines of the block without documentation. -/
def plainLines : List String := blockLines ((enumStatements e).filter Statement.declares)

/-- The lines of a block between its first one and its documentation: a number for each canonical member and a name for each alias. -/
def declaredLines (p : EnumPartition) : List String :=
  (p.canonical.map fun member => Statement.assignment member.name member.value) ++ "end" ::
    p.aliases.map fun pair => pair.1.name ++ " = " ++ pair.2.name

/-- What the block of an enum is, given its first line. -/
structure IsBlock (header : String) : Prop where
  /-- All documentation comes after what is declared. -/
  lines : enumLines e = header :: declaredLines e.partition ++
    (e.members.filterMap fun member => member.doc.map (Statement.document · member.name)).flatMap Statement.lines ++ [""]
  plain : plainLines e = header :: declaredLines e.partition ++ [""]
  /-- The base type is the default one when it holds every value, and the wide one otherwise. -/
  narrow : header = "@enum " ++ e.juliaName ++ " begin" ↔ ∀ member ∈ e.members, IntegerType.int32.Holds member.value.toInt
  wide : header = "@enum " ++ e.juliaName ++ "::Int64" ++ " begin" ↔
    ¬∀ member ∈ e.members, IntegerType.int32.Holds member.value.toInt
  /-- A value of the enum is written once. -/
  once : ∀ value ∈ e.members.map Constant.value, (e.partition.canonical.map Constant.value).count value = 1
  /-- An alias refers to a name of the declaration above it. -/
  declared : ∀ pair ∈ e.partition.aliases, pair.2.name ∈ e.partition.canonical.map Constant.name

/-- The first line of the block. -/
def blockHeader : String := "@enum " ++ e.juliaName ++ (if e.isNarrow then "" else "::Int64") ++ " begin"

theorem filter_declares_enumStatements : (enumStatements e).filter Statement.declares =
    .declareEnum e.juliaName (!e.isNarrow) (e.partition.canonical.map fun member => (member.name, member.value)) ::
      e.partition.aliases.map fun pair => .synonym pair.1.name pair.2.name := by
  rw [enumStatements, List.cons_append, List.filter_cons_of_pos rfl, List.filter_append, filter_declares_map fun _ => rfl,
    filter_declares_document, List.append_nil]

theorem flatMap_lines_filter_declares : ((enumStatements e).filter Statement.declares).flatMap Statement.lines =
    blockHeader e :: declaredLines e.partition := by
  have hsynonyms : (e.partition.aliases.map fun pair => Statement.synonym pair.1.name pair.2.name).flatMap Statement.lines =
      e.partition.aliases.map fun pair => pair.1.name ++ " = " ++ pair.2.name := by
    rw [List.flatMap_map, List.map_eq_flatMap]
    rfl
  rw [filter_declares_enumStatements, List.flatMap_cons, hsynonyms, Statement.lines, List.map_map, blockHeader, declaredLines]
  cases e.isNarrow <;> simp

theorem plainLines_eq : plainLines e = blockHeader e :: declaredLines e.partition ++ [""] := by
  rw [plainLines, blockLines, flatMap_lines_filter_declares]

theorem isNarrow_iff : e.isNarrow = true ↔ ∀ member ∈ e.members, IntegerType.int32.Holds member.value.toInt := by
  rw [Enum.isNarrow, List.all_eq_true]
  exact forall₂_congr fun member _ => fitsInt32_iff member.value

theorem isBlock : IsBlock e (blockHeader e) := by
  have hstatements : enumStatements e = (enumStatements e).filter Statement.declares ++
      e.members.filterMap fun member => member.doc.map (Statement.document · member.name) := by
    rw [filter_declares_enumStatements]
    rfl
  have hne : "@enum " ++ e.juliaName ++ "::Int64" ++ " begin" ≠ "@enum " ++ e.juliaName ++ " begin" := fun h => by
    have hlength := congrArg String.length h
    simp [String.length_append] at hlength
  have hsplits := e.splits_partition
  refine ⟨?_, plainLines_eq e, ?_, ?_, fun value hv => ?_, fun pair hp => ?_⟩
  · rw [enumLines, blockLines, hstatements, List.flatMap_append, flatMap_lines_filter_declares]
  · rw [← isNarrow_iff, blockHeader]
    cases e.isNarrow
    · simp [hne]
    · simp
  · rw [← isNarrow_iff, blockHeader]
    cases e.isNarrow
    · simp
    · simp [hne.symm]
  · exact List.count_eq_one_of_mem hsplits.nodup ((hsplits.covers value).mpr hv)
  · exact List.mem_map_of_mem (hsplits.paired pair hp).2.1

/-- The base type that the first line asks for holds every value. -/
theorem baseType?_blockHeader : ∃ base, baseType? (blockHeader e) = some base ∧
    ∀ member ∈ e.members, base.Holds member.value.toInt := by
  have hread : ∀ type : String, baseType? ("@enum " ++ type ++ " begin") =
      some (if "::Int64".toList.isSuffixOf type.toList then .int64 else .int32) := fun type => by
    have hsuffix : (type.toList ++ " begin".toList).dropSuffix? " begin".toList = some type.toList :=
      List.dropSuffix?_eq_some_iff.mpr ⟨_, rfl, BEq.rfl⟩
    rw [baseType?, String.toList_append, String.toList_append, List.append_assoc, dropPrefix?_append, Option.bind_some, hsuffix,
      Option.map_some]
  have hheader : blockHeader e = "@enum " ++ (e.juliaName ++ if e.isNarrow then "" else "::Int64") ++ " begin" := by
    rw [blockHeader, ← String.append_assoc]
  rw [hheader, hread]
  refine ⟨_, rfl, fun member hm => ?_⟩
  cases hn : e.isNarrow with
  | true =>
    -- the name of the type may itself end like a wide one
    rw [if_pos rfl]
    split
    · exact int64_holds member.value
    · exact (isNarrow_iff e).mp hn member hm
  | false =>
    have hwide : "::Int64".toList.isSuffixOf (e.juliaName ++ "::Int64").toList = true := by
      rw [String.toList_append]
      exact List.isSuffixOf_iff_suffix.mpr (List.suffix_append _ _)
    rw [if_neg Bool.false_ne_true, if_pos hwide]
    exact int64_holds member.value

/-- The constants that the block binds are those of the enum. -/
theorem evaluate_plainLines (hnames : (e.members.map Constant.name).Nodup)
    (hid : ∀ member ∈ e.members, isIdentifier member.name = true) :
    ∃ bound, evaluate (plainLines e) = some bound ∧ bound.Perm (e.members.map fun member => (member.name, member.value.toInt)) := by
  have hsplits := e.splits_partition
  have hperm := e.canonical_append_aliases_perm
  have hmem : ∀ member ∈ e.partition.canonical ++ e.partition.aliases.map Prod.fst, member ∈ e.members := fun _ => hperm.mem_iff.mp
  have hcanonical : ∀ member ∈ e.partition.canonical, member ∈ e.members := fun member hm => hmem member (List.mem_append_left _ hm)
  have halias : ∀ pair ∈ e.partition.aliases, pair.1 ∈ e.members := fun pair hp =>
    hmem pair.1 (List.mem_append_right _ (List.mem_map_of_mem hp))
  have hnd : (e.partition.canonical.map Constant.name ++ e.partition.aliases.map fun pair => pair.1.name).Nodup := by
    have := (hperm.map Constant.name).nodup_iff.mpr hnames
    rwa [List.map_append, List.map_map] at this
  obtain ⟨base, hbase, hholds⟩ := baseType?_blockHeader e
  have hvalues : (e.partition.canonical.map fun member => member.value.toInt).Nodup := by
    have := hsplits.nodup.map fun _ _ => Int64.toInt_inj.mp
    rwa [List.map_map] at this
  have hmembers := @evaluateMembers_eq base e.partition.canonical []
    ((e.partition.aliases.map fun pair => pair.1.name ++ " = " ++ pair.2.name) ++ [""])
    (fun member hm => hid member (hcanonical member hm)) (fun member hm => hholds member (hcanonical member hm))
    (List.nodup_append.mp hnd).1 hvalues
  have hbound : ∀ pair ∈ e.partition.aliases, (pair.2.name, pair.1.value.toInt) ∈
      (e.partition.canonical.map fun member => (member.name, member.value.toInt)).reverse := fun pair hp => by
    obtain ⟨-, hm, hv, -⟩ := hsplits.paired pair hp
    rw [← hv]
    exact List.mem_reverse.mpr (List.mem_map_of_mem (f := fun member : Constant => (member.name, member.value.toInt)) hm)
  have hsynonyms := evaluateSynonyms_eq (fun pair hp => hid pair.1 (halias pair hp)) hbound (by
    refine (List.Perm.nodup_iff (List.Perm.append_right _ ?_)).mpr hnd
    rw [List.map_reverse, List.map_map]
    exact List.reverse_perm _)
  refine ⟨(e.partition.aliases.map fun pair => (pair.1.name, pair.1.value.toInt)).reverse ++
    (e.partition.canonical.map fun member => (member.name, member.value.toInt)).reverse, ?_, ?_⟩
  · rw [plainLines_eq, declaredLines, List.cons_append, evaluate, hbase, List.append_assoc, List.cons_append]
    simp only [Option.bind_eq_bind, Option.bind_some, hmembers, List.append_nil]
    exact hsynonyms
  · refine ((List.reverse_perm _).append (List.reverse_perm _)).trans (List.perm_append_comm.trans ?_)
    have := hperm.map fun member : Constant => (member.name, member.value.toInt)
    rwa [List.map_append, List.map_map] at this

end Block

/-- The members of an enum are split by value, and its block says so: it writes each value once, refers to names that it declares
above, and has the default base type exactly when that holds every value. Where the names are identifiers that do not repeat, the block
binds all of them and nothing else, each to its own value. -/
theorem enum_block (e : Enum) : e.Splits e.partition ∧ (∃ header, IsBlock e header) ∧
    ((e.members.map Constant.name).Nodup → (∀ member ∈ e.members, isIdentifier member.name = true) →
      ∃ bound, evaluate (plainLines e) = some bound ∧
        (∀ member ∈ e.members, valueOf? bound member.name = some member.value.toInt) ∧
        ∀ name ∈ bound.map Prod.fst, name ∈ e.members.map Constant.name) := by
  refine ⟨e.splits_partition, ⟨_, isBlock e⟩, fun hnames hid => ?_⟩
  obtain ⟨bound, heval, hperm⟩ := evaluate_plainLines e hnames hid
  have hmap : (bound.map Prod.fst).Perm (e.members.map Constant.name) := by
    have := hperm.map Prod.fst
    rwa [List.map_map] at this
  refine ⟨bound, heval, fun member hm => ?_, fun name => hmap.mem_iff.mp⟩
  have hentry : (member.name, member.value.toInt) ∈ bound :=
    hperm.mem_iff.mpr (List.mem_map_of_mem (f := fun member : Constant => (member.name, member.value.toInt)) hm)
  exact valueOf?_of_mem (hmap.nodup_iff.mpr hnames) hentry

/-- Three members of one value and two of another, which is wide, in turns. -/
theorem enum_block_mask :
    let e : Enum := ⟨"Mask", "Mask", "Mask", true, [⟨"NONE", -1, none⟩, ⟨"HIGH", 1099511627776, some "High bit."⟩,
      ⟨"INVALID", -1, none⟩, ⟨"TOP", 1099511627776, none⟩, ⟨"LAST", -1, none⟩]⟩
    plainLines e = ["@enum Mask::Int64 begin", "NONE = -1", "HIGH = 1099511627776", "end", "INVALID = NONE", "TOP = HIGH",
      "LAST = NONE", ""] ∧
    ∃ bound, evaluate (plainLines e) = some bound ∧ valueOf? bound "LAST" = some (-1) ∧
      valueOf? bound "TOP" = some 1099511627776 := by
  intro e
  obtain ⟨-, -, heval⟩ := enum_block e
  obtain ⟨bound, hbound, hvalues, -⟩ := heval (by decide) (by decide)
  exact ⟨by decide, bound, hbound, hvalues ⟨"LAST", -1, none⟩ (by decide), hvalues ⟨"TOP", 1099511627776, none⟩ (by decide)⟩

end JuliaStubs.Source
