import JuliaStubs.Proofs.LoadOrder.Relocation
import JuliaStubs.Proofs.Package.Files
import JuliaStubs.Proofs.Source.InternedNames
import JuliaStubs.Proofs.Source.Stub

/-!
# Interned names of a package

Stubs look names up in a table that stands in a file of its own. The table has the names of the classes with a file and of the methods
with a stub, each declared and interned once and in order (`names_interned`), so no stub reads a name that the table lacks. What the
table is made of comes file by file, but its text depends on the names alone: the file is those lines, and nothing else.
-/

namespace JuliaStubs

open Catalog Report Source

/-! ## Names in use -/

/-- Whether a name is used in a package: as that of a class with a file, or of a method with a stub. -/
def Package.Uses (package : Package) (name : String) : Prop :=
  ∃ file ∈ package.classFiles, name = file.cls.name ∨ ∃ stub ∈ file.stubs, name = stub.method

/-- The names that a stub reads from the table: those of its class and its method to look the method up, and for a singleton that of
the class again to find the instance. -/
def Source.Stub.reads (stub : Stub) : List String :=
  [stub.cls, stub.method] ++
    match stub.receiver with
    | .object _ => []
    | .singleton .. => [stub.cls]

/-- A text stands in a line. -/
def Source.Occurs (text line : String) : Prop := ∃ before after, line = before ++ text ++ after

/-- A table declares and interns the names in use and no other ones, each on one line and in ascending order. -/
structure Source.InternedNames.Tabulates (table : InternedNames) (used : String → Prop) : Prop where
  /-- The text is the lines, each ended by a line feed. -/
  text : table.text = String.join (table.lines.map (· ++ "\n"))
  /-- The lines are the type of the table, with a field for each name, and the function that fills it. -/
  source : table.lines =
    ["mutable struct StringNames"] ++ table.names.map (fun name => "\t_" ++ name ++ "::StringName") ++
      ["\tStringNames() = new()", "end", "", "string_names = StringNames()", ""] ++
      ["function initialize_string_names()"] ++
      table.names.map (fun name => "\tstring_names._" ++ name ++ " = StringName(\"" ++ name ++ "\")") ++ ["end", ""]
  names : ∀ name, name ∈ table.names ↔ used name
  declared : ∀ name, used name → table.lines.count (declaration name) = 1
  initialized : ∀ name, used name → table.lines.count (initialization name) = 1
  unused : ∀ name, ¬used name → declaration name ∉ table.lines ∧ initialization name ∉ table.lines
  /-- The other lines are those of a table without names. -/
  others : ∀ line ∈ table.lines, line ∈ InternedNames.empty.lines ∨
    ∃ name, used name ∧ (line = declaration name ∨ line = initialization name)
  ascending : ∀ a b, used a → used b → a < b →
    LoadOrder.Precedes table.lines (declaration a) (declaration b) ∧
      LoadOrder.Precedes table.lines (initialization a) (initialization b)
  /-- The declarations stand in the type of the table. -/
  fields : ∀ name, used name → LoadOrder.Precedes table.lines "mutable struct StringNames" (declaration name) ∧
    LoadOrder.Precedes table.lines (declaration name) (indented "StringNames() = new()")
  /-- The names are interned by the function that fills the table. -/
  assignments : ∀ name, used name →
    LoadOrder.Precedes table.lines "function initialize_string_names()" (initialization name)

theorem mem_internedNames {package : Package} {name : String} : name ∈ package.internedNames.names ↔ package.Uses name := by
  simp only [Package.internedNames, mem_ofList, List.mem_flatMap, ClassFile.internedNames, List.mem_cons, List.mem_map,
    Package.Uses, eq_comm (a := name)]

/-! ## The table -/

namespace Source.InternedNames

open LoadOrder

variable {table : InternedNames} {a b : String}

theorem precedes_names (h : table.names.Pairwise (· < ·)) (ha : a ∈ table.names) (hb : b ∈ table.names) (hab : a < b) :
    Precedes table.names a b := by
  rcases precedes_or_precedes ha hb hab.ne with hprec | hprec
  · exact hprec
  · have hba := List.pairwise_pair.mp (h.sublist hprec)
    exact absurd hba (lt_asymm hab)

/-- The type of the table, and the function that fills it. -/
theorem lines_eq (table : InternedNames) : table.lines =
    (["mutable struct StringNames"] ++ table.names.map declaration ++ [indented "StringNames() = new()"]) ++
      ["end", "", "string_names = StringNames()", ""] ++
      (["function initialize_string_names()"] ++ table.names.map initialization) ++ ["end", ""] := by
  simp only [lines, List.append_assoc, List.cons_append, List.nil_append]

theorem declaration_eq (name : String) : declaration name = "\t_" ++ name ++ "::StringName" := by
  simp only [declaration, indented, ← String.append_assoc]
  rfl

theorem initialization_eq (name : String) :
    initialization name = "\tstring_names._" ++ name ++ " = StringName(\"" ++ name ++ "\")" := by
  simp only [initialization, indented, ← String.append_assoc]
  rfl

theorem type_sublist (table : InternedNames) :
    (["mutable struct StringNames"] ++ table.names.map declaration ++ [indented "StringNames() = new()"]).Sublist table.lines := by
  rw [lines_eq]
  exact ((List.sublist_append_left _ _).trans (List.sublist_append_left _ _)).trans (List.sublist_append_left _ _)

theorem function_sublist (table : InternedNames) :
    (["function initialize_string_names()"] ++ table.names.map initialization).Sublist table.lines := by
  rw [lines_eq]
  exact (List.sublist_append_right _ _).trans (List.sublist_append_left _ _)

/-- A set tabulates its names. -/
theorem tabulates (h : table.names.Pairwise (· < ·)) : table.Tabulates (· ∈ table.names) where
  text := rfl
  source := by
    simp only [← declaration_eq, ← initialization_eq, lines, List.append_assoc, List.cons_append, List.nil_append]
    rfl
  names := fun _ => Iff.rfl
  declared := fun name hn => (count_declaration table name).trans (List.count_eq_one_of_mem (h.imp ne_of_lt) hn)
  initialized := fun name hn => (count_initialization table name).trans (List.count_eq_one_of_mem (h.imp ne_of_lt) hn)
  unused := fun name hn => by
    rw [← List.count_eq_zero] at hn
    exact ⟨List.count_eq_zero.mp ((count_declaration table name).trans hn),
      List.count_eq_zero.mp ((count_initialization table name).trans hn)⟩
  others := fun _ => mem_lines
  ascending := fun a b ha hb hab => by
    have hnames := precedes_names h ha hb hab
    have hdeclarations : (table.names.map declaration).Sublist table.lines :=
      ((List.sublist_append_right _ _).trans (List.sublist_append_left _ _)).trans (type_sublist table)
    have hinitializations : (table.names.map initialization).Sublist table.lines :=
      (List.sublist_append_right _ _).trans (function_sublist table)
    exact ⟨List.Sublist.trans (hnames.map declaration) hdeclarations,
      List.Sublist.trans (hnames.map initialization) hinitializations⟩
  fields := fun name hn => by
    have hin := List.mem_map_of_mem (f := declaration) hn
    have hhead : (["mutable struct StringNames"] ++ table.names.map declaration).Sublist table.lines :=
      (List.sublist_append_left _ _).trans (type_sublist table)
    exact ⟨List.Sublist.trans (precedes_iff.mpr ⟨_, _, rfl, List.mem_cons_self, hin⟩) hhead,
      List.Sublist.trans (precedes_iff.mpr ⟨_, _, rfl, List.mem_append_right _ hin, List.mem_cons_self⟩) (type_sublist table)⟩
  assignments := fun name hn =>
    List.Sublist.trans (precedes_iff.mpr ⟨_, _, rfl, List.mem_cons_self, List.mem_map_of_mem hn⟩) (function_sublist table)

end Source.InternedNames

theorem tabulates_internedNames (package : Package) : package.internedNames.Tabulates package.Uses := by
  have hused : (· ∈ package.internedNames.names) = package.Uses := funext fun _ => propext mem_internedNames
  rw [← hused]
  exact InternedNames.tabulates (ascending_ofList _)

/-! ## The stubs -/

theorem Source.Occurs.append_left {text line : String} (h : Occurs text line) (front : String) : Occurs text (front ++ line) := by
  obtain ⟨before, after, rfl⟩ := h
  exact ⟨front ++ before, after, by simp only [String.append_assoc]⟩

theorem Source.Occurs.append_right {text line : String} (h : Occurs text line) (back : String) : Occurs text (line ++ back) := by
  obtain ⟨before, after, rfl⟩ := h
  exact ⟨before, after ++ back, by simp only [String.append_assoc]⟩

theorem Source.occurs_append (front text : String) : Occurs text (front ++ text) := ⟨front, "", by simp⟩

theorem internedArgument_eq (name : String) : internedArgument name = "string_names._" ++ name ++ "::Ref\x7bStringName\x7d" := by
  have htype : "::" ++ refType "StringName" = "::Ref\x7bStringName\x7d" := by decide
  rw [internedArgument, String.append_assoc, htype]

/-- What a stub reads stands in one of its lines. -/
theorem occurs_of_mem_reads {stub : Stub} {name : String} (h : name ∈ stub.reads) :
    ∃ line ∈ stub.lines, Occurs ("string_names._" ++ name ++ "::Ref\x7bStringName\x7d") line := by
  rw [← internedArgument_eq]
  have hbody : ∀ line ∈ stub.bodyLines, Occurs (internedArgument name) line →
      ∃ line ∈ stub.lines, Occurs (internedArgument name) line := by
    intro line hl ho
    refine ⟨indented (indented line), ?_, (ho.append_left _).append_left _⟩
    exact List.mem_append_left _ (List.mem_append_left _ (List.mem_append_right _ (List.mem_map_of_mem hl)))
  have hlookUp : indented stub.lookUp ∈ stub.bodyLines := by simp [Stub.bodyLines]
  rcases List.mem_append.mp h with h | h
  · refine hbody _ hlookUp (Occurs.append_left ?_ _)
    rcases List.mem_cons.mp h with rfl | h
    · exact ((((occurs_append _ _).append_right _).append_right _).append_right _).append_right _
    · obtain rfl := List.mem_singleton.mp h
      exact ((occurs_append _ _).append_right _).append_right _
  · cases hreceiver : stub.receiver with
    | object tag =>
      rw [hreceiver] at h
      nomatch h
    | singleton cls holder =>
      rw [hreceiver] at h
      obtain rfl := List.mem_singleton.mp h
      let line := "setfield!(" ++ holder ++ ", :native_ptr, @ccall godot_julia_get_singleton(" ++ internedArgument stub.cls ++
        ")::" ++ pointerType ++ ")"
      have hline : indented line ∈ stub.bodyLines := by simp [Stub.bodyLines, Stub.instanceLines, hreceiver, line]
      exact hbody _ hline ((((occurs_append _ _).append_right _).append_right _).append_right _ |>.append_left _)

/-- What the stubs of a file read is used in the package. -/
theorem uses_of_mem_reads {scope : Scope} {cls : ClassDecl} {package : Package} (hf : fileOf scope cls ∈ package.classFiles)
    {stub : Stub} (hs : stub ∈ (fileOf scope cls).stubs) {name : String} (hn : name ∈ stub.reads) : package.Uses name := by
  obtain ⟨_, _, _, hstub⟩ := mem_stubsOf.mp hs
  obtain ⟨_, _, hcls, _⟩ := stubOf_ok_iff.mp hstub
  have hname : name = cls.name ∨ name = stub.method := by
    rw [← hcls]
    rcases List.mem_append.mp hn with hn | hn
    · simpa using hn
    · split at hn
      · nomatch hn
      · exact .inl (List.mem_singleton.mp hn)
  exact ⟨_, hf, hname.imp id fun hm => ⟨stub, hs, hm⟩⟩

/-- Whatever the dump and the settings, the table of interned names has the names of the classes with a file and of the methods with a
stub, and its file declares and interns each of them once and in order, and nothing else. So it has every name that a stub reads. The
names come to it file by file, but its text is the same for any supplies of the same names. -/
theorem names_interned (g : Generator) (host : Dump.Host) (docs : Dump.Docs) :
    ∃ rendered, (g.load host docs).result.render = .ok rendered ∧
      ⟨"string_names.jl", textOfLines rendered.result.internedNames.lines⟩ ∈ rendered.result.files ∧
      rendered.result.internedNames.Tabulates rendered.result.Uses ∧
      (∀ file ∈ rendered.result.classFiles, ∀ stub ∈ file.stubs, ∀ name ∈ stub.reads,
        (∃ line ∈ stub.lines, Occurs ("string_names._" ++ name ++ "::Ref\x7bStringName\x7d") line) ∧
          InternedNames.declaration name ∈ rendered.result.internedNames.lines ∧
          InternedNames.initialization name ∈ rendered.result.internedNames.lines) ∧
      rendered.result.internedNames =
        .supplied (rendered.result.classFiles.map fun file => .extend file.internedNames) ∧
      ∀ supplies supplies' : List Supply, (∀ name, (∃ s ∈ supplies, name ∈ s.names) ↔ ∃ s ∈ supplies', name ∈ s.names) →
        (InternedNames.supplied supplies).text = (InternedNames.supplied supplies').text := by
  obtain ⟨catalog, log, _, hc, hrender⟩ := render_load g host docs
  let package := (Package.ofCatalog g.settings catalog).result
  have htable := tabulates_internedNames package
  refine ⟨_, hrender, ?_, htable, fun file hf stub hs name hn => ?_, ?_, fun supplies supplies' h => ?_⟩
  · exact List.mem_append_left _ (List.mem_append_left _ (List.mem_cons_of_mem _ (List.mem_cons_of_mem _ List.mem_cons_self)))
  · obtain ⟨cls, _, _, rfl⟩ := (mem_classFiles hc.reachable).mp hf
    have huse := uses_of_mem_reads hf hs hn
    exact ⟨occurs_of_mem_reads hn, List.count_pos_iff.mp (Nat.lt_of_lt_of_eq Nat.one_pos (htable.declared name huse).symm),
      List.count_pos_iff.mp (Nat.lt_of_lt_of_eq Nat.one_pos (htable.initialized name huse).symm)⟩
  · rw [InternedNames.supplied_eq_ofList, List.flatMap_map]
    rfl
  · rw [InternedNames.supplied_eq_iff.mpr h]

end JuliaStubs
