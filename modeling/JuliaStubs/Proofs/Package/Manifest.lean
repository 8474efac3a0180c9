import JuliaStubs.Proofs.Files.Components
import JuliaStubs.Proofs.Package.Loading
import JuliaStubs.Proofs.Source.EnumBlock

/-!
# What the manifest includes

The manifest has a line with a path for each class, and the package has a file at a path. Both are made of the directory of the classes
and the name of the file, but the manifest always puts a slash between, where a path is joined to the empty one without it. So the line
includes the file that is written, whatever the directory, unless the directory is empty (`include_meets_file_iff`); then it includes
one at the root (`include_meets_file_false`).
-/

namespace JuliaStubs

open Files Source

/-- The path in a line of the manifest: what stands between the quotes. -/
def includedPath? (line : String) : Option String :=
  ((line.toList.dropPrefix? "include(\"".toList).bind fun rest => rest.dropSuffix? "\");".toList).map String.ofList

/-- Access to files that keeps what is written where, and refuses nothing. -/
def recorder : Access (StateM (List (String × String))) where
  read _ := pure (.error .missing)
  write path contents := fun written => (.ok (), written ++ [(path, contents)])
  createDirectory _ := pure (.ok ())
  isDirectory _ := pure true

/-- A line of the manifest, the path in it and the file of the class. -/
structure Package.Includes (package : Package) (file : ClassFile) (path : String) : Prop where
  listed : includeLine package.settings.classesDir file.cls.name ∈ package.includeLines
  read : includedPath? (includeLine package.settings.classesDir file.cls.name) = some path
  /-- The path is what a literal of it is read as, unless it has a character with a meaning of its own there. -/
  literal : (∀ c ∈ path.toList, c ∉ ['"', '\\', '$', '\r']) → readQuoted ('"' :: path.toList ++ ['"']) = some path
  written : package.classSourceFile file ∈ package.files
  /-- The path denotes the file of the class, unless the directory is empty. -/
  denotes : components path = components (package.classSourceFile file).path ↔ package.settings.classesDir ≠ ""
  /-- From the directory of the package it leads to that file, also where this directory is the root. -/
  leads : ∀ dir, components (join dir path) = components (join dir (package.classSourceFile file).path) ↔
    package.settings.classesDir ≠ "" ∨ components dir = [.root]

/-! ## Lines -/

theorem includedPath?_includeLine (classesDir cls : String) :
    includedPath? (includeLine classesDir cls) = some (classesDir ++ "/" ++ (cls ++ ".jl")) := by
  have hline : (includeLine classesDir cls).toList =
      "include(\"".toList ++ ((classesDir ++ "/" ++ (cls ++ ".jl")).toList ++ "\");".toList) := by
    simp [includeLine, String.toList_append]
  have hsuffix : ((classesDir ++ "/" ++ (cls ++ ".jl")).toList ++ "\");".toList).dropSuffix? "\");".toList =
      some (classesDir ++ "/" ++ (cls ++ ".jl")).toList :=
    List.dropSuffix?_eq_some_iff.mpr ⟨_, rfl, BEq.rfl⟩
  rw [includedPath?, hline, dropPrefix?_append, Option.bind_some, hsuffix, Option.map_some, String.ofList_toList]

/-- A text without characters that mean something else in a literal is what its literal is read as. -/
theorem readToQuote_plain {s : List Char} (h : ∀ c ∈ s, c ∉ ['"', '\\', '$', '\r']) : readToQuote (s ++ ['"']) = some s := by
  induction s with
  | nil => rfl
  | cons c s ih =>
    have hc := h c List.mem_cons_self
    rw [List.cons_append, readToQuote.eq_def]
    split <;> simp_all

theorem readQuoted_plain {s : String} (h : ∀ c ∈ s.toList, c ∉ ['"', '\\', '$', '\r']) :
    readQuoted ('"' :: s.toList ++ ['"']) = some s := by
  rw [List.cons_append, readQuoted, readToQuote_plain h, Option.map_some, String.ofList_toList]

/-! ## Writing -/

theorem writeFiles_recorder (dir : String) (files : List SourceFile) (written : List (String × String)) :
    writeFiles recorder dir files written = (.ok (), written ++ files.map fun file => (join dir file.path, file.contents)) := by
  induction files generalizing written with
  | nil =>
    rw [List.map_nil, List.append_nil]
    rfl
  | cons file rest ih =>
    have hstep : writeFiles recorder dir (file :: rest) written =
        writeFiles recorder dir rest (written ++ [(join dir file.path, file.contents)]) := rfl
    rw [hstep, ih, List.append_assoc]
    rfl

theorem createDirectories_recorder (path : String) (written : List (String × String)) :
    recorder.createDirectories path written = (.ok (), written) := by
  unfold Access.createDirectories
  split <;> rfl

/-- A package is written file by file, each below the directory of the package. -/
theorem write_recorder (package : Package) (dir : String) (written : List (String × String)) :
    package.write recorder dir written = (.ok { package.summary with files := package.files.length },
      written ++ package.files.map fun file => (join dir file.path, file.contents)) := by
  have hdirectory := createDirectories_recorder (join dir package.settings.classesDir) written
  have hfiles := writeFiles_recorder dir package.files written
  simp only [Package.write, bind, StateT.bind, hdirectory, hfiles]
  rfl

theorem generate_recorder {g : Generator} {package : Report.Logged Package} (h : g.render = .ok package) (dir : String) :
    (g.generate recorder dir []).2 = package.result.files.map fun file => (join dir file.path, file.contents) := by
  have hwrite := write_recorder package.result dir []
  simp only [Generator.generate, h, bind, StateT.bind, hwrite]
  rfl

/-! ## Class files -/

theorem isAbsolute_fileName {file : ClassFile} (h : '/' ∉ file.cls.name.toList) : isAbsolute file.fileName = false := by
  by_cases hname : file.cls.name = ""
  · rw [ClassFile.fileName, hname]
    decide
  rw [ClassFile.fileName, isAbsolute_append hname, isAbsolute, beq_eq_false_iff_ne]
  exact fun hhead => h (List.mem_of_mem_head? hhead)

theorem includes_of_mem {package : Package} {file : ClassFile} (hf : file ∈ package.classFiles) (h : '/' ∉ file.cls.name.toList) :
    ∃ path, package.Includes file path := by
  have hleads := @components_slash_iff package.settings.classesDir _ (isAbsolute_fileName h)
  refine ⟨_, List.mem_map_of_mem hf, includedPath?_includeLine _ _, readQuoted_plain, ?_, ?_, hleads⟩
  · exact Package.mem_files_of_mem_classFiles hf
  · have hhere := hleads ""
    rw [join_empty, join_empty] at hhere
    exact hhere.trans (or_iff_left (by decide))

/-- Whatever the dump and the settings, all files of a package are written below one directory, and the manifest among them has a line
for each class with a file. For a class without a slash in its name, the path in this line denotes the path of the file if and only if
the directory of the classes is not empty. Where it is empty, the line leads to the file only from the root. -/
theorem include_meets_file_iff (g : Generator) (host : Dump.Host) (docs : Dump.Docs) :
    ∃ rendered, (g.load host docs).result.render = .ok rendered ∧ rendered.result.settings = g.settings ∧
      ⟨"classes.jl", textOfLines rendered.result.includeLines⟩ ∈ rendered.result.files ∧
      (∀ dir, ((g.load host docs).result.generate recorder dir []).2 =
        rendered.result.files.map fun file => (join dir file.path, file.contents)) ∧
      ∀ file ∈ rendered.result.classFiles, '/' ∉ file.cls.name.toList → ∃ path, rendered.result.Includes file path := by
  refine ⟨_, rfl, rfl, ?_, generate_recorder rfl, fun _ hf h => includes_of_mem hf h⟩
  rw [← manifest_eq]
  exact List.mem_append_right _ List.mem_cons_self

namespace IncludesAux

/-- The root alone. -/
def host : Dump.Host := ⟨[⟨"Object", none, .core, true, true, false, false, [], [], [], []⟩], []⟩

/-- Settings with a directory for the classes. -/
def settings (classesDir : String) : Settings := { Settings.standard with classesDir }

/-- The package of the root. -/
def package (classesDir : String) : Package :=
  (Package.ofCatalog (settings classesDir) (Catalog.ofDump (settings classesDir) host .empty).result).result

/-- The file of the root. -/
theorem exists_object (classesDir : String) : ∃ file ∈ (package classesDir).classFiles, file.cls.name = "Object" :=
  (exists_classFile_iff (Catalog.reachable_ofDump (settings classesDir) host .empty)).mpr (by cbv)

end IncludesAux

/-- A nested directory, written with a repeated slash, a step in place and a slash at its end. -/
theorem include_meets_file_nested : ∃ file ∈ (IncludesAux.package "gen//./classes/").classFiles, '/' ∉ file.cls.name.toList ∧
    ((IncludesAux.package "gen//./classes/").classSourceFile file).path = "gen//./classes/Object.jl" ∧
    (IncludesAux.package "gen//./classes/").Includes file "gen//./classes//Object.jl" ∧
    components "gen//./classes//Object.jl" = components "gen//./classes/Object.jl" := by
  obtain ⟨file, hf, hname⟩ := IncludesAux.exists_object "gen//./classes/"
  have hslash : '/' ∉ file.cls.name.toList := by
    rw [hname]
    decide
  have hpath : ((IncludesAux.package "gen//./classes/").classSourceFile file).path = "gen//./classes/Object.jl" := by
    rw [Package.classSourceFile, ClassFile.fileName, hname]
    rfl
  obtain ⟨rendered, hrender, -, -, -, hincludes⟩ :=
    include_meets_file_iff (.new (IncludesAux.settings "gen//./classes/")) IncludesAux.host .empty
  cases hrender
  obtain ⟨path, hincluded⟩ := hincludes file hf hslash
  obtain rfl : path = "gen//./classes//Object.jl" := by
    have hread := hincluded.read
    rw [includedPath?_includeLine, hname] at hread
    exact (Option.some.inj hread).symm
  refine ⟨file, hf, hslash, hpath, hincluded, ?_⟩
  rw [← hpath]
  exact hincluded.denotes.mpr (by decide)

/-- Without a directory the manifest includes a file at the root of the file system, and the file of the class is somewhere else. -/
theorem include_meets_file_false : ¬∀ (g : Generator) (host : Dump.Host) (docs : Dump.Docs) (rendered : Report.Logged Package),
    (g.load host docs).result.render = .ok rendered → ∀ file ∈ rendered.result.classFiles, '/' ∉ file.cls.name.toList →
      ∀ path, includedPath? (includeLine g.settings.classesDir file.cls.name) = some path →
        components path = components (rendered.result.classSourceFile file).path := by
  intro h
  obtain ⟨file, hf, hname⟩ := IncludesAux.exists_object ""
  have hsame := h (.new (IncludesAux.settings "")) IncludesAux.host .empty ⟨IncludesAux.package "", _⟩ rfl file hf
    (by rw [hname]; decide) _ (includedPath?_includeLine _ _)
  rw [Package.classSourceFile, ClassFile.fileName, hname] at hsame
  have hmeet : components "/Object.jl" = components "Object.jl" := hsame
  exact absurd hmeet (by decide)

end JuliaStubs
