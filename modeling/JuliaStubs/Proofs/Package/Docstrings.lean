import JuliaStubs.Proofs.Catalog.Documented
import JuliaStubs.Proofs.Package.Files
import JuliaStubs.Proofs.Source.Stub
import JuliaStubs.Proofs.Text.RawLiteral

/-!
# Docstrings

Where the docstrings of a package end. Each is written as a raw literal around a cleaned text, and a reader of the file ends it at the
first three quotes that are not escaped. Cleaning leaves no such quotes inside of a text, so at most its last two characters can fall
out of the literal; but it does not look at the end of the text, where a quote joins the closing ones and a backslash escapes them
(`docstring_scanned_iff`, `docstring_scanned_false`).
-/

namespace JuliaStubs

open Catalog Report Source Text

/-- The texts in the file of a class. -/
def Source.ClassFile.texts (file : ClassFile) : List String :=
  file.cls.text?.toList ++ constantTexts file.cls.enums file.cls.constants ++ file.stubs.filterMap Stub.doc

/-- The files with documentation, one entry for each of their texts. -/
def Package.documents (package : Package) : List (SourceFile × String) :=
  (constantTexts package.globalEnums package.globalConstants).map
      (⟨"constants.jl", Source.globalConstants package.globalEnums package.globalConstants⟩, ·) ++
    package.classFiles.flatMap fun file => file.texts.map (package.classSourceFile file, ·)

/-- What is in front of the text of a docstring. -/
def docstringStart : String := "@doc raw\"\"\""

/-- What a reader finds who scans the literal that starts after these characters of a file. -/
def scanAfter (file : SourceFile) (front : String) : Option (List Char × List Char) :=
  scanRaw [] (file.contents.toList.drop (front ++ docstringStart).toList.length)

/-! ## Lines -/

theorem textOfLines_append (front back : List String) : textOfLines (front ++ back) = textOfLines front ++ textOfLines back := by
  rw [textOfLines, List.map_append, String.join_append]
  rfl

/-- A line is part of the text of the lines. -/
theorem exists_textOfLines {line : String} {lines : List String} (h : line ∈ lines) :
    ∃ front back, textOfLines lines = front ++ line ++ back := by
  obtain ⟨front, back, rfl⟩ := List.append_of_mem h
  refine ⟨textOfLines front, "\n" ++ textOfLines back, ?_⟩
  rw [textOfLines_append, ← List.singleton_append, textOfLines_append]
  simp [textOfLines, String.append_assoc]

theorem docstring_mem_declarationLines {isConst : Bool} {enums : List Enum} {constants : List Constant} {text : String}
    (h : text ∈ constantTexts enums constants) : DocText.docstring text ∈ declarationLines isConst enums constants := by
  obtain ⟨constant, hc, hdoc⟩ := List.mem_filterMap.mp h
  rcases List.mem_append.mp hc with hc | hc
  · obtain ⟨e, he, hm⟩ := List.mem_flatMap.mp hc
    refine List.mem_append_left _ (List.mem_flatMap.mpr ⟨e, he, List.mem_append_left _ (List.mem_flatMap.mpr ?_)⟩)
    refine ⟨.document text constant.name, List.mem_append_right _ (List.mem_filterMap.mpr ⟨constant, hm, ?_⟩), List.mem_cons_self⟩
    rw [hdoc, Option.map_some]
  · refine List.mem_append_right _ (List.mem_flatMap.mpr ⟨constant, hc, List.mem_append_left _ (List.mem_flatMap.mpr ?_)⟩)
    refine ⟨.documentNext text, List.mem_append_left _ ?_, List.mem_cons_self⟩
    rw [hdoc]
    exact List.mem_cons_self

/-- The file of a class has a docstring for each of its texts. -/
theorem docstring_mem_lines {file : ClassFile} {text : String} (h : text ∈ file.texts) : DocText.docstring text ∈ file.lines := by
  simp only [ClassFile.texts, List.mem_append] at h
  simp only [ClassFile.lines, ClassFile.typeLines, ClassFile.infoLines, List.mem_append]
  rcases h with (h | h) | h
  · refine Or.inl (Or.inl (Or.inl (Or.inl (Or.inl (Or.inr ?_)))))
    rw [ClassFile.docLines, ← ClassDecl.text?, DocText.docstrings, Option.mem_toList, Option.map_eq_some_iff]
    exact ⟨text, Option.mem_toList.mp h, rfl⟩
  · exact Or.inl (Or.inl (Or.inr (Or.inl (Or.inr (docstring_mem_declarationLines h)))))
  · obtain ⟨stub, hs, hdoc⟩ := List.mem_filterMap.mp h
    refine Or.inl (Or.inr (List.mem_flatMap.mpr ⟨stub, hs, List.mem_append_right _ ?_⟩))
    rw [Stub.docLines, hdoc]
    exact List.mem_cons_self

/-! ## Documents -/

section Documents

variable {settings : Settings} {host : Dump.Host} {docs : Dump.Docs}

/-- Every text in the file of a class is one of the class. -/
theorem texts_fileOf_subset (scope : Scope) (cls : ClassDecl) : (fileOf scope cls).texts ⊆ cls.texts := by
  intro text h
  rcases List.mem_append.mp h with h | h
  · exact List.mem_append_left _ h
  · obtain ⟨stub, hs, hdoc⟩ := List.mem_filterMap.mp h
    obtain ⟨method, hm, _, hok⟩ := mem_stubsOf.mp hs
    obtain ⟨-, -, -, -, -, heq⟩ := stubOf_ok_iff.mp hok
    exact List.mem_append_right _ (List.mem_filterMap.mpr ⟨method, hm, heq ▸ hdoc⟩)

/-- What there is to know about a documented file of a package and a text of it. -/
theorem isText_of_mem_documents {file : SourceFile} {text : String}
    (h : (file, text) ∈ (Package.ofCatalog settings (ofDump settings host docs).result).result.documents) :
    file ∈ (Package.ofCatalog settings (ofDump settings host docs).result).result.files ∧ IsText docs text ∧
      ∃ front back, file.contents = front ++ DocText.docstring text ++ back := by
  have hr := (sound_ofDump settings host docs).reachable
  rcases List.mem_append.mp h with h | h
  · obtain ⟨_, ht, heq⟩ := List.mem_map.mp h
    obtain ⟨rfl, rfl⟩ := Prod.mk.inj heq
    refine ⟨?_, @isText_of_mem_globalTexts settings host docs _ ht, exists_textOfLines (docstring_mem_declarationLines ht)⟩
    exact List.mem_append_left _ (List.mem_append_left _ (List.mem_cons_of_mem _ List.mem_cons_self))
  · obtain ⟨classFile, hf, h⟩ := List.mem_flatMap.mp h
    obtain ⟨_, ht, heq⟩ := List.mem_map.mp h
    obtain ⟨rfl, rfl⟩ := Prod.mk.inj heq
    refine ⟨?_, ?_, exists_textOfLines (docstring_mem_lines ht)⟩
    · exact Package.mem_files_of_mem_classFiles hf
    · obtain ⟨cls, hc, _, rfl⟩ := (mem_classFiles hr).mp hf
      exact isText_of_mem_texts hc (texts_fileOf_subset _ _ ht)

theorem contained_of_isText {text : String} (h : IsText docs text) : Contained [] text.toList := by
  rcases h with ⟨_, _, member, _, rfl⟩ | ⟨doc, _, rfl⟩
  · exact DocText.contained_clean member.description
  · exact DocText.contained_clean_append doc.brief doc.description

/-- What is scanned from the start of a literal is its text, the closing quotes and what follows them. -/
theorem scanAfter_eq {file : SourceFile} {front text back : String} (h : file.contents = front ++ DocText.docstring text ++ back) :
    scanAfter file front = scanRaw [] (text.toList ++ quotes ++ back.toList) := by
  have hcontents : file.contents.toList =
      (front ++ docstringStart).toList ++ (text.toList ++ quotes ++ back.toList) := by
    rw [h]
    simp [DocText.docstring, docstringStart, String.toList_append, quotes]
  rw [scanAfter, hcontents, List.drop_left]

end Documents

/-- The text of a class is one of its file. -/
theorem mem_documents_of_text? {package : Package} {text : String}
    (h : package.classFiles.map (fun file => file.cls.text?) = [some text]) : ∃ file, (file, text) ∈ package.documents := by
  have hmem : some text ∈ package.classFiles.map fun file => file.cls.text? := by
    rw [h]
    exact List.mem_singleton_self _
  obtain ⟨file, hf, htext⟩ := List.mem_map.mp hmem
  refine ⟨package.classSourceFile file, List.mem_append_right _ (List.mem_flatMap.mpr ⟨file, hf, List.mem_map.mpr ⟨text, ?_, rfl⟩⟩)⟩
  exact List.mem_append_left _ (List.mem_append_left _ (Option.mem_toList.mpr htext))

/-- Whatever the dump, its documentation and the settings, each text of a file is a cleaned text of the documentation, written into a
docstring. A reader who scans the docstring from its opening quotes loses at most the last two characters of the text, and comes to the
closing quotes after exactly this text if and only if the end of the text neither adds a quote to them nor escapes them. -/
theorem docstring_scanned_iff (g : Generator) (host : Dump.Host) (docs : Dump.Docs) :
    ∃ rendered, (g.load host docs).result.render = .ok rendered ∧ ∀ file text, (file, text) ∈ rendered.result.documents →
      file ∈ rendered.result.files ∧ IsText docs text ∧
        (∃ front back, file.contents = front ++ DocText.docstring text ++ back) ∧
        ∀ front back : String, file.contents = front ++ DocText.docstring text ++ back →
          (scanAfter file front = some (text.toList, back.toList) ↔ EndsClosed text.toList) ∧
          ∀ inside rest, scanAfter file front = some (inside, rest) → text.toList.length ≤ inside.length + 2 := by
  refine ⟨_, rfl, fun file text h => ?_⟩
  obtain ⟨hfile, htext, hwritten⟩ := isText_of_mem_documents h
  have hcontained := contained_of_isText htext
  refine ⟨hfile, htext, hwritten, fun front back hcontents => ?_⟩
  rw [scanAfter_eq hcontents]
  exact ⟨scanRaw_append_iff hcontained _, fun _ _ => length_le_of_scanRaw hcontained⟩

namespace DocstringsAux

/-- The root alone. -/
def host : Dump.Host := ⟨[⟨"Object", none, .core, true, true, false, false, [], [], [], []⟩], []⟩

/-- Documentation of the root. -/
def docs (description : String) : Dump.Docs := ⟨[⟨"Object", "Base class.", description, [], [], []⟩]⟩

/-- The package of the root. -/
def package (description : String) : Package :=
  (Package.ofCatalog .standard (ofDump .standard host (docs description)).result).result

/-- A text that ends in a quote. -/
theorem exists_called : ∃ file,
    (file, "Base class.\n\nThe class called \"root\"") ∈ (package "The class called \"root\"").documents :=
  mem_documents_of_text? (by cbv)

/-- A text with four quotes in a row, and three of them before its last character. -/
theorem exists_says : ∃ file,
    (file, "Base class.\n\nSays \\\"\\\"\\\"\"hello\\\"\\\"\\\".") ∈ (package "Says \"\"\"\"hello\"\"\".").documents :=
  mem_documents_of_text? (by cbv)

end DocstringsAux

/-- Runs of quotes inside of a text stay inside of its literal. -/
theorem docstring_scanned_hello : ∃ file front back,
    scanAfter file front = some ("Base class.\n\nSays \\\"\\\"\\\"\"hello\\\"\\\"\\\".".toList, back) := by
  obtain ⟨rendered, hrender, h⟩ :=
    docstring_scanned_iff (.new .standard) DocstringsAux.host (DocstringsAux.docs "Says \"\"\"\"hello\"\"\".")
  have hpackage : rendered.result = DocstringsAux.package "Says \"\"\"\"hello\"\"\"." := by
    cases hrender
    rfl
  obtain ⟨file, hmem⟩ := DocstringsAux.exists_says
  rw [← hpackage] at hmem
  obtain ⟨-, -, ⟨front, back, hcontents⟩, hscan⟩ := h file _ hmem
  exact ⟨file, front, back.toList, (hscan front back hcontents).1.mpr (by decide)⟩

/-- A cleaned text may still break out of its docstring: its last quote joins the closing ones. -/
theorem docstring_scanned_false : ¬∀ (g : Generator) (host : Dump.Host) (docs : Dump.Docs) (rendered : Logged Package),
    (g.load host docs).result.render = .ok rendered → ∀ file text, (file, text) ∈ rendered.result.documents →
      ∀ front back : String, file.contents = front ++ DocText.docstring text ++ back →
        scanAfter file front = some (text.toList, back.toList) := by
  intro h
  obtain ⟨file, hmem⟩ := DocstringsAux.exists_called
  obtain ⟨-, htext, front, back, hcontents⟩ := isText_of_mem_documents hmem
  have hscan := h (.new .standard) DocstringsAux.host (DocstringsAux.docs "The class called \"root\"")
    ⟨DocstringsAux.package "The class called \"root\"", _⟩ rfl file _ hmem front back hcontents
  rw [scanAfter_eq hcontents, scanRaw_append_iff (contained_of_isText htext)] at hscan
  exact absurd hscan (by decide)

end JuliaStubs
