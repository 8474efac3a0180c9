import JuliaStubs.Package.Generator
import JuliaStubs.Proofs.Source.Undocumented

/-!
# Documentation and bindings

Documentation is carried through a run and decides nothing: for every dump and any two documentations of it, the catalogs and the
packages are the same when the texts are taken away, and so are the load order, the reports and the counts (`render_documented`). Each
stage commutes with taking the texts away, up to the package (`ofCatalog_undocumented`), so both runs come to the package made without
documentation; the text of a file has the lines of that package, with documentation between them (`ClassFile.SameBindings`).
-/

namespace JuliaStubs

open Catalog Report Source

/-! ## Load order -/

namespace LoadOrder

variable (r : Registry)

theorem declaringClass?_undocumented (ref : TypeRef) :
    declaringClass? (r.mapClasses ClassDecl.undocumented) ref = declaringClass? r ref := by
  rw [declaringClass?, headsKept_undocumented.resolve_mapClasses, declaringClass?]
  cases r.resolve ref with
  | none => rfl
  | some type => exact headsKept_undocumented.declaringClass?_mapClass type

theorem mentions_undocumented (cls : ClassDecl) :
    mentions (r.mapClasses ClassDecl.undocumented) cls.undocumented = mentions r cls := by
  have hsignature : ∀ method : Method,
      signatureMentions (r.mapClasses ClassDecl.undocumented) method.undocumented = signatureMentions r method := by
    intro method
    simp only [signatureMentions, declaringClass?_undocumented]
    rfl
  have hmethods : cls.undocumented.methods.flatMap (signatureMentions (r.mapClasses ClassDecl.undocumented)) =
      cls.methods.flatMap (signatureMentions r) := by
    rw [ClassDecl.undocumented, List.flatMap_map]
    exact List.flatMap_congr fun method _ => hsignature method
  rw [mentions, hmethods, mentions]
  rfl

/-- The load order and the cycles do not depend on documentation. -/
theorem order_undocumented (classes : List ClassDecl) :
    order (r.mapClasses ClassDecl.undocumented) (classes.map ClassDecl.undocumented) = order r classes := by
  have hnames : (classes.map ClassDecl.undocumented).map ClassDecl.name = classes.map ClassDecl.name := List.map_map
  have hdependencies : ∀ cls : ClassDecl,
      dependencies (r.mapClasses ClassDecl.undocumented) cls.undocumented = dependencies r cls := by
    intro cls
    rw [dependencies, mentions_undocumented, dependencies]
  have hgraph : graph (r.mapClasses ClassDecl.undocumented) (classes.map ClassDecl.undocumented) = graph r classes := by
    rw [graph, hnames, List.flatMap_map, graph]
    simp only [hdependencies]
    rfl
  rw [order, hnames, hgraph, order]

theorem order_catalog_undocumented (catalog : Catalog) :
    order catalog.undocumented.registry catalog.undocumented.registry.classes = order catalog.registry catalog.registry.classes := by
  rw [← order_undocumented catalog.registry, Registry.classes, Registry.classes, List.map_reverse]
  rfl

end LoadOrder

/-! ## Packages -/

/-- The package without documentation. -/
def Package.undocumented (package : Package) : Package :=
  { package with
    globalEnums := package.globalEnums.map Enum.undocumented
    globalConstants := package.globalConstants.map Constant.undocumented
    classFiles := package.classFiles.map ClassFile.undocumented }

namespace Package

theorem addFile_undocumented (scope : Scope) (files : List ClassFile) (cls : ClassDecl) :
    addFile (scope.mapClasses ClassDecl.undocumented) (files.map ClassFile.undocumented) cls.undocumented =
      (addFile scope files cls).map (List.map ClassFile.undocumented) := by
  rw [addFile, ofClass_undocumented, addFile]
  cases ClassFile.ofClass scope cls with
  | error fault => rfl
  | ok file =>
    dsimp only [Except.map, Logged.map]
    rw [List.map_append, List.map_cons, List.map_nil]

theorem classesToWrite_undocumented (scope : Scope) (order : List String) :
    classesToWrite (scope.mapClasses ClassDecl.undocumented) order = (classesToWrite scope order).map ClassDecl.undocumented := by
  have hclass : (scope.mapClasses ClassDecl.undocumented).registry.class? = fun name =>
      (scope.registry.class? name).map ClassDecl.undocumented := funext (headsKept_undocumented.class?_mapClasses scope.registry)
  rw [classesToWrite, hclass, ← List.map_filterMap, List.filter_map]
  rfl

/-- Documentation leaves no trace in a package but texts, and none in its log. -/
theorem ofCatalog_undocumented (settings : Settings) (catalog : Catalog) :
    ofCatalog settings catalog.undocumented = (ofCatalog settings catalog).map Package.undocumented := by
  have hscope : Scope.ofRegistry settings catalog.undocumented.registry =
      (Scope.ofRegistry settings catalog.registry).map (Scope.mapClasses · ClassDecl.undocumented) :=
    headsKept_undocumented.ofRegistry_mapClasses settings catalog.registry
  have hfiles : ∀ (scope : Scope) (classes : List ClassDecl),
      Logged.foldSteps (addFile (scope.mapClasses ClassDecl.undocumented)) [] (classes.map ClassDecl.undocumented) =
        (Logged.foldSteps (addFile scope) [] classes).map (List.map ClassFile.undocumented) := by
    intro scope classes
    rw [Logged.foldSteps_map_items]
    exact Logged.foldSteps_map (List.map ClassFile.undocumented) (addFile_undocumented scope) [] classes
  have hresult : ((Scope.ofRegistry settings catalog.registry).map (Scope.mapClasses · ClassDecl.undocumented)).result =
      (Scope.ofRegistry settings catalog.registry).result.mapClasses ClassDecl.undocumented := rfl
  unfold ofCatalog
  dsimp only
  rw [LoadOrder.order_catalog_undocumented, hscope, hresult, classesToWrite_undocumented, hfiles]
  rfl

variable (package : Package)

theorem internedNames_undocumented : package.undocumented.internedNames = package.internedNames := by
  have hfile : ∀ file : ClassFile, file.undocumented.internedNames = file.internedNames := by
    intro file
    rw [ClassFile.internedNames, ClassFile.undocumented, List.map_map]
    rfl
  rw [internedNames, undocumented, List.flatMap_map, funext hfile, internedNames]

theorem summary_undocumented : package.undocumented.summary = package.summary := by
  have hfile : ∀ file : ClassFile, file.undocumented.stubs.length = file.stubs.length := fun _ => List.length_map _
  have hmethods : (package.undocumented.classFiles.flatMap ClassFile.stubs).length =
      (package.classFiles.flatMap ClassFile.stubs).length := by
    rw [List.length_flatMap, undocumented, List.map_map, List.length_flatMap]
    exact congrArg List.sum (List.map_congr_left fun file _ => hfile file)
  have htypes : package.undocumented.classFiles.length = package.classFiles.length := List.length_map _
  rw [summary, hmethods, htypes, summary]
  rfl

theorem manifest_undocumented : package.undocumented.manifest = package.manifest := by
  rw [manifest, undocumented, List.map_map]
  rfl

/-- The event that ends the making of a package tells nothing of documentation. -/
theorem renderedEvent_undocumented : package.undocumented.renderedEvent = package.renderedEvent := by
  rw [renderedEvent, summary_undocumented, internedNames_undocumented, renderedEvent]

end Package

/-! ## Files -/

/-- Two stubs that bind a method in the same way: their text is the same besides the documentation, which comes last. -/
structure Source.Stub.SameBinding (stub other : Stub) : Prop where
  undocumented : other.undocumented = stub.undocumented
  receiver : other.receiver = stub.receiver
  parameters : List.Forall₂ Parameter.ShowsAs other.parameters stub.parameters
  lines : ∃ code, stub.lines = code ++ stub.docLines ∧ other.lines = code ++ other.docLines

/-- Two files of a class that bind it in the same way: the types, the members of enums with their aliases, the constants and the stubs
are the same besides documentation, and the dispatches are the same. -/
structure Source.ClassFile.SameBindings (file other : ClassFile) : Prop where
  undocumented : other.undocumented = file.undocumented
  types : ∃ tag struct, file.typeLines = tag ++ ClassFile.docLines file.cls ++ struct ∧
    other.typeLines = tag ++ ClassFile.docLines other.cls ++ struct
  partitions : other.cls.enums.map (fun e => e.partition.undocumented) = file.cls.enums.map fun e => e.partition.undocumented
  enums : other.cls.enums.map (fun e => (enumStatements e).filter Statement.declares) =
    file.cls.enums.map fun e => (enumStatements e).filter Statement.declares
  constants : other.cls.constants.map (fun constant => (constantStatements false constant).filter Statement.declares) =
    file.cls.constants.map fun constant => (constantStatements false constant).filter Statement.declares
  stubs : List.Forall₂ Stub.SameBinding file.stubs other.stubs
  dispatch : other.dispatch = file.dispatch

theorem Source.Stub.sameBinding_of_undocumented {stub other : Stub} (h : other.undocumented = stub.undocumented) :
    stub.SameBinding other where
  undocumented := h
  receiver := show other.undocumented.receiver = stub.undocumented.receiver from congrArg Stub.receiver h
  parameters := by
    have hp : other.parameters.map (Parameter.mapClass ClassDecl.undocumented) =
        stub.parameters.map (Parameter.mapClass ClassDecl.undocumented) := congrArg Stub.parameters h
    refine (forall₂_of_map_eq hp).imp fun parameter parameter' heq => ?_
    have hshows := headsKept_undocumented.showsAs_mapClass
    exact (hshows parameter).symm.trans (heq ▸ hshows parameter')
  lines := by
    refine ⟨stub.undocumented.lines, stub.lines_eq_append, ?_⟩
    rw [← h]
    exact other.lines_eq_append

/-- Files that are the same without documentation bind their class in the same way. -/
theorem Source.ClassFile.sameBindings_of_undocumented {file other : ClassFile} (h : other.undocumented = file.undocumented) :
    file.SameBindings other := by
  have hcls : other.cls.undocumented = file.cls.undocumented := congrArg ClassFile.cls h
  have hparent : other.undocumented.parentTag = file.undocumented.parentTag := congrArg ClassFile.parentTag h
  have hdispatch : other.undocumented.dispatch = file.undocumented.dispatch := congrArg ClassFile.dispatch h
  have henums := forall₂_of_map_eq (congrArg ClassDecl.enums hcls)
  have hconstants := forall₂_of_map_eq (congrArg ClassDecl.constants hcls)
  have hstubs := forall₂_of_map_eq (congrArg ClassFile.stubs h)
  refine ⟨h, ⟨_, _, List.append_assoc _ _ _, ?_⟩, ?_, ?_, ?_, ?_, hdispatch⟩
  · have hlines : other.typeLines =
        { other.undocumented with cls := { other.cls.undocumented with doc := other.cls.doc } }.typeLines := rfl
    rw [hlines, hcls, ClassFile.typeLines, hparent]
    exact List.append_assoc _ _ _
  · refine map_eq_of_forall₂ henums fun e e' heq => ?_
    rw [← e.partition_undocumented, heq, e'.partition_undocumented]
  · refine map_eq_of_forall₂ henums fun e e' heq => ?_
    rw [filter_enumStatements, heq, filter_enumStatements]
  · refine map_eq_of_forall₂ hconstants fun constant constant' heq => ?_
    rw [filter_constantStatements, heq, filter_constantStatements]
  · exact hstubs.flip.imp fun stub stub' heq => Stub.sameBinding_of_undocumented heq

/-- Two packages that bind the same in the same way: the counts are the same, and so are the files without documentation. -/
structure Package.SameBindings (package other : Package) : Prop where
  undocumented : other.undocumented = package.undocumented
  classFiles : List.Forall₂ ClassFile.SameBindings package.classFiles other.classFiles
  summary : { other.summary with files := other.files.length } = { package.summary with files := package.files.length }
  files : ∃ core names manifest,
    package.files = [⟨"core_constants.jl", core⟩, ⟨"constants.jl", Source.globalConstants package.globalEnums package.globalConstants⟩,
        ⟨"string_names.jl", names⟩] ++ package.classFiles.map package.classSourceFile ++ [⟨"classes.jl", manifest⟩] ∧
      other.files = [⟨"core_constants.jl", core⟩, ⟨"constants.jl", Source.globalConstants other.globalEnums other.globalConstants⟩,
        ⟨"string_names.jl", names⟩] ++ other.classFiles.map other.classSourceFile ++ [⟨"classes.jl", manifest⟩]

theorem Package.sameBindings_of_undocumented {package other : Package} (h : other.undocumented = package.undocumented) :
    package.SameBindings other := by
  have hsettings : other.undocumented.settings = package.undocumented.settings := congrArg Package.settings h
  have hfiles := forall₂_of_map_eq (congrArg Package.classFiles h)
  have hlength : other.files.length = package.files.length := by
    simp only [files, List.length_append, List.length_map, hfiles.length_eq, List.length_cons, List.length_nil]
  have hsummary : other.summary = package.summary := by rw [← summary_undocumented, h, summary_undocumented]
  have hnames : other.internedNames = package.internedNames := by rw [← internedNames_undocumented, h, internedNames_undocumented]
  have hmanifest : other.manifest = package.manifest := by rw [← manifest_undocumented, h, manifest_undocumented]
  have hconstants : buildConstants other.settings = buildConstants package.settings := congrArg buildConstants hsettings
  refine ⟨h, ?_, by rw [hsummary, hlength], _, _, _, rfl, ?_⟩
  · exact hfiles.flip.imp fun file other heq => ClassFile.sameBindings_of_undocumented heq
  · rw [← hnames, ← hmanifest, ← hconstants, files]

/-- Whatever the dump and the settings, documentation decides nothing: two documentations lead to catalogs that are the same but for
the texts, by way of the same reports; the load order and the cycles are the same; and so are the reports and the counts of the
packages, the files that tell nothing of documentation, and in the file of each class all that binds the class. -/
theorem render_documented (g : Generator) (host : Dump.Host) (docs docs' : Dump.Docs) :
    ∃ catalog catalog', ∃ rendered rendered' : Logged Package,
      (g.load host docs).result.catalog = some catalog ∧ (g.load host docs').result.catalog = some catalog' ∧
      catalog'.undocumented = catalog.undocumented ∧ (g.load host docs').log = (g.load host docs).log ∧
      LoadOrder.order catalog'.registry catalog'.registry.classes = LoadOrder.order catalog.registry catalog.registry.classes ∧
      (g.load host docs).result.render = .ok rendered ∧ (g.load host docs').result.render = .ok rendered' ∧
      rendered'.log = rendered.log ∧ rendered.result.SameBindings rendered'.result := by
  have hdumps : (ofDump g.settings host docs').map Catalog.undocumented = (ofDump g.settings host docs).map Catalog.undocumented := by
    rw [ofDump_undocumented, ofDump_undocumented]
  obtain ⟨hcatalog, hreports⟩ := Logged.map_eq_map_iff.mp hdumps
  have hpackages : (Package.ofCatalog g.settings (ofDump g.settings host docs').result).map Package.undocumented =
      (Package.ofCatalog g.settings (ofDump g.settings host docs).result).map Package.undocumented := by
    rw [← Package.ofCatalog_undocumented, hcatalog, Package.ofCatalog_undocumented]
  obtain ⟨hpackage, hlog⟩ := Logged.map_eq_map_iff.mp hpackages
  have hrendered : (Package.ofCatalog g.settings (ofDump g.settings host docs').result).result.renderedEvent =
      (Package.ofCatalog g.settings (ofDump g.settings host docs).result).result.renderedEvent := by
    rw [← Package.renderedEvent_undocumented, hpackage, Package.renderedEvent_undocumented]
  refine ⟨_, _, _, _, rfl, rfl, hcatalog, hreports, ?_, rfl, rfl, ?_, Package.sameBindings_of_undocumented hpackage⟩
  · rw [← LoadOrder.order_catalog_undocumented, hcatalog, LoadOrder.order_catalog_undocumented]
  · exact congrArg₂ (fun log event => log ++ [event]) hlog hrendered

end JuliaStubs
