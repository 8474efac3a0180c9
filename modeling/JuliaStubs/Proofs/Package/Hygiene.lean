import JuliaStubs.Proofs.Package.Stubs
import JuliaStubs.Proofs.Source.Hygiene

/-!
# Parameters named by the host

Which argument names of the host a package can take. They are written into functions that have names of their own, and only reserved
words are changed. So for arguments with different names it is still these names that decide whether the parameters of a stub differ
and whether its body reads them (`stubs_hygienic_iff`), and a host may well choose others (`stubs_hygienic_false`).
-/

namespace JuliaStubs

open Catalog Dump Report Source

/-- The names of the arguments of a reported method. -/
def Dump.MethodInfo.argumentNames (info : MethodInfo) : List String := info.arguments.map Slot.name

/-- What the names of a stub are, given those of the arguments of its reported method. -/
structure Source.Stub.NamedBy (stub : Stub) (info : MethodInfo) : Prop where
  method : stub.method = info.name
  names : stub.names = info.argumentNames.map Naming.identifier
  /-- The text of the body is that of its code. -/
  body : stub.bodyLines = stub.bodyCode.map CodeLine.source
  hygienic : info.argumentNames.Nodup → (stub.Hygienic ↔ EscapesApart info.argumentNames ∧
    ∀ name ∈ stub.variables, name ∉ info.argumentNames)
  readsRight : info.argumentNames.Nodup → (stub.ReadsRight ↔ EscapesApart info.argumentNames ∧
    ∀ name ∈ stub.ownNames, name ∉ info.argumentNames)

/-- A stub of the package is that of a reported method, under its names. -/
theorem namedBy_of_mem_stubs {settings : Settings} {host : Host} {docs : Docs} {file : ClassFile}
    (hf : file ∈ (Package.ofCatalog settings (ofDump settings host docs).result).result.classFiles) {stub : Stub}
    (hs : stub ∈ file.stubs) : ∃ info ∈ host.methods file.cls.name, stub.NamedBy info := by
  obtain ⟨cls, hc, -, rfl⟩ := (mem_classFiles (sound_ofDump settings host docs).reachable).mp hf
  obtain ⟨method, hm, -, hok⟩ := mem_stubsOf.mp hs
  obtain ⟨info, hi, hinfo⟩ := exists_outcomeOf_of_mem hc hm
  obtain ⟨hname, hparameters⟩ := names_of_stub? (stub?_eq_some_iff.mpr ⟨method, hinfo, hok⟩)
  have happart : stub.receiver.IsApart := by
    obtain ⟨-, -, -, -, hreceiver, -⟩ := stubOf_ok_iff.mp hok
    rw [hreceiver]
    exact isApart_receiverOf cls
  have hnames : stub.names = info.argumentNames.map Naming.identifier := by
    rw [MethodInfo.argumentNames, List.map_map]
    exact hparameters
  exact ⟨info, hi, hname, hnames, (source_bodyCode stub).symm, hygienic_iff hnames, readsRight_iff_hostNames happart hnames⟩

/-- Whatever the dump, its documentation and the settings, each stub is that of a reported method, and its parameters have the names of
the arguments, where a reserved word gets an underscore in front. When the arguments have different names, the stub is hygienic exactly
when none of these names is what a reserved one among them becomes and none is a variable of the stub; and its body reads each argument
and its own handles right exactly when none is any of the names that the body uses for something else. -/
theorem stubs_hygienic_iff (g : Generator) (host : Host) (docs : Docs) :
    ∃ rendered, (g.load host docs).result.render = .ok rendered ∧ ∀ file ∈ rendered.result.classFiles, ∀ stub ∈ file.stubs,
      ∃ info ∈ host.methods file.cls.name, stub.NamedBy info :=
  ⟨_, rfl, fun _ hf _ hs => namedBy_of_mem_stubs hf hs⟩

namespace HygieneAux

/-- The root with a method that takes integers and returns one. -/
def host (names : List String) : Host :=
  let slots := names.map fun name => Slot.mk name .int "" .none
  { classes :=
      [⟨"Object", none, .core, true, true, false, false, [], [⟨"pick", .none, ⟨"", .int, "", .none⟩, slots, .unspecified, [], []⟩],
        [], []⟩]
    globalConstants := [] }

/-- The package of the root. -/
def package (names : List String) : Package := (Package.ofCatalog .standard (ofDump .standard (host names) .empty).result).result

/-- The parameters of a stub, the names of its body, and whether it returns nothing. -/
def view (stub : Stub) : List String × List String × Bool := (stub.names, stub.ownNames, stub.isVoid)

/-- The names that the method uses. -/
def ownNames : List String :=
  ["method_bind", "string_names", "self", "ret", "C_NULL", "string_names", "Ref", "StringName", "Ptr", "Nothing", "getfield", "Cvoid"]

/-- The one stub of the package of the root. -/
theorem exists_stub {names parameters : List String}
    (h : (package names).classFiles.map (fun file => (file.cls.name, file.stubs.map view)) =
      [("Object", [(parameters, ownNames, false)])]) :
    ∃ file ∈ (package names).classFiles, file.cls.name = "Object" ∧
      ∃ stub ∈ file.stubs, stub.names = parameters ∧ stub.ownNames = ownNames ∧ stub.isVoid = false := by
  obtain ⟨file, hf, hfile⟩ := List.mem_map.mp (h ▸ List.mem_cons_self)
  obtain ⟨hname, hstubs⟩ := Prod.mk.inj hfile
  obtain ⟨stub, hs, hview⟩ := List.mem_map.mp (hstubs ▸ List.mem_cons_self)
  obtain ⟨hnames, hrest⟩ := Prod.mk.inj hview
  exact ⟨file, hf, hname, stub, hs, hnames, Prod.mk.inj hrest⟩

/-- The method of the root is the only one. -/
theorem argumentNames_of_mem {names : List String} {info : MethodInfo} (h : info ∈ (host names).methods "Object") :
    info.argumentNames = names := by
  obtain rfl := List.mem_singleton.mp h
  exact (List.map_map).trans (List.map_id names)

end HygieneAux

/-- A reserved word and a name that the body assigns only after it has read the arguments. -/
theorem stubs_hygienic_args : ∃ rendered, ((Generator.new .standard).load (HygieneAux.host ["end", "args"]) .empty).result.render =
    .ok rendered ∧ ∃ file ∈ rendered.result.classFiles, ∃ stub ∈ file.stubs,
      stub.names = ["_end", "args"] ∧ stub.Hygienic ∧ stub.ReadsRight := by
  obtain ⟨rendered, hrender, h⟩ := stubs_hygienic_iff (.new .standard) (HygieneAux.host ["end", "args"]) .empty
  have hpackage : rendered.result = HygieneAux.package ["end", "args"] := by
    cases hrender
    rfl
  obtain ⟨file, hf, hname, stub, hs, hnames, howns, -⟩ := @HygieneAux.exists_stub ["end", "args"] ["_end", "args"] (by cbv)
  rw [← hpackage] at hf
  obtain ⟨info, hi, hnamed⟩ := h file hf stub hs
  rw [hname] at hi
  have harguments := HygieneAux.argumentNames_of_mem hi
  have hown : ∀ name ∈ stub.ownNames, name ∉ info.argumentNames := by
    rw [harguments, howns]
    decide
  have hescapes : EscapesApart info.argumentNames := by
    rw [harguments]
    decide
  have hnodup : info.argumentNames.Nodup := by
    rw [harguments]
    decide
  exact ⟨rendered, hrender, file, hf, stub, hs, hnames,
    (hnamed.hygienic hnodup).mpr ⟨hescapes, fun name hm => hown name (List.mem_append_left _ hm)⟩,
    (hnamed.readsRight hnodup).mpr ⟨hescapes, hown⟩⟩

/-- Names of arguments that are there and differ do not make a stub hygienic: the host may name an argument like the result. -/
theorem stubs_hygienic_false : ¬∀ (g : Generator) (host : Host) (docs : Docs) (rendered : Logged Package),
    (g.load host docs).result.render = .ok rendered → ∀ file ∈ rendered.result.classFiles, ∀ stub ∈ file.stubs,
      ∀ info ∈ host.methods file.cls.name, stub.method = info.name → info.argumentNames.Nodup → "" ∉ info.argumentNames →
        stub.Hygienic ∧ stub.ReadsRight := by
  intro h
  obtain ⟨file, hf, hname, stub, hs, hnames, -, hvoid⟩ := @HygieneAux.exists_stub ["ret"] ["ret"] (by cbv)
  obtain ⟨info, hi, hnamed⟩ := namedBy_of_mem_stubs hf hs
  have harguments := HygieneAux.argumentNames_of_mem (hname ▸ hi)
  have hhygienic := (h (.new .standard) (HygieneAux.host ["ret"]) .empty ⟨HygieneAux.package ["ret"], _⟩ rfl file hf stub hs info hi
    hnamed.method (harguments ▸ by decide) (harguments ▸ by decide)).1
  refine hhygienic.result (Stub.isVoid_eq_false_iff.mp hvoid) ?_
  rw [hnames]
  exact List.mem_cons_self

end JuliaStubs
