import JuliaStubs.Proofs.Source.Stub
import Mathlib.Data.List.Nodup
import Mathlib.Logic.Function.Basic

/-!
# Names in the body of a stub

The body of a stub uses names of its own next to those of its parameters, and the parameters are named by the host. `Stub.bodyCode` is the
body with what each name is meant to stand for (`source_bodyCode`), where the texts that a type puts around a value are taken as they are.
`Runs` goes through it as Julia does: a name stands for a parameter of the function, else for a variable of the block around it, else for
what the file has under the name, until the body assigns to it. All these names stand for what is meant exactly when the parameters differ
from one another and from the names that the body uses for something else (`readsRight_iff`).
-/

namespace JuliaStubs.Source

open Catalog

/-! ## Code -/

/-- What a name in the body of a stub is meant to stand for. -/
inductive Meaning where
  /-- What the file and the modules it uses have under the name. -/
  | outer (name : String)
  /-- The handle of the method, which is kept between calls. -/
  | methodHandle
  | receiver
  /-- The value that the caller passes at a place. -/
  | argument (index : Nat)
  /-- The holder of the result. -/
  | result
  /-- The converted arguments. -/
  | arguments
deriving DecidableEq

/-- A part of a line: a name that is read, or text that is taken as it is. -/
inductive Token where
  | text (s : String)
  | read (name : String) (meant : Meaning)
deriving DecidableEq

/-- The source of a token. -/
def Token.source : Token → String
  | text s => s
  | read name _ => name

/-- A name of the file. -/
def Token.outer (name : String) : Token := .read name (.outer name)

/-- A line of code: what it evaluates, and the name it assigns that to. -/
structure CodeLine where
  isNested : Bool
  target : Option (String × Meaning)
  tokens : List Token
deriving DecidableEq

/-- The source of tokens. -/
def sourceOf (tokens : List Token) : String := String.join (tokens.map Token.source)

/-- The source of a line. -/
def CodeLine.source (line : CodeLine) : String :=
  (if line.isNested then "\t" else "") ++ (line.target.map fun target => target.1 ++ " = ").getD "" ++ sourceOf line.tokens

/-- A line that assigns nothing. -/
def evaluates (tokens : List Token) : CodeLine := ⟨false, none, tokens⟩

/-- The type of an untyped pointer. -/
def pointerTokens : List Token := [.outer "Ptr", .text "\x7b", .outer "Nothing", .text "\x7d"]

/-- The pointer that stands for nothing. -/
def nullTokens : List Token := [.outer "C_NULL", .text "::"] ++ pointerTokens

/-- The reference to an interned name. -/
def internedTokens (name : String) : List Token :=
  [.outer "string_names", .text ("._" ++ name ++ "::"), .outer "Ref", .text "\x7b", .outer "StringName", .text "\x7d"]

/-- The object of the call. -/
def Receiver.objectToken : Receiver → Token
  | object _ => .read "self" .receiver
  | singleton _ holder => .outer holder

/-- The handle of the object. -/
def Receiver.handleTokens (receiver : Receiver) : List Token :=
  [.outer "getfield", .text "(", receiver.objectToken, .text ", :native_ptr)"]

/-- The conversion of the argument at a place. -/
def conversionTokens (entry : Parameter × Nat) : List Token :=
  [.text entry.1.type.marshaling.input.before, .read entry.1.name (.argument entry.2), .text entry.1.type.marshaling.input.after]

namespace Stub

variable (stub : Stub)

/-- The lines that look the method up. -/
def lookUpCode : List CodeLine :=
  [evaluates [.text "if ", .read "method_bind" .methodHandle, .text " == ", .outer "C_NULL"],
    ⟨true, some ("method_bind", .methodHandle), .text "@ccall godot_julia_get_method_bind(" :: internedTokens stub.cls ++
      .text ", " :: internedTokens stub.method ++ .text ")::" :: pointerTokens⟩,
    evaluates [.text "end"]]

/-- The lines that find the instance of a singleton. -/
def instanceCode : List CodeLine :=
  match stub.receiver with
  | .object _ => []
  | .singleton _ holder =>
    [evaluates (.text "if " :: stub.receiver.handleTokens ++ [.text " == ", .outer "C_NULL"]),
      ⟨true, none, [.outer "setfield!", .text "(", .outer holder, .text ", :native_ptr, @ccall godot_julia_get_singleton("] ++
        internedTokens stub.cls ++ .text ")::" :: pointerTokens ++ [.text ")"]⟩,
      evaluates [.text "end"]]

/-- The line that makes the holder of the result. -/
def holderCode : List CodeLine :=
  if stub.isVoid then [] else [⟨false, some ("ret", .result), [.text stub.result.marshaling.holder]⟩]

/-- The line that converts the arguments. -/
def argumentCode : List CodeLine :=
  if stub.parameters.isEmpty then []
  else [⟨false, some ("args", .arguments),
    .text "[" :: [Token.text ", "].intercalate (stub.parameters.zipIdx.map conversionTokens) ++ [.text "]"]⟩]

/-- The line of the call. -/
def callCode : CodeLine :=
  let arguments := if stub.parameters.isEmpty then nullTokens
    else [.read "args" .arguments, .text "::", .outer "Ref", .text "\x7b"] ++ pointerTokens ++ [.text "\x7d"]
  let result := if stub.isVoid then nullTokens else [.read "ret" .result, .text ("::" ++ stub.result.marshaling.boundary)]
  evaluates ([.text "@ccall godot_julia_method_bind_ptrcall(", .read "method_bind" .methodHandle, .text "::"] ++ pointerTokens ++
    .text ", " :: stub.receiver.handleTokens ++ .text "::" :: pointerTokens ++ .text ", " :: arguments ++ .text ", " :: result ++
    [.text ")::", .outer "Cvoid"])

/-- The line that returns the result. -/
def returnCode : List CodeLine :=
  if stub.isVoid then []
  else [evaluates [.text ("return " ++ stub.result.marshaling.output.before), .read "ret" .result,
    .text stub.result.marshaling.output.after]]

/-- The body of the function. -/
def bodyCode : List CodeLine :=
  stub.lookUpCode ++ stub.instanceCode ++ stub.holderCode ++ stub.argumentCode ++ [stub.callCode] ++ stub.returnCode

end Stub

/-! ### Source -/

section Source

@[simp]
theorem sourceOf_nil : sourceOf [] = "" := rfl

@[simp]
theorem sourceOf_cons (token : Token) (tokens : List Token) : sourceOf (token :: tokens) = token.source ++ sourceOf tokens := by
  rw [sourceOf, List.map_cons, String.join_cons, sourceOf]

@[simp]
theorem sourceOf_append (front back : List Token) : sourceOf (front ++ back) = sourceOf front ++ sourceOf back := by
  rw [sourceOf, List.map_append, String.join_append, sourceOf, sourceOf]

@[simp]
theorem source_outer (name : String) : (Token.outer name).source = name := rfl

@[simp]
theorem source_text (s : String) : (Token.text s).source = s := rfl

@[simp]
theorem source_read (name : String) (meant : Meaning) : (Token.read name meant).source = name := rfl

theorem source_evaluates (tokens : List Token) : (evaluates tokens).source = sourceOf tokens := by
  simp only [evaluates, CodeLine.source, Bool.false_eq_true, if_false, Option.map_none, Option.getD_none, String.empty_append]

theorem source_nested (tokens : List Token) : (CodeLine.mk true none tokens).source = indented (sourceOf tokens) := by
  simp only [CodeLine.source, if_true, Option.map_none, Option.getD_none, String.append_empty, indented]

theorem source_assignment (name : String) (meant : Meaning) (tokens : List Token) :
    (CodeLine.mk false (some (name, meant)) tokens).source = name ++ " = " ++ sourceOf tokens := by
  simp only [CodeLine.source, Bool.false_eq_true, if_false, Option.map_some, Option.getD_some, String.empty_append]

theorem source_nested_assignment (name : String) (meant : Meaning) (tokens : List Token) :
    (CodeLine.mk true (some (name, meant)) tokens).source = indented (name ++ " = " ++ sourceOf tokens) := by
  simp only [CodeLine.source, if_true, Option.map_some, Option.getD_some, indented, String.append_assoc]

theorem sourceOf_intercalate (items : List (List Token)) :
    sourceOf ([Token.text ", "].intercalate items) = ", ".intercalate (items.map sourceOf) := by
  induction items with
  | nil => rfl
  | cons first rest ih =>
    cases rest with
    | nil => simp
    | cons second rest =>
      rw [List.intercalate_cons_cons, List.map_cons, List.map_cons, String.intercalate_cons_cons, sourceOf_append, sourceOf_append,
        ih, List.map_cons]
      rfl

theorem sourceOf_pointerTokens : sourceOf pointerTokens = pointerType := rfl

theorem sourceOf_nullTokens : sourceOf nullTokens = nullPointer := rfl

theorem sourceOf_internedTokens (name : String) : sourceOf (internedTokens name) = internedArgument name := by
  have hfield : "string_names._" = "string_names" ++ "._" := by decide +kernel
  have href : "Ref\x7b" = "Ref" ++ "\x7b" := by decide +kernel
  -- the texts of these definitions are interpolated: to unfold them by their equations is slow
  delta internedArgument refType
  simp only [internedTokens, sourceOf_cons, sourceOf_nil, source_outer, source_text, hfield, href, String.append_assoc,
    String.append_empty]

theorem sourceOf_handleTokens (receiver : Receiver) : sourceOf receiver.handleTokens = receiver.handle := by
  have hcall : "getfield(" = "getfield" ++ "(" := by decide +kernel
  have hself : "getfield(self, :native_ptr)" = "getfield" ++ ("(" ++ ("self" ++ ", :native_ptr)")) := by decide +kernel
  cases receiver <;>
    simp only [Receiver.handleTokens, Receiver.objectToken, sourceOf_cons, sourceOf_nil, source_outer, source_text, source_read,
      Receiver.handle, hcall, hself, String.append_assoc, String.append_empty]

theorem sourceOf_conversions (parameters : List Parameter) (start : Nat) :
    ((parameters.zipIdx start).map conversionTokens).map sourceOf = parameters.map Parameter.conversion := by
  have hconversion : ∀ entry : Parameter × Nat, sourceOf (conversionTokens entry) = entry.1.conversion := fun entry => by
    simp only [conversionTokens, sourceOf_cons, sourceOf_nil, Token.source, String.append_empty, Parameter.conversion, Template.fill,
      String.append_assoc]
  rw [List.map_map, show sourceOf ∘ conversionTokens = Parameter.conversion ∘ Prod.fst from funext hconversion, ← List.map_map,
    List.zipIdx_map_fst]

variable (stub : Stub)

theorem source_lookUpCode : stub.lookUpCode.map CodeLine.source = ["if method_bind == C_NULL", indented stub.lookUp, "end"] := by
  have htest : sourceOf [.text "if ", .read "method_bind" .methodHandle, .text " == ", .outer "C_NULL"] =
      "if method_bind == C_NULL" := by decide +kernel
  have hend : sourceOf [.text "end"] = "end" := by decide +kernel
  have hassign : "method_bind = @ccall godot_julia_get_method_bind(" =
      "method_bind" ++ (" = " ++ "@ccall godot_julia_get_method_bind(") := by decide +kernel
  have hlookUp : "method_bind" ++ " = " ++ sourceOf (.text "@ccall godot_julia_get_method_bind(" :: internedTokens stub.cls ++
      .text ", " :: internedTokens stub.method ++ .text ")::" :: pointerTokens) = stub.lookUp := by
    delta Stub.lookUp
    simp only [sourceOf_append, sourceOf_cons, source_text, sourceOf_internedTokens, sourceOf_pointerTokens, hassign,
      String.append_assoc]
  rw [Stub.lookUpCode, List.map_cons, List.map_cons, List.map_cons, List.map_nil, source_evaluates, source_evaluates,
    source_nested_assignment, htest, hend, hlookUp]

theorem source_instanceCode : stub.instanceCode.map CodeLine.source = stub.instanceLines := by
  have hcall : "setfield!(" = "setfield!" ++ "(" := by decide +kernel
  have htest : " == C_NULL" = " == " ++ "C_NULL" := by decide +kernel
  delta Stub.instanceCode Stub.instanceLines
  cases stub.receiver with
  | object tag => rfl
  | singleton cls holder =>
    simp only [List.map_cons, List.map_nil, source_evaluates, source_nested, sourceOf_append, sourceOf_cons, sourceOf_nil,
      sourceOf_internedTokens, sourceOf_pointerTokens, sourceOf_handleTokens, source_text, source_outer, hcall, htest,
      String.append_assoc, String.append_empty]

theorem source_callCode : stub.callCode.source = stub.call := by
  have hstart : "@ccall godot_julia_method_bind_ptrcall(method_bind::" =
      "@ccall godot_julia_method_bind_ptrcall(" ++ ("method_bind" ++ "::") := by decide +kernel
  have hend : ")::Cvoid" = ")::" ++ "Cvoid" := by decide +kernel
  have harguments : sourceOf (if stub.parameters.isEmpty then nullTokens
      else [.read "args" .arguments, .text "::", .outer "Ref", .text "\x7b"] ++ pointerTokens ++ [.text "\x7d"]) =
        if stub.parameters.isEmpty then nullPointer else "args::" ++ refType pointerType := by
    split <;> decide +kernel
  have hresult : sourceOf (if stub.isVoid then nullTokens else [.read "ret" .result, .text ("::" ++ stub.result.marshaling.boundary)]) =
      if stub.isVoid then nullPointer else "ret::" ++ stub.result.marshaling.boundary := by
    have hret : "ret::" = "ret" ++ "::" := by decide +kernel
    split
    · exact sourceOf_nullTokens
    · simp only [sourceOf_cons, sourceOf_nil, source_read, source_text, String.append_empty, hret, String.append_assoc]
  delta Stub.callCode Stub.call
  simp only [source_evaluates, sourceOf_append, sourceOf_cons, sourceOf_nil, sourceOf_pointerTokens,
    sourceOf_handleTokens, harguments, hresult, source_text, source_read, source_outer, hstart, hend, String.append_assoc,
    String.append_empty]

/-- The code of the body is its text. -/
theorem source_bodyCode : stub.bodyCode.map CodeLine.source = stub.bodyLines := by
  have hholder : stub.holderCode.map CodeLine.source = stub.holderLines := by
    have hstart : "ret = " = "ret" ++ " = " := by decide +kernel
    unfold Stub.holderCode Stub.holderLines
    split
    · rfl
    · rw [List.map_singleton, source_assignment, sourceOf_cons, sourceOf_nil, source_text, String.append_empty, hstart]
  have harguments : stub.argumentCode.map CodeLine.source = stub.argumentLines := by
    have hstart : "args = [" = "args" ++ " = " ++ "[" := by decide +kernel
    unfold Stub.argumentCode Stub.argumentLines
    split
    · rfl
    · rw [List.map_singleton, source_assignment]
      simp only [sourceOf_append, sourceOf_cons, sourceOf_nil, sourceOf_intercalate, sourceOf_conversions, source_text, hstart,
        String.append_assoc, String.append_empty]
  have hreturn : stub.returnCode.map CodeLine.source = stub.returnLines := by
    unfold Stub.returnCode Stub.returnLines
    split
    · rfl
    · rw [List.map_singleton, source_evaluates, Template.fill]
      simp only [sourceOf_cons, sourceOf_nil, source_text, source_read, String.append_assoc, String.append_empty]
  simp only [Stub.bodyCode, Stub.bodyLines, List.map_append, List.map_cons, List.map_nil, source_lookUpCode, source_instanceCode,
    hholder, harguments, source_callCode, hreturn]

end Source

/-! ## Names -/

/-- The name of the receiver, if it has one. -/
def Receiver.names : Receiver → List String
  | object _ => ["self"]
  | singleton .. => []

/-- The names of the parameters after the receiver. -/
def Stub.names (stub : Stub) : List String := stub.parameters.map Parameter.name

/-- What a name stands for when the body starts. -/
def Stub.entry (stub : Stub) (name : String) : Meaning :=
  if name ∈ stub.names then .argument (stub.names.idxOf name)
  else if name ∈ stub.receiver.names then .receiver
  else if name = "method_bind" then .methodHandle
  else .outer name

/-- A name stands for what is meant. -/
def Token.Reads (env : String → Meaning) : Token → Prop
  | text _ => True
  | read name meant => env name = meant

/-- What names stand for after a line. -/
def CodeLine.after (line : CodeLine) (env : String → Meaning) : String → Meaning :=
  line.target.elim env fun target => Function.update env target.1 target.2

/-- Line by line, all names that are read stand for what is meant. The line that looks the method up counts as run. -/
def Runs (env : String → Meaning) : List CodeLine → Prop
  | [] => True
  | line :: rest => (∀ token ∈ line.tokens, token.Reads env) ∧ Runs (line.after env) rest

/-- The function has its parameters apart, and in its body all names stand for what is meant: each conversion reads the argument at
its place, and the handles of the method and of the object are those of this stub. -/
def Stub.ReadsRight (stub : Stub) : Prop := (stub.receiver.names ++ stub.names).Nodup ∧ Runs stub.entry stub.bodyCode

/-- The names of the file that the body uses. -/
def Stub.outerNames (stub : Stub) : List String :=
  ["C_NULL", "string_names", "Ref", "StringName", "Ptr", "Nothing", "getfield", "Cvoid"] ++
    match stub.receiver with
    | .object _ => []
    | .singleton _ holder => ["setfield!", holder]

/-- The variables that a parameter may not hide: those of the block and of the file that the body looks handles up with, the receiver,
and the result. -/
def Stub.variables (stub : Stub) : List String :=
  ["method_bind", "string_names"] ++ stub.receiver.names ++ if stub.isVoid then [] else ["ret"]

/-- The names that the body uses for something else than an argument before it has read the arguments. -/
def Stub.ownNames (stub : Stub) : List String := stub.variables ++ stub.outerNames

section Names

@[simp]
theorem reads_text (env : String → Meaning) (s : String) : (Token.text s).Reads env := trivial

@[simp]
theorem reads_read (env : String → Meaning) (name : String) (meant : Meaning) :
    (Token.read name meant).Reads env ↔ env name = meant := Iff.rfl

@[simp]
theorem reads_outer (env : String → Meaning) (name : String) : (Token.outer name).Reads env ↔ env name = .outer name := Iff.rfl

/-- What names stand for after some lines. -/
def afterAll (env : String → Meaning) (lines : List CodeLine) : String → Meaning :=
  lines.foldl (fun env line => line.after env) env

theorem runs_append {env : String → Meaning} {front back : List CodeLine} :
    Runs env (front ++ back) ↔ Runs env front ∧ Runs (afterAll env front) back := by
  induction front generalizing env with
  | nil => simp [Runs, afterAll]
  | cons line front ih => simp only [List.cons_append, Runs, ih, and_assoc, afterAll, List.foldl_cons]

variable {stub : Stub} {env : String → Meaning}

/-- The names that the body uses for something else than an argument stand for that. -/
structure Fits (stub : Stub) (env : String → Meaning) : Prop where
  methodHandle : env "method_bind" = .methodHandle
  object : stub.receiver.objectToken.Reads env
  outer : ∀ name ∈ stub.outerNames, env name = .outer name

/-- The holder of a singleton has a long name. -/
def Receiver.IsApart (receiver : Receiver) : Prop := ∀ cls holder, receiver = .singleton cls holder → 12 < holder.length

theorem isApart_receiverOf (cls : ClassDecl) : (receiverOf cls).IsApart := by
  intro name holder h
  unfold receiverOf at h
  split at h
  · obtain ⟨-, rfl⟩ := Receiver.singleton.inj h
    have hends : "Singleton".length = 9 ∧ "Instance".length = 8 := by decide
    rw [Naming.singletonHolder, Naming.singleton, String.length_append, String.length_append, hends.1, hends.2]
    omega
  · nomatch h

/-- A short name that the body does not take from the file is none of those that it does. -/
theorem not_mem_outerNames (h : stub.receiver.IsApart) {name : String} (hlength : name.length ≤ 12)
    (hfixed : name ∉ ["C_NULL", "string_names", "Ref", "StringName", "Ptr", "Nothing", "getfield", "Cvoid", "setfield!"]) :
    name ∉ stub.outerNames := by
  intro hmem
  rcases List.mem_append.mp hmem with hmem | hmem
  · exact hfixed (List.mem_append_left ["setfield!"] hmem)
  · split at hmem
    · nomatch hmem
    · rename_i cls holder hreceiver
      rcases List.mem_cons.mp hmem with rfl | hmem
      · exact hfixed (by decide)
      · obtain rfl := List.mem_singleton.mp hmem
        exact absurd (h cls name hreceiver) (Nat.not_lt.mpr hlength)

theorem reads_pointerTokens : (∀ token ∈ pointerTokens, token.Reads env) ↔ env "Ptr" = .outer "Ptr" ∧ env "Nothing" = .outer "Nothing" := by
  simp [pointerTokens]

theorem reads_internedTokens (name : String) : (∀ token ∈ internedTokens name, token.Reads env) ↔
    env "string_names" = .outer "string_names" ∧ env "Ref" = .outer "Ref" ∧ env "StringName" = .outer "StringName" := by
  simp [internedTokens]

theorem reads_handleTokens (receiver : Receiver) : (∀ token ∈ receiver.handleTokens, token.Reads env) ↔
    env "getfield" = .outer "getfield" ∧ receiver.objectToken.Reads env := by
  simp [Receiver.handleTokens]

theorem runs_lookUpCode : Runs env stub.lookUpCode ↔ env "method_bind" = .methodHandle ∧ env "C_NULL" = .outer "C_NULL" ∧
    env "string_names" = .outer "string_names" ∧ env "Ref" = .outer "Ref" ∧ env "StringName" = .outer "StringName" ∧
    env "Ptr" = .outer "Ptr" ∧ env "Nothing" = .outer "Nothing" := by
  simp only [Stub.lookUpCode, Runs, evaluates, CodeLine.after, Option.elim_none, List.forall_mem_append, List.forall_mem_cons,
    reads_internedTokens, reads_pointerTokens, reads_text, reads_read, reads_outer]
  simp
  tauto

theorem runs_instanceCode {cls holder : String} (h : stub.receiver = .singleton cls holder) : Runs env stub.instanceCode ↔
    env "getfield" = .outer "getfield" ∧ env holder = .outer holder ∧ env "C_NULL" = .outer "C_NULL" ∧
    env "setfield!" = .outer "setfield!" ∧
    env "string_names" = .outer "string_names" ∧ env "Ref" = .outer "Ref" ∧ env "StringName" = .outer "StringName" ∧
    env "Ptr" = .outer "Ptr" ∧ env "Nothing" = .outer "Nothing" := by
  simp only [Stub.instanceCode, h, Runs, evaluates, CodeLine.after, Option.elim_none, List.forall_mem_append, List.forall_mem_cons,
    reads_internedTokens, reads_pointerTokens, reads_handleTokens, reads_text, reads_outer]
  simp [Receiver.objectToken]
  tauto

/-- What names stand for once the holder of the result is made. -/
def Stub.withResult (stub : Stub) (env : String → Meaning) : String → Meaning :=
  if stub.isVoid then env else Function.update env "ret" .result

/-- What names stand for once the arguments are converted. -/
def Stub.withArguments (stub : Stub) (env : String → Meaning) : String → Meaning :=
  if stub.parameters.isEmpty then env else Function.update env "args" .arguments

theorem withResult_of_ne {name : String} (h : name ≠ "ret") : stub.withResult env name = env name := by
  unfold Stub.withResult
  split
  · rfl
  · exact Function.update_of_ne h _ _

theorem withArguments_of_ne {name : String} (h : name ≠ "args") : stub.withArguments env name = env name := by
  unfold Stub.withArguments
  split
  · rfl
  · exact Function.update_of_ne h _ _

theorem afterAll_lookUpCode (h : env "method_bind" = .methodHandle) : afterAll env stub.lookUpCode = env := by
  show Function.update env "method_bind" .methodHandle = env
  rw [← h, Function.update_eq_self]

theorem afterAll_instanceCode : afterAll env stub.instanceCode = env := by
  unfold Stub.instanceCode
  split <;> rfl

theorem afterAll_holderCode : afterAll env stub.holderCode = stub.withResult env := by
  unfold Stub.holderCode Stub.withResult
  split <;> rfl

theorem afterAll_argumentCode : afterAll env stub.argumentCode = stub.withArguments env := by
  unfold Stub.argumentCode Stub.withArguments
  split <;> rfl

theorem reads_intercalate (items : List (List Token)) :
    (∀ token ∈ [Token.text ", "].intercalate items, token.Reads env) ↔ ∀ item ∈ items, ∀ token ∈ item, token.Reads env := by
  induction items with
  | nil => simp
  | cons first rest ih =>
    cases rest with
    | nil => simp
    | cons second rest =>
      rw [List.intercalate_cons_cons, List.forall_mem_append, List.forall_mem_append, ih, List.forall_mem_cons (a := first)]
      simp

theorem runs_argumentCode : Runs env stub.argumentCode ↔
    ∀ entry ∈ stub.parameters.zipIdx, env entry.1.name = .argument entry.2 := by
  have hconversion : ∀ entry : Parameter × Nat,
      (∀ token ∈ conversionTokens entry, token.Reads env) ↔ env entry.1.name = .argument entry.2 := fun entry => by
    simp [conversionTokens]
  unfold Stub.argumentCode
  split
  · rename_i hempty
    rw [List.isEmpty_iff.mp hempty]
    simp [Runs]
  · simp only [Runs, and_true, List.forall_mem_append, List.forall_mem_cons, reads_intercalate, reads_text, true_and,
      List.forall_mem_map, hconversion]
    simp

theorem runs_callCode : Runs env [stub.callCode] ↔ env "method_bind" = .methodHandle ∧ stub.receiver.objectToken.Reads env ∧
    env "getfield" = .outer "getfield" ∧ env "Ptr" = .outer "Ptr" ∧ env "Nothing" = .outer "Nothing" ∧ env "Cvoid" = .outer "Cvoid" ∧
    (if stub.parameters.isEmpty then env "C_NULL" = .outer "C_NULL" else env "args" = .arguments ∧ env "Ref" = .outer "Ref") ∧
    (if stub.isVoid then env "C_NULL" = .outer "C_NULL" else env "ret" = .result) := by
  simp only [Stub.callCode, Runs, evaluates, and_true, List.forall_mem_append, List.forall_mem_cons, reads_pointerTokens,
    reads_handleTokens, reads_text, reads_read, reads_outer]
  cases stub.parameters.isEmpty <;> cases stub.isVoid <;>
    simp [nullTokens, pointerTokens] <;> tauto

theorem runs_returnCode : Runs env stub.returnCode ↔ (stub.isVoid = false → env "ret" = .result) := by
  unfold Stub.returnCode
  split <;> simp [*, Runs, evaluates]

theorem runs_holderCode : Runs env stub.holderCode := by
  unfold Stub.holderCode
  split <;> simp [Runs]

theorem withResult_ret (h : stub.isVoid = false) : stub.withResult env "ret" = .result := by
  rw [Stub.withResult, h, if_neg Bool.false_ne_true, Function.update_self]

theorem withArguments_args (h : stub.parameters.isEmpty = false) : stub.withArguments env "args" = .arguments := by
  rw [Stub.withArguments, h, if_neg Bool.false_ne_true, Function.update_self]

/-- The body part by part, where the handle of the method is its own. -/
theorem runs_bodyCode_parts (h : env "method_bind" = .methodHandle) : Runs env stub.bodyCode ↔
    Runs env stub.lookUpCode ∧ Runs env stub.instanceCode ∧ Runs (stub.withResult env) stub.argumentCode ∧
      Runs (stub.withArguments (stub.withResult env)) [stub.callCode] ∧
      Runs (stub.withArguments (stub.withResult env)) stub.returnCode := by
  have hcall : ∀ env, afterAll env [stub.callCode] = env := fun _ => rfl
  have hafter : ∀ (env : String → Meaning) front back, afterAll env (front ++ back) = afterAll (afterAll env front) back :=
    fun _ _ _ => List.foldl_append
  simp only [Stub.bodyCode, runs_append, hafter, hcall, afterAll_lookUpCode h, afterAll_instanceCode, afterAll_holderCode,
    afterAll_argumentCode, runs_holderCode, and_true, and_assoc]

/-- The body itself assigns to two names besides the handle of the method. -/
theorem withArguments_withResult_of_ne {name : String} (hargs : name ≠ "args") (hret : name ≠ "ret") :
    stub.withArguments (stub.withResult env) name = env name := by
  rw [withArguments_of_ne hargs, withResult_of_ne hret]

theorem reads_objectToken (h : stub.receiver.IsApart) :
    stub.receiver.objectToken.Reads (stub.withArguments (stub.withResult env)) ↔ stub.receiver.objectToken.Reads env := by
  cases hreceiver : stub.receiver with
  | object tag =>
    rw [Receiver.objectToken, reads_read, reads_read, withArguments_withResult_of_ne (by decide) (by decide)]
  | singleton cls holder =>
    have hlong := h cls holder hreceiver
    rw [Receiver.objectToken, reads_outer, reads_outer, withArguments_withResult_of_ne]
    · rintro rfl
      exact absurd hlong (by decide)
    · rintro rfl
      exact absurd hlong (by decide)

/-- A body that reads right has the names that are not of arguments for itself. -/
theorem fits_of_runs (h : stub.receiver.IsApart) (hruns : Runs env stub.bodyCode) :
    Fits stub env ∧ ∀ entry ∈ stub.parameters.zipIdx, stub.withResult env entry.1.name = .argument entry.2 := by
  have hlookUp : Runs env stub.lookUpCode := by
    rw [Stub.bodyCode, List.append_assoc, List.append_assoc, List.append_assoc, List.append_assoc] at hruns
    exact (runs_append.mp hruns).1
  obtain ⟨hbind, hnull, hnames, href, hname, hptr, hnothing⟩ := runs_lookUpCode.mp hlookUp
  obtain ⟨-, hinstance, harguments, hcall, -⟩ := (runs_bodyCode_parts hbind).mp hruns
  obtain ⟨-, hobject, hget, -, -, hvoid, -, -⟩ := runs_callCode.mp hcall
  rw [withArguments_withResult_of_ne (by decide) (by decide)] at hget hvoid
  refine ⟨⟨hbind, (reads_objectToken h).mp hobject, fun name hm => ?_⟩, runs_argumentCode.mp harguments⟩
  rcases List.mem_append.mp hm with hm | hm
  · simp only [List.mem_cons, List.not_mem_nil, or_false] at hm
    rcases hm with rfl | rfl | rfl | rfl | rfl | rfl | rfl | rfl <;> assumption
  · cases hreceiver : stub.receiver with
    | object tag =>
      rw [hreceiver] at hm
      nomatch hm
    | singleton cls holder =>
      obtain ⟨-, hholder, -, hset, -⟩ := (runs_instanceCode hreceiver).mp hinstance
      rw [hreceiver] at hm
      simp only [List.mem_cons, List.not_mem_nil, or_false] at hm
      rcases hm with rfl | rfl <;> assumption

theorem Fits.fixed (h : Fits stub env) {name : String}
    (hm : name ∈ ["C_NULL", "string_names", "Ref", "StringName", "Ptr", "Nothing", "getfield", "Cvoid"]) : env name = .outer name :=
  h.outer name (List.mem_append_left _ hm)

theorem Fits.runs_instanceCode (h : Fits stub env) : Runs env stub.instanceCode := by
  cases hreceiver : stub.receiver with
  | object tag =>
    rw [Stub.instanceCode, hreceiver]
    trivial
  | singleton cls holder =>
    have hown : ∀ name ∈ ["setfield!", holder], env name = .outer name := fun name hm => by
      refine h.outer name (List.mem_append_right _ ?_)
      rw [hreceiver]
      exact hm
    exact (Source.runs_instanceCode hreceiver).mpr ⟨h.fixed (by decide), hown _ (by simp), h.fixed (by decide), hown _ (by simp),
      h.fixed (by decide), h.fixed (by decide), h.fixed (by decide), h.fixed (by decide), h.fixed (by decide)⟩

theorem Fits.runs_callCode (h : Fits stub env) (happart : stub.receiver.IsApart) :
    Runs (stub.withArguments (stub.withResult env)) [stub.callCode] := by
  have hfixed : ∀ name ∈ ["C_NULL", "Ref", "Ptr", "Nothing", "getfield", "Cvoid"],
      stub.withArguments (stub.withResult env) name = .outer name := fun name hm => by
    have hne : name ≠ "args" ∧ name ≠ "ret" := by
      constructor <;> rintro rfl <;> exact absurd hm (by decide)
    rw [withArguments_withResult_of_ne hne.1 hne.2]
    refine h.fixed ?_
    simp only [List.mem_cons, List.not_mem_nil, or_false] at hm ⊢
    tauto
  refine Source.runs_callCode.mpr ⟨?_, (reads_objectToken happart).mpr h.object, hfixed _ (by decide), hfixed _ (by decide),
    hfixed _ (by decide), hfixed _ (by decide), ?_, ?_⟩
  · rw [withArguments_withResult_of_ne (by decide) (by decide)]
    exact h.methodHandle
  · cases hempty : stub.parameters.isEmpty with
    | true => exact hfixed _ (by decide)
    | false => exact ⟨withArguments_args hempty, hfixed _ (by decide)⟩
  · cases hvoid : stub.isVoid with
    | true => exact hfixed _ (by decide)
    | false => exact (withArguments_of_ne (by decide)).trans (withResult_ret hvoid)

/-- The body reads right exactly when the names that are not of arguments do, and the arguments do where they are converted: after the
holder of the result is made. -/
theorem runs_bodyCode (h : stub.receiver.IsApart) : Runs env stub.bodyCode ↔
    Fits stub env ∧ ∀ entry ∈ stub.parameters.zipIdx, stub.withResult env entry.1.name = .argument entry.2 := by
  refine ⟨fits_of_runs h, ?_⟩
  rintro ⟨hfits, harguments⟩
  have hlookUp : Runs env stub.lookUpCode := runs_lookUpCode.mpr ⟨hfits.methodHandle, hfits.fixed (by decide),
    hfits.fixed (by decide), hfits.fixed (by decide), hfits.fixed (by decide), hfits.fixed (by decide), hfits.fixed (by decide)⟩
  have hreturn : Runs (stub.withArguments (stub.withResult env)) stub.returnCode := runs_returnCode.mpr fun hvoid =>
    (withArguments_of_ne (by decide)).trans (withResult_ret hvoid)
  exact (runs_bodyCode_parts hfits.methodHandle).mpr
    ⟨hlookUp, hfits.runs_instanceCode, runs_argumentCode.mpr harguments, hfits.runs_callCode h, hreturn⟩

theorem entry_of_mem {name : String} (h : name ∈ stub.names) : stub.entry name = .argument (stub.names.idxOf name) := if_pos h

theorem mem_receiver_names {receiver : Receiver} {name : String} :
    name ∈ receiver.names ↔ name = "self" ∧ ∃ tag, receiver = .object tag := by
  cases receiver <;> simp [Receiver.names]

/-- A name that the body uses for something else than an argument stands for that at its start when no parameter has it. -/
theorem fits_entry_iff (h : stub.receiver.IsApart) : Fits stub stub.entry ↔
    ∀ name ∈ "method_bind" :: stub.receiver.names ++ stub.outerNames, name ∉ stub.names := by
  constructor
  · intro hfits name hm hn
    have hentry := entry_of_mem hn
    rcases List.mem_cons.mp hm with rfl | hm
    · nomatch hentry.symm.trans hfits.methodHandle
    · rcases List.mem_append.mp hm with hm | hm
      · obtain ⟨rfl, tag, hreceiver⟩ := mem_receiver_names.mp hm
        have hobject := hfits.object
        rw [hreceiver] at hobject
        nomatch hentry.symm.trans hobject
      · nomatch hentry.symm.trans (hfits.outer name hm)
  · intro hfree
    have houter : ∀ name ∈ stub.outerNames, stub.entry name = .outer name := fun name hm => by
      have hparameter : name ∉ stub.names := hfree name (List.mem_append_right _ hm)
      have hreceiver : name ∉ stub.receiver.names := fun hin =>
        not_mem_outerNames h (by decide) (by decide) ((mem_receiver_names.mp hin).1 ▸ hm)
      have hbind : name ≠ "method_bind" := fun heq => not_mem_outerNames h (by decide) (by decide) (heq ▸ hm)
      rw [Stub.entry, if_neg hparameter, if_neg hreceiver, if_neg hbind]
    refine ⟨?_, ?_, houter⟩
    · have hreceiver : "method_bind" ∉ stub.receiver.names := fun hin => absurd (mem_receiver_names.mp hin).1 (by decide)
      rw [Stub.entry, if_neg (hfree _ List.mem_cons_self), if_neg hreceiver, if_pos rfl]
    · cases hreceiver : stub.receiver with
      | object tag =>
        have hin : "self" ∈ stub.receiver.names := mem_receiver_names.mpr ⟨rfl, tag, hreceiver⟩
        rw [Receiver.objectToken, reads_read, Stub.entry,
          if_neg (hfree _ (List.mem_cons_of_mem _ (List.mem_append_left _ hin))), if_pos hin]
      | singleton cls holder =>
        refine houter holder ?_
        rw [Stub.outerNames, hreceiver]
        exact List.mem_append_right _ (List.mem_cons_of_mem _ List.mem_cons_self)

theorem mem_variables {name : String} : name ∈ stub.variables ↔ name = "method_bind" ∨ name = "string_names" ∨
    (name = "self" ∧ ∃ tag, stub.receiver = .object tag) ∨ (name = "ret" ∧ stub.isVoid = false) := by
  rw [Stub.variables]
  cases stub.receiver <;> cases stub.isVoid <;> simp [Receiver.names]

/-- A parameter stands for the argument at its place, where no name repeats. -/
theorem entry_of_mem_zipIdx (h : stub.names.Nodup) {entry : Parameter × Nat} (he : entry ∈ stub.parameters.zipIdx) :
    entry.1.name ∈ stub.names ∧ stub.entry entry.1.name = .argument entry.2 := by
  have hname : stub.names[entry.2]? = some entry.1.name := by
    rw [Stub.names, List.getElem?_map, List.mem_zipIdx_iff_getElem?.mp he, Option.map_some]
  obtain ⟨hlt, hget⟩ := List.getElem?_eq_some_iff.mp hname
  have hmem : entry.1.name ∈ stub.names := List.mem_of_getElem? hname
  refine ⟨hmem, ?_⟩
  rw [entry_of_mem hmem, ← hget, h.idxOf_getElem entry.2 hlt]

/-- A stub reads right exactly when its parameters have names that differ from one another, and that the body does not use for
something else. -/
theorem readsRight_iff (h : stub.receiver.IsApart) :
    stub.ReadsRight ↔ stub.names.Nodup ∧ ∀ name ∈ stub.ownNames, name ∉ stub.names := by
  rw [Stub.ReadsRight, runs_bodyCode h, fits_entry_iff h]
  constructor
  · rintro ⟨hnodup, hfree, harguments⟩
    refine ⟨(List.nodup_append.mp hnodup).2.1, fun name hm hn => ?_⟩
    rcases List.mem_append.mp hm with hm | hm
    · rcases mem_variables.mp hm with rfl | rfl | ⟨rfl, tag, hreceiver⟩ | ⟨rfl, hvoid⟩
      · exact hfree _ List.mem_cons_self hn
      · exact hfree _ (List.mem_append_right _ (List.mem_append_left _ (by decide))) hn
      · have hself : "self" ∈ stub.receiver.names := mem_receiver_names.mpr ⟨rfl, tag, hreceiver⟩
        exact hfree _ (List.mem_cons_of_mem _ (List.mem_append_left _ hself)) hn
      · -- the holder of the result is made before the arguments are read
        obtain ⟨parameter, hp, hname⟩ := List.mem_map.mp hn
        obtain ⟨index, hindex⟩ := List.mem_iff_getElem?.mp hp
        have hread := harguments (parameter, index) (List.mem_zipIdx_iff_getElem?.mpr hindex)
        rw [hname, withResult_ret hvoid] at hread
        nomatch hread
    · exact hfree name (List.mem_append_right _ hm) hn
  · rintro ⟨hnodup, hfree⟩
    have hvariable : ∀ name ∈ stub.variables, name ∉ stub.names := fun name hm => hfree name (List.mem_append_left _ hm)
    have hreceiver : ∀ name ∈ stub.receiver.names, name ∉ stub.names := fun name hm =>
      hvariable name (List.mem_append_left _ (List.mem_append_right _ hm))
    refine ⟨List.nodup_append.mpr ⟨?_, hnodup, ?_⟩, fun name hm => ?_, fun entry he => ?_⟩
    · cases stub.receiver with
      | object tag => exact List.nodup_singleton _
      | singleton cls holder => exact List.nodup_nil
    · rintro name hm other ho rfl
      exact hreceiver name hm ho
    · rcases List.mem_cons.mp hm with rfl | hm
      · exact hvariable _ (mem_variables.mpr (Or.inl rfl))
      · exact (List.mem_append.mp hm).elim (hreceiver name) fun hm => hfree name (List.mem_append_right _ hm)
    · obtain ⟨hmem, hentry⟩ := entry_of_mem_zipIdx hnodup he
      cases hvoid : stub.isVoid with
      | true => rw [Stub.withResult, hvoid, if_pos rfl, hentry]
      | false =>
        rw [withResult_of_ne, hentry]
        intro hret
        exact hvariable "ret" (mem_variables.mpr (Or.inr (Or.inr (Or.inr ⟨rfl, hvoid⟩)))) (hret ▸ hmem)

end Names

/-! ## Names of the host -/

/-- A name that only the host name of the same text leads to. -/
def IsPlain (name : String) : Prop := Naming.isReserved name = false ∧ ∀ word ∈ Naming.reservedWords, name ≠ "_" ++ word

instance (name : String) : Decidable (IsPlain name) := inferInstanceAs (Decidable (_ ∧ _))

/-- Names of which no reserved word becomes another one. -/
def EscapesApart (names : List String) : Prop := ∀ word ∈ names, Naming.isReserved word = true → "_" ++ word ∉ names

instance (names : List String) : Decidable (EscapesApart names) := inferInstanceAs (Decidable (∀ word ∈ names, _))

/-- A stub has no return value when its type is the builtin one for that, and only then. -/
theorem Stub.isVoid_eq_false_iff {stub : Stub} : stub.isVoid = false ↔ ∀ b, stub.result = .builtin b → b.kind ≠ .void := by
  rw [Stub.isVoid]
  cases stub.result with
  | builtin b => simp [ResolvedType.isVoid, BuiltinKind.isVoid]
  | enumeration type => exact iff_of_true rfl fun b h => nomatch h
  | object cls => exact iff_of_true rfl fun b h => nomatch h

/-- What the names of the parameters are asked for: they differ from one another, from the receiver, and from the names of the body
for the handle of the method, the interned names and the result. -/
structure Stub.Hygienic (stub : Stub) : Prop where
  nodup : stub.names.Nodup
  receiver : ∀ tag, stub.receiver = .object tag → "self" ∉ stub.names
  methodHandle : "method_bind" ∉ stub.names
  interned : "string_names" ∉ stub.names
  result : (∀ b, stub.result = .builtin b → b.kind ≠ .void) → "ret" ∉ stub.names

section HostNames

variable {names : List String}

theorem mem_reservedWords_of_isReserved {name : String} (h : Naming.isReserved name = true) : name ∈ Naming.reservedWords :=
  List.contains_iff_mem.mp h

/-- What a reserved word becomes is not reserved. -/
theorem isReserved_escaped {word : String} (h : Naming.isReserved word = true) : Naming.isReserved ("_" ++ word) = false := by
  have hall : ∀ word ∈ Naming.reservedWords, Naming.isReserved ("_" ++ word) = false := by decide
  exact hall word (mem_reservedWords_of_isReserved h)

theorem identifier_of_isReserved {word : String} (h : Naming.isReserved word = true) : Naming.identifier word = "_" ++ word := if_pos h

theorem identifier_of_not_isReserved {name : String} (h : Naming.isReserved name = false) : Naming.identifier name = name :=
  if_neg (Bool.eq_false_iff.mp h)

theorem identifier_eq_iff {name plain : String} (h : IsPlain plain) : Naming.identifier name = plain ↔ name = plain := by
  unfold Naming.identifier
  split
  · rename_i hreserved
    refine iff_of_false (fun heq => ?_) ?_
    · exact h.2 name (mem_reservedWords_of_isReserved hreserved) heq.symm
    · rintro rfl
      exact Bool.false_ne_true (h.1.symm.trans hreserved)
  · exact Iff.rfl

/-- A plain name is that of a parameter when it is one of the host. -/
theorem mem_map_identifier {name : String} (h : IsPlain name) : name ∈ names.map Naming.identifier ↔ name ∈ names := by
  simp only [List.mem_map, identifier_eq_iff h, exists_eq_right]

/-- Names that differ stay different unless one of them is what another one becomes. -/
theorem nodup_map_identifier (h : names.Nodup) : (names.map Naming.identifier).Nodup ↔ EscapesApart names := by
  constructor
  · intro hnodup word hw hreserved hescaped
    have hsame : Naming.identifier ("_" ++ word) = Naming.identifier word := by
      rw [identifier_of_isReserved hreserved, identifier_of_not_isReserved (isReserved_escaped hreserved)]
    have heq := List.inj_on_of_nodup_map hnodup hescaped hw hsame
    exact Bool.false_ne_true ((isReserved_escaped hreserved).symm.trans (heq ▸ hreserved))
  · intro happart
    refine h.map_on fun a ha b hb heq => ?_
    cases hra : Naming.isReserved a <;> cases hrb : Naming.isReserved b
    · rwa [identifier_of_not_isReserved hra, identifier_of_not_isReserved hrb] at heq
    · rw [identifier_of_not_isReserved hra, identifier_of_isReserved hrb] at heq
      exact absurd (heq ▸ ha) (happart b hb hrb)
    · rw [identifier_of_isReserved hra, identifier_of_not_isReserved hrb] at heq
      exact absurd (heq ▸ hb) (happart a ha hra)
    · rw [identifier_of_isReserved hra, identifier_of_isReserved hrb] at heq
      exact (String.append_right_inj _).mp heq

end HostNames

/-! ## Stubs of methods -/

section Methods

variable {stub : Stub} {names : List String}

theorem isPlain_of_mem_variables {name : String} (h : name ∈ stub.variables) : IsPlain name := by
  rcases mem_variables.mp h with rfl | rfl | ⟨rfl, _⟩ | ⟨rfl, _⟩ <;> decide

/-- Long names are plain: reserved words are short. -/
theorem isPlain_of_length {name : String} (h : 12 < name.length) : IsPlain name := by
  have hshort : ∀ word ∈ Naming.reservedWords, word.length ≤ 12 ∧ ("_" ++ word).length ≤ 12 := by decide
  refine ⟨Bool.eq_false_iff.mpr fun hreserved => ?_, fun word hw heq => ?_⟩
  · exact absurd (hshort name (mem_reservedWords_of_isReserved hreserved)).1 (Nat.not_le.mpr h)
  · exact absurd (hshort word hw).2 (Nat.not_le.mpr (heq ▸ h))

theorem isPlain_of_mem_outerNames (h : stub.receiver.IsApart) {name : String} (hm : name ∈ stub.outerNames) : IsPlain name := by
  have hfixed : ∀ name ∈ ["C_NULL", "string_names", "Ref", "StringName", "Ptr", "Nothing", "getfield", "Cvoid", "setfield!"],
      IsPlain name := by decide
  by_contra hplain
  have hlength : name.length ≤ 12 := Nat.not_lt.mp fun hlong => hplain (isPlain_of_length hlong)
  exact not_mem_outerNames h hlength (fun hin => hplain (hfixed name hin)) hm

theorem hygienic_iff_free : stub.Hygienic ↔ stub.names.Nodup ∧ ∀ name ∈ stub.variables, name ∉ stub.names := by
  simp only [mem_variables]
  constructor
  · rintro ⟨hnodup, hreceiver, hbind, hinterned, hresult⟩
    refine ⟨hnodup, ?_⟩
    rintro name (rfl | rfl | ⟨rfl, tag, htag⟩ | ⟨rfl, hvoid⟩)
    · exact hbind
    · exact hinterned
    · exact hreceiver tag htag
    · exact hresult (Stub.isVoid_eq_false_iff.mp hvoid)
  · rintro ⟨hnodup, hfree⟩
    exact ⟨hnodup, fun tag htag => hfree _ (Or.inr (Or.inr (Or.inl ⟨rfl, tag, htag⟩))), hfree _ (Or.inl rfl),
      hfree _ (Or.inr (Or.inl rfl)), fun hvoid => hfree _ (Or.inr (Or.inr (Or.inr ⟨rfl, Stub.isVoid_eq_false_iff.mpr hvoid⟩)))⟩

/-- For host names that differ, a stub is hygienic exactly when no host name is what a reserved one becomes, and none is one of the
variables that it may not hide. -/
theorem hygienic_iff (hnames : stub.names = names.map Naming.identifier) (hnodup : names.Nodup) :
    stub.Hygienic ↔ EscapesApart names ∧ ∀ name ∈ stub.variables, name ∉ names := by
  rw [hygienic_iff_free, hnames, nodup_map_identifier hnodup]
  exact and_congr_right fun _ => forall₂_congr fun name hm => not_congr (mem_map_identifier (isPlain_of_mem_variables hm))

/-- For host names that differ, a stub reads right exactly when no host name is what a reserved one becomes, and none is one of those
that the body uses for something else. -/
theorem readsRight_iff_hostNames (h : stub.receiver.IsApart) (hnames : stub.names = names.map Naming.identifier) (hnodup : names.Nodup) :
    stub.ReadsRight ↔ EscapesApart names ∧ ∀ name ∈ stub.ownNames, name ∉ names := by
  have hplain : ∀ name ∈ stub.ownNames, IsPlain name := fun name hm =>
    (List.mem_append.mp hm).elim isPlain_of_mem_variables (isPlain_of_mem_outerNames h)
  rw [readsRight_iff h, hnames, nodup_map_identifier hnodup]
  exact and_congr_right fun _ => forall₂_congr fun name hm => not_congr (mem_map_identifier (hplain name hm))

end Methods

end JuliaStubs.Source
