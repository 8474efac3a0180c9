import JuliaStubs.Catalog.Signature
import JuliaStubs.Proofs.Report.Outcomes

/-!
# Admission of methods

Which reported methods become methods of the catalog (`exists_methodOf_iff`), with which signature (`methodOf_ok`) and with which
literals for the defaults (`synthesize_of_methodOf`). The reason for which another one is dropped names it (`method?_of_methodOf`).
-/

namespace JuliaStubs

open Catalog Dump Report Source

/-- The default value that a method reports for an argument. -/
def Dump.MethodInfo.default? (info : MethodInfo) (index : Nat) : Option Value :=
  info.binding?.bind fun binding => binding.default? index

/-- What a reported method needs to become a method of the catalog: types that can cross the boundary of a call, a name, an object
that it is called on, a fixed number of arguments, and literals for its defaults. -/
structure Dump.MethodInfo.Admitted (r : Registry) (realIsDouble : Bool) (info : MethodInfo) : Prop where
  types : ∀ slot ∈ info.arguments ++ [info.result], slot.kind.isBindable = true
  name : info.name ≠ ""
  notStatic : info.flags.isStatic = false
  notVirtual : info.flags.isVirtual = false
  notVararg : info.flags.isVararg = false
  defaults : ∀ index slot value, info.arguments[index]? = some slot → info.default? index = some value →
    ∃ literal, synthesize value (destination r (argumentType slot (info.width index))) realIsDouble = some literal

/-- The class and the name of the method that is dropped for a reason. -/
def Report.Drop.method? : Drop → Option (String × String)
  | .unsupportedType cls method _ | .staticMethod cls method | .virtualMethod cls method | .varargMethod cls method
  | .unsupportedDefault cls method _ _ => some (cls, method)
  | .emptyMethodName cls => some (cls, "")
  | .invalidPropertyIndex .. | .missingConstantValue .. | .unknownParent .. => none

namespace Catalog

variable {r : Registry} {realIsDouble : Bool} {host : Host} {doc : Option ClassDoc} {cls : String} {info : MethodInfo}

theorem refusal?_eq_none_iff : refusal? cls info info.binding? = none ↔
    (∀ slot ∈ info.arguments ++ [info.result], slot.kind.isBindable = true) ∧ info.name ≠ "" ∧ info.flags.isStatic = false ∧
      info.flags.isVirtual = false ∧ info.flags.isVararg = false := by
  have hstep : ∀ {c : Prop} [Decidable c] {why : Drop} {rest : Option Drop},
      (if c then some why else rest) = none ↔ ¬c ∧ rest = none := by
    intro c _ why rest
    by_cases hc : c <;> simp [hc]
  have hbinding : info.flags.isVirtual = false → info.binding?.any Binding.isVararg = info.flags.isVararg ∧
      info.binding?.any Binding.isStatic = info.flags.isStatic := by
    intro hv
    simp [MethodInfo.binding?, hv]
  unfold refusal?
  split
  · rename_i slot hs
    refine ⟨fun h => (nomatch h), fun ⟨htypes, _⟩ => ?_⟩
    exact absurd (htypes slot (List.mem_of_find?_eq_some hs)) (by simpa using List.find?_some hs)
  · rename_i hs
    have htypes : ∀ slot ∈ info.arguments ++ [info.result], slot.kind.isBindable = true := by
      simpa using List.find?_eq_none.mp hs
    simp only [hstep, and_iff_right htypes, String.isEmpty_iff, Bool.not_eq_true, and_true]
    refine and_congr_right fun _ => and_congr_right fun hstatic => and_congr_right fun hvirtual => ?_
    obtain ⟨hvararg, hbound⟩ := hbinding hvirtual
    rw [hvararg, hbound]
    exact and_iff_left hstatic

theorem method?_of_refusal? {binding : Option Binding} {why : Drop} (h : refusal? cls info binding = some why) :
    why.method? = some (cls, info.name) := by
  unfold refusal? at h
  split at h
  · obtain rfl := Option.some.inj h
    rfl
  · split at h
    · rename_i hempty
      obtain rfl := Option.some.inj h
      rw [String.isEmpty_iff.mp hempty]
      rfl
    · repeat
        split at h
        · obtain rfl := Option.some.inj h
          rfl
      nomatch h

/-- A binding tells the widths that its method does. -/
theorem slotWidth_binding? (info : MethodInfo) (index : Int) : slotWidth info info.binding? index = info.width index := by
  unfold MethodInfo.binding?
  split <;> rfl

/-! ## Arguments -/

/-- An argument has the name and the type of its slot, and the default that the binding has for it. -/
theorem argumentOf_ok {binding : Option Binding} {slot : Slot} {index : Nat} {argument : Argument}
    (h : argumentOf r realIsDouble cls info binding slot index = .ok argument) :
    argument.name = slot.name ∧ argument.type = argumentType slot (slotWidth info binding index) ∧
      argument.default.map Default.value = binding.bind fun binding => binding.default? index := by
  unfold argumentOf at h
  dsimp only at h
  split at h
  · rename_i hnone
    obtain rfl := Except.ok.inj h
    exact ⟨rfl, rfl, hnone.symm⟩
  · rename_i value hvalue
    split at h
    · obtain rfl := Except.ok.inj h
      exact ⟨rfl, rfl, hvalue.symm⟩
    · nomatch h

/-- The literal of a default is that of its value for the destination of the type. -/
theorem synthesize_of_argumentOf {binding : Option Binding} {slot : Slot} {index : Nat} {argument : Argument} {default : Default}
    (h : argumentOf r realIsDouble cls info binding slot index = .ok argument) (hd : argument.default = some default) :
    synthesize default.value (destination r argument.type) realIsDouble = some default.literal := by
  unfold argumentOf at h
  dsimp only at h
  split at h
  · obtain rfl := Except.ok.inj h
    nomatch hd
  · split at h
    · rename_i literal hliteral
      obtain rfl := Except.ok.inj h
      obtain rfl := Option.some.inj hd
      exact hliteral
    · nomatch h

theorem exists_argumentOf_iff {binding : Option Binding} {slot : Slot} {index : Nat} :
    (∃ argument, argumentOf r realIsDouble cls info binding slot index = .ok argument) ↔
      ∀ value, (binding.bind fun binding => binding.default? index) = some value →
        ∃ literal, synthesize value (destination r (argumentType slot (slotWidth info binding index))) realIsDouble =
          some literal := by
  unfold argumentOf
  dsimp only
  split
  · rename_i hnone
    exact ⟨fun _ value hv => (nomatch hnone.symm.trans hv), fun _ => ⟨_, rfl⟩⟩
  · rename_i value hvalue
    split
    · rename_i literal hliteral
      refine ⟨fun _ other ho => ?_, fun _ => ⟨_, rfl⟩⟩
      obtain rfl := Option.some.inj (hvalue.symm.trans ho)
      exact ⟨literal, hliteral⟩
    · rename_i hnone
      refine ⟨fun ⟨_, h⟩ => (nomatch h), fun h => ?_⟩
      obtain ⟨literal, hliteral⟩ := h value hvalue
      nomatch hnone.symm.trans hliteral

theorem method?_of_argumentOf {binding : Option Binding} {slot : Slot} {index : Nat} {why : Drop}
    (h : argumentOf r realIsDouble cls info binding slot index = .error why) : why.method? = some (cls, info.name) := by
  unfold argumentOf at h
  dsimp only at h
  split at h
  · nomatch h
  · split at h
    · nomatch h
    · obtain rfl := Except.error.inj h
      rfl

/-! ## Methods -/

/-- The signature of an admitted method is that of the reported one. -/
theorem methodOf_ok {method : Method} (h : methodOf r realIsDouble host doc cls info = .ok method) :
    method.name = info.name ∧ method.isBindable = true ∧
      method.result = resultType info.result (slotWidth info (host.binding? cls info.name) (-1)) ∧
      List.Forall₂ (fun (entry : Slot × Nat) argument => argument.name = entry.1.name ∧
        argument.type = argumentType entry.1 (slotWidth info (host.binding? cls info.name) entry.2) ∧
        argument.default.map Default.value = (host.binding? cls info.name).bind fun binding => binding.default? entry.2)
        info.arguments.zipIdx method.arguments := by
  unfold methodOf at h
  dsimp only at h
  split at h
  · nomatch h
  · obtain ⟨arguments, ha, hdone⟩ := bind_ok_iff.mp h
    obtain rfl := Except.ok.inj hdone
    exact ⟨rfl, rfl, rfl, (mapM_ok_iff.mp ha).imp fun _ _ hok => argumentOf_ok hok⟩

theorem doc_of_methodOf {method : Method} (h : methodOf r realIsDouble host doc cls info = .ok method) :
    method.doc = memberDoc doc ClassDoc.methods info.name := by
  unfold methodOf at h
  dsimp only at h
  split at h
  · nomatch h
  · obtain ⟨_, _, hdone⟩ := bind_ok_iff.mp h
    obtain rfl := Except.ok.inj hdone
    rfl

theorem synthesize_of_methodOf {method : Method} (h : methodOf r realIsDouble host doc cls info = .ok method) {argument : Argument}
    (ha : argument ∈ method.arguments) {default : Default} (hd : argument.default = some default) :
    synthesize default.value (destination r argument.type) realIsDouble = some default.literal := by
  unfold methodOf at h
  dsimp only at h
  split at h
  · nomatch h
  · obtain ⟨arguments, hmade, hdone⟩ := bind_ok_iff.mp h
    obtain rfl := Except.ok.inj hdone
    obtain ⟨_, hok⟩ := exists_of_forall₂ (mapM_ok_iff.mp hmade) ha
    exact synthesize_of_argumentOf hok.2 hd

/-- A reported method with its own binding becomes a method of the catalog exactly when it is admitted. -/
theorem exists_methodOf_iff (hbinding : host.binding? cls info.name = info.binding?) :
    (∃ method, methodOf r realIsDouble host doc cls info = .ok method) ↔ info.Admitted r realIsDouble := by
  have hdefaults : (∃ arguments, (info.arguments.zipIdx.mapM fun entry =>
      argumentOf r realIsDouble cls info info.binding? entry.1 entry.2) = .ok arguments) ↔
      ∀ index slot value, info.arguments[index]? = some slot → info.default? index = some value →
        ∃ literal, synthesize value (destination r (argumentType slot (info.width index))) realIsDouble = some literal := by
    simp only [exists_mapM_iff, Prod.forall, List.mem_zipIdx_iff_getElem?, exists_argumentOf_iff, slotWidth_binding?]
    exact ⟨fun h index slot value hs => h slot index hs value, fun h slot index hs value => h index slot value hs⟩
  unfold methodOf
  dsimp only
  rw [hbinding]
  split
  · rename_i why hw
    constructor
    · rintro ⟨_, h⟩
      cases h
    · intro h
      rw [refusal?_eq_none_iff.mpr ⟨h.types, h.name, h.notStatic, h.notVirtual, h.notVararg⟩] at hw
      cases hw
  · rename_i hnone
    obtain ⟨htypes, hname, hstatic, hvirtual, hvararg⟩ := refusal?_eq_none_iff.mp hnone
    constructor
    · rintro ⟨_, h⟩
      obtain ⟨arguments, ha, _⟩ := bind_ok_iff.mp h
      exact ⟨htypes, hname, hstatic, hvirtual, hvararg, hdefaults.mp ⟨arguments, ha⟩⟩
    · intro h
      obtain ⟨arguments, ha⟩ := hdefaults.mpr h.defaults
      exact ⟨_, bind_ok_iff.mpr ⟨arguments, ha, rfl⟩⟩

/-- The reason for which a method is dropped names it. -/
theorem method?_of_methodOf {why : Drop} (h : methodOf r realIsDouble host doc cls info = .error why) :
    why.method? = some (cls, info.name) := by
  unfold methodOf at h
  dsimp only at h
  split at h
  · rename_i refusal hw
    obtain rfl := Except.error.inj h
    exact method?_of_refusal? hw
  · rcases bind_error_iff.mp h with hfail | ⟨arguments, _, hdone⟩
    · obtain ⟨_, _, hstep⟩ := exists_of_mapM_error hfail
      exact method?_of_argumentOf hstep
    · nomatch hdone

end Catalog

end JuliaStubs
