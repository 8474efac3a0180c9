import JuliaStubs.Proofs.Catalog.Signature
import JuliaStubs.Proofs.Dump.Lookups

/-!
# Optional arguments

The arguments with a default are the last ones of a method that has its own binding (`trailing_methodOf`). That is why the number of
arguments without one tells how many a call must pass, and why those that it leaves out have defaults (`accepts_iff`).
-/

namespace JuliaStubs

open Catalog Dump Report

/-- The place of a default is counted from the first argument that has one, and is a place of the list of values. -/
theorem Dump.Binding.place_of_hasDefault {binding : Binding} {index : Nat} (h : binding.hasDefault index = true) :
    binding.firstDefaulted ≤ index ∧ index - binding.firstDefaulted < binding.defaults.length := by
  rw [Binding.hasDefault, Bool.and_eq_true, decide_eq_true_eq, decide_eq_true_eq] at h
  unfold Binding.firstDefaulted at h ⊢
  omega

/-- The default that a method with `n` arguments and `k` values reports for an argument: the values belong to the last `k` arguments,
and of more values than arguments the first ones are taken, since `n - k` stops at zero. -/
theorem Dump.MethodInfo.default?_eq {info : MethodInfo} (hvirtual : info.flags.isVirtual = false) {index : Nat}
    (hi : index < info.arguments.length) :
    info.default? index =
      if info.arguments.length - info.defaults.length ≤ index then
        info.defaults[index - (info.arguments.length - info.defaults.length)]?
      else none := by
  rw [MethodInfo.default?, MethodInfo.binding?, hvirtual]
  simp [Binding.default?, Binding.hasDefault, Binding.firstDefaulted, hi]

namespace Catalog

/-- No argument without a default follows one that has a default. -/
def Trailing (arguments : List Argument) : Prop :=
  arguments.Pairwise fun argument later => argument.default.isSome = true → later.default.isSome = true

section Own

variable {r : Registry} {realIsDouble : Bool} {host : Host} {doc : Option ClassDoc} {cls : String} {info : MethodInfo} {method : Method}

theorem length_arguments_methodOf (h : methodOf r realIsDouble host doc cls info = .ok method) :
    method.arguments.length = info.arguments.length := by
  obtain ⟨_, _, _, harguments⟩ := methodOf_ok h
  rw [← harguments.length_eq, List.length_zipIdx]

/-- An argument of a method with its own binding has the default that the method reports for its place. -/
theorem default_methodOf (hbinding : host.binding? cls info.name = info.binding?)
    (h : methodOf r realIsDouble host doc cls info = .ok method) {index : Nat} {argument : Argument}
    (ha : method.arguments[index]? = some argument) :
    argument.default.map Default.value =
      if info.arguments.length - info.defaults.length ≤ index then
        info.defaults[index - (info.arguments.length - info.defaults.length)]?
      else none := by
  obtain ⟨_, _, _, harguments⟩ := methodOf_ok h
  obtain ⟨hlt, rfl⟩ := List.getElem?_eq_some_iff.mp ha
  have hi : index < info.arguments.length := by rwa [← length_arguments_methodOf h]
  have hlength : index < info.arguments.zipIdx.length := by rwa [List.length_zipIdx]
  have hvalue := (harguments.get hlength hlt).2.2
  simp only [List.get_eq_getElem, List.getElem_zipIdx, hbinding, Nat.zero_add] at hvalue
  have hvirtual : info.flags.isVirtual = false := ((exists_methodOf_iff hbinding).mp ⟨method, h⟩).notVirtual
  exact hvalue.trans (MethodInfo.default?_eq hvirtual hi)

/-- The arguments with a default are those from a place on that the numbers of arguments and of values fix. -/
theorem isSome_default_methodOf (hbinding : host.binding? cls info.name = info.binding?)
    (h : methodOf r realIsDouble host doc cls info = .ok method) {index : Nat} {argument : Argument}
    (ha : method.arguments[index]? = some argument) :
    argument.default.isSome = true ↔ info.arguments.length - info.defaults.length ≤ index := by
  have hi : index < info.arguments.length := by
    rw [← length_arguments_methodOf h]
    exact (List.getElem?_eq_some_iff.mp ha).1
  rw [← Option.isSome_map (f := Default.value), default_methodOf hbinding h ha]
  by_cases hle : info.arguments.length - info.defaults.length ≤ index
  · have hplace : index - (info.arguments.length - info.defaults.length) < info.defaults.length := by omega
    rw [if_pos hle, List.getElem?_eq_getElem hplace]
    exact iff_of_true rfl hle
  · rw [if_neg hle]
    exact iff_of_false Bool.false_ne_true hle

/-- A method with its own binding has its defaults at the end. -/
theorem trailing_methodOf (hbinding : host.binding? cls info.name = info.binding?)
    (h : methodOf r realIsDouble host doc cls info = .ok method) : Trailing method.arguments := by
  refine List.pairwise_iff_getElem.mpr fun i j hi hj hij hd => ?_
  rw [isSome_default_methodOf hbinding h (List.getElem?_eq_getElem hi)] at hd
  rw [isSome_default_methodOf hbinding h (List.getElem?_eq_getElem hj)]
  exact Nat.le_trans hd (Nat.le_of_lt hij)

end Own

/-- With the defaults at the end, the arguments without one are passed when those that are not passed have one. -/
theorem required_le_iff {arguments : List Argument} (h : Trailing arguments) (passed : Nat) :
    (arguments.filter fun argument => argument.default.isNone).length ≤ passed ↔
      ∀ argument ∈ arguments.drop passed, argument.default.isSome = true := by
  induction arguments generalizing passed with
  | nil => simp
  | cons argument rest ih =>
    obtain ⟨hfirst, hrest⟩ := List.pairwise_cons.mp h
    cases hd : argument.default.isSome with
    | true =>
      have hall : ∀ later ∈ argument :: rest, later.default.isSome = true :=
        List.forall_mem_cons.mpr ⟨hd, fun later hl => hfirst later hl hd⟩
      have hnone : (argument :: rest).filter (fun later => later.default.isNone) = [] :=
        List.filter_eq_nil_iff.mpr fun later hl => by simp [Option.isSome_iff_ne_none.mp (hall later hl)]
      rw [hnone]
      exact iff_of_true (Nat.zero_le _) fun later hl => hall later (List.mem_of_mem_drop hl)
    | false =>
      have hnone : argument.default.isNone = true := by simpa using hd
      rw [List.filter_cons, if_pos hnone, List.length_cons]
      cases passed with
      | zero => exact iff_of_false (Nat.not_succ_le_zero _) fun hall => by simp [hall argument List.mem_cons_self] at hd
      | succ passed => rw [Nat.succ_le_succ_iff, ih hrest, List.drop_succ_cons]

/-- A call that leaves out optional arguments only, and passes none that the method has not, is accepted, and no other one is. -/
theorem Method.accepts_iff {method : Method} (h : Trailing method.arguments) {passed : Nat} :
    method.accepts passed = true ↔ passed ≤ method.arguments.length ∧
      ∀ argument ∈ method.arguments.drop passed, argument.default.isSome = true := by
  rw [accepts, Bool.and_eq_true, decide_eq_true_eq, decide_eq_true_eq, required, required_le_iff h]
  exact and_comm

end Catalog

end JuliaStubs
