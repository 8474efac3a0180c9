import JuliaStubs.Source.Dispatch

/-!
# Branches of a dispatch in its text

A dispatch is written as two functions, for reading and for assigning (`writtenIn_lines`). Each is a chain of tests for the name of a
property, with the call of an accessor under each test (`chooses_dispatchBody`).
-/

namespace JuliaStubs.Source

/-- The arguments that the branch of an accessor passes after the object: the index that there is, and then the values. -/
def Accessor.passed (accessor : Accessor) (values : List String) : List String := accessor.index.toList ++ values

/-- The call of an accessor on an object. -/
def Accessor.call (accessor : Accessor) (values : List String) : String :=
  accessor.routine ++ "(" ++ ", ".intercalate ("object" :: accessor.passed values) ++ ")"

/-- Lines that choose among accessors by the name of a property. Each accessor has two, its test and what is done for it; the other
names come last. -/
structure Chooses (accessors : List Accessor) (act : Accessor → String) (otherwise : String) (lines : List String) : Prop where
  nothing : accessors = [] → lines = ["\t" ++ otherwise]
  branch : ∀ (k : Nat) (h : k < accessors.length),
    lines[2 * k]? = some ("\t" ++ ((if k = 0 then "if" else "elseif") ++ " property == :" ++ accessors[k].property)) ∧
      lines[2 * k + 1]? = some ("\t\t" ++ act accessors[k])
  others : accessors ≠ [] → lines.drop (2 * accessors.length) = ["\telse", "\t\t" ++ otherwise, "\tend"]

/-- Lines with the two functions of a dispatch. -/
structure Dispatch.WrittenIn (d : Dispatch) (lines : List String) : Prop where
  getters : ∃ body, ["function Base.getproperty(object::" ++ d.tag ++ ", property::Symbol)"] ++ body ++ ["end"] <:+: lines ∧
    Chooses d.getters (fun accessor => "return " ++ accessor.call []) "return getfield(object, property)" body
  setters : ∃ body, ["function Base.setproperty!(object::" ++ d.tag ++ ", property::Symbol, value)"] ++ body ++ ["end"] <:+: lines ∧
    Chooses d.setters (fun accessor => accessor.call ["value"]) "setfield!(object, property, value)" body

/-! ## Chains -/

theorem length_branchLines (keyword : String) (act : Accessor → String) (accessors : List Accessor) :
    (branchLines keyword act accessors).length = 2 * accessors.length := by
  induction accessors generalizing keyword with
  | nil => rfl
  | cons accessor rest ih =>
    rw [branchLines, List.length_cons, List.length_cons, ih, List.length_cons]
    omega

/-- The keyword opens the first branch, whatever it is; each of the others has the keyword of a further one. -/
theorem getElem?_branchLines (keyword : String) (act : Accessor → String) (accessors : List Accessor) :
    ∀ (k : Nat) (h : k < accessors.length),
      (branchLines keyword act accessors)[2 * k]? =
          some ((if k = 0 then keyword else "elseif") ++ " property == :" ++ accessors[k].property) ∧
        (branchLines keyword act accessors)[2 * k + 1]? = some (indented (act accessors[k])) := by
  induction accessors generalizing keyword with
  | nil => exact fun k h => absurd h (Nat.not_lt_zero k)
  | cons accessor rest ih =>
    intro k h
    rw [branchLines]
    cases k with
    | zero => exact ⟨rfl, rfl⟩
    | succ k =>
      obtain ⟨htest, hact⟩ := ih "elseif" k (Nat.lt_of_succ_lt_succ h)
      rw [show 2 * (k + 1) = 2 * k + 1 + 1 by omega]
      simp only [List.getElem?_cons_succ, List.getElem_cons_succ, Nat.add_eq_zero_iff, Nat.one_ne_zero, and_false, if_false]
      rw [ite_self] at htest
      exact ⟨htest, hact⟩

theorem indented_indented (line : String) : indented (indented line) = "\t\t" ++ line := by
  rw [indented, indented, ← String.append_assoc]
  rfl

theorem chooses_dispatchBody (act : Accessor → String) (otherwise : String) (accessors : List Accessor) :
    Chooses accessors act otherwise ((dispatchBody act otherwise accessors).map indented) := by
  cases accessors with
  | nil =>
    exact ⟨fun _ => rfl, fun k h => absurd h (Nat.not_lt_zero k), fun h => absurd rfl h⟩
  | cons first rest =>
    have hlength := length_branchLines "if" act (first :: rest)
    have hbody : (dispatchBody act otherwise (first :: rest)).map indented =
        (branchLines "if" act (first :: rest)).map indented ++ ["\telse", indented (indented otherwise), "\tend"] := by
      rw [dispatchBody, List.isEmpty_cons, if_neg Bool.false_ne_true, List.map_append]
      rfl
    rw [hbody]
    refine ⟨fun h => absurd h (List.cons_ne_nil _ _), fun k h => ?_, fun _ => ?_⟩
    · obtain ⟨htest, hact⟩ := getElem?_branchLines "if" act (first :: rest) k h
      rw [List.getElem?_append_left (by rw [List.length_map]; omega), List.getElem?_append_left (by rw [List.length_map]; omega),
        List.getElem?_map, List.getElem?_map, htest, hact, Option.map_some, Option.map_some, indented_indented]
      exact ⟨rfl, rfl⟩
    · rw [List.drop_append_of_le_length (by rw [List.length_map]; omega), List.drop_of_length_le (by rw [List.length_map]; omega),
        indented_indented]
      rfl

/-! ## Functions -/

theorem read_eq (accessor : Accessor) : accessor.read = "return " ++ accessor.call [] := by
  rw [Accessor.read, Accessor.call, Accessor.passed, List.append_nil, Accessor.callArguments]
  simp only [String.append_assoc]

theorem assign_eq (accessor : Accessor) : accessor.assign = accessor.call ["value"] := rfl

theorem writtenIn_lines (d : Dispatch) : d.WrittenIn d.lines where
  getters := by
    refine ⟨(dispatchBody Accessor.read "return getfield(object, property)" d.getters).map indented, ?_, ?_⟩
    · exact ⟨[], "" :: ("function Base.setproperty!(object::" ++ d.tag ++ ", property::Symbol, value)") ::
        (dispatchBody Accessor.assign "setfield!(object, property, value)" d.setters).map indented ++ ["end", ""],
        by simp only [Dispatch.lines, List.append_assoc, List.cons_append, List.nil_append]⟩
    · rw [← funext read_eq]
      exact chooses_dispatchBody Accessor.read _ _
  setters := by
    refine ⟨(dispatchBody Accessor.assign "setfield!(object, property, value)" d.setters).map indented, ?_, ?_⟩
    · exact ⟨["function Base.getproperty(object::" ++ d.tag ++ ", property::Symbol)"] ++
        (dispatchBody Accessor.read "return getfield(object, property)" d.getters).map indented ++ ["end", ""], [""],
        by simp only [Dispatch.lines, List.append_assoc, List.cons_append, List.nil_append]⟩
    · rw [← funext assign_eq]
      exact chooses_dispatchBody Accessor.assign _ _

theorem Dispatch.WrittenIn.mono {d : Dispatch} {lines others : List String} (h : d.WrittenIn lines) (hl : lines <:+: others) :
    d.WrittenIn others where
  getters := h.getters.imp fun _ => And.imp_left fun hi => hi.trans hl
  setters := h.setters.imp fun _ => And.imp_left fun hi => hi.trans hl

end JuliaStubs.Source
