import JuliaStubs.Proofs.Dump.Agreement

/-!
# Places of methods in a dump

A dump with a place for one method: two dumps that are the same except for the entry of a method are the same place with two entries.
All questions besides those about methods are answered by the place alone (`agree`), and so is the class of a name, unless it is the
class of the place (`class?_hostWith`).
-/

namespace JuliaStubs.Dump

/-- A place for a method in a class of a dump: everything that the dump reports besides this method. -/
structure MethodPlace where
  before : List ClassInfo
  /-- The class; its methods are the two lists that follow, with the entry of the place between them. -/
  cls : ClassInfo
  preceding : List MethodInfo
  following : List MethodInfo
  after : List ClassInfo
  globalConstants : List GlobalConstantInfo

namespace MethodPlace

/-- The methods of the class with an entry in the place. -/
def methodsWith (place : MethodPlace) (entry : MethodInfo) : List MethodInfo := place.preceding ++ entry :: place.following

/-- The class with an entry in the place. -/
def classWith (place : MethodPlace) (entry : MethodInfo) : ClassInfo := { place.cls with methods := place.methodsWith entry }

/-- The dump with an entry in the place. -/
def hostWith (place : MethodPlace) (entry : MethodInfo) : Host :=
  ⟨place.before ++ place.classWith entry :: place.after, place.globalConstants⟩

/-- Every method of a dump has its place. -/
theorem exists_of_mem {host : Host} {cls : ClassInfo} {entry : MethodInfo} (hc : cls ∈ host.classes) (he : entry ∈ cls.methods) :
    ∃ place : MethodPlace, place.hostWith entry = host ∧ place.cls.name = cls.name := by
  obtain ⟨before, after, hclasses⟩ := List.append_of_mem hc
  obtain ⟨preceding, following, hmethods⟩ := List.append_of_mem he
  refine ⟨⟨before, cls, preceding, following, after, host.globalConstants⟩, ?_, rfl⟩
  simp only [hostWith, classWith, methodsWith, ← hmethods, ← hclasses]

variable (place : MethodPlace) (entry entry' : MethodInfo)

theorem agree : (place.hostWith entry).Agree (place.hostWith entry') := by
  refine .of_eq ?_ rfl
  simp only [hostWith, List.map_append, List.map_cons]
  rfl

/-- The class of a name does not depend on the entry, or it is the class of the place. -/
theorem class?_hostWith (name : String) :
    (place.hostWith entry').class? name = (place.hostWith entry).class? name ∨
      name = place.cls.name ∧ ∀ e, (place.hostWith e).class? name = some (place.classWith e) := by
  have hsearch : ∀ e, (place.hostWith e).class? name = (place.after.reverse.find? fun cls => cls.name == name).or
      (if place.cls.name = name then some (place.classWith e) else place.before.reverse.find? fun cls => cls.name == name) := by
    intro e
    have hname : ((place.classWith e).name == name) = decide (place.cls.name = name) := rfl
    simp only [Host.class?, hostWith, List.reverse_append, List.reverse_cons, List.append_assoc, List.singleton_append,
      List.find?_append, List.find?_cons, hname]
    by_cases hn : place.cls.name = name <;> simp [hn]
  by_cases hn : place.cls.name = name
  · cases ha : place.after.reverse.find? fun cls => cls.name == name with
    | none => exact Or.inr ⟨hn.symm, fun e => by rw [hsearch, ha, if_pos hn, Option.none_or]⟩
    | some cls => exact Or.inl (by rw [hsearch, hsearch, ha, Option.some_or, Option.some_or])
  · exact Or.inl (by rw [hsearch, hsearch, if_neg hn, if_neg hn])

end MethodPlace

end JuliaStubs.Dump
