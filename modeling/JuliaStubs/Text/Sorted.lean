/-!
# Sorted names

The order of names is that of their code points, which is also that of their bytes.
-/

namespace JuliaStubs.Text

/-- Names in ascending order. -/
def sortNames (names : List String) : List String := names.mergeSort fun a b => a ≤ b

end JuliaStubs.Text
