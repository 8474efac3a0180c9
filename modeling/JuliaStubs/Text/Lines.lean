import JuliaStubs.Text.Blank

/-!
# Lines and common indentation

A text is cut into lines at its line feeds; `dedent` removes the indentation that all visible lines share. Indentation is counted in
spaces and tabs, each of one byte, so removing it from a visible line never cuts through a character (`dropBytes?_indent`).
-/

namespace JuliaStubs.Text

/-- The lines of a text: each ends at a line feed, which is not part of it, nor is one carriage return right before it. What
follows the last line feed is a line unless it is empty. -/
def lines : List Char → List (List Char)
  | [] => []
  | '\r' :: '\n' :: rest => [] :: lines rest
  | '\n' :: rest => [] :: lines rest
  | c :: rest =>
    match lines rest with
    | [] => [[c]]
    | line :: more => (c :: line) :: more

/-- The lines with a line feed between each two. -/
def joinLines (ls : List (List Char)) : List Char := ['\n'].intercalate ls

/-- The number of spaces and tabs that a line starts with. -/
def indent (line : List Char) : Nat := (line.takeWhile fun c => c == ' ' || c == '\t').length

/-- The least indentation of the lines that are not blank, zero if there is none. -/
def commonIndent (ls : List (List Char)) : Nat :=
  ((ls.filter fun line => !isBlankText line).map indent).min?.getD 0

/-- The text after its first `n` bytes; none when it is shorter or byte `n` is inside a character. -/
def dropBytes? : Nat → List Char → Option (List Char)
  | 0, s => some s
  | _ + 1, [] => none
  | n + 1, c :: rest => if c.utf8Size ≤ n + 1 then dropBytes? (n + 1 - c.utf8Size) rest else none

/-- A line without `n` bytes of indentation; a blank line that has no such cut loses its blanks. -/
def dedentLine (n : Nat) (line : List Char) : List Char := (dropBytes? n line).getD (trimStart line)

/-- The text without the indentation that its visible lines share. -/
def dedent (s : List Char) : List Char :=
  let ls := lines s
  joinLines (ls.map (dedentLine (commonIndent ls)))

/-- Cutting a line inside its indentation always succeeds. -/
theorem dropBytes?_indent {n : Nat} {line : List Char} (h : n ≤ indent line) : dropBytes? n line = some (line.drop n) := by
  induction line generalizing n with
  | nil =>
    have : n = 0 := by simpa [indent] using h
    subst this
    rfl
  | cons c rest ih =>
    cases n with
    | zero => rfl
    | succ n =>
      by_cases hc : (c == ' ' || c == '\t') = true
      · have hn : n ≤ indent rest := by
          simp only [indent, List.takeWhile_cons, hc, if_true, List.length_cons] at h
          exact Nat.le_of_succ_le_succ h
        have hsize : c.utf8Size = 1 := by
          simp only [Bool.or_eq_true, beq_iff_eq] at hc
          rcases hc with rfl | rfl <;> rfl
        simp [dropBytes?, hsize, ih hn]
      · simp [indent, hc] at h

end JuliaStubs.Text
