import JuliaStubs.Text.Lines
import Mathlib.Data.List.Forall2
import Mathlib.Data.List.TakeWhile
import Mathlib.Data.String.Basic
import Mathlib.Order.Bounds.Defs

/-!
# Removing the common indentation

What `dedent` takes from a text. Indentation is counted in spaces and tabs, but blank lines are told by all blanks of Unicode and lines
are cut by bytes. So a line that is not blank loses exactly the indentation that all such lines have, and a blank line loses blanks only,
where the cut would be inside of one of them all of them (`losesIndent_dedentLine`). The line breaks become line feeds, and nothing else
happens to the text (`isDedented_dedent`).
-/

namespace JuliaStubs.Text

/-- The characters of a text that are not blank. -/
def visible (s : List Char) : List Char := s.filter fun c => !isBlank c

/-- A text and its lines. A line feed ends a line, and so does a carriage return with a line feed; what is behind the last of them is a
line unless it is empty. -/
inductive IsLines : List Char → List (List Char) → Prop where
  | nil : IsLines [] []
  | last {line : List Char} : line ≠ [] → '\n' ∉ line → IsLines line [line]
  | lineFeed {line rest : List Char} {ls : List (List Char)} : '\n' ∉ line → line.getLast? ≠ some '\r' → IsLines rest ls →
      IsLines (line ++ '\n' :: rest) (line :: ls)
  | carriageReturn {line rest : List Char} {ls : List (List Char)} : '\n' ∉ line → IsLines rest ls →
      IsLines (line ++ '\r' :: '\n' :: rest) (line :: ls)

/-- A line and what is left of it without `n` bytes of indentation. -/
structure LosesIndent (n : Nat) (line rest : List Char) : Prop where
  /-- The cut is between two characters. Where it would be inside of one or behind the line, the line is blank and nothing is left. -/
  cut : (∃ front, line = front ++ rest ∧ String.utf8Len front = n) ∨
    isBlankText line = true ∧ rest = [] ∧ ∀ front, front <+: line → String.utf8Len front ≠ n
  /-- A line that is not blank loses `n` spaces and tabs. -/
  indentation : isBlankText line = false → ∃ front, line = front ++ rest ∧ front.length = n ∧ ∀ c ∈ front, c = ' ' ∨ c = '\t'
  /-- What it is indented by beyond that it keeps. -/
  relative : isBlankText line = false → indent line = n + indent rest
  content : visible rest = visible line

/-- A text and what is left of it without the `n` spaces and tabs by which all of its lines are indented that are not blank. -/
structure IsDedented (n : Nat) (s t : List Char) : Prop where
  isLines : IsLines s (lines s)
  least : (∃ line ∈ lines s, isBlankText line = false) →
    IsLeast {k | ∃ line ∈ lines s, isBlankText line = false ∧ indent line = k} n
  losesIndent : s ≠ [] → List.Forall₂ (LosesIndent n) (lines s) (t.splitOn '\n')
  /-- One of the lines that are not blank is left without indentation. -/
  flush : (∃ line ∈ lines s, isBlankText line = false) →
    ∃ rest ∈ t.splitOn '\n', isBlankText rest = false ∧ ∀ c ∈ rest.head?, c ≠ ' ' ∧ c ≠ '\t'
  content : visible t = visible s

/-! ## Cuts -/

/-- A cut succeeds where so many bytes are the first characters of a text. -/
theorem dropBytes?_eq_some_iff {n : Nat} {s rest : List Char} :
    dropBytes? n s = some rest ↔ ∃ front, s = front ++ rest ∧ String.utf8Len front = n := by
  fun_induction dropBytes? n s with
  | case1 s =>
    constructor
    · rintro ⟨⟩
      exact ⟨[], rfl, rfl⟩
    · rintro ⟨front, rfl, hfront⟩
      rw [String.utf8Len_eq_zero.mp hfront, List.nil_append]
  | case2 n =>
    refine ⟨nofun, ?_⟩
    rintro ⟨front, hnil, hfront⟩
    rw [(List.append_eq_nil_iff.mp hnil.symm).1] at hfront
    nomatch hfront
  | case3 n c s hsize ih =>
    rw [ih]
    constructor
    · rintro ⟨front, rfl, hfront⟩
      refine ⟨c :: front, rfl, ?_⟩
      rw [String.utf8Len_cons, hfront, Nat.sub_add_cancel hsize]
    · rintro ⟨front, hs, hfront⟩
      cases front with
      | nil => nomatch hfront
      | cons d front =>
        obtain ⟨rfl, rfl⟩ := List.cons.inj hs
        exact ⟨front, rfl, Nat.eq_sub_of_add_eq hfront⟩
  | case4 n c s hsize =>
    refine ⟨nofun, ?_⟩
    rintro ⟨front, hs, hfront⟩
    cases front with
    | nil => nomatch hfront
    | cons d front =>
      obtain ⟨rfl, rfl⟩ := List.cons.inj hs
      exact absurd ((Nat.le_add_left _ _).trans_eq hfront) hsize

/-! ## Lines -/

theorem isBlankText_iff {s : List Char} : isBlankText s = true ↔ visible s = [] := by
  simp [isBlankText, visible, List.filter_eq_nil_iff]

theorem visible_append (s t : List Char) : visible (s ++ t) = visible s ++ visible t := List.filter_append ..

theorem visible_cons (c : Char) (s : List Char) : visible (c :: s) = visible [c] ++ visible s := visible_append [c] s

section Indentation

variable {front : List Char} (h : ∀ c ∈ front, c = ' ' ∨ c = '\t')

include h

theorem visible_indentation : visible front = [] :=
  List.filter_eq_nil_iff.mpr fun c hc => by rcases h c hc with rfl | rfl <;> decide

/-- Spaces and tabs take one byte each. -/
theorem utf8Len_indentation : String.utf8Len front = front.length := by
  induction front with
  | nil => rfl
  | cons c front ih =>
    rw [String.utf8Len_cons, ih fun d hd => h d (List.mem_cons_of_mem _ hd), List.length_cons]
    rcases h c List.mem_cons_self with rfl | rfl <;> rfl

theorem indent_append (rest : List Char) : indent (front ++ rest) = front.length + indent rest := by
  rw [indent, List.takeWhile_append_of_pos, List.length_append, indent]
  simpa using h

end Indentation

theorem head_of_indent_eq_zero {line : List Char} (h : indent line = 0) : ∀ c ∈ line.head?, c ≠ ' ' ∧ c ≠ '\t' := by
  rintro c hc
  obtain ⟨rest, rfl⟩ := List.head?_eq_some_iff.mp hc
  constructor <;> rintro rfl <;> nomatch h

/-- The first characters of a line, as many as its indentation at most, are spaces and tabs. -/
theorem mem_take_of_le_indent {n : Nat} {line : List Char} (h : n ≤ indent line) {c : Char} (hc : c ∈ line.take n) :
    c = ' ' ∨ c = '\t' := by
  have htake : line.take n = (line.takeWhile fun c => c == ' ' || c == '\t').take n := by
    conv_lhs => rw [← List.takeWhile_append_dropWhile (l := line) (p := fun c => c == ' ' || c == '\t')]
    rw [List.take_append_of_le_length h]
  rw [htake] at hc
  simpa using List.mem_takeWhile_imp (List.mem_of_mem_take hc)

theorem mem_of_mem_dedentLine {n : Nat} {line : List Char} {c : Char} (h : c ∈ dedentLine n line) : c ∈ line := by
  rw [dedentLine] at h
  cases hcut : dropBytes? n line with
  | none =>
    rw [hcut] at h
    exact (List.dropWhile_suffix _).subset h
  | some rest =>
    rw [hcut] at h
    obtain ⟨front, rfl, -⟩ := dropBytes?_eq_some_iff.mp hcut
    exact List.mem_append_right _ h

/-- A line that is blank, or indented by as much, loses this much indentation. -/
theorem losesIndent_dedentLine {n : Nat} {line : List Char} (h : isBlankText line = false → n ≤ indent line) :
    LosesIndent n line (dedentLine n line) := by
  cases hblank : isBlankText line with
  | false =>
    have hle := h hblank
    have hfront := fun c hc => @mem_take_of_le_indent n line hle c hc
    have hlength : (line.take n).length = n :=
      List.length_take_of_le (hle.trans (List.takeWhile_sublist _).length_le)
    have hline : line = line.take n ++ dedentLine n line := by
      rw [dedentLine, dropBytes?_indent hle, Option.getD_some, List.take_append_drop]
    have hbytes : String.utf8Len (line.take n) = n := (utf8Len_indentation hfront).trans hlength
    refine ⟨.inl ⟨_, hline, hbytes⟩, fun _ => ⟨_, hline, hlength, hfront⟩, fun _ => ?_, ?_⟩
    · conv_lhs => rw [hline, indent_append hfront, hlength]
    · conv_rhs => rw [hline, visible_append, visible_indentation hfront, List.nil_append]
  | true =>
    have hvisible := isBlankText_iff.mp hblank
    have hfalse : ¬isBlankText line = false := ne_false_of_eq_true hblank
    have hcontent : visible (dedentLine n line) = visible line := by
      rw [hvisible, ← isBlankText_iff, isBlankText, List.all_eq_true]
      exact fun c hc => List.all_eq_true.mp hblank c (mem_of_mem_dedentLine hc)
    refine ⟨?_, fun h => absurd h hfalse, fun h => absurd h hfalse, hcontent⟩
    rw [dedentLine]
    cases hcut : dropBytes? n line with
    | some rest => exact .inl (dropBytes?_eq_some_iff.mp hcut)
    | none =>
      refine .inr ⟨hblank, List.dropWhile_eq_nil_iff.mpr (List.all_eq_true.mp hblank), ?_⟩
      rintro front ⟨rest, rfl⟩ hfront
      rw [dropBytes?_eq_some_iff.mpr ⟨front, rfl, hfront⟩] at hcut
      nomatch hcut

/-! ## Texts -/

/-- Line feeds are blank. -/
theorem visible_joinLines (ls : List (List Char)) : visible (joinLines ls) = ls.flatMap visible := by
  induction ls with
  | nil => rfl
  | cons line rest ih =>
    cases rest with
    | nil => simp [joinLines]
    | cons second rest =>
      have hfeed : visible ['\n'] = [] := rfl
      rw [joinLines] at ih ⊢
      rw [List.intercalate_cons_cons, visible_append, visible_append, hfeed, List.append_nil, ih]
      rfl

/-- A text has its lines, whatever mix of line ends it has. -/
theorem isLines_lines (s : List Char) : IsLines s (lines s) := by
  fun_induction lines s with
  | case1 => exact .nil
  | case2 rest ih => exact .carriageReturn List.not_mem_nil ih
  | case3 rest ih => exact .lineFeed List.not_mem_nil nofun ih
  | case4 c rest _ hfeed hlines ih =>
    rw [hlines] at ih
    cases ih
    exact .last (List.cons_ne_nil _ _) fun hc => hfeed (List.mem_singleton.mp hc).symm
  | case5 c rest hreturn hfeed line more hlines ih =>
    have hnot {s : List Char} (h : '\n' ∉ s) : '\n' ∉ c :: s := fun hc => (List.mem_cons.mp hc).elim (fun hc => hfeed hc.symm) h
    rw [hlines] at ih
    cases ih with
    | last _ hin => exact .last (List.cons_ne_nil _ _) (hnot hin)
    | carriageReturn hin hrest => exact .carriageReturn (hnot hin) hrest
    | lineFeed hin hend hrest =>
      refine .lineFeed (hnot hin) (fun hlast => ?_) hrest
      cases line with
      | nil => exact hreturn _ (Option.some.inj hlast) rfl
      | cons d line => exact hend (by rwa [List.getLast?_cons_cons] at hlast)

/-- The lines have all of a text that is not blank. -/
theorem IsLines.flatMap_visible {s : List Char} {ls : List (List Char)} (h : IsLines s ls) : ls.flatMap visible = visible s := by
  have hfeed : visible ['\n'] = [] := rfl
  have hreturn : visible ['\r'] = [] := rfl
  induction h with
  | nil => rfl
  | last => simp
  | @lineFeed line rest ls _ _ _ ih =>
    rw [List.flatMap_cons, ih, visible_append, visible_cons _ rest, hfeed, List.nil_append]
  | @carriageReturn line rest ls _ _ ih =>
    rw [List.flatMap_cons, ih, visible_append, visible_cons _ ('\n' :: rest), visible_cons _ rest, hreturn, hfeed]
    rfl

theorem IsLines.not_mem {s line : List Char} {ls : List (List Char)} (h : IsLines s ls) (hline : line ∈ ls) : '\n' ∉ line := by
  induction h with
  | nil => nomatch hline
  | last _ hin => exact List.mem_singleton.mp hline ▸ hin
  | lineFeed hin _ _ ih | carriageReturn hin _ ih =>
    rcases List.mem_cons.mp hline with rfl | hline
    · exact hin
    · exact ih hline

theorem IsLines.ne_nil {s : List Char} {ls : List (List Char)} (h : IsLines s ls) (hs : s ≠ []) : ls ≠ [] := by
  cases h <;> first | exact absurd rfl hs | exact List.cons_ne_nil _ _

/-- The common indentation is the least one. -/
theorem isLeast_commonIndent {ls : List (List Char)} (h : ∃ line ∈ ls, isBlankText line = false) :
    IsLeast {k | ∃ line ∈ ls, isBlankText line = false ∧ indent line = k} (commonIndent ls) := by
  have hmem : ∀ k, k ∈ (ls.filter fun line => !isBlankText line).map indent ↔
      ∃ line ∈ ls, isBlankText line = false ∧ indent line = k := by
    simp [and_assoc]
  obtain ⟨line, hline, hblank⟩ := h
  cases hmin : ((ls.filter fun line => !isBlankText line).map indent).min? with
  | none =>
    have hnil := List.min?_eq_none_iff.mp hmin
    have hin := (hmem (indent line)).mpr ⟨line, hline, hblank, rfl⟩
    rw [hnil] at hin
    nomatch hin
  | some n =>
    obtain ⟨hn, hle⟩ := List.min?_eq_some_iff.mp hmin
    rw [commonIndent, hmin, Option.getD_some]
    exact ⟨(hmem n).mp hn, fun k hk => hle k ((hmem k).mpr hk)⟩

/-- Every text is dedented by what is least among the indentations of its lines that are not blank. -/
theorem isDedented_dedent (s : List Char) : IsDedented (commonIndent (lines s)) s (dedent s) := by
  have hloses : ∀ line ∈ lines s, LosesIndent (commonIndent (lines s)) line (dedentLine (commonIndent (lines s)) line) :=
    fun line hline => losesIndent_dedentLine fun hblank =>
      (isLeast_commonIndent ⟨line, hline, hblank⟩).2 ⟨line, hline, hblank, rfl⟩
  have hsplit (hs : s ≠ []) : (dedent s).splitOn '\n' = (lines s).map (dedentLine (commonIndent (lines s))) := by
    refine List.splitOn_intercalate _ (fun rest hrest hfeed => ?_) ?_
    · obtain ⟨line, hline, rfl⟩ := List.mem_map.mp hrest
      exact (isLines_lines s).not_mem hline (mem_of_mem_dedentLine hfeed)
    · exact fun h => (isLines_lines s).ne_nil hs (List.map_eq_nil_iff.mp h)
  refine ⟨isLines_lines s, isLeast_commonIndent, fun hs => ?_, fun hvisible => ?_, ?_⟩
  · rw [hsplit hs, List.forall₂_map_right_iff, List.forall₂_same]
    exact hloses
  · obtain ⟨line, hline, hblank, hleast⟩ := (isLeast_commonIndent hvisible).1
    have hs : s ≠ [] := by
      rintro rfl
      nomatch hline
    have hkept := hloses line hline
    refine ⟨_, by rw [hsplit hs]; exact List.mem_map_of_mem hline, ?_, head_of_indent_eq_zero ?_⟩
    · rw [← Bool.not_eq_true, isBlankText_iff, hkept.content, ← isBlankText_iff, hblank]
      exact Bool.false_ne_true
    · have hrelative := hkept.relative hblank
      omega
  · rw [dedent, visible_joinLines, List.flatMap_map, ← (isLines_lines s).flatMap_visible]
    exact List.flatMap_congr fun line hline => (hloses line hline).content

end JuliaStubs.Text
