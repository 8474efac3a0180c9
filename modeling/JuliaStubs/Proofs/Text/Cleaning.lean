import JuliaStubs.DocText
import JuliaStubs.Proofs.Text.Dedent
import JuliaStubs.Proofs.Text.RawLiteral
import Mathlib.Data.List.DropRight
import Mathlib.Data.List.TakeWhile

/-!
# Cleaned texts

What cleaning leaves of a documentation text. Names are replaced after tabs and carriage returns are taken out, so no name comes to be
by taking them out; and no replacement makes a name anew, since what it puts in and the names stand apart (`Apart`,
`infix_of_replaceFrom`). All that is taken without a replacement is blank: only a blank text is cleaned to nothing (`clean_keeps_text`).
-/

namespace JuliaStubs.Text

/-- Texts that do not overlap wherever they stand in another text: neither starts inside of the other one or together with it. -/
def Apart (s t : List Char) : Prop :=
  (∀ c ∈ s.head?, c ∉ t.tail) ∧ (∀ c ∈ t.head?, c ∉ s.tail) ∧ ¬s <+: t ∧ ¬t <+: s

theorem Apart.exists_cons {s t : List Char} (h : Apart s t) :
    ∃ c v d u, s = c :: v ∧ t = d :: u ∧ c ∉ u ∧ d ∉ v := by
  obtain ⟨hs, ht, hst, hts⟩ := h
  cases s with
  | nil => exact absurd List.nil_prefix hst
  | cons c v =>
    cases t with
    | nil => exact absurd List.nil_prefix hts
    | cons d u => exact ⟨c, v, d, u, rfl, rfl, hs c rfl, ht d rfl⟩

/-! ## Replacing -/

section Replace

variable {word pattern substitute : List Char}

/-- A word that does not have the first character of a text is not in front of it. -/
theorem infix_of_infix_append {c : Char} {v front s : List Char} (hc : c ∉ front) (h : c :: v <:+: front ++ s) : c :: v <:+: s := by
  induction front with
  | nil => exact h
  | cons d front ih =>
    rcases List.infix_cons_iff.mp h with h | h
    · obtain rfl := (List.cons_prefix_cons.mp h).1
      exact absurd List.mem_cons_self hc
    · exact ih (fun hmem => hc (List.mem_cons_of_mem _ hmem)) h

/-- An occurrence of a word is behind a text that stands apart from it. -/
theorem Apart.infix_of_append {s : List Char} (h : Apart word substitute) (hw : word <:+: substitute ++ s) : word <:+: s := by
  obtain ⟨c, v, d, u, rfl, rfl, hc, -⟩ := h.exists_cons
  rcases List.infix_cons_iff.mp hw with hw | hw
  · rcases List.prefix_or_prefix_of_prefix hw (List.prefix_append (d :: u) s) with hw | hw
    · exact absurd hw h.2.2.1
    · exact absurd hw h.2.2.2
  · exact infix_of_infix_append hc hw

/-- Replacing does not bring a text to the front that lacks the first character of what is put in. -/
theorem prefix_of_replaceFrom {d : Char} {u v s : List Char} (hd : d ∉ v) (h : v <+: replaceFrom pattern (d :: u) 0 s) : v <+: s := by
  induction v generalizing s with
  | nil => exact List.nil_prefix
  | cons c v ih =>
    cases s with
    | nil => exact h
    | cons e rest =>
      rw [replaceFrom] at h
      split at h
      · obtain rfl := (List.cons_prefix_cons.mp h).1
        exact absurd List.mem_cons_self hd
      · obtain ⟨rfl, hrest⟩ := List.cons_prefix_cons.mp h
        exact List.cons_prefix_cons.mpr ⟨rfl, ih (fun hmem => hd (List.mem_cons_of_mem _ hmem)) hrest⟩

/-- A word that stands apart from what is put in and occurs after replacing occurred before, and it is not what is replaced. -/
theorem infix_of_replaceFrom (h : Apart word substitute) {skip : Nat} {s : List Char}
    (hw : word <:+: replaceFrom pattern substitute skip s) : word <:+: s ∧ word ≠ pattern := by
  obtain ⟨c, v, d, u, rfl, rfl, hc, hd⟩ := h.exists_cons
  fun_induction replaceFrom pattern (d :: u) skip s with
  | case1 => exact absurd (List.infix_nil.mp hw) (List.cons_ne_nil _ _)
  | case2 skip e rest ih => exact (ih hw).imp_left List.infix_cons
  | case3 e rest _ ih => exact (ih (h.infix_of_append hw)).imp_left List.infix_cons
  | case4 e rest hmatch ih =>
    rcases List.infix_cons_iff.mp hw with hw | hw
    · obtain ⟨rfl, hv⟩ := List.cons_prefix_cons.mp hw
      have hstart : c :: v <+: c :: rest := List.cons_prefix_cons.mpr ⟨rfl, prefix_of_replaceFrom hd hv⟩
      refine ⟨hstart.isInfix, ?_⟩
      rintro rfl
      exact hmatch (List.isPrefixOf_iff_prefix.mpr hstart)
    · exact (ih hw).imp_left List.infix_cons

theorem not_infix_replace (h : Apart pattern substitute) (s : List Char) : ¬pattern <:+: replace pattern substitute s :=
  fun hw => (infix_of_replaceFrom h hw).2 rfl

/-- Every character after replacing was there before, or is put in. -/
theorem mem_of_mem_replaceFrom {skip : Nat} {s : List Char} {c : Char} (h : c ∈ replaceFrom pattern substitute skip s) :
    c ∈ substitute ∨ c ∈ s := by
  fun_induction replaceFrom pattern substitute skip s with
  | case1 => nomatch h
  | case2 skip e rest ih => exact (ih h).imp_right (List.mem_cons_of_mem _)
  | case3 e rest _ ih =>
    rcases List.mem_append.mp h with h | h
    · exact .inl h
    · exact (ih h).imp_right (List.mem_cons_of_mem _)
  | case4 e rest _ ih =>
    rcases List.mem_cons.mp h with rfl | h
    · exact .inr List.mem_cons_self
    · exact (ih h).imp_right (List.mem_cons_of_mem _)

/-- A text with a substitute in place of some occurrences of a pattern. -/
inductive Rewords (pattern substitute : List Char) : List Char → List Char → Prop where
  | nil : Rewords pattern substitute [] []
  | keep (c : Char) {s t : List Char} : Rewords pattern substitute s t → Rewords pattern substitute (c :: s) (c :: t)
  | swap {s t : List Char} : Rewords pattern substitute s t → Rewords pattern substitute (pattern ++ s) (substitute ++ t)

theorem rewords_replaceFrom (hp : pattern ≠ []) (skip : Nat) (s : List Char) :
    Rewords pattern substitute (s.drop skip) (replaceFrom pattern substitute skip s) := by
  fun_induction replaceFrom pattern substitute skip s with
  | case1 =>
    rw [List.drop_nil]
    exact .nil
  | case2 skip e rest ih => exact ih
  | case3 e rest hmatch ih =>
    obtain ⟨behind, hbehind⟩ := List.isPrefixOf_iff_prefix.mp hmatch
    have hdrop : rest.drop (pattern.length - 1) = behind := by
      cases pattern with
      | nil => exact absurd rfl hp
      | cons c p =>
        rw [← (List.cons.inj hbehind).2]
        exact List.drop_left
    rw [hdrop] at ih
    rw [List.drop_zero, ← hbehind]
    exact .swap ih
  | case4 e rest _ ih => exact .keep e ih

/-- Between texts without blanks, replacing does not ask for the blanks around. -/
theorem rewords_visible (hp : visible pattern = pattern) (hs : visible substitute = substitute) {s t : List Char}
    (h : Rewords pattern substitute s t) : Rewords pattern substitute (visible s) (visible t) := by
  induction h with
  | nil => exact .nil
  | @keep c s t _ ih =>
    rw [visible_cons c s, visible_cons c t]
    cases hc : isBlank c with
    | true =>
      have hnone : visible [c] = [] := by simp [visible, hc]
      rwa [hnone]
    | false =>
      have hone : visible [c] = [c] := by simp [visible, hc]
      rw [hone]
      exact .keep c ih
  | swap _ ih =>
    rw [visible_append, visible_append, hp, hs]
    exact .swap ih

theorem Rewords.eq_nil_iff (hp : pattern ≠ []) (hs : substitute ≠ []) {s t : List Char} (h : Rewords pattern substitute s t) :
    s = [] ↔ t = [] := by
  cases h <;> simp [hp, hs]

theorem rewords_visible_replace (hne : pattern ≠ []) (hp : visible pattern = pattern) (hs : visible substitute = substitute)
    (s : List Char) : Rewords pattern substitute (visible s) (visible (replace pattern substitute s)) :=
  rewords_visible hp hs (rewords_replaceFrom hne 0 s)

end Replace

/-! ## Removing and trimming -/

theorem visible_remove {c : Char} (h : isBlank c = true) (s : List Char) : visible (s.filter (· != c)) = visible s := by
  rw [visible, List.filter_filter]
  refine List.filter_congr fun d _ => ?_
  by_cases hd : d = c <;> simp [hd, h]

theorem isInfix_trim (s : List Char) : trim s <:+: s :=
  (List.rdropWhile_prefix isBlank (trimStart s)).isInfix.trans (List.dropWhile_suffix isBlank).isInfix

theorem isBlank_of_mem_head?_dropWhile {s : List Char} : ∀ c ∈ (s.dropWhile isBlank).head?, isBlank c = false := by
  intro c hc
  have hnot := List.head?_dropWhile_not isBlank s
  rwa [Option.mem_def.mp hc] at hnot

theorem isBlank_of_mem_head?_trim {s : List Char} : ∀ c ∈ (trim s).head?, isBlank c = false := by
  intro c hc
  obtain ⟨behind, hbehind⟩ : trim s <+: trimStart s := List.rdropWhile_prefix isBlank (trimStart s)
  refine isBlank_of_mem_head?_dropWhile c (s := s) ?_
  rw [← trimStart, ← hbehind, List.head?_append, Option.mem_def.mp hc]
  rfl

theorem isBlank_of_mem_getLast?_trim {s : List Char} : ∀ c ∈ (trim s).getLast?, isBlank c = false := by
  intro c hc
  rw [trim, trimEnd, List.getLast?_reverse] at hc
  exact isBlank_of_mem_head?_dropWhile c hc

theorem visible_dropWhile (s : List Char) : visible (s.dropWhile isBlank) = visible s := by
  have hfront : visible (s.takeWhile isBlank) = [] :=
    List.filter_eq_nil_iff.mpr fun c hc => by simp [List.mem_takeWhile_imp hc]
  conv_rhs => rw [← List.takeWhile_append_dropWhile (p := isBlank) (l := s), visible_append, hfront, List.nil_append]

theorem visible_trim (s : List Char) : visible (trim s) = visible s := by
  have hreverse : ∀ t : List Char, visible t.reverse = (visible t).reverse := fun _ => List.filter_reverse
  rw [trim, trimEnd, hreverse, visible_dropWhile, hreverse, List.reverse_reverse, trimStart, visible_dropWhile]

end JuliaStubs.Text

namespace JuliaStubs.DocText

open Text

/-- What is not found in a cleaned text. -/
structure IsClean (t : List Char) : Prop where
  tab : '\t' ∉ t
  carriageReturn : '\r' ∉ t
  typeName : ¬"Variant.Type".toList <:+: t
  operatorName : ¬"Variant.Operator".toList <:+: t
  leading : ∀ c ∈ t.head?, isBlank c = false
  trailing : ∀ c ∈ t.getLast?, isBlank c = false

/-- The last steps of cleaning: names and quotes are replaced, and the blanks around the text are taken off. -/
def replaced (s : List Char) : List Char :=
  trim (replace quotes escapedQuotes (replace "Variant.Operator".toList "VariantOperator".toList
    (replace "Variant.Type".toList "VariantType".toList s)))

/-- A character that no replacement puts in was there before. -/
theorem mem_of_mem_replaced {s : List Char} {c : Char} (h : c ∈ replaced s)
    (hnew : c ∉ escapedQuotes ++ "VariantOperator".toList ++ "VariantType".toList) : c ∈ s := by
  simp only [List.mem_append, not_or] at hnew
  have h := (mem_of_mem_replaceFrom ((isInfix_trim _).subset h)).resolve_left hnew.1.1
  have h := (mem_of_mem_replaceFrom h).resolve_left hnew.1.2
  exact (mem_of_mem_replaceFrom h).resolve_left hnew.2

/-- The steps before them take blanks only, all tabs and carriage returns among them. -/
theorem exists_cleanChars_eq (s : List Char) :
    ∃ bare, visible bare = visible s ∧ '\t' ∉ bare ∧ '\r' ∉ bare ∧ cleanChars s = replaced bare := by
  refine ⟨((dedent s).filter (· != '\t')).filter (· != '\r'), ?_, by simp, by simp, rfl⟩
  rw [visible_remove (by decide), visible_remove (by decide), (isDedented_dedent s).content]

theorem isClean_cleanChars (s : List Char) : IsClean (cleanChars s) := by
  obtain ⟨bare, -, htab, hreturn, hclean⟩ := exists_cleanChars_eq s
  rw [hclean]
  -- a word that is left was there before each of the replacements, or is put in by one
  have hoperator : Apart "Variant.Operator".toList escapedQuotes := by simp [Apart, escapedQuotes]
  have htype : Apart "Variant.Type".toList escapedQuotes := by simp [Apart, escapedQuotes]
  have hbetween : Apart "Variant.Type".toList "VariantOperator".toList := by simp [Apart]
  refine ⟨fun hc => ?_, fun hc => ?_, fun hw => ?_, fun hw => ?_, isBlank_of_mem_head?_trim, isBlank_of_mem_getLast?_trim⟩
  · exact htab (mem_of_mem_replaced hc (by decide))
  · exact hreturn (mem_of_mem_replaced hc (by decide))
  · have hw := (infix_of_replaceFrom htype (hw.trans (isInfix_trim _))).1
    exact not_infix_replace (by simp [Apart]) _ (infix_of_replaceFrom hbetween hw).1
  · have hw := (infix_of_replaceFrom hoperator (hw.trans (isInfix_trim _))).1
    exact not_infix_replace (by simp [Apart]) _ hw

/-- The visible characters of a cleaned text are those of the text, with Julia names and escaped quotes in their places. -/
theorem rewords_cleanChars (s : List Char) :
    ∃ x y, Rewords "Variant.Type".toList "VariantType".toList (visible s) x ∧
      Rewords "Variant.Operator".toList "VariantOperator".toList x y ∧ Rewords quotes escapedQuotes y (visible (cleanChars s)) := by
  obtain ⟨bare, hbare, -, -, hclean⟩ := exists_cleanChars_eq s
  rw [hclean, replaced, visible_trim, ← hbare]
  exact ⟨_, _, rewords_visible_replace (by simp) (by decide) (by decide) _,
    rewords_visible_replace (by simp) (by decide) (by decide) _,
    rewords_visible_replace (by simp [quotes]) (by decide) (by decide) _⟩

/-- Only a blank text is cleaned to nothing. -/
theorem cleanChars_eq_nil_iff (s : List Char) : cleanChars s = [] ↔ visible s = [] := by
  obtain ⟨x, y, htype, hoperator, hquotes⟩ := rewords_cleanChars s
  rw [htype.eq_nil_iff (by simp) (by simp), hoperator.eq_nil_iff (by simp) (by simp),
    hquotes.eq_nil_iff (by simp [quotes]) (by simp [escapedQuotes])]
  constructor
  · intro h
    rw [h]
    rfl
  · intro h
    have hleading := (isClean_cleanChars s).leading
    cases hclean : cleanChars s with
    | nil => rfl
    | cons c t =>
      rw [hclean] at h hleading
      exact absurd (List.filter_eq_nil_iff.mp h c List.mem_cons_self) (by simp [hleading c rfl])

/-- Whatever the text, what cleaning takes from it is indentation, line breaks and other blanks. Common indentation is removed from it
between characters, by whole lines and to the same depth; of the names that become Julia names none is left, not even one that was
apart before; and what is not blank is kept, with the Julia names and escaped quotes in the places of what they replace. Only a blank
text counts as none. -/
theorem clean_keeps_text (s : String) :
    IsDedented (commonIndent (lines s.toList)) s.toList (dedent s.toList) ∧
      IsClean (clean s).toList ∧
      (∃ x y, Rewords "Variant.Type".toList "VariantType".toList (visible s.toList) x ∧
        Rewords "Variant.Operator".toList "VariantOperator".toList x y ∧ Rewords quotes escapedQuotes y (visible (clean s).toList)) ∧
      clean? s = if visible s.toList = [] then none else some (clean s) := by
  have hclean : (clean s).toList = cleanChars s.toList := String.toList_ofList
  have hempty : (clean s).isEmpty = true ↔ visible s.toList = [] := by
    rw [String.isEmpty_iff, ← String.toList_eq_nil_iff, hclean, cleanChars_eq_nil_iff]
  rw [hclean]
  refine ⟨isDedented_dedent _, isClean_cleanChars _, rewords_cleanChars _, ?_⟩
  unfold clean?
  simp only [hempty]

/-- A tab inside of a name does not hide it. -/
example : clean "\tVariant.\tType:\r\n\t\t\"\"\"nil\"\"\"\n" = "VariantType:\n\\\"\\\"\\\"nil\\\"\\\"\\\"" := by
  decide +kernel

end JuliaStubs.DocText
