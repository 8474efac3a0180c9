import JuliaStubs.DocText
import Mathlib.Data.List.Basic
import Mathlib.Data.List.TakeWhile

/-!
# Raw literals

How far a raw literal with triple quotes reaches. A quote after an odd number of backslashes is escaped; the literal ends at three
quotes in a row that are not. The second and the third of them follow a quote, so it is the first one that decides. `scanRaw` reads the
text after the opening quotes by this rule, and `scanRaw_eq_some_iff` says where it stops.

A cleaned text holds no three quotes in a row that could end it (`contained_clean`), and neither do two of them with an empty line
between. What is left to go wrong is at its end, where its own characters meet the closing quotes (`scanRaw_append_iff`).
-/

namespace JuliaStubs.Text

/-- The quotes around a literal. -/
def quotes : List Char := ['"', '"', '"']

/-- Three quotes, each of them escaped. -/
def escapedQuotes : List Char := ['\\', '"', '\\', '"', '\\', '"']

/-- Whether what follows these characters is escaped: they end in an odd number of backslashes. -/
def escapedAfter (before : List Char) : Bool := (before.reverse.takeWhile (· == '\\')).length % 2 == 1

/-- The characters of a literal and what is behind its closing quotes, given what is read of it and the text that follows; none where
the text ends first. -/
def scanRaw (read : List Char) : List Char → Option (List Char × List Char)
  | [] => none
  | c :: rest =>
    if quotes.isPrefixOf (c :: rest) && !escapedAfter read then some (read, rest.drop 2)
    else scanRaw (read ++ [c]) rest

/-- The end of a text neither escapes the quotes behind it nor adds one to them. -/
def EndsClosed (s : List Char) : Prop :=
  escapedAfter s = false ∧ (s.getLast? = some '"' → escapedAfter s.dropLast = true)

instance (s : List Char) : Decidable (EndsClosed s) := inferInstanceAs (Decidable (_ ∧ _))

/-- Wherever three quotes stand in a row in a text, the first one is escaped, given what is before the text. -/
def Contained (before s : List Char) : Prop := ∀ a b, s = a ++ quotes ++ b → escapedAfter (before ++ a) = true

/-! ## Escapes -/

theorem escapedAfter_backslash (before : List Char) : escapedAfter (before ++ ['\\']) = !escapedAfter before := by
  rw [escapedAfter, List.reverse_append, List.reverse_singleton, List.singleton_append, List.takeWhile_cons_of_pos (by decide),
    List.length_cons, escapedAfter]
  rcases Nat.mod_two_eq_zero_or_one (before.reverse.takeWhile (· == '\\')).length with h | h <;> simp [Nat.add_mod, h]

/-- Only backslashes escape, and what is before another character does not count. -/
theorem escapedAfter_append {c : Char} (h : c ≠ '\\') (before s : List Char) :
    escapedAfter (before ++ c :: s) = escapedAfter s := by
  have hstop : (c :: before.reverse).takeWhile (· == '\\') = [] :=
    List.takeWhile_cons_of_neg (fun hc => h (beq_iff_eq.mp hc))
  have hlist : (before ++ c :: s).reverse = s.reverse ++ c :: before.reverse := by simp
  rw [escapedAfter, hlist, List.takeWhile_append, hstop, List.append_nil]
  split
  · rename_i hall
    rw [escapedAfter, hall]
  · rfl

theorem escapedAfter_concat {c : Char} (h : c ≠ '\\') (before : List Char) : escapedAfter (before ++ [c]) = false :=
  escapedAfter_append h before []

/-- Characters without a backslash in front of a text escape nothing in it. -/
theorem escapedAfter_append_left {front : List Char} (h : '\\' ∉ front) (s : List Char) :
    escapedAfter (front ++ s) = escapedAfter s := by
  induction front with
  | nil => rfl
  | cons c front ih =>
    obtain ⟨hc, hfront⟩ := not_or.mp (mt List.mem_cons.mpr h)
    rw [← ih hfront, List.cons_append]
    exact escapedAfter_append (Ne.symm hc) [] (front ++ s)

/-! ## Scanning -/

/-- The literal ends at the first three quotes of which the first one is not escaped. -/
theorem scanRaw_eq_some_iff {read text inside rest : List Char} : scanRaw read text = some (inside, rest) ↔
    ∃ a, inside = read ++ a ∧ text = a ++ quotes ++ rest ∧ escapedAfter (read ++ a) = false ∧
      ∀ b c, text = b ++ quotes ++ c → b.length < a.length → escapedAfter (read ++ b) = true := by
  induction text generalizing read with
  | nil =>
    simp only [scanRaw, reduceCtorEq, false_iff]
    rintro ⟨a, -, h, -⟩
    simp [quotes] at h
  | cons d text ih =>
    have hstarts : ∀ tail, d :: text = [] ++ quotes ++ tail → quotes.isPrefixOf (d :: text) = true := fun tail h =>
      List.isPrefixOf_iff_prefix.mpr ⟨tail, h.symm⟩
    rw [scanRaw]
    by_cases hends : (quotes.isPrefixOf (d :: text) && !escapedAfter read) = true
    · rw [if_pos hends, Option.some.injEq, Prod.mk.injEq]
      rw [Bool.and_eq_true, Bool.not_eq_true'] at hends
      obtain ⟨tail, htail⟩ := List.isPrefixOf_iff_prefix.mp hends.1
      obtain ⟨rfl, rfl⟩ : '"' = d ∧ '"' :: '"' :: tail = text := List.cons.inj htail
      constructor
      · rintro ⟨rfl, rfl⟩
        refine ⟨[], (List.append_nil _).symm, rfl, ?_, fun _ _ _ hlt => absurd hlt (Nat.not_lt_zero _)⟩
        rw [List.append_nil]
        exact hends.2
      · rintro ⟨a, rfl, htext, -, hfirst⟩
        cases a with
        | nil => exact ⟨(List.append_nil _).symm, (List.append_right_inj quotes).mp htext⟩
        | cons c a =>
          have hescaped := hfirst [] tail rfl (Nat.succ_pos _)
          rw [List.append_nil, hends.2] at hescaped
          nomatch hescaped
    · rw [if_neg hends, ih]
      have hescaped : quotes.isPrefixOf (d :: text) = true → escapedAfter read = true := fun hquotes => by
        rw [hquotes, Bool.true_and, Bool.not_eq_true', Bool.not_eq_false] at hends
        exact hends
      constructor
      · rintro ⟨a, rfl, htext, ha, hfirst⟩
        refine ⟨d :: a, List.append_assoc _ _ _, congrArg (d :: ·) htext, ?_, fun b c hb hlt => ?_⟩
        · rwa [List.append_assoc] at ha
        · cases b with
          | nil =>
            rw [List.append_nil]
            exact hescaped (hstarts _ hb)
          | cons e b =>
            obtain ⟨rfl, htail⟩ := List.cons.inj hb
            have := hfirst b c htail (Nat.lt_of_succ_lt_succ hlt)
            rwa [List.append_assoc] at this
      · rintro ⟨a, rfl, htext, ha, hfirst⟩
        cases a with
        | nil =>
          rw [List.append_nil, hescaped (hstarts _ htext)] at ha
          nomatch ha
        | cons e a =>
          obtain ⟨rfl, htail⟩ := List.cons.inj htext
          refine ⟨a, by rw [List.append_assoc]; rfl, htail, ?_, fun b c hb hlt => ?_⟩
          · rwa [List.append_assoc]
          · rw [List.append_assoc]
            exact hfirst (d :: b) c (congrArg (d :: ·) hb) (Nat.succ_lt_succ hlt)

/-- What the end of a text is asked for, without its last character. -/
theorem endsClosed_iff {s : List Char} : EndsClosed s ↔
    escapedAfter s = false ∧ ∀ front, s = front ++ ['"'] → escapedAfter front = true := by
  refine and_congr_right fun _ => ?_
  rw [List.getLast?_eq_some_iff]
  constructor
  · rintro hl front rfl
    have hfront := hl ⟨front, rfl⟩
    rwa [List.dropLast_concat] at hfront
  · rintro hl ⟨front, rfl⟩
    rw [List.dropLast_concat]
    exact hl front rfl

/-- No three quotes end the literal of such a text before its closing ones do. -/
theorem escapedAfter_of_quotes {s rest b c : List Char} (h : Contained [] s) (hend : EndsClosed s)
    (hb : s ++ quotes ++ rest = b ++ quotes ++ c) (hlt : b.length < s.length) : escapedAfter b = true := by
  obtain ⟨-, hlast⟩ := endsClosed_iff.mp hend
  obtain ⟨tail, hs, htail⟩ : ∃ tail, s = b ++ tail ∧ tail ++ (quotes ++ rest) = quotes ++ c := by
    rw [List.append_assoc, List.append_assoc] at hb
    rcases List.append_eq_append_iff.mp hb with ⟨mid, rfl, _⟩ | ⟨mid, rfl, hmid⟩
    · rw [List.length_append] at hlt
      exact absurd hlt (by omega)
    · exact ⟨mid, rfl, hmid.symm⟩
  -- the quotes are inside the text, or one or two of them are its last characters
  match tail, htail with
  | [], _ =>
    rw [hs, List.append_nil] at hlt
    exact absurd hlt (Nat.lt_irrefl _)
  | [d], htail =>
    obtain rfl : d = '"' := (List.cons.inj htail).1
    exact hlast b hs
  | [d, e], htail =>
    obtain ⟨rfl, rfl, -⟩ : d = '"' ∧ e = '"' ∧ _ = c := by simpa [quotes] using htail
    have hquote := hlast (b ++ ['"']) (by rw [hs, List.append_assoc]; rfl)
    rw [escapedAfter_concat (by decide)] at hquote
    nomatch hquote
  | d :: e :: f :: tail, htail =>
    obtain ⟨rfl, rfl, rfl, -⟩ : d = '"' ∧ e = '"' ∧ f = '"' ∧ _ = c := by simpa [quotes] using htail
    exact h b tail (by rw [hs, List.append_assoc]; rfl)

/-- A text with no three quotes in a row that end a literal is all of the literal exactly when its end does not meet the closing
quotes. -/
theorem scanRaw_append_iff {s : List Char} (h : Contained [] s) (rest : List Char) :
    scanRaw [] (s ++ quotes ++ rest) = some (s, rest) ↔ EndsClosed s := by
  rw [scanRaw_eq_some_iff]
  constructor
  · rintro ⟨a, hs, -, ha, hfirst⟩
    obtain rfl : s = a := hs
    refine endsClosed_iff.mpr ⟨ha, fun front hfront => hfirst front ('"' :: rest) ?_ ?_⟩
    · rw [hfront]
      simp [quotes]
    · rw [hfront, List.length_append]
      exact Nat.lt_succ_self _
  · intro hend
    exact ⟨s, rfl, rfl, hend.1, fun b c hb hlt => escapedAfter_of_quotes h hend hb hlt⟩

/-- At most the last two characters of such a text fall out of its literal. -/
theorem length_le_of_scanRaw {s rest inside behind : List Char} (h : Contained [] s)
    (hscan : scanRaw [] (s ++ quotes ++ rest) = some (inside, behind)) : s.length ≤ inside.length + 2 := by
  obtain ⟨a, ha, htext, hopen, -⟩ := scanRaw_eq_some_iff.mp hscan
  obtain rfl : inside = a := ha
  by_contra hlt
  have hlength : (inside ++ quotes).length ≤ s.length := by
    rw [List.length_append]
    exact Nat.not_le.mp hlt
  obtain ⟨tail, hs⟩ : inside ++ quotes <+: s :=
    List.prefix_of_prefix_length_le ⟨behind, htext.symm⟩ ⟨quotes ++ rest, (List.append_assoc _ _ _).symm⟩ hlength
  rw [h inside tail hs.symm] at hopen
  nomatch hopen

/-! ## Cleaned texts -/

theorem contained_nil (before : List Char) : Contained before [] := fun a b h => by
  simp [quotes] at h

theorem contained_cons {before : List Char} {c : Char} {s : List Char}
    (hc : quotes.isPrefixOf (c :: s) = true → escapedAfter before = true) (hs : Contained (before ++ [c]) s) :
    Contained before (c :: s) := by
  intro a b h
  cases a with
  | nil =>
    rw [List.append_nil]
    exact hc (List.isPrefixOf_iff_prefix.mpr ⟨b, h.symm⟩)
  | cons d a =>
    obtain ⟨rfl, htail⟩ := List.cons.inj h
    rw [← List.singleton_append, ← List.append_assoc]
    exact hs a b htail

/-- Replacing does not bring quotes to the front of a text: what is put in starts with a backslash. -/
theorem replicate_prefix_of_replaceFrom (n : Nat) {s : List Char}
    (h : List.replicate n '"' <+: replaceFrom quotes escapedQuotes 0 s) : List.replicate n '"' <+: s := by
  induction n generalizing s with
  | zero => exact List.nil_prefix
  | succ n ih =>
    cases s with
    | nil => exact h
    | cons c rest =>
      rw [replaceFrom] at h
      split at h
      · exact absurd (List.cons_prefix_cons.mp h).1 (by decide)
      · obtain ⟨hc, hrest⟩ := List.cons_prefix_cons.mp h
        exact List.cons_prefix_cons.mpr ⟨hc, ih hrest⟩

/-- After three quotes in a row are replaced by escaped ones from left to right, the first of any three that are left in a row is
escaped. -/
theorem contained_replaceFrom (skip : Nat) (before s : List Char) :
    Contained before (replaceFrom quotes escapedQuotes skip s) := by
  induction s generalizing skip before with
  | nil =>
    cases skip <;> exact contained_nil before
  | cons c rest ih =>
    cases skip with
    | succ skip => exact ih skip before
    | zero =>
      rw [replaceFrom]
      split
      · rename_i hquotes
        refine contained_cons (fun h => nomatch h) (contained_cons (fun h => nomatch h) (contained_cons (fun h => nomatch h)
          (contained_cons (fun h => nomatch h) (contained_cons (fun h => nomatch h) (contained_cons (fun _ => ?_) (ih _ _))))))
        rw [escapedAfter_backslash, escapedAfter_concat (by decide)]
        rfl
      · rename_i hquotes
        refine contained_cons (fun h => absurd ?_ hquotes) (ih 0 _)
        have hstarts : '"' :: List.replicate 2 '"' <+: c :: replaceFrom quotes escapedQuotes 0 rest :=
          List.isPrefixOf_iff_prefix.mp h
        obtain ⟨hc, hrest⟩ := List.cons_prefix_cons.mp hstarts
        exact List.isPrefixOf_iff_prefix.mpr
          (List.cons_prefix_cons.mpr ⟨hc, replicate_prefix_of_replaceFrom 2 hrest⟩)

/-- Taking blanks from the ends of a text brings no quotes together and takes no backslash. -/
theorem Contained.trim {s : List Char} (h : Contained [] s) : Contained [] (trim s) := by
  have hblank : '\\' ∉ s.takeWhile isBlank := fun hm => absurd (List.mem_takeWhile_imp hm) (by decide)
  have hs : s = s.takeWhile isBlank ++ (Text.trim s ++ ((trimStart s).reverse.takeWhile isBlank).reverse) := by
    have hend : Text.trim s ++ ((trimStart s).reverse.takeWhile isBlank).reverse = trimStart s := by
      rw [Text.trim, trimEnd, ← List.reverse_append, List.takeWhile_append_dropWhile, List.reverse_reverse]
    rw [hend, trimStart, List.takeWhile_append_dropWhile]
  intro a b hab
  rw [List.nil_append, ← escapedAfter_append_left hblank]
  refine h (s.takeWhile isBlank ++ a) (b ++ ((trimStart s).reverse.takeWhile isBlank).reverse) ?_
  conv_lhs => rw [hs, hab]
  simp only [List.append_assoc]

/-- Three quotes in a row are on one side of a line break. -/
theorem quotes_of_append_newline {s t a b : List Char} (h : s ++ '\n' :: t = a ++ quotes ++ b) :
    (∃ c, s = a ++ quotes ++ c) ∨ ∃ c, a = s ++ '\n' :: c ∧ t = c ++ quotes ++ b := by
  induction s generalizing a with
  | nil =>
    cases a with
    | nil => exact absurd (List.cons.inj h).1 (by decide)
    | cons d a =>
      obtain ⟨rfl, htail⟩ := List.cons.inj h
      exact Or.inr ⟨a, rfl, htail⟩
  | cons e s ih =>
    cases a with
    | nil =>
      match s, h with
      | [], h => exact absurd (List.cons.inj (List.cons.inj h).2).1 (by decide)
      | [f], h => exact absurd (List.cons.inj (List.cons.inj (List.cons.inj h).2).2).1 (by decide)
      | f :: g :: s, h =>
        obtain ⟨rfl, rfl, rfl, -⟩ : e = '"' ∧ f = '"' ∧ g = '"' ∧ _ = b := by simpa [quotes] using h
        exact Or.inl ⟨s, rfl⟩
    | cons d a =>
      obtain ⟨rfl, htail⟩ := List.cons.inj h
      rcases ih htail with ⟨c, rfl⟩ | ⟨c, rfl, ht⟩
      · exact Or.inl ⟨c, rfl⟩
      · exact Or.inr ⟨c, rfl, ht⟩

/-- A line break separates quotes, and is no backslash. -/
theorem Contained.append_newline {s t : List Char} (hs : Contained [] s) (ht : Contained [] t) : Contained [] (s ++ '\n' :: t) := by
  intro a b h
  rcases quotes_of_append_newline h with ⟨c, hc⟩ | ⟨c, rfl, hc⟩
  · exact hs a c hc
  · rw [List.nil_append, escapedAfter_append (by decide)]
    exact ht c b hc

end JuliaStubs.Text

namespace JuliaStubs.DocText

open Text

/-- A cleaned text does not end a literal. -/
theorem contained_clean (s : String) : Contained [] (clean s).toList := by
  rw [clean, String.toList_ofList]
  exact (contained_replaceFrom 0 [] _).trim

/-- Neither do two cleaned texts with an empty line between them. -/
theorem contained_clean_append (brief description : String) :
    Contained [] (clean brief ++ "\n\n" ++ clean description).toList := by
  have hsplit : (clean brief ++ "\n\n" ++ clean description).toList =
      (clean brief).toList ++ '\n' :: ([] ++ '\n' :: (clean description).toList) := by
    simp [String.toList_append]
  rw [hsplit]
  exact (contained_clean brief).append_newline ((contained_nil []).append_newline (contained_clean description))

end JuliaStubs.DocText
