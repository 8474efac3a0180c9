import JuliaStubs.Json.Draft

/-!
# Reading JSON texts

`Document.ofText` reads a text from left to right in one pass and never fails: what is wrong with the text becomes a breach of the
draft. Each reader of a value says with what follows the value that it is shorter than the text, so that reading ends.
-/

namespace JuliaStubs.Json

/-- What was read, and the text that follows it, of fewer characters than a bound; none when reading stopped at a breach. -/
structure Scan (α : Type) (bound : Nat) where
  value : α
  rest : Option { r : List Char // r.length < bound }

/-- What was read, as part of something greater in a text that is no shorter. -/
def Scan.within {α β : Type} {m n : Nat} (scan : Scan α m) (f : α → β) (h : m ≤ n) : Scan β n :=
  ⟨f scan.value, scan.rest.map fun r => ⟨r.1, Nat.lt_of_lt_of_le r.2 h⟩⟩

/-- The blanks between the tokens of JSON. -/
def isGap (c : Char) : Bool := c == ' ' || c == '\n' || c == '\t' || c == '\r'

/-- The text from its first token on. -/
def skipGap (s : List Char) : List Char := s.dropWhile isGap

/-- After the first character of the first token the text is shorter. -/
theorem length_lt_of_skipGap {s rest : List Char} {c : Char} (h : skipGap s = c :: rest) : rest.length < s.length := by
  have := (List.dropWhile_suffix isGap (l := s)).length_le
  rw [← skipGap, h, List.length_cons] at this
  omega

/-- Reads the rest of the name of a constant: what follows it, or what is wrong first. -/
def readWord : List Char → List Char → Except Breach (List Char)
  | [], s => .ok s
  | _ :: _, [] => .error (.inside .truncated .truncated)
  | w :: word, c :: s => if c = w then readWord word s else .error (.plain .malformed)

/-- After the rest of a name the text is no longer than before. -/
theorem length_le_of_readWord {word s rest : List Char} (h : readWord word s = .ok rest) : rest.length ≤ s.length := by
  fun_induction readWord word s with
  | case1 s => simp_all
  | case2 => simp at h
  | case3 word c s ih => exact Nat.le_succ_of_le (ih h)
  | case4 => simp at h

/-- Reads the rest of the name of a constant as a value. -/
def readConstant (value : Draft) (word s : List Char) : Scan Draft (s.length + 1) :=
  match h : readWord word s with
  | .ok rest => ⟨value, some ⟨rest, Nat.lt_succ_of_le (length_le_of_readWord h)⟩⟩
  | .error breach => ⟨.broken breach, none⟩

/-! ### Strings -/

/-- The value of a hexadecimal digit. -/
def hexDigit? (c : Char) : Option Nat :=
  if '0' ≤ c ∧ c ≤ '9' then some (c.toNat - '0'.toNat)
  else if 'a' ≤ c ∧ c ≤ 'f' then some (c.toNat - 'a'.toNat + 10)
  else if 'A' ≤ c ∧ c ≤ 'F' then some (c.toNat - 'A'.toNat + 10)
  else none

/-- The value of four hexadecimal digits. -/
def hexUnit? (a b c d : Char) : Option Nat := do
  return 4096 * (← hexDigit? a) + 256 * (← hexDigit? b) + 16 * (← hexDigit? c) + (← hexDigit? d)

/-- The character that a one-letter escape stands for. -/
def shortEscape? (c : Char) : Option Char :=
  if c = '"' || c = '\\' || c = '/' then some c
  else if c = 'b' then some '\x08'
  else if c = 'f' then some '\x0c'
  else if c = 'n' then some '\n'
  else if c = 'r' then some '\r'
  else if c = 't' then some '\t'
  else none

/-- Why four hexadecimal digits cannot be read here: fewer than four bytes are left, or one is no digit. -/
def hexFlaw (s : List Char) : Flaw := if s.foldl (fun bytes c => bytes + c.utf8Size) 0 < 4 then .truncated else .malformed

/-- The code units of a string after its opening quote, and the text after its closing quote or what is wrong first. -/
def readUnits : List Char → List Nat × Except Flaw (List Char)
  | [] => ([], .error .truncated)
  | '"' :: rest => ([], .ok rest)
  | ['\\'] => ([], .error .truncated)
  | '\\' :: 'u' :: a :: b :: c :: d :: rest =>
    match hexUnit? a b c d with
    | none => ([], .error (hexFlaw (a :: b :: c :: d :: rest)))
    | some unit =>
      let (units, ending) := readUnits rest
      (unit :: units, ending)
  | '\\' :: 'u' :: rest => ([], .error (hexFlaw rest))
  | '\\' :: c :: rest =>
    match shortEscape? c with
    | none => ([], .error .malformed)
    | some c =>
      let (units, ending) := readUnits rest
      (c.toNat :: units, ending)
  | c :: rest =>
    if c.toNat < 32 then ([], .error .malformed)
    else
      let (units, ending) := readUnits rest
      (c.toNat :: units, ending)

/-- After a closing quote the text is shorter. -/
theorem length_lt_of_readUnits {s rest : List Char} (h : (readUnits s).2 = .ok rest) : rest.length < s.length := by
  fun_induction readUnits s <;> simp_all <;> omega

/-- Whether a code unit opens a surrogate pair. -/
def isLead (unit : Nat) : Bool := 0xD800 ≤ unit && unit ≤ 0xDBFF

/-- Whether a code unit closes a surrogate pair. -/
def isTrail (unit : Nat) : Bool := 0xDC00 ≤ unit && unit ≤ 0xDFFF

/-- Code units as characters, surrogates in pairs; none when a surrogate has no partner. A last unit that opens a pair counts as
paired when `continued` says that more would have followed. -/
def pairUnits (continued : Bool) : List Nat → Option (List Char)
  | [] => some []
  | [unit] =>
    if isTrail unit then none
    else if isLead unit then if continued then some [] else none
    else some [Char.ofNat unit]
  | unit :: next :: rest =>
    if isLead unit then
      if isTrail next then
        (pairUnits continued rest).map (Char.ofNat (0x10000 + 0x400 * (unit - 0xD800) + (next - 0xDC00)) :: ·)
      else none
    else if isTrail unit then none
    else (pairUnits continued (next :: rest)).map (Char.ofNat unit :: ·)

/-- Reads a string after its opening quote: none for unpaired surrogates, a breach when it does not end well. -/
def readString (s : List Char) : Except Breach (Option String × List Char) :=
  match readUnits s with
  | (units, .ok rest) => .ok ((pairUnits false units).map String.ofList, rest)
  | (units, .error flaw) =>
    let kept := if (pairUnits true units).isNone then .malformed else flaw
    .error ⟨kept, flaw, kept⟩

/-- After a string the text is shorter. -/
theorem length_lt_of_readString {s rest : List Char} {text : Option String} (h : readString s = .ok (text, rest)) :
    rest.length < s.length := by
  unfold readString at h
  split at h
  · next heq =>
    simp only [Except.ok.injEq, Prod.mk.injEq] at h
    exact length_lt_of_readUnits (by rw [heq, h.2])
  · simp at h

/-- Reads a string after its opening quote as a value. -/
def readText (s : List Char) : Scan Draft s.length :=
  match h : readString s with
  | .ok (text, rest) => ⟨.string text, some ⟨rest, length_lt_of_readString h⟩⟩
  | .error breach => ⟨.broken breach, none⟩

/-! ### Numbers -/

/-- The leading decimal digits of a text and what follows them. -/
def readDigits : List Char → List Nat × List Char
  | [] => ([], [])
  | c :: rest =>
    if c.isDigit then
      let (digits, rest) := readDigits rest
      ((c.toNat - '0'.toNat) :: digits, rest)
    else ([], c :: rest)

/-- Each character of a text is a leading digit or follows the leading digits. -/
theorem length_readDigits (s : List Char) : (readDigits s).1.length + (readDigits s).2.length = s.length := by
  fun_induction readDigits s with
  | case1 => rfl
  | case2 c rest _ digits rest' h ih => simp only [h, List.length_cons] at ih ⊢; omega
  | case3 => simp

/-- A number that breaks off before `rest`: at the end of the text a kept number is truncated. -/
def brokenNumber (rest : List Char) : Breach := .inside (if rest.isEmpty then .truncated else .malformed) .malformed

/-- Whether an exponent starts with a minus, and what follows its sign. -/
def readSign : List Char → Bool × List Char
  | '-' :: rest => (true, rest)
  | '+' :: rest => (false, rest)
  | rest => (false, rest)

/-- After a sign the text is no longer than before. -/
theorem length_readSign (s : List Char) : (readSign s).2.length ≤ s.length := by
  unfold readSign
  split <;> simp

/-- Reads digits, of which there must be one at least. -/
def readSomeDigits (s : List Char) : Except Breach (List Nat × List Char) :=
  match readDigits s with
  | ([], rest) => .error (brokenNumber rest)
  | (digits, rest) => .ok (digits, rest)

/-- After digits the text is shorter. -/
theorem length_lt_of_readSomeDigits {s rest : List Char} {digits : List Nat}
    (h : readSomeDigits s = .ok (digits, rest)) : rest.length < s.length := by
  have total := length_readDigits s
  unfold readSomeDigits at h
  split at h
  · simp at h
  · next digits' rest' nonempty heq =>
    have := List.length_pos_iff.2 nonempty
    simp_all
    omega

/-- Reads the exponent of a numeral, if there is one. -/
def readExponent (s : List Char) : Except Breach (Option (Bool × List Nat) × List Char) :=
  match s with
  | c :: rest =>
    if c = 'e' || c = 'E' then
      let (below, rest) := readSign rest
      (readSomeDigits rest).map fun (digits, rest) => (some (below, digits), rest)
    else .ok (none, s)
  | [] => .ok (none, s)

/-- After an exponent the text is no longer than before. -/
theorem length_le_of_readExponent {s rest : List Char} {exponent : Option (Bool × List Nat)}
    (h : readExponent s = .ok (exponent, rest)) : rest.length ≤ s.length := by
  unfold readExponent at h
  split at h
  · next c tail =>
    split at h
    · cases hd : readSomeDigits (readSign tail).2 with
      | error _ => simp [hd, Except.map] at h
      | ok found =>
        have : found.2.length < _ := length_lt_of_readSomeDigits hd
        have := length_readSign tail
        simp only [hd, Except.map, Except.ok.injEq, Prod.mk.injEq] at h
        simp only [List.length_cons, ← h.2]
        omega
    · simp_all
  · simp_all

/-- Reads the fraction of a numeral, if there is one. -/
def readFraction (s : List Char) : Except Breach (Option (List Nat) × List Char) :=
  match s with
  | '.' :: rest => (readSomeDigits rest).map fun (digits, rest) => (some digits, rest)
  | _ => .ok (none, s)

/-- After a fraction the text is no longer than before. -/
theorem length_le_of_readFraction {s rest : List Char} {fraction : Option (List Nat)}
    (h : readFraction s = .ok (fraction, rest)) : rest.length ≤ s.length := by
  unfold readFraction at h
  split at h
  · next tail =>
    cases hd : readSomeDigits tail with
    | error _ => simp [hd, Except.map] at h
    | ok found =>
      have : found.2.length < _ := length_lt_of_readSomeDigits hd
      simp only [hd, Except.map, Except.ok.injEq, Prod.mk.injEq] at h
      simp only [List.length_cons, ← h.2]
      omega
  · simp_all

/-- Reads the whole part of a numeral: a zero alone, or digits that do not start with zero. -/
def readInteger (s : List Char) : Except Breach (List Nat × List Char) :=
  match readSomeDigits s with
  | .ok (0 :: _ :: _, _) => .error (.plain .malformed)
  | outcome => outcome

/-- After the whole part of a numeral the text is shorter. -/
theorem length_lt_of_readInteger {s rest : List Char} {integer : List Nat}
    (h : readInteger s = .ok (integer, rest)) : rest.length < s.length := by
  unfold readInteger at h
  split at h
  · simp at h
  · exact length_lt_of_readSomeDigits h

/-- Reads a numeral after its sign. -/
def readNumeral (negative : Bool) (s : List Char) : Except Breach (Numeral × List Char) := do
  let (integer, s) ← readInteger s
  let (fraction, s) ← readFraction s
  let (exponent, s) ← readExponent s
  return (⟨negative, integer, fraction, exponent⟩, s)

/-- After a numeral the text is shorter. -/
theorem length_lt_of_readNumeral {negative : Bool} {s rest : List Char} {numeral : Numeral}
    (h : readNumeral negative s = .ok (numeral, rest)) : rest.length < s.length := by
  unfold readNumeral at h
  simp only [bind, Except.bind, pure, Except.pure] at h
  split at h
  · simp at h
  · next found hi =>
    split at h
    · simp at h
    · next found' hf =>
      split at h
      · simp at h
      · next found'' he =>
        have : found.2.length < _ := length_lt_of_readInteger hi
        have : found'.2.length ≤ _ := length_le_of_readFraction hf
        have : found''.2.length ≤ _ := length_le_of_readExponent he
        simp only [Except.ok.injEq, Prod.mk.injEq] at h
        rw [← h.2]
        omega

/-- Reads a number after its sign as a value. -/
def readNumber (negative : Bool) (s : List Char) : Scan Draft s.length :=
  match h : readNumeral negative s with
  | .ok (numeral, rest) => ⟨.number numeral.number?, some ⟨rest, length_lt_of_readNumeral h⟩⟩
  | .error breach => ⟨.broken breach, none⟩

/-! ### Values -/

mutual

/-- Reads a value after its gap. -/
def readValue (s : List Char) : Scan Draft s.length :=
  match h : skipGap s with
  | [] => ⟨.broken (.plain .truncated), none⟩
  | c :: rest =>
    have bound : rest.length + 1 ≤ s.length := length_lt_of_skipGap h
    if c = 'n' then (readConstant .null ['u', 'l', 'l'] rest).within id bound
    else if c = 't' then (readConstant (.bool true) ['r', 'u', 'e'] rest).within id bound
    else if c = 'f' then (readConstant (.bool false) ['a', 'l', 's', 'e'] rest).within id bound
    else if c = '"' then (readText rest).within id (Nat.le_of_lt bound)
    else if c = '[' then (readItems true rest).within .array (Nat.le_of_lt bound)
    else if c = '\x7b' then (readMembers true rest).within .object (Nat.le_of_lt bound)
    else if c = '-' then (readNumber true rest).within id (Nat.le_of_lt bound)
    else if c.isDigit then (readNumber false (c :: rest)).within id bound
    else ⟨.broken (.plain .malformed), none⟩
termination_by (s.length, 0)

/-- Reads an item of an array and the items after it. -/
def readItem (s : List Char) : Scan Items s.length :=
  let value := readValue s
  match value.rest with
  | none => ⟨.item value.value .closed, none⟩
  | some ⟨rest, bound⟩ => (readItems false rest).within (.item value.value) (Nat.le_of_lt bound)
termination_by (s.length, 1)

/-- Reads the items of an array up to its end, the first one without a comma before it. -/
def readItems (first : Bool) (s : List Char) : Scan Items s.length :=
  match h : skipGap s with
  | [] => ⟨.broken (.plain .truncated), none⟩
  | c :: rest =>
    have bound : rest.length + 1 ≤ s.length := length_lt_of_skipGap h
    if c = ']' then ⟨.closed, some ⟨rest, bound⟩⟩
    else if first then readItem s
    else if c = ',' then
      match skipGap rest with
      | ']' :: _ => ⟨.broken (.plain .malformed), none⟩
      | _ => (readItem rest).within id (Nat.le_of_lt bound)
    else ⟨.broken (.plain .malformed), none⟩
termination_by (s.length, 2)

/-- Reads a member of an object after the opening quote of its key, and the members after it. -/
def readMember (first : Bool) (s : List Char) : Scan Members s.length :=
  match h : readString s with
  | .error breach => ⟨.broken (if first then breach else .inside breach.kept breach.skipped), none⟩
  | .ok (key, rest) =>
    match h' : skipGap rest with
    | [] => ⟨.member key (.broken (.plain .truncated)) .closed, none⟩
    | c :: rest' =>
      have bound : rest'.length + 1 < s.length := Nat.lt_of_le_of_lt (length_lt_of_skipGap h') (length_lt_of_readString h)
      if c = ':' then
        let value := readValue rest'
        match value.rest with
        | none => ⟨.member key value.value .closed, none⟩
        | some ⟨rest'', bound'⟩ =>
          (readMembers false rest'').within (.member key value.value) (by omega)
      else ⟨.member key (.broken (.plain .malformed)) .closed, none⟩
termination_by (s.length, 0)

/-- Reads the members of an object up to its end, the first one without a comma before it. -/
def readMembers (first : Bool) (s : List Char) : Scan Members s.length :=
  match h : skipGap s with
  | [] => ⟨.broken (.plain .truncated), none⟩
  | c :: rest =>
    have bound : rest.length + 1 ≤ s.length := length_lt_of_skipGap h
    if c = '\x7d' then ⟨.closed, some ⟨rest, bound⟩⟩
    else if first then
      if c = '"' then (readMember true rest).within id (Nat.le_of_lt bound) else ⟨.broken (.plain .malformed), none⟩
    else if c = ',' then
      match h' : skipGap rest with
      | [] => ⟨.broken (.inside .truncated .truncated), none⟩
      | c :: rest' =>
        have bound' : rest'.length < s.length := Nat.lt_trans (length_lt_of_skipGap h') bound
        if c = '"' then (readMember false rest').within id (Nat.le_of_lt bound') else ⟨.broken (.plain .malformed), none⟩
    else ⟨.broken (.plain .malformed), none⟩
termination_by (s.length, 0)

end

/-- A text as a draft, and what is wrong after a well-formed value. -/
structure Document where
  root : Draft
  trailing : Option Flaw

/-- Reads a text. -/
def Document.ofText (text : String) : Document :=
  let root := readValue text.toList
  let trailing := match root.rest with
    | some rest => if (skipGap rest).isEmpty then none else some .malformed
    | none => none
  ⟨root.value, trailing⟩

end JuliaStubs.Json
