import FunctionSymbols.Catalog.Number

/-!
# Words of a catalog line

A line of a TOML document is cut into plain words (bare keys and numbers), quoted keys and marks.
Blanks only separate words, and a comment runs to the end of the line. Control characters other than
the tab stand nowhere.
-/

namespace FunctionSymbols.Catalog

/-- A piece of a line. -/
inductive Word where
  /-- A run of letters, digits, underscores and signs. -/
  | plain (text : List Char)
  /-- A quoted key without its quotes and escapes. -/
  | quoted (text : List Char)
  /-- A character that structures the line. -/
  | mark (c : Char)
deriving DecidableEq, Repr

/-- The tab and every character from the space on, except the delete character. -/
def isVisible (c : Char) : Bool := c == '\t' || (' ' ≤ c && c != '\x7f')

/-- The characters of bare keys. -/
def isBareChar (c : Char) : Bool := c.isAlphanum || c == '_' || c == '-'

/-- The characters of plain words: those of bare keys and the plus sign. -/
def isPlainChar (c : Char) : Bool := isBareChar c || c == '+'

/-- The characters that structure a line: point, comma, equals sign, brackets and braces. -/
def isMark (c : Char) : Bool := ['.', ',', '=', '[', ']', '\x7b', '\x7d'].contains c

/-- The character with this number in exactly `n` hexadecimal digits. -/
def codePoint? (n : Nat) (text : List Char) : Option (Char × List Char) :=
  let digits := text.take n
  if digits.length = n then
    match digits.mapM (digitBelow? 16) with
    | some values =>
      let number := values.foldl (fun value d => 16 * value + d) 0
      if number.isValidChar then some (Char.ofNat number, text.drop n) else none
    | none => none
  else none

/-- The characters that one letter behind a backslash stands for. -/
def shortEscape? (c : Char) : Option Char :=
  [('b', '\x08'), ('t', '\t'), ('n', '\n'), ('f', '\x0c'), ('r', '\r'), ('\x22', '\x22'),
   ('\\', '\\')].lookup c

/-- The character that is written behind a backslash, and what follows it. -/
def escape? : List Char → Option (Char × List Char)
  | [] => none
  | c :: rest =>
    match shortEscape? c with
    | some e => some (e, rest)
    | none =>
      if c = 'u' then codePoint? 4 rest
      else if c = 'U' then codePoint? 8 rest
      else none

theorem length_of_codePoint? {n : Nat} {text rest : List Char} {c : Char}
    (h : codePoint? n text = some (c, rest)) : rest.length ≤ text.length := by
  simp only [codePoint?] at h
  split at h
  · split at h
    · split at h
      · cases h
        simp
      · cases h
    · cases h
  · cases h

theorem length_of_escape? {text rest : List Char} {c : Char}
    (h : escape? text = some (c, rest)) : rest.length < text.length := by
  cases text with
  | nil => cases h
  | cons d tail =>
    have point {n : Nat} (h : codePoint? n tail = some (c, rest)) :
        rest.length < (d :: tail).length := by
      have := length_of_codePoint? h
      simp only [List.length_cons]
      omega
    simp only [escape?] at h
    split at h
    · cases h
      simp
    · split at h
      · exact point h
      · split at h
        · exact point h
        · cases h

/-- The text of a double-quoted key up to its closing quote, and what follows. -/
def basicText? : List Char → Option (List Char × List Char)
  | [] => none
  | c :: rest =>
    if c = '\x22' then some ([], rest)
    else if c = '\\' then
      match h : escape? rest with
      | some (e, tail) =>
        have := length_of_escape? h
        (basicText? tail).map fun r => (e :: r.1, r.2)
      | none => none
    else if isVisible c then (basicText? rest).map fun r => (c :: r.1, r.2)
    else none
termination_by text => text.length
decreasing_by all_goals (simp only [List.length_cons]; omega)

/-- The text of a single-quoted key up to its closing quote, and what follows. -/
def literalText? : List Char → Option (List Char × List Char)
  | [] => none
  | c :: rest =>
    if c = '\x27' then some ([], rest)
    else if isVisible c then (literalText? rest).map fun r => (c :: r.1, r.2)
    else none

theorem length_of_basicText? {text quoted rest : List Char}
    (h : basicText? text = some (quoted, rest)) : rest.length < text.length := by
  fun_induction basicText? text generalizing quoted with
  | case1 => cases h
  | case2 =>
    cases h
    simp
  | case3 tail e after hesc hlt _ ih =>
    simp only [Option.map_eq_some_iff, Prod.mk.injEq, Prod.exists] at h
    obtain ⟨q, r, hr, -, rfl⟩ := h
    have := ih hr
    simp only [List.length_cons]
    omega
  | case4 => cases h
  | case5 c tail _ _ _ ih =>
    simp only [Option.map_eq_some_iff, Prod.mk.injEq, Prod.exists] at h
    obtain ⟨q, r, hr, -, rfl⟩ := h
    have := ih hr
    simp only [List.length_cons]
    omega
  | case6 => cases h

theorem length_of_literalText? {text quoted rest : List Char}
    (h : literalText? text = some (quoted, rest)) : rest.length < text.length := by
  fun_induction literalText? text generalizing quoted with
  | case1 => cases h
  | case2 =>
    cases h
    simp
  | case3 c tail _ _ ih =>
    simp only [Option.map_eq_some_iff, Prod.mk.injEq, Prod.exists] at h
    obtain ⟨q, r, hr, -, rfl⟩ := h
    have := ih hr
    simp only [List.length_cons]
    omega
  | case4 => cases h

/-- The words of a line. -/
def words? : List Char → Option (List Word)
  | [] => some []
  | c :: rest =>
    if c = ' ' ∨ c = '\t' then words? rest
    else if c = '#' then (if rest.all isVisible then some [] else none)
    else if isMark c then (words? rest).map (.mark c :: ·)
    else if c = '\x22' then
      match h : basicText? rest with
      | some (text, tail) =>
        have := length_of_basicText? h
        (words? tail).map (.quoted text :: ·)
      | none => none
    else if c = '\x27' then
      match h : literalText? rest with
      | some (text, tail) =>
        have := length_of_literalText? h
        (words? tail).map (.quoted text :: ·)
      | none => none
    else if isPlainChar c then
      have := (List.dropWhile_suffix (l := rest) isPlainChar).length_le
      (words? (rest.dropWhile isPlainChar)).map (.plain (c :: rest.takeWhile isPlainChar) :: ·)
    else none
termination_by text => text.length
decreasing_by all_goals (simp only [List.length_cons]; omega)

end FunctionSymbols.Catalog
