import FunctionSymbols.Proofs.CommandRun
import FunctionSymbols.Proofs.Demangling

/-!
# The lexer on bytes

A lexer has what is left of its source, which cannot begin inside a character. A `ByteCursor` has the
number of a byte instead, and nothing says that a character begins there: it slices its source at numbers
of bytes, and a slice that would begin or end inside a character, or behind the end, is none. Blanks and
words move it on by bytes, while the lengths of punctuators count characters. It answers every command as
the lexer does and stays where the lexer is (`Lexer.execute?_bytes`), so none of its slices is missing.
-/

namespace FunctionSymbols

/-- A place in a source, as a number of bytes in UTF-8. -/
structure ByteCursor where
  language : Language
  source : String
  position : Nat

namespace ByteCursor

/-! ## Slices -/

/-- The text from a byte on. -/
def sliceFrom? (start : Nat) (text : List Char) : Option (List Char) :=
  (Symbol.splitAtByte? start text).map Prod.snd

/-- The text up to a byte. -/
def sliceTo? (stop : Nat) (text : List Char) : Option (List Char) :=
  (Symbol.splitAtByte? stop text).map Prod.fst

/-- The bytes at which the characters of a text begin, and the one at which it ends, if the text itself
begins at `offset`. -/
def boundaries (offset : Nat) : List Char → List Nat
  | [] => [offset]
  | c :: rest => offset :: boundaries (offset + c.utf8Size) rest

/-- The slice of the first `n` characters. A text with fewer characters has no such slice to take. -/
def takeChars? (text : List Char) (n : Nat) : Option (Option (List Char)) :=
  match (boundaries 0 text)[n]? with
  | none => some none
  | some stop => (sliceTo? stop text).map some

/-! ## Scanning -/

/-- The first punctuator that one of the lengths finds at the front of a text, and its bytes. -/
def punctuator? (punctuators : TokenTable) (text : List Char) :
    List Nat → Option (Option (Token × Nat))
  | [] => some none
  | n :: lengths => do
    match ← takeChars? text n with
    | none => punctuator? punctuators text lengths
    | some candidate =>
      match punctuators.lookup (String.ofList candidate) with
      | some tag => return some (⟨String.ofList candidate, tag⟩, utf8Length candidate)
      | none => punctuator? punctuators text lengths

/-- The token at the front of a text that does not begin with a blank, and its bytes. -/
def token? (language : Language) (text : List Char) : Option (Token × Nat) := do
  let length := identifierPrefixLength (String.ofList text)
  if 0 < length then
    let lexeme ← sliceTo? length text
    let tag := (language.keywords.lookup (String.ofList lexeme)).getD .identifier
    return (⟨String.ofList lexeme, tag⟩, length)
  else
    match ← punctuator? language.punctuators text language.punctuators.lengths with
    | some found => return found
    | none =>
      match text with
      | c :: _ => return (⟨String.ofList [c], .unknown⟩, c.utf8Size)
      | [] => return (.eof, 0)

/-- The token from a byte on, and the byte behind it. -/
def scan? (language : Language) (source : String) (start : Nat) : Option (Token × Nat) := do
  let rest ← sliceFrom? start source.toList
  let text := rest.dropWhile isBlank
  let place := start + (utf8Length rest - utf8Length text)
  let (token, size) ← token? language text
  return (token, place + size)

/-- Scans `n` times; only the last token counts. -/
def scanTimes? (language : Language) (source : String) : Nat → Token × Nat → Option (Token × Nat)
  | 0, found => some found
  | n + 1, (_, start) => do
    scanTimes? language source n (← scan? language source start)

/-- Scans up to the end token, at most so many times. -/
def scanAll? (language : Language) (source : String) : Nat → Nat → Option (List Token × Nat)
  | 0, _ => none
  | times + 1, start => do
    let (token, stop) ← scan? language source start
    if token.isEof then return ([], stop)
    let (tokens, last) ← scanAll? language source times stop
    return (token :: tokens, last)

/-! ## Commands -/

/-- Carries out one command of a lexer. -/
def execute? (cursor : ByteCursor) : Lexer.Command → Option (Lexer.Reply × ByteCursor)
  | .next => do
    let (token, stop) ← scan? cursor.language cursor.source cursor.position
    return (.token token, { cursor with position := stop })
  | .next? => do
    let (token, stop) ← scan? cursor.language cursor.source cursor.position
    return (.token? (if token.isEof then none else some token), { cursor with position := stop })
  | .lookAhead n => do
    let (token, _) ← scanTimes? cursor.language cursor.source (max n 1) (.eof, cursor.position)
    return (.token token, cursor)
  | .reset source => return (.done, ⟨cursor.language, source, 0⟩)
  | .drain => do
    let (tokens, stop) ←
      scanAll? cursor.language cursor.source (cursor.source.length + 1) cursor.position
    return (.tokens tokens, { cursor with position := stop })
  | .fork => do
    let (tokens, _) ←
      scanAll? cursor.language cursor.source (cursor.source.length + 1) cursor.position
    return (.tokens tokens, cursor)
  | .length => return (.number cursor.source.length, cursor)

/-- Carries out commands in order. -/
def run? (cursor : ByteCursor) : List Lexer.Command → Option (List Lexer.Reply × ByteCursor)
  | [] => some ([], cursor)
  | command :: rest => do
    let (reply, after) ← cursor.execute? command
    let (replies, last) ← after.run? rest
    return (reply :: replies, last)

/-! ## No slice is missing -/

variable {front back text : List Char} {language : Language}

theorem sliceFrom?_append : sliceFrom? (utf8Length front) (front ++ back) = some back := by
  rw [sliceFrom?, Symbol.splitAtByte?_eq_some_iff.2 ⟨rfl, rfl⟩]
  rfl

theorem sliceTo?_append : sliceTo? (utf8Length front) (front ++ back) = some front := by
  rw [sliceTo?, Symbol.splitAtByte?_eq_some_iff.2 ⟨rfl, rfl⟩]
  rfl

/-- A text is sliced at a byte just if a character begins there or the text ends there. -/
theorem sliceFrom?_ne_none_iff {source : String} {start : Nat} :
    sliceFrom? start source.toList ≠ none ↔ String.Pos.Raw.IsValid source ⟨start⟩ := by
  rw [String.Pos.Raw.isValid_iff_exists_append, sliceFrom?, Ne, Option.map_eq_none_iff,
    ← Ne, Option.ne_none_iff_exists']
  constructor
  · rintro ⟨⟨front, back⟩, cut⟩
    obtain ⟨split, size⟩ := Symbol.splitAtByte?_eq_some_iff.1 cut
    have place : (String.ofList front).utf8ByteSize = start := by
      rw [utf8ByteSize_eq_utf8Length, String.toList_ofList, size]
    refine ⟨String.ofList front, String.ofList back, ?_, congrArg String.Pos.Raw.mk place.symm⟩
    rw [← String.ofList_append, ← split, String.ofList_toList]
  · rintro ⟨front, back, rfl, place⟩
    have size : start = front.utf8ByteSize := congrArg String.Pos.Raw.byteIdx place
    refine ⟨(front.toList, back.toList), Symbol.splitAtByte?_eq_some_iff.2 ⟨?_, ?_⟩⟩
    · exact String.toList_append
    · rw [size, utf8ByteSize_eq_utf8Length]

theorem getElem?_boundaries (offset : Nat) (text : List Char) (n : Nat) :
    (boundaries offset text)[n]? =
      if n ≤ text.length then some (offset + utf8Length (text.take n)) else none := by
  induction text generalizing offset n with
  | nil => cases n <;> simp [boundaries, utf8Length]
  | cons c rest ih =>
    cases n with
    | zero => simp [boundaries, utf8Length]
    | succ n =>
      rw [boundaries, List.getElem?_cons_succ, ih]
      simp [utf8Length, Nat.add_assoc]

/-- The slice of as many characters as the text has at least, whatever their bytes are. -/
theorem takeChars?_eq (text : List Char) (n : Nat) :
    takeChars? text n = some (if n ≤ text.length then some (text.take n) else none) := by
  rw [takeChars?, getElem?_boundaries]
  by_cases long : n ≤ text.length
  · have cut : sliceTo? (utf8Length (text.take n)) text = some (text.take n) := by
      have whole := @sliceTo?_append (text.take n) (text.drop n)
      rwa [List.take_append_drop] at whole
    simp only [long, if_true, Nat.zero_add, cut, Option.map_some]
  · simp only [long, if_false]

theorem punctuator?_eq (punctuators : TokenTable) (text : List Char) (lengths : List Nat) :
    punctuator? punctuators text lengths =
      some ((lengths.findSome? (punctuatorOfLength? punctuators text)).map fun found =>
        (found.1, utf8Length found.1.lexeme.toList)) := by
  induction lengths with
  | nil => rfl
  | cons n lengths ih =>
    have long : (text.take n).length = n ↔ n ≤ text.length := by
      rw [List.length_take]
      omega
    rw [punctuator?, takeChars?_eq, List.findSome?_cons, punctuatorOfLength?, Option.bind_eq_bind,
      Option.bind_some]
    by_cases fits : n ≤ text.length
    · simp only [fits, long, if_true]
      cases punctuators.lookup (String.ofList (text.take n)) with
      | none => exact ih
      | some tag => simp [pure]
    · simp only [fits, long, if_false]
      exact ih

theorem punctuatorAt?_nil (punctuators : TokenTable) : punctuatorAt? punctuators [] = none := by
  apply punctuatorAt?_eq_none_iff.2
  intro lexeme front
  have empty : lexeme = "" := String.toList_eq_nil_iff.1 (List.prefix_nil.1 front)
  cases found : punctuators.lookup lexeme with
  | none => rfl
  | some tag => exact absurd empty (TokenTable.ne_empty_of_lookup found)

/-- A token is found with its bytes. -/
theorem token?_eq (language : Language) (text : List Char) :
    token? language text =
      some ((tokenAt language text).1, utf8Length (tokenAt language text).1.lexeme.toList) := by
  have punctuator : punctuator? language.punctuators text language.punctuators.lengths =
      some ((punctuatorAt? language.punctuators text).map fun found =>
        (found.1, utf8Length found.1.lexeme.toList)) :=
    punctuator?_eq language.punctuators text language.punctuators.lengths
  unfold token?
  rw [identifierPrefixLength_eq, String.toList_ofList, punctuator]
  cases text with
  | nil =>
    rw [punctuatorAt?_nil]
    rfl
  | cons c rest =>
    rw [tokenAt]
    by_cases start : isStartChar c = true
    · -- The characters of a word are as many as its bytes, so its length can be a slice.
      have length : wordLength (c :: rest) = utf8Length (c :: rest.takeWhile isContinueChar) := by
        rw [utf8Length_of_isWord (isWord_cons_takeWhile start rest), wordLength_of_isStartChar start]
      have cut : sliceTo? (wordLength (c :: rest)) (c :: rest) =
          some (c :: rest.takeWhile isContinueChar) := by
        have whole := @sliceTo?_append (c :: rest.takeWhile isContinueChar)
          (rest.dropWhile isContinueChar)
        rwa [List.cons_append, List.takeWhile_append_dropWhile, ← length] at whole
      have pos : 0 < wordLength (c :: rest) := by
        rw [wordLength_of_isStartChar start]
        exact Nat.succ_pos _
      rw [if_pos pos, cut, if_pos start, wordAt, length]
      simp [pure]
    · have none : wordLength (c :: rest) = 0 := by rw [wordLength, if_neg start]
      rw [none, if_neg start]
      cases punctuatorAt? language.punctuators (c :: rest) with
      | none =>
        simp [pure, utf8Length]
      | some found => rfl

end ByteCursor

namespace Lexer

/-- The cursor where a lexer is. -/
def bytes (lexer : Lexer) : ByteCursor := ⟨lexer.language, lexer.source, lexer.offset⟩

theorem offset_ofSource (language : Language) (source : String) :
    (ofSource language source).offset = 0 := by
  have whole : (ofSource language source).source.toList = [] ++ (ofSource language source).rest := rfl
  rw [offset_eq whole]
  rfl

/-- What a lexer has left is the slice of its source from its place on. -/
theorem sliceFrom?_offset (lexer : Lexer) :
    ByteCursor.sliceFrom? lexer.offset lexer.source.toList = some lexer.rest := by
  obtain ⟨read, start⟩ := lexer.rest_suffix
  rw [offset_eq start.symm, ← start, ByteCursor.sliceFrom?_append]

theorem isValid_offset (lexer : Lexer) : String.Pos.Raw.IsValid lexer.source ⟨lexer.offset⟩ := by
  apply ByteCursor.sliceFrom?_ne_none_iff.1
  rw [sliceFrom?_offset]
  exact Option.some_ne_none _

/-- One scan: the blanks that are skipped and the token move the cursor as far as the lexer. -/
theorem scan?_bytes (lexer : Lexer) :
    ByteCursor.scan? lexer.language lexer.source lexer.offset =
      some (lexer.next.1, lexer.next.2.offset) := by
  obtain ⟨blanks, run⟩ := lexer.exists_isRun_next
  obtain ⟨-, text⟩ := isRun_iff.1 run
  have skipped :
      utf8Length lexer.rest - utf8Length (lexer.rest.dropWhile isBlank) = utf8Length blanks := by
    rw [← text, run.split, utf8Length_append, Nat.add_sub_cancel]
  have found : ByteCursor.token? lexer.language (lexer.rest.dropWhile isBlank) =
      some (lexer.next.1, utf8Length lexer.next.1.lexeme.toList) :=
    ByteCursor.token?_eq lexer.language _
  rw [ByteCursor.scan?, sliceFrom?_offset, Option.bind_eq_bind, Option.bind_some]
  dsimp only
  rw [found, skipped, offset_next_of_isRun run]
  rfl

/-- Scanning again and again looks ahead. -/
theorem scanTimes?_bytes (lexer : Lexer) (n : Nat) (token : Token) :
    ∃ stop, ByteCursor.scanTimes? lexer.language lexer.source (n + 1) (token, lexer.offset) =
      some (lexer.lookAhead (n + 1), stop) := by
  induction n generalizing lexer token with
  | zero =>
    refine ⟨lexer.next.2.offset, ?_⟩
    rw [ByteCursor.scanTimes?, scan?_bytes]
    rfl
  | succ n ih =>
    obtain ⟨stop, ahead⟩ := ih lexer.next.2 lexer.next.1
    refine ⟨stop, ?_⟩
    rw [ByteCursor.scanTimes?, scan?_bytes]
    exact ahead

/-- Scanning up to the end token drains, if that many scans are made as characters are left. -/
theorem scanAll?_bytes (lexer : Lexer) {times : Nat} (enough : lexer.rest.length < times) :
    ByteCursor.scanAll? lexer.language lexer.source times lexer.offset =
      some (lexer.drain.1, lexer.drain.2.offset) := by
  induction times generalizing lexer with
  | zero => cases enough
  | succ times ih =>
    rw [ByteCursor.scanAll?, scan?_bytes, Option.bind_eq_bind, Option.bind_some]
    cases eof : lexer.next.1.isEof with
    | true =>
      rw [drain_of_isEof eof]
      simp [eof, pure]
    | false =>
      have shorter : lexer.next.2.rest.length < lexer.rest.length := length_scan_lt eof
      have rest := ih lexer.next.2 (by omega)
      rw [drain_of_not_isEof eof]
      simp only [language_next, source_next] at rest
      simp [eof, rest, pure]

/-- Wherever a lexer is, its cursor answers every command, as the lexer does, and stays where it is. -/
theorem execute?_bytes (lexer : Lexer) (command : Command) :
    lexer.bytes.execute? command =
      some ((lexer.execute command).1, (lexer.execute command).2.bytes) := by
  have drained : ByteCursor.scanAll? lexer.language lexer.source (lexer.source.length + 1)
      lexer.offset = some (lexer.drain.1, lexer.drain.2.offset) := by
    apply scanAll?_bytes
    have short := lexer.rest_suffix.length_le
    rw [String.length_toList] at short
    exact Nat.lt_succ_of_le short
  cases command with
  | next =>
    rw [ByteCursor.execute?, bytes, scan?_bytes]
    rfl
  | next? =>
    rw [ByteCursor.execute?, bytes, scan?_bytes]
    rfl
  | lookAhead n =>
    obtain ⟨stop, ahead⟩ := lexer.scanTimes?_bytes (max n 1 - 1) .eof
    have times : max n 1 - 1 + 1 = max n 1 := by omega
    have same : lexer.lookAhead (max n 1) = lexer.lookAhead n := by
      cases n with
      | zero => rfl
      | succ n => rw [Nat.max_eq_left (Nat.succ_pos n)]
    rw [times, same] at ahead
    rw [ByteCursor.execute?, bytes, ahead]
    rfl
  | reset source =>
    have place : (lexer.reset source).offset = 0 := offset_ofSource lexer.language source
    have start : (lexer.reset source).bytes = ⟨lexer.language, source, 0⟩ := by
      rw [bytes, place]
      rfl
    rw [ByteCursor.execute?, execute, start]
    rfl
  | drain =>
    rw [ByteCursor.execute?, bytes, drained]
    rfl
  | fork =>
    rw [ByteCursor.execute?, bytes, drained]
    rfl
  | length => rfl

theorem run?_bytes (lexer : Lexer) (commands : List Command) :
    lexer.bytes.run? commands = some ((lexer.run commands).1, (lexer.run commands).2.bytes) := by
  induction commands generalizing lexer with
  | nil => rfl
  | cons command rest ih =>
    rw [ByteCursor.run?, execute?_bytes, Option.bind_eq_bind, Option.bind_some]
    dsimp only
    rw [ih, run_cons]
    rfl

/-- No command but a reset moves a lexer back. -/
theorem offset_le_execute (lexer : Lexer) {command : Command} (kept : ∀ source, command ≠ .reset source) :
    lexer.offset ≤ (lexer.execute command).2.offset := by
  have next : lexer.offset ≤ lexer.next.2.offset :=
    Nat.le_trans (Nat.le_add_right _ _) lexer.offset_add_le_next
  cases command with
  | next => exact next
  | next? => exact next
  | lookAhead n => exact Nat.le_refl _
  | reset source => exact absurd rfl (kept source)
  | drain =>
    show lexer.offset ≤ lexer.atEnd.offset
    rw [offset_atEnd]
    exact Nat.sub_le _ _
  | fork => exact Nat.le_refl _
  | length => exact Nat.le_refl _

/-- **No character is cut.** Let the commands of a run be carried out with numbers of bytes, where every
slice of a source or of what is left of it has to begin and end between characters: no slice is missing,
the answers are those of the lexer, and the cursor is where the lexer is. This is a place in the source
at which a character begins or the source ends. From there only a reset leads back, and it leads to the
start. -/
theorem run_between_characters (language : Language) (source : String) (commands : List Command) :
    let run := (ofSource language source).run commands
    (⟨language, source, 0⟩ : ByteCursor).run? commands =
      some (run.1, ⟨language, run.2.source, run.2.offset⟩) ∧
    run.2.offset ≤ run.2.source.utf8ByteSize ∧
    String.Pos.Raw.IsValid run.2.source ⟨run.2.offset⟩ ∧
    (∀ text, (run.2.execute (.reset text)).2.offset = 0) ∧
    ∀ command, (∀ text, command ≠ .reset text) →
      run.2.offset ≤ (run.2.execute command).2.offset := by
  intro run
  have start : (ofSource language source).bytes = ⟨language, source, 0⟩ := by
    rw [bytes, offset_ofSource]
    rfl
  have last : run.2.bytes = ⟨language, run.2.source, run.2.offset⟩ := by
    rw [bytes, ((follows_ofSource language source).run commands).2.language_eq]
  refine ⟨?_, Nat.sub_le _ _, run.2.isValid_offset, fun text => offset_ofSource _ text,
    fun command kept => run.2.offset_le_execute kept⟩
  rw [← start, ← last]
  exact run?_bytes _ commands

/-- Behind a blank and two characters of several bytes, the first of which is a punctuator. -/
theorem run_between_characters_arrow :
    let run := (ofSource Language.arrows " →é x").run [.next, .lookAhead 2, .next?]
    run.2.offset = 6 ∧ String.Pos.Raw.IsValid " →é x" ⟨6⟩ ∧ (∀ text, Command.drain ≠ .reset text) ∧
      run.2.offset ≤ (run.2.execute .drain).2.offset := by
  intro run
  obtain ⟨-, -, valid, -, forward⟩ :=
    run_between_characters Language.arrows " →é x" [.next, .lookAhead 2, .next?]
  have place : run.2.offset = 6 := by decide +kernel
  have kept : ∀ text, Command.drain ≠ .reset text := by simp
  refine ⟨place, ?_, kept, forward .drain kept⟩
  rw [← place]
  exact valid

end Lexer

end FunctionSymbols
