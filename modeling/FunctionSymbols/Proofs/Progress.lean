import FunctionSymbols.Lexer.Command
import FunctionSymbols.Proofs.Coverage

/-!
# Progress and the end

Every token but the end token takes characters off a source: no registered lexeme is empty, and none is
registered under the tag of the end token. So there are no more tokens than characters, and asking for
one token after the other comes to an end (`Drains`). At the end nothing changes any more but by another
source.
-/

namespace FunctionSymbols

/-- A text has no more tokens than characters. -/
theorem length_tokens_le (language : Language) (text : List Char) :
    (tokens language text).length ≤ text.length := by
  induction text using scan_induction language with
  | ended text eof =>
    rw [tokens_of_isEof eof]
    exact Nat.zero_le _
  | more text eof ih =>
    have shorter := length_scan_lt eof
    rw [tokens_of_not_isEof eof, List.length_cons]
    omega

namespace Lexer

variable {lexer after : Lexer} {tokens : List Token}

/-! ## One token -/

theorem isEof_next (lexer : Lexer) :
    lexer.next.1.isEof = (lexer.rest.dropWhile isBlank).isEmpty :=
  isEof_tokenAt lexer.language _

/-- The end token comes exactly where only blanks are left. -/
theorem isEof_next_iff : lexer.next.1.isEof = true ↔ ∀ c ∈ lexer.rest, isBlank c = true := by
  rw [isEof_next, List.isEmpty_iff, List.dropWhile_eq_nil_iff]

theorem lexeme_next_ne_empty (more : lexer.next.1.isEof = false) : lexer.next.1.lexeme ≠ "" := by
  rw [isEof_next, List.isEmpty_eq_false_iff] at more
  have chars := @toList_lexeme_tokenAt_ne_nil lexer.language _ more
  exact fun empty => chars (String.toList_eq_nil_iff.2 empty)

/-- The place moves by the bytes of the blanks and of the token. -/
theorem offset_next_of_isRun {blanks : List Char}
    (run : IsRun isBlank lexer.rest blanks (lexer.next.1.lexeme.toList ++ lexer.next.2.rest)) :
    lexer.next.2.offset =
      lexer.offset + utf8Length blanks + utf8Length lexer.next.1.lexeme.toList := by
  obtain ⟨read, start⟩ := lexer.rest_suffix
  have split : lexer.next.2.source.toList =
      (read ++ blanks ++ lexer.next.1.lexeme.toList) ++ lexer.next.2.rest := by
    rw [source_next, ← start, run.split]
    simp only [List.append_assoc]
  rw [offset_eq split, offset_eq start.symm, utf8Length_append, utf8Length_append]

theorem offset_add_le_next (lexer : Lexer) :
    lexer.offset + utf8Length lexer.next.1.lexeme.toList ≤ lexer.next.2.offset := by
  obtain ⟨blanks, run⟩ := lexer.exists_isRun_next
  have moved := offset_next_of_isRun run
  omega

theorem offset_lt_next (more : lexer.next.1.isEof = false) : lexer.offset < lexer.next.2.offset := by
  have moved := lexer.offset_add_le_next
  have present : lexer.next.1.lexeme.toList ≠ [] := by
    rw [Ne, String.toList_eq_nil_iff]
    exact lexeme_next_ne_empty more
  have pos := List.length_pos_iff.2 present
  have bytes := length_le_utf8Length lexer.next.1.lexeme.toList
  omega

/-- The lexer behind the whole of its source, where draining leaves it. -/
def atEnd (lexer : Lexer) : Lexer := lexer.drain.2

theorem next_of_isEof (ended : lexer.next.1.isEof = true) : lexer.next = (.eof, lexer.atEnd) := by
  have scanned : scan lexer.language lexer.rest = (.eof, []) := scan_eq_of_isEof ended
  simp only [next, scanned]
  rfl

theorem offset_atEnd (lexer : Lexer) : lexer.atEnd.offset = lexer.source.utf8ByteSize := by
  have whole : lexer.atEnd.source.toList = lexer.source.toList ++ lexer.atEnd.rest :=
    (List.append_nil _).symm
  rw [offset_eq whole, utf8ByteSize_eq_utf8Length]

/-- What holds of lexers that have no more tokens, and of a lexer when it holds behind its next token,
holds of every lexer. -/
@[elab_as_elim]
theorem next_induction {motive : Lexer → Prop}
    (ended : ∀ lexer, lexer.next.1.isEof = true → motive lexer)
    (more : ∀ lexer, lexer.next.1.isEof = false → motive lexer.next.2 → motive lexer)
    (lexer : Lexer) : motive lexer := by
  induction h : lexer.rest.length using Nat.strongRecOn generalizing lexer with
  | ind n ih =>
    cases eof : lexer.next.1.isEof with
    | true => exact ended lexer eof
    | false => exact more lexer eof (ih _ (h ▸ length_scan_lt eof) _ rfl)

/-! ## Draining -/

/-- Asking for the next token until there is none gives these tokens and leaves the lexer so. -/
inductive Drains : Lexer → List Token → Lexer → Prop where
  | ended {lexer : Lexer} (missing : lexer.next?.1 = none) : Drains lexer [] lexer.next?.2
  | more {lexer after : Lexer} {token : Token} {tokens : List Token}
      (found : lexer.next?.1 = some token) (rest : Drains lexer.next?.2 tokens after) :
      Drains lexer (token :: tokens) after

theorem next?_fst_eq_none_iff : lexer.next?.1 = none ↔ lexer.next.1.isEof = true := by
  simp only [next?]
  split <;> simp_all

theorem next?_fst_eq_some_iff {token : Token} :
    lexer.next?.1 = some token ↔ lexer.next.1.isEof = false ∧ lexer.next.1 = token := by
  simp only [next?]
  split <;> simp_all

theorem drain_of_isEof (ended : lexer.next.1.isEof = true) : lexer.drain = ([], lexer.next.2) := by
  rw [drain, remaining, tokens_of_isEof ended, next_of_isEof ended]
  rfl

theorem drain_of_not_isEof (more : lexer.next.1.isEof = false) :
    lexer.drain = (lexer.next.1 :: lexer.next.2.drain.1, lexer.next.2.drain.2) := by
  rw [drain, remaining, tokens_of_not_isEof more]
  rfl

/-- Asking for one token after the other comes to an end, with all tokens that remain. -/
theorem drains_drain (lexer : Lexer) : lexer.Drains lexer.drain.1 lexer.drain.2 := by
  induction lexer using next_induction with
  | ended lexer eof =>
    rw [drain_of_isEof eof]
    exact .ended (next?_fst_eq_none_iff.2 eof)
  | more lexer eof ih =>
    rw [drain_of_not_isEof eof]
    exact .more (next?_fst_eq_some_iff.2 ⟨eof, rfl⟩) ih

theorem drains_iff : lexer.Drains tokens after ↔ lexer.drain = (tokens, after) := by
  constructor
  · intro drains
    induction drains with
    | ended missing => exact drain_of_isEof (next?_fst_eq_none_iff.1 missing)
    | @more lexer after token tokens found rest ih =>
      obtain ⟨more, rfl⟩ := next?_fst_eq_some_iff.1 found
      have behind : lexer.next.2.drain = (tokens, after) := ih
      rw [drain_of_not_isEof more, behind]
  · intro drained
    have drains := lexer.drains_drain
    rwa [drained] at drains

theorem length_drain_le (lexer : Lexer) : lexer.drain.1.length ≤ lexer.length := by
  have tokens := length_tokens_le lexer.language lexer.rest
  have chars := lexer.rest_suffix.length_le
  rw [String.length_toList] at chars
  exact Nat.le_trans tokens chars

/-! ## The end -/

/-- What a lexer at the end of its source answers, as long as it is asked for no other source. -/
def Command.replyAtEnd (length : Nat) : Command → Reply
  | .next => .token .eof
  | .next? => .token? none
  | .lookAhead _ => .token .eof
  | .reset _ => .done
  | .drain => .tokens []
  | .fork => .tokens []
  | .length => .number length

theorem isEof_next_atEnd (lexer : Lexer) : lexer.atEnd.next.1.isEof = true := by
  rw [isEof_next]
  rfl

theorem next_atEnd (lexer : Lexer) : lexer.atEnd.next = (.eof, lexer.atEnd) :=
  next_of_isEof lexer.isEof_next_atEnd

theorem next?_of_isEof (ended : lexer.next.1.isEof = true) : lexer.next? = (none, lexer.atEnd) := by
  rw [next?, next_of_isEof ended]
  rfl

theorem lookAhead_atEnd (lexer : Lexer) (n : Nat) : lexer.atEnd.lookAhead n = .eof := by
  have first : lexer.atEnd.next.1 = .eof := by rw [next_atEnd]
  induction n with
  | zero => exact first
  | succ n ih =>
    cases n with
    | zero => exact first
    | succ n =>
      rw [lookAhead, next_atEnd]
      exact ih

/-- At the end a lexer stays as it is, whatever it is asked for. -/
theorem execute_atEnd (lexer : Lexer) {command : Command} (kept : ∀ source, command ≠ .reset source) :
    lexer.atEnd.execute command = (command.replyAtEnd lexer.length, lexer.atEnd) := by
  cases command with
  | next => rw [execute, next_atEnd]; rfl
  | next? => rw [execute, next?_of_isEof lexer.isEof_next_atEnd]; rfl
  | lookAhead n => rw [execute, lookAhead_atEnd]; rfl
  | reset source => exact absurd rfl (kept source)
  | drain => rw [execute, drain_of_isEof lexer.isEof_next_atEnd, next_atEnd]; rfl
  | fork => rw [execute, remaining, tokens_of_isEof lexer.isEof_next_atEnd]; rfl
  | length => rfl

theorem run_atEnd (lexer : Lexer) {commands : List Command}
    (kept : ∀ source, .reset source ∉ commands) :
    lexer.atEnd.run commands = (commands.map (Command.replyAtEnd lexer.length), lexer.atEnd) := by
  induction commands with
  | nil => rfl
  | cons command rest ih =>
    have first : ∀ source, command ≠ .reset source :=
      fun source same => kept source (same ▸ List.mem_cons_self)
    have others : ∀ source, .reset source ∉ rest :=
      fun source member => kept source (List.mem_cons_of_mem _ member)
    rw [run_cons, execute_atEnd lexer first, ih others]
    rfl

/-- **Progress and the end.** Wherever a lexer is in a source, a token other than the end token has a
lexeme and moves the lexer on, and the end token comes exactly if only blanks are left. Asking for one
token after the other ends with what draining gives, which is no more tokens than the source has
characters. The first end token puts the lexer behind the last byte of its source; there it stays, and
answers with the same end token, with no token, or with nothing left, until it is given another
source. -/
theorem next_progresses (lexer : Lexer) :
    (lexer.next.1.tag ≠ .eof →
      lexer.offset < lexer.next.2.offset ∧ lexer.next.1.lexeme ≠ "") ∧
    (lexer.next.1.tag = .eof ↔ ∀ c ∈ lexer.rest, isBlank c = true) ∧
    (∀ tokens after, lexer.Drains tokens after ↔ lexer.drain = (tokens, after)) ∧
    lexer.drain.1.length ≤ lexer.length ∧
    (lexer.next.1.tag = .eof →
      lexer.next = (.eof, lexer.atEnd) ∧ lexer.next? = (none, lexer.atEnd)) ∧
    lexer.atEnd.offset = lexer.source.utf8ByteSize ∧
    ∀ commands, (∀ source, .reset source ∉ commands) →
      lexer.atEnd.run commands = (commands.map (Command.replyAtEnd lexer.length), lexer.atEnd) := by
  have tagged : lexer.next.1.isEof = true ↔ lexer.next.1.tag = .eof := beq_iff_eq
  refine ⟨fun other => ?_, ?_, fun tokens after => drains_iff, lexer.length_drain_le,
    fun ended => ?_, lexer.offset_atEnd, fun commands kept => lexer.run_atEnd kept⟩
  · rw [Ne, ← tagged, Bool.not_eq_true] at other
    exact ⟨offset_lt_next other, lexeme_next_ne_empty other⟩
  · rw [← tagged, isEof_next_iff]
  · exact ⟨next_of_isEof (tagged.2 ended), next?_of_isEof (tagged.2 ended)⟩

theorem next_progresses_arrow :
    let start := ofSource Language.arrows " →\n"
    let after := start.next.2
    start.next.1.tag ≠ .eof ∧ (start.offset < after.offset ∧ start.next.1.lexeme ≠ "") ∧
    after.next.1.tag = .eof ∧ (after.next = (.eof, after.atEnd) ∧ after.next? = (none, after.atEnd)) ∧
    (∀ source, .reset source ∉ [Command.next, .next?, .lookAhead 2]) ∧
    after.atEnd.run [.next, .next?, .lookAhead 2] =
      ([.token .eof, .token? none, .token .eof], after.atEnd) := by
  intro start after
  have more : start.next.1.tag ≠ .eof := by decide +kernel
  have ended : after.next.1.tag = .eof := by decide +kernel
  have kept : ∀ source, .reset source ∉ [Command.next, .next?, .lookAhead 2] := by simp
  obtain ⟨moves, -⟩ := next_progresses start
  obtain ⟨-, -, -, -, ends, -, stays⟩ := next_progresses after
  exact ⟨more, moves more, ended, ends ended, kept, stays _ kept⟩

end Lexer

end FunctionSymbols
