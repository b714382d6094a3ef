import FunctionSymbols.Proofs.OperationRun
import FunctionSymbols.Proofs.Progress

/-!
# A lexer is a place in a list

A `Cursor` is a place in a list of tokens that end tokens follow for ever. It knows nothing of characters:
another source is another list. A lexer answers every command as the cursor in the tokens of its source
does. The steps are the single commands; runs follow by induction on the commands.
-/

namespace FunctionSymbols

/-- A place in a list of tokens, and the length of the source that has these tokens. -/
structure Cursor where
  stream : List Token
  place : Nat
  length : Nat

namespace Cursor

/-- The cursor at the start of a source. -/
def ofSource (tokensOf : String → List Token) (source : String) : Cursor :=
  ⟨tokensOf source, 0, source.length⟩

/-- The token `n` places on from here. Behind the list there are only end tokens. -/
def get (cursor : Cursor) (n : Nat) : Token := cursor.stream.getD (cursor.place + n) .eof

/-- The tokens from here to the end of the list. -/
def rest (cursor : Cursor) : List Token := cursor.stream.drop cursor.place

/-- The cursor `n` places on. -/
def moved (cursor : Cursor) (n : Nat) : Cursor := { cursor with place := cursor.place + n }

/-- Carries out one command of a lexer. -/
def execute (tokensOf : String → List Token) (cursor : Cursor) :
    Lexer.Command → Lexer.Reply × Cursor
  | .next => (.token (cursor.get 0), cursor.moved 1)
  | .next? => (.token? cursor.rest.head?, cursor.moved 1)
  | .lookAhead n => (.token (cursor.get (max n 1 - 1)), cursor)
  | .reset source => (.done, ofSource tokensOf source)
  | .drain => (.tokens cursor.rest, cursor.moved cursor.rest.length)
  | .fork => (.tokens cursor.rest, cursor)
  | .length => (.number cursor.length, cursor)

/-- Carries out commands in order. -/
def run (tokensOf : String → List Token) (cursor : Cursor) :
    List Lexer.Command → List Lexer.Reply × Cursor
  | [] => ([], cursor)
  | command :: rest =>
    let (reply, after) := cursor.execute tokensOf command
    let (replies, last) := after.run tokensOf rest
    (reply :: replies, last)

theorem rest_moved (cursor : Cursor) (n : Nat) : (cursor.moved n).rest = cursor.rest.drop n := by
  rw [rest, rest, List.drop_drop]
  rfl

theorem get_eq (cursor : Cursor) (n : Nat) : cursor.get n = cursor.rest.getD n .eof := by
  rw [get, rest, List.getD_eq_getElem?_getD, List.getD_eq_getElem?_getD, List.getElem?_drop]

end Cursor

namespace Lexer

variable {language : Language} {lexer : Lexer} {cursor : Cursor}

/-! ## One command -/

/-- The tokens that remain are those from the cursor on, and the sources are of one length. -/
structure Follows (language : Language) (lexer : Lexer) (cursor : Cursor) : Prop where
  language_eq : lexer.language = language
  remaining_eq : lexer.remaining = cursor.rest
  length_eq : lexer.length = cursor.length

theorem follows_ofSource (language : Language) (source : String) :
    (ofSource language source).Follows language
      (.ofSource (fun source => tokens language source.toList) source) :=
  ⟨rfl, rfl, rfl⟩

theorem next?_fst (lexer : Lexer) : lexer.next?.1 = lexer.remaining.head? := by
  cases eof : lexer.next.1.isEof with
  | true => rw [next?_fst_eq_none_iff.2 eof, remaining, tokens_of_isEof eof, List.head?_nil]
  | false =>
    rw [next?_fst_eq_some_iff.2 ⟨eof, rfl⟩, remaining, tokens_of_not_isEof eof, List.head?_cons]
    rfl

theorem lookAhead_eq (lexer : Lexer) (n : Nat) :
    lexer.lookAhead n = lexer.remaining.getD (max n 1 - 1) .eof := by
  cases n with
  | zero => exact lexer.lookAhead_succ 0
  | succ n =>
    have behind : max (n + 1) 1 - 1 = n := by omega
    rw [lookAhead_succ, behind]

namespace Follows

theorem next (follows : lexer.Follows language cursor) :
    lexer.next.2.Follows language (cursor.moved 1) := by
  refine ⟨follows.language_eq, ?_, follows.length_eq⟩
  rw [remaining_next, follows.remaining_eq, Cursor.rest_moved, List.drop_one]

theorem drain (follows : lexer.Follows language cursor) :
    lexer.atEnd.Follows language (cursor.moved cursor.rest.length) := by
  refine ⟨follows.language_eq, ?_, follows.length_eq⟩
  rw [Cursor.rest_moved, List.drop_length]
  exact tokens_nil lexer.language

/-- One command, whichever it is. -/
theorem execute (follows : lexer.Follows language cursor) (command : Command) :
    (lexer.execute command).1 =
        (cursor.execute (fun source => tokens language source.toList) command).1 ∧
      (lexer.execute command).2.Follows language
        (cursor.execute (fun source => tokens language source.toList) command).2 := by
  have rest := follows.remaining_eq
  cases command with
  | next =>
    refine ⟨?_, follows.next⟩
    rw [Lexer.execute, Cursor.execute, next_fst, rest, Cursor.get_eq, List.headD_eq_head?_getD,
      List.head?_eq_getElem?, List.getD_eq_getElem?_getD]
  | next? =>
    refine ⟨?_, follows.next⟩
    rw [Lexer.execute, Cursor.execute, next?_fst, rest]
  | lookAhead n =>
    refine ⟨?_, follows⟩
    rw [Lexer.execute, Cursor.execute, lookAhead_eq, rest, Cursor.get_eq]
  | reset source =>
    refine ⟨rfl, ?_⟩
    rw [Lexer.execute, reset, follows.language_eq]
    exact follows_ofSource language source
  | drain => exact ⟨congrArg Reply.tokens rest, follows.drain⟩
  | fork => exact ⟨congrArg Reply.tokens rest, follows⟩
  | length => exact ⟨congrArg Reply.number follows.length_eq, follows⟩

/-! ## Runs -/

theorem run (follows : lexer.Follows language cursor) (commands : List Command) :
    (lexer.run commands).1 =
        (cursor.run (fun source => tokens language source.toList) commands).1 ∧
      (lexer.run commands).2.Follows language
        (cursor.run (fun source => tokens language source.toList) commands).2 := by
  induction commands generalizing lexer cursor with
  | nil => exact ⟨rfl, follows⟩
  | cons command rest ih =>
    obtain ⟨reply, after⟩ := follows.execute command
    obtain ⟨replies, last⟩ := ih after
    refine ⟨?_, last⟩
    simp only [Lexer.run, Cursor.run, reply, replies]

end Follows

/-- Commands in order are those in front and then, from where these lead, the others. -/
theorem run_append (lexer : Lexer) (front back : List Command) :
    lexer.run (front ++ back) =
      ((lexer.run front).1 ++ ((lexer.run front).2.run back).1, ((lexer.run front).2.run back).2) := by
  induction front generalizing lexer with
  | nil => rfl
  | cons command rest ih => rw [List.cons_append, run_cons, ih, run_cons, List.cons_append]

/-- **A lexer is a cursor.** Whatever is asked of a lexer, it answers as a cursor in the tokens of the
source that was set last. Wherever it is, asking for one token after the other gives the tokens from the
cursor on, and no more. With another source it goes on as a lexer that starts on this source. -/
theorem run_follows_cursor (language : Language) (source : String) (commands : List Command) :
    let tokensOf := fun source : String => tokens language source.toList
    let run := (ofSource language source).run commands
    let reference := (Cursor.ofSource tokensOf source).run tokensOf commands
    run.1 = reference.1 ∧
    (∀ list after, run.2.Drains list after ↔ list = reference.2.rest ∧ after = run.2.atEnd) ∧
    ∀ text more,
      let fresh := (ofSource language text).run more
      (ofSource language source).run (commands ++ .reset text :: more) =
        (run.1 ++ .done :: fresh.1, fresh.2) := by
  intro tokensOf run reference
  obtain ⟨replies, follows⟩ := (follows_ofSource language source).run commands
  refine ⟨replies, fun list after => ?_, fun text more => ?_⟩
  · rw [drains_iff, ← follows.remaining_eq, Lexer.drain, Prod.mk.injEq, eq_comm,
      eq_comm (a := after)]
    rfl
  · have start : run.2.reset text = ofSource language text := by
      rw [reset, follows.language_eq]
    rw [run_append, run_cons]
    simp only [Lexer.execute]
    rw [start]

end Lexer

end FunctionSymbols
