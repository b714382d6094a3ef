import FunctionSymbols.Proofs.Refinement

/-!
# Runs of operations

An operation moves a parser from place to place in the tokens of its source and never back. What it
answers and how far it moves depend on the tokens from its place on, and on nothing that was asked
before. The steps are those of the productions; runs follow by induction on the operations.
-/

namespace FunctionSymbols

namespace Parser

variable {σ : Type} [TokenSource σ] {language : Language} {ahead : List Token} {parser : Parser σ}

/-! ## Operations -/

/-- One operation, whichever it is and whether it succeeds or fails. -/
theorem perform_reads (h : parser.StandsAt language ahead) (spelled : Spelled ahead)
    (operation : Operation) :
    Reads language ahead (perform operation parser) (language.lexicon.perform ahead operation) := by
  cases operation with
  | current =>
    refine ⟨parser, h, ?_⟩
    show EStateM.Result.ok (Answer.token parser.current) parser = _
    rw [h.current_eq]
    rfl
  | peek =>
    refine ⟨parser, h, ?_⟩
    show EStateM.Result.ok (Answer.token parser.peek) parser = _
    rw [h.peek_eq]
    rfl
  | advance =>
    refine ⟨parser.advanced, ?_, ?_⟩
    · show parser.advanced.StandsAt language (ahead.drop 1)
      rw [List.drop_one]
      exact h.advanced
    · show EStateM.Result.ok (Answer.token parser.current) parser.advanced = _
      rw [h.current_eq]
      rfl
  | isAtEnd =>
    refine ⟨parser, h, ?_⟩
    show EStateM.Result.ok (Answer.flag parser.isAtEnd) parser = _
    rw [h.isAtEnd_eq spelled]
    rfl
  | expectEnd =>
    refine ⟨parser, ?_, ?_⟩
    · cases ahead <;> exact h
    · show EStateM.map (fun _ => Answer.done) expectEnd parser = _
      rw [EStateM.map, expectEnd_reads h spelled]
      cases ahead <;> rfl
  | nestedName => exact (nestedName_reads h spelled).map _
  | idExpression => exact (idExpression_reads h spelled).map _
  | typeSpecifier => exact (typeSpecifier_reads h spelled).map _
  | specifierSequence => exact (specifierSequence_reads h spelled).map _
  | parameters => exact (parameters_reads h).map _
  | declarator => exact (declarator_reads h spelled).map _

/-- One operation as a step from place to place in a stream. -/
theorem execute_reads {stream : List Token} (spelled : Spelled stream) {place : Nat}
    (h : parser.StandsAt language (stream.drop place)) (operation : Operation) :
    (parser.execute operation).1 =
        (language.lexicon.perform (stream.drop place) operation).result ∧
      (parser.execute operation).2.StandsAt language
        (stream.drop (place + (language.lexicon.perform (stream.drop place) operation).taken)) := by
  obtain ⟨after, stands, outcome⟩ := perform_reads h (spelled.drop place) operation
  rw [List.drop_drop] at stands
  generalize language.lexicon.perform (stream.drop place) operation = reading at stands outcome ⊢
  obtain ⟨result, taken⟩ := reading
  rw [execute, outcome]
  cases result <;> exact ⟨rfl, stands⟩

/-! ## Runs -/

/-- A run of operations, from any place in a stream. -/
theorem run_reads {stream : List Token} (spelled : Spelled stream) (operations : List Operation) :
    ∀ {parser : Parser σ} {place : Nat}, parser.StandsAt language (stream.drop place) →
      (parser.run operations).1 = (language.lexicon.run stream place operations).1 ∧
      (parser.run operations).2.StandsAt language
        (stream.drop (language.lexicon.run stream place operations).2) := by
  -- Each operation moves the place, so the claim is about all places at once.
  induction operations with
  | nil =>
    intro parser place h
    exact ⟨rfl, h⟩
  | cons operation rest ih =>
    intro parser place h
    obtain ⟨answer, stands⟩ := execute_reads spelled h operation
    obtain ⟨answers, last⟩ := ih stands
    refine ⟨?_, last⟩
    simp only [run, Lexicon.run, answer, answers]

/-- The tokens from the current one to the end. -/
def remaining (parser : Parser σ) : List Token :=
  if parser.isAtEnd then [] else parser.current :: TokenSource.toList parser.source

theorem StandsAt.remaining_eq (h : parser.StandsAt language ahead) (spelled : Spelled ahead) :
    parser.remaining = ahead := by
  rw [remaining, h.isAtEnd_eq spelled, h.current_eq, h.source_eq]
  cases ahead <;> rfl

/-- Wherever operations lead, a parser on a lexer stands in front of the tokens that remain. -/
theorem run_standsAt (lexer : Lexer) (operations : List Operation) :
    let parser := ((ofLexer lexer).run operations).2
    parser.StandsAt lexer.language parser.remaining ∧ Spelled parser.remaining := by
  intro parser
  have spelled : Spelled lexer.remaining := spelled_tokens lexer.language lexer.rest
  have start : (ofLexer lexer).StandsAt lexer.language (lexer.remaining.drop 0) :=
    standsAt_ofSource lexer.language lexer
  obtain ⟨-, stands⟩ := run_reads spelled operations start
  rw [stands.remaining_eq (spelled.drop _)]
  exact ⟨stands, spelled.drop _⟩

/-- Operations in order are those in front and then, from the state that these leave, the others. -/
theorem run_append (parser : Parser σ) (front back : List Operation) :
    (parser.run (front ++ back)).1 =
        (parser.run front).1 ++ ((parser.run front).2.run back).1 ∧
      (parser.run (front ++ back)).2 = ((parser.run front).2.run back).2 := by
  induction front generalizing parser with
  | nil => exact ⟨rfl, rfl⟩
  | cons operation rest ih =>
    obtain ⟨answers, after⟩ := ih (parser.execute operation).2
    constructor
    · simp only [List.cons_append, run, answers]
    · simp only [List.cons_append, run, after]

end Parser

/-! ## Places in the token stream -/

/-- Looking ahead shows the tokens that remain, and behind them end tokens. -/
theorem Lexer.lookAhead_succ (lexer : Lexer) (n : Nat) :
    lexer.lookAhead (n + 1) = lexer.remaining.getD n .eof := by
  induction n generalizing lexer with
  | zero =>
    show lexer.next.1 = _
    rw [next_fst, List.headD_eq_head?_getD, List.head?_eq_getElem?, List.getD_eq_getElem?_getD]
  | succ n ih =>
    show lexer.next.2.lookAhead (n + 1) = _
    rw [ih, remaining_next, List.getD_eq_getElem?_getD, List.getD_eq_getElem?_getD,
      List.getElem?_tail]

namespace Lexicon

variable (lexicon : Lexicon)

/-- The place that operations lead to from the start of a stream. -/
def place (stream : List Token) (operations : List Parser.Operation) : Nat :=
  (lexicon.run stream 0 operations).2

theorem le_run (stream : List Token) (place : Nat) (operations : List Parser.Operation) :
    place ≤ (lexicon.run stream place operations).2 := by
  induction operations generalizing place with
  | nil => exact Nat.le_refl place
  | cons operation rest ih => exact Nat.le_trans (Nat.le_add_right _ _) (ih _)

theorem run_append (stream : List Token) (place : Nat) (front back : List Parser.Operation) :
    (lexicon.run stream place (front ++ back)).2 =
      (lexicon.run stream (lexicon.run stream place front).2 back).2 := by
  induction front generalizing place with
  | nil => rfl
  | cons operation rest ih => exact ih _

theorem place_le_append (stream : List Token) (front back : List Parser.Operation) :
    lexicon.place stream front ≤ lexicon.place stream (front ++ back) := by
  rw [place, place, run_append]
  exact lexicon.le_run stream _ back

theorem place_concat (stream : List Token) (operations : List Parser.Operation)
    (operation : Parser.Operation) :
    lexicon.place stream (operations ++ [operation]) = lexicon.place stream operations +
      (lexicon.perform (stream.drop (lexicon.place stream operations)) operation).taken := by
  rw [place, run_append]
  rfl

end Lexicon

namespace Parser

/-- The parser stands at this place of a stream that end tokens follow for ever: the token there is the
current one, and the lexer that it holds yields those behind. -/
structure IsAt (stream : List Token) (place : Nat) (parser : Parser Lexer) : Prop where
  current_eq : parser.current = stream.getD place .eof
  peek_eq : parser.peek = stream.getD (place + 1) .eof
  remaining_eq : parser.source.remaining = stream.drop (place + 1)
  lookAhead_eq : ∀ n, parser.source.lookAhead (n + 1) = stream.getD (place + 1 + n) .eof

theorem StandsAt.isAt {language : Language} {stream : List Token} {place : Nat}
    {parser : Parser Lexer} (h : parser.StandsAt language (stream.drop place)) :
    parser.IsAt stream place := by
  have remaining : parser.source.remaining = stream.drop (place + 1) := by
    rw [← List.drop_drop, List.drop_one]
    exact h.source_eq
  have yields : ∀ n, parser.source.lookAhead (n + 1) = stream.getD (place + 1 + n) .eof := by
    intro n
    rw [Lexer.lookAhead_succ, remaining, List.getD_eq_getElem?_getD, List.getElem?_drop,
      List.getD_eq_getElem?_getD]
  refine ⟨?_, yields 0, remaining, yields⟩
  rw [h.current_eq, List.headD_eq_head?_getD, List.head?_drop, List.getD_eq_getElem?_getD]

/-- Whatever is asked of a parser on a source, it stays at a place in the tokens of the source, each
operation has the result that the reading gives from that place on, and it moves the parser on by the
tokens that the reading takes. The answers are those of the parser on the list of tokens. -/
theorem run_follows_tokens (language : Language) (source : String) (operations : List Operation) :
    let stream := tokens language source.toList
    let start := ofLexer (Lexer.ofSource language source)
    let place := language.lexicon.place stream
    let parser := (start.run operations).2
    parser.IsAt stream (place operations) ∧
      (∀ more, place operations ≤ place (operations ++ more)) ∧
      (∀ operation,
        let reading := language.lexicon.perform (stream.drop (place operations)) operation
        parser.execute operation = (reading.result, (start.run (operations ++ [operation])).2) ∧
          place (operations ++ [operation]) = place operations + reading.taken) ∧
      (start.run operations).1 = ((ofSource language stream).run operations).1 := by
  intro stream start place parser
  have spelled : Spelled stream := spelled_tokens language source.toList
  have lexed : start.StandsAt language (stream.drop 0) :=
    standsAt_ofSource language (Lexer.ofSource language source)
  have listed : (ofSource language stream).StandsAt language (stream.drop 0) :=
    standsAt_ofSource language stream
  obtain ⟨answers, stands⟩ := run_reads spelled operations lexed
  refine ⟨stands.isAt, language.lexicon.place_le_append stream operations, ?_, ?_⟩
  · intro operation reading
    obtain ⟨result, -⟩ := execute_reads spelled stands operation
    have after : (start.run (operations ++ [operation])).2 = (parser.execute operation).2 :=
      (run_append start operations [operation]).2
    rw [after]
    exact ⟨Prod.ext result rfl, language.lexicon.place_concat stream operations operation⟩
  · rw [answers, (run_reads spelled operations listed).1]

end Parser

end FunctionSymbols
