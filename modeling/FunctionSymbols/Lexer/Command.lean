import FunctionSymbols.Lexer

/-!
# Lexer commands

What may be asked of a lexer, as data, so that a run is a list of commands.
-/

namespace FunctionSymbols.Lexer

/-- A request to a lexer. -/
inductive Command where
  /-- The next token, be it the end token. -/
  | next
  /-- The next token other than the end token. -/
  | next?
  /-- The `n`-th token from here, which stays where it is. -/
  | lookAhead (n : Nat)
  /-- Another source, from its start. -/
  | reset (source : String)
  /-- All tokens up to the end. -/
  | drain
  /-- The tokens that a copy of the lexer would drain. -/
  | fork
  /-- The length of the source. -/
  | length
deriving DecidableEq, Repr

/-- The answer to a request. -/
inductive Reply where
  | token (token : Token)
  | token? (token : Option Token)
  | tokens (tokens : List Token)
  | number (n : Nat)
  | done
deriving DecidableEq, Repr

/-- Carries out one command. -/
def execute (lexer : Lexer) : Command → Reply × Lexer
  | .next => (.token lexer.next.1, lexer.next.2)
  | .next? => (.token? lexer.next?.1, lexer.next?.2)
  | .lookAhead n => (.token (lexer.lookAhead n), lexer)
  | .reset source => (.done, lexer.reset source)
  | .drain => (.tokens lexer.drain.1, lexer.drain.2)
  | .fork => (.tokens lexer.remaining, lexer)
  | .length => (.number lexer.length, lexer)

/-- Carries out commands in order. -/
def run (lexer : Lexer) : List Command → List Reply × Lexer
  | [] => ([], lexer)
  | command :: rest =>
    let (reply, after) := lexer.execute command
    let (replies, last) := after.run rest
    (reply :: replies, last)

theorem run_cons (lexer : Lexer) (command : Command) (rest : List Command) :
    lexer.run (command :: rest) =
      ((lexer.execute command).1 :: ((lexer.execute command).2.run rest).1,
        ((lexer.execute command).2.run rest).2) := rfl

end FunctionSymbols.Lexer
