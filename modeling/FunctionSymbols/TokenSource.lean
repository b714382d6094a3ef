import FunctionSymbols.Lexer

/-!
# Token sources

Where a parser takes its tokens from: a lexer, or a list of tokens that goes on with end tokens. What a
source will yield is a list, and reading takes the head off it; the list is finite, so loops over the
tokens of a source end.
-/

namespace FunctionSymbols

/-- Something that yields tokens one by one and at last only end tokens. -/
class TokenSource (σ : Type) where
  /-- The next token and what is left. -/
  next : σ → Token × σ
  /-- The tokens in front of the end. -/
  toList : σ → List Token
  next_fst : ∀ source, (next source).1 = (toList source).headD .eof
  toList_next : ∀ source, toList (next source).2 = (toList source).tail

namespace TokenSource

/-- The number of tokens in front of the end. -/
def bound {σ : Type} [TokenSource σ] (source : σ) : Nat := (toList source).length

theorem bound_next {σ : Type} [TokenSource σ] (source : σ) :
    bound (next source).2 + (next source).1.weight ≤ bound source := by
  rw [bound, bound, toList_next, next_fst]
  cases toList source with
  | nil => exact Nat.le_refl 0
  | cons token rest =>
    have := token.weight_le_one
    simp only [List.tail_cons, List.headD_cons, List.length_cons]
    omega

end TokenSource

namespace Lexer

theorem next_fst (lexer : Lexer) : lexer.next.1 = lexer.remaining.headD .eof := by
  rw [remaining, tokens_eq]
  split
  · next h => exact congrArg Prod.fst (scan_eq_of_isEof h)
  · rfl

theorem remaining_next (lexer : Lexer) : lexer.next.2.remaining = lexer.remaining.tail := by
  rw [remaining, remaining, tokens_eq lexer.language lexer.rest]
  split
  · next h =>
    have rest : lexer.next.2.rest = [] := congrArg Prod.snd (scan_eq_of_isEof h)
    rw [rest, tokens_nil, List.tail_nil]
  · rfl

end Lexer

instance : TokenSource Lexer where
  next := Lexer.next
  toList := Lexer.remaining
  next_fst := Lexer.next_fst
  toList_next := Lexer.remaining_next

/-- The first token of a list, or the end token if there is none. -/
def nextOfList (tokens : List Token) : Token × List Token := (tokens.headD .eof, tokens.tail)

instance : TokenSource (List Token) where
  next := nextOfList
  toList tokens := tokens
  next_fst _ := rfl
  toList_next _ := rfl

end FunctionSymbols
