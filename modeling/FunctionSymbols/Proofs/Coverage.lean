import FunctionSymbols.Proofs.LongestMatch
import FunctionSymbols.TokenSource

/-!
# Nothing of a source is lost

Reading token after token cuts a source into pieces, each a run of blanks and the token behind it.
`Layout` says where the cuts are: every run of blanks is as long as possible. One read adds one piece,
so after any number of reads the pieces are what lies in front of the lexer, byte for byte.
-/

namespace FunctionSymbols

/-! ## Pieces of a text -/

/-- A token and the blanks in front of it. -/
structure Piece where
  blanks : List Char
  token : Token

/-- The blanks, then the token. -/
def Piece.chars (piece : Piece) : List Char := piece.blanks ++ piece.token.lexeme.toList

/-- The characters of pieces in order. -/
def spelling (pieces : List Piece) : List Char := pieces.flatMap Piece.chars

/-- The text is these pieces and a rest, and the blanks of a piece are all that there are where it
begins. -/
inductive Layout : List Char → List Piece → List Char → Prop where
  | nil {rest : List Char} : Layout rest [] rest
  | cons {text behind rest : List Char} {piece : Piece} {pieces : List Piece}
      (run : IsRun isBlank text piece.blanks (piece.token.lexeme.toList ++ behind))
      (more : Layout behind pieces rest) : Layout text (piece :: pieces) rest

variable {language : Language} {text rest : List Char} {pieces : List Piece} {token : Token}

@[simp] theorem spelling_nil : spelling [] = [] := rfl

@[simp] theorem spelling_cons (piece : Piece) (pieces : List Piece) :
    spelling (piece :: pieces) = piece.blanks ++ (piece.token.lexeme.toList ++ spelling pieces) := by
  rw [spelling, List.flatMap_cons, Piece.chars, List.append_assoc]
  rfl

namespace Layout

theorem split (layout : Layout text pieces rest) : text = spelling pieces ++ rest := by
  induction layout with
  | nil => rfl
  | cons run more ih => rw [run.split, ih, spelling_cons, List.append_assoc, List.append_assoc]

/-- Without its blanks a text is its tokens, if none of these has a blank in it. -/
theorem filter_spelling (layout : Layout text pieces rest)
    (free : ∀ piece ∈ pieces, ∀ c ∈ piece.token.lexeme.toList, isBlank c = false) :
    (spelling pieces).filter (fun c => !isBlank c) =
      (pieces.map Piece.token).flatMap fun token => token.lexeme.toList := by
  induction layout with
  | nil => rfl
  | @cons text behind rest piece pieces run more ih =>
    have gap : piece.blanks.filter (fun c => !isBlank c) = [] := by
      apply List.filter_eq_nil_iff.2
      intro c member
      rw [run.all c member]
      decide
    have lexeme : piece.token.lexeme.toList.filter (fun c => !isBlank c) =
        piece.token.lexeme.toList := by
      apply List.filter_eq_self.2
      intro c member
      rw [free piece List.mem_cons_self c member]
      rfl
    rw [spelling_cons, List.filter_append, List.filter_append, gap, lexeme,
      ih fun other member => free other (List.mem_cons_of_mem _ member)]
    rfl

end Layout

/-! ## Lexemes without blanks -/

/-- No registered lexeme contains a blank. -/
def TokenTable.IsBlankFree (table : TokenTable) : Prop :=
  ∀ e ∈ table.toList, e.1.toList.any isBlank = false

instance (table : TokenTable) : Decidable table.IsBlankFree :=
  inferInstanceAs (Decidable (∀ _ ∈ _, _))

theorem TokenTable.IsBlankFree.of_lookup {table : TokenTable} {lexeme : String} {tag : Tag}
    (free : table.IsBlankFree) (registered : table.lookup lexeme = some tag) :
    ∀ c ∈ lexeme.toList, isBlank c = false := by
  have none := free _ (mem_entries_of_lookup registered)
  intro c member
  rw [← Bool.not_eq_true]
  exact List.any_eq_false.1 none c member

/-- A token has no blank in it when no punctuator has one. -/
theorem Lexicon.Finds.isBlank_eq_false (found : language.lexicon.Finds text token rest)
    (free : language.punctuators.IsBlankFree) (unblank : Stops isBlank text) :
    ∀ c ∈ token.lexeme.toList, isBlank c = false := by
  cases found with
  | word isWord stop =>
    intro c member
    rw [String.toList_ofList] at member
    exact isBlank_eq_false_of_isContinueChar (isContinueChar_of_mem isWord c member)
  | punctuator unstarted registered longest => exact free.of_lookup registered
  | unknown unstarted unregistered =>
    intro c member
    rw [String.toList_ofList] at member
    rw [List.mem_singleton.1 member]
    exact stops_cons.1 unblank
  | eof =>
    intro c member
    cases member

theorem isBlank_of_mem_tokens (free : language.punctuators.IsBlankFree) :
    ∀ token ∈ tokens language text, ∀ c ∈ token.lexeme.toList, isBlank c = false := by
  apply forall_mem_tokens
  intro behind _ _
  exact (finds_tokenAt language _).isBlank_eq_false free (stops_dropWhile behind)

/-! ## Reading on -/

namespace Lexer

/-- Reads `k` tokens, the end token as often as it comes. -/
def read (lexer : Lexer) : Nat → List Token × Lexer
  | 0 => ([], lexer)
  | k + 1 => (lexer.next.1 :: (lexer.next.2.read k).1, (lexer.next.2.read k).2)

@[simp] theorem source_read (lexer : Lexer) (k : Nat) : (lexer.read k).2.source = lexer.source := by
  induction k generalizing lexer with
  | zero => rfl
  | succ k ih => exact ih lexer.next.2

/-- The tokens that are read are those that remain, and end tokens behind them. -/
theorem read_fst (lexer : Lexer) (k : Nat) :
    (lexer.read k).1 =
      lexer.remaining.take k ++ List.replicate (k - lexer.remaining.length) .eof := by
  induction k generalizing lexer with
  | zero => simp [read]
  | succ k ih =>
    rw [read, ih, next_fst, remaining_next]
    cases lexer.remaining with
    | nil => simp [List.replicate_succ]
    | cons token rest => simp

/-- One read: the blanks in front of the token, and the token. -/
theorem exists_isRun_next (lexer : Lexer) :
    ∃ blanks, IsRun isBlank lexer.rest blanks
      (lexer.next.1.lexeme.toList ++ lexer.next.2.rest) := by
  have scanned : scan lexer.language lexer.rest = (lexer.next.1, lexer.next.2.rest) := rfl
  obtain ⟨blanks, behind, run, found⟩ := scan_eq_iff_finds.1 scanned
  rw [found.split] at run
  exact ⟨blanks, run⟩

/-- Any number of reads: one piece for each token. -/
theorem exists_layout_read (lexer : Lexer) (k : Nat) :
    ∃ pieces, pieces.map Piece.token = (lexer.read k).1 ∧
      Layout lexer.rest pieces (lexer.read k).2.rest := by
  induction k generalizing lexer with
  | zero => exact ⟨[], rfl, .nil⟩
  | succ k ih =>
    obtain ⟨blanks, run⟩ := exists_isRun_next lexer
    obtain ⟨pieces, tokens, more⟩ := ih lexer.next.2
    refine ⟨⟨blanks, lexer.next.1⟩ :: pieces, ?_, .cons run more⟩
    rw [List.map_cons, tokens]
    rfl

/-- Once the end token has come, nothing is left. -/
theorem rest_read_eq_nil {lexer : Lexer} {k : Nat}
    (ended : ∃ token ∈ (lexer.read k).1, token.isEof = true) : (lexer.read k).2.rest = [] := by
  induction k generalizing lexer with
  | zero =>
    obtain ⟨token, member, -⟩ := ended
    cases member
  | succ k ih =>
    obtain ⟨token, member, eof⟩ := ended
    rcases List.mem_cons.1 member with rfl | member
    · have empty : lexer.next.2.rest = [] := congrArg Prod.snd (scan_eq_of_isEof eof)
      obtain ⟨pieces, -, layout⟩ := exists_layout_read lexer.next.2 k
      have split := layout.split
      rw [empty] at split
      exact (List.append_eq_nil_iff.1 split.symm).2
    · exact ih ⟨token, member, eof⟩

/-- The tokens of a source are all of it but its blanks, if no punctuator has a blank in it. -/
theorem flatMap_remaining (lexer : Lexer) (free : lexer.language.punctuators.IsBlankFree) :
    (lexer.remaining.flatMap fun token => token.lexeme.toList) =
      lexer.rest.filter fun c => !isBlank c := by
  -- One read more than there are tokens leaves nothing, and the end token spells nothing.
  have all : (lexer.read (lexer.remaining.length + 1)).1 = lexer.remaining ++ [.eof] := by
    rw [read_fst, List.take_of_length_le (Nat.le_succ _), Nat.add_sub_cancel_left]
    rfl
  have empty : (lexer.read (lexer.remaining.length + 1)).2.rest = [] := by
    apply rest_read_eq_nil
    rw [all]
    exact ⟨.eof, List.mem_append_right _ List.mem_cons_self, rfl⟩
  obtain ⟨pieces, spelled, layout⟩ := exists_layout_read lexer (lexer.remaining.length + 1)
  rw [all] at spelled
  have lexemes : ∀ piece ∈ pieces, ∀ c ∈ piece.token.lexeme.toList, isBlank c = false := by
    intro piece member
    have listed : piece.token ∈ lexer.remaining ++ [.eof] := spelled ▸ List.mem_map_of_mem member
    rcases List.mem_append.1 listed with inside | last
    · exact isBlank_of_mem_tokens free _ inside
    · rw [List.mem_singleton.1 last]
      intro c within
      cases within
  have split := layout.split
  rw [empty, List.append_nil] at split
  rw [split, layout.filter_spelling lexemes, spelled, List.flatMap_append]
  exact (List.append_nil _).symm

/-- **Nothing is lost.** What lies in front of a lexer after `k` reads is the `k` tokens that were read,
each behind the longest run of blanks at its place. Reading yields the tokens of the source and then
end tokens, and with the first of these the lexer is behind the last byte. Where no punctuator contains
a blank, the tokens are the source without its blanks. -/
theorem read_covers (language : Language) (source : String) (k : Nat) :
    let start := ofSource language source
    let after := (start.read k).2
    (∃ pieces, pieces.map Piece.token = (start.read k).1 ∧ pieces.length = k ∧
      Layout source.toList pieces after.rest ∧ source.toList = spelling pieces ++ after.rest ∧
      after.offset = utf8Length (spelling pieces)) ∧
    (start.read k).1 =
      start.remaining.take k ++ List.replicate (k - start.remaining.length) .eof ∧
    ((∃ token ∈ (start.read k).1, token.isEof = true) → after.offset = source.utf8ByteSize) ∧
    (language.punctuators.IsBlankFree →
      (start.remaining.flatMap fun token => token.lexeme.toList) =
        source.toList.filter fun c => !isBlank c) := by
  intro start after
  have same : after.source = source := source_read start k
  refine ⟨?_, read_fst start k, ?_, flatMap_remaining start⟩
  · obtain ⟨pieces, spelled, layout⟩ := exists_layout_read start k
    have count : pieces.length = k := by
      rw [← List.length_map Piece.token, spelled, read_fst, List.length_append, List.length_take,
        List.length_replicate]
      omega
    refine ⟨pieces, spelled, count, layout, layout.split, offset_eq ?_⟩
    rw [same]
    exact layout.split
  · intro ended
    have empty : after.rest = [] := rest_read_eq_nil ended
    have whole : after.source.toList = source.toList ++ after.rest := by
      rw [same, empty, List.append_nil]
    rw [offset_eq whole, utf8ByteSize_eq_utf8Length]

end Lexer

/-- A language with punctuators that begin alike and one beyond ASCII. -/
def Language.arrows : Language :=
  (ofEntries [("int", ⟨16⟩)] [("<", ⟨17⟩), ("<<", ⟨18⟩), ("→", ⟨19⟩), ("<-", ⟨20⟩)]).toOption.get
    (by decide)

theorem Lexer.read_covers_arrows :
    let start := ofSource Language.arrows " é<<-a→\t1\n"
    let after := (start.read 8).2
    (∃ token ∈ (start.read 8).1, token.isEof = true) ∧ Language.arrows.punctuators.IsBlankFree ∧
    (∃ pieces, pieces.map Piece.token = (start.read 8).1 ∧ pieces.length = 8 ∧
      Layout start.source.toList pieces after.rest ∧
      start.source.toList = spelling pieces ++ after.rest ∧
      after.offset = utf8Length (spelling pieces)) ∧
    after.offset = start.source.utf8ByteSize ∧
    (start.remaining.flatMap fun token => token.lexeme.toList) =
      start.source.toList.filter fun c => !isBlank c := by
  intro start after
  have ended : ∃ token ∈ (start.read 8).1, token.isEof = true := by decide +kernel
  have free : Language.arrows.punctuators.IsBlankFree := by decide
  obtain ⟨layout, -, last, whole⟩ := read_covers Language.arrows " é<<-a→\t1\n" 8
  exact ⟨ended, free, layout, last ended, whole free⟩

end FunctionSymbols
