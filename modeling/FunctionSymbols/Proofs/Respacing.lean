import FunctionSymbols.Proofs.Coverage
import FunctionSymbols.Proofs.DeclaratorText
import FunctionSymbols.Symbol

/-!
# Blanks between tokens

If no punctuator contains a blank, a blank ends whatever token stands in front of it: a word ends there
as everywhere, and no registered lexeme that begins in front of the blank reaches across it. So the
tokens on both sides of a blank are those that each side has alone, and a token that was found in a
text is found again where it stands alone. Any text that spells the tokens of another one with blanks
between them therefore has these tokens, and what is read from the tokens is the same.
-/

namespace FunctionSymbols

variable {language : Language} {text rest : List Char} {token : Token} {c : Char}

/-! ## A blank behind a token -/

theorem isContinueChar_eq_false_of_isBlank (blank : isBlank c = true) : isContinueChar c = false := by
  rw [← Bool.not_eq_true]
  intro continues
  rw [isBlank_eq_false_of_isContinueChar continues] at blank
  cases blank

theorem isStartChar_eq_false_of_isBlank (blank : isBlank c = true) : isStartChar c = false := by
  rw [← Bool.not_eq_true]
  intro starts
  rw [isBlank_eq_false_of_isStartChar starts] at blank
  cases blank

/-- Characters without a blank among them do not reach across a blank. -/
theorem prefix_of_prefix_append_blank {front back : List Char}
    (free : ∀ d ∈ front, isBlank d = false) (blank : isBlank c = true)
    (begins : front <+: text ++ c :: back) : front <+: text := by
  by_cases short : front.length ≤ text.length
  · exact List.prefix_of_prefix_length_le begins (List.prefix_append text _) short
  · have across : text ++ [c] <+: text ++ c :: back := ⟨back, by simp⟩
    have long : (text ++ [c]).length ≤ front.length := by
      rw [List.length_append, List.length_singleton]
      omega
    have inside := List.prefix_of_prefix_length_le across begins long
    have member : c ∈ front := inside.subset (List.mem_append_right _ List.mem_cons_self)
    rw [free c member] at blank
    cases blank

/-- The token that a text begins with is not touched by a blank behind the text. -/
theorem Lexicon.Finds.append_blank (found : language.lexicon.Finds text token rest)
    (nonempty : text ≠ []) (free : language.punctuators.IsBlankFree) (blank : isBlank c = true)
    (back : List Char) :
    language.lexicon.Finds (text ++ c :: back) token (rest ++ c :: back) := by
  -- A registered lexeme that begins the longer text begins the text already.
  have begins : ∀ {lexeme : String}, language.punctuators.lookup lexeme ≠ none →
      lexeme.toList <+: text ++ c :: back → lexeme.toList <+: text := by
    intro lexeme registered front
    obtain ⟨tag, found⟩ := Option.ne_none_iff_exists'.1 registered
    exact prefix_of_prefix_append_blank (free.of_lookup found) blank front
  have starts : Stops isStartChar (c :: back) := stops_cons.2 (isStartChar_eq_false_of_isBlank blank)
  cases found with
  | word isWord stop =>
    rw [List.append_assoc]
    exact .word isWord (stop.append (stops_cons.2 (isContinueChar_eq_false_of_isBlank blank)))
  | punctuator unstarted registered longest =>
    have unstarted := unstarted.append starts
    rw [List.append_assoc] at unstarted begins ⊢
    refine .punctuator unstarted registered fun other contained front => ?_
    exact longest other contained (begins contained front)
  | unknown unstarted unregistered =>
    refine .unknown unstarted fun lexeme front => ?_
    by_contra registered
    exact registered (unregistered lexeme (begins registered front))
  | eof => exact absurd rfl nonempty

/-- As long as a text has tokens, a blank behind it changes nothing in front of the blank. -/
theorem scan_append_blank (free : language.punctuators.IsBlankFree) (blank : isBlank c = true)
    (more : (scan language text).1.isEof = false) (back : List Char) :
    scan language (text ++ c :: back) =
      ((scan language text).1, (scan language text).2 ++ c :: back) := by
  rw [scan, isEof_tokenAt] at more
  rw [scan, List.dropWhile_append, more]
  have nonempty := List.isEmpty_eq_false_iff.1 more
  have found := finds_tokenAt language (text.dropWhile isBlank)
  exact tokenAt_of_finds (found.append_blank nonempty free blank back)

/-- Where a text has no more tokens, those behind it follow. -/
theorem scan_append_of_isEof (ended : (scan language text).1.isEof = true) (back : List Char) :
    scan language (text ++ back) = scan language back := by
  rw [scan, isEof_tokenAt] at ended
  rw [scan, List.dropWhile_append, ended]
  rfl

/-! ## Blanks between texts -/

theorem tokens_append_blank (free : language.punctuators.IsBlankFree) (blank : isBlank c = true)
    (text back : List Char) :
    tokens language (text ++ c :: back) = tokens language text ++ tokens language back := by
  induction text using scan_induction language with
  | ended text eof =>
    rw [tokens_of_isEof eof, tokens_eq_of_scan_eq (scan_append_of_isEof eof (c :: back)),
      tokens_cons_blank language blank]
    rfl
  | more text eof ih =>
    have scanned := scan_append_blank free blank eof back
    have behind : (scan language (text ++ c :: back)).1.isEof = false := by rw [scanned, eof]
    rw [tokens_of_not_isEof behind, tokens_of_not_isEof eof, scanned, ih]
    rfl

theorem tokens_blanks_append (language : Language) {blanks : List Char}
    (all : ∀ c ∈ blanks, isBlank c = true) (text : List Char) :
    tokens language (blanks ++ text) = tokens language text := by
  induction blanks with
  | nil => rfl
  | cons c blanks ih =>
    rw [List.cons_append, tokens_cons_blank language (all c List.mem_cons_self)]
    exact ih fun d member => all d (List.mem_cons_of_mem _ member)

theorem tokens_append_blanks (free : language.punctuators.IsBlankFree) {blanks : List Char}
    (nonempty : blanks ≠ []) (all : ∀ c ∈ blanks, isBlank c = true) (front back : List Char) :
    tokens language (front ++ blanks ++ back) = tokens language front ++ tokens language back := by
  obtain ⟨c, more, rfl⟩ := List.exists_cons_of_ne_nil nonempty
  have others : ∀ d ∈ more, isBlank d = true := fun d member => all d (List.mem_cons_of_mem _ member)
  rw [List.append_assoc, List.cons_append, tokens_append_blank free (all c List.mem_cons_self),
    tokens_blanks_append language others]

/-- **Blanks are boundaries.** Where no punctuator contains a blank, the tokens of two texts with blanks
between them are the tokens of the one and then those of the other. -/
theorem Lexer.drain_append_blanks (language : Language) (free : language.punctuators.IsBlankFree)
    (front blanks back : String) (nonempty : blanks ≠ "")
    (all : ∀ c ∈ blanks.toList, isBlank c = true) :
    (ofSource language (front ++ blanks ++ back)).drain.1 =
      (ofSource language front).drain.1 ++ (ofSource language back).drain.1 := by
  have present : blanks.toList ≠ [] := by rwa [Ne, String.toList_eq_nil_iff]
  show tokens language (front ++ blanks ++ back).toList = _
  rw [String.toList_append, String.toList_append, tokens_append_blanks free present all]
  rfl

theorem Lexer.drain_arrow_apart :
    Language.arrows.punctuators.IsBlankFree ∧ " \n" ≠ "" ∧
    (∀ c ∈ " \n".toList, isBlank c = true) ∧
    (ofSource Language.arrows ("a <" ++ " \n" ++ "<-b")).drain.1 =
      (ofSource Language.arrows "a <").drain.1 ++ (ofSource Language.arrows "<-b").drain.1 ∧
    (ofSource Language.arrows ("a <" ++ " \n" ++ "<-b")).drain.1 =
      [⟨"a", .identifier⟩, ⟨"<", ⟨17⟩⟩, ⟨"<-", ⟨20⟩⟩, ⟨"b", .identifier⟩] := by
  have free : Language.arrows.punctuators.IsBlankFree := by decide
  have nonempty : " \n" ≠ "" := by decide
  have all : ∀ c ∈ " \n".toList, isBlank c = true := List.all_eq_true.1 (by decide)
  exact ⟨free, nonempty, all,
    drain_append_blanks Language.arrows free "a <" " \n" "<-b" nonempty all, by decide +kernel⟩

/-! ## Tokens on their own -/

/-- What a text begins with is found again where it stands alone. -/
theorem Lexicon.Finds.alone {lexicon : Lexicon} (found : lexicon.Finds text token rest) :
    lexicon.Finds token.lexeme.toList token [] := by
  cases found with
  | @word word rest isWord stop =>
    have found : lexicon.Finds (word ++ []) _ [] := .word isWord stops_nil
    rw [List.append_nil] at found
    rw [String.toList_ofList]
    exact found
  | @punctuator lexeme tag rest unstarted registered longest =>
    have found : lexicon.Finds (lexeme.toList ++ []) ⟨lexeme, tag⟩ [] := by
      refine .punctuator ?_ registered fun other contained front => ?_
      · rw [List.append_nil]
        exact unstarted.of_append
      · rw [List.append_nil] at front
        exact longest other contained (front.trans (List.prefix_append _ _))
    rw [List.append_nil] at found
    exact found
  | @unknown c rest unstarted unregistered =>
    rw [String.toList_ofList]
    refine .unknown unstarted fun lexeme front => unregistered lexeme ?_
    exact front.trans (List.prefix_append [c] rest)
  | eof => exact .eof

/-- Every token of a text is the only token of its lexeme. -/
theorem tokens_lexeme : ∀ token ∈ tokens language text,
    tokens language token.lexeme.toList = [token] := by
  apply forall_mem_tokens
  intro behind _ more
  have found := finds_tokenAt language (behind.dropWhile isBlank)
  have unblank : Stops isBlank (scan language behind).1.lexeme.toList := by
    have stop := stops_dropWhile (p := isBlank) behind
    rw [found.split] at stop
    exact stop.of_append
  have alone := tokenAt_of_finds found.alone
  have scanned : scan language (scan language behind).1.lexeme.toList =
      ((scan language behind).1, []) := by
    rw [scan_of_stops language unblank]
    exact alone
  have first : (scan language (scan language behind).1.lexeme.toList).1.isEof = false := by
    rw [scanned, more]
  rw [tokens_of_not_isEof first, scanned, tokens_nil]

/-! ## Other blanks between the same tokens -/

/-- There are blanks between the pieces, and nothing but blanks around them. -/
structure IsSpaced (pieces : List Piece) (trail : List Char) : Prop where
  blank : ∀ piece ∈ pieces, ∀ c ∈ piece.blanks, isBlank c = true
  apart : ∀ piece ∈ pieces.tail, piece.blanks ≠ []
  trailing : ∀ c ∈ trail, isBlank c = true

/-- Pieces behind a text, each set apart by blanks, have the tokens that they have alone. -/
theorem tokens_append_spelling (free : language.punctuators.IsBlankFree) {pieces : List Piece}
    {trail : List Char} (blank : ∀ piece ∈ pieces, ∀ c ∈ piece.blanks, isBlank c = true)
    (apart : ∀ piece ∈ pieces, piece.blanks ≠ [])
    (alone : ∀ piece ∈ pieces, tokens language piece.token.lexeme.toList = [piece.token])
    (trailing : ∀ c ∈ trail, isBlank c = true) (front : List Char) :
    tokens language (front ++ (spelling pieces ++ trail)) =
      tokens language front ++ pieces.map Piece.token := by
  induction pieces generalizing front with
  | nil =>
    rw [spelling_nil, List.nil_append, List.map_nil, List.append_nil]
    by_cases empty : trail = []
    · rw [empty, List.append_nil]
    · have last := tokens_append_blanks free empty trailing front []
      rwa [List.append_nil, tokens_nil, List.append_nil] at last
  | cons piece pieces ih =>
    have split : front ++ (spelling (piece :: pieces) ++ trail) =
        front ++ piece.blanks ++ (piece.token.lexeme.toList ++ (spelling pieces ++ trail)) := by
      simp only [spelling_cons, List.append_assoc]
    have behind := ih (fun other member => blank other (List.mem_cons_of_mem _ member))
      (fun other member => apart other (List.mem_cons_of_mem _ member))
      (fun other member => alone other (List.mem_cons_of_mem _ member)) piece.token.lexeme.toList
    have head : piece ∈ piece :: pieces := List.mem_cons_self
    rw [split, tokens_append_blanks free (apart piece head) (blank piece head), behind,
      alone piece head]
    rfl

/-- The tokens of a text, with blanks between them, are the tokens of the spelling. -/
theorem tokens_spelling (free : language.punctuators.IsBlankFree) {pieces : List Piece}
    {trail : List Char} (spelled : pieces.map Piece.token = tokens language text)
    (spaced : IsSpaced pieces trail) :
    tokens language (spelling pieces ++ trail) = tokens language text := by
  have alone : ∀ piece ∈ pieces, tokens language piece.token.lexeme.toList = [piece.token] := by
    intro piece member
    apply @tokens_lexeme language text
    rw [← spelled]
    exact List.mem_map_of_mem member
  rw [← spelled]
  cases pieces with
  | nil =>
    have none := tokens_blanks_append language spaced.trailing []
    rwa [List.append_nil, tokens_nil] at none
  | cons piece pieces =>
    -- The first piece may begin at once, so its blanks are dropped and not cut off.
    have head : piece ∈ piece :: pieces := List.mem_cons_self
    have behind := tokens_append_spelling free
      (fun other member => spaced.blank other (List.mem_cons_of_mem _ member)) spaced.apart
      (fun other member => alone other (List.mem_cons_of_mem _ member)) spaced.trailing
      piece.token.lexeme.toList
    rw [spelling_cons, List.append_assoc, List.append_assoc,
      tokens_blanks_append language (spaced.blank piece head), behind, alone piece head]
    rfl

/-- What is read from a source as a declarator is read from its tokens. -/
theorem Declarator.ofString_eq_of_tokens_eq {source other : String}
    (same : tokens language other.toList = tokens language source.toList) :
    ofString language other = ofString language source := by
  rw [ofString_eq_reading, ofString_eq_reading, same]

/-- **Respacing.** Where no punctuator contains a blank, every text that spells the tokens of a source
in their order, with blanks between neighbours and any blanks around them, has the same tokens, is the
same declarator or is refused in the same way, and has the same symbol. -/
theorem Symbol.ofText_of_isSpaced (language : Language) (free : language.punctuators.IsBlankFree)
    (source : String) (pieces : List Piece) (trail : List Char)
    (spelled : pieces.map Piece.token = (Lexer.ofSource language source).drain.1)
    (spaced : IsSpaced pieces trail) :
    let respaced := String.ofList (spelling pieces ++ trail)
    (Lexer.ofSource language respaced).drain.1 = (Lexer.ofSource language source).drain.1 ∧
      Declarator.ofString language respaced = Declarator.ofString language source ∧
      ofText language respaced = ofText language source := by
  intro respaced
  have same : tokens language respaced.toList = tokens language source.toList := by
    rw [String.toList_ofList]
    exact tokens_spelling free spelled spaced
  have read := Declarator.ofString_eq_of_tokens_eq same
  refine ⟨same, read, ?_⟩
  rw [ofText_eq, ofText_eq, read]

theorem Symbol.ofText_f_void_apart :
    let source := Lexer.ofSource Language.sample "f(void)"
    let pieces := List.zipWith (fun blanks token => ⟨String.toList blanks, token⟩)
      ["", " ", "\n", "\t "] source.drain.1
    let trail := ['\r']
    let respaced := String.ofList (spelling pieces ++ trail)
    respaced = "f (\nvoid\t )\r" ∧ Language.sample.punctuators.IsBlankFree ∧
    pieces.map Piece.token = source.drain.1 ∧ IsSpaced pieces trail ∧
    (Lexer.ofSource Language.sample respaced).drain.1 = source.drain.1 ∧
    Declarator.ofString Language.sample respaced = Declarator.ofString Language.sample "f(void)" ∧
    ofText Language.sample respaced = ofText Language.sample "f(void)" ∧
    ofText Language.sample respaced = .ok "_Z1fv" := by
  intro source pieces trail respaced
  have written : respaced = "f (\nvoid\t )\r" := by decide +kernel
  have free : Language.sample.punctuators.IsBlankFree := by decide
  have spelled : pieces.map Piece.token = source.drain.1 := by decide +kernel
  have spaced : IsSpaced pieces trail := by
    have blank : ∀ piece ∈ pieces, piece.blanks.all isBlank = true := by decide +kernel
    constructor
    · exact fun piece member => List.all_eq_true.1 (blank piece member)
    · decide +kernel
    · exact List.all_eq_true.1 (by decide)
  obtain ⟨tokens, declared, symbol⟩ :=
    ofText_of_isSpaced Language.sample free "f(void)" pieces trail spelled spaced
  have function : ofText Language.sample "f(void)" = .ok "_Z1fv" := by decide +kernel
  exact ⟨written, free, spelled, spaced, tokens, declared, symbol, symbol.trans function⟩

end FunctionSymbols
