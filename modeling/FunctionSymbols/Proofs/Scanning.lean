import FunctionSymbols.Proofs.IdentifierText
import FunctionSymbols.Proofs.Run
import FunctionSymbols.Lexer

/-!
# What the scan finds

The scan cuts a word off a text whose next character does not continue it (`scan_append_word`), and
the longest registered punctuator off a text that begins with one (`punctuatorAt?_eq_some_iff`,
`scan_append_punctuator`). In the other direction, a token that is tagged as an identifier is a word
that is no keyword (`isWord_of_mem_tokens`).
-/

namespace FunctionSymbols

/-! ## Words -/

theorem isBlank_eq_false_of_isContinueChar {c : Char} (h : isContinueChar c = true) :
    isBlank c = false := by
  rw [← Bool.not_eq_true]
  intro blank
  simp only [isBlank, Bool.or_eq_true, beq_iff_eq] at blank
  rcases blank with ((rfl | rfl) | rfl) | rfl <;> cases h

theorem isBlank_eq_false_of_isStartChar {c : Char} (h : isStartChar c = true) :
    isBlank c = false :=
  isBlank_eq_false_of_isContinueChar (isContinueChar_of_isStartChar h)

/-- Where no blank is in the way, the scan begins at once. -/
theorem scan_of_stops (language : Language) {text : List Char} (unblank : Stops isBlank text) :
    scan language text = tokenAt language text := by
  rw [scan, dropWhile_of_stops unblank]

theorem tokenAt_append_word (language : Language) {word rest : List Char} (h : IsWord word)
    (stop : Stops isContinueChar rest) :
    tokenAt language (word ++ rest) =
      (⟨String.ofList word,
        (language.keywords.lookup (String.ofList word)).getD .identifier⟩, rest) := by
  cases word with
  | nil => exact h.elim
  | cons c more =>
    rw [List.cons_append, tokenAt, if_pos h.1, wordAt, takeWhile_append_of_stops h.2 stop,
      dropWhile_append_of_stops h.2 stop]

theorem stops_isBlank_append_word {word : List Char} (h : IsWord word) (rest : List Char) :
    Stops isBlank (word ++ rest) := by
  cases word with
  | nil => exact h.elim
  | cons c more => exact stops_cons.2 (isBlank_eq_false_of_isStartChar h.1)

/-- A word is a token of its own when the text behind it does not go on with it. -/
theorem scan_append_word (language : Language) {word rest : List Char} (h : IsWord word)
    (stop : Stops isContinueChar rest) :
    scan language (word ++ rest) =
      (⟨String.ofList word,
        (language.keywords.lookup (String.ofList word)).getD .identifier⟩, rest) := by
  rw [scan_of_stops language (stops_isBlank_append_word h rest), tokenAt_append_word language h stop]

/-! ## Punctuators -/

namespace TokenTable

variable {table : TokenTable} {lexeme : String}

theorem contains_iff : table.contains lexeme = true ↔ ∃ tag, table.lookup lexeme = some tag :=
  Option.isSome_iff_exists

theorem contains_eq_false_iff : table.contains lexeme = false ↔ table.lookup lexeme = none := by
  rw [contains, Option.isSome_eq_false_iff, Option.isNone_iff_eq_none]

theorem contains_of_lookup {tag : Tag} (h : table.lookup lexeme = some tag) :
    table.contains lexeme = true :=
  contains_iff.2 ⟨tag, h⟩

/-- What is registered is neither the end token nor an identifier. -/
theorem isEof_of_lookup {tag : Tag} (h : table.lookup lexeme = some tag) :
    (Token.mk lexeme tag).isEof = false := by
  have unreserved := Tag.ne_eof_of_not_isReserved (isReserved_of_lookup h)
  rw [Token.isEof, beq_eq_false_iff_ne]
  exact unreserved

theorem isIdentifier_of_lookup {tag : Tag} (h : table.lookup lexeme = some tag) :
    (Token.mk lexeme tag).isIdentifier = false := by
  rw [Token.isIdentifier, beq_eq_false_iff_ne]
  rintro rfl
  have unreserved := isReserved_of_lookup h
  exact absurd unreserved (by decide)

theorem length_mem_lengths (h : table.contains lexeme = true) : lexeme.length ∈ table.lengths := by
  obtain ⟨tag, found⟩ := contains_iff.1 h
  exact (table.mem_lengths_iff _).2 ⟨_, mem_entries_of_lookup found, rfl⟩

end TokenTable

theorem punctuatorOfLength?_eq_some_iff {punctuators : TokenTable} {text rest : List Char}
    {token : Token} {n : Nat} :
    punctuatorOfLength? punctuators text n = some (token, rest) ↔
      text = token.lexeme.toList ++ rest ∧ punctuators.lookup token.lexeme = some token.tag ∧
        token.lexeme.length = n := by
  constructor
  · intro h
    obtain ⟨split, found⟩ := punctuatorOfLength?_eq_some h
    refine ⟨split, found, ?_⟩
    simp only [punctuatorOfLength?] at h
    split at h
    · next long =>
      obtain ⟨tag, -, same⟩ := Option.map_eq_some_iff.1 h
      cases same
      rw [String.length_ofList, long]
    · cases h
  · rintro ⟨rfl, found, rfl⟩
    have front : (token.lexeme.toList ++ rest).take token.lexeme.length = token.lexeme.toList := by
      rw [← String.length_toList, List.take_left]
    have back : (token.lexeme.toList ++ rest).drop token.lexeme.length = rest := by
      rw [← String.length_toList, List.drop_left]
    simp only [punctuatorOfLength?, front, back, String.length_toList, if_true, String.ofList_toList,
      found, Option.map_some]

/-- A registered punctuator at the front of a text is found under its own length. -/
theorem punctuatorOfLength?_ne_none {punctuators : TokenTable} {text : List Char} {lexeme : String}
    (registered : punctuators.contains lexeme = true) (front : lexeme.toList <+: text) :
    punctuatorOfLength? punctuators text lexeme.length ≠ none := by
  obtain ⟨tag, found⟩ := TokenTable.contains_iff.1 registered
  obtain ⟨rest, rfl⟩ := front
  rw [(@punctuatorOfLength?_eq_some_iff _ _ rest ⟨lexeme, tag⟩ _).2 ⟨rfl, found, rfl⟩]
  exact Option.some_ne_none _

/-- **Longest match.** The punctuator that is taken is registered, begins the text, and is at least as
long as any other registered lexeme that begins the text. -/
theorem punctuatorAt?_eq_some_iff {punctuators : TokenTable} {text rest : List Char} {token : Token} :
    punctuatorAt? punctuators text = some (token, rest) ↔
      text = token.lexeme.toList ++ rest ∧ punctuators.lookup token.lexeme = some token.tag ∧
        ∀ lexeme, punctuators.contains lexeme = true → lexeme.toList <+: text →
          lexeme.length ≤ token.lexeme.length := by
  have descending := punctuators.lengths_descending
  constructor
  · intro h
    obtain ⟨longer, n, shorter, lengths, found, missed⟩ := List.findSome?_eq_some_iff.1 h
    obtain ⟨split, registered, rfl⟩ := punctuatorOfLength?_eq_some_iff.1 found
    refine ⟨split, registered, fun lexeme other front => ?_⟩
    have member := TokenTable.length_mem_lengths other
    rw [lengths] at member descending
    obtain ⟨-, below, -⟩ := List.pairwise_append.1 descending
    rcases List.mem_append.1 member with early | late
    · exact absurd (missed _ early) (punctuatorOfLength?_ne_none other front)
    · rcases List.mem_cons.1 late with same | late
      · exact Nat.le_of_eq same
      · exact Nat.le_of_lt ((List.pairwise_cons.1 below).1 _ late)
  · rintro ⟨split, registered, longest⟩
    have member := TokenTable.length_mem_lengths (TokenTable.contains_of_lookup registered)
    obtain ⟨longer, shorter, lengths⟩ := List.append_of_mem member
    refine List.findSome?_eq_some_iff.2 ⟨longer, _, shorter, lengths,
      punctuatorOfLength?_eq_some_iff.2 ⟨split, registered, rfl⟩, fun n early => ?_⟩
    rw [lengths] at descending
    have above : n > token.lexeme.length :=
      (List.pairwise_append.1 descending).2.2 n early _ List.mem_cons_self
    cases found : punctuatorOfLength? punctuators text n with
    | none => rfl
    | some other =>
      obtain ⟨split', registered', rfl⟩ := punctuatorOfLength?_eq_some_iff.1 found
      have := longest _ (TokenTable.contains_of_lookup registered') ⟨_, split'.symm⟩
      omega

/-- No punctuator is taken exactly when no registered lexeme begins the text. -/
theorem punctuatorAt?_eq_none_iff {punctuators : TokenTable} {text : List Char} :
    punctuatorAt? punctuators text = none ↔
      ∀ lexeme, lexeme.toList <+: text → punctuators.lookup lexeme = none := by
  rw [punctuatorAt?, List.findSome?_eq_none_iff]
  constructor
  · intro missed lexeme front
    rw [← TokenTable.contains_eq_false_iff, ← Bool.not_eq_true]
    intro registered
    have member := TokenTable.length_mem_lengths registered
    exact punctuatorOfLength?_ne_none registered front (missed _ member)
  · intro unregistered n _
    cases found : punctuatorOfLength? punctuators text n with
    | none => rfl
    | some result =>
      obtain ⟨split, registered⟩ := punctuatorOfLength?_eq_some found
      rw [unregistered _ ⟨_, split.symm⟩] at registered
      cases registered

theorem tokenAt_append_punctuator {language : Language} {lexeme : String} {tag : Tag}
    {rest : List Char} (registered : language.punctuators.lookup lexeme = some tag)
    (unstarted : Stops isStartChar (lexeme.toList ++ rest))
    (longest : ∀ other, language.punctuators.contains other = true →
      other.toList <+: lexeme.toList ++ rest → other.length ≤ lexeme.length) :
    tokenAt language (lexeme.toList ++ rest) = (⟨lexeme, tag⟩, rest) := by
  have found := (@punctuatorAt?_eq_some_iff _ _ rest ⟨lexeme, tag⟩).2 ⟨rfl, registered, longest⟩
  have nonempty : lexeme.toList ≠ [] := by
    simpa using TokenTable.ne_empty_of_lookup registered
  obtain ⟨c, more, split⟩ := List.exists_cons_of_ne_nil nonempty
  rw [split, List.cons_append] at found unstarted ⊢
  rw [stops_cons] at unstarted
  simp only [tokenAt, unstarted, Bool.false_eq_true, if_false, found]

/-- A registered punctuator is a token of its own when no longer one begins the text as well. -/
theorem scan_append_punctuator {language : Language} {lexeme : String} {tag : Tag}
    {rest : List Char} (registered : language.punctuators.lookup lexeme = some tag)
    (unblank : Stops isBlank (lexeme.toList ++ rest))
    (unstarted : Stops isStartChar (lexeme.toList ++ rest))
    (longest : ∀ other, language.punctuators.contains other = true →
      other.toList <+: lexeme.toList ++ rest → other.length ≤ lexeme.length) :
    scan language (lexeme.toList ++ rest) = (⟨lexeme, tag⟩, rest) := by
  rw [scan_of_stops language unblank, tokenAt_append_punctuator registered unstarted longest]

/-! ## Tokens one by one -/

/-- What holds where a text has no more tokens, and of a text when it holds behind its first token, holds
of every text. -/
@[elab_as_elim]
theorem scan_induction (language : Language) {motive : List Char → Prop}
    (ended : ∀ text, (scan language text).1.isEof = true → motive text)
    (more : ∀ text, (scan language text).1.isEof = false → motive (scan language text).2 →
      motive text)
    (text : List Char) : motive text := by
  induction h : text.length using Nat.strongRecOn generalizing text with
  | ind n ih =>
    cases eof : (scan language text).1.isEof with
    | true => exact ended text eof
    | false => exact more text eof (ih _ (h ▸ length_scan_lt eof) _ rfl)

theorem tokens_of_isEof {language : Language} {text : List Char}
    (ended : (scan language text).1.isEof = true) : tokens language text = [] := by
  rw [tokens_eq, if_pos ended]

theorem tokens_of_not_isEof {language : Language} {text : List Char}
    (more : (scan language text).1.isEof = false) :
    tokens language text =
      (scan language text).1 :: tokens language (scan language text).2 := by
  rw [tokens_eq, more]
  rfl

theorem tokens_eq_of_scan_eq {language : Language} {text other : List Char}
    (same : scan language text = scan language other) :
    tokens language text = tokens language other := by
  rw [tokens_eq, tokens_eq language other, same]

/-- A blank in front changes no token. -/
theorem tokens_cons_blank (language : Language) {c : Char} (blank : isBlank c = true)
    (text : List Char) : tokens language (c :: text) = tokens language text := by
  apply tokens_eq_of_scan_eq
  rw [scan, scan, List.dropWhile_cons_of_pos blank]

theorem tokens_append_word (language : Language) {word rest : List Char} (h : IsWord word)
    (stop : Stops isContinueChar rest) :
    tokens language (word ++ rest) =
      ⟨String.ofList word, (language.keywords.lookup (String.ofList word)).getD .identifier⟩ ::
        tokens language rest := by
  have more : (scan language (word ++ rest)).1.isEof = false := by
    rw [scan_append_word language h stop]
    cases found : language.keywords.lookup (String.ofList word) with
    | none => rfl
    | some tag => exact TokenTable.isEof_of_lookup found
  rw [tokens_of_not_isEof more, scan_append_word language h stop]

theorem tokens_append_keyword {language : Language} {lexeme : String} {tag : Tag}
    {rest : List Char} (word : IsWord lexeme.toList)
    (registered : language.keywords.lookup lexeme = some tag) (stop : Stops isContinueChar rest) :
    tokens language (lexeme.toList ++ rest) = ⟨lexeme, tag⟩ :: tokens language rest := by
  rw [tokens_append_word language word stop, String.ofList_toList, registered]
  rfl

theorem tokens_append_name {language : Language} {name : Identifier} {rest : List Char}
    (unregistered : language.keywords.contains name.text = false)
    (stop : Stops isContinueChar rest) :
    tokens language (name.text.toList ++ rest) = ⟨name.text, .identifier⟩ :: tokens language rest := by
  rw [tokens_append_word language name.isWord stop, String.ofList_toList,
    TokenTable.contains_eq_false_iff.1 unregistered]
  rfl

/-! ## Identifiers among the tokens -/

/-- A token that is tagged as an identifier is a word that is no keyword: no table assigns this tag. -/
theorem isWord_tokenAt {language : Language} {text : List Char}
    (h : (tokenAt language text).1.isIdentifier = true) :
    IsWord (tokenAt language text).1.lexeme.toList ∧
      language.keywords.lookup (tokenAt language text).1.lexeme = none := by
  cases text with
  | nil => cases h
  | cons c rest =>
    simp only [tokenAt] at h ⊢
    split at h
    · next start =>
      simp only [start, if_true]
      simp only [wordAt] at h ⊢
      refine ⟨?_, ?_⟩
      · rw [String.toList_ofList]
        exact isWord_cons_takeWhile start rest
      · cases found : language.keywords.lookup
            (String.ofList (c :: rest.takeWhile isContinueChar)) with
        | none => rfl
        | some tag =>
          rw [found, Option.getD_some, TokenTable.isIdentifier_of_lookup found] at h
          cases h
    · split at h
      · next token after found =>
        have tagged := TokenTable.isIdentifier_of_lookup (punctuatorAt?_eq_some found).2
        rw [h] at tagged
        cases tagged
      · cases h

/-- What holds of every token but the end token that a scan finds at some place of a text holds of all
tokens of the text. -/
theorem forall_mem_tokens {language : Language} {P : Token → Prop} {text : List Char}
    (found : ∀ behind, behind <:+ text → (scan language behind).1.isEof = false →
      P (scan language behind).1) :
    ∀ token ∈ tokens language text, P token := by
  induction text using scan_induction language with
  | ended text eof =>
    rw [tokens_of_isEof eof]
    intro token member
    cases member
  | more text eof ih =>
    rw [tokens_of_not_isEof eof]
    intro token member
    rcases List.mem_cons.1 member with rfl | member
    · exact found text List.suffix_rfl eof
    · have suffix := scan_suffix language text
      exact ih (fun behind within => found behind (within.trans suffix)) token member

theorem isEof_of_mem_tokens {language : Language} {text : List Char} :
    ∀ token ∈ tokens language text, token.isEof = false :=
  forall_mem_tokens fun _ _ more => more

theorem isWord_of_mem_tokens {language : Language} {text : List Char} :
    ∀ token ∈ tokens language text, token.isIdentifier = true →
      IsWord token.lexeme.toList ∧ language.keywords.lookup token.lexeme = none :=
  forall_mem_tokens fun _ _ _ named => isWord_tokenAt named

/-- Every token is written in the text. -/
theorem infix_of_mem_tokens {language : Language} {text : List Char} :
    ∀ token ∈ tokens language text, token.lexeme.toList <:+: text := by
  apply forall_mem_tokens
  intro behind within _
  have written := lexeme_append_tokenAt language (behind.dropWhile isBlank)
  have front : (scan language behind).1.lexeme.toList <+: behind.dropWhile isBlank := ⟨_, written⟩
  exact front.isInfix.trans ((List.dropWhile_suffix isBlank).trans within).isInfix

end FunctionSymbols
