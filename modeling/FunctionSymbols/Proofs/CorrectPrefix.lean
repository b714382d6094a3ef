import FunctionSymbols.Proofs.DeclaratorText

/-!
# The first offending token

A text that is refused is refused at the first token that cannot stand where it does: the tokens in
front of it begin some declarator of the language, and no declarator begins with them and this token.
The reason is that a reading looks one token behind those that it takes and no further
(`declarator_eq_of_take`), so nothing that follows could have changed it.
-/

namespace FunctionSymbols

/-- The tokens can be those of a text: identifiers are words and no keywords, and the end token is not
among them. -/
structure Language.Lexes (language : Language) (list : List Token) : Prop where
  spelled : Spelled list
  keyword_free : ∀ token ∈ list, token.isIdentifier = true →
    language.keywords.contains token.lexeme = false

/-- The tokens are those of some declarator. -/
def Language.Derives (language : Language) (list : List Token) : Prop :=
  ∃ segments last clause, DeclaratorForm language segments last clause list

/-! ## One token behind those that are taken -/

section

variable {list ahead : List Token}

theorem take_eq_of_le {m n : Nat} (same : list.take n = ahead.take n) (le : m ≤ n) :
    list.take m = ahead.take m := by
  have shorter : min m n = m := Nat.min_eq_left le
  rw [← shorter, ← List.take_take, ← List.take_take, same]

theorem take_drop_eq_of_take {m n : Nat} (same : list.take (m + n) = ahead.take (m + n)) :
    (list.drop m).take n = (ahead.drop m).take n := by
  have behind : ∀ tokens : List Token, (tokens.drop m).take n = (tokens.take (m + n)).drop m := by
    intro tokens
    rw [List.drop_take, Nat.add_sub_cancel_left]
  rw [behind, behind, same]

theorem head?_eq_of_take {n : Nat} (same : list.take (n + 1) = ahead.take (n + 1)) :
    list.head? = ahead.head? := by
  have head : ∀ tokens : List Token, tokens.head? = (tokens.take (n + 1)).head? := by
    intro tokens
    cases tokens <;> rfl
  rw [head, head ahead, same]

theorem exists_cons_of_take {token : Token} {n : Nat}
    (same : list.take (n + 1) = (token :: ahead).take (n + 1)) :
    ∃ behind, list = token :: behind ∧ behind.take n = ahead.take n := by
  cases list with
  | nil => cases same
  | cons head behind =>
    obtain ⟨rfl, tail⟩ := List.cons.inj same
    exact ⟨behind, rfl, tail⟩

theorem complaint_eq_of_head? (expected : String) (head : list.head? = ahead.head?) :
    complaint expected list = complaint expected ahead := by
  rw [complaint, complaint, List.headD_eq_head?_getD, List.headD_eq_head?_getD, head]

namespace Lexicon

variable {lexicon : Lexicon}

/-- Scopes are read alike from lists that agree up to the token behind them, and where that token is a
name up to the next one. -/
theorem scopes_eq_of_take
    (same : list.take (2 * (lexicon.scopes ahead).length + 1) =
      ahead.take (2 * (lexicon.scopes ahead).length + 1))
    (further : (ahead.drop (2 * (lexicon.scopes ahead).length)).head?.bind Token.name? ≠ none →
      list.take (2 * (lexicon.scopes ahead).length + 2) =
        ahead.take (2 * (lexicon.scopes ahead).length + 2)) :
    lexicon.scopes list = lexicon.scopes ahead := by
  fun_induction scopes lexicon ahead generalizing list with
  | case1 token colons rest name named separated ih =>
    have count : 2 * (name :: lexicon.scopes rest).length =
        2 * (lexicon.scopes rest).length + 1 + 1 := by
      rw [List.length_cons]
      omega
    rw [count] at same further
    obtain ⟨_, rfl, tail⟩ := exists_cons_of_take same
    obtain ⟨behind, rfl, inner⟩ := exists_cons_of_take tail
    have more : (rest.drop (2 * (lexicon.scopes rest).length)).head?.bind Token.name? ≠ none →
        behind.take (2 * (lexicon.scopes rest).length + 2) =
          rest.take (2 * (lexicon.scopes rest).length + 2) := by
      intro found
      have both := further found
      exact (List.cons.inj (List.cons.inj both).2).2
    rw [scopes, named, separated, ih inner more]
    rfl
  | case2 token colons rest name named unseparated =>
    have both := further (by simp [named])
    obtain ⟨_, rfl, tail⟩ := exists_cons_of_take both
    obtain ⟨behind, rfl, -⟩ := exists_cons_of_take tail
    rw [scopes, named]
    exact if_neg unseparated
  | case3 token colons rest unnamed =>
    obtain ⟨behind, rfl, -⟩ := exists_cons_of_take same
    exact scopes_of_name?_eq_none lexicon unnamed behind
  | case4 ahead short =>
    cases ahead with
    | nil =>
      have empty : list = [] := by simpa using same
      rw [empty]
      rfl
    | cons token rest =>
      cases rest with
      | cons colons rest => exact absurd rfl (short token colons rest)
      | nil =>
        obtain ⟨behind, rfl, -⟩ := exists_cons_of_take same
        cases named : token.name? with
        | none => exact scopes_of_name?_eq_none lexicon named behind
        | some name =>
          -- The list ends behind this name, so the other one must end there as well.
          have both := further (by simp [named])
          have empty : behind = [] := by simpa using (List.cons.inj both).2
          rw [empty]
          rfl

theorem named_eq_of_take {α : Type} (ofParts : List Identifier → Identifier → α)
    (same : list.take ((lexicon.named ofParts ahead).taken + 1) =
      ahead.take ((lexicon.named ofParts ahead).taken + 1)) :
    lexicon.named ofParts list = lexicon.named ofParts ahead := by
  simp only [named] at same ⊢
  cases found : (ahead.drop (2 * (lexicon.scopes ahead).length)).head?.bind Token.name? with
  | some last =>
    rw [found] at same
    have upTo := take_eq_of_le same (Nat.le_succ _)
    have head := head?_eq_of_take (take_drop_eq_of_take upTo)
    rw [scopes_eq_of_take upTo (fun _ => same), head, found]
  | none =>
    rw [found] at same
    have head := head?_eq_of_take (take_drop_eq_of_take same)
    rw [scopes_eq_of_take same (fun named => absurd found named), head, found,
      complaint_eq_of_head? "identifier" head]

theorem clauseContent_eq_of_head? (head : list.head? = ahead.head?) :
    lexicon.clauseContent list = lexicon.clauseContent ahead := by
  simp only [clauseContent, List.headD_eq_head?_getD, head]

/-- What is taken for a clause includes the opening parenthesis and the content. -/
theorem lt_taken_parameters (opened : lexicon.isPunctuator (ahead.headD .eof) "(" = true) :
    (lexicon.clauseContent ahead.tail).2 < (lexicon.parameters ahead).taken := by
  rw [parameters, if_pos opened]
  dsimp only
  split <;> dsimp only <;> omega

theorem parameters_eq_of_take
    (same : list.take ((lexicon.parameters ahead).taken + 1) =
      ahead.take ((lexicon.parameters ahead).taken + 1)) :
    lexicon.parameters list = lexicon.parameters ahead := by
  have head := head?_eq_of_take same
  by_cases opened : lexicon.isPunctuator (ahead.headD .eof) "(" = true
  · have enough := lt_taken_parameters opened
    have tail : list.tail.take ((lexicon.clauseContent ahead.tail).2 + 1) =
        ahead.tail.take ((lexicon.clauseContent ahead.tail).2 + 1) := by
      rw [← List.drop_one, ← List.drop_one]
      apply take_drop_eq_of_take
      apply take_eq_of_le same
      rw [List.drop_one]
      omega
    have content := @clauseContent_eq_of_head? _ _ lexicon (head?_eq_of_take tail)
    have behind := head?_eq_of_take (take_drop_eq_of_take tail)
    simp only [parameters, content, List.headD_eq_head?_getD, head, behind,
      complaint_eq_of_head? "`)`" behind]
  · have closed : ¬ lexicon.isPunctuator (list.headD .eof) "(" = true := by
      rw [List.headD_eq_head?_getD, head, ← List.headD_eq_head?_getD]
      exact opened
    rw [parameters, parameters, if_neg opened, if_neg closed]

/-- A declarator is read alike from lists that agree up to the token behind it. -/
theorem declarator_eq_of_take
    (same : list.take ((lexicon.declarator ahead).taken + 1) =
      ahead.take ((lexicon.declarator ahead).taken + 1)) :
    lexicon.declarator list = lexicon.declarator ahead := by
  rcases named : lexicon.named IdExpression.ofParts ahead with ⟨_ | id, front⟩
  · simp only [declarator, named] at same ⊢
    rw [named_eq_of_take IdExpression.ofParts (by rw [named]; exact same), named]
  · simp only [declarator, named] at same ⊢
    have upTo : front + 1 ≤ front + (lexicon.parameters (ahead.drop front)).taken + 1 := by omega
    rw [named_eq_of_take IdExpression.ofParts (by rw [named]; exact take_eq_of_le same upTo), named]
    rw [Nat.add_assoc] at same
    dsimp only
    rw [parameters_eq_of_take (take_drop_eq_of_take same)]

end Lexicon

end

/-! ## Identifiers under other spellings -/

section

variable {language : Language} {list : List Token}

/-- A word in place of a text, the text itself if it is one. -/
def wordFor (text : String) : String := if IsIdentifier text then text else "_"

theorem isWord_wordFor (text : String) : IsWord (wordFor text).toList := by
  rw [← isIdentifier_iff, wordFor]
  split
  · assumption
  · decide

/-- The token with another spelling, if it is an identifier. -/
def Token.respell (f : String → String) (token : Token) : Token :=
  if token.isIdentifier then ⟨f token.lexeme, .identifier⟩ else token

theorem Token.respell_eq_self {f : String → String} {token : Token}
    (kept : token.isIdentifier = true → f token.lexeme = token.lexeme) :
    token.respell f = token := by
  obtain ⟨lexeme, tag⟩ := token
  rw [respell]
  split
  · next named =>
    have tagged : tag = .identifier := beq_iff_eq.1 named
    rw [kept named, tagged]
  · rfl

theorem Token.respell_of_lookup (f : String → String) {table : TokenTable} {lexeme : String}
    {tag : Tag} (registered : table.lookup lexeme = some tag) :
    Token.respell f ⟨lexeme, tag⟩ = ⟨lexeme, tag⟩ := by
  apply Token.respell_eq_self
  intro named
  rw [TokenTable.isIdentifier_of_lookup registered] at named
  cases named

theorem NameForm.respell (f : String → String) {last : String} {segments : List String}
    (form : NameForm language last segments list) :
    NameForm language (f last) (segments.map f) (list.map (Token.respell f)) := by
  induction form with
  | last => exact .last
  | scope registered form ih =>
    rw [List.map_cons, List.map_cons, List.map_cons, Token.respell_of_lookup f registered]
    exact .scope registered ih

theorem ClauseForm.respell (f : String → String) {clause : Option ParameterClause}
    (form : ClauseForm language clause list) : list.map (Token.respell f) = list := by
  cases form with
  | absent => rfl
  | empty opens closes =>
    simp only [List.map_cons, List.map_nil, Token.respell_of_lookup f opens,
      Token.respell_of_lookup f closes]
  | void opens registered closes | variadic opens registered closes =>
    simp only [List.map_cons, List.map_nil, Token.respell_of_lookup f opens,
      Token.respell_of_lookup f registered, Token.respell_of_lookup f closes]

theorem NameForm.isEof {last : String} {segments : List String}
    (form : NameForm language last segments list) : ∀ token ∈ list, token.isEof = false := by
  induction form with
  | last =>
    intro token member
    rw [List.mem_singleton.1 member]
    rfl
  | scope registered form ih =>
    intro token member
    rcases List.mem_cons.1 member with rfl | member
    · rfl
    · rcases List.mem_cons.1 member with rfl | member
      · exact TokenTable.isEof_of_lookup registered
      · exact ih token member

theorem ClauseForm.isEof {clause : Option ParameterClause} (form : ClauseForm language clause list) :
    ∀ token ∈ list, token.isEof = false := by
  cases form with
  | absent =>
    intro token member
    cases member
  | empty opens closes =>
    simp [TokenTable.isEof_of_lookup opens, TokenTable.isEof_of_lookup closes]
  | void opens registered closes | variadic opens registered closes =>
    simp [TokenTable.isEof_of_lookup opens, TokenTable.isEof_of_lookup registered,
      TokenTable.isEof_of_lookup closes]

namespace Language.Derives

/-- The grammar does not look at the spelling of identifiers. -/
theorem respell (f : String → String) (derives : language.Derives list) :
    language.Derives (list.map (Token.respell f)) := by
  obtain ⟨segments, last, clause, front, back, rfl, name, ending⟩ := derives
  refine ⟨segments.map f, f last, clause, front.map (Token.respell f), back, ?_, name.respell f, ending⟩
  rw [List.map_append, ending.respell f]

theorem isEof (derives : language.Derives list) : ∀ token ∈ list, token.isEof = false := by
  obtain ⟨segments, last, clause, front, back, rfl, name, ending⟩ := derives
  intro token member
  rcases List.mem_append.1 member with member | member
  · exact name.isEof token member
  · exact ending.isEof token member

/-- What begins a declarator begins one whose identifiers are words. -/
theorem exists_spelled {front more : List Token} (derives : language.Derives (front ++ more))
    (spelled : Spelled front) : ∃ other, Spelled (front ++ other) ∧ language.Derives (front ++ other) := by
  have kept : ∀ token ∈ front, token.respell wordFor = id token := by
    intro token member
    apply Token.respell_eq_self
    intro named
    have already := isIdentifier_iff.2 ((spelled token member).2 named)
    exact if_pos already
  have split : (front ++ more).map (Token.respell wordFor) =
      front ++ more.map (Token.respell wordFor) := by
    rw [List.map_append, List.map_congr_left kept, List.map_id]
  refine ⟨more.map (Token.respell wordFor), ?_, ?_⟩
  · rw [← split]
    intro token member
    obtain ⟨original, within, rfl⟩ := List.mem_map.1 member
    rw [Token.respell]
    split
    · exact ⟨rfl, fun _ => isWord_wordFor original.lexeme⟩
    · next unnamed => exact ⟨derives.isEof original within, fun named => absurd named unnamed⟩
  · rw [← split]
    exact derives.respell wordFor

end Language.Derives

end

/-! ## What is taken and what is complained about -/

section

variable {language : Language} {ahead : List Token}

/-- Derived lists are those that are read to their end. -/
theorem derives_iff (spelled : Spelled ahead) :
    language.Derives ahead ↔
      ∃ declarator, (language.lexicon.declarator ahead).result = .ok declarator ∧
        ahead.drop (language.lexicon.declarator ahead).taken = [] := by
  constructor
  · rintro ⟨segments, last, clause, form⟩
    obtain ⟨id, spells⟩ := form.exists_spells spelled
    have read := (@declaratorForm_iff _ _ spelled ⟨id, clause⟩).2 ⟨segments, last, form, spells⟩
    exact ⟨_, read⟩
  · rintro ⟨declarator, read⟩
    obtain ⟨segments, last, form, -⟩ := (declaratorForm_iff spelled).1 read
    exact ⟨segments, last, declarator.parameters, form⟩

theorem named_eq_error {α : Type} {ofParts : List Identifier → Identifier → α} {d : Diagnostic}
    {taken : Nat} (failed : language.lexicon.named ofParts ahead = ⟨.error d, taken⟩) :
    taken = 2 * (language.lexicon.scopes ahead).length ∧
      d = complaint "identifier" (ahead.drop taken) := by
  simp only [Lexicon.named] at failed
  split at failed
  · cases failed
  · cases failed
    exact ⟨rfl, rfl⟩

/-- Only behind an opening parenthesis and its content is a clause refused. -/
theorem parameters_eq_error {d : Diagnostic} {taken : Nat}
    (failed : language.lexicon.parameters ahead = ⟨.error d, taken⟩) :
    ∃ opening rest clause inner, ahead = ⟨"(", opening⟩ :: rest ∧
      language.punctuators.lookup "(" = some opening ∧
      language.lexicon.clauseContent rest = (clause, inner) ∧ taken = inner + 1 ∧
      d = complaint "`)`" (rest.drop inner) := by
  unfold Lexicon.parameters at failed
  split at failed
  · next opened =>
    obtain ⟨opening, rest, rfl, opens⟩ := Language.isPunctuator_headD_iff.1 opened
    rcases content : language.lexicon.clauseContent rest with ⟨clause, inner⟩
    rw [List.tail_cons, content] at failed
    dsimp only at failed
    split at failed
    · cases failed
    · cases failed
      exact ⟨opening, rest, clause, inner, rfl, opens, content, rfl, rfl⟩
  · cases failed

/-- A declarator is refused with a complaint about the token behind those that are taken. -/
theorem exists_complaint {d : Diagnostic}
    (failed : (language.lexicon.declarator ahead).result = .error d) :
    ∃ expected, d = complaint expected (ahead.drop (language.lexicon.declarator ahead).taken) := by
  rcases named : language.lexicon.named IdExpression.ofParts ahead with ⟨_ | id, front⟩
  · simp only [Lexicon.declarator, named] at failed ⊢
    cases failed
    exact ⟨_, (named_eq_error named).2⟩
  · simp only [Lexicon.declarator, named] at failed ⊢
    rcases read : language.lexicon.parameters (ahead.drop front) with ⟨_ | clause, back⟩
    · rw [read] at failed
      cases failed
      obtain ⟨opening, rest, clause, inner, split, -, -, rfl, rfl⟩ := parameters_eq_error read
      refine ⟨"`)`", ?_⟩
      rw [← List.drop_drop, split, List.drop_succ_cons]
    · rw [read] at failed
      cases failed

/-- The first of the lengths bounds all registered lexemes. -/
theorem TokenTable.length_le_of_lookup {table : TokenTable} {lexeme : String} {tag : Tag}
    (registered : table.lookup lexeme = some tag) : lexeme.length ≤ table.lengths.headD 0 := by
  have listed : lexeme.length ∈ table.lengths :=
    (table.mem_lengths_iff _).2 ⟨_, mem_entries_of_lookup registered, rfl⟩
  have descending := table.lengths_descending
  revert listed descending
  cases table.lengths with
  | nil =>
    intro listed
    cases listed
  | cons longest rest =>
    intro listed descending
    rw [List.headD_cons]
    rcases List.mem_cons.1 listed with same | below
    · exact Nat.le_of_eq same
    · exact Nat.le_of_lt ((List.pairwise_cons.1 descending).1 _ below)

/-- Some word is longer than every registered lexeme. -/
theorem TokenTable.exists_isWord (table : TokenTable) :
    ∃ text : String, IsWord text.toList ∧ table.contains text = false := by
  let word := '_' :: List.replicate (table.lengths.headD 0) '_'
  have isWord : IsWord word := by
    refine ⟨rfl, fun c member => ?_⟩
    rw [List.eq_of_mem_replicate member]
    rfl
  refine ⟨String.ofList word, by rwa [String.toList_ofList], ?_⟩
  rw [← Bool.not_eq_true]
  intro contained
  obtain ⟨tag, registered⟩ := contains_iff.1 contained
  have bound := length_le_of_lookup registered
  rw [String.length_ofList, List.length_cons, List.length_replicate] at bound
  omega

theorem Language.lexes_nil : language.Lexes [] := by
  constructor
  · intro token member
    cases member
  · intro token member
    cases member

theorem Language.lexes_of_lookup {lexeme : String} {tag : Tag}
    (registered : language.punctuators.lookup lexeme = some tag) : language.Lexes [⟨lexeme, tag⟩] := by
  have unnamed := TokenTable.isIdentifier_of_lookup registered
  constructor
  · intro token member
    rw [List.mem_singleton.1 member, unnamed]
    exact ⟨TokenTable.isEof_of_lookup registered, fun named => absurd named Bool.false_ne_true⟩
  · intro token member named
    rw [List.mem_singleton.1 member, unnamed] at named
    cases named

theorem exists_clauseForm
    (closable : language.punctuators.contains "(" = true → language.punctuators.contains ")" = true) :
    ∃ more clause, language.Lexes more ∧
      ClauseForm language clause (ahead.take (language.lexicon.parameters ahead).taken ++ more) := by
  rcases read : language.lexicon.parameters ahead with ⟨d | clause, taken⟩
  · obtain ⟨opening, rest, clause, inner, rfl, opens, content, rfl, -⟩ := parameters_eq_error read
    obtain ⟨closing, closes⟩ :=
      TokenTable.contains_iff.1 (closable (TokenTable.contains_of_lookup opens))
    have form := clauseForm_of_content opens closes content
    exact ⟨[⟨")", closing⟩], some clause, Language.lexes_of_lookup closes, form⟩
  · have form := clauseForm_of_parameters read
    rw [← List.append_nil (ahead.take taken)] at form
    exact ⟨[], clause, Language.lexes_nil, form⟩

/-- The tokens that are taken begin a declarator, whether the reading succeeds or not. -/
theorem exists_derives
    (closable : language.punctuators.contains "(" = true → language.punctuators.contains ")" = true) :
    ∃ more, language.Lexes more ∧
      language.Derives (ahead.take (language.lexicon.declarator ahead).taken ++ more) := by
  rcases named : language.lexicon.named IdExpression.ofParts ahead with ⟨d | id, front⟩
  · simp only [Lexicon.declarator, named]
    obtain ⟨rfl, -⟩ := named_eq_error named
    obtain ⟨last, isWord, free⟩ := language.keywords.exists_isWord
    have form := nameForm_of_scopes language ahead last
    refine ⟨[⟨last, .identifier⟩], ?_, _, last, none, _, [], (List.append_nil _).symm, form, .absent⟩
    constructor
    · intro token member
      rw [List.mem_singleton.1 member]
      exact ⟨rfl, fun _ => isWord⟩
    · intro token member _
      rw [List.mem_singleton.1 member]
      exact free
  · simp only [Lexicon.declarator, named]
    obtain ⟨name, found, -, rfl⟩ := named_eq_ok_iff.1 named
    have form := nameForm_of_named found
    obtain ⟨more, clause, lexes, ending⟩ := exists_clauseForm closable
    refine ⟨more, lexes, _, name.text, clause, _, _, ?_, form, ending⟩
    rw [List.take_add, List.append_assoc]

/-- The token behind those that are taken is a dead end, whatever follows it. -/
theorem not_derives_append (spelled : Spelled ahead)
    (short : (language.lexicon.declarator ahead).taken < ahead.length) (more : List Token) :
    ¬ language.Derives (ahead.take ((language.lexicon.declarator ahead).taken + 1) ++ more) := by
  intro derives
  have front : Spelled (ahead.take ((language.lexicon.declarator ahead).taken + 1)) :=
    fun token member => spelled token (List.mem_of_mem_take member)
  have length : (ahead.take ((language.lexicon.declarator ahead).taken + 1)).length =
      (language.lexicon.declarator ahead).taken + 1 := by
    rw [List.length_take]
    omega
  obtain ⟨other, spelled', derives'⟩ := derives.exists_spelled front
  have agree := @List.take_left' _ _ other _ length
  have same := Lexicon.declarator_eq_of_take agree
  obtain ⟨declarator, -, whole⟩ := (derives_iff spelled').1 derives'
  -- The reading stops in front of the last of the tokens that were kept, so something is left.
  rw [same, List.drop_eq_nil_iff, List.length_append, length] at whole
  omega

end

namespace Declarator

variable {language : Language} {source : String} {d : Diagnostic}

/-- What a refusal says is about the token behind those that the reading takes. -/
theorem refused_cases (refused : ofString language source = .error d) :
    let stream := tokens language source.toList
    let taken := (language.lexicon.declarator stream).taken
    (∃ expected, d = .unexpectedToken expected (stream.getD taken .eof).text) ∨
      (taken < stream.length ∧ d = .trailingInput (stream.getD taken .eof).lexeme) := by
  intro stream taken
  have head : (stream.drop taken).head? = stream[taken]? := List.head?_drop
  rw [ofString_eq_reading] at refused
  rw [List.getD_eq_getElem?_getD, ← head]
  cases result : (language.lexicon.declarator stream).result with
  | error cause =>
    obtain ⟨expected, complained⟩ := exists_complaint result
    rw [result] at refused
    cases refused
    refine .inl ⟨expected, ?_⟩
    rw [complained, complaint, List.headD_eq_head?_getD]
  | ok declarator =>
    rw [result] at refused
    cases next : (stream.drop taken).head? with
    | none =>
      rw [next] at refused
      cases refused
    | some token =>
      rw [next] at refused
      cases refused
      rw [next] at head
      obtain ⟨short, -⟩ := List.getElem?_eq_some_iff.1 head.symm
      exact .inr ⟨short, rfl⟩

theorem not_derives_of_refused (refused : ofString language source = .error d) :
    ¬ language.Derives (tokens language source.toList) := by
  intro derives
  obtain ⟨declarator, read⟩ := (derives_iff (spelled_tokens language source.toList)).1 derives
  rw [ofString_eq_ok_iff_reading.2 read] at refused
  cases refused

/-- **The first offending token.** A text that is no declarator is refused at one of its tokens or at
its end. The tokens in front of that place go on to a declarator of the language; none begins with
them and the token at that place, and at the end they are none themselves. -/
theorem ofString_error_at_first_offence (language : Language)
    (closable : language.punctuators.contains "(" = true → language.punctuators.contains ")" = true)
    (source : String) (d : Diagnostic) (refused : ofString language source = .error d) :
    let stream := tokens language source.toList
    ∃ place, place ≤ stream.length ∧
      ((∃ expected, d = .unexpectedToken expected (stream.getD place .eof).text) ∨
        (place < stream.length ∧ d = .trailingInput (stream.getD place .eof).lexeme)) ∧
      (∃ more, language.Lexes more ∧ language.Derives (stream.take place ++ more)) ∧
      (place < stream.length → ∀ more, ¬ language.Derives (stream.take (place + 1) ++ more)) ∧
      (place = stream.length → ¬ language.Derives stream) := by
  intro stream
  have spelled : Spelled stream := spelled_tokens language source.toList
  have blamed := refused_cases refused
  have begun := @exists_derives language stream closable
  have ended := not_derives_of_refused refused
  rcases Nat.lt_or_ge (language.lexicon.declarator stream).taken stream.length with short | whole
  · have offending := not_derives_append spelled short
    exact ⟨_, Nat.le_of_lt short, blamed, begun, fun _ => offending, fun _ => ended⟩
  · -- Nothing is left, so the place is the end, and the complaint is about the end token.
    have all : stream.take (language.lexicon.declarator stream).taken = stream.take stream.length := by
      rw [List.take_of_length_le whole, List.take_length]
    have last : stream.getD (language.lexicon.declarator stream).taken .eof =
        stream.getD stream.length .eof := by
      rw [List.getD_eq_getElem?_getD, List.getD_eq_getElem?_getD, List.getElem?_eq_none whole,
        List.getElem?_eq_none (Nat.le_refl _)]
    rw [all] at begun
    refine ⟨stream.length, Nat.le_refl _, .inl ?_, begun, fun short => ?_, fun _ => ended⟩
    · rcases blamed with ⟨expected, cause⟩ | ⟨short, -⟩
      · exact ⟨expected, by rw [cause, last]⟩
      · exact absurd short (Nat.not_lt.2 whole)
    · exact absurd short (Nat.lt_irrefl _)

theorem ofString_unclosed_variadic :
    let stream := tokens Language.sample "a::f(... x".toList
    (Language.sample.punctuators.contains "(" = true →
      Language.sample.punctuators.contains ")" = true) ∧
    ofString Language.sample "a::f(... x" = .error (.unexpectedToken "`)`" "`x`") ∧
    ∃ place, place ≤ stream.length ∧
      ((∃ expected, Diagnostic.unexpectedToken "`)`" "`x`" =
          .unexpectedToken expected (stream.getD place .eof).text) ∨
        (place < stream.length ∧ Diagnostic.unexpectedToken "`)`" "`x`" =
          .trailingInput (stream.getD place .eof).lexeme)) ∧
      (∃ more, Language.sample.Lexes more ∧ Language.sample.Derives (stream.take place ++ more)) ∧
      (place < stream.length →
        ∀ more, ¬ Language.sample.Derives (stream.take (place + 1) ++ more)) ∧
      (place = stream.length → ¬ Language.sample.Derives stream) := by
  intro stream
  have closable : Language.sample.punctuators.contains "(" = true →
      Language.sample.punctuators.contains ")" = true := by decide
  have refused : ofString Language.sample "a::f(... x" = .error (.unexpectedToken "`)`" "`x`") := by
    decide +kernel
  exact ⟨closable, refused,
    ofString_error_at_first_offence Language.sample closable "a::f(... x" _ refused⟩

end Declarator

end FunctionSymbols
