import FunctionSymbols.Catalog.Statement

/-!
# Catalogs

A catalog is a TOML 1.0 document with two tables of numbers, `keywords` and `punctuators`, both
optional. As every value of such a document fits on its line, so does every statement, and a document
is read line by line; whatever would need more than a line has no place in a catalog anyway.

A table is defined in one way only: under a header of its own, by a value on one line, or by dotted
keys in front of all headers. No key is given twice.
-/

namespace FunctionSymbols

/-- The numbers that a catalog gives to lexemes. -/
structure Catalog where
  keywords : LexemeMap UInt32
  punctuators : LexemeMap UInt32
deriving DecidableEq

namespace Catalog

/-- The tables of a catalog. -/
inductive SectionName where
  | keywords
  | punctuators
deriving DecidableEq, Repr

/-- The table that a key names. -/
def SectionName.ofKey? (key : String) : Option SectionName :=
  if key = "keywords" then some .keywords
  else if key = "punctuators" then some .punctuators
  else none

/-- What the lines so far have said about a table. -/
inductive SectionState where
  /-- Nothing. -/
  | absent
  /-- Some of its entries, by dotted keys. -/
  | dotted (entries : LexemeMap UInt32)
  /-- That it has a header or a value of its own. -/
  | defined (entries : LexemeMap UInt32)

namespace SectionState

/-- The entries so far. -/
def entries : SectionState → LexemeMap UInt32
  | absent => .empty
  | dotted entries => entries
  | defined entries => entries

/-- The table gets a header or a value, which has to be its only definition. -/
def define? (entries : LexemeMap UInt32) : SectionState → Option SectionState
  | absent => some (defined entries)
  | _ => none

/-- The table gets an entry by a dotted key. -/
def addDotted? (key : String) (n : UInt32) : SectionState → Option SectionState
  | absent => (LexemeMap.empty.insert? key n).map dotted
  | dotted entries => (entries.insert? key n).map dotted
  | defined _ => none

/-- The table gets an entry under its header. -/
def addHeaded? (key : String) (n : UInt32) : SectionState → Option SectionState
  | defined entries => (entries.insert? key n).map defined
  | _ => none

end SectionState

/-- A catalog that is being read: both tables so far, and the one whose header came last. -/
structure Draft where
  keywords : SectionState
  punctuators : SectionState
  current : Option SectionName

namespace Draft

/-- Nothing has been read. -/
def empty : Draft := ⟨.absent, .absent, none⟩

/-- Changes one of the tables. -/
def update? (draft : Draft) (name : SectionName) (change : SectionState → Option SectionState) :
    Option Draft :=
  match name with
  | .keywords => (change draft.keywords).map fun s => { draft with keywords := s }
  | .punctuators => (change draft.punctuators).map fun s => { draft with punctuators := s }

/-- What a statement adds to the draft. -/
def step? (draft : Draft) : Statement → Option Draft
  | .header [table] =>
    match SectionName.ofKey? table with
    | some name => (draft.update? name (SectionState.define? .empty)).map fun d => { d with current := some name }
    | none => none
  | .header _ => none
  | .assignment path value =>
    match draft.current, path, value with
    | some name, [key], .number n => draft.update? name (SectionState.addHeaded? key n)
    | none, [table], .table entries =>
      match SectionName.ofKey? table with
      | some name => draft.update? name (SectionState.define? entries)
      | none => none
    | none, [table, key], .number n =>
      match SectionName.ofKey? table with
      | some name => draft.update? name (SectionState.addDotted? key n)
      | none => none
    | _, _, _ => none

/-- What a line adds to the draft. A blank line adds nothing. -/
def line? (draft : Draft) (line : List Char) : Option Draft :=
  match words? line with
  | some [] => some draft
  | some words =>
    match statement? words with
    | some statement => draft.step? statement
    | none => none
  | none => none

/-- The catalog that has been read. -/
def toCatalog (draft : Draft) : Catalog := ⟨draft.keywords.entries, draft.punctuators.entries⟩

end Draft

/-- The lines of a text. A line ends in a line feed, or in a carriage return and a line feed. -/
def lines : List Char → List (List Char)
  | [] => [[]]
  | '\r' :: '\n' :: rest => [] :: lines rest
  | c :: rest =>
    if c = '\n' then [] :: lines rest
    else
      match lines rest with
      | line :: more => (c :: line) :: more
      | [] => [[c]]

/-- A text without the byte order mark that it may begin with. -/
def dropByteOrderMark : List Char → List Char
  | '\ufeff' :: rest => rest
  | text => text

/-- The catalog that a document describes. -/
def ofString? (text : String) : Option Catalog :=
  ((lines (dropByteOrderMark text.toList)).foldlM Draft.line? Draft.empty).map Draft.toCatalog

/-- The catalog that a document describes, or what is said of a document that describes none. -/
def ofString (text : String) : Except String Catalog :=
  match ofString? text with
  | some catalog => .ok catalog
  | none => .error "the document is not a catalog"

end Catalog

end FunctionSymbols
