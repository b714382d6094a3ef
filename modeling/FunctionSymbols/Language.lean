import FunctionSymbols.Catalog
import FunctionSymbols.Standard
import FunctionSymbols.TokenTable

/-!
# Languages

A language is its keywords and its punctuators. None is built in: the language of a standard has empty
tables, and catalogs supply the others.
-/

namespace FunctionSymbols

/-- The keyword and punctuator tables that a text is read with. -/
structure Language where
  keywords : TokenTable
  punctuators : TokenTable
deriving DecidableEq

/-- The table of the numbers that a catalog gives to lexemes, entered in the order of the lexemes. -/
def TokenTable.ofSection (entries : LexemeMap UInt32) : Except Diagnostic TokenTable :=
  TokenTable.ofList (entries.entries.map fun e => (e.1, ⟨e.2⟩))

namespace Language

/-- The language without keywords and punctuators. -/
def empty : Language := ⟨.empty, .empty⟩

instance : Inhabited Language := ⟨empty⟩

/-- The language that comes with a standard. -/
def ofStandard (_ : Standard) : Language := empty

/-- The language of these keywords and punctuators; the keywords are entered first. -/
def ofEntries (keywords punctuators : List (String × Tag)) : Except Diagnostic Language := do
  let keywords ← TokenTable.ofList keywords
  let punctuators ← TokenTable.ofList punctuators
  return ⟨keywords, punctuators⟩

/-- The language of a catalog; the keywords are entered first. -/
def ofCatalog (catalog : Catalog) : Except Diagnostic Language := do
  let keywords ← TokenTable.ofSection catalog.keywords
  let punctuators ← TokenTable.ofSection catalog.punctuators
  return ⟨keywords, punctuators⟩

/-- The language of the catalog that a document describes, whichever way documents are read. What is said
of a document that is no catalog is passed on. -/
def ofDocument (read : String → Except String Catalog) (text : String) :
    Except Diagnostic Language := do
  let catalog ← (read text).mapError .malformedCatalog
  ofCatalog catalog

/-- The language of the catalog that a document describes. -/
def ofCatalogText (text : String) : Except Diagnostic Language := ofDocument Catalog.ofString text

end Language

end FunctionSymbols
