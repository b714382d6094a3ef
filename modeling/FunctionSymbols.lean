import FunctionSymbols.Json.NodeType
import FunctionSymbols.Lexer.Command
import FunctionSymbols.Parser.Operation
import FunctionSymbols.Symbol
import FunctionSymbols.Proofs.IdentifierText
import FunctionSymbols.Proofs.Demangling
import FunctionSymbols.Proofs.Reading
import FunctionSymbols.Proofs.Scanning
import FunctionSymbols.Proofs.LongestMatch
import FunctionSymbols.Proofs.Coverage
import FunctionSymbols.Proofs.Registration
import FunctionSymbols.Proofs.Agreement
import FunctionSymbols.Proofs.Refinement
import FunctionSymbols.Proofs.DeclaratorGrammar
import FunctionSymbols.Proofs.DeclaratorText
import FunctionSymbols.Proofs.CorrectPrefix
import FunctionSymbols.Proofs.DeclarationText
import FunctionSymbols.Proofs.SymbolText
import FunctionSymbols.Proofs.Respacing
import FunctionSymbols.Proofs.OperationRun
import FunctionSymbols.Proofs.TagIndependence
import FunctionSymbols.Proofs.RegistrationRun
import FunctionSymbols.Proofs.NodeSpelling
import FunctionSymbols.Proofs.Failures
import FunctionSymbols.Proofs.Progress
import FunctionSymbols.Proofs.SymbolIdentity
import FunctionSymbols.Proofs.CommandRun
import FunctionSymbols.Proofs.SpecifierRun
import FunctionSymbols.Proofs.EntryOrder
import FunctionSymbols.Proofs.NameRun
import FunctionSymbols.Proofs.Conservation
import FunctionSymbols.Proofs.StandardText
import FunctionSymbols.Proofs.ByteOrder
import FunctionSymbols.Proofs.CatalogLoading
import FunctionSymbols.Proofs.IdentifierPlaces
import FunctionSymbols.Proofs.ByteCursor
import FunctionSymbols.Proofs.IdentifierPattern
