import CFrontend.Declaration.Reader
import CFrontend.Grammar.Builder
import CFrontend.Main
import CFrontend.Proofs.Recursion
import CFrontend.Server
import CFrontend.Proofs.Expansion
import CFrontend.Proofs.PartialDerivation
import CFrontend.Proofs.Outcome
import CFrontend.Proofs.Soundness
import CFrontend.Proofs.Termination
import CFrontend.Proofs.LeftCorner
import CFrontend.Proofs.Completeness
import CFrontend.Proofs.Yields
import CFrontend.Proofs.Spine
import CFrontend.Proofs.Wrapping
import CFrontend.Proofs.StartWrapping
import CFrontend.Proofs.Predecessor
import CFrontend.Proofs.Unrepeated
import CFrontend.Proofs.ErrorReport
import CFrontend.Parser.Arena
import CFrontend.Parser.Compaction
import CFrontend.Parser.Stored
import CFrontend.Proofs.Storage
import CFrontend.Proofs.StoredExpansion
import CFrontend.Proofs.Compaction
import CFrontend.Proofs.StoredParse
import CFrontend.Proofs.StateLimit
import CFrontend.Proofs.Unambiguity
import CFrontend.Proofs.DanglingElse
import CFrontend.Proofs.DeclarationReading
import CFrontend.Lexer.Buffer
import CFrontend.Lexer.Scanner
import CFrontend.Proofs.LexerProgress
import CFrontend.Proofs.Publication
import CFrontend.Proofs.Utf8
import CFrontend.Proofs.EditorPlaces
import CFrontend.Proofs.LexemeEnds
import CFrontend.Proofs.Concatenation
import CFrontend.Proofs.WrittenTokens
import CFrontend.Proofs.KindsAlone
import CFrontend.Proofs.RuleOrder
import CFrontend.Proofs.IntegerLiterals
import CFrontend.Proofs.LiteralEnds
import CFrontend.Proofs.ReadFailure
import CFrontend.Proofs.CycleSearch
import CFrontend.Proofs.DerivationOrder
import CFrontend.Proofs.MaximalMunch
import CFrontend.Proofs.MissingNodes
import CFrontend.Proofs.EbnfReading
import CFrontend.Proofs.TokenText
import CFrontend.Proofs.TreeReading
import CFrontend.Proofs.DiagnosticRange
import CFrontend.Proofs.BuilderNotations
import CFrontend.Proofs.ArenaHistory
import CFrontend.Proofs.ArenaMeaning
import CFrontend.Proofs.ArenaInvariant
