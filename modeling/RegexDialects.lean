import RegexDialects.Main
import RegexDialects.Proofs.Adjoining
import RegexDialects.Proofs.Agreement
import RegexDialects.Proofs.Comment
import RegexDialects.Proofs.DeMorgan
import RegexDialects.Proofs.DigitEscape
import RegexDialects.Proofs.EmacsComposition
import RegexDialects.Proofs.EmacsLookAhead
import RegexDialects.Proofs.ErrorReports
import RegexDialects.Proofs.Expressible
import RegexDialects.Proofs.GroupCounter
import RegexDialects.Proofs.GroupDepth
import RegexDialects.Proofs.Idempotence
import RegexDialects.Proofs.Language
import RegexDialects.Proofs.Limits
import RegexDialects.Proofs.LiteralBraces
import RegexDialects.Proofs.Meaning
import RegexDialects.Proofs.NestingLimit
import RegexDialects.Proofs.Numbering
import RegexDialects.Proofs.PlainBracket
import RegexDialects.Proofs.ReferenceList
import RegexDialects.Proofs.References
import RegexDialects.Proofs.Refusals
import RegexDialects.Proofs.Rounds
import RegexDialects.Proofs.RxForm
import RegexDialects.Proofs.RxUnambiguous
import RegexDialects.Proofs.SetSoundness
import RegexDialects.Proofs.SreUnambiguous
import RegexDialects.Proofs.Termination
import RegexDialects.Tree.Denotation
