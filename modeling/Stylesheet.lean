import Stylesheet.Main
import Stylesheet.Options.Reader
import Stylesheet.Proofs.AttributeRetry
import Stylesheet.Proofs.BetweenRules
import Stylesheet.Proofs.CaseFolding.Validation
import Stylesheet.Proofs.Clearing
import Stylesheet.Proofs.CodeRanges
import Stylesheet.Proofs.Core.Attribute
import Stylesheet.Proofs.Documents
import Stylesheet.Proofs.Excerpt.SelectorAlone
import Stylesheet.Proofs.InTurn.Block
import Stylesheet.Proofs.Matching.Alternatives
import Stylesheet.Proofs.Matching.Permutation
import Stylesheet.Proofs.Matching.Printed
import Stylesheet.Proofs.Matching.Transactions
import Stylesheet.Proofs.Pushback
import Stylesheet.Proofs.ReaderRequests
import Stylesheet.Proofs.Reported
import Stylesheet.Proofs.Shifting
import Stylesheet.Proofs.Snippets
import Stylesheet.Proofs.Strictness
import Stylesheet.Proofs.Unchecked
import Stylesheet.Proofs.Undone
import Stylesheet.Proofs.VariableMarks
import Stylesheet.Proofs.VendorMarks
import Stylesheet.Proofs.Weighing
import Stylesheet.Proofs.WellFormed.Sheet
