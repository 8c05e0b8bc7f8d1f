import SearchQuery.Json.Printer
import SearchQuery.Geo.Distance
import SearchQuery.Query
import SearchQuery.Proofs.Meaning
import SearchQuery.Proofs.DepthLimit
import SearchQuery.Proofs.RoundTrip
import SearchQuery.Proofs.Walk
import SearchQuery.Proofs.FirstError
import SearchQuery.Proofs.LeafOrder
import SearchQuery.Proofs.Neutral
import SearchQuery.Proofs.NormalForm
import SearchQuery.Proofs.Required
import SearchQuery.Proofs.Negation
import SearchQuery.Proofs.Script
import SearchQuery.Proofs.Parentheses
import SearchQuery.Proofs.Juxtaposition
import SearchQuery.Proofs.IgnoredMarks
import SearchQuery.Proofs.SyntaxError
import SearchQuery.Proofs.Distance
import SearchQuery.Proofs.RequestForm
import SearchQuery.Proofs.OptionOrder
import SearchQuery.Proofs.TermsOrder
import SearchQuery.Proofs.BlankInsertion
import SearchQuery.Proofs.Catalogue
import SearchQuery.Proofs.NumberLiteral
import SearchQuery.Proofs.Session
import SearchQuery.Proofs.FilterText
import SearchQuery.Proofs.TreeShape
import SearchQuery.Proofs.ScriptLiteral
