import TreeQuery.Query
import TreeQuery.Proofs.Document.Ancestry
import TreeQuery.Proofs.Selector.Outcome
import TreeQuery.Proofs.Selector.ClosedForm
import TreeQuery.Proofs.Document.Listing
import TreeQuery.Proofs.Document.Mapping
import TreeQuery.Proofs.Expr.Grammar
import TreeQuery.Proofs.Expr.Parsing
import TreeQuery.Proofs.Text.SearchOrder
import TreeQuery.Proofs.Token.LongestMatch
import TreeQuery.Proofs.Token.Tiling
import TreeQuery.Proofs.Selector.Units
import TreeQuery.Proofs.Selector.Validity
import TreeQuery.Proofs.Selector.Acceptance
import TreeQuery.Proofs.Token.Scanning
import TreeQuery.Proofs.Document.Subtree
import TreeQuery.Proofs.Selector.Has
import TreeQuery.Proofs.Token.Rereading
import TreeQuery.Proofs.Token.RuleTexts
import TreeQuery.Proofs.Token.Operators
import TreeQuery.Proofs.Token.Joining
import TreeQuery.Proofs.Selector.Union
import TreeQuery.Proofs.Selector.Parents
import TreeQuery.Proofs.Expr.Scanning
import TreeQuery.Proofs.Selector.Arguments
import TreeQuery.Proofs.Token.Spelling
import TreeQuery.Proofs.Text.JsonString
import TreeQuery.Proofs.Token.Rendering
import TreeQuery.Proofs.Token.Respacing
import TreeQuery.Proofs.Token.Spacing
import TreeQuery.Proofs.Number.Reading
import TreeQuery.Proofs.Expr.Errors
import TreeQuery.Proofs.Expr.Spelling
import TreeQuery.Proofs.Expr.Rendering
import TreeQuery.Proofs.Number.Shortest
import TreeQuery.Proofs.Number.Canonical
import TreeQuery.Proofs.Document.Plain
import TreeQuery.Proofs.Selector.Protocol
import TreeQuery.Proofs.Token.Literals
import TreeQuery.Proofs.Selector.Literals
import TreeQuery.Proofs.Document.Nesting
import TreeQuery.Proofs.Selector.Scope
import TreeQuery.Proofs.Selector.Lookups
import TreeQuery.Proofs.Selector.Shape
import TreeQuery.Proofs.Number.Layout
import TreeQuery.Proofs.Text.JsonValue
import TreeQuery.Proofs.Selector.Values
import TreeQuery.Proofs.Document.Relocation
import TreeQuery.Proofs.Selector.Quoting
import TreeQuery.Proofs.Selector.Keys
import TreeQuery.Proofs.Selector.NumberValues
import TreeQuery.Proofs.Selector.CanonicalNumbers
import TreeQuery.Proofs.Selector.NthArguments
import TreeQuery.Proofs.Selector.Errors
import TreeQuery.Proofs.Selector.NthPositions
import TreeQuery.Proofs.Expr.Opacity
import TreeQuery.Proofs.Number.Exactness
import TreeQuery.Proofs.Number.IntegerArithmetic
import TreeQuery.Proofs.Number.Magnitude
import TreeQuery.Proofs.Number.DecimalRange
import TreeQuery.Proofs.Expr.NeutralArithmetic
import TreeQuery.Proofs.Selector.Structural
import TreeQuery.Proofs.Selector.NthWords
import TreeQuery.Proofs.Document.NormalForm
import TreeQuery.Proofs.Selector.TypeReferences
import TreeQuery.Proofs.Selector.Aliases
import TreeQuery.Proofs.Token.Stepping
import TreeQuery.Proofs.Token.StringExtent
import TreeQuery.Proofs.Selector.ErrorPositions
import TreeQuery.Proofs.Selector.Splitting
import TreeQuery.Proofs.Token.Balance
import TreeQuery.Proofs.Expr.Progress
