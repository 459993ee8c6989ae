import TreeQuery.Numeric.Number
import TreeQuery.Text.Case
import TreeQuery.Text.Quoted
import TreeQuery.Tree.Sample
import TreeQuery.Token.Walk
import TreeQuery.Parser.Grammar
import TreeQuery.Expression.Evaluate
import TreeQuery.Chain.Compile
import TreeQuery.Chain.Replacement
import TreeQuery.Json.Basic
import TreeQuery.Json.Reader
import TreeQuery.Query.Basic
import TreeQuery.CommandLine.Arguments
import TreeQuery.CommandLine.Report
import TreeQuery.Main
import TreeQuery.Proofs.Chain.Positions
import TreeQuery.Proofs.Chain.Rewriting
import TreeQuery.Proofs.Chain.Sharing
import TreeQuery.Proofs.Chain.Finishing
import TreeQuery.Proofs.Parser.Reading
import TreeQuery.Proofs.Token.Form
import TreeQuery.Proofs.Parser.Scanning
import TreeQuery.Proofs.Parser.Leaves
import TreeQuery.Proofs.Parser.Soundness
import TreeQuery.Proofs.Parser.Expressions
import TreeQuery.Proofs.Parser.Completeness
import TreeQuery.Proofs.Parser.Reporting
import TreeQuery.Proofs.Expression.Printing
import TreeQuery.Proofs.Expression.Accepting
import TreeQuery.Proofs.Query.Resolving
import TreeQuery.Proofs.Query.Rereading
import TreeQuery.Proofs.Chain.Appending
import TreeQuery.Proofs.Chain.Fusing
import TreeQuery.Proofs.Chain.Congruence
import TreeQuery.Proofs.Token.Gist
import TreeQuery.Proofs.Chain.Paraphrasing
import TreeQuery.Proofs.Tree.Order
import TreeQuery.Proofs.Chain.Surrounding
import TreeQuery.Proofs.Chain.Pruning
import TreeQuery.Proofs.Numeric.Spelling
import TreeQuery.Proofs.Numeric.Calculating
import TreeQuery.Proofs.Numeric.Precision
import TreeQuery.Proofs.Chain.Counting
import TreeQuery.Proofs.Numeric.Halves
import TreeQuery.Proofs.Numeric.Texts
import TreeQuery.Proofs.Expression.Comparing
import TreeQuery.Proofs.Tree.Moving
import TreeQuery.Proofs.Chain.Wrapping
import TreeQuery.Proofs.Expression.Deciding
import TreeQuery.Proofs.Token.Outlining
