import GraphQL.Json.Encode
import GraphQL.Lexer
import GraphQL.Printer.Json
import GraphQL.Proofs.Carets
import GraphQL.Proofs.Collation
import GraphQL.Proofs.Consistency
import GraphQL.Proofs.Constants
import GraphQL.Proofs.Controls
import GraphQL.Proofs.Conversion
import GraphQL.Proofs.Interleaving
import GraphQL.Proofs.Json.Node
import GraphQL.Proofs.Literals
import GraphQL.Proofs.Nesting
import GraphQL.Proofs.Numbers
import GraphQL.Proofs.Openings
import GraphQL.Proofs.Progress
import GraphQL.Proofs.QuotedStrings
import GraphQL.Proofs.Reindent
import GraphQL.Proofs.Reparse
import GraphQL.Proofs.ReservedNames
import GraphQL.Proofs.Settling
import GraphQL.Proofs.Spans
import GraphQL.Proofs.Switches
import GraphQL.Proofs.TokenLimit
import GraphQL.Proofs.WellFormed
import GraphQL.Tree.Sorted
import GraphQL.Untyped
