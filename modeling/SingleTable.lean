import SingleTable.Template.Match
import SingleTable.Model.Codec
import SingleTable.Value.Codec
import SingleTable.Request.Codec
import SingleTable.Request.Range
import SingleTable.Proofs.Plan.Routing
import SingleTable.Proofs.Condition.Built
import SingleTable.Proofs.Model.Keys
import SingleTable.Proofs.Plan.KeyAgreement
import SingleTable.Proofs.Condition.Maps
import SingleTable.Proofs.Condition.TestText
import SingleTable.Proofs.Request.Reached
import SingleTable.Proofs.Request.Placeholders
import SingleTable.Proofs.Condition.Grammar
import SingleTable.Proofs.Expression.Plain
import SingleTable.Proofs.Condition.LeafText
import SingleTable.Proofs.Condition.Meaning
import SingleTable.Proofs.Expression.Marks
import SingleTable.Proofs.Condition.Shown
import SingleTable.Proofs.Expression.Clauses
import SingleTable.Proofs.Request.Drafts
import SingleTable.Proofs.Request.Closure
import SingleTable.Proofs.Condition.Attribute
import SingleTable.Proofs.Plan.Paths
import SingleTable.Proofs.Plan.KeyConditions
import SingleTable.Proofs.Condition.StringTests
import SingleTable.Proofs.Plan.RangeKeys
import SingleTable.Proofs.Plan.Shadowing
import SingleTable.Proofs.Request.ItemKeys
import SingleTable.Proofs.Value.Codec
import SingleTable.Proofs.Model.Codec
import SingleTable.Proofs.Request.Conjunction
import SingleTable.Proofs.Template.Matching
import SingleTable.Proofs.Request.Builder
import SingleTable.Proofs.Json.Reordered
import SingleTable.Proofs.Request.Codec
import SingleTable.Proofs.Template.Matched
import SingleTable.Proofs.Model.Resolution
import SingleTable.Proofs.Template.Parsing
import SingleTable.Proofs.Plan.Permuted
import SingleTable.Proofs.Model.StrictKeys
import SingleTable.Proofs.Request.Defaults
import SingleTable.Proofs.Request.Changes
import SingleTable.Proofs.Condition.TopLevel
import SingleTable.Proofs.Plan.Negation
import SingleTable.Proofs.Request.WriteBack
import SingleTable.Proofs.Expression.KeyGrammar
import SingleTable.Proofs.Plan.KeyExpression
import SingleTable.Proofs.Expression.Renaming
