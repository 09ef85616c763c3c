import EntityQuery.Augmentation.Inspect
import EntityQuery.Executor.Basic
import EntityQuery.Json.Reader
import EntityQuery.Proofs.Grammar.Condition
import EntityQuery.Proofs.Grammar.Statement
import EntityQuery.Proofs.Lexing.Lexeme
import EntityQuery.Proofs.Lexing.Lexes
import EntityQuery.Proofs.Splice.Words
import EntityQuery.Proofs.Grammar.Content
import EntityQuery.Proofs.Splice.Clauses
import EntityQuery.Proofs.Evaluation.Condition
import EntityQuery.Proofs.Splice.Alias
import EntityQuery.Proofs.Splice.Addition
import EntityQuery.Proofs.Splice.Statement
import EntityQuery.Proofs.Splice.Settled
import EntityQuery.Proofs.Session.Text
import EntityQuery.Proofs.Splice.Augment
import EntityQuery.Proofs.Grammar.Refused
import EntityQuery.Proofs.Splice.Misread
import EntityQuery.Proofs.Splice.Widening
import EntityQuery.Proofs.Rendering.Operand
import EntityQuery.Proofs.Rendering.Condition
import EntityQuery.Proofs.Evaluation.Tuples
import EntityQuery.Proofs.Rendering.Query
import EntityQuery.Proofs.Rendering.RoundTrip
import EntityQuery.Proofs.Evaluation.Groups
import EntityQuery.Proofs.Evaluation.Count
import EntityQuery.Proofs.Executor.Impartial
import EntityQuery.Proofs.Executor.Outcome
import EntityQuery.Proofs.Executor.Pipeline
import EntityQuery.Proofs.Executor.Counting
import EntityQuery.Proofs.Executor.Lookup
import EntityQuery.Proofs.Evaluation.Faults
import EntityQuery.Proofs.Splice.Chain
import EntityQuery.Proofs.Grammar.Derivation
import EntityQuery.Proofs.Grammar.Unambiguous
import EntityQuery.Proofs.StableSort.Sort
import EntityQuery.Proofs.Evaluation.Sorted
import EntityQuery.Proofs.Evaluation.Alike
import EntityQuery.Proofs.Evaluation.Filter
import EntityQuery.Proofs.Executor.Filtered
import EntityQuery.Proofs.Session.History
import EntityQuery.Proofs.Executor.Identity
import EntityQuery.Proofs.Evaluation.Multiplicity
import EntityQuery.Proofs.Rendering.Unordered
import EntityQuery.Proofs.Executor.Unsorted
import EntityQuery.Proofs.Augmentation.Passage
import EntityQuery.Proofs.Criteria.Aliases
import EntityQuery.Proofs.Session.Scope
import EntityQuery.Proofs.Splice.Detection
import EntityQuery.Proofs.Splice.Places
import EntityQuery.Proofs.Number.Nearest
import EntityQuery.Proofs.Number.Range
import EntityQuery.Proofs.Evaluation.Comparison
import EntityQuery.Proofs.Evaluation.Arranged
import EntityQuery.Proofs.Evaluation.Pattern
import EntityQuery.Proofs.Evaluation.Matcher
import EntityQuery.Proofs.Evaluation.Grouped
import EntityQuery.Proofs.Evaluation.Joined
import EntityQuery.Proofs.Rendering.Names
import EntityQuery.Proofs.Specification.Formula
import EntityQuery.QueryText.Register
import EntityQuery.Proofs.Criteria.Generated
import EntityQuery.Proofs.Grammar.Register
import EntityQuery.Proofs.Session.Handles
import EntityQuery.Proofs.Splice.Update
import EntityQuery.Proofs.Rendering.Compared
import EntityQuery.Proofs.Log.Line
import EntityQuery.Proofs.Executor.Total
import EntityQuery.Proofs.Executor.Accounting
import EntityQuery.Proofs.Session.Bound
