import TreeWalk.Calculator
import TreeWalk.Census
import TreeWalk.Checker
import TreeWalk.CommandLine
import TreeWalk.Excerpt
import TreeWalk.Folder
import TreeWalk.LineIndex
import TreeWalk.Main
import TreeWalk.Printer
import TreeWalk.Project
import TreeWalk.Query
import TreeWalk.Settings
import TreeWalk.Slot
import TreeWalk.Tree.Encode
import TreeWalk.Tree.Load
import TreeWalk.Tree.Same
import TreeWalk.Walk
import TreeWalk.Walker
import TreeWalk.Proofs.Balance
import TreeWalk.Proofs.Tree.Nodes
import TreeWalk.Proofs.Traversal.Preorder
import TreeWalk.Proofs.Traversal.Journey
import TreeWalk.Proofs.Source.Spelling
import TreeWalk.Proofs.Source.Scanner
import TreeWalk.Proofs.Source.Tokens
import TreeWalk.Proofs.Source.Reader
import TreeWalk.Proofs.Source.Unambiguous
import TreeWalk.Proofs.Folding.Constant
import TreeWalk.Proofs.Folding.Reference
import TreeWalk.Proofs.Folding.Agreement
import TreeWalk.Proofs.Folding.Skeleton
import TreeWalk.Proofs.Scoping.Effect
import TreeWalk.Proofs.Scoping.Places
import TreeWalk.Proofs.Scoping.Resolution
import TreeWalk.Proofs.Counting.Effect
import TreeWalk.Proofs.Counting.Agreement
import TreeWalk.Proofs.Counting.Measures
import TreeWalk.Proofs.Relining.Trees
import TreeWalk.Proofs.Relining.Faults
import TreeWalk.Proofs.Relining.Passes
import TreeWalk.Proofs.Layout.Lines
import TreeWalk.Proofs.Folding.Listing
import TreeWalk.Proofs.Passes
import TreeWalk.Proofs.Scoping.Statements
import TreeWalk.Proofs.Scoping.Rules
import TreeWalk.Proofs.Layout.Clauses
import TreeWalk.Proofs.Layout.Squeeze
import TreeWalk.Proofs.Layout.Splitting
import TreeWalk.Proofs.Layout.Recovery
import TreeWalk.Proofs.Json.Lexemes
import TreeWalk.Proofs.Json.Spelling
import TreeWalk.Proofs.Json.Limits
import TreeWalk.Proofs.Json.Reading
import TreeWalk.Proofs.Json.Nesting
import TreeWalk.Proofs.Json.RoundTrip
import TreeWalk.Proofs.Tree.Records
import TreeWalk.Proofs.Tree.Form
import TreeWalk.Proofs.Tree.Codec
import TreeWalk.Proofs.Tree.Loading
import TreeWalk.Proofs.Tree.Texts
import TreeWalk.Proofs.Tree.RoundTrip
import TreeWalk.Proofs.Tree.Decoding
import TreeWalk.Proofs.Tree.Resaving
import TreeWalk.Proofs.Isolation
import TreeWalk.Proofs.Layout.Breaks
import TreeWalk.Proofs.Layout.Concatenation
import TreeWalk.Proofs.Layout.Parts
import TreeWalk.Proofs.Scoping.Depths
import TreeWalk.Proofs.Scoping.Segments
import TreeWalk.Proofs.Scoping.Comparison
import TreeWalk.Proofs.Scoping.Reordering
import TreeWalk.Proofs.Scoping.ParameterLimit
import TreeWalk.Proofs.Traversal.Recording
import TreeWalk.Proofs.Scoping.Histories
import TreeWalk.Proofs.LineRanges
import TreeWalk.Proofs.Scoping.ReportOrder
import TreeWalk.Proofs.Source.Quotations
import TreeWalk.Proofs.Files.Runs
