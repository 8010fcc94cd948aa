import AisScript.Token.Lexer
import AisScript.Double
import AisScript.Ty
import AisScript.Diagnostic.Bag
import AisScript.Source.File
import AisScript.Tree.Walk
import AisScript.Tree.Dump
import AisScript.Scope
import AisScript.Parser
import AisScript.Declare
import AisScript.Typing
import AisScript.Expand
import AisScript.Substitute
import AisScript.Generate
import AisScript.Token.Listing
import AisScript.Diagnostic.Report
import AisScript.Stopwatch
import AisScript.Version
import AisScript.Build.Progress
import AisScript.Build.Output
import AisScript.Trace.Session
import AisScript.Require
import AisScript.Unit
import AisScript.Manifest
import AisScript.Build
import AisScript.Command
import AisScript.Main
import AisScript.Proofs.Pipeline
import AisScript.Proofs.Hygiene
import AisScript.Proofs.Behaviour
import AisScript.Proofs.Members
import AisScript.Proofs.Fresh
import AisScript.Proofs.Places
import AisScript.Proofs.Splicing
import AisScript.Proofs.Transparency
import AisScript.Proofs.Lexing
import AisScript.Proofs.Passages
import AisScript.Proofs.Known
import AisScript.Proofs.Ending
import AisScript.Proofs.AcceptingStmt
import AisScript.Proofs.Tiling
import AisScript.Proofs.Undefined
import AisScript.Proofs.Strings
import AisScript.Proofs.Storage
import AisScript.Proofs.Inlining
import AisScript.Proofs.WellScoped
import AisScript.Proofs.Spelling
import AisScript.Proofs.Inclusion
import AisScript.Proofs.Verdict
import AisScript.Proofs.Resolvable
import AisScript.Proofs.Cleaning
import AisScript.Proofs.Outputs
import AisScript.Proofs.Progress
import AisScript.Proofs.Placeless
import AisScript.Proofs.Rendering
import AisScript.Proofs.TempUse
import AisScript.Proofs.Prepending
import AisScript.Proofs.Temporaries
import AisScript.Proofs.Lookahead
import AisScript.Proofs.Folding
import AisScript.Proofs.Frames
import AisScript.Proofs.Retyping
import AisScript.Proofs.Independence
import AisScript.Proofs.Counting
import AisScript.Proofs.Readings
import AisScript.Proofs.Recovery
import AisScript.Proofs.BitRanges
import AisScript.Proofs.Repeats
import AisScript.Proofs.Positions
import AisScript.Proofs.LineEnds
import AisScript.Proofs.Quoting
import AisScript.Proofs.Newest
import AisScript.Proofs.Unambiguous
