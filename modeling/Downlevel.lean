import Downlevel.Json.Printer
import Downlevel.Json.Reader
import Downlevel.Json.Record
import Downlevel.Digest
import Downlevel.Text.CharClass
import Downlevel.Pattern.Basic
import Downlevel.Edition
import Downlevel.Module.Id
import Downlevel.Module.Registry
import Downlevel.Request
import Downlevel.Event.Collector
import Downlevel.Event.TextScan
import Downlevel.Feature.Basic
import Downlevel.Framework
import Downlevel.Detection
import Downlevel.Code.Degradation
import Downlevel.Configuration.Resolution
import Downlevel.Configuration.Validation
import Downlevel.Failure.Diagnosis
import Downlevel.Cache.Basic
import Downlevel.Chunk.Basic
import Downlevel.Memory
import Downlevel.Toml.Reader
import Downlevel.Project
import Downlevel.Compiler
import Downlevel.Session.Transform
import Downlevel.Proofs.Decimal.Shortest
import Downlevel.Proofs.Decimal.Notation
import Downlevel.Proofs.Json.Print
import Downlevel.Proofs.Json.Canonical
import Downlevel.Proofs.Configuration.CanonicalText
import Downlevel.Proofs.Configuration.Merge
import Downlevel.Proofs.Configuration.Resolution
import Downlevel.Proofs.Configuration.Idempotence
import Downlevel.Proofs.Configuration.Validity
import Downlevel.Proofs.Configuration.Derived
import Downlevel.Proofs.Cache.Key
import Downlevel.Proofs.Cache.Invariant
import Downlevel.Proofs.Cache.Contents
import Downlevel.Proofs.Cache.History
import Downlevel.Proofs.Cache.Recall
import Downlevel.Proofs.Cache.Recency
import Downlevel.Proofs.Cache.Eviction
import Downlevel.Proofs.Session.Calls
import Downlevel.Proofs.Session.Steps
import Downlevel.Proofs.Session.Transparency
import Downlevel.Proofs.Chunk.Compile
import Downlevel.Proofs.Chunk.Interleaving
import Downlevel.Proofs.Chunk.Integrity
import Downlevel.Proofs.Session.ChunkedCalls
import Downlevel.Proofs.Session.Provenance
import Downlevel.Proofs.Session.Answers
import Downlevel.Proofs.Session.CachedMetadata
import Downlevel.Proofs.Session.Warnings
import Downlevel.Proofs.Session.Transcripts
import Downlevel.Proofs.Session.UnservedCalls
import Downlevel.Proofs.Session.Tally
import Downlevel.Proofs.Cache.Renumbered
import Downlevel.Proofs.Session.FreshStart
import Downlevel.Proofs.Failure.Remedy
import Downlevel.Proofs.Json.ReadBack
import Downlevel.Proofs.Project.Reload
import Downlevel.Proofs.Pattern.Spelling
import Downlevel.Proofs.Pattern.Greedy
import Downlevel.Proofs.Code.InCode
import Downlevel.Proofs.Code.Carrying
import Downlevel.Proofs.Code.Chain
import Downlevel.Proofs.Code.Coalescing
import Downlevel.Proofs.Code.Passes
import Downlevel.Proofs.Code.LiteralsKept
import Downlevel.Proofs.Text.CharClass
import Downlevel.Proofs.Code.Modes
import Downlevel.Proofs.Code.Constructs
import Downlevel.Proofs.Pattern.Search
import Downlevel.Proofs.Code.Patched
import Downlevel.Proofs.Code.GuardModes
import Downlevel.Proofs.Code.Leftovers
import Downlevel.Proofs.Code.PlainDeclarations
import Downlevel.Proofs.Code.CheckedDefaults
import Downlevel.Proofs.Code.ArrowPieces
import Downlevel.Proofs.Code.FunctionExpressions
import Downlevel.Proofs.Code.CleanRecovery
import Downlevel.Proofs.Compiler.Target
import Downlevel.Proofs.Project.WrittenModules
import Downlevel.Proofs.Json.Parse
import Downlevel.Proofs.Json.Wire
import Downlevel.Proofs.Session.Wire
import Downlevel.Proofs.Code.Tokens
import Downlevel.Proofs.Code.Precedence
import Downlevel.Proofs.Code.GuardChain
import Downlevel.Proofs.Pattern.NameEnds
import Downlevel.Proofs.Code.Reading
import Downlevel.Proofs.Code.WholeChains
import Downlevel.Proofs.Code.ArrowPlaces
import Downlevel.Proofs.Code.WholeParameters
import Downlevel.Proofs.Code.ExpressionEnds
import Downlevel.Proofs.Code.ArrowLiterals
import Downlevel.Proofs.Failure.FollowedAdvice
import Downlevel.Proofs.Code.ArrowEdits
import Downlevel.Proofs.Code.DeclaringKeywords
import Downlevel.Proofs.Code.CheckMeaning
import Downlevel.Proofs.Code.SimpleOperands
import Downlevel.Proofs.Code.ChainedDefaults
import Downlevel.Proofs.Text.Lines
import Downlevel.Proofs.StableSort
import Downlevel.Proofs.Configuration.Findings
import Downlevel.Proofs.Configuration.OlderTargets
import Downlevel.Proofs.Failure.RankedAdvice
import Downlevel.Proofs.Chunk.Partition
import Downlevel.Proofs.Chunk.Locality
import Downlevel.Proofs.Cache.Cleanup
import Downlevel.Proofs.FirstSightings
import Downlevel.Proofs.Feature.Reduction
import Downlevel.Proofs.Framework.Scores
import Downlevel.Proofs.Event.TreeEvents
import Downlevel.Proofs.Failure.MergedAdvice
import Downlevel.Proofs.Feature.Dependencies
import Downlevel.Proofs.Text.Boundaries
import Downlevel.Proofs.Text.Encoding
import Downlevel.Proofs.Code.ExpressionReading
import Downlevel.Proofs.Code.LiteralBytes
import Downlevel.Proofs.Code.CheckedCuts
import Downlevel.Proofs.Code.CheckedRules
import Downlevel.Proofs.Code.SafeDegradation
