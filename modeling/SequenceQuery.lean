import SequenceQuery.Config.Basic
import SequenceQuery.Config.Connect
import SequenceQuery.Expr.Supply
import SequenceQuery.Toml.Json
import SequenceQuery.Wire.Exchange
import SequenceQuery.Proofs.Quoted
import SequenceQuery.Proofs.Skeleton
import SequenceQuery.Proofs.OriginErasure
import SequenceQuery.Proofs.Fingerprint
import SequenceQuery.Proofs.Related
import SequenceQuery.Proofs.Layout
import SequenceQuery.Proofs.Alike
import SequenceQuery.Proofs.Simulation
import SequenceQuery.Proofs.Forms
import SequenceQuery.Proofs.History
import SequenceQuery.Proofs.Transparency
import SequenceQuery.Proofs.Evaluation
import SequenceQuery.Proofs.Elements
import SequenceQuery.Proofs.Bodies
import SequenceQuery.Proofs.Paging
import SequenceQuery.Proofs.Reading
import SequenceQuery.Proofs.Operators
import SequenceQuery.Proofs.Pipelines
import SequenceQuery.Proofs.Answers
import SequenceQuery.Proofs.Scoping
import SequenceQuery.Proofs.Building
import SequenceQuery.Proofs.Fitting
import SequenceQuery.Proofs.Clauses
import SequenceQuery.Proofs.Fitted
import SequenceQuery.Proofs.Meanings
import SequenceQuery.Proofs.StatementPieces
import SequenceQuery.Proofs.Supplied
import SequenceQuery.Proofs.Phrases
import SequenceQuery.Proofs.PhraseRules
import SequenceQuery.Proofs.Grouping
import SequenceQuery.Proofs.Lexemes
import SequenceQuery.Proofs.Separation
import SequenceQuery.Proofs.Scanned
import SequenceQuery.Proofs.Candidates
import SequenceQuery.Proofs.Verdicts
import SequenceQuery.Proofs.Existence
import SequenceQuery.Proofs.Derived
import SequenceQuery.Proofs.Frames
import SequenceQuery.Proofs.PagingRuns
import SequenceQuery.Proofs.LeftJoins
import SequenceQuery.Proofs.Searches
import SequenceQuery.Proofs.Standards
import SequenceQuery.Proofs.Construction
import SequenceQuery.Proofs.Preserved
import SequenceQuery.Proofs.RowConstruction
import SequenceQuery.Proofs.FormConstruction
import SequenceQuery.Proofs.DistinctOrder
import SequenceQuery.Proofs.GroupedSelects
import SequenceQuery.Proofs.AggregatePlaces
import SequenceQuery.Proofs.ResultOrder
import SequenceQuery.Proofs.NestedStatements
import SequenceQuery.Proofs.NestedPlaces
import SequenceQuery.Proofs.NestedParts
import SequenceQuery.Proofs.NestedOrder
import SequenceQuery.Proofs.Detectors
import SequenceQuery.Proofs.DetectionDrafts
import SequenceQuery.Proofs.DetectedForms
import SequenceQuery.Proofs.SegmentRequests
import SequenceQuery.Proofs.SegmentUse
import SequenceQuery.Proofs.SegmentCalls
import SequenceQuery.Proofs.SegmentForms
import SequenceQuery.Proofs.Signatures
import SequenceQuery.Proofs.Partitions
import SequenceQuery.Proofs.GroupBodies
import SequenceQuery.Proofs.GroupAggregates
import SequenceQuery.Proofs.GroupedRows
import SequenceQuery.Proofs.GroupAnswers
import SequenceQuery.Proofs.Ledger
import SequenceQuery.Proofs.Streams
import SequenceQuery.Proofs.TestColumns
import SequenceQuery.Proofs.Capabilities
import SequenceQuery.Proofs.Doubts
import SequenceQuery.Proofs.KnownRows
import SequenceQuery.Proofs.KnownMeanings
import SequenceQuery.Proofs.KnownAnswers
import SequenceQuery.Proofs.Certain
import SequenceQuery.Proofs.Markers
import SequenceQuery.Proofs.Writer
import SequenceQuery.Proofs.Numbering
import SequenceQuery.Proofs.Gathering
import SequenceQuery.Proofs.Failures
import SequenceQuery.Proofs.ReportedFailures
import SequenceQuery.Proofs.Slots
import SequenceQuery.Proofs.ConnectionText
import SequenceQuery.Proofs.TomlText
import SequenceQuery.Proofs.TomlDocuments
import SequenceQuery.Proofs.TomlRanges
import SequenceQuery.Proofs.Configurations
import SequenceQuery.Proofs.ColumnNames
import SequenceQuery.Proofs.Anywhere
import SequenceQuery.Proofs.Discipline
import SequenceQuery.Proofs.DisciplinedForms
import SequenceQuery.Proofs.References
import SequenceQuery.Proofs.FoldedNames
import SequenceQuery.Proofs.ReadBack
import SequenceQuery.Proofs.Climbing
import SequenceQuery.Proofs.Chains
