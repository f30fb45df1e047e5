import RecordForge.Main
import RecordForge.Recipe.Bench
import RecordForge.Proofs.Resolution
import RecordForge.Proofs.Conformity
import RecordForge.Proofs.Floats
import RecordForge.Proofs.Encoding
import RecordForge.Proofs.Blocks
import RecordForge.Proofs.Scripts
import RecordForge.Proofs.Doubles
import RecordForge.Proofs.Singles
import RecordForge.Proofs.Readers
import RecordForge.Proofs.Decoding
import RecordForge.Proofs.Production
import RecordForge.Proofs.Plans
import RecordForge.Proofs.Lossless
import RecordForge.Proofs.Interview
import RecordForge.Proofs.Commands
import RecordForge.Proofs.Calls
import RecordForge.Proofs.Products
import RecordForge.Proofs.Interruption
import RecordForge.Proofs.Histories
import RecordForge.Proofs.Descriptors
import RecordForge.Proofs.Untouched
import RecordForge.Proofs.Routes
import RecordForge.Proofs.Choices
import RecordForge.Proofs.Sharing
import RecordForge.Proofs.Columns
import RecordForge.Proofs.Inlining
import RecordForge.Proofs.Wrappings
import RecordForge.Proofs.Spans
import RecordForge.Proofs.Numerals
import RecordForge.Proofs.Clauses
import RecordForge.Proofs.Operands
import RecordForge.Proofs.Wordings
import RecordForge.Proofs.Patterns
import RecordForge.Proofs.Matches
import RecordForge.Proofs.Misreadings
import RecordForge.Proofs.Entries
import RecordForge.Proofs.Replays
import RecordForge.Proofs.Recordings
import RecordForge.Proofs.Nulls
import RecordForge.Proofs.Machine
import RecordForge.Proofs.Counters
import RecordForge.Proofs.Buckets
import RecordForge.Proofs.Texts
import RecordForge.Proofs.Sets
import RecordForge.Proofs.Spellings
import RecordForge.Proofs.Respellings
import RecordForge.Proofs.Endings
import RecordForge.Proofs.Intervals
import RecordForge.Proofs.Names
import RecordForge.Proofs.Sheets
import RecordForge.Proofs.Fillings
import RecordForge.Proofs.Builders
import RecordForge.Proofs.Rotations
import RecordForge.Proofs.Stamps
