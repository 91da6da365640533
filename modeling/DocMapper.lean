import DocMapper.Calendar
import DocMapper.Command
import DocMapper.Compile.Clause
import DocMapper.Compile.Fragment
import DocMapper.Compile.Inline
import DocMapper.Compile.Registry
import DocMapper.Compile.Statement
import DocMapper.Config
import DocMapper.Config.File
import DocMapper.Config.Json
import DocMapper.Ddl
import DocMapper.Ddl.Json
import DocMapper.Entries
import DocMapper.Error
import DocMapper.Fields
import DocMapper.Json
import DocMapper.Json.Codec
import DocMapper.Json.Draft
import DocMapper.Json.Escape
import DocMapper.Json.Number
import DocMapper.Json.Parse
import DocMapper.Json.Record
import DocMapper.Json.Text
import DocMapper.Message
import DocMapper.Number.Double
import DocMapper.Number.Reading
import DocMapper.Number.Shortest
import DocMapper.Number.Text
import DocMapper.Path
import DocMapper.Query.Builder
import DocMapper.Query.Condition
import DocMapper.Query.Filter
import DocMapper.Query.Keyword
import DocMapper.Query.Kind
import DocMapper.Query.Operator
import DocMapper.Query.Options
import DocMapper.Query.Root
import DocMapper.Query.Shortcut
import DocMapper.Query.Statement
import DocMapper.RecordId
import DocMapper.Schema
import DocMapper.Schema.Field
import DocMapper.Schema.FieldType
import DocMapper.Text.Ascii
import DocMapper.Text.Blank
import DocMapper.Text.Quoted
import DocMapper.Text.Replace
import DocMapper.Text.Split
import DocMapper.Text.Upper
import DocMapper.Text.UpperTable
import DocMapper.Toml.Document
import DocMapper.Toml.Scalar
import DocMapper.Toml.Table
import DocMapper.Tracking.Atomics
import DocMapper.Tracking.Delta
import DocMapper.Tracking.Document
import DocMapper.Tracking.ListView
import DocMapper.Tracking.MapView
import DocMapper.Tracking.PathState
import DocMapper.Tracking.Selection
import DocMapper.Tracking.Storage
import DocMapper.Transport
import DocMapper.Value
import DocMapper.Value.Json
import DocMapper.Value.Literal
import DocMapper.Value.Path
import DocMapper.Value.Tagged
import DocMapper.Value.TaggedText
import DocMapper.Proofs.Compile.Follows
import DocMapper.Proofs.Fields
import DocMapper.Proofs.Path
import DocMapper.Proofs.Compile.Placeholders
import DocMapper.Proofs.Compile.Parts
import DocMapper.Proofs.Compile.Conditions
import DocMapper.Proofs.Compile.Meaning
import DocMapper.Proofs.Tracking.Effects
import DocMapper.Proofs.Tracking.Replay
import DocMapper.Proofs.Tracking.Reproduced
import DocMapper.Proofs.Tracking.Reachable
import DocMapper.Proofs.Tracking.Retry
import DocMapper.Proofs.Tracking.Save
import DocMapper.Proofs.Tracking.Operations
import DocMapper.Proofs.Tracking.Validation
import DocMapper.Proofs.FieldType
import DocMapper.Proofs.Tracking.Typed
import DocMapper.Proofs.Compile.Failures
import DocMapper.Proofs.Tracking.Castable
import DocMapper.Proofs.Compile.Put
import DocMapper.Proofs.Query.Supplied
import DocMapper.Proofs.Compile.Supplied
import DocMapper.Proofs.Query.Sides
import DocMapper.Proofs.Compile.Alternatives
import DocMapper.Proofs.Compile.Literals
import DocMapper.Proofs.Compile.Writing
import DocMapper.Proofs.Compile.Fragments
import DocMapper.Proofs.Query.Made
import DocMapper.Proofs.Query.Calls
import DocMapper.Proofs.Compile.Ordered
import DocMapper.Proofs.Compile.Numbering
import DocMapper.Proofs.Digits
import DocMapper.Proofs.Contents
import DocMapper.Proofs.Literal
import DocMapper.Proofs.RecordedCall
import DocMapper.Proofs.PlainJson
import DocMapper.Proofs.Tracking.Cover
import DocMapper.Proofs.Tracking.Requests
import DocMapper.Proofs.Tracking.Alike
import DocMapper.Proofs.Tracking.Unobserved
import DocMapper.Proofs.Command
import DocMapper.Proofs.Tracking.Sessions
import DocMapper.Proofs.Tracking.Distinct
import DocMapper.Proofs.ByteOrder
import DocMapper.Proofs.Tracking.Minimal
import DocMapper.Proofs.Tracking.Assigned
import DocMapper.Proofs.Tracking.Discipline
import DocMapper.Proofs.Place
import DocMapper.Proofs.Siblings
import DocMapper.Proofs.Tracking.InPlace
import DocMapper.Proofs.Tracking.ViewsInPlace
import DocMapper.Proofs.Tracking.Failures
import DocMapper.Proofs.Tracking.Opening
import DocMapper.Proofs.Tracking.Recast
import DocMapper.Proofs.Tracking.Again
import DocMapper.Proofs.Query.Groups
import DocMapper.Proofs.Compile.Shown
import DocMapper.Proofs.Compile.Pieces
import DocMapper.Proofs.Compile.Headed
import DocMapper.Proofs.Tracking.Selected
import DocMapper.Proofs.Tracking.Operands
import DocMapper.Proofs.Compile.Filling
import DocMapper.Proofs.Query.ClauseCalls
import DocMapper.Proofs.Query.OptionCalls
import DocMapper.Proofs.Query.BuilderCalls
import DocMapper.Proofs.Query.Assembled
import DocMapper.Proofs.Compile.Misfits
import DocMapper.Proofs.Compile.Recorded
import DocMapper.Proofs.Spelling
import DocMapper.Proofs.SentTexts
import DocMapper.Proofs.Compile.Fresh
import DocMapper.Proofs.Query.NamedClauses
import DocMapper.Proofs.Compile.Addressable
import DocMapper.Proofs.Compile.Listed
import DocMapper.Proofs.Tracking.Modified
