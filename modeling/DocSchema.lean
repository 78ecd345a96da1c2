import DocSchema.Table
import DocSchema.Decimal.Shortest
import DocSchema.Decimal.Reading
import DocSchema.Text.Blank
import DocSchema.Text.Case
import DocSchema.Text.Quoted
import DocSchema.Json.Basic
import DocSchema.Json.Printer
import DocSchema.Json.Parser
import DocSchema.Json.Sorted
import DocSchema.Json.Inspect
import DocSchema.Path.Segments
import DocSchema.Path.Position
import DocSchema.Path.Reserved
import DocSchema.Error
import DocSchema.TypeName
import DocSchema.Index.Direction
import DocSchema.Index.Duration
import DocSchema.Index.Entry
import DocSchema.Json.Loading
import DocSchema.Options.Basic
import DocSchema.Options.Codec
import DocSchema.Options.Access
import DocSchema.Collection.Plural
import DocSchema.Collection.Naming
import DocSchema.Settings
import DocSchema.Virtual
import DocSchema.Document.Basic
import DocSchema.Document.Hook
import DocSchema.Tree
import DocSchema.Schema.Basic
import DocSchema.Schema.Rendering
import DocSchema.Schema.Record
import DocSchema.Schema.Entries
import DocSchema.Schema.Registration
import DocSchema.Schema.Compile
import DocSchema.Schema.Lookup
import DocSchema.Schema.Indexes
import DocSchema.Digest.Sha256
import DocSchema.Schema.Fingerprint
import DocSchema.Document.Memory
import DocSchema.Document.Script
import DocSchema.Document.Replay
import DocSchema.Schema.Call
import DocSchema.Trace.Event
import DocSchema.Trace.Calls
import DocSchema.Registry.Plugin
import DocSchema.Registry.Error
import DocSchema.Registry.Basic
import DocSchema.Trace.Models
import DocSchema.PublicError
import DocSchema.Proofs.Outcomes
import DocSchema.Proofs.Path.Below
import DocSchema.Proofs.Table.Keys
import DocSchema.Proofs.Tree.Frame
import DocSchema.Proofs.Schema.SubSchemas
import DocSchema.Proofs.Schema.Reachable
import DocSchema.Proofs.Schema.Names
import DocSchema.Proofs.Path.Positions
import DocSchema.Proofs.Schema.Groups
import DocSchema.Proofs.Schema.IndexWalk
import DocSchema.Proofs.Schema.Asking
import DocSchema.Proofs.Schema.Embedded
import DocSchema.Proofs.Schema.Lookups
import DocSchema.Proofs.Schema.Outline
import DocSchema.Proofs.Schema.Adding
import DocSchema.Proofs.Schema.Descent
import DocSchema.Proofs.Schema.Declaring
import DocSchema.Proofs.Schema.TypeNames
import DocSchema.Proofs.Schema.Shown
import DocSchema.Proofs.Table.Order
import DocSchema.Proofs.Json.KeyOrder
import DocSchema.Proofs.Decimal.Texts
import DocSchema.Proofs.Decimal.Rounding
import DocSchema.Proofs.Json.Printing
import DocSchema.Proofs.Tree.Alike
import DocSchema.Proofs.Schema.Places
import DocSchema.Proofs.Schema.Mirror
import DocSchema.Proofs.Schema.Compatible
import DocSchema.Proofs.Schema.Forms
import DocSchema.Proofs.Schema.TreeForms
import DocSchema.Proofs.Schema.Shapes
import DocSchema.Proofs.Schema.Twin
import DocSchema.Proofs.Schema.Reordering
import DocSchema.Proofs.Schema.Agreement
import DocSchema.Proofs.Schema.Fingerprints
import DocSchema.Proofs.Registry.Overwriting
import DocSchema.Proofs.Schema.Elements
import DocSchema.Proofs.Schema.Redeclared
import DocSchema.Proofs.Schema.FieldIndexes
import DocSchema.Proofs.Schema.History
import DocSchema.Proofs.Schema.OpenGroups
import DocSchema.Proofs.Schema.Rebinding
import DocSchema.Proofs.Schema.Caches
import DocSchema.Proofs.Registry.Sessions
import DocSchema.Proofs.Options.Written
import DocSchema.Proofs.Registry.FirstRegistration
import DocSchema.Proofs.Schema.Automatic
import DocSchema.Proofs.Json.Renaming
import DocSchema.Proofs.Tree.Mapping
import DocSchema.Proofs.Schema.Spelling
import DocSchema.Proofs.Schema.Rekeying
import DocSchema.Proofs.Schema.Respelling
import DocSchema.Proofs.Schema.TypeKey
import DocSchema.Proofs.Schema.HookQueues
import DocSchema.Proofs.Options.Laws
import DocSchema.Proofs.Tree.Swapping
import DocSchema.Proofs.Schema.Rearranged
import DocSchema.Proofs.Schema.Commuting
import DocSchema.Proofs.Schema.Outside
import DocSchema.Proofs.Schema.Ancestors
import DocSchema.Proofs.Schema.Degenerate
import DocSchema.Proofs.Schema.Elsewhere
import DocSchema.Proofs.Schema.Founded
import DocSchema.Proofs.Schema.Refusals
import DocSchema.Proofs.Schema.AnyPosition
import DocSchema.Proofs.Schema.FieldSettings
import DocSchema.Proofs.Collection.Endings
import DocSchema.Proofs.Document.Stamps
import DocSchema.Proofs.Schema.InlineSchemas
import DocSchema.Proofs.Schema.Virtuals
import DocSchema.Proofs.Index.Durations
import DocSchema.Proofs.Tree.InPlace
