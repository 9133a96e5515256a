import ClassGraft.Attribute.Annotations
import ClassGraft.Attribute.Basic
import ClassGraft.Attribute.Code
import ClassGraft.Attribute.StackMap
import ClassGraft.Attribute.Structure
import ClassGraft.Body.Assemble
import ClassGraft.Body.Basic
import ClassGraft.Body.Decode
import ClassGraft.Body.Simulate
import ClassGraft.Bytes.Reader
import ClassGraft.Bytes.Writer
import ClassGraft.ClassFile.Basic
import ClassGraft.ConstantPool.Basic
import ClassGraft.ConstantPool.Constant
import ClassGraft.Descriptor.Basic
import ClassGraft.Descriptor.Parser
import ClassGraft.Descriptor.Source
import ClassGraft.Fault
import ClassGraft.Flags
import ClassGraft.Frame.Basic
import ClassGraft.Frame.StackMap
import ClassGraft.Frame.Step
import ClassGraft.Frame.VerificationType
import ClassGraft.Hook.Contract
import ClassGraft.Hook.Declaration
import ClassGraft.Hook.Fault
import ClassGraft.Hook.Reading
import ClassGraft.Hook.Settings
import ClassGraft.Instruction.Basic
import ClassGraft.Instruction.Codec
import ClassGraft.Instruction.Opcode
import ClassGraft.Instruction.Render
import ClassGraft.Locate.BodyStore
import ClassGraft.Locate.LoadedBody
import ClassGraft.Locate.Search
import ClassGraft.Locate.Sweep
import ClassGraft.Main
import ClassGraft.Model.AnnotationValue
import ClassGraft.Model.Catalogue
import ClassGraft.Model.Class
import ClassGraft.Model.Element
import ClassGraft.Model.Field
import ClassGraft.Model.Method
import ClassGraft.Model.Scan
import ClassGraft.Name
import ClassGraft.Number.FloatFormat
import ClassGraft.Number.Numeral
import ClassGraft.OffsetSequence
import ClassGraft.Query.Basic
import ClassGraft.Query.Match
import ClassGraft.Query.Pattern
import ClassGraft.SortedMap
import ClassGraft.Splice.Anchor
import ClassGraft.Splice.Arguments
import ClassGraft.Splice.Basic
import ClassGraft.Splice.Block
import ClassGraft.Splice.Callback
import ClassGraft.Splice.ClassEdit
import ClassGraft.Splice.Construction
import ClassGraft.Splice.Line
import ClassGraft.Splice.Redirect
import ClassGraft.Splice.Session
import ClassGraft.Splice.SharedEdit
import ClassGraft.Text.Blank
import ClassGraft.Text.Graphic
import ClassGraft.Text.ModifiedUtf8
import ClassGraft.Text.Quoted
import ClassGraft.Proofs.Bytes.Codec
import ClassGraft.Proofs.OffsetSequence.Contiguous
import ClassGraft.Proofs.OffsetSequence.Lookup
import ClassGraft.Proofs.OffsetSequence.Editing
import ClassGraft.Proofs.OffsetSequence.Inside
import ClassGraft.Proofs.ConstantPool.Growth
import ClassGraft.Proofs.Text.ModifiedUtf8
import ClassGraft.Proofs.ConstantPool.RoundTrip
import ClassGraft.Proofs.ClassFile.RoundTrip
import ClassGraft.Proofs.SortedMap
import ClassGraft.Proofs.Descriptor.RoundTrip
import ClassGraft.Proofs.Instruction.Operands
import ClassGraft.Proofs.Attribute.RoundTrip
import ClassGraft.Proofs.Frame.Difference
import ClassGraft.Proofs.Instruction.Reading
import ClassGraft.Proofs.Instruction.RoundTrip
import ClassGraft.Proofs.Instruction.Resolving
import ClassGraft.Proofs.Instruction.Extent
import ClassGraft.Proofs.Instruction.Reckoning
import ClassGraft.Proofs.Body.Labelling
import ClassGraft.Proofs.Body.Offsets
import ClassGraft.Proofs.Body.Decoding
import ClassGraft.Proofs.Body.Groups
import ClassGraft.Proofs.Body.Canonical
import ClassGraft.Proofs.Body.Assembling
import ClassGraft.Proofs.Body.ReadingBack
import ClassGraft.Proofs.Body.Renaming
import ClassGraft.Proofs.Body.RoundTrip
import ClassGraft.Proofs.Frame.Stepping
import ClassGraft.Proofs.Frame.Widths
import ClassGraft.Proofs.Frame.Locals
import ClassGraft.Proofs.Frame.Overwriting
import ClassGraft.Proofs.Frame.StackWords
import ClassGraft.Proofs.Frame.LargerPools
import ClassGraft.Proofs.Frame.Effects
import ClassGraft.Proofs.Frame.Below
import ClassGraft.Proofs.Model.Parameters
import ClassGraft.Proofs.Model.LargerPools
import ClassGraft.Proofs.Frame.Entry
import ClassGraft.Proofs.Body.Following
import ClassGraft.Proofs.Body.Sites
import ClassGraft.Proofs.Splice.Emitting
import ClassGraft.Proofs.Splice.Edits
import ClassGraft.Proofs.Splice.Places
import ClassGraft.Proofs.Body.Simulating
import ClassGraft.Proofs.Body.Linking
import ClassGraft.Proofs.Body.Redecoding
import ClassGraft.Proofs.Body.Shrinking
import ClassGraft.Proofs.Body.Restarting
import ClassGraft.Proofs.Body.Boundaries
import ClassGraft.Proofs.Body.Spans
import ClassGraft.Proofs.Splice.Trails
import ClassGraft.Proofs.Splice.Marking
import ClassGraft.Proofs.Splice.Sites
import ClassGraft.Proofs.Splice.SitedRuns
import ClassGraft.Proofs.Locate.Matches
import ClassGraft.Proofs.Locate.Listing
import ClassGraft.Proofs.Locate.Matching
import ClassGraft.Proofs.Locate.Visiting
import ClassGraft.Proofs.Locate.Lines
import ClassGraft.Proofs.Locate.LineEntries
import ClassGraft.Proofs.Locate.Ordinals
import ClassGraft.Proofs.Locate.Revisiting
import ClassGraft.Proofs.Locate.NamedVariables
import ClassGraft.Proofs.Bytes.Respelling
import ClassGraft.Proofs.Bytes.Delimiting
import ClassGraft.Proofs.Bytes.Exactness
import ClassGraft.Proofs.Text.Overlong
import ClassGraft.Proofs.Text.Spelling
import ClassGraft.Proofs.ClassFile.Spelling
import ClassGraft.Proofs.ClassFile.Delimiting
import ClassGraft.Proofs.Splice.Tracking
import ClassGraft.Proofs.Splice.Anchoring
import ClassGraft.Proofs.Splice.Aiming
import ClassGraft.Proofs.Splice.ClassRuns
import ClassGraft.Proofs.Splice.LeavingAlone
import ClassGraft.Proofs.Splice.Transforming
import ClassGraft.Proofs.Splice.Weaving
import ClassGraft.Proofs.Splice.Heads
import ClassGraft.Proofs.Machine.Basic
import ClassGraft.Proofs.Machine.Hooks
import ClassGraft.Proofs.Machine.Walks
import ClassGraft.Proofs.Hook.Coherence
import ClassGraft.Proofs.Splice.Passing
import ClassGraft.Proofs.Splice.CallFrames
import ClassGraft.Proofs.Splice.LineRuns
import ClassGraft.Proofs.Splice.Linking
import ClassGraft.Proofs.Splice.Legible
import ClassGraft.Proofs.Splice.RedirectRuns
import ClassGraft.Proofs.Splice.CallbackRuns
import ClassGraft.Proofs.Splice.BlockFrames
import ClassGraft.Proofs.Splice.Outcomes
import ClassGraft.Proofs.Splice.Mapping
import ClassGraft.Proofs.Splice.Landings
import ClassGraft.Proofs.Splice.EarlyReturns
import ClassGraft.Proofs.Splice.Joins
import ClassGraft.Proofs.Splice.Touching
import ClassGraft.Proofs.Splice.FramesBehind
import ClassGraft.Proofs.Splice.Maxima
import ClassGraft.Proofs.Splice.Shedding
import ClassGraft.Proofs.Splice.ConstructionFrames
import ClassGraft.Proofs.ConstantPool.Requests
import ClassGraft.Proofs.ConstantPool.Rereading
import ClassGraft.Proofs.Frame.StackMaps
import ClassGraft.Proofs.Splice.SharedStore
import ClassGraft.Proofs.Splice.Sharing
import ClassGraft.Proofs.Descriptor.Spelling
import ClassGraft.Proofs.Descriptor.Inverse
import ClassGraft.Proofs.Descriptor.Conversions
import ClassGraft.Proofs.Attribute.Annotations
import ClassGraft.Proofs.Name.Selecting
import ClassGraft.Proofs.Query.ConstructedTypes
import ClassGraft.Proofs.Model.Scanning
import ClassGraft.Proofs.Hook.Steadiness
import ClassGraft.Proofs.Splice.Writing
import ClassGraft.Proofs.Splice.OwnBodies
import ClassGraft.Proofs.Splice.LaidOut
import ClassGraft.Proofs.Splice.UnreadVariables
import ClassGraft.Proofs.Session.Steps
import ClassGraft.Proofs.Session.Repeating
import ClassGraft.Proofs.Session.Registering
import ClassGraft.Proofs.Session.Variables
import ClassGraft.Proofs.Session.Rescanning
