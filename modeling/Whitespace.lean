import Whitespace.Assembly.Assembler
import Whitespace.Assembly.Cursor
import Whitespace.Assembly.Draft
import Whitespace.Assembly.Labels
import Whitespace.Assembly.Literal
import Whitespace.Assembly.Parser
import Whitespace.Assembly.Statement
import Whitespace.Assembly.Token
import Whitespace.Bits
import Whitespace.Blank
import Whitespace.Command.Assemble
import Whitespace.Command.Directory
import Whitespace.Command.Disassemble
import Whitespace.Command.Interpret
import Whitespace.Command.Options
import Whitespace.Command.Path
import Whitespace.Command.Report
import Whitespace.Config.Binary64
import Whitespace.Config.Document
import Whitespace.Config.Moment
import Whitespace.Config.Parser
import Whitespace.Config.Value
import Whitespace.Decimal
import Whitespace.Decoder
import Whitespace.Decoder.Registers
import Whitespace.Decoder.Stage
import Whitespace.Encoder
import Whitespace.Instruction
import Whitespace.Label
import Whitespace.Listing
import Whitespace.Log
import Whitespace.Machine.Action
import Whitespace.Machine.Fault
import Whitespace.Machine.Item
import Whitespace.Machine.Run
import Whitespace.Machine.State
import Whitespace.Machine.Step
import Whitespace.Main
import Whitespace.Opcode
import Whitespace.Program
import Whitespace.Settings
import Whitespace.Settings.Call
import Whitespace.Settings.Load
import Whitespace.Table
import Whitespace.Text.Lines
import Whitespace.Text.Literal
import Whitespace.Text.Printable
import Whitespace.Text.Quoted
import Whitespace.Text.Space
import Whitespace.Text.Utf8
import Whitespace.Proofs.Assembly.Allocation
import Whitespace.Proofs.Assembly.Draft
import Whitespace.Proofs.Assembly.Items
import Whitespace.Proofs.Assembly.Layout
import Whitespace.Proofs.Assembly.Resolution
import Whitespace.Proofs.Assembly.Tokens
import Whitespace.Proofs.Bytes
import Whitespace.Proofs.Decoder.Feeding
import Whitespace.Proofs.Decoder.Grammar
import Whitespace.Proofs.Decoder.Reading
import Whitespace.Proofs.Decoder.RoundTrip
import Whitespace.Proofs.Decoder.Soundness
import Whitespace.Proofs.Listing
import Whitespace.Proofs.Numeral
import Whitespace.Proofs.Program
import Whitespace.Proofs.Assembly.Unread
import Whitespace.Proofs.Decoder.NormalForm
import Whitespace.Proofs.Assembly.Meaning
import Whitespace.Proofs.Machine.Flow
import Whitespace.Proofs.Machine.Safety
import Whitespace.Proofs.Decoder.Pieces
import Whitespace.Proofs.Decoder.Session
import Whitespace.Proofs.Decoder.Registers
import Whitespace.Proofs.Machine.Targets
import Whitespace.Proofs.Assembly.Running
import Whitespace.Proofs.Machine.Nesting
import Whitespace.Proofs.Machine.Walk
import Whitespace.Proofs.Machine.Tracing
import Whitespace.Proofs.Machine.Extension
import Whitespace.Proofs.Machine.Input
import Whitespace.Proofs.Machine.Failure
import Whitespace.Proofs.Assembly.Tagging
import Whitespace.Proofs.Machine.Renaming
import Whitespace.Proofs.Machine.Memory
import Whitespace.Proofs.Machine.Default
import Whitespace.Proofs.Command.Options
import Whitespace.Proofs.Machine.Surroundings
import Whitespace.Proofs.Command.Verdict
import Whitespace.Proofs.Machine.Unexecuted
import Whitespace.Proofs.Decoder.Account
import Whitespace.Proofs.Canonical
import Whitespace.Proofs.Decoder.Earliest
import Whitespace.Proofs.Decoder.Concatenation
import Whitespace.Proofs.Assembly.FirstPass
import Whitespace.Proofs.Assembly.Literal
import Whitespace.Proofs.Assembly.LabelLines
import Whitespace.Proofs.Machine.NumberLine
import Whitespace.Proofs.Machine.Playback
import Whitespace.Proofs.Assembly.Numbering
import Whitespace.Proofs.Machine.LastWrite
import Whitespace.Proofs.Machine.Sliding
import Whitespace.Proofs.Decoder.LabelCoding
import Whitespace.Proofs.Marks
import Whitespace.Proofs.Config.Keys
import Whitespace.Proofs.Settings.Sections
import Whitespace.Proofs.Settings.LastWord
import Whitespace.Proofs.Command.Directory
import Whitespace.Proofs.Command.Output
