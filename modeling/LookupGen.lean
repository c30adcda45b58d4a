import LookupGen.Command
import LookupGen.CommandLine
import LookupGen.Config
import LookupGen.Config.Load
import LookupGen.Constant
import LookupGen.Diagnostic
import LookupGen.Disk
import LookupGen.Disk.Changes
import LookupGen.Disk.Path
import LookupGen.Element
import LookupGen.ErrorLog
import LookupGen.Generation
import LookupGen.Glob
import LookupGen.IgnoreRule
import LookupGen.Java.Glyph
import LookupGen.Java.Grammar
import LookupGen.Java.Grammar.Declarations
import LookupGen.Java.Grammar.Expressions
import LookupGen.Java.Grammar.Parser
import LookupGen.Java.Grammar.Rules
import LookupGen.Java.Grammar.Statements
import LookupGen.Java.Grammar.Types
import LookupGen.Java.Token
import LookupGen.Java.Tree
import LookupGen.Journal
import LookupGen.Literal
import LookupGen.LookupClass
import LookupGen.Main
import LookupGen.Name
import LookupGen.Program
import LookupGen.Program.Elements
import LookupGen.Program.Evaluate
import LookupGen.Program.Resolve
import LookupGen.Run
import LookupGen.Sink
import LookupGen.SourceReader
import LookupGen.SourceTree
import LookupGen.Table
import LookupGen.Text
import LookupGen.Text.Encoding
import LookupGen.Text.Quoted
import LookupGen.Unicode.Case
import LookupGen.Unicode.Classes
import LookupGen.Unicode.Identifier
import LookupGen.Yaml.Cursor
import LookupGen.Yaml.Error
import LookupGen.Yaml.Node
import LookupGen.Yaml.Node.Reader
import LookupGen.Yaml.Scalar
import LookupGen.Yaml.Scalar.Tagged
import LookupGen.Yaml.Tag
import LookupGen.Yaml.Token
import LookupGen.Yaml.Token.Scalar
import LookupGen.Yaml.Token.Scan
import LookupGen.Yaml.Token.Stream
import LookupGen.Yaml.Token.Tag
import LookupGen.Yaml.Value
import LookupGen.Proofs.Program.Fields
import LookupGen.Proofs.Program.Rules
import LookupGen.Proofs.Program.Depth
import LookupGen.Proofs.Program.Demand
import LookupGen.Proofs.Program.Constants
import LookupGen.Proofs.Literal.Encode
import LookupGen.Proofs.Name
import LookupGen.Proofs.LookupClass
import LookupGen.Proofs.Generation.Marked
import LookupGen.Proofs.Generation.Process
import LookupGen.Proofs.Literal.Lines
import LookupGen.Proofs.Literal.Block
import LookupGen.Proofs.Text.Units
import LookupGen.Proofs.Literal.Integer
import LookupGen.Proofs.Program.Typed
import LookupGen.Proofs.Program.Represents
import LookupGen.Proofs.Program.Conversion
import LookupGen.Proofs.Text.Surrogates
import LookupGen.Proofs.Generation.Attempts
import LookupGen.Proofs.Except
import LookupGen.Proofs.Disk.Place
import LookupGen.Proofs.Disk.Frame
import LookupGen.Proofs.Sink
import LookupGen.Proofs.Generation.Outputs
import LookupGen.Proofs.Text.Pairs
import LookupGen.Proofs.Program.Strings
import LookupGen.Proofs.Program.Numbering
import LookupGen.Proofs.Program.Twins
import LookupGen.Proofs.Program.Blocks
import LookupGen.Proofs.Program.Origins
import LookupGen.Proofs.SourceReader
import LookupGen.Proofs.Generation.Order
import LookupGen.Proofs.Disk.Way
import LookupGen.Proofs.Disk.Growth
import LookupGen.Proofs.Disk.Opening
import LookupGen.Proofs.Disk.Reopening
import LookupGen.Proofs.Generation.Growth
import LookupGen.Proofs.Sink.Place
import LookupGen.Proofs.Generation.Answers
import LookupGen.Proofs.Generation.Resumes
import LookupGen.Proofs.Generation.Repeat
import LookupGen.Proofs.Disk.Settled
import LookupGen.Proofs.SourceTree.Quiet
import LookupGen.Proofs.SourceTree
import LookupGen.Proofs.Run.Reading
import LookupGen.Proofs.Run.Rereading
import LookupGen.Proofs.Run.Repeat
import LookupGen.Proofs.Generation.Shown
import LookupGen.Proofs.Run.Listing
import LookupGen.Proofs.Generation.DryRun
import LookupGen.Proofs.Generation.Foretells
import LookupGen.Proofs.Run.Records
import LookupGen.Proofs.Run.Foretold
import LookupGen.Proofs.Run.DryRun
import LookupGen.Proofs.Run.Failing
import LookupGen.Proofs.SourceTree.Reached
import LookupGen.Proofs.SourceTree.Search
import LookupGen.Proofs.SourceReader.Retry
import LookupGen.Proofs.Java.Names
import LookupGen.Proofs.Java.Takes
import LookupGen.Proofs.Java.Advance
import LookupGen.Proofs.Java.Ends
import LookupGen.Proofs.Java.Spelling
import LookupGen.Proofs.Java.Numeral
import LookupGen.Proofs.Java.Reading
import LookupGen.Proofs.Java.Glyph
import LookupGen.Proofs.Text.Utf8
import LookupGen.Proofs.Name.Dotted
import LookupGen.Proofs.Program.Confined
import LookupGen.Proofs.Program.Apart
import LookupGen.Proofs.SourceReader.Unrelated
import LookupGen.Proofs.Java.Segments
import LookupGen.Proofs.SourceReader.Insertion
import LookupGen.Proofs.Sink.Usage
import LookupGen.Proofs.Literal.Sequence
import LookupGen.Proofs.Literal.Apart
import LookupGen.Proofs.Literal.Passes
import LookupGen.Proofs.Literal.Body
import LookupGen.Proofs.Java.Integer
import LookupGen.Proofs.Literal.Positional
import LookupGen.Proofs.Program.Arithmetic
import LookupGen.Proofs.Generation.Collected
import LookupGen.Proofs.Literal.Layout
import LookupGen.Proofs.Java.Parts
import LookupGen.Proofs.Java.Readable
import LookupGen.Proofs.Program.Parts
import LookupGen.Proofs.SourceReader.Naming
import LookupGen.Proofs.Program.Soundness
import LookupGen.Proofs.Program.FieldValues
import LookupGen.Proofs.SourceReader.Soundness
import LookupGen.Proofs.Config.Normal
import LookupGen.Proofs.Config.Spellings
import LookupGen.Proofs.Disk.Below
import LookupGen.Proofs.Sink.Apart
import LookupGen.Proofs.Java.Brackets
import LookupGen.Proofs.Java.Balance
import LookupGen.Proofs.Java.Outline
import LookupGen.Proofs.Java.Pieces
import LookupGen.Proofs.Java.Outlined
import LookupGen.Proofs.Java.Outlined.Members
import LookupGen.Proofs.Java.Outlined.Files
import LookupGen.Proofs.Java.Borders
import LookupGen.Proofs.Java.MemberEnds
import LookupGen.Proofs.Java.Unambiguous
import LookupGen.Proofs.Program.Placed
import LookupGen.Proofs.Program.Mirror
import LookupGen.Proofs.Program.Outline
import LookupGen.Proofs.SourceReader.Mirror
