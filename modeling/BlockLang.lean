import BlockLang.Main
import BlockLang.Condition.Lookup
import BlockLang.Descent
import BlockLang.Session
import BlockLang.Token.Reader
import BlockLang.Proofs.Token.Decomposition
import BlockLang.Proofs.Token.Concatenation
import BlockLang.Proofs.Token.Joining
import BlockLang.Proofs.Reader.Consistency
import BlockLang.Proofs.Printer.Balance
import BlockLang.Proofs.Printer.Emission
import BlockLang.Proofs.Parser.Constructs
import BlockLang.Proofs.Parser.Tracking
import BlockLang.Proofs.Parser.Records
import BlockLang.Proofs.Parser.ViablePrefix
import BlockLang.Proofs.Parser.Nesting
import BlockLang.Proofs.Parser.Position
import BlockLang.Proofs.Parser.Depth
import BlockLang.Proofs.Parser.Concatenation
import BlockLang.Proofs.Parser.Sentinel
import BlockLang.Proofs.Parser.Assembly
import BlockLang.Proofs.Parser.Elements
import BlockLang.Proofs.Forest.Growth
import BlockLang.Proofs.Forest.Refusal
import BlockLang.Proofs.Forest.Lasting
import BlockLang.Proofs.Forest.Sprouting
import BlockLang.Proofs.Forest.Bearing
import BlockLang.Proofs.Descent.Steps
import BlockLang.Proofs.Descent.Following
import BlockLang.Proofs.Descent.Agreement
import BlockLang.Proofs.Descent.Plan
import BlockLang.Proofs.Descent.Tidiness
import BlockLang.Proofs.Descent.Inner
import BlockLang.Proofs.Descent.Planning
import BlockLang.Proofs.Descent.Appending
import BlockLang.Proofs.Descent.Ending
import BlockLang.Proofs.Descent.Root
import BlockLang.Proofs.Session.Building
import BlockLang.Proofs.Session.Frame
import BlockLang.Proofs.Session.Stream
import BlockLang.Proofs.Session.Ownership
import BlockLang.Proofs.Session.Lasting
import BlockLang.Proofs.Session.Refusal
import BlockLang.Proofs.Session.Containment
import BlockLang.Proofs.Text.Spelling
import BlockLang.Proofs.Text.Quoted
import BlockLang.Proofs.Statement.Description
import BlockLang.Proofs.Json.Escape
import BlockLang.Proofs.Json.Faithful
import BlockLang.Proofs.Directory.Writing
import BlockLang.Proofs.Tool.Source
import BlockLang.Proofs.Tool.Reformat
import BlockLang.Proofs.Tool.Output
import BlockLang.Proofs.Tool.Leftover
import BlockLang.Proofs.CommandLine.Status
