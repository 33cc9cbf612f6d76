import FrontEnd.Compile
import FrontEnd.Error.Report
import FrontEnd.Parser.Unbounded
import FrontEnd.Proofs.Run
import FrontEnd.Proofs.Syntax.Spelling
import FrontEnd.Proofs.Syntax.Building
import FrontEnd.Proofs.Syntax.Reading
import FrontEnd.Proofs.Syntax.ReadingFile
import FrontEnd.Proofs.Scopes.Declaring
import FrontEnd.Proofs.Layout.Nodes
import FrontEnd.Proofs.Layout.Building
import FrontEnd.Proofs.Layout.BuildingFile
import FrontEnd.Proofs.Resolution.Settling
import FrontEnd.Proofs.Layout.Places
import FrontEnd.Proofs.Resolution.Pending
import FrontEnd.Proofs.Resolution.TwoPass
import FrontEnd.Proofs.Typing.Deciding
import FrontEnd.Proofs.Typing.Checking
import FrontEnd.Proofs.Layout.Nodewise
import FrontEnd.Proofs.Layout.Ordered
import FrontEnd.Proofs.Layout.Forest
import FrontEnd.Proofs.Typing.Accepted
import FrontEnd.Proofs.Typing.FunctionNames
import FrontEnd.Proofs.Order.AnyOrder
import FrontEnd.Proofs.Printing.RoundTrip
import FrontEnd.Proofs.Resolution.Worklists
import FrontEnd.Proofs.Typing.Recomputing
import FrontEnd.Proofs.Resolution.Failing
import FrontEnd.Proofs.Resolution.AnyLists
import FrontEnd.Proofs.Typing.Remembering
import FrontEnd.Proofs.Scopes.Kinds
import FrontEnd.Proofs.Scopes.Lasting
import FrontEnd.Proofs.Scopes.Ledger
import FrontEnd.Proofs.Scopes.Barrier
import FrontEnd.Proofs.Scopes.Extending
import FrontEnd.Proofs.Scopes.OneMeaning
import FrontEnd.Proofs.Stages.Kinds
import FrontEnd.Proofs.Stages.Lexing
import FrontEnd.Proofs.Stages.SafeSteps
import FrontEnd.Proofs.Stages.Refusing
import FrontEnd.Proofs.Stages.TypeErrors
import FrontEnd.Proofs.Stages.Compiling
import FrontEnd.Proofs.Lexing.Reprinting
import FrontEnd.Proofs.Pointing.Compiling
import FrontEnd.Proofs.Pointing.Caret
import FrontEnd.Proofs.Typing.TopLevel
import FrontEnd.Proofs.Lexing.Faults
import FrontEnd.Proofs.Printing.Precedence
import FrontEnd.Proofs.Syntax.ForHeads
import FrontEnd.Proofs.Reading.Advancing
import FrontEnd.Proofs.Reading.LastReturns
