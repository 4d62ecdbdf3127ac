import NetProg.Library.Runs
import NetProg.Library.Loops
import NetProg.Library.Slots
import NetProg.SingleProc.UserPipes
import NetProg.SingleProc.ExecCmds
import NetProg.SingleProc.Main
import NetProg.SingleProc.Rounds
import NetProg.SingleProc.Tables
import NetProg.SingleProc.Ids
import NetProg.SingleProc.UserPipeIds
import NetProg.SingleProc.Ownership
import NetProg.SingleProc.Agreement
import NetProg.SingleProc.Robustness
import NetProg.SingleProc.Framing
import NetProg.Npshell.Shell
import NetProg.Npshell.CommandLines
import NetProg.Npshell.Routing
import NetProg.Http.Parser
import NetProg.Http.Sessions
import NetProg.Socks.Rules
import NetProg.Socks.Firewall
import NetProg.Socks.Relay
import NetProg.Socks.Turns
import NetProg.Socks.Fidelity
import NetProg.Socks.Session
import NetProg.Socks.RequestFraming
import NetProg.SingleProc.Scan
import NetProg.Socks.Connect
import NetProg.Socks.Retries
import NetProg.Console.Request
import NetProg.Library.ScriptLiterals
import NetProg.Console.Output
import NetProg.Console.Prompts
import NetProg.MultiProc.Messages
import NetProg.MultiProc.Fifos
import NetProg.Http.Grammar
import NetProg.Http.Language
import NetProg.MultiProc.Commands
import NetProg.MultiProc.ExecCmds
import NetProg.MultiProc.Rounds
import NetProg.MultiProc.Main
import NetProg.MultiProc.Links
import NetProg.MultiProc.FifoTable
import NetProg.MultiProc.FifoRuns
import NetProg.MultiProc.FifoAgreement
import NetProg.MultiProc.Interrupts
import NetProg.MultiProc.StoredDescriptors
import NetProg.SingleProc.Holdings
import NetProg.SingleProc.Alone
import NetProg.SingleProc.Isolation
import NetProg.Common.Issues
import NetProg.Common.Reference
import NetProg.Common.Plumbing
import NetProg.Common.Views
import NetProg.Npshell.Sessions
import NetProg.SingleProc.Sessions
import NetProg.MultiProc.Sessions
import NetProg.Common.Agreement
import NetProg.Socks.Outstanding
import NetProg.Socks.StreamEnds
import NetProg.Socks.Replies
import NetProg.Console.Sharing
import NetProg.SingleProc.Nicknames
import NetProg.SingleProc.UserPipeErrors
import NetProg.MultiProc.Children
import NetProg.MultiProc.Departures
import NetProg.MultiProc.CleanUps
import NetProg.MultiProc.Reuse
import NetProg.SingleProc.Deliveries
import NetProg.SingleProc.Accounting
import NetProg.Console.Entities
import NetProg.Console.Query
import NetProg.Console.Form
import NetProg.Socks.Patterns
import NetProg.Socks.RuleFile
import NetProg.MultiProc.Names
import NetProg.Npshell.PipeTable
import NetProg.Npshell.Lexing
import NetProg.SingleProc.Redirections
import NetProg.SingleProc.Waiting
import NetProg.Http.Requests
import NetProg.SearchPath
import NetProg.Http.Programs
import NetProg.Library.Paths
import NetProg.Http.Versions
import NetProg.Library.Families
import NetProg.Execvp
import NetProg.Npshell.Forks
import NetProg.Http.Forks
import NetProg.Forks
import NetProg.Socks.ChildLoop
import NetProg.Library.Launches
import NetProg.Npshell.Descriptors
import NetProg.Npshell.Inheritance
import NetProg.Npshell.Waiting
import NetProg.Library.Batches
import NetProg.SingleProc.Passes
import NetProg.MultiProc.Logins
import NetProg.MultiProc.Slots
import NetProg.Library.Rooms
import NetProg.SingleProc.Room
import NetProg.Console.Conversation
import NetProg.Console.Shells
import NetProg.Library.Refinements
import NetProg.Socks.ReadInfo
import NetProg.Socks.Streams
import NetProg.Console.Proxied
import NetProg.Library.Networks
import NetProg.Npshell.Computing
