import Octet.Main
import Octet.Proofs.Clock.AbandonedJoin
import Octet.Proofs.Clock.Refault
import Octet.Proofs.Placement.Transfers
import Octet.Proofs.Session.AddressRange
import Octet.Proofs.Session.Boundaries
import Octet.Proofs.Session.FlagHistory
import Octet.Proofs.Session.Flags
import Octet.Proofs.Session.Restore
import Octet.Proofs.Placement.Diagnostics
import Octet.Proofs.Placement.BranchRange
import Octet.Proofs.Session.FreshStart
import Octet.Proofs.Session.InPlace
import Octet.Proofs.Session.RunState
import Octet.Proofs.Session.FaultReport
import Octet.Proofs.Reading.Blank
import Octet.Proofs.Reading.Lines
import Octet.Proofs.Reading.DataLine
import Octet.Proofs.Session.Printing
import Octet.Proofs.Encoding.Operands
import Octet.Proofs.Placement.Alike
import Octet.Proofs.Reading.Tokens
import Octet.Proofs.Reading.OpenQuotes
import Octet.Proofs.Placement.Comments
import Octet.Proofs.Placement.Refusals
import Octet.Proofs.Placement.Formatting
import Octet.Proofs.Session.Listing
import Octet.Proofs.Reading.Separators
import Octet.Proofs.Reading.Runs
import Octet.Proofs.Session.Reassembly
import Octet.Proofs.Clock.TraceHistory
import Octet.Proofs.Session.TraceUnread
import Octet.Proofs.CommandLine.Clocked
import Octet.Proofs.Json.Snapshot
import Octet.Proofs.Session.RegisterEdit
import Octet.Proofs.Reading.Literals
import Octet.Proofs.Encoding.Literals
import Octet.Proofs.Placement.Literals
import Octet.Proofs.Placement.SurveyReport
import Octet.Proofs.Encoding.Overlaps
import Octet.Proofs.Clock.OutputHistory
import Octet.Proofs.Placement.DataImage
import Octet.Proofs.Encoding.Priority
import Octet.Proofs.Encoding.Shadowing
import Octet.Proofs.Session.ListedStep
import Octet.Proofs.CommandLine.Settings
