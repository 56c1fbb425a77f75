import DpiEngine.Accounting
import DpiEngine.AddressRules
import DpiEngine.Agreement
import DpiEngine.AppNames
import DpiEngine.ClientHello
import DpiEngine.CommandLine
import DpiEngine.ConnectionIdentity
import DpiEngine.ConnectionReports
import DpiEngine.Deadlock
import DpiEngine.Decisions
import DpiEngine.DomainRules
import DpiEngine.EmptyNames
import DpiEngine.ExtractorBounds
import DpiEngine.FirstName
import DpiEngine.FlowLives
import DpiEngine.GlobalReport
import DpiEngine.LeastRecent
import DpiEngine.MainProgram
import DpiEngine.MtReport
import DpiEngine.Ordering
import DpiEngine.Padding
import DpiEngine.PcapRoundTrip
import DpiEngine.QueueHistory
import DpiEngine.QueueWakeups
import DpiEngine.Recounting
import DpiEngine.Restart
import DpiEngine.Routing
import DpiEngine.RuleLoad
import DpiEngine.RuleRaces
import DpiEngine.Setup
import DpiEngine.Shutdown
import DpiEngine.TableInvariant
import DpiEngine.Transparency
