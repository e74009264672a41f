import Thundercrab.Suggestions.Precedence
import Thundercrab.CrabLedger.Aggregation
import Thundercrab.CrabLedger.Provenance
import Thundercrab.CrabLedger.Quotas
import Thundercrab.CrabLedger.Canonical
import Thundercrab.CrabLedger.Target
import Thundercrab.Core.DbInit
import Thundercrab.Imap.Move
import Thundercrab.Imap.MoveDone
import Thundercrab.Imap.Folding
import Thundercrab.Imap.Framing
import Thundercrab.Imap.Oversized
import Thundercrab.Imap.FetchHeaders
import Thundercrab.Imap.Commands
import Thundercrab.Imap.Secrecy
import Thundercrab.Suggestions.Submission
import Thundercrab.Suggestions.DerivedIds
import Thundercrab.Suggestions.Gate
import Thundercrab.Suggestions.Wire
import Thundercrab.Suggestions.Dominance
import Thundercrab.Suggestions.DerivedSafety
import Thundercrab.Gui.Attempts
import Thundercrab.Cli.Crab
import Thundercrab.CrabLedger.Admission
import Thundercrab.CrabLedger.Isolation
import Thundercrab.CrabLedger.Queries
import Thundercrab.CrabLedger.Restart
import Thundercrab.CrabLedger.Federation
import Thundercrab.Imap.Interleaving
import Thundercrab.Imap.Installation
import Thundercrab.Imap.Verdict
import Thundercrab.Imap.Shown
import Thundercrab.Suggestions.Learning
import Thundercrab.Core.DbProcesses
