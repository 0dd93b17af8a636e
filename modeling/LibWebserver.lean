import LibWebserver.Proofs.BadData
import LibWebserver.Proofs.ClientFraming
import LibWebserver.Proofs.Consumption
import LibWebserver.Proofs.Lifecycle
import LibWebserver.Proofs.Spurious
import LibWebserver.Proofs.Termination
import LibWebserver.Proofs.SlidingWindows
import LibWebserver.Proofs.Rotation
import LibWebserver.Proofs.Strings
import LibWebserver.Proofs.Dispatch
import LibWebserver.Proofs.Endpoints
import LibWebserver.Proofs.Interleaving
import LibWebserver.Proofs.Stages
import LibWebserver.Proofs.Traffic
import LibWebserver.Proofs.Thread
import LibWebserver.Proofs.QuerySegments
import LibWebserver.Proofs.Incomplete
import LibWebserver.Proofs.RequestLine
import LibWebserver.Proofs.HeaderView
import LibWebserver.Proofs.HeaderGrammar
import LibWebserver.Proofs.FramingHeaders
import LibWebserver.Proofs.Checked
import LibWebserver.Proofs.Sampling
import LibWebserver.Proofs.Clock
import LibWebserver.Proofs.Compare
import LibWebserver.Proofs.Ranges
import LibWebserver.Proofs.UrlCode
import LibWebserver.Proofs.Averages
import LibWebserver.Proofs.Maximum
import LibWebserver.Proofs.Refusal
import LibWebserver.Proofs.Reception
import LibWebserver.Proofs.Reflection
import LibWebserver.Library.Numeral
import LibWebserver.Library.ShiftSubtract
import LibWebserver.Conversions
import LibWebserver.Proofs.Division
import LibWebserver.Proofs.Numerals
import LibWebserver.Proofs.Padding
import LibWebserver.Proofs.SignedNumerals
import LibWebserver.StringHelpers
import LibWebserver.Proofs.Joined
import LibWebserver.Proofs.Tokens
import LibWebserver.Library.RunLength
import LibWebserver.Suppression
import LibWebserver.Proofs.Suppression
import LibWebserver.HttpWorker
import LibWebserver.Proofs.HttpWorker
import LibWebserver.Proofs.Exchange
import LibWebserver.Proofs.Conversation
import LibWebserver.Rounds
import LibWebserver.Proofs.Rounds
import LibWebserver.Lifetime
import LibWebserver.Listening
import LibWebserver.Proofs.Lifetime
import LibWebserver.Proofs.Listening
import LibWebserver.Proofs.Accounting
import LibWebserver.Scheduler
import LibWebserver.Proofs.Scheduler
import LibWebserver.CFormat
import LibWebserver.Proofs.CFormat
import LibWebserver.StringCopy
import LibWebserver.Proofs.StringCopy
import LibWebserver.Programs
import LibWebserver.Proofs.Programs
import LibWebserver.Metering
import LibWebserver.Proofs.Metering
