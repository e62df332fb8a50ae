import WolfNano.KeyUpdateLast
import WolfNano.Streams
import WolfNano.Leftovers
import WolfNano.NonceReuse
import WolfNano.FatalErrors
import WolfNano.RecvRefusal
import WolfNano.Interleaving
import WolfNano.TicketFragments
import WolfNano.ChainRule
import WolfNano.ServerAuth
import WolfNano.ValidTimes
import WolfNano.HelloBinder
import WolfNano.HostName
import WolfNano.ParseSafe
import WolfNano.HelloBuild
import WolfNano.HelloSent
import WolfNano.RecordInner
import WolfNano.PlaintextLimit
import WolfNano.RecvOutputs
import WolfNano.RsaKey
import WolfNano.Assembly
import WolfNano.EncExts
import WolfNano.WireSafety
import WolfNano.Layout
import WolfNano.ServerHelloRead
import WolfNano.Chunking
import WolfNano.RetryRules
import WolfNano.AsnHeader
import WolfNano.HelloLoops
import WolfNano.Buffers
import WolfNano.Lifetime
import WolfNano.CertSignature
import WolfNano.SentRecords
import WolfNano.KeyLife
