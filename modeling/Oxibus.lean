import Oxibus.Auth.Agreement
import Oxibus.Auth.Challenges
import Oxibus.Auth.Client
import Oxibus.Auth.Contention
import Oxibus.Auth.Handshake
import Oxibus.Auth.Keyring
import Oxibus.Auth.Mechanism
import Oxibus.Auth.Server
import Oxibus.Auth.StreamAgreement
import Oxibus.Auth.Streams
import Oxibus.Auth.Utterances
import Oxibus.Client.Attachment
import Oxibus.Client.Calls
import Oxibus.Client.Connection
import Oxibus.Client.Descriptors
import Oxibus.Client.Extraction
import Oxibus.Client.Integrity
import Oxibus.Client.Introspection
import Oxibus.Client.Nested
import Oxibus.Client.ObjectServer
import Oxibus.Client.Origins
import Oxibus.Client.Pending
import Oxibus.Client.Relaying
import Oxibus.Client.Replies
import Oxibus.Client.Serials
import Oxibus.Client.Serving
import Oxibus.Core.Address
import Oxibus.Core.Bodies
import Oxibus.Core.BusNames
import Oxibus.Core.Canonical
import Oxibus.Core.Decoding
import Oxibus.Core.Encoding
import Oxibus.Core.Forwarding
import Oxibus.Core.Framing
import Oxibus.Core.Grammar
import Oxibus.Core.Header
import Oxibus.Core.Layout
import Oxibus.Core.Marshal
import Oxibus.Core.Message
import Oxibus.Core.Names
import Oxibus.Core.Nesting
import Oxibus.Core.Paths
import Oxibus.Core.Progress
import Oxibus.Core.RoundTrip
import Oxibus.Core.Sieves
import Oxibus.Core.Signature
import Oxibus.Core.Sizes
import Oxibus.Core.Totality
import Oxibus.Core.Types
import Oxibus.Core.Unmarshal
import Oxibus.Daemon.Accounts
import Oxibus.Daemon.Activations
import Oxibus.Daemon.Addressing
import Oxibus.Daemon.Annotated
import Oxibus.Daemon.ArgPaths
import Oxibus.Daemon.Authenticity
import Oxibus.Daemon.Broadcasts
import Oxibus.Daemon.Buffers
import Oxibus.Daemon.Bus
import Oxibus.Daemon.BusName
import Oxibus.Daemon.CallOutcome
import Oxibus.Daemon.Conduct
import Oxibus.Daemon.ConnectionLimits
import Oxibus.Daemon.Convergence
import Oxibus.Daemon.Delivery
import Oxibus.Daemon.Dispatch
import Oxibus.Daemon.Dispatched
import Oxibus.Daemon.Driver
import Oxibus.Daemon.DriverReplies
import Oxibus.Daemon.Moments
import Oxibus.Daemon.Queries
import Oxibus.Daemon.Duplicates
import Oxibus.Daemon.Eavesdropping
import Oxibus.Daemon.Effects
import Oxibus.Daemon.HelloGate
import Oxibus.Daemon.HelloReply
import Oxibus.Daemon.Heralds
import Oxibus.Daemon.Lifecycle
import Oxibus.Daemon.MatchCopies
import Oxibus.Daemon.MatchRules
import Oxibus.Daemon.Mediation
import Oxibus.Daemon.Monitors
import Oxibus.Daemon.Notices
import Oxibus.Daemon.OwnPrefix
import Oxibus.Daemon.Ownership
import Oxibus.Daemon.Policy
import Oxibus.Daemon.PolicyFiles
import Oxibus.Daemon.Presence
import Oxibus.Daemon.Queues
import Oxibus.Daemon.Recipients
import Oxibus.Daemon.Registry
import Oxibus.Daemon.Replay
import Oxibus.Daemon.Requests
import Oxibus.Daemon.RuleInsertion
import Oxibus.Daemon.RuleKeys
import Oxibus.Daemon.RulePairs
import Oxibus.Daemon.RuleScope
import Oxibus.Daemon.RuleText
import Oxibus.Daemon.SendingOrder
import Oxibus.Daemon.ServiceFiles
import Oxibus.Daemon.Sessions
import Oxibus.Daemon.System
import Oxibus.Daemon.UniqueNames
import Oxibus.Daemon.UserLimit
import Oxibus.Daemon.XmlForms
import Oxibus.Daemon.XmlPieces
import Oxibus.Daemon.XmlPolicy
import Oxibus.Daemon.XmlReference
import Oxibus.Daemon.XmlTokens
import Oxibus.Daemon.XmlWriting
import Oxibus.Lib.Endian
import Oxibus.Lib.Masked
import Oxibus.Lib.Once
import Oxibus.Lib.Outcome
import Oxibus.Lib.Owners
import Oxibus.Lib.Overrides
import Oxibus.Lib.Percent
import Oxibus.Lib.Pieces
import Oxibus.Lib.Prog
import Oxibus.Lib.Refine
import Oxibus.Lib.Single
import Oxibus.Lib.Slots
import Oxibus.Lib.Text
import Oxibus.Lib.Trees
import Oxibus.Lib.Utf8
import Oxibus.Libdbus.Errors
import Oxibus.Libdbus.Message
import Oxibus.Libdbus.Sending
import Oxibus.Transport.Attribution
import Oxibus.Transport.Lines
import Oxibus.Transport.Reader
import Oxibus.Transport.Stream
import Oxibus.Transport.Writer
import Oxibus.Lib.Attempt
import Oxibus.Lib.Simulate
import Oxibus.Daemon.ServiceRegistry
import Oxibus.Daemon.LaunchHelper
import Oxibus.Daemon.LaunchSafety
import Oxibus.Daemon.Handover
import Oxibus.Daemon.Environment
import Oxibus.Daemon.Opening
import Oxibus.Daemon.Sockets
