import AwgProxy.Lib.Machine
import AwgProxy.Lib.Bytes
import AwgProxy.Lib.Memory
import AwgProxy.ChaCha20
import AwgProxy.Blake2s
import AwgProxy.Config
import AwgProxy.FastRand
import AwgProxy.Transform
import AwgProxy.Encoder
import AwgProxy.Decoder
import AwgProxy.RoundTrip
import AwgProxy.Lib.Search
import AwgProxy.Session
import AwgProxy.SessionUniqueness
import AwgProxy.Proxy
import AwgProxy.FastPath
import AwgProxy.S2cBatch
import AwgProxy.Watchdog
import AwgProxy.Server
import AwgProxy.ServerPeers
import AwgProxy.ServerResponses
import AwgProxy.SessionFollow
import AwgProxy.Collisions
import AwgProxy.Fallback
import AwgProxy.C2sReverse
import AwgProxy.StageAdoption
import AwgProxy.C2sNormal
import AwgProxy.S2cDecode
import AwgProxy.S2cLoop
import AwgProxy.GroReads
import AwgProxy.Rotation
import AwgProxy.RotationAnswer
import AwgProxy.Reconnect
import AwgProxy.RotationDual
import AwgProxy.SendBatch
import AwgProxy.RotationDue
import AwgProxy.RotationGrace
import AwgProxy.SourcePort
import AwgProxy.StateFile
import AwgProxy.Trailers
import AwgProxy.EncoderBounds
import AwgProxy.ChainWalk
import AwgProxy.Lib.Double
import AwgProxy.Lib.Ecma
import AwgProxy.PortSet
import AwgProxy.Endpoint
import AwgProxy.Cps
import AwgProxy.Validate
import AwgProxy.Startup
import AwgProxy.Lib.CyclicWalk
import AwgProxy.PortDraw
import AwgProxy.Resolve
import AwgProxy.Lib.Wrap
import AwgProxy.RotationSpan
import AwgProxy.LagQueue
import AwgProxy.RotationQuiet
import AwgProxy.CpsGrammar
import AwgProxy.CpsGenerate
import AwgProxy.GroSplit
import AwgProxy.C2sSplit
import AwgProxy.Base64
import AwgProxy.Lib.Fields
import AwgProxy.ShareLink
import AwgProxy.ShareContract
import AwgProxy.Keystream
import AwgProxy.Junk
import AwgProxy.Decoys
import AwgProxy.PerfKnobs
import AwgProxy.RecvBuffer
import AwgProxy.Lib.XorShift
import AwgProxy.Nonces
import AwgProxy.DnsWatch
import AwgProxy.HostPorts
import AwgProxy.StateRestore
import AwgProxy.Lib.Window
import AwgProxy.InPlace
import AwgProxy.Base64Decode
import AwgProxy.HeaderText
import AwgProxy.PathMtu
import AwgProxy.SpinCtl
import AwgProxy.FamilyReset
import AwgProxy.PickRange
import AwgProxy.ProfileGen
import AwgProxy.HappyEyeballs
import AwgProxy.Curve25519
import AwgProxy.CipherStream
import AwgProxy.Lib.HoldBack
import AwgProxy.Lib.Blake2
import AwgProxy.Blake2sStream
import AwgProxy.Lib.FirstOccurrences
import AwgProxy.Wire
import AwgProxy.Senders
import AwgProxy.Tunnel
import AwgProxy.HubWire
import AwgProxy.Hub
import AwgProxy.Keys
import AwgProxy.Environment
import AwgProxy.Deployment
import AwgProxy.EnvLines
import AwgProxy.SiteToSite
import AwgProxy.Lib.Handles
import AwgProxy.Descriptors
import AwgProxy.LoadedFds
import AwgProxy.ConfFile
