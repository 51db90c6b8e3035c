import DnsResolver.Lib.Ring
import DnsResolver.Lib.Bits
import DnsResolver.Lib.Base64
import DnsResolver.Lib.FormText
import DnsResolver.Lib.StrSlice
import DnsResolver.Lib.History
import DnsResolver.Lib.Trace
import DnsResolver.Lib.Serial
import DnsResolver.Lib.Run
import DnsResolver.Lib.Walk
import DnsResolver.Lib.Framing
import DnsResolver.Lib.Frames
import DnsResolver.Lib.Dedup
import DnsResolver.Lib.KeyedMap
import DnsResolver.Data.Name
import DnsResolver.Data.Record
import DnsResolver.Data.Wire
import DnsResolver.Recursor.Redirection
import DnsResolver.Recursor.Upstream
import DnsResolver.Recursor.Delegation
import DnsResolver.Recursor.Resolve
import DnsResolver.Recursor.Bailiwick
import DnsResolver.Recursor.DnameText
import DnsResolver.Recursor.Rounds
import DnsResolver.Recursor.Merge
import DnsResolver.Recursor.Visited
import DnsResolver.Recursor.RootZone
import DnsResolver.Recursor.ZoneText
import DnsResolver.Recursor.ZoneFile
import DnsResolver.Recursor.ZoneStart
import DnsResolver.Recursor.AddressText
import DnsResolver.Recursor.ZoneRefresh
import DnsResolver.Recursor.ZoneRestart
import DnsResolver.Dnssec.Tbs
import DnsResolver.Dnssec.Crypto
import DnsResolver.Dnssec.TbsCanonical
import DnsResolver.Dnssec.TbsInjective
import DnsResolver.Dnssec.State
import DnsResolver.Dnssec.RdataCase
import DnsResolver.Dnssec.Negative
import DnsResolver.Dnssec.Genuine
import DnsResolver.Dnssec.Denial
import DnsResolver.Dnssec.Zone
import DnsResolver.Dnssec.DenialCase
import DnsResolver.Dnssec.Chain
import DnsResolver.Dnssec.ChainStep
import DnsResolver.Dnssec.ChainTrust
import DnsResolver.Dnssec.ChainCase
import DnsResolver.Dnssec.ChainCover
import DnsResolver.Dnssec.ParentSide
import DnsResolver.Dnssec.NsecZone
import DnsResolver.Dnssec.Nsec3Zone
import DnsResolver.Dnssec.NsecComplete
import DnsResolver.Dnssec.Nsec3Complete
import DnsResolver.Dnssec.DsBitmap
import DnsResolver.Dnssec.Expansion
import DnsResolver.Dnssec.Validator
import DnsResolver.Dnssec.RedirectionChain
import DnsResolver.Dnssec.Budget
import DnsResolver.Dnssec.RrsetCheck
import DnsResolver.Dnssec.Unsigned
import DnsResolver.Dnssec.KeyLifetime
import DnsResolver.Dnssec.AnswerRun
import DnsResolver.Dnssec.DnameAnswer
import DnsResolver.Dnssec.BogusAnswer
import DnsResolver.Dnssec.CheckOrigin
import DnsResolver.Dnssec.WildcardAnswer
import DnsResolver.Dnssec.Downgrade
import DnsResolver.Dnssec.NameError
import DnsResolver.Dnssec.Base32
import DnsResolver.Dnssec.Intervals
import DnsResolver.Dnssec.OwnerLabel
import DnsResolver.Engine.Response
import DnsResolver.Engine.AnswerCover
import DnsResolver.Engine.Lifetime
import DnsResolver.Engine.Process
import DnsResolver.Engine.KeyText
import DnsResolver.Engine.Enforce
import DnsResolver.Engine.SingleFlight
import DnsResolver.Engine.Flights
import DnsResolver.Engine.FlightLeader
import DnsResolver.Engine.HitTracker
import DnsResolver.Engine.Prefetch
import DnsResolver.Engine.Provenance
import DnsResolver.Engine.PrefetchTasks
import DnsResolver.Engine.PrefetchKeys
import DnsResolver.Engine.RateLimit
import DnsResolver.Engine.CheckQuery
import DnsResolver.Engine.DuplicateQueries
import DnsResolver.Engine.RefillCredit
import DnsResolver.Engine.Cleanup
import DnsResolver.Engine.Maintenance
import DnsResolver.Engine.BucketAccess
import DnsResolver.Engine.TokenBucket
import DnsResolver.Engine.Tasks
import DnsResolver.Engine.Servable
import DnsResolver.Engine.CacheOrder
import DnsResolver.Engine.Host
import DnsResolver.Engine.Alike
import DnsResolver.Engine.ClientFlags
import DnsResolver.Engine.NegativeTtl
import DnsResolver.Transports.Http
import DnsResolver.Transports.DnsRequest
import DnsResolver.Transports.DnsParam
import DnsResolver.Transports.FrontEnds
import DnsResolver.Transports.Stream
import DnsResolver.Geo.Router
import DnsResolver.Geo.Probe
import DnsResolver.Geo.Peer
import DnsResolver.Geo.HexText
import DnsResolver.Geo.Config
import DnsResolver.Geo.Heartbeats
import DnsResolver.Geo.Receivers
import DnsResolver.Geo.Authoritative
import DnsResolver.Geo.Steering
import DnsResolver.Geo.Mesh
import DnsResolver.Geo.MeshRuns
import DnsResolver.Geo.Exits
import DnsResolver.Recursor.Outcome
import DnsResolver.Recursor.Replies
