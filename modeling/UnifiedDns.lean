import UnifiedDns.Lib.CyclicChain
import UnifiedDns.Dnssec.Rrsig
import UnifiedDns.Dnssec.Nsec
import UnifiedDns.Dnssec.Nsec3
import UnifiedDns.Dnssec.Negative
import UnifiedDns.Zone.Zone
import UnifiedDns.Zone.NsecDenial
import UnifiedDns.Zone.Nsec3Denial
import UnifiedDns.Dnssec.Redirection
import UnifiedDns.Dnssec.TrustChain
import UnifiedDns.Dnssec.Validator
import UnifiedDns.Dnssec.AnswerSection
import UnifiedDns.Dnssec.InsecureDelegation
import UnifiedDns.Zone.Nxdomain
import UnifiedDns.Dnssec.Downgrade
import UnifiedDns.Recursor.Resolver
import UnifiedDns.Recursor.DelegationCache
import UnifiedDns.Engine.Response
import UnifiedDns.Engine.Server
import UnifiedDns.Engine.CacheSafety
import UnifiedDns.Engine.CacheIdentity
import UnifiedDns.Dnssec.SignedData
import UnifiedDns.Dnssec.Signers
import UnifiedDns.Dnssec.WildcardAnswer
import UnifiedDns.Dnssec.DnameAnswer
import UnifiedDns.Zone.OptOut
import UnifiedDns.Zone.NsecComplete
import UnifiedDns.Zone.Nsec3Complete
import UnifiedDns.Recursor.MergedDenial
import UnifiedDns.Engine.ServedLifetime
import UnifiedDns.Engine.SignatureTime
import UnifiedDns.Dnssec.KeyLifetime
import UnifiedDns.Engine.ClientFlags
import UnifiedDns.Recursor.StrictAcceptance
import UnifiedDns.Recursor.ParentSide
import UnifiedDns.Lib.AddressBlock
import UnifiedDns.Recursor.SpecialUse
import UnifiedDns.Recursor.Transport
import UnifiedDns.Engine.Pipeline
import UnifiedDns.Engine.Replies
import UnifiedDns.Engine.SingleFlight
import UnifiedDns.Engine.TokenBucket
import UnifiedDns.Engine.RefillRounding
import UnifiedDns.Engine.DuplicatePolicy
import UnifiedDns.Engine.ClientIdentity
import UnifiedDns.Engine.Persistence
import UnifiedDns.Engine.ConcurrentSaves
import UnifiedDns.Dnssec.WorkBound
import UnifiedDns.Engine.ReplySize
import UnifiedDns.Engine.Streams
import UnifiedDns.Engine.SubnetIsolation
import UnifiedDns.Dnssec.SignatureOrder
import UnifiedDns.Lib.Chase
import UnifiedDns.Recursor.CachePurge
import UnifiedDns.Dnssec.RedirectionClasses
import UnifiedDns.Dnssec.DnameSubstitution
import UnifiedDns.Dnssec.CanonicalForm
import UnifiedDns.Dnssec.HashCircle
import UnifiedDns.Lib.BitGroups
import UnifiedDns.Dnssec.HashedOwner
import UnifiedDns.Lib.CheckedInt
import UnifiedDns.Engine.LimiterOverflow
import UnifiedDns.Recursor.Termination
import UnifiedDns.Recursor.World
import UnifiedDns.Recursor.HonestAnswers
import UnifiedDns.Recursor.HonestResolution
import UnifiedDns.Recursor.Internet
import UnifiedDns.Dnssec.SignedTree
import UnifiedDns.Engine.Guarantees
import UnifiedDns.Engine.HonestService
import UnifiedDns.Lib.Permits
import UnifiedDns.Lib.Base64
import UnifiedDns.Lib.TextLines
import UnifiedDns.Engine.Transports
import UnifiedDns.Engine.UdpListener
import UnifiedDns.Engine.Doh
import UnifiedDns.Dnssec.AuthenticAnswer
import UnifiedDns.Zone.AuthenticDenial
import UnifiedDns.Engine.AuthenticReplies
import UnifiedDns.Engine.Connections
import UnifiedDns.Dnssec.SignatureSchemes
import UnifiedDns.Engine.DomainList
import UnifiedDns.Lib.Routines
import UnifiedDns.Recursor.Stepwise
import UnifiedDns.Recursor.Discipline
import UnifiedDns.Recursor.Interleaved
