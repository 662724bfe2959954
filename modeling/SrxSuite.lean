import SrxSuite.Aspa.Database
import SrxSuite.Aspa.Families
import SrxSuite.Aspa.PathValidation
import SrxSuite.Aspa.Reception
import SrxSuite.Client.SendQueue
import SrxSuite.Client.VerifyUpdate
import SrxSuite.Crypto.AlgorithmIds
import SrxSuite.Crypto.MalformedAttrs
import SrxSuite.Crypto.Sign
import SrxSuite.Crypto.SignPeers
import SrxSuite.Crypto.StoreAtomic
import SrxSuite.Crypto.Validate
import SrxSuite.Lib.NumberText
import SrxSuite.Lib.ParentTree
import SrxSuite.Lib.PrefixTree
import SrxSuite.Lib.Preorder
import SrxSuite.Lib.SortedWalk
import SrxSuite.Lib.Unlinking
import SrxSuite.PrefixCache.Duplicates
import SrxSuite.PrefixCache.Isolation
import SrxSuite.PrefixCache.NodeCreation
import SrxSuite.PrefixCache.OtherState
import SrxSuite.PrefixCache.UpdateCounts
import SrxSuite.PrefixCache.Usable
import SrxSuite.Quagga.AsPathConversion
import SrxSuite.Quagga.AsPathPut
import SrxSuite.Quagga.AsPathWire
import SrxSuite.Quagga.AsTransition
import SrxSuite.Quagga.CurrentResults
import SrxSuite.Quagga.Interning
import SrxSuite.Quagga.LocalPreference
import SrxSuite.Quagga.ParseGrammar
import SrxSuite.Quagga.PrefixBits
import SrxSuite.Quagga.RequestData
import SrxSuite.Quagga.RoundTrip
import SrxSuite.Quagga.RouteTable
import SrxSuite.Quagga.RouteTableFinish
import SrxSuite.Quagga.RouteTableIter
import SrxSuite.Quagga.SynchRequest
import SrxSuite.Server.AnswerProcessed
import SrxSuite.Server.Broadcast
import SrxSuite.Server.ClientCounts
import SrxSuite.Server.ClientList
import SrxSuite.Server.CommandQueue
import SrxSuite.Server.Convergence
import SrxSuite.Server.ErrorReports
import SrxSuite.Server.IdentifierText
import SrxSuite.Server.Independence
import SrxSuite.Server.KeptApart
import SrxSuite.Server.KeyCounters
import SrxSuite.Server.PathParsing
import SrxSuite.Server.ProxyMap
import SrxSuite.Server.RequestBounds
import SrxSuite.Server.RequestFamilies
import SrxSuite.Server.RtrDispatch
import SrxSuite.Server.RtrPayloads
import SrxSuite.Server.RtrVersions
import SrxSuite.Server.Scheduling
import SrxSuite.Server.SessionRule
import SrxSuite.Server.SkiCleanModes
import SrxSuite.Server.SkiCleaning
import SrxSuite.Server.SkiLists
import SrxSuite.Server.SkiOrder
import SrxSuite.Server.SkiRefine
import SrxSuite.Server.SkiUndo
import SrxSuite.Server.StoreUpdate
import SrxSuite.Server.Subscriptions
import SrxSuite.Server.Transports
import SrxSuite.Tools.RtrAppend
import SrxSuite.Tools.RtrCache
import SrxSuite.Tools.RtrLink
import SrxSuite.Tools.RtrSync
import SrxSuite.Tools.RtrWire
import SrxSuite.Util.PacketFraming
import SrxSuite.Util.PrefixText
import SrxSuite.Util.SListNodes
import SrxSuite.Util.SListSequence
import SrxSuite.Util.SLists
import SrxSuite.Util.Timer
import SrxSuite.Util.UpdateText
