import NetSiege.Lib.Run
import NetSiege.Lib.Loop
import NetSiege.Lib.Bytes
import NetSiege.Lib.OrdMap
import NetSiege.Lib.MapIterator
import NetSiege.Lib.UndoStack
import NetSiege.Lib.Except
import NetSiege.Lib.IStream
import NetSiege.Lib.Protobuf
import NetSiege.Lib.Rounding
import NetSiege.Network.SteadyTime
import NetSiege.Network.SeqId
import NetSiege.Network.AckRecord
import NetSiege.Network.RpcPackage
import NetSiege.Network.RpcDispatcher
import NetSiege.Network.UdpConnection
import NetSiege.Network.AckWindow
import NetSiege.Network.MemoryPass
import NetSiege.Network.PackageEncoder
import NetSiege.Network.PackageCalls
import NetSiege.Network.Link
import NetSiege.Script.Serializer
import NetSiege.Script.Decoding
import NetSiege.Script.StoredValues
import NetSiege.Script.Serializability
import NetSiege.Oms.GameObject
import NetSiege.Oms.ObjectManager
import NetSiege.Oms.CampaignModule
import NetSiege.Oms.HostileUpdates
import NetSiege.Oms.Replication
import NetSiege.Network.WorldState
import NetSiege.Network.UpdateNews
import NetSiege.Network.NetworkClient
import NetSiege.Network.ClientIds
import NetSiege.Network.JoinHandshake
import NetSiege.Network.ReceiveBuffer
import NetSiege.Network.ReceivedArguments
import NetSiege.Network.Registrations
import NetSiege.Network.RpcTable
import NetSiege.Editor.TerrainPaging
import NetSiege.Editor.Brush
import NetSiege.Editor.UndoHistory
import NetSiege.Network.ClientProcess
import NetSiege.Network.OversizedCalls
import NetSiege.Network.ForeignDatagrams
import NetSiege.Network.PendingSets
import NetSiege.Network.DeadConnections
import NetSiege.Network.MessageSizes
import NetSiege.Oms.ObjectIdentity
import NetSiege.Oms.FrameStep
import NetSiege.Oms.Removal
import NetSiege.Lib.Box
import NetSiege.Lib.Raster
import NetSiege.Editor.HeightBrush
import NetSiege.Editor.BrushFalloff
import NetSiege.Editor.CampaignSlots
import NetSiege.Editor.SlotEditor
import NetSiege.Editor.SlotHistory
import NetSiege.Network.Prototypes
import NetSiege.Editor.StrokeProtocol
import NetSiege.Editor.PagedEdits
import NetSiege.Editor.Seams
import NetSiege.Network.CallBooks
import NetSiege.Network.Following
import NetSiege.Network.WorldFeed
import NetSiege.Network.CallOrigins
import NetSiege.Network.KnownCalls
import NetSiege.Network.ScriptCalls
import NetSiege.Network.SessionIds
import NetSiege.Network.JoinMessages
import NetSiege.Network.JoinRuns
import NetSiege.Oms.Directory
import NetSiege.Network.Traffic
import NetSiege.Network.GameLinks
import NetSiege.Network.PastAnswers
import NetSiege.Oms.TypeRegistration
import NetSiege.Editor.BrushLocality
import NetSiege.Editor.PageContents
import NetSiege.Editor.EditorRuns
import NetSiege.Network.ClientIsolation
import NetSiege.Editor.BlendWeights
