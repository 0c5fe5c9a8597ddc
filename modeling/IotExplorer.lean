import IotExplorer.Basis.VarLength
import IotExplorer.Basis.Levels
import IotExplorer.Basis.Runs
import IotExplorer.Basis.Ownership
import IotExplorer.Basis.JsonText
import IotExplorer.Basis.Decimals
import IotExplorer.Protocol
import IotExplorer.PacketBytes
import IotExplorer.PublishPacket
import IotExplorer.ControlPackets
import IotExplorer.Network
import IotExplorer.ReadPacket
import IotExplorer.PacketFraming
import IotExplorer.ClientState
import IotExplorer.TopicFilter
import IotExplorer.DeliverMessage
import IotExplorer.WaitLists
import IotExplorer.Requests
import IotExplorer.PacketHandlers
import IotExplorer.Connection
import IotExplorer.SessionSteps
import IotExplorer.ClientRuns
import IotExplorer.Framing
import IotExplorer.Basis.CyclicIds
import IotExplorer.PacketIds
import IotExplorer.PublishEvents
import IotExplorer.Basis.RecentRing
import IotExplorer.RepeatBuffer
import IotExplorer.FilterOwnership
import IotExplorer.SubscriptionAcks
import IotExplorer.SubReady
import IotExplorer.Reconnect
import IotExplorer.KeepAlive
import IotExplorer.Backoff
import IotExplorer.JsonParser
import IotExplorer.JsonLookup
import IotExplorer.JsonObjects
import IotExplorer.JsonPaths
import IotExplorer.JsonPayload
import IotExplorer.TemplateJson
import IotExplorer.DataTemplate
import IotExplorer.TemplateRequests
import IotExplorer.TemplateSubscribe
import IotExplorer.TemplateLeftovers
import IotExplorer.DeviceProperty
import IotExplorer.ReportArray
import IotExplorer.PropertyUpdate
import IotExplorer.HttpClient
import IotExplorer.HttpChunks
import IotExplorer.HttpDownload
import IotExplorer.OtaClient
import IotExplorer.OtaRuns
import IotExplorer.GatewayClient
import IotExplorer.GatewaySessions
import IotExplorer.GatewayBindList
import IotExplorer.AtClient
import IotExplorer.AtResponses
import IotExplorer.AtSocket
import IotExplorer.Basis.Memory
import IotExplorer.Basis.Pieces
import IotExplorer.LogUpload
import IotExplorer.LogPosts
import IotExplorer.LogRecords
import IotExplorer.LogUploadRuns
import IotExplorer.FileManageClient
import IotExplorer.FileManageRuns
import IotExplorer.ResourceClient
import IotExplorer.DownloadSteps
import IotExplorer.FilePosts
import IotExplorer.PacketWrites
import IotExplorer.RequestPackets
import IotExplorer.PacketLengths
import IotExplorer.SubackCodes
import IotExplorer.UnsubscribeTable
import IotExplorer.Basis.Bitmap
import IotExplorer.Basis.Outcomes
import IotExplorer.QqMusicClient
import IotExplorer.QqMusicRuns
import IotExplorer.QqMusicPages
import IotExplorer.RequestEffects
import IotExplorer.SubackTable
import IotExplorer.PublishTopics
import IotExplorer.RemainingLength
import IotExplorer.ConnectUsername
import IotExplorer.ArrayParsers
import IotExplorer.ArrayFormat
import IotExplorer.ArrayRoundTrip
import IotExplorer.StringStore
import IotExplorer.TemplateSends
import IotExplorer.Base64
import IotExplorer.HttpCredentials
import IotExplorer.UrlParser
import IotExplorer.HttpRequest
import IotExplorer.Basis.Absorption
import IotExplorer.Md5
import IotExplorer.FirmwareChecks
import IotExplorer.Basis.Loops
import IotExplorer.ChunkHeaderLoop
import IotExplorer.Basis.Tilings
import IotExplorer.HttpCounters
import IotExplorer.UrlDownload
import IotExplorer.ActionInputs
import IotExplorer.Basis.JsonScan
import IotExplorer.EventDocuments
import IotExplorer.EventObjects
import IotExplorer.EventPosts
import IotExplorer.OtaStrings
import IotExplorer.OtaUpdates
import IotExplorer.GatewayReplies
import IotExplorer.Basis.JsonMarks
import IotExplorer.GatewayMessages
import IotExplorer.GatewayPublished
import IotExplorer.AtOverflows
import IotExplorer.AtPackets
import IotExplorer.LogFragments
import IotExplorer.SavedLogs
import IotExplorer.AsrResults
import IotExplorer.AsrMessages
import IotExplorer.PrintedTexts
import IotExplorer.FileVersions
import IotExplorer.ResourceTasks
import IotExplorer.ResourceReports
import IotExplorer.QqMusicSelections
import IotExplorer.SongTexts
import IotExplorer.KgmusicQueries
import IotExplorer.DevLogs
import IotExplorer.ErrorLogs
import IotExplorer.Basis.Waits
import IotExplorer.DeviceBind
import IotExplorer.DeviceRegistration
import IotExplorer.Basis.LinkedLists
import IotExplorer.NodeLists
import IotExplorer.NodeListRuns
import IotExplorer.Basis.RingQueues
import IotExplorer.RingBuffer
import IotExplorer.UtilsBitmaps
import IotExplorer.StripChars
import IotExplorer.MethodMembers
import IotExplorer.Basis.BlockCiphers
import IotExplorer.Basis.ByteField
import IotExplorer.Basis.ByteWords
import IotExplorer.AesTables
import IotExplorer.AesStandard
import IotExplorer.AesCipher
import IotExplorer.AesCbc
import IotExplorer.RegistrationAnswers
import IotExplorer.Basis.Digests
import IotExplorer.Sha1
import IotExplorer.Basis.Sessions
import IotExplorer.ClientPackets
import IotExplorer.SentPackets
import IotExplorer.PacketOrder
import IotExplorer.Hmac
import IotExplorer.ConnectSignature
