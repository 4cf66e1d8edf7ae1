import AndroidDebug.TransitionSystem
import AndroidDebug.JavaText
import AndroidDebug.LengthFraming
import AndroidDebug.Custody
import AndroidDebug.ProxyMessageCodec
import AndroidDebug.ProxyClient
import AndroidDebug.ProxyClientSteps
import AndroidDebug.ProxyChannelUse
import AndroidDebug.ProxyChannelBinding
import AndroidDebug.ProxyConnect
import AndroidDebug.WebSocketFrames
import AndroidDebug.CMemory
import AndroidDebug.Base64
import AndroidDebug.WebSocketHandshake
import AndroidDebug.TerminalSessions
import AndroidDebug.WriteOnceTable
import AndroidDebug.FileCache
import AndroidDebug.CheckedFold
import AndroidDebug.SqlUpdate
import AndroidDebug.DatabaseHelper
import AndroidDebug.RowForm
import AndroidDebug.RowEditing
import AndroidDebug.PrefHelper
import AndroidDebug.RequestMachine
import AndroidDebug.DatabaseHandler
import AndroidDebug.StoreRouting
import AndroidDebug.RealServerRegistry
import AndroidDebug.ProxyContainer
import AndroidDebug.Utf8Split
import AndroidDebug.TerminalOutput
import AndroidDebug.WebSocketSessions
import AndroidDebug.SelectedDatabase
import AndroidDebug.FilePaths
import AndroidDebug.UrlDecoder
import AndroidDebug.JavaFile
import AndroidDebug.FileBrowser
import AndroidDebug.FileUpload
import AndroidDebug.OrgJson
import AndroidDebug.PrefRows
import AndroidDebug.LogUtils
import AndroidDebug.LogRotation
import AndroidDebug.WebServerLifecycle
import AndroidDebug.DatabaseNames
import AndroidDebug.UnknownDatabase
import AndroidDebug.UploadProgress
import AndroidDebug.BackPressure
import AndroidDebug.PercentEncoding
import AndroidDebug.QueryRequest
import AndroidDebug.ParameterParser
import AndroidDebug.PathRequests
import AndroidDebug.TextReplace
import AndroidDebug.SqlTokens
import AndroidDebug.TableNameParser
import AndroidDebug.TableQuoting
import AndroidDebug.FileTree
import AndroidDebug.FileDeletion
import AndroidDebug.RowDeletion
import AndroidDebug.ProxyMessageDecoding
import AndroidDebug.WebSocketHeaders
import AndroidDebug.TerminalPort
import AndroidDebug.TemplateTransport
import AndroidDebug.BrowsedFile
import AndroidDebug.ZipArchive
import AndroidDebug.HandshakeSafety
import AndroidDebug.ShellInput
import AndroidDebug.GzipCacheFill
import AndroidDebug.LogCollection
import AndroidDebug.AssetInstall
import AndroidDebug.ServerRestarts
import AndroidDebug.InsertUpdate
import AndroidDebug.EditableFlag
import AndroidDebug.FrameHeader
import AndroidDebug.ReceiveBuffer
import AndroidDebug.Comparators
import AndroidDebug.ListingOrder
import AndroidDebug.Delimiter
import AndroidDebug.ByteSource
import AndroidDebug.MultipartStream
import AndroidDebug.ItemStream
import AndroidDebug.BodyData
import AndroidDebug.PartBoundaries
import AndroidDebug.FileUploadBase
import AndroidDebug.MultipartItems
import AndroidDebug.ItemWalk
import AndroidDebug.UploadNotices
import AndroidDebug.FormHeaders
import AndroidDebug.FormData
import AndroidDebug.CutRequests
import AndroidDebug.DiskFileItem
import AndroidDebug.UploadedForm
