import WebSocketsLib.Client.Equiv.HttpClient
import WebSocketsLib.Client.Equiv.Messages
import WebSocketsLib.Equiv.CloseReason
import WebSocketsLib.Equiv.Closing
import WebSocketsLib.Equiv.Config
import WebSocketsLib.Equiv.ConfigOrder
import WebSocketsLib.Equiv.Dialogue
import WebSocketsLib.Equiv.Download
import WebSocketsLib.Equiv.Echo
import WebSocketsLib.Equiv.Handshake
import WebSocketsLib.Equiv.WsSession
import WebSocketsLib.Http.Equiv.Query
import WebSocketsLib.Http.Equiv.Reflection
import WebSocketsLib.Server.Equiv.ClientCancel
import WebSocketsLib.Server.Equiv.FileTransfer
import WebSocketsLib.Server.Equiv.HeadEnd
import WebSocketsLib.Server.Equiv.HeaderLookup
import WebSocketsLib.Server.Equiv.MountedFiles
import WebSocketsLib.Server.Equiv.ProcessSession
import WebSocketsLib.Server.Equiv.Routes
import WebSocketsLib.Server.Equiv.Sessions
import WebSocketsLib.Server.Equiv.StaticAnswers
import WebSocketsLib.Server.Equiv.StopSignals
import WebSocketsLib.WebSocket.Equiv.CanonicalFrames
import WebSocketsLib.WebSocket.Equiv.CloseLast
import WebSocketsLib.WebSocket.Equiv.ControlFrames
import WebSocketsLib.WebSocket.Equiv.FailedWrite
import WebSocketsLib.WebSocket.Equiv.GracefulClose
import WebSocketsLib.WebSocket.Equiv.ReadStream
import WebSocketsLib.WebSocket.Equiv.WriteQueue
import WebSocketsLib.WebSocket.Equiv.WsFrame
