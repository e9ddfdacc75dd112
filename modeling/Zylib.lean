import Zylib.Lib.LittleEndian
import Zylib.Lib.Drain
import Zylib.Lib.Framing
import Zylib.Lib.Run
import Zylib.Lib.Log
import Zylib.Lib.Lists
import Zylib.Lib.Pool
import Zylib.Lib.Heap
import Zylib.Lib.Pattern
import Zylib.Lib.FloatFormat
import Zylib.Cpp
import Zylib.ByteBuffer
import Zylib.ByteQueue
import Zylib.Theorems.ByteBuffer
import Zylib.Theorems.Nel.ByteBuf
import Zylib.Nel.TSock
import Zylib.Theorems.Nel.TSock
import Zylib.Nel.UnifiedConnection
import Zylib.Theorems.Nel.UnifiedConnection
import Zylib.Theorems.Nel.AutoRetry
import Zylib.Theorems.StreamServer.ByteBuffer
import Zylib.StreamServer.CallbackUtility
import Zylib.Theorems.StreamServer.Decode
import Zylib.Theorems.StreamServer.Stream
import Zylib.StreamServer.CallbackServer
import Zylib.Theorems.StreamServer.CallbackServer
import Zylib.Theorems.StreamServer.Delivery
import Zylib.StreamServer.CallbackClient
import Zylib.Theorems.StreamServer.CallbackClient
import Zylib.StreamServer.RWHandler
import Zylib.Theorems.StreamServer.RWHandler
import Zylib.StreamServer.StreamServer
import Zylib.Theorems.StreamServer.StreamServer
import Zylib.ZySoft.Message
import Zylib.ZySoft.MessageDecoder
import Zylib.Theorems.ZySoft.Decode
import Zylib.Theorems.ZySoft.Channel
import Zylib.ZySoft.Channel
import Zylib.Theorems.ZySoft.WriteQueue
import Zylib.Theorems.ZySoft.Received
import Zylib.ZySoft.Net.Buffer
import Zylib.Theorems.ZySoft.Net.Buffer
import Zylib.ZySoft.Net.TcpConnection
import Zylib.Theorems.ZySoft.Net.TcpConnection
import Zylib.ZySoft.Memory.AutoBuffer
import Zylib.Theorems.ZySoft.Memory.AutoBuffer
import Zylib.ZySoft.TimingWheel
import Zylib.Theorems.ZySoft.WheelInv
import Zylib.Theorems.ZySoft.WheelExpiry
import Zylib.KNet.Message
import Zylib.Theorems.KNet.Codec
import Zylib.KNet.TimerManager
import Zylib.KNet.EventManager
import Zylib.Theorems.KNet.Timers
import Zylib.KNet.RPCManager
import Zylib.KNet.UniformNetwork
import Zylib.KNet.System
import Zylib.Theorems.KNet.Steps
import Zylib.Theorems.KNet.Slots
import Zylib.Theorems.KNet.Outcome
import Zylib.Theorems.KNet.Keys
import Zylib.Theorems.KNet.Origins
import Zylib.Theorems.KNet.Correlation
import Zylib.KNet.Producer
import Zylib.Theorems.KNet.Producer
import Zylib.Rediscpp.ConnectionPool
import Zylib.Theorems.Rediscpp.ConnectionPool
import Zylib.Mysqlcpp.ConnectionPool
import Zylib.Theorems.Mysqlcpp.ConnectionPool
import Zylib.Mysqlcpp.Convert
import Zylib.Theorems.Mysqlcpp.Convert
import Zylib.Mysqlcpp.DateTime
import Zylib.Theorems.Mysqlcpp.DateTime
import Zylib.Mysqlcpp.Field
import Zylib.Mysqlcpp.Column
import Zylib.Theorems.Mysqlcpp.Field
import Zylib.Theorems.Nel.AutoRetry
import Zylib.Experimental.Snowflake
import Zylib.Theorems.Experimental.Snowflake
import Zylib.GameServer.ServerHandler
import Zylib.Theorems.GameServer.ServerHandler
import Zylib.FrontendService.World
import Zylib.Theorems.FrontendService.World
import Zylib.Rediscpp.String
import Zylib.Theorems.Rediscpp.String
import Zylib.Mysqlcpp.PreparedStatement
import Zylib.Theorems.Mysqlcpp.PreparedStatement
import Zylib.GameServer.DataBaseService
import Zylib.Theorems.GameServer.DataBaseService
import Zylib.GameServer.World
import Zylib.Theorems.GameServer.World
import Zylib.ZySoft.Net.TcpServer
import Zylib.Theorems.ZySoft.Net.Reports
import Zylib.Theorems.ZySoft.Net.TcpServer
import Zylib.ZySoft.Net.Lifetime
import Zylib.Theorems.ZySoft.Net.Lifetime
import Zylib.Eventserver.EventSession
import Zylib.Theorems.Eventserver.EventSession
import Zylib.KNet.RPCFuture
import Zylib.Theorems.KNet.RPCFuture
import Zylib.StreamServer.StreamClient
import Zylib.Theorems.StreamServer.StreamClient
import Zylib.ZySoft.TcpConnector
import Zylib.Theorems.ZySoft.TcpConnector
import Zylib.Rediscpp.Buffer
import Zylib.Theorems.Rediscpp.Buffer
import Zylib.GameServer.TimerService
import Zylib.Theorems.GameServer.TimerService
import Zylib.Lib.HashStore
import Zylib.GameServer.Redis
import Zylib.GameServer.AccountScripts
import Zylib.GameServer.UserScripts
import Zylib.Theorems.GameServer.AccountScripts
import Zylib.Theorems.GameServer.UserScripts
import Zylib.Misc.Openssl
import Zylib.Theorems.Misc.Openssl
import Zylib.Nel.NSTools
import Zylib.Theorems.Nel.NSTools
import Zylib.Rediscpp.Del
import Zylib.Theorems.Rediscpp.Del
import Zylib.Rediscpp.BufferArray
import Zylib.Rediscpp.Script
import Zylib.Theorems.Rediscpp.BufferArray
import Zylib.Theorems.Rediscpp.Script
import Zylib.VNetwork.ChatMessage
import Zylib.Theorems.VNetwork.ChatMessage
import Zylib.VNetwork.Session
import Zylib.Theorems.VNetwork.Session
import Zylib.Nel.NamingClient
import Zylib.Theorems.Nel.NamingClient
import Zylib.Mysqlcpp.ParamBind
import Zylib.Theorems.Mysqlcpp.ParamBind
import Zylib.Temp.PersistentContainer
import Zylib.Theorems.Temp.PersistentContainer
import Zylib.Lib.Utf8
import Zylib.Temp.Code
import Zylib.Theorems.Temp.Code
import Zylib.ZySoft.Split
import Zylib.Theorems.ZySoft.Split
import Zylib.Lib.Selections
import Zylib.Experimental.Algorithm
import Zylib.Lib.Weights
import Zylib.Experimental.RateGenerator
import Zylib.Theorems.Experimental.Algorithm
import Zylib.Theorems.Experimental.RateGenerator
import Zylib.Lib.BlockHash
import Zylib.ZySoft.Md5
import Zylib.Hashing.IdMD5
import Zylib.Theorems.ZySoft.Md5
import Zylib.Theorems.Hashing.IdMD5
import Zylib.Hashing.IdCRC32
import Zylib.Lib.BitPolynomial
import Zylib.Theorems.Hashing.IdCRC32
import Zylib.Lib.Digits
import Zylib.ZySoft.Base64
import Zylib.Theorems.ZySoft.Base64
import Zylib.Base64
import Zylib.Theorems.Base64
import Zylib.ZySoft.Link
import Zylib.Theorems.ZySoft.Link
import Zylib.VNetwork.TcpServer
import Zylib.Theorems.VNetwork.Reader
import Zylib.Theorems.VNetwork.TcpServer
import Zylib.VNetwork.Delivery
import Zylib.Theorems.VNetwork.Delivery
import Zylib.Lib.Block
import Zylib.ZySoft.StaticString
import Zylib.Theorems.ZySoft.StaticString
import Zylib.ZySoft.StringSearch
import Zylib.Theorems.ZySoft.StringSearch
import Zylib.Lib.Places
import Zylib.ZySoft.IntegerToString
import Zylib.Theorems.ZySoft.IntegerToString
import Zylib.NgxString
import Zylib.Theorems.NgxString
import Zylib.Experimental.ThreadPool
import Zylib.Theorems.Experimental.ThreadPool
import Zylib.Games.FreakOut
import Zylib.Theorems.Games.FreakOut
import Zylib.Lib.Pieces
import Zylib.SimpleWeb.Header
import Zylib.SimpleWeb.ServerHttp
import Zylib.SimpleWeb.ClientHttp
import Zylib.Theorems.SimpleWeb.Header
import Zylib.Theorems.SimpleWeb.ServerHttp
