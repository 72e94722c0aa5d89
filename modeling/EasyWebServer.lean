import EasyWebServer.Lib.CString
import EasyWebServer.Lib.CharBuf
import EasyWebServer.Lib.CInt
import EasyWebServer.Lib.StringAt
import EasyWebServer.Lib.CrlfScan
import EasyWebServer.Lib.CrlfLine
import EasyWebServer.Lib.RequestLine
import EasyWebServer.Lib.LexicalPath
import EasyWebServer.Lib.Loop
import EasyWebServer.Lib.Message
import EasyWebServer.Lib.Monitor
import EasyWebServer.Lib.PriorityQueue
import EasyWebServer.Lib.SqlLiteral
import EasyWebServer.Lib.CircularArray
import EasyWebServer.Lib.Transition
import EasyWebServer.Lib.Refinement
import EasyWebServer.Lib.Threads
import EasyWebServer.Lib.Descriptors
import EasyWebServer.Lib.RoundRobin
import EasyWebServer.Lib.Calendar
import EasyWebServer.Lib.SelfPipe
import EasyWebServer.Common.Conn
import EasyWebServer.Common.ParseLine
import EasyWebServer.Common.ProcessRead
import EasyWebServer.Common.Calls
import EasyWebServer.Common.ServedPath
import EasyWebServer.Post.Conn
import EasyWebServer.Post.Parser
import EasyWebServer.Post.RequestLine
import EasyWebServer.Post.Frame
import EasyWebServer.Post.Accounts
import EasyWebServer.Post.Registration
import EasyWebServer.Post.Request
import EasyWebServer.Post.SqlInsert
import EasyWebServer.Post.Credentials
import EasyWebServer.Post.Segmentation
import EasyWebServer.Post.Body
import EasyWebServer.Post.LineScanner
import EasyWebServer.Post.ContentLength
import EasyWebServer.Post.LineEdit
import EasyWebServer.Post.Stream
import EasyWebServer.Post.LineErrors
import EasyWebServer.Post.Response
import EasyWebServer.Post.ResponseBuffer
import EasyWebServer.Post.Sender
import EasyWebServer.Post.Process
import EasyWebServer.Post.ParserIndices
import EasyWebServer.Post.Mappings
import EasyWebServer.Post.Isolation
import EasyWebServer.Post.ServedPath
import EasyWebServer.Post.KeepAlive
import EasyWebServer.Post.RealFile
import EasyWebServer.Post.HeapTimer
import EasyWebServer.Post.Server
import EasyWebServer.Post.Slots
import EasyWebServer.Post.AcceptBound
import EasyWebServer.Post.TimerSet
import EasyWebServer.Post.WebServer
import EasyWebServer.Post.Timeouts
import EasyWebServer.Post.TimerObjects
import EasyWebServer.Post.IdleBound
import EasyWebServer.Post.Signals
import EasyWebServer.Post.OneShot
import EasyWebServer.Post.Stranded
import EasyWebServer.Post.BlockQueue
import EasyWebServer.Post.QueueFront
import EasyWebServer.Post.QueueThreads
import EasyWebServer.Post.AsyncLog
import EasyWebServer.Post.WriteLog
import EasyWebServer.Post.LogRotation
import EasyWebServer.Post.ConnectionPool
import EasyWebServer.Post.Threadpool
import EasyWebServer.Post.QueueBound
import EasyWebServer.Post.Workers
import EasyWebServer.Get.Conn
import EasyWebServer.Get.Parser
import EasyWebServer.Get.Request
import EasyWebServer.Get.RequestLine
import EasyWebServer.Get.ServedPath
import EasyWebServer.Get.RealFile
import EasyWebServer.Get.Response
import EasyWebServer.Get.Sender
import EasyWebServer.Get.Server
import EasyWebServer.Get.Lifecycle
import EasyWebServer.Get.Backlog
import EasyWebServer.Get.Agreement
import EasyWebServer.Get.RequestText
import EasyWebServer.Cgi.ProcessPool
import EasyWebServer.Cgi.Backlog
import EasyWebServer.Cgi.Dispatch
import EasyWebServer.Cgi.Roster
import EasyWebServer.Cgi.Family
import EasyWebServer.Cgi.Shutdown
import EasyWebServer.Cgi.Conn
import EasyWebServer.Confinement
import EasyWebServer.Post.RoundTrip
import EasyWebServer.Post.Site
import EasyWebServer.Post.Session
