import WrkQuic.Lib.Outcomes
import WrkQuic.Lib.Runs
import WrkQuic.Lib.RateLine
import WrkQuic.Lib.LogBuckets
import WrkQuic.Lib.CStrings
import WrkQuic.Lib.FdTable
import WrkQuic.Lib.Scanner
import WrkQuic.Lib.Automata
import WrkQuic.Lib.Blocks
import WrkQuic.Lib.TextLines
import WrkQuic.Pacing
import WrkQuic.HdrHistogram
import WrkQuic.HdrMerge
import WrkQuic.Lib.OrderStatistics
import WrkQuic.HdrQueries
import WrkQuic.Lib.PercentileLadder
import WrkQuic.HdrPercentiles
import WrkQuic.HdrRecording
import WrkQuic.Stats
import WrkQuic.Reported
import WrkQuic.WithinStdev
import WrkQuic.Sampling
import WrkQuic.SamplingRuns
import WrkQuic.Units
import WrkQuic.Options
import WrkQuic.Lua
import WrkQuic.ScriptCopy
import WrkQuic.ResponseBuffer
import WrkQuic.ResponseLeak
import WrkQuic.ResponseTable
import WrkQuic.Connection
import WrkQuic.Quic
import WrkQuic.QuicReconnect
import WrkQuic.EventLoop
import WrkQuic.AeTimers
import WrkQuic.AeApi
import WrkQuic.AeEvport
import WrkQuic.AeBackends
import WrkQuic.Tcp
import WrkQuic.HttpParser
import WrkQuic.HttpScan
import WrkQuic.HttpData
import WrkQuic.HttpMarks
import WrkQuic.ReadBoundaries
import WrkQuic.ParserSafety
import WrkQuic.HttpResponse
import WrkQuic.HttpNames
import WrkQuic.HttpOptions
import WrkQuic.HttpValues
import WrkQuic.HttpHeaders
import WrkQuic.HttpMessages
import WrkQuic.TcpEffect
import WrkQuic.TcpLatency
import WrkQuic.TcpParser
import WrkQuic.Timeouts
import WrkQuic.TcpOwnership
import WrkQuic.TcpAnswers
import WrkQuic.TcpBatch
import WrkQuic.TcpConn
import WrkQuic.TcpSeen
import WrkQuic.TcpSimulation
import WrkQuic.TcpCalls
import WrkQuic.TcpRequests
import WrkQuic.TcpTrigger
import WrkQuic.TcpEnd
import WrkQuic.Reconnections
import WrkQuic.Wakeup
import WrkQuic.QuicLatency
import WrkQuic.Recording
import WrkQuic.QuicThreads
import WrkQuic.QuicTimers
import WrkQuic.QuicCnx
import WrkQuic.QuicSlots
import WrkQuic.QuicHandlers
import WrkQuic.QuicWakeup
import WrkQuic.RequestParser
import WrkQuic.RequestScan
import WrkQuic.WrkFormat
import WrkQuic.Pipeline
import WrkQuic.NumericArguments
import WrkQuic.Url
import WrkQuic.Zmalloc
import WrkQuic.ScriptAddr
import WrkQuic.AddrOwnership
import WrkQuic.ArrayPercentiles
import WrkQuic.ScriptRequests
import WrkQuic.RequestTarget
import WrkQuic.UrlFields
import WrkQuic.UrlText
import WrkQuic.UrlRoundTrip
import WrkQuic.RequestHeaders
import WrkQuic.MainLua
import WrkQuic.ScriptInit
import WrkQuic.ScriptDone
