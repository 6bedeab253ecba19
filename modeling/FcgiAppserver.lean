import FcgiAppserver.QueryReference
import FcgiAppserver.BoundaryMatcher
import FcgiAppserver.FormdataRoundtrip
import FcgiAppserver.FormDataStream
import FcgiAppserver.ValueFlushes
import FcgiAppserver.HandlerDispatch
import FcgiAppserver.ExactMappings
import FcgiAppserver.HandlerRemoval
import FcgiAppserver.DbPool
import FcgiAppserver.DbStmt
import FcgiAppserver.PoolOwnership
import FcgiAppserver.PoolWaiting
import FcgiAppserver.PoolWakeups
import FcgiAppserver.PoolLock
import FcgiAppserver.PoolOrder
import FcgiAppserver.PoolDrain
import FcgiAppserver.ConnectionLifetime
import FcgiAppserver.StmtBuffers
import FcgiAppserver.AllocationLedger
import FcgiAppserver.WorkerProcess
import FcgiAppserver.MaintenanceOutage
import FcgiAppserver.WorkerAccounts
import FcgiAppserver.MainProcess
import FcgiAppserver.QuitSequence
import FcgiAppserver.JsonWriter
import FcgiAppserver.JsonBuilder
import FcgiAppserver.JsonReader
import FcgiAppserver.JsonGrammar
import FcgiAppserver.JsonRoundtrip
import FcgiAppserver.JsonHandles
import FcgiAppserver.JsonDestructors
import FcgiAppserver.JsonValidity
import FcgiAppserver.Responses
import FcgiAppserver.PoolReplies
import FcgiAppserver.WpHandler
import FcgiAppserver.SitemapAnswers
import FcgiAppserver.WorkerTurn
import FcgiAppserver.ParserCursors
import FcgiAppserver.HeaderLines
import FcgiAppserver.FieldNames
import FcgiAppserver.PartValues
import FcgiAppserver.MixedEndings
import FcgiAppserver.ContentTypes
import FcgiAppserver.CompleteBodies
import FcgiAppserver.SwallowedErrors
import FcgiAppserver.NaiveSearch
import FcgiAppserver.SitemapPages
import FcgiAppserver.StmtMemory
import FcgiAppserver.StmtRows
import FcgiAppserver.StmtSends
import FcgiAppserver.StmtFits
import FcgiAppserver.DateConversion
import FcgiAppserver.CalendarDays
import FcgiAppserver.UrlLosses
import FcgiAppserver.UrlReads
import FcgiAppserver.QueryOffsets
import FcgiAppserver.PoolCalls
import FcgiAppserver.ServerSafety
import FcgiAppserver.SessionOrder
import FcgiAppserver.ServerRequests
import FcgiAppserver.ServerOutage
import FcgiAppserver.ServerExit
import FcgiAppserver.SitemapUrls
import FcgiAppserver.ResponseHeads
import FcgiAppserver.StoredSitemaps
import FcgiAppserver.BlogPages
