import AtlasWebServer.AsyncLog
import AtlasWebServer.CandidateNames
import AtlasWebServer.ConcurrentLogins
import AtlasWebServer.ConnectionPoolAccounts
import AtlasWebServer.ConnectionPort
import AtlasWebServer.ContentLength
import AtlasWebServer.DownloadHeaders
import AtlasWebServer.DownloadSizes
import AtlasWebServer.FileNameEncoding
import AtlasWebServer.FileStatements
import AtlasWebServer.FolderTree
import AtlasWebServer.HeaderFraming
import AtlasWebServer.HeaderParameters
import AtlasWebServer.HttpChunkedBodies
import AtlasWebServer.JsonRoundTrip
import AtlasWebServer.MpmcQueueSafety
import AtlasWebServer.MultipartRoundTrip
import AtlasWebServer.PublicFiles
import AtlasWebServer.RateLimitKeys
import AtlasWebServer.ReadEvents
import AtlasWebServer.RequestTargets
import AtlasWebServer.ResponseFraming
import AtlasWebServer.SessionRevocation
import AtlasWebServer.ShareLimits
import AtlasWebServer.SpoolReads
import AtlasWebServer.StoredNames
import AtlasWebServer.SubReactor
import AtlasWebServer.ThreadPoolBounds
import AtlasWebServer.ThreadPoolTokens
import AtlasWebServer.TimerTicks
import AtlasWebServer.TransferCoding
import AtlasWebServer.UploadFailures
import AtlasWebServer.UploadQuota
