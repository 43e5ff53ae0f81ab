import CodeCollect.Log4cxx.CachedDateFormatTransparency
import CodeCollect.Log4cxx.EffectiveLevel
import CodeCollect.Log4cxx.HierarchyTermination
import CodeCollect.Log4cxx.AsyncAppenderShutdown
import CodeCollect.Log4cxx.LoggerRepositoryRuns
import CodeCollect.Log4cxx.FixedWindowRun
import CodeCollect.Log4cxx.TimeBasedFiling
import CodeCollect.Log4cxx.RollingFileAppenderKept
import CodeCollect.Log4cxx.RollingFileLength
import CodeCollect.Log4cxx.MDC
import CodeCollect.Log4cxx.NDC
import CodeCollect.Log4cxx.NarrowCharsetEncoder
import CodeCollect.Log4cxx.InputStreamReader
import CodeCollect.Log4cxx.CyclicBufferResize
import CodeCollect.Log4cxx.SerializedEvents
import CodeCollect.Log4cxx.HTMLLayoutMarkup
import CodeCollect.Log4cxx.XMLLayoutElement
import CodeCollect.Log4cxx.PropertiesRoundTrip
import CodeCollect.Log4cxx.PropertiesTermination
import CodeCollect.Log4cxx.OptionConverter
import CodeCollect.Log4cxx.SpecialChars
import CodeCollect.Log4cxx.StringHelperInteger
import CodeCollect.Log4cxx.StringHelperFormat
import CodeCollect.Log4cxx.FileSize
import CodeCollect.Log4cxx.FileAppenderPath
import CodeCollect.Log4cxx.LoggingEventContext
import CodeCollect.Log4cxx.SMTPMessage
import CodeCollect.Log4cxx.TelnetAppenderAccounting
import CodeCollect.Log4cxx.SocketAppender
import CodeCollect.Log4cxx.SocketHubAppender
import CodeCollect.Pthreads.CondSignals
import CodeCollect.Pthreads.RobustMutexRecovery
import CodeCollect.Pthreads.SemaphoreConservation
import CodeCollect.Pthreads.EventSemaphoreHandOff
import CodeCollect.Pthreads.BarrierRounds
import CodeCollect.Pthreads.RwLockSafety
import CodeCollect.Pthreads.McsLockRuns
import CodeCollect.Pthreads.ThreadReuseRuns
import CodeCollect.Pthreads.RelativeTime
import CodeCollect.Pthreads.KeyDelete
import CodeCollect.Pthreads.ThreadExit
import CodeCollect.Pthreads.MutexDestroyRuns
import CodeCollect.OpenPano.LinearBlenderPaths
import CodeCollect.OpenPano.BundleAdjusterNormal
import CodeCollect.OpenPano.CameraEstimatorTraverse
import CodeCollect.OpenPano.KDTreeSearch
import CodeCollect.EdgeLinking.CleanEdgeListRun
import CodeCollect.Log4cxx.NameAbbreviatorElements
import CodeCollect.Log4cxx.PatternGrammar
import CodeCollect.OpenPano.BundleAdjusterOptimize
import CodeCollect.OpenPano.Crop
import CodeCollect.OpenPano.PointInPolygon
import CodeCollect.OpenPano.FeatureMatcher
import CodeCollect.OpenPano.MultiBandLevels
import CodeCollect.OpenPano.GaussianBlur
import CodeCollect.OpenPano.MatchInfoRoundTrip
import CodeCollect.Log4cxx.BufferedWriter
import CodeCollect.Log4cxx.SimpleDateFormatRuns
import CodeCollect.AffineTransform.WarpImgAgreement
import CodeCollect.Otsu.MultiOtsuOptimal
import CodeCollect.EdgeLinking.LineSegTolerance
import CodeCollect.EmoOtsu.MthemoInStep
