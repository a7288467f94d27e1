import Ltp.Library.Memory
import Ltp.Library.CText
import Ltp.Doio.Pattern
import Ltp.Library.CInt
import Ltp.Lib.Kvercmp
import Ltp.Lib.RandomRange
import Ltp.Pan.Zoolib
import Ltp.Pan.Scheduler
import Ltp.Pan.SchedulerInv
import Ltp.Pan.SchedulerRuns
import Ltp.Pan.SchedulerZoo
import Ltp.Pan.SchedulerModes
import Ltp.Pan.SchedulerExit
import Ltp.Doio.Iogen
import Ltp.Pan.Symbol
import Ltp.Library.PathMap
import Ltp.Doio.WriteLog
import Ltp.Library.Bytes
import Ltp.Doio.WriteLogScan
import Ltp.Library.Crc
import Ltp.Lib.Checksum
import Ltp.Lib.Timer
import Ltp.Doio.StringToTokens
import Ltp.Library.Bits
import Ltp.Lib.RandomBit
import Ltp.Lib.Tlibio
import Ltp.Library.OnesComplement
import Ltp.NsTools.NsCommon
import Ltp.Lib.TstNet
import Ltp.Library.Inet
import Ltp.Lib.TstNetVars
import Ltp.Pan.Collection
import Ltp.Library.Lex
import Ltp.Pan.Scan
import Ltp.NsTools.IcmpRedirector
import Ltp.Pan.Splitstr
import Ltp.Lib.SafeFileOps
import Ltp.Lib.TimerTest
import Ltp.Lib.HexDump
import Ltp.Lib.TstRes
import Ltp.Pan.Report
import Ltp.Library.Schedule
import Ltp.Lib.FuzzySync
