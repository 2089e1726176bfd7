import OhMySockets.ByteOrder
import OhMySockets.BlockHash
import OhMySockets.Md5Process
import OhMySockets.Helper
import OhMySockets.Network
import OhMySockets.NetworkDecode
import OhMySockets.NetworkEncode
import OhMySockets.Codec
import OhMySockets.Validation
import OhMySockets.AlteredFrames
import OhMySockets.Md5
import OhMySockets.Md5Stream
import OhMySockets.Md5Packets
import OhMySockets.DropQueue
import OhMySockets.CircularBuffer
import OhMySockets.BufferRuns
import OhMySockets.BufferQueue
import OhMySockets.BufferContent
import OhMySockets.BufferFailures
import OhMySockets.Allocation
import OhMySockets.Threads
import OhMySockets.ThreadsSync
import OhMySockets.ThreadsOwnership
import OhMySockets.ThreadsCustody
import OhMySockets.ThreadsLog
import OhMySockets.ThreadsProgress
import OhMySockets.WhileLoop
import OhMySockets.ReadNotLessThan
import OhMySockets.ReadLoop
import OhMySockets.SelectLoop
import OhMySockets.SelectFrames
import OhMySockets.SelectDescriptors
import OhMySockets.SelectPass
import OhMySockets.Decimal
import OhMySockets.Strtoul
import OhMySockets.CsvFile
import OhMySockets.CsvLoop
import OhMySockets.CsvScan
import OhMySockets.CsvFields
import OhMySockets.CsvRoundTrip
import OhMySockets.ForLoop
import OhMySockets.Client
import OhMySockets.ClientLoops
import OhMySockets.ClientStream
import OhMySockets.Delivery
import OhMySockets.Server
import OhMySockets.ServerPacing
import OhMySockets.ServerPass
import OhMySockets.ServerSchedule
import OhMySockets.ParsePort
import OhMySockets.LeftoverErrno
