import QLog.Library.Transducer
import QLog.Diag.Packet
import QLog.Diag.Deframer
import QLog.Diag.RoundTrip
import QLog.Diag.Chunking
import QLog.Diag.Bounds
import QLog.Diag.SendCmd
import QLog.Diag.SendLoop
import QLog.Cache.Kfifo
import QLog.Cache.Integrity
import QLog.Cache.LogFile
import QLog.Library.LittleEndian
import QLog.Qmdl.Header
import QLog.Qmdl.Layout
import QLog.Qmdl.LogFile
import QLog.Qmdl.Sessions
import QLog.Qmdl.Databases
import QLog.Qmdl.Handlers
import QLog.Unisoc.LogChannel
import QLog.Unisoc.LogFile
import QLog.Unisoc.Resync
import QLog.Unisoc.BlueScreen
import QLog.Unisoc.ReadBlock
import QLog.Unisoc.WriteRange
import QLog.Unisoc.RecvCmdDeal
import QLog.Unisoc.RegionFile
import QLog.Unisoc.Requires
import QLog.Unisoc.CatchBlueScreen
import QLog.Unisoc.CatchRegion
import QLog.Unisoc.ExitRequest
import QLog.Library.Pattern
import QLog.Unisoc.Trigger
import QLog.Library.Tiling
import QLog.Library.History
import QLog.Sahara.Receive
import QLog.Sahara.Region
import QLog.Sahara.Client
import QLog.Sahara.Order
import QLog.Sahara.Complete
import QLog.Library.CString
import QLog.Sahara.Table
import QLog.Sahara.Writes
import QLog.Sahara.FileName
import QLog.Sahara.Fields
import QLog.Asr.Version
import QLog.Asr.Detection
import QLog.Asr.SendCmd
import QLog.Asr.Ymodem
import QLog.Asr.YmodemFile
import QLog.Library.CNumber
import QLog.Eigen.Dump
import QLog.Eigen.Image
import QLog.Eigen.GetDumpData
import QLog.Eigen.GetInfo
import QLog.Eigen.Reassembly
import QLog.Eigen.Marker
import QLog.Rotation.FileNames
import QLog.Rotation.Rotation
import QLog.Library.LinkedList
import QLog.Library.Rounds
import QLog.Rotation.Cqueue
import QLog.Rotation.Compress
import QLog.Rotation.RemoveLoop
import QLog.Rotation.SizeLimit
import QLog.Ftp.Command
import QLog.Tftp.Transfer
import QLog.Tftp.Upload
import QLog.Tftp.Asserts
import QLog.Server.QServer
import QLog.Server.QFile
import QLog.Library.Crc
import QLog.Diag.AppendCrc16
import QLog.Eigen.Crc16
import QLog.Unisoc.SendCmdComplete
import QLog.Cache.PollWrite
import QLog.Cache.Drops
import QLog.Library.Scanf
import QLog.Options.ParserFtp
import QLog.Options.ParserTcp
import QLog.Options.DeleteLogs
import QLog.Diag.Unescaped
import QLog.Unisoc.AtCommand
import QLog.Unisoc.ApLog
import QLog.Library.DoublyLinked
import QLog.Ftpd.Hash
import QLog.Ftpd.Limits
import QLog.Ftpd.ExactCounts
import QLog.Capture.Loop
import QLog.Capture.Files
import QLog.Capture.Slots
import QLog.Capture.Pipeline
import QLog.Capture.Conservation
import QLog.Ftpd.CommandLine
import QLog.Ftpd.Link
import QLog.Ftpd.Upload
import QLog.Ftpd.Download
import QLog.Ftpd.Privsock
import QLog.Ftpd.DataChannel
import QLog.Ftpd.Handlers
import QLog.Ftpd.Replies
import QLog.Ftp.Collect
