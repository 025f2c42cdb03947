import SystemProgramming.Lib.Machine
import SystemProgramming.Lib.Threads
import SystemProgramming.Midterm.Sync
import SystemProgramming.Midterm.SyncProgress
import SystemProgramming.Copy.Buffer
import SystemProgramming.Lib.CondVar
import SystemProgramming.Copy.BoundedBuffer
import SystemProgramming.Copy.Pipeline
import SystemProgramming.Copy.PipelineSafety
import SystemProgramming.Copy.Directory
import SystemProgramming.Copy.Mirror
import SystemProgramming.Copy.Program
import SystemProgramming.Copy.PipelineProgress
import SystemProgramming.Lib.Bytes
import SystemProgramming.Lib.Fifo
import SystemProgramming.SumMult.Processes
import SystemProgramming.SumMult.Ends
import SystemProgramming.SumMult.Delivery
import SystemProgramming.SumMult.Overflow
import SystemProgramming.SumMult.Cleanup
import SystemProgramming.SumMult.ExitRuns
import SystemProgramming.Midterm.Accept
import SystemProgramming.Midterm.Admission
import SystemProgramming.Lib.Object
import SystemProgramming.Lib.Monitor
import SystemProgramming.Midterm.QueueRuns
import SystemProgramming.Midterm.QueueDestructor
import SystemProgramming.Lib.CText
import SystemProgramming.Lib.Lines
import SystemProgramming.Lib.Prog
import SystemProgramming.Midterm.Calls
import SystemProgramming.Midterm.Request
import SystemProgramming.Midterm.Paths
import SystemProgramming.Midterm.Brackets
import SystemProgramming.Midterm.LineEdit
import SystemProgramming.Parking.Lot
import SystemProgramming.Parking.Accounting
import SystemProgramming.Parking.Ending
import SystemProgramming.Parking.Signals
import SystemProgramming.Parking.Shutdown
import SystemProgramming.Midterm.FileTable
import SystemProgramming.Midterm.Clients
import SystemProgramming.Midterm.Registry
import SystemProgramming.Midterm.Vanishing
import SystemProgramming.Midterm.TryConnect
import SystemProgramming.Midterm.DownloadRace
import SystemProgramming.Midterm.FileSections
import SystemProgramming.Midterm.CommandLoop
import SystemProgramming.Midterm.Listing
import SystemProgramming.Midterm.Ledger
import SystemProgramming.Midterm.LineScan
import SystemProgramming.Midterm.FileAnswers
import SystemProgramming.Midterm.ReadLine
import SystemProgramming.Midterm.ReplaceLine
import SystemProgramming.Midterm.WriteText
import SystemProgramming.Midterm.StaleMemory
import SystemProgramming.Midterm.Answers
import SystemProgramming.Lib.Environment
import SystemProgramming.Midterm.Host
import SystemProgramming.Midterm.HostRuns
import SystemProgramming.Midterm.ClientLoop
import SystemProgramming.Midterm.Transfers
import SystemProgramming.Copy.Descriptors
import SystemProgramming.Copy.Overlap
import SystemProgramming.Copy.Completed
import SystemProgramming.Lib.BubbleSort
import SystemProgramming.Grades.Commands
import SystemProgramming.Grades.Records
import SystemProgramming.Grades.Sorting
import SystemProgramming.Grades.Pages
import SystemProgramming.Copy.FileCopies
import SystemProgramming.Copy.TreeCopy
import SystemProgramming.Lib.Service
import SystemProgramming.Midterm.Store
import SystemProgramming.Midterm.Session
import SystemProgramming.Midterm.Notebook
import SystemProgramming.Grades.Gradebook
import SystemProgramming.Grades.GradeSession
import SystemProgramming.Lib.Dialogue
import SystemProgramming.Midterm.Conversation
import SystemProgramming.Lib.Crowd
import SystemProgramming.Midterm.Concurrent
import SystemProgramming.Midterm.Serializable
import SystemProgramming.Midterm.ClientLink
import SystemProgramming.Midterm.Framing
