import Pop3Server.Machine
import Pop3Server.Splitting
import Pop3Server.CStrings
import Pop3Server.Buffer
import Pop3Server.Maildir
import Pop3Server.Messages
import Pop3Server.Settings
import Pop3Server.Session
import Pop3Server.Dispatch
import Pop3Server.HandleClient
import Pop3Server.Outcomes
import Pop3Server.Login
import Pop3Server.Listening
import Pop3Server.Framing
import Pop3Server.Authentication
import Pop3Server.SessionInvariant
import Pop3Server.MessageNumbers
import Pop3Server.Responses
import Pop3Server.Deletion
import Pop3Server.Cells
import Pop3Server.Redirection
import Pop3Server.MarkedView
import Pop3Server.DeleteMarked
import Pop3Server.Server
import Pop3Server.PollLoop
import Pop3Server.PollTable
import Pop3Server.Roster
import Pop3Server.Readiness
import Pop3Server.FailedRecv
import Pop3Server.SessionCalls
import Pop3Server.SlotReuse
import Pop3Server.Ownership
import Pop3Server.Terminated
import Pop3Server.SendFile
import Pop3Server.Retrieval
import Pop3Server.Transfers
import Pop3Server.Answers
import Pop3Server.Pipelining
import Pop3Server.Pieces
import Pop3Server.ManagementClient
import Pop3Server.Receiving
import Pop3Server.Pairing
import Pop3Server.BufferQueue
import Pop3Server.Marking
import Pop3Server.FrozenMailbox
import Pop3Server.IntSums
import Pop3Server.ScanListing
import Pop3Server.NumberArguments
import Pop3Server.MailboxLoading
import Pop3Server.TransferStart
import Pop3Server.InfoDecoding
import Pop3Server.ConnectionMetrics
import Pop3Server.Traffic
import Pop3Server.OctetCounts
import Pop3Server.PartialSends
import Pop3Server.CommandAssembly
import Pop3Server.Arguments
import Pop3Server.UserList
import Pop3Server.SettingsHistory
import Pop3Server.Transformations
import Pop3Server.StringBounds
import Pop3Server.ReadBack
import Pop3Server.Transitions
import Pop3Server.Service
import Pop3Server.SessionLives
import Pop3Server.Noninterference
import Pop3Server.Directories
import Pop3Server.MailFolders
import Pop3Server.Rounds
import Pop3Server.AccessLog
import Pop3Server.MonitoringReplies
import Pop3Server.Descriptors
import Pop3Server.Connections
import Pop3Server.TransferProcesses
import Pop3Server.Conversations
import Pop3Server.Pipes
import Pop3Server.TransformationPipe
import Pop3Server.Folding
import Pop3Server.CommandLine
import Pop3Server.ReachableSettings
