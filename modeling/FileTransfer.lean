import FileTransfer.RaisingProgram
import FileTransfer.ByteField
import FileTransfer.PathWalk
import FileTransfer.StepRun
import FileTransfer.DrivenLoop
import FileTransfer.ServerProtocol
import FileTransfer.ServerTables
import FileTransfer.ServerState
import FileTransfer.ServerFiles
import FileTransfer.ServerDatabase
import FileTransfer.ServerHandlers
import FileTransfer.ServerThread
import FileTransfer.ServerFrames
import FileTransfer.ServerSystem
import FileTransfer.DatabaseFile
import FileTransfer.LockRelease
import FileTransfer.FileStoreRefinement
import FileTransfer.PathConfinement
import FileTransfer.CrcAnswers
import FileTransfer.ApprovalAnswers
import FileTransfer.DurableFiles
import FileTransfer.ClientIsolation
import FileTransfer.ClientChannel
import FileTransfer.MessageRoundTrip
import FileTransfer.SendFileReassembly
import FileTransfer.Segmentation
import FileTransfer.ClientFile
import FileTransfer.ClientLogic
import FileTransfer.TransferAnswers
import FileTransfer.TransferSession
import FileTransfer.TransferIntegrity
import FileTransfer.ClientWrites
import FileTransfer.WireFormat
import FileTransfer.ClientColumns
import FileTransfer.Registry
import FileTransfer.KeyAgreement
import FileTransfer.ClientDialogue
import FileTransfer.ProtocolOrder
import FileTransfer.QueueSafety
import FileTransfer.RequestAnswers
import FileTransfer.Lockstep
import FileTransfer.FirstUpload
import FileTransfer.CorruptedUpload
import FileTransfer.LineStream
import FileTransfer.Base64
import FileTransfer.ClientConfig
import FileTransfer.RegisteredRestart
import FileTransfer.FileReceiveLoop
import FileTransfer.ChecksumAgreement
import FileTransfer.ServerWrite
import FileTransfer.ReadBuffers
import FileTransfer.ResponseDispatch
import FileTransfer.CrcRetryLoop
import FileTransfer.RetryLaw
import FileTransfer.OwnUpload
import FileTransfer.DatabaseFailures
import FileTransfer.RowUpdates
import FileTransfer.StoreAtomicity
import FileTransfer.ClientIdentity
import FileTransfer.DecimalText
import FileTransfer.SocketParams
import FileTransfer.ClientStart
import FileTransfer.DeclaredSizes
import FileTransfer.NameCopies
import FileTransfer.FileLines
import FileTransfer.Simulation
import FileTransfer.ServerService
import FileTransfer.ConnectionScript
import FileTransfer.ServerEffects
import FileTransfer.ServerHistory
import FileTransfer.FileProvenance
import FileTransfer.CalmServer
import FileTransfer.CalmClient
import FileTransfer.CalmTransfer
import FileTransfer.ClientNetwork
import FileTransfer.BlockChaining
import FileTransfer.AesWrapper
import FileTransfer.PacketFormat
import FileTransfer.RequestFormat
import FileTransfer.CalmNeighbours
import FileTransfer.CalmNetwork
import FileTransfer.ClientProgram
import FileTransfer.ProgramLives
