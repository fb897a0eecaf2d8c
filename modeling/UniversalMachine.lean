import UniversalMachine.Console.World
import UniversalMachine.Device.Writer
import UniversalMachine.Main
import UniversalMachine.Proofs.FileGrammar
import UniversalMachine.Proofs.Freshness
import UniversalMachine.Proofs.InstructionEffect
import UniversalMachine.Proofs.Numbering
import UniversalMachine.Proofs.PlainOutput
import UniversalMachine.Proofs.UndoStack
import UniversalMachine.Proofs.Decoding
import UniversalMachine.Proofs.ScreenEvents
import UniversalMachine.Proofs.ScreenStatus
import UniversalMachine.Proofs.TranscriptPane
import UniversalMachine.Proofs.Settling
import UniversalMachine.Proofs.ConsoleAgreement
import UniversalMachine.Proofs.FileAccess
import UniversalMachine.Proofs.SavedSessions
import UniversalMachine.Proofs.LastWrite
import UniversalMachine.Proofs.UndoBudget
import UniversalMachine.Proofs.DamagedFile
import UniversalMachine.Proofs.Restoring
import UniversalMachine.Proofs.ArgumentOrder
import UniversalMachine.Proofs.CommandGrammar
import UniversalMachine.Proofs.FailingWriter
import UniversalMachine.Proofs.CommandReply
import UniversalMachine.Proofs.HandleIssue
import UniversalMachine.Proofs.ImageLayout
import UniversalMachine.Proofs.InPlace
import UniversalMachine.Proofs.ScreenLoop
import UniversalMachine.Proofs.UndoneState
