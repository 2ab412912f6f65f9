import CloudSsh.RemoteToTerminal
import CloudSsh.TerminalToRemote
import CloudSsh.KeyboardReadiness
import CloudSsh.RelayTermination
import CloudSsh.ReleaseDiscipline
import CloudSsh.NullHandles
import CloudSsh.OldConnection
import CloudSsh.BlockingModes
import CloudSsh.MainOutcomes
import CloudSsh.OldRelayLoop
import CloudSsh.MethodLists
import CloudSsh.ConnectionLoss
import CloudSsh.WouldBlock
import CloudSsh.Endpoints
import CloudSsh.PrintBounds
import CloudSsh.LeakFreedom
import CloudSsh.ExceptionSafety
import CloudSsh.MainRuns
import CloudSsh.PortForwarding
import CloudSsh.WindowedUploads
import CloudSsh.LossyUploads
import CloudSsh.CompletedUploads
import CloudSsh.ClientList
import CloudSsh.NetconfConversation
import CloudSsh.CompletedDownloads
import CloudSsh.CompletedEcho
import CloudSsh.AgentRuns
import CloudSsh.PromptResponses
