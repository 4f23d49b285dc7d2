import PdsBackup.Server.Failures
import PdsBackup.Server.Confinement
import PdsBackup.Server.Agreement
import PdsBackup.Server.Concurrency
import PdsBackup.Server.Interleaving
import PdsBackup.Server.Stops
import PdsBackup.Server.Careful
import PdsBackup.Server.Times
import PdsBackup.Client.EventQueue
import PdsBackup.Client.Ledger
import PdsBackup.Client.Names
import PdsBackup.Client.Scan
import PdsBackup.Common.Refresh
import PdsBackup.Common.RelativePaths
import PdsBackup.Common.TlsSocket
import PdsBackup.System.RoundTrip
import PdsBackup.System.Transfers
import PdsBackup.System.Connections
import PdsBackup.Common.HexCodec
import PdsBackup.Common.MachineRing
import PdsBackup.Common.RingSizes
import PdsBackup.Common.PathForm
import PdsBackup.Common.MacAddress
import PdsBackup.Common.FolderNames
import PdsBackup.Common.StoredFile
import PdsBackup.Client.Progress
import PdsBackup.Server.Removal
import PdsBackup.System.Configuration
import PdsBackup.System.StoredFiles
import PdsBackup.Server.Shutdown
import PdsBackup.Client.Shutdown
import PdsBackup.Client.Retries
import PdsBackup.System.Recovery
