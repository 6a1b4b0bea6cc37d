import SalamanderSftp.Lib.Components
import SalamanderSftp.Lib.Journal
import SalamanderSftp.Lib.Procedure
import SalamanderSftp.Lib.Steering
import SalamanderSftp.Lib.Transducer
import SalamanderSftp.Text
import SalamanderSftp.Path
import SalamanderSftp.LocalPath
import SalamanderSftp.Connection.Transfer
import SalamanderSftp.Connection.TransferComplete
import SalamanderSftp.Connection.Writes
import SalamanderSftp.Connection.ResumedContent
import SalamanderSftp.Connection.Leftover
import SalamanderSftp.Connection.Listing
import SalamanderSftp.Connection.ListingComplete
import SalamanderSftp.Worker.Accounting
import SalamanderSftp.Worker.Answers
import SalamanderSftp.Worker.ApplyToAll
import SalamanderSftp.Worker.AlternateName
import SalamanderSftp.Worker.Conflict
import SalamanderSftp.Worker.Overwrite
import SalamanderSftp.Worker.Recursion
import SalamanderSftp.Worker.Resume
import SalamanderSftp.Worker.Runs
import SalamanderSftp.Worker.Steering
import SalamanderSftp.Worker.Containment
import SalamanderSftp.Worker.Move
import SalamanderSftp.Worker.Ownership
import SalamanderSftp.Worker.Pause
import SalamanderSftp.Worker.TreeComplete
import SalamanderSftp.Connection.Commands
import SalamanderSftp.Connection.Channel
import SalamanderSftp.Connection.ConsoleOutput
import SalamanderSftp.Connection.LsText
import SalamanderSftp.Connection.UploadPaths
import SalamanderSftp.Connection.Wrap
import SalamanderSftp.Connection.Execute
import SalamanderSftp.Connection.FastDirSize
import SalamanderSftp.Connection.HostKeySave
import SalamanderSftp.Fs.ChangePath
import SalamanderSftp.Fs.Configuration
import SalamanderSftp.Fs.CopyTarget
import SalamanderSftp.Fs.Deletion
import SalamanderSftp.Fs.DirSize
import SalamanderSftp.Fs.EditFile
import SalamanderSftp.Fs.PlainNames
import SalamanderSftp.Fs.Progress
import SalamanderSftp.Fs.SearchDirectory
import SalamanderSftp.Fs.SessionManager
import SalamanderSftp.Fs.TargetPaths
import SalamanderSftp.Fs.TempDirTouched
import SalamanderSftp.Fs.ViewerCache
import SalamanderSftp.Connection.SshField
import SalamanderSftp.Connection.AncestorChain
import SalamanderSftp.Connection.Ppk
import SalamanderSftp.Worker.GeneratedName
import SalamanderSftp.Fs.HotPaths
import SalamanderSftp.Fs.SessionRows
import SalamanderSftp.Fs.Questions
import SalamanderSftp.Fs.Synchronize
import SalamanderSftp.Lib.Handles
import SalamanderSftp.Lib.BigEndian
import SalamanderSftp.Connection.PpkAuth
import SalamanderSftp.Connection.Lifecycle
import SalamanderSftp.Connection.ConsoleWindow
import SalamanderSftp.Connection.KnownHostsFile
import SalamanderSftp.Connection.Attempts
import SalamanderSftp.Fs.TransferDialogs
import SalamanderSftp.Fs.TransferClosing
import SalamanderSftp.Fs.PanelNavigation
import SalamanderSftp.Fs.FileBranch
import SalamanderSftp.Fs.ServerMove
