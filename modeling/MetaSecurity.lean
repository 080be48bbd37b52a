import MetaSecurity.Library.Shell.Read
import MetaSecurity.Library.Shell.Expand
import MetaSecurity.Ima.Policy
import MetaSecurity.Ima.Loading
import MetaSecurity.Ima.Faithful
import MetaSecurity.Ima.AllOrFatal
import MetaSecurity.Library.Hexadecimal
import MetaSecurity.Library.Shell.Variables
import MetaSecurity.Verity.Setup
import MetaSecurity.Verity.Boot
import MetaSecurity.Verity.Report
import MetaSecurity.Verity.FailClosed
import MetaSecurity.Verity.Uuid
import MetaSecurity.Verity.Environment
import MetaSecurity.Verity.Encoding
import MetaSecurity.Verity.Status
import MetaSecurity.Library.Rounding
import MetaSecurity.Verity.Agreement
import MetaSecurity.Library.Shell.Errexit
import MetaSecurity.Signing.Coverage
import MetaSecurity.Aide.Rules
import MetaSecurity.Aide.Database
import MetaSecurity.Aide.Contents
import MetaSecurity.Library.Python
import MetaSecurity.Questions.Script
import MetaSecurity.Questions.Rewriting
import MetaSecurity.Questions.Effect
import MetaSecurity.Questions.Silence
import MetaSecurity.Questions.OneQuestion
import MetaSecurity.Questions.Answers
import MetaSecurity.Library.Exceptions
import MetaSecurity.Questions.Replacing
import MetaSecurity.Library.Shell.Padding
import MetaSecurity.Verity.ParseTime
import MetaSecurity.Verity.Readers
import MetaSecurity.Verity.Waiting
import MetaSecurity.Verity.Timeout
import MetaSecurity.Verity.Resolution
import MetaSecurity.Library.Shell.Folding
import MetaSecurity.Verity.Folded
import MetaSecurity.Verity.RoundTrip
import MetaSecurity.Library.Backtracking
import MetaSecurity.Library.Rows
import MetaSecurity.Signing.Fstab
import MetaSecurity.Signing.EditedLines
import MetaSecurity.Signing.Rerun
import MetaSecurity.Signing.Columns
import MetaSecurity.Library.Sed
import MetaSecurity.Signing.SignatureLists
import MetaSecurity.Library.Buffers
import MetaSecurity.Tpm.LoadSrk
import MetaSecurity.Tpm.StandIns
import MetaSecurity.Tpm.Overrun
import MetaSecurity.Library.Traces
import MetaSecurity.Arpwatch.Init
import MetaSecurity.Arpwatch.Instances
import MetaSecurity.Arpwatch.Separation
import MetaSecurity.Library.Journal
import MetaSecurity.Library.Perl
import MetaSecurity.Bastille.Files
import MetaSecurity.Bastille.Revert
import MetaSecurity.Bastille.Footprint
import MetaSecurity.Bastille.Sums
import MetaSecurity.Library.Supervision
import MetaSecurity.Services.ByExecutable
import MetaSecurity.Services.ByPidFile
import MetaSecurity.Services.ByPidof
import MetaSecurity.Packages.Chksec
import MetaSecurity.Packages.Groups
import MetaSecurity.Packages.Summary
import MetaSecurity.Questions.Rerun
import MetaSecurity.Tripwire.Install
import MetaSecurity.Tripwire.Kept
import MetaSecurity.Arpwatch.Commands
import MetaSecurity.Bastille.UpToDate
import MetaSecurity.Library.Context
import MetaSecurity.Packages.Chroot
