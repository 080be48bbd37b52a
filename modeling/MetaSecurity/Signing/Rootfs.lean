import MetaSecurity.Library.Python
import MetaSecurity.Library.Shell.Errexit
import MetaSecurity.Library.Shell.Read
import Mathlib.Logic.Function.Basic

/-!
# Signing the root file system

`ima_evm_sign_rootfs` of `ima-evm-rootfs.bbclass`. BitBake runs the function under `sh -e` in
`IMAGE_ROOTFS`. The state is the regular files below that directory; directories and symbolic
links are not part of it, so whether a path can be written is left to the tools, as is what the
regular expression of the fstab edit does to the file.
-/

namespace MetaSecurity.Signing

open Library Shell

/-- The components of a path below `IMAGE_ROOTFS`. -/
abbrev Path := List Text

/-- A regular file and its extended attribute `security.ima`. -/
structure File where
  content : Text
  signature : Option Text
  deriving Repr, DecidableEq

/-- The regular files below `IMAGE_ROOTFS`. -/
abbrev Rootfs := Path → Option File

/-! ## Files -/

/-- A new file in the place of whatever was there; it has no signature. -/
def create (path : Path) (content : Text) (rootfs : Rootfs) : Rootfs :=
  Function.update rootfs path (some ⟨content, none⟩)

/-- `> path`: a file that is there is rewritten in place and keeps its attributes. -/
def redirect (path : Path) (content : Text) (rootfs : Rootfs) : Rootfs :=
  Function.update rootfs path (some ⟨content, (rootfs path).bind File.signature⟩)

/-- `rm -f path`. -/
def remove (path : Path) (rootfs : Rootfs) : Rootfs :=
  Function.update rootfs path none

/-! ## Tools -/

/-- The steps that can fail because of the directories: `install -d`, `rm -f`, `install` and an
output redirection. -/
inductive Operation where
  | installDirectory
  | remove
  | install
  | redirect
  deriving Repr, DecidableEq

/-- `after` is `before` with the selected files signed: each of them has a signature that matches
its content, and the others are as they were. -/
structure SignedWhere (verifies : Text → Text → Bool) (selected : Path → Bool)
    (before after : Rootfs) : Prop where
  others : ∀ path, selected path = false → after path = before path
  signed : ∀ path file, selected path = true → after path = some file →
    ∃ signature, file.signature = some signature ∧ verifies signature file.content = true

/-- The programs that the function calls. `sign` gets the options, the key and the files to sign,
and signs all of them unless it fails; `verifies signature content` says that a signature matches a
content. The arguments of `elfClass` are those of `file`, and its result is what
`grep -o 'ELF .*-bit'` leaves. -/
structure Tools where
  perl : Text → Text → Option Text
  elfClass : Path → Rootfs → Text
  sign : Text → Text → (Path → Bool) → Command Rootfs
  imaVerify : Text → Text → Path → Rootfs → Bool
  verify : Text → Text → Path → Rootfs → Bool
  hostFile : Text → Option Text
  getfattr : Text → Rootfs → Text
  refuses : Operation → Path → Rootfs → Bool
  verifies : Text → Text → Bool
  sign_done : ∀ {options key selected before after},
    sign options key selected before = .done after → SignedWhere verifies selected before after

/-! ## Configuration -/

/-- The BitBake variables that the function reads. A variable that names a file is `none` when it
is not set; the two lists are named by paths below `IMAGE_ROOTFS`. -/
structure Config where
  sysconfdir : Path
  imaEvmPrivkey : Text
  imaEvmX509 : Text
  imaEvmRootfsIversion : Text
  imaEvmPolicy : Option Text
  imaFileSignaturesFile : Option Path
  evmFileSignaturesFile : Option Path

/-- The directory `/etc`. -/
def etc : Path := ["etc".toList]

/-- The file whose mount options are edited. -/
def fstab : Path := etc ++ ["fstab".toList]

/-- The file that tells the word size and on which the keys are tried. -/
def libc : Path := ["lib".toList, "libc.so.6".toList]

/-- The part of the policy's path below the configuration directory. -/
def imaPolicy : Path := ["ima".toList, "ima-policy".toList]

/-- Where the policy is installed: `./${sysconfdir}/ima/ima-policy`. -/
def Config.policyFile (c : Config) : Path :=
  c.sysconfdir ++ imaPolicy

/-- What is signed after the policy was installed: `${IMAGE_ROOTFS}/etc/ima/ima-policy`. -/
def signedPolicy : Path := etc ++ imaPolicy

/-- The mount point that stands for an empty list. -/
def noSuchMountPoint : Text := "no-such-mount-point".toList

/-- The alternatives of the regular expression:
`"|".join((d.getVar("IMA_EVM_ROOTFS_IVERSION") or "no-such-mount-point").split())`. -/
def Config.mountPoints (c : Config) : Text :=
  let value := if c.imaEvmRootfsIversion = [] then noSuchMountPoint else c.imaEvmRootfsIversion
  List.intercalate ['|'] (Python.words value)

/-! ## The function -/

/-- The edit of `etc/fstab`, which `perl -pi` writes to a new file. -/
def fixFstab (c : Config) (tools : Tools) : Command Rootfs := fun rootfs =>
  match rootfs fstab with
  | none => .done rootfs
  | some file =>
      match tools.perl c.mountPoints file.content with
      | none => .stopped rootfs
      | some content => .done (create fstab content rootfs)

/-- The option for the word size; another one ends the function. -/
def evmctlParam (elfClass : Text) : Option Text :=
  if elfClass = "ELF 32-bit".toList then some "--m32".toList
  else if elfClass = "ELF 64-bit".toList then some []
  else none

/-- A step that has its effect unless it is refused. -/
def attempt (tools : Tools) (operation : Operation) (path : Path) (effect : Rootfs → Rootfs) :
    Command Rootfs := fun rootfs =>
  if tools.refuses operation path rootfs then .stopped rootfs else .done (effect rootfs)

/-- `install source path`. -/
def install (tools : Tools) (source : Text) (path : Path) : Command Rootfs := fun rootfs =>
  match tools.hostFile source with
  | none => .stopped rootfs
  | some content => attempt tools .install path (create path content) rootfs

/-- Install and sign the policy, when there is one. -/
def installPolicy (c : Config) (tools : Tools) (options : Text) : Command Rootfs :=
  match c.imaEvmPolicy with
  | none => Outcome.done
  | some source => inOrder [
      attempt tools .installDirectory c.policyFile.dropLast id,
      attempt tools .remove c.policyFile (remove c.policyFile),
      install tools source c.policyFile,
      tools.sign options c.imaEvmPrivkey fun path => path = signedPolicy]

/-- Write the names of the files and one of their attributes to a list; `getfattr` runs when the
redirection has already emptied the list. -/
def writeSignatures (tools : Tools) (name : Text) (list : Option Path) : Command Rootfs :=
  match list with
  | none => Outcome.done
  | some path => attempt tools .redirect path fun rootfs =>
      redirect path (tools.getfattr name (redirect path [] rootfs)) rootfs

/-- The part of the function that follows the detection of the word size. -/
def signWith (c : Config) (tools : Tools) (options : Text) : Command Rootfs :=
  inOrder [
    tools.sign options c.imaEvmPrivkey fun _ => true,
    require (tools.imaVerify options c.imaEvmX509 libc),
    require (tools.verify options c.imaEvmX509 libc),
    installPolicy c tools options,
    writeSignatures tools "security.ima".toList c.imaFileSignaturesFile,
    writeSignatures tools "security.evm".toList c.evmFileSignaturesFile]

/-- `ima_evm_sign_rootfs`. -/
def imaEvmSignRootfs (c : Config) (tools : Tools) : Command Rootfs :=
  andThen (fixFstab c tools) fun rootfs =>
    match evmctlParam (tools.elfClass libc rootfs) with
    | none => .stopped rootfs
    | some options => signWith c tools options rootfs

end MetaSecurity.Signing
