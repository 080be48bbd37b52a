import MetaSecurity.Library.FailStop
import MetaSecurity.Library.Shell.Expand

/-!
# The initramfs module that loads the IMA policy

`ima_run` of `initramfs-framework-ima/ima`: mount securityfs, check that the kernel has IMA, and
write `/etc/ima/ima-policy` to the kernel rule by rule. The loop is

    while read i; do if echo "$i" | grep -q -e '^#' -e '^ *$'; then debug ..; else debug ..;
      if echo $i; then sleep ..; else fatal ..; exit 1; fi; fi; done

inside a subshell whose status is the condition of an `if`, so `set -e` has no effect in it. The
framework's `fatal` does not return. The installation of the keys that precedes the loop has no
influence on the policy or on `fatal`, and is left out.
-/

namespace MetaSecurity.Ima

open Library Shell

/-- What the module finds in the initramfs and how the commands it calls behave: whether
securityfs is mounted or can be, whether the kernel has IMA, the shell's `echo`, the directory for
pathname expansion, and the exit statuses of the framework's `debug` and of `sleep`. -/
structure Initramfs where
  securityfsMounted : Bool
  mountSucceeds : Bool
  hasIma : Bool
  echo : Echo
  pathname : PathnameExpansion
  debugStatus : Nat
  sleepStatus : Nat

/-- `echo "$i" | grep -q -e '^#' -e '^ *$'` succeeds. -/
def skipped (echo : Echo) (i : Text) : Bool :=
  (allRecords '\n' (echo.output [i])).any fun line => line.head? = some '#' || line.all (· = ' ')

/-- What `echo $i` writes. -/
def ruleText (echo : Echo) (pathname : PathnameExpansion) (i : Text) : Text :=
  echo.output (expand pathname i)

namespace Message

/-! The texts that the module hands to `fatal`; the text of the line follows `invalidLine`. -/

def invalidLine : Text := "Invalid line in IMA policy: ".toList

def notLoaded : Text := "Could not load IMA policy.".toList

def notMounted : Text := "Could not mount securityfs.".toList

def noIma : Text :=
  "No /sys/kernel/security/ima. Cannot proceed without IMA enabled in the kernel.".toList

end Message

/-- How the subshell ended: the texts written to the policy file, the exit status, and the message
of the `fatal` call that stopped it, if one did. -/
structure Loaded where
  submitted : List Text
  status : Nat
  fatal : Option Text
  deriving Repr, DecidableEq

/-- The kernel's answer to a written rule, given what was written before. A write of no bytes does
not reach it. -/
def accepts (kernel : Decision Text) (submitted : List Text) (text : Text) : Bool :=
  text.isEmpty || kernel submitted text

/-- The texts written after `text` was. -/
def written (submitted : List Text) (text : Text) : List Text :=
  if text.isEmpty then submitted else submitted ++ [text]

/-- The `while` loop over the lines that `read` delivers; `status` is that of the last command its
body ran. -/
def loadPolicy (sys : Initramfs) (kernel : Decision Text) :
    List (List Mark) → List Text → Nat → Loaded
  | [], submitted, status => ⟨submitted, status, none⟩
  | line :: lines, submitted, _ =>
      let i := readValue line
      if skipped sys.echo i then loadPolicy sys kernel lines submitted sys.debugStatus
      else
        let text := ruleText sys.echo sys.pathname i
        if accepts kernel submitted text then
          loadPolicy sys kernel lines (written submitted text) sys.sleepStatus
        else ⟨written submitted text, 1, some (Message.invalidLine ++ i)⟩

/-- What a run of the module did: the texts it wrote to the policy file, and the message of the
`fatal` call it ended in, if any. -/
structure Run where
  submitted : List Text
  fatal : Option Text
  deriving Repr, DecidableEq

/-- The end of `ima_run`: the subshell called `fatal`, or its status decides. -/
def reported (loaded : Loaded) : Run :=
  match loaded.fatal with
  | some message => ⟨loaded.submitted, some message⟩
  | none =>
      ⟨loaded.submitted,
        if loaded.status = 0 then none else some Message.notLoaded⟩

/-- `ima_run` on the content `policy` of `/etc/ima/ima-policy`. -/
def imaRun (sys : Initramfs) (kernel : Decision Text) (policy : Text) : Run :=
  if !sys.securityfsMounted && !sys.mountSucceeds then
    ⟨[], some Message.notMounted⟩
  else if !sys.hasIma then
    ⟨[], some Message.noIma⟩
  else
    reported (loadPolicy sys kernel (readLines policy) [] 0)

/-- The module reaches its loop: securityfs is or can be mounted and the kernel has IMA. -/
def Initramfs.ready (sys : Initramfs) : Bool :=
  (sys.securityfsMounted || sys.mountSucceeds) && sys.hasIma

/-- The line is neither blank nor a comment: its first character that is not white space exists
and is not `#`. -/
def isRule (line : Text) : Bool :=
  match line.dropWhile isIfs with
  | [] => false
  | c :: _ => c ≠ '#'

/-- The lines of a policy file that are rules, the last line with or without a newline. -/
def ruleLines (policy : Text) : List Text :=
  (allRecords '\n' policy).filter isRule

/-- The rules of a policy file, each as its words. -/
def policyRules (policy : Text) : List (List Text) :=
  (ruleLines policy).map (fields isIfs)

/-- The words of a rule as the kernel receives it. -/
def ruleWords (text : Text) : List Text :=
  fields isIfs text

end MetaSecurity.Ima
