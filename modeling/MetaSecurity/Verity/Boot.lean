import MetaSecurity.Library.Hexadecimal
import MetaSecurity.Verity.Setup

/-!
# Booting from a dm-verity image

`dmverity_run` of `initramfs-framework-dm/dmverity`. The module sources the environment file of the
build, waits for the device, calls `veritysetup create` and mounts the mapping. The status of
`veritysetup` is not looked at; only `mount ... || exit 2` is. The framework's `fatal` does not
return, and the module runs without `set -e`.

The commands that the module calls are structures with what is documented about them. A call
whose words do not have the documented form may do anything.
-/

namespace MetaSecurity.Verity

open Library Shell

/-! ## The commands -/

/-- A device-mapper mapping. -/
structure Mapping where
  name : Text
  data : Text
  hash : Text
  rootHash : Text
  deriving Repr, DecidableEq

/-- A mounted file system. -/
structure Mounted where
  source : Text
  target : Text
  readOnly : Bool
  deriving Repr, DecidableEq

/-- The names of the mappings. -/
def mappingNames (mappings : List Mapping) : List Text :=
  mappings.map Mapping.name

/-- An option that carries its value: `--name=value`. -/
def isOption (word : Text) : Bool :=
  "--".toList.isPrefixOf word && word.contains '='

/-- A root hash: hexadecimal digits. -/
def isHash (word : Text) : Bool :=
  !word.isEmpty && word.all fun c => isHexDigit c.toLower

def create : Text := "create".toList

def rootfs : Text := "rootfs".toList

/-- The words can be `NAME DATA HASH` or `NAME DATA HASH ROOT_HASH`. -/
def isOperandList (operands : List Text) : Bool :=
  decide (operands.length ≤ 4) &&
    (operands.take 3).all fun operand => operand ≠ create && operand.head? ≠ some '-'

/-- The operands of a call `veritysetup --option=value ... create NAME DATA HASH [ROOT_HASH]`;
`none` for words that do not have this form. -/
def createOperands (args : List Text) : Option (List Text) :=
  match args.dropWhile isOption with
  | [] => none
  | word :: operands =>
      if word = create && isOperandList operands then some operands else none

/-- `veritysetup`, as far as it creates mappings: never one whose name is taken, and for a call of
the documented form only the one that its four operands describe, with a root hash in hexadecimal
digits. -/
structure Veritysetup where
  run : List Mapping → List Text → Option Mapping
  fresh : ∀ mappings args mapping, run mappings args = some mapping →
    mapping.name ∉ mappingNames mappings
  documented : ∀ mappings args operands mapping, createOperands args = some operands →
    run mappings args = some mapping →
      operands = [mapping.name, mapping.data, mapping.hash, mapping.rootHash] ∧
        isHash mapping.rootHash = true

/-- The device of a mapping. -/
def mapperPath (name : Text) : Text :=
  "/dev/mapper/".toList ++ name

/-- `mount`: what it mounts, or `none` when it fails. A call `mount -o ro /dev/mapper/NAME DIR`
succeeds only if the mapping exists, and mounts it read-only. -/
structure MountCommand where
  run : List Mapping → List Text → Option (List Mounted)
  documented : ∀ mappings name target mounted, target.head? ≠ some '-' →
    run mappings ["-o".toList, "ro".toList, mapperPath name, target] = some mounted →
      mounted = [⟨mapperPath name, target, true⟩] ∧ name ∈ mappingNames mappings

/-- A path that a block device can have: it contains a slash, does not start with a hyphen, and is
a plain word. -/
structure IsDevicePath (path : Text) : Prop where
  slash : '/' ∈ path
  noHyphen : path.head? ≠ some '-'
  plain : isPlainWord path = true

theorem IsDevicePath.ne_nil {path : Text} (h : IsDevicePath path) : path ≠ [] :=
  List.ne_nil_of_mem h.slash

/-- The devices, as they are found at each look: `[ -b path ]`, and what `realpath` prints. -/
structure Devices where
  isBlock : Nat → Text → Bool
  realpath : Nat → List Text → Text
  path : ∀ tick path, isBlock tick path = true → IsDevicePath path

/-- The numbers of the loop's test, after `c` sleeps, are integers of 64 bits. -/
def Fits (c delay timeout : Nat) : Prop :=
  c < 2 ^ 63 ∧ delay < 2 ^ 63 ∧ timeout < 2 ^ 63 ∧ c * delay < 2 ^ 63

instance (c delay timeout : Nat) : Decidable (Fits c delay timeout) :=
  inferInstanceAs (Decidable (_ ∧ _))

/-- `[ $(( $C * $delay )) -gt $timeout ]`, or `none` when the arithmetic ends the shell; for decimal
numbers that fit it is what it says. -/
structure Patience where
  exceeded : Nat → Text → Text → Option Bool
  decimals : ∀ c delay timeout, Fits c delay timeout →
    exceeded c (decimal delay) (decimal timeout) = some (decide (timeout < c * delay))

/-- Everything that the module calls. -/
structure Boot where
  sourcing : Sourcing
  pathname : PathnameExpansion
  devices : Devices
  patience : Patience
  veritysetup : Veritysetup
  mount : MountCommand

/-! ## The module -/

/-- How far a run came: it still waits for the device, it ended in `fatal` or `exit`, or it returned
to the boot framework. -/
inductive Ended where
  | waiting
  | stopped
  | returned
  deriving Repr, DecidableEq

/-- What a run did: the words of its `veritysetup` calls, the mapping that it created, all mappings
at its end, and what it mounted. -/
structure Final where
  ended : Ended
  calls : List (List Text)
  created : Option Mapping
  mappings : List Mapping
  mounted : List Mounted
  deriving Repr, DecidableEq

/-- How waiting for a device ended. -/
inductive Awaited where
  | found (device : Text)
  | gaveUp
  | waiting
  deriving Repr, DecidableEq

namespace Var

/-! The variables of the boot framework. -/

def rootfsDir : Text := "ROOTFS_DIR".toList

def bootparamRoot : Text := "bootparam_root".toList

def bootparamRootdelay : Text := "bootparam_rootdelay".toList

def bootparamRoottimeout : Text := "bootparam_roottimeout".toList

end Var

/-- `__not_set__`. -/
def notSet : Text := "__not_set__".toList

/-- The variables when the environment file is sourced. -/
def beforeSourcing (vars : Variables) : Variables :=
  assignAll vars [(Var.dataSize, notSet), (Var.dataBlockSize, notSet), (Var.rootHash, notSet),
    (Var.separateHash, notSet)]

/-- `${name:-default}`. -/
def valueOr (vars : Variables) (name default : Text) : Text :=
  if (vars name).isEmpty then default else vars name

/-- `/dev/disk/by-partuuid/`. -/
def partuuidPath (uuid : Text) : Text :=
  "/dev/disk/by-partuuid/".toList ++ uuid

/-- `${value#word}` for a word without patterns. -/
def withoutPrefix (word value : Text) : Text :=
  if word.isPrefixOf value then value.drop word.length else value

/-- The forms of the `root` parameter and the directories that they are looked up in. -/
def rootForms : List (Text × Text) :=
  [("ID=".toList, "/dev/disk/by-id/".toList), ("LABEL=".toList, "/dev/disk/by-label/".toList),
    ("PARTLABEL=".toList, "/dev/disk/by-partlabel/".toList),
    ("PARTUUID=".toList, "/dev/disk/by-partuuid/".toList),
    ("PATH=".toList, "/dev/disk/by-path/".toList), ("UUID=".toList, "/dev/disk/by-uuid/".toList)]

/-- `$(realpath directory/${root#word} 2>/dev/null)`. -/
def resolved (boot : Boot) (tick : Nat) (form : Text × Text) (root : Text) : Text :=
  substitution
    (boot.devices.realpath tick (expand boot.pathname (form.2 ++ withoutPrefix form.1 root)))

/-- The `case` in the loop: `RDEV` from the `root` parameter. -/
def rootDevice (boot : Boot) (root : Text) (tick : Nat) : Text :=
  match rootForms.find? fun form => form.1.isPrefixOf root with
  | some form => resolved boot tick form root
  | none => root

/-- The waiting loop of both modes: look whether the device is there, give up when the time is over,
else look for the `next` device. -/
def awaitDevice (boot : Boot) (delay timeout : Text) (next : Nat → Text) :
    Nat → Nat → Text → Awaited
  | 0, _, _ => .waiting
  | fuel + 1, tick, device =>
      if boot.devices.isBlock tick device then .found device
      else
        match boot.patience.exceeded tick delay timeout with
        | some false => awaitDevice boot delay timeout next fuel (tick + 1) (next tick)
        | _ => .gaveUp

/-- The words of the `veritysetup` call of both modes. -/
def createCall (g : PathnameExpansion) (options : List Text) (data hash rootHash : Text) :
    List Text :=
  options.flatMap (expand g) ++ create :: rootfs :: expand g data ++ expand g hash ++
    expand g rootHash

/-- The end of both modes: `veritysetup ... create rootfs data hash $ROOT_HASH`, then
`mount -o ro /dev/mapper/rootfs $ROOTFS_DIR || exit 2`. -/
def setupAndMount (boot : Boot) (mappings : List Mapping) (options : List Text)
    (data hash rootHash target : Text) : Final :=
  let call := createCall boot.pathname options data hash rootHash
  let created := boot.veritysetup.run mappings call
  match boot.mount.run (mappings ++ created.toList)
      (["-o".toList, "ro".toList, mapperPath rootfs] ++ expand boot.pathname target) with
  | none => ⟨.stopped, [call], created, mappings ++ created.toList, []⟩
  | some mounted => ⟨.returned, [call], created, mappings ++ created.toList, mounted⟩

/-- A run that ended before its `veritysetup` call. -/
def endedEarly (mappings : List Mapping) (ended : Ended) : Final :=
  ⟨ended, [], none, mappings, []⟩

/-- `[ "${SEPARATE_HASH}" -eq "1" ]`. -/
def isSeparate (vars : Variables) : Bool :=
  testEq (vars Var.separateHash) "1".toList

/-- The options of the `veritysetup` call, before their expansion. -/
def createOptions (vars : Variables) : List Text :=
  if isSeparate vars then [Opt.dataBlockSize ++ vars Var.dataBlockSize]
  else [Opt.dataBlockSize ++ vars Var.dataBlockSize, Opt.hashOffset ++ vars Var.dataSize]

/-- The hash device of the `veritysetup` call, before its expansion. -/
def hashDevice (vars : Variables) (data : Text) : Text :=
  if isSeparate vars then partuuidPath (vars Var.rhashUuid) else data

/-- The device that the module looks for first. -/
def firstDevice (boot : Boot) (vars : Variables) : Text :=
  if isSeparate vars then partuuidPath (vars Var.rootUuid)
  else
    resolved boot 0 ("PARTUUID=".toList, "/dev/disk/by-partuuid/".toList) (vars Var.bootparamRoot)

/-- The device that it looks for after it has waited. -/
def nextDevice (boot : Boot) (vars : Variables) (tick : Nat) : Text :=
  if isSeparate vars then partuuidPath (vars Var.rootUuid)
  else rootDevice boot (vars Var.bootparamRoot) tick

/-- The device that is found, by the variables after sourcing. -/
def awaited (boot : Boot) (vars : Variables) (fuel : Nat) : Awaited :=
  awaitDevice boot (valueOr vars Var.bootparamRootdelay "1".toList)
    (valueOr vars Var.bootparamRoottimeout "5".toList) (nextDevice boot vars) fuel 0
    (firstDevice boot vars)

/-- The module after it has sourced the environment file. -/
def afterSourcing (boot : Boot) (fuel : Nat) (vars : Variables) (mappings : List Mapping) : Final :=
  match awaited boot vars fuel with
  | .waiting => endedEarly mappings .waiting
  | .gaveUp => endedEarly mappings .stopped
  | .found data =>
      setupAndMount boot mappings (createOptions vars) data (hashDevice vars data)
        (vars Var.rootHash) (vars Var.rootfsDir)

/-- `dmverity_run`, with at most `fuel` looks for the device. `vars` are the variables of the boot
framework, among them the boot parameters, and `mappings` are those that exist already. -/
def dmverityRun (boot : Boot) (fuel : Nat) (env : Text) (vars : Variables)
    (mappings : List Mapping) : Final :=
  match boot.sourcing.source env (beforeSourcing vars) with
  | none => endedEarly mappings .stopped
  | some vars => afterSourcing boot fuel vars mappings

/-! ## The device that is found -/

/-- A device that the module can find: it has the path of a block device, in separate mode the one
for `ROOT_UUID`. -/
def Findable (vars : Variables) (data : Text) : Prop :=
  IsDevicePath data ∧ (isSeparate vars = true → data = partuuidPath (vars Var.rootUuid))

/-- A device that was waited for is there, and is one of those that were looked for. -/
theorem awaitDevice_found {boot : Boot} {delay timeout : Text} {next : Nat → Text} {fuel tick : Nat}
    {device data : Text} (h : awaitDevice boot delay timeout next fuel tick device = .found data) :
    IsDevicePath data ∧ (data = device ∨ ∃ t, data = next t) := by
  induction fuel generalizing tick device with
  | zero => cases h
  | succ fuel ih =>
      unfold awaitDevice at h
      split at h
      · next hblock =>
        cases h
        exact ⟨boot.devices.path tick _ hblock, Or.inl rfl⟩
      · split at h
        · obtain ⟨hpath, hdata⟩ := ih h
          refine ⟨hpath, Or.inr ?_⟩
          rcases hdata with rfl | ⟨t, rfl⟩
          · exact ⟨tick, rfl⟩
          · exact ⟨t, rfl⟩
        · cases h

theorem findable_of_awaited {boot : Boot} {vars : Variables} {fuel : Nat} {data : Text}
    (h : awaited boot vars fuel = .found data) : Findable vars data := by
  obtain ⟨hpath, hdata⟩ := awaitDevice_found h
  refine ⟨hpath, fun hmode => ?_⟩
  rcases hdata with rfl | ⟨tick, rfl⟩
  · rw [firstDevice, if_pos hmode]
  · rw [nextDevice, if_pos hmode]

end MetaSecurity.Verity
