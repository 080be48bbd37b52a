import MetaSecurity.Library.Shell.Variables

/-!
# Building a dm-verity image

`verity_setup` and `process_verity` of `dm-verity-img.bbclass`, and `deploy_verity_hash`, which
installs the result into the initramfs. The image is padded to a multiple of the larger block
size, `veritysetup format` builds the hash tree, and its report is rewritten into a file of shell
variables. The functions run under `sh -e` without `pipefail`: `none` stands for a status that is
not zero.
-/

namespace MetaSecurity.Verity

open Library Shell

/-- The BitBake variables that the class reads. The names are those of files and recipes; none of
their characters is special to the shell. -/
structure Config where
  stagingVerityDir : Text
  imageName : Text
  imageBasename : Text
  deployDir : Text
  image : Text
  imageType : Text
  machine : Text
  imageNameSuffix : Text
  rootGuid : Text
  rhashGuid : Text
  dataBlockSize : Nat
  hashBlockSize : Nat
  separateHash : Nat
  plain : ∀ name ∈ [stagingVerityDir, imageName, imageBasename, deployDir, image, imageType,
    machine, imageNameSuffix, rootGuid, rhashGuid], name.all isPathChar = true

/-- The programs that the build uses: the shell's `echo`, the current directory, `bc` (its output,
unless it fails), and whether `install` and `cp` succeed. -/
structure Tools where
  echo : Echo
  pathname : PathnameExpansion
  bc : Text → Option Text
  installSucceeds : Bool
  copySucceeds : Bool

/-- What `veritysetup format` printed, and whether it succeeded. -/
structure Format where
  output : Text
  succeeded : Bool
  deriving Repr, DecidableEq

/-- The files below `STAGING_VERITY_DIR`. -/
abbrev Staging := Text → Option Text

namespace Var

/-! The shell variables that the build hands to the boot. -/

def dataSize : Text := "DATA_SIZE".toList

def dataBlockSize : Text := "DATA_BLOCK_SIZE".toList

def rootHash : Text := "ROOT_HASH".toList

def separateHash : Text := "SEPARATE_HASH".toList

def rootUuid : Text := "ROOT_UUID".toList

def rhashUuid : Text := "RHASH_UUID".toList

end Var

/-! ## The filters of `process_verity` -/

/-- `tail -n +2`. -/
def tailFromSecond (t : Text) : Text :=
  (t.dropWhile (· ≠ '\n')).tail

/-- A filter like `sed` that rewrites each line. -/
def mapLines (f : Text → Text) (t : Text) : Text :=
  terminate '\n' ((records '\n' t).map f) ++
    if remainder '\n' t = [] then [] else f (remainder '\n' t)

/-- `grep ^word`. -/
def grepStart (word t : Text) : Text :=
  terminate '\n' ((allRecords '\n' t).filter fun line => word.isPrefixOf line)

/-- `sed 's/word//'` on one line: the first occurrence is deleted. -/
def deleteFirst (word : Text) : Text → Text
  | [] => []
  | c :: cs => if word.isPrefixOf (c :: cs) then (c :: cs).drop word.length
      else c :: deleteFirst word cs

/-- `tr a-f A-F`. -/
def upperHex (c : Char) : Char :=
  if 'a' ≤ c ∧ c ≤ 'f' then c.toUpper else c

/-- `tr A-F a-f`. -/
def lowerHex (c : Char) : Char :=
  if 'A' ≤ c ∧ c ≤ 'F' then c.toLower else c

/-- `sed 's/.*\(.\{32\}\)$/\1/'` on one line: the last 32 characters of a line that has as many. -/
def last32 (line : Text) : Text :=
  if 32 ≤ line.length then line.drop (line.length - 32) else line

/-- One edit of the second `sed`: a hyphen goes before the character at position `i`, counted from
0, if there is one. -/
def hyphenAt (i : Nat) (line : Text) : Text :=
  if i < line.length then line.take i ++ '-' :: line.drop i else line

/-- The second `sed` on one line: hyphens before its 9th, then 14th, then 19th, then 24th
character. -/
def hyphenate (line : Text) : Text :=
  hyphenAt 23 (hyphenAt 18 (hyphenAt 13 (hyphenAt 8 line)))

/-- The words of an unquoted expansion under `IFS=:`, where a colon ends a field. -/
def expandColon (g : PathnameExpansion) (t : Text) : List Text :=
  let parts := t.splitOn ':'
  (if parts.getLast? = some [] then parts.dropLast else parts).flatMap g.names

/-- `tr '[:lower:]' '[:upper:]' | sed 's/ /_/g'` on one character. -/
def keyChar (c : Char) : Char :=
  if c.toUpper = ' ' then '_' else c.toUpper

/-- The line of the environment file made from a line `KEY: VAL` of the report. -/
def environmentLine (echo : Echo) (line : List Mark) : Text :=
  let key := (echo.output [readKey line]).map keyChar
  let val := (echo.output [readRest line]).filter fun c => c ≠ ' ' && c ≠ '\t'
  substitution key ++ '=' :: substitution val ++ ['\n']

/-- The root hash that `process_verity` reads back from the environment file, in upper case. -/
def rootHashOf (env : Text) : Text :=
  substitution
    ((mapLines (deleteFirst "ROOT_HASH=".toList) (grepStart "ROOT_HASH".toList env)).map upperHex)

/-- `obase=16;ibase=16;$ROOT_HASH/2^80`, for `operator` either `/` or `%`; in hexadecimal `2^80` is
two to the power of 128. -/
def halfProgram (rootHash : Text) (operator : Char) : Text :=
  "obase=16;ibase=16;".toList ++ rootHash ++ operator :: "2^80".toList

/-- `$(echo "obase=16;ibase=16;$ROOT_HASH/2^80" | bc)`. -/
def half (tools : Tools) (rootHash : Text) (operator : Char) : Option Text :=
  (tools.bc (tools.echo.output [halfProgram rootHash operator])).map substitution

/-- The UUID made from one half of the root hash. -/
def uuidOf (tools : Tools) (digits : Text) : Text :=
  substitution ((mapLines hyphenate (mapLines last32 (tools.echo.output
    (expandColon tools.pathname ("00000000".toList ++ digits))))).map lowerHex)

/-! ## The functions of the class -/

namespace Config

/-- `${STAGING_VERITY_DIR}/${IMAGE_BASENAME}.$TYPE.verity.env`, for the given image and type. -/
def envPath (c : Config) (image type : Text) : Text :=
  c.stagingVerityDir ++ '/' :: image ++ '.' :: type ++ ".verity.env".toList

/-- `${STAGING_VERITY_DIR}/${IMAGE_BASENAME}.$TYPE.wks.in`. -/
def wksPath (c : Config) (type : Text) : Text :=
  c.stagingVerityDir ++ '/' :: c.imageBasename ++ '.' :: type ++ ".wks.in".toList

/-- `${STAGING_VERITY_DIR}/${IMAGE_BASENAME}.$TYPE.verity.args`. -/
def argsPath (c : Config) (type : Text) : Text :=
  c.stagingVerityDir ++ '/' :: c.imageBasename ++ '.' :: type ++ ".verity.args".toList

/-- The file that a line of the `.wks.in` fragment names, with the given extension. -/
def partitionFile (c : Config) (extension : Text) : Text :=
  c.deployDir ++ '/' :: c.image ++ '-' :: c.machine ++ c.imageNameSuffix ++
    '.' :: c.imageType ++ extension

/-- A line of the `.wks.in` fragment. -/
def partLine (part file name guid uuid : Text) : Text :=
  part ++ " --source rawcopy --ondisk sda --sourceparams=\"file=".toList ++ file ++
    "\" --part-name ".toList ++ name ++ " --part-type=\"".toList ++ guid ++
    "\" --uuid=\"".toList ++ uuid ++ "\"".toList

/-- The line for the data partition. -/
def dataPart (c : Config) (uuid : Text) : Text :=
  partLine "part /".toList (c.partitionFile ".verity".toList) "verityroot".toList c.rootGuid uuid

/-- The line for the hash partition. -/
def hashPart (c : Config) (uuid : Text) : Text :=
  partLine "part".toList (c.partitionFile ".vhash".toList) "verityhash".toList c.rhashGuid uuid

end Config

/-- The environment file as far as it does not depend on the mode: the lines of the report, the
size and the mode. -/
def commonEnvironment (c : Config) (tools : Tools) (size : Nat) (input : Text) : Text :=
  (readLines input).flatMap (environmentLine tools.echo) ++
    tools.echo.output ["DATA_SIZE=".toList ++ decimal size] ++
    tools.echo.output ["SEPARATE_HASH=".toList ++ decimal c.separateHash]

/-- `process_verity`, reading `input`. -/
def processVerity (c : Config) (tools : Tools) (type : Text) (size : Nat) (input : Text)
    (staging : Staging) : Option Staging :=
  let env := commonEnvironment c tools size input
  if c.separateHash = 0 then
    some (Function.update staging (c.envPath c.imageBasename type) (some env))
  else do
    let rootHash := rootHashOf env
    let rootHi ← half tools rootHash '/'
    let rootLo ← half tools rootHash '%'
    let rootUuid := uuidOf tools rootHi
    let rhashUuid := uuidOf tools rootLo
    let env := env ++ tools.echo.output ["ROOT_UUID=".toList ++ rootUuid] ++
      tools.echo.output ["RHASH_UUID=".toList ++ rhashUuid]
    let wks := tools.echo.output [c.dataPart rootUuid] ++ tools.echo.output [c.hashPart rhashUuid]
    some (Function.update (Function.update staging (c.envPath c.imageBasename type) (some env))
      (c.wksPath type) (some wks))

/-- `expr \( $SIZE + $align - 1 \) / $align \* $align`, which fails for an empty image: `expr` has
status 1 when its result is zero. -/
def alignedSize (size : Option Nat) (align : Nat) : Option Nat :=
  size.bind fun n =>
    if align = 0 ∨ (n + align - 1) / align * align = 0 then none
    else some ((n + align - 1) / align * align)

namespace Opt

/-! The options of `veritysetup`, without their values. -/

def dataBlockSize : Text := "--data-block-size=".toList

def hashBlockSize : Text := "--hash-block-size=".toList

def hashOffset : Text := "--hash-offset=".toList

end Opt

def format : Text := "format".toList

/-- `$INPUT` with an extension. -/
def outputFile (c : Config) (type extension : Text) : Text :=
  c.imageName ++ '.' :: type ++ extension

/-- `$OUTPUT`. -/
def output (c : Config) (type : Text) : Text :=
  outputFile c type ".verity".toList

/-- `$OUTPUT_HASH`. -/
def outputHash (c : Config) (type : Text) : Text :=
  if c.separateHash = 1 then outputFile c type ".vhash".toList
  else outputFile c type ".verity".toList

/-- `$HASH_OFFSET`: the hash goes behind the data unless it is separate. -/
def hashOffset (c : Config) (size : Nat) : Text :=
  if c.separateHash = 1 then [] else Opt.hashOffset ++ decimal size

/-- A number of blanks. -/
def blanks (n : Nat) : Text :=
  List.replicate n ' '

/-- `SETUP_ARGS`; the newlines in it are quoted, the indentation is not. -/
def setupArgs (c : Config) (type : Text) (size : Nat) : Text :=
  blanks 9 ++ Opt.dataBlockSize ++ decimal c.dataBlockSize ++
    blanks 9 ++ Opt.hashBlockSize ++ decimal c.hashBlockSize ++
    blanks 9 ++ hashOffset c size ++ ' ' :: format ++ ' ' :: output c type ++
    ' ' :: outputHash c type ++ blanks 5

/-- What a successful run of `verity_setup` did: the arguments of its `veritysetup` call and the
staged files. -/
structure Build where
  formatCall : List Text
  staging : Staging

/-- The block size that the image is padded to: the larger one. -/
def Config.align (c : Config) : Nat :=
  if c.hashBlockSize ≤ c.dataBlockSize then c.dataBlockSize else c.hashBlockSize

/-- `echo "veritysetup $SETUP_ARGS" > $SAVED_ARGS`. -/
def saveArgs (c : Config) (tools : Tools) (type : Text) (size : Nat) (staging : Staging) :
    Staging :=
  Function.update staging (c.argsPath type)
    (some (tools.echo.output ["veritysetup ".toList ++ setupArgs c type size]))

/-- `verity_setup` on an image of the given size (`none` when `stat` fails) for the given type,
when its `veritysetup` call behaves as `format` says. -/
def veritySetup (c : Config) (tools : Tools) (type : Text) (size : Option Nat) (format : Format)
    (staging : Staging) : Option Build :=
  if !tools.installSucceeds then none
  else
    (alignedSize size c.align).bind fun size =>
      if !tools.copySucceeds then none
      else
        (processVerity c tools type size (tailFromSecond format.output)
          (saveArgs c tools type size staging)).map fun staged =>
            ⟨expand tools.pathname (setupArgs c type size), staged⟩

/-- `deploy_verity_hash`: the content that is installed as `dm-verity.env`. -/
def deployVerityHash (c : Config) (staging : Staging) : Option Text :=
  staging (c.envPath c.image c.imageType)

end MetaSecurity.Verity
