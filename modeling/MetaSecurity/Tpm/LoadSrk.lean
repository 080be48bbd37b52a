import MetaSecurity.Library.Buffers

/-!
# The password of the storage root key

The part of `tpm_load_srk` that finds the password of the TPM's storage root key, as the patches of
`openssl-tpm-engine` leave it: an encrypted password in `TPM_SRK_ENC_PW`, or else, if the engine was
built so, a plain one in `TPM_SRK_PW`, or else a prompt. The encrypted password is decoded to
`out_buf`, decrypted to `dec_data` and copied to `auth`. OpenSSL, `malloc` and the prompt are
parameters; the hypotheses on OpenSSL are in the structures that stand for it.
-/

namespace MetaSecurity.Tpm

open Library.Buffers

abbrev Byte := BitVec 8

/-- The bytes of ASCII texts one after the other. -/
def charBytes (texts : List String) : List Byte :=
  texts.flatMap fun text => text.toList.map fun c => BitVec.ofNat 8 c.toNat

/-- The value of an environment variable. -/
structure CString where
  bytes : List Byte
  noNul : 0 ∉ bytes

/-- `strlen`, as the `int` that it is converted to. -/
def CString.length (s : CString) : Int :=
  Int.bmod s.bytes.length (2 ^ 32)

/-- The buffers that are written to. -/
inductive Buffer where
  | auth
  | outBuf
  | aesPw
  | aesSalt
  | decData
  deriving Repr, DecidableEq

/-- What happens on buffers of bytes. -/
abbrev Run (α : Type) := Program Buffer Byte α

/-! ## Code outside the engine -/

/-- What a call of OpenSSL returns, what it stores from the address that it gets on, and the length
that it reports. -/
structure Call where
  ret : Int
  stored : List Byte
  length : Nat
  within : length ≤ stored.length

/-- The bytes that a call reports. -/
def Call.output (call : Call) : List Byte :=
  call.stored.take call.length

theorem Call.length_output (call : Call) : call.output.length = call.length := by
  rw [Call.output, List.length_take, Nat.min_eq_left call.within]

/-- `EVP_DecodeUpdate` with a new context, and `EVP_DecodeFinal` after it. From `4 * k` characters
come at most `3 * k` bytes. -/
structure Base64 where
  decodeUpdate : List Byte → Call
  decodeFinal : List Byte → Call
  update_le : ∀ {k text}, text.length = 4 * k → (decodeUpdate text).stored.length ≤ 3 * k
  final_le : ∀ {k text}, text.length = 4 * k → (decodeFinal text).stored.length ≤ 3 * k
  total_le : ∀ {k text}, text.length = 4 * k →
    (decodeUpdate text).length + (decodeFinal text).length ≤ 3 * k

/-- A key and an initialisation vector. -/
abbrev Key := List Byte × List Byte

/-- `aes-128-cbc` for decryption, with padding: whether it can be found and used, the key that
`EVP_BytesToKey` derives from a salt, a password and a count, `EVP_CipherUpdate`, and
`EVP_CipherFinal_ex` after it. Decryption stores at most as many bytes as it gets. It succeeds only
on whole blocks of 16 bytes, of which between 1 and 16 bytes are padding, and every text is what
some ciphertext decrypts to. -/
structure Cipher where
  available : Bool
  bytesToKey : List Byte → List Byte → Nat → Key
  initCipher : Bool
  initKey : Key → Bool
  update : Key → List Byte → Call
  final : Key → List Byte → Call
  update_le : ∀ key data, (update key data).stored.length ≤ data.length
  final_le : ∀ key data, (update key data).length + (final key data).stored.length ≤ data.length
  padded : ∀ {key data}, (update key data).ret ≠ 0 → (final key data).ret ≠ 0 →
    16 ∣ data.length ∧ (update key data).length + (final key data).length < data.length ∧
      data.length ≤ (update key data).length + (final key data).length + 16
  suitable : ∀ key text, ∃ data, data.length = 16 * (text.length / 16 + 1) ∧
    (update key data).ret ≠ 0 ∧ (final key data).ret ≠ 0 ∧
      (update key data).output ++ (final key data).output = text

/-- The cipher is found and takes the key. The lengths that are asserted in between are those of
`aes-128-cbc`. -/
def Cipher.usable (cipher : Cipher) (key : Key) : Bool :=
  cipher.available && cipher.initCipher && cipher.initKey key

/-- `malloc`, with what is in a new block. A negative number is converted to a size that no block
can have. -/
structure Allocator where
  malloc : Int → Option (List Byte)
  size : ∀ {n block}, malloc n = some block → (block.length : Int) = n

/-- The memory when the password is needed: `auth` was allocated with 128 bytes, and the arrays of
`tpm_decrypt_srk_pw` have their declared sizes. -/
structure Start where
  memory : Memory Buffer Byte
  auth : (memory .auth).length = 128
  aesSalt : (memory .aesSalt).length = 8
  decData : (memory .decData).length = 256

/-- What the recipe defines for the compiler. -/
structure Build where
  srkDecPw : List Byte
  srkDecSalt : List Byte
  srkPlainPw : Bool

/-- The recipe's own values. -/
def defaultBuild : Build where
  srkDecPw := [0x01, 0x6e, 0x63, 0x03, 0x6e, 0x64, 0x01, 0x61]
  srkDecSalt := [0x72, 0x00, 0x00, 0x74]
  srkPlainPw := false

/-! ## Encrypted passwords -/

/-- The size of a salt. -/
def pkcs5SaltLen : Nat := 8

/-- `tpm_decode_base64`: the length of the output, or nothing if the function fails. Both calls
get the beginning of the buffer. -/
def decodeBase64 (base64 : Base64) (indata : List Byte) : Run (Option Nat) := do
  store .outBuf 0 (base64.decodeUpdate indata).stored
  if (base64.decodeUpdate indata).ret < 0 then return none
  else
    store .outBuf 0 (base64.decodeFinal indata).stored
    if (base64.decodeFinal indata).ret < 0 then return none
    else return some ((base64.decodeUpdate indata).length + (base64.decodeFinal indata).length)

/-- The part of `tpm_decrypt_srk_pw` that has a key. -/
def decryptWith (cipher : Cipher) (key : Key) (indata : List Byte) : Run (Option Nat) := do
  store .decData 0 (cipher.update key indata).stored
  if (cipher.update key indata).ret = 0 then return none
  else
    store .decData (cipher.update key indata).length (cipher.final key indata).stored
    if (cipher.final key indata).ret = 0 then return none
    else
      let decDataLen := (cipher.update key indata).length + (cipher.final key indata).length
      let decData ← load .decData decDataLen
      store .auth 0 decData
      return some decDataLen

/-- `tpm_decrypt_srk_pw`. -/
def decryptSrkPw (allocator : Allocator) (cipher : Cipher) (build : Build) (indata : List Byte) :
    Run (Option Nat) :=
  if pkcs5SaltLen < build.srkDecSalt.length then return none
  else
    match allocator.malloc build.srkDecPw.length with
    | none => return none
    | some block => do
        allocate .aesPw block
        store .aesSalt 0 (List.replicate pkcs5SaltLen 0)
        store .aesPw 0 build.srkDecPw
        store .aesSalt 0 build.srkDecSalt
        let aesSalt ← load .aesSalt pkcs5SaltLen
        let aesPw ← load .aesPw build.srkDecPw.length
        let key := cipher.bytesToKey aesSalt aesPw 1
        if cipher.usable key then decryptWith cipher key indata else return none

/-- What `tpm_load_srk` does with the value of `TPM_SRK_ENC_PW`: the length of the password in
`auth`, or nothing if the request fails. -/
def loadEncrypted (allocator : Allocator) (base64 : Base64) (cipher : Cipher) (build : Build)
    (srkPasswd : CString) : Run (Option Nat) :=
  if srkPasswd.length = 0 ∨ srkPasswd.length.tmod 4 ≠ 0 then return none
  else do
    let product ← checked (srkPasswd.length * 3)
    match allocator.malloc (product.tdiv 4) with
    | none => return none
    | some block =>
        allocate .outBuf block
        match ← decodeBase64 base64 (srkPasswd.bytes.take srkPasswd.length.toNat) with
        | none => return none
        | some outLen =>
            let outBuf ← load .outBuf outLen
            decryptSrkPw allocator cipher build outBuf

/-! ## All passwords -/

/-- How the password is handed over. -/
inductive SecretMode where
  | plain
  | sha1
  deriving Repr, DecidableEq

/-- The mode of a password and its length in `auth`. -/
structure Secret where
  secretMode : SecretMode
  authlen : Nat
  deriving Repr, DecidableEq

/-- `strncpy(_, src, n)`: what is missing to `n` bytes are zeros. -/
def strncpy (src : List Byte) (n : Nat) : List Byte :=
  src.take n ++ List.replicate (n - src.length) 0

/-- `strlen(auth)`, which reads on until there is a NUL byte. -/
def strlenAuth : Run Nat := do
  let auth ← load .auth 128
  if auth.contains 0 then return (auth.takeWhile (· ≠ 0)).length else throw (.overrun .auth)

/-- The value of `TPM_SRK_PW` that stands for the well-known password. -/
def wellKnown : List Byte :=
  charBytes ["#WELLKNOWN#"]

/-- What `tpm_load_srk` does with the value of `TPM_SRK_PW`. -/
def loadPlain (srkPasswd : CString) : Run Secret :=
  if srkPasswd.bytes = wellKnown then do
    store .auth 0 (List.replicate 20 0)
    return ⟨.sha1, 20⟩
  else do
    store .auth 0 (List.replicate 128 0)
    store .auth 0 (strncpy srkPasswd.bytes 127)
    let authlen ← strlenAuth
    return ⟨.plain, authlen⟩

/-- The part of `tpm_load_srk` that finds the password; `secretMode` is the engine's setting,
`prompt` is `tpm_engine_get_auth` with the size that it is told, and `encPw` and `pw` are the values
of `TPM_SRK_ENC_PW` and `TPM_SRK_PW`. -/
def loadSrk (allocator : Allocator) (base64 : Base64) (cipher : Cipher) (build : Build)
    (secretMode : SecretMode) (prompt : Nat → Run Bool) (encPw pw : Option CString) :
    Run (Option Secret) :=
  match encPw with
  | some srkPasswd => do
      let authlen ← loadEncrypted allocator base64 cipher build srkPasswd
      return authlen.map fun authlen => ⟨.plain, authlen⟩
  | none =>
      match if build.srkPlainPw then pw else none with
      | some srkPasswd => do
          let secret ← loadPlain srkPasswd
          return some secret
      | none => do
          if ← prompt 128 then
            let authlen ← strlenAuth
            return some ⟨secretMode, authlen⟩
          else return none

end MetaSecurity.Tpm
