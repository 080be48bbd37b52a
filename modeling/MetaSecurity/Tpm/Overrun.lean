import MetaSecurity.Tpm.StandIns

/-!
# Overruns

Which values of `TPM_SRK_ENC_PW` can make `tpm_load_srk` write behind a buffer. Decoding never does.
Decryption does with the nine blocks of a password of 129 bytes and more, because `dec_data` holds
256 bytes and nothing compares the length of the password with the 128 bytes of `auth`.
The branch for plain passwords stays within `auth` for every value; `neverOverruns_iff` gives the
condition on the length of an encrypted one.
-/

namespace MetaSecurity.Tpm

open Library Buffers

variable {memory : Memory Buffer Byte} {post : Option Nat → Memory Buffer Byte → Prop}

/-! ## Decoding -/

/-- A store to `out_buf` leaves the sizes as they are. -/
theorem sameSizes_store {offset : Nat} {xs : List Byte}
    (h : offset + xs.length ≤ (memory .outBuf).length) (buffer : Buffer) :
    (Function.update memory .outBuf (overwrite offset xs (memory .outBuf)) buffer).length =
      (memory buffer).length := by
  by_cases hbuffer : buffer = .outBuf
  · rw [hbuffer, Function.update_self, length_overwrite h]
  · rw [Function.update_of_ne hbuffer]

/-- What is decoded fits in the buffer that was allocated for it. -/
theorem runs_decodeBase64 (base64 : Base64) {k : Nat} {text : List Byte}
    (htext : text.length = 4 * k) (hsize : (memory .outBuf).length = 3 * k) :
    Runs (decodeBase64 base64 text) memory fun outLen memory' =>
      (∀ buffer, (memory' buffer).length = (memory buffer).length) ∧
        ∀ n, outLen = some n → n ≤ 3 * k := by
  have hupdate : 0 + (base64.decodeUpdate text).stored.length ≤ (memory .outBuf).length := by
    rw [Nat.zero_add, hsize]
    exact base64.update_le htext
  have hsame := sameSizes_store hupdate
  have hfinal : 0 + (base64.decodeFinal text).stored.length ≤
      (Function.update memory .outBuf (overwrite 0 (base64.decodeUpdate text).stored
        (memory .outBuf)) .outBuf).length := by
    rw [Nat.zero_add, hsame, hsize]
    exact base64.final_le htext
  rw [decodeBase64, runs_bind, runs_store, runs_ite]
  refine ⟨hupdate, fun _ => ?_, fun _ => ?_⟩
  · rw [runs_pure]
    exact ⟨hsame, nofun⟩
  · rw [runs_bind, runs_store, runs_ite, runs_pure, runs_pure]
    have hsame' : ∀ buffer, _ := fun buffer => (sameSizes_store hfinal buffer).trans (hsame buffer)
    refine ⟨hfinal, fun _ => ⟨hsame', nofun⟩, fun _ => ⟨hsame', fun n hn => ?_⟩⟩
    rw [← Option.some.inj hn]
    exact base64.total_le htext

/-- A decoder that stores its output at once. -/
theorem runs_decodeBase64_iff {base64 : Base64} {text bytes : List Byte}
    (hupdate : base64.decodeUpdate text = .ofOutput 1 bytes)
    (hfinal : base64.decodeFinal text = .ofOutput 1 [])
    (hsize : bytes.length ≤ (memory .outBuf).length) :
    Runs (decodeBase64 base64 text) memory post ↔ post (some bytes.length)
      (Function.update memory .outBuf (overwrite 0 bytes (memory .outBuf))) := by
  have hone : ¬ (1 : Int) < 0 := by decide
  rw [decodeBase64, hupdate, hfinal]
  simp only [Call.ofOutput, runs_bind, runs_store, runs_ite, runs_pure, hone, hsize,
    Function.update_self, Function.update_idem, overwrite_nil, List.length_nil, Nat.zero_add,
    Nat.add_zero, Nat.zero_le, true_and, false_implies, not_false_eq_true, true_implies]

/-! ## Decrypting -/

/-- Nothing is written behind `dec_data` or behind `auth`. -/
structure Cipher.StaysWithin (cipher : Cipher) (key : Key) (data : List Byte) : Prop where
  update : (cipher.update key data).stored.length ≤ 256
  final : (cipher.update key data).ret ≠ 0 →
    (cipher.update key data).length + (cipher.final key data).stored.length ≤ 256
  auth : (cipher.update key data).ret ≠ 0 → (cipher.final key data).ret ≠ 0 →
    (cipher.update key data).length + (cipher.final key data).length ≤ 128

theorem defined_decryptWith_iff (cipher : Cipher) (key : Key) (data : List Byte)
    (hdecData : (memory .decData).length = 256) (hauth : (memory .auth).length = 128) :
    Defined (decryptWith cipher key data) memory ↔ cipher.StaysWithin key data := by
  have hwithin := (cipher.final key data).within
  -- The stores keep the size of `dec_data`, so each is compared with 256.
  have hfirst : (cipher.update key data).stored.length ≤ 256 →
      (overwrite 0 (cipher.update key data).stored (memory .decData)).length = 256 := fun h => by
    rw [length_overwrite (by omega), hdecData]
  have hsecond : (cipher.update key data).stored.length ≤ 256 →
      (cipher.update key data).length + (cipher.final key data).stored.length ≤ 256 →
      (overwrite (cipher.update key data).length (cipher.final key data).stored
        (overwrite 0 (cipher.update key data).stored (memory .decData))).length = 256 :=
    fun h h' => by rw [length_overwrite (by rw [hfirst h]; exact h'), hfirst h]
  rw [Defined, decryptWith]
  simp only [runs_bind, runs_store, runs_ite, runs_pure, runs_load, Function.update_self,
    Function.update_of_ne (show Buffer.auth ≠ .decData by decide), List.length_take, hdecData,
    hauth, Nat.zero_add, implies_true, true_and, and_true]
  constructor
  · rintro ⟨hupdate, hrest⟩
    rw [hfirst hupdate] at hrest
    refine ⟨hupdate, fun hret => (hrest hret).1, fun hret hlast => ?_⟩
    obtain ⟨hfinal, hcopy⟩ := hrest hret
    have hauth := (hcopy hlast).2
    rw [hsecond hupdate hfinal] at hauth
    omega
  · rintro ⟨hupdate, hfinal, hauth⟩
    refine ⟨hupdate, fun hret => ⟨?_, fun hlast => ?_⟩⟩
    · rw [hfirst hupdate]
      exact hfinal hret
    · rw [hsecond hupdate (hfinal hret)]
      have hcopy := hauth hret hlast
      omega

/-- The key for a build: the salt is filled up with zeros. -/
def Build.key (build : Build) (cipher : Cipher) : Key :=
  cipher.bytesToKey (build.srkDecSalt ++ List.replicate (pkcs5SaltLen - build.srkDecSalt.length) 0)
    build.srkDecPw 1

/-- The salt is copied over zeros. -/
theorem overwrite_zeros (salt : List Byte) :
    overwrite 0 salt (List.replicate pkcs5SaltLen 0) =
      salt ++ List.replicate (pkcs5SaltLen - salt.length) 0 := by
  rw [overwrite, List.take_zero, List.nil_append, Nat.zero_add, List.drop_replicate]

/-- A decryption is defined if the build has no key, or else if it stays within the buffers. -/
theorem defined_decryptSrkPw_iff (allocator : Allocator) (cipher : Cipher) (build : Build)
    (data : List Byte) (haesSalt : (memory .aesSalt).length = pkcs5SaltLen)
    (hdecData : (memory .decData).length = 256) (hauth : (memory .auth).length = 128) :
    Defined (decryptSrkPw allocator cipher build data) memory ↔
      (build.srkDecSalt.length ≤ pkcs5SaltLen → allocator.malloc build.srkDecPw.length ≠ none →
        cipher.usable (build.key cipher) = true → cipher.StaysWithin (build.key cipher) data) := by
  rw [decryptSrkPw, Defined, runs_ite]
  rcases Nat.lt_or_ge pkcs5SaltLen build.srkDecSalt.length with hsalt | hsalt
  · simp [hsalt, Nat.not_le.mpr hsalt]
  cases hmalloc : allocator.malloc build.srkDecPw.length with
  | none => simp
  | some block =>
      have hpw : overwrite 0 build.srkDecPw block = build.srkDecPw :=
        overwrite_all (Int.ofNat.inj (allocator.size hmalloc)).symm
      have hblock : build.srkDecPw.length ≤ block.length :=
        Nat.le_of_eq (Int.ofNat.inj (allocator.size hmalloc)).symm
      have hzeros : overwrite 0 (List.replicate pkcs5SaltLen 0) (memory .aesSalt) =
          List.replicate pkcs5SaltLen 0 := overwrite_all (by rw [List.length_replicate, haesSalt])
      have hfilled : (build.srkDecSalt ++
          List.replicate (pkcs5SaltLen - build.srkDecSalt.length) 0).length = pkcs5SaltLen := by
        rw [List.length_append, List.length_replicate]
        omega
      -- With the contents of the two buffers known, the key is the one of the build.
      simp only [runs_bind, runs_allocate, runs_store, runs_load, runs_ite, runs_pure, ne_eq,
        Function.update_self, Function.update_of_ne, reduceCtorEq, not_false_eq_true, Nat.zero_add,
        hpw, hzeros, overwrite_zeros, hfilled, List.take_of_length_le (Nat.le_of_eq hfilled),
        List.take_length, List.length_replicate, haesSalt, hblock, hsalt, Nat.not_lt.mpr hsalt,
        Nat.le_refl, true_and, true_implies, implies_true, and_true]
      refine imp_congr_right fun _ => defined_decryptWith_iff cipher _ data ?_ ?_
      · simp [hdecData]
      · simp [hauth]

/-- Fewer than 144 bytes are at most eight blocks with at least one byte of padding. -/
theorem Cipher.staysWithin_of_lt (cipher : Cipher) (key : Key) {data : List Byte}
    (h : data.length < 144) : cipher.StaysWithin key data where
  update := by
    have hupdate := cipher.update_le key data
    omega
  final _ := by
    have hfinal := cipher.final_le key data
    omega
  auth hupdate hfinal := by
    obtain ⟨hblocks, htotal, -⟩ := cipher.padded hupdate hfinal
    omega

/-- Whatever the cipher and the key are, the nine blocks that a text of 130 bytes is encrypted to
do not stay within the buffers. -/
theorem Cipher.exists_not_staysWithin (cipher : Cipher) (key : Key) :
    ∃ data, data.length = 144 ∧ ¬ cipher.StaysWithin key data := by
  obtain ⟨data, hlength, hupdate, hfinal, houtput⟩ := cipher.suitable key (List.replicate 130 0)
  refine ⟨data, by rw [hlength, List.length_replicate], fun hstays => ?_⟩
  have hauth := hstays.auth hupdate hfinal
  have htotal := congrArg List.length houtput
  rw [List.length_append, Call.length_output, Call.length_output, List.length_replicate] at htotal
  omega

/-- Every working installation has a ciphertext that it must not be given. -/
theorem exists_not_defined_decryptSrkPw {allocator : Allocator} {cipher : Cipher} {build : Build}
    (hsalt : build.srkDecSalt.length ≤ pkcs5SaltLen)
    (hmalloc : allocator.malloc build.srkDecPw.length ≠ none)
    (husable : cipher.usable (build.key cipher) = true) (start : Start) :
    ∃ data, data.length = 144 ∧
      ¬ Defined (decryptSrkPw allocator cipher build data) start.memory := by
  obtain ⟨data, hlength, hstays⟩ := cipher.exists_not_staysWithin (build.key cipher)
  refine ⟨data, hlength, fun hdefined => hstays ?_⟩
  exact (defined_decryptSrkPw_iff allocator cipher build data start.aesSalt start.decData
    start.auth).mp hdefined hsalt hmalloc husable

/-! ## The whole branch -/

/-- An accepted length is four times a number, and the block is three times as large. -/
theorem exists_of_accepted {allocator : Allocator} {length : Int} {block : List Byte}
    (haccepted : ¬ (length = 0 ∨ length.tmod 4 ≠ 0))
    (hmalloc : allocator.malloc ((length * 3).tdiv 4) = some block) :
    ∃ k : Nat, length = 4 * k ∧ block.length = 3 * k := by
  rw [not_or, not_not] at haccepted
  obtain ⟨j, rfl⟩ := Int.dvd_of_tmod_eq_zero haccepted.2
  have hsize := allocator.size hmalloc
  rw [Int.mul_assoc, Int.mul_tdiv_cancel_left _ (by decide)] at hsize
  obtain ⟨k, rfl⟩ := Int.eq_ofNat_of_zero_le (show 0 ≤ j by omega)
  exact ⟨k, rfl, by omega⟩

/-- A conversion to `int` does not make a length larger. -/
theorem bmod_le_natCast (n m : Nat) : Int.bmod n m ≤ n := by
  have hmod : (n : Int) % m ≤ n := by
    rw [← Int.natCast_emod]
    exact Int.ofNat_le.mpr (Nat.mod_le n m)
  rw [Int.bmod_def]
  split
  · exact hmod
  · exact Int.le_trans (Int.sub_le_self _ (Int.natCast_nonneg m)) hmod

/-- The characters that are decoded. -/
theorem CString.length_take (s : CString) {k : Nat} (h : s.length = 4 * k) :
    (s.bytes.take s.length.toNat).length = 4 * k := by
  have hle : s.length ≤ s.bytes.length := bmod_le_natCast s.bytes.length (2 ^ 32)
  rw [List.length_take]
  omega

/-- The condition on a value and a build: a length that is accepted is not too large. -/
def Build.Fits (build : Build) (srkPasswd : CString) : Prop :=
  srkPasswd.length ≠ 0 → srkPasswd.length.tmod 4 = 0 → signed32 (srkPasswd.length * 3) ∧
    (build.srkDecSalt.length ≤ pkcs5SaltLen → srkPasswd.length < 192)

theorem defined_loadEncrypted (allocator : Allocator) (base64 : Base64) (cipher : Cipher)
    {build : Build} {srkPasswd : CString} (h : build.Fits srkPasswd) (start : Start) :
    Defined (loadEncrypted allocator base64 cipher build srkPasswd) start.memory := by
  rw [loadEncrypted, Defined, runs_ite]
  refine ⟨fun _ => runs_pure.mpr trivial, fun haccepted => ?_⟩
  obtain ⟨hne, hmod⟩ := not_or.mp haccepted
  obtain ⟨hrange, hlt⟩ := h hne (not_not.mp hmod)
  rw [runs_bind, runs_checked]
  refine ⟨hrange, ?_⟩
  cases hmalloc : allocator.malloc ((srkPasswd.length * 3).tdiv 4) with
  | none => exact runs_pure.mpr trivial
  | some block =>
      obtain ⟨k, hk, hblock⟩ := exists_of_accepted haccepted hmalloc
      rw [runs_bind, runs_allocate, runs_bind]
      refine (runs_decodeBase64 base64 (srkPasswd.length_take hk)
        (by rw [Function.update_self, hblock])).mono fun outLen memory' hdecoded => ?_
      obtain ⟨hsame, hle⟩ := hdecoded
      cases outLen with
      | none => exact runs_pure.mpr trivial
      | some n =>
          have hn := hle n rfl
          rw [runs_bind, runs_load, hsame, Function.update_self, hblock]
          refine ⟨hn, (defined_decryptSrkPw_iff _ cipher build _ ?_ ?_ ?_).mpr
            fun hsalt _ _ => cipher.staysWithin_of_lt _ ?_⟩
          · rw [hsame]
            exact start.aesSalt
          · rw [hsame]
            exact start.decData
          · rw [hsame]
            exact start.auth
          · have hshort := hlt hsalt
            rw [List.length_take]
            omega

/-- Where everything before the decryption succeeds, the decryption decides. -/
theorem defined_loadEncrypted_iff {base64 : Base64} {cipher : Cipher} {build : Build}
    {srkPasswd : CString} {k : Nat} {bytes : List Byte} (hlength : srkPasswd.length = 4 * k)
    (hpos : 0 < k) (hrange : signed32 (srkPasswd.length * 3))
    (hupdate : base64.decodeUpdate (srkPasswd.bytes.take srkPasswd.length.toNat) =
      .ofOutput 1 bytes)
    (hfinal : base64.decodeFinal (srkPasswd.bytes.take srkPasswd.length.toNat) = .ofOutput 1 [])
    (start : Start) :
    Defined (loadEncrypted plentiful base64 cipher build srkPasswd) start.memory ↔
      (build.srkDecSalt.length ≤ pkcs5SaltLen → cipher.usable (build.key cipher) = true →
        cipher.StaysWithin (build.key cipher) bytes) := by
  have haccepted : ¬ (srkPasswd.length = 0 ∨ srkPasswd.length.tmod 4 ≠ 0) := by
    rw [hlength, Int.mul_tmod_right]
    omega
  have hblock : plentiful.malloc ((srkPasswd.length * 3).tdiv 4) =
      some (List.replicate (3 * k) 0) := by
    have hproduct : (srkPasswd.length * 3).tdiv 4 = (3 * k : Nat) := by
      rw [hlength, Int.mul_assoc, Int.mul_tdiv_cancel_left _ (by decide)]
      omega
    rw [hproduct, plentiful_malloc]
  have hbytes : bytes.length ≤ (List.replicate (3 * k) (0 : Byte)).length := by
    have hle := base64.update_le (srkPasswd.length_take hlength)
    rwa [hupdate, ← List.length_replicate (n := 3 * k) (a := (0 : Byte))] at hle
  have hpw : plentiful.malloc build.srkDecPw.length ≠ none := by
    rw [plentiful_malloc]
    exact Option.some_ne_none _
  rw [loadEncrypted, Defined, if_neg haccepted, runs_bind, runs_checked, hblock,
    and_iff_right hrange, runs_bind, runs_allocate, runs_bind, runs_decodeBase64_iff hupdate hfinal]
  · rw [runs_bind, runs_load, Function.update_self, Function.update_self, take_overwrite,
      length_overwrite (by rwa [Nat.zero_add]), and_iff_right hbytes]
    refine (defined_decryptSrkPw_iff plentiful cipher build bytes ?_ ?_ ?_).trans ?_
    · exact start.aesSalt
    · exact start.decData
    · exact start.auth
    · exact imp_congr_right fun _ => forall_prop_of_true hpw
  · rwa [Function.update_self]

/-! ## Plain passwords -/

/-- `strncpy` writes as many bytes as it is told. -/
theorem length_strncpy (src : List Byte) (n : Nat) : (strncpy src n).length = n := by
  rw [strncpy, List.length_append, List.length_take, List.length_replicate]
  omega

/-- A buffer that ends in a NUL byte holds a shorter string. -/
theorem runs_strlenAuth {contents : List Byte} (hlength : contents.length = 127)
    (hauth : memory .auth = contents ++ [0]) :
    Runs strlenAuth memory fun authlen _ => authlen ≤ 127 := by
  have hsize : (contents ++ [0]).length = 128 := by simp [hlength]
  have hshort : ((contents ++ [0]).takeWhile (· ≠ 0)).length ≤ 127 := by
    rw [List.takeWhile_append]
    split
    · simp [hlength]
    · exact Nat.le_trans (List.takeWhile_sublist _).length_le (Nat.le_of_eq hlength)
  rw [strlenAuth, runs_bind, runs_load, hauth, List.take_of_length_le (Nat.le_of_eq hsize)]
  refine ⟨Nat.le_of_eq hsize.symm, ?_⟩
  rw [if_pos (by simp), runs_pure]
  exact hshort

/-- The branch for plain passwords stays within `auth` for every value, and the password ends
there. -/
theorem runs_loadPlain (srkPasswd : CString) (start : Start) :
    Runs (loadPlain srkPasswd) start.memory fun secret _ => secret.authlen ≤ 127 := by
  rw [loadPlain, runs_ite]
  refine ⟨fun _ => ?_, fun _ => ?_⟩
  · rw [runs_bind, runs_store, runs_pure, start.auth]
    exact ⟨by simp, by simp⟩
  · have hzeros : overwrite 0 (List.replicate 128 0) (start.memory .auth) = List.replicate 128 0 :=
      overwrite_all (by rw [List.length_replicate, start.auth])
    have hcopied : overwrite 0 (strncpy srkPasswd.bytes 127) (List.replicate 128 0) =
        strncpy srkPasswd.bytes 127 ++ [0] := by
      rw [overwrite, length_strncpy, List.drop_replicate]
      rfl
    rw [runs_bind, runs_store, start.auth, hzeros]
    refine ⟨by simp, ?_⟩
    rw [runs_bind, runs_store, Function.update_self, hcopied, length_strncpy]
    refine ⟨by simp, ?_⟩
    rw [runs_bind]
    refine (runs_strlenAuth (length_strncpy _ _) (Function.update_self ..)).mono ?_
    exact fun authlen memory' hle => runs_pure.mpr hle

theorem defined_loadSrk_plain (allocator : Allocator) (base64 : Base64) (cipher : Cipher)
    {build : Build} (h : build.srkPlainPw = true) (secretMode : SecretMode)
    (prompt : Nat → Run Bool) (srkPasswd : CString) (start : Start) :
    Defined (loadSrk allocator base64 cipher build secretMode prompt none (some srkPasswd))
      start.memory := by
  rw [loadSrk, if_pos h, Defined, runs_bind]
  exact (runs_loadPlain srkPasswd start).mono fun _ _ _ => runs_pure.mpr trivial

/-! ## The exact condition -/

/-- Whatever OpenSSL, `malloc` and the memory are, loading the password of this value has no
fault. -/
def Build.NeverOverruns (build : Build) (srkPasswd : CString) : Prop :=
  ∀ (allocator : Allocator) (base64 : Base64) (cipher : Cipher) (secretMode : SecretMode)
    (prompt : Nat → Run Bool) (pw : Option CString) (start : Start),
    Defined (loadSrk allocator base64 cipher build secretMode prompt (some srkPasswd) pw)
      start.memory

theorem defined_loadSrk_iff {allocator : Allocator} {base64 : Base64} {cipher : Cipher}
    {build : Build} {secretMode : SecretMode} {prompt : Nat → Run Bool} {srkPasswd : CString}
    {pw : Option CString} :
    Defined (loadSrk allocator base64 cipher build secretMode prompt (some srkPasswd) pw) memory ↔
      Defined (loadEncrypted allocator base64 cipher build srkPasswd) memory := by
  simp [loadSrk, Defined]

/-- A text of zeros with one byte of padding is too long for `auth`. -/
theorem not_staysWithin_zeros (key : Key) :
    ¬ lastByteCipher.StaysWithin key (List.replicate 144 0) := by
  intro hstays
  have hfinal : (lastByteFinal (List.replicate 144 0)).ret ≠ 0 :=
    lastByteFinal_ret ⟨9, List.length_replicate⟩ (List.replicate_succ ▸ List.cons_ne_nil _ _)
  have hauth := hstays.auth Int.one_ne_zero hfinal
  have htotal := (length_lastByte hfinal).2
  rw [padding_zeros, List.length_replicate] at htotal
  change (lastByteUpdate _).length + (lastByteFinal _).length ≤ 128 at hauth
  omega

/-- Loading the password stays within all buffers exactly if an accepted length is less than 192,
unless the build's salt is too long for decryption, and three times the length is an `int`. -/
theorem neverOverruns_iff (build : Build) (srkPasswd : CString) :
    build.NeverOverruns srkPasswd ↔ build.Fits srkPasswd := by
  constructor
  · intro hnever hne hmod
    have hdefined := defined_loadSrk_iff.mp (hnever plentiful (zeroDecoder 144) lastByteCipher
      .plain (fun _ => pure false) none Start.zeros)
    have hrange : signed32 (srkPasswd.length * 3) := by
      rw [loadEncrypted, Defined, if_neg (not_or.mpr ⟨hne, not_not.mpr hmod⟩), runs_bind,
        runs_checked] at hdefined
      exact hdefined.1
    refine ⟨hrange, fun hsalt => Int.not_le.mp fun hlong => ?_⟩
    obtain ⟨j, hj⟩ := Int.dvd_of_tmod_eq_zero hmod
    obtain ⟨k, rfl⟩ := Int.eq_ofNat_of_zero_le (show 0 ≤ j by omega)
    -- The decoder gives nine blocks, as there are enough characters.
    have hmin : min 144 (3 * ((srkPasswd.bytes.take srkPasswd.length.toNat).length / 4)) = 144 := by
      rw [srkPasswd.length_take hj]
      omega
    have hupdate : (zeroDecoder 144).decodeUpdate (srkPasswd.bytes.take srkPasswd.length.toNat) =
        .ofOutput 1 (List.replicate 144 0) :=
      congrArg (fun n => Call.ofOutput 1 (List.replicate n 0)) hmin
    have hstays := (defined_loadEncrypted_iff hj (by omega) hrange hupdate rfl Start.zeros).mp
      hdefined hsalt rfl
    exact not_staysWithin_zeros _ hstays
  · intro hfits allocator base64 cipher secretMode prompt pw start
    exact defined_loadSrk_iff.mpr (defined_loadEncrypted allocator base64 cipher hfits start)

/-! ## A password of 130 bytes -/

/-- The value of `TPM_SRK_ENC_PW` for a password of 130 letters `a`, with the recipe's key. -/
def longPasswd : CString where
  bytes := charBytes [
    "+iQa3D35WIk7dRdA", "a0JAGN9hFXKJwIZC", "9aNho52pMyqmzLsF", "CSSRWvD9vTUgzRZe",
    "mrpNKsglsqYl7UiP", "oFEZqiyxH3kRGKzf", "BoIB0u70BEycJuXh", "W5s77uVVkUMvGMro",
    "EaLDiNoj3eEzkPs8", "NjuC4feDOwCBLsSf", "lwU1hjyfO4bmCk7K", "crujytNjWT9yJmk7"]
  noNul := by decide +kernel

theorem length_longPasswd : longPasswd.bytes.length = 192 := by decide +kernel

/-- The recipe's key, and the decryption of the value. -/
def longRecord : Record where
  key :=
    ([0x29, 0x6b, 0xba, 0x41, 0x68, 0xb6, 0x85, 0x6b,
      0xe6, 0xb3, 0x63, 0x6f, 0x16, 0x9f, 0x2d, 0x55],
     [0x4f, 0x1d, 0xa0, 0x60, 0x58, 0x39, 0x86, 0x50,
      0x79, 0x18, 0x20, 0x84, 0x2e, 0xa6, 0x3b, 0xaf])
  data := decodeGroups longPasswd.bytes
  first := List.replicate 128 0x61
  last := List.replicate 2 0x61
  blocks := by
    rw [length_decodeGroups, length_longPasswd]
    decide
  total_lt := by
    rw [length_decodeGroups, length_longPasswd]
    simp
  le_total := by
    rw [length_decodeGroups, length_longPasswd]
    simp
  unpadded := by decide +kernel

/-- It is copied to the end of `auth` and beyond. -/
theorem longPasswd_overruns :
    Exceptions.raisedBy (loadSrk plentiful digitDecoder longRecord.cipher defaultBuild .plain
      (fun _ => pure false) (some longPasswd) none) Start.zeros.memory = some (.overrun .auth) ∧
    ¬ ∀ srkPasswd, defaultBuild.NeverOverruns srkPasswd := by
  have hraised : Exceptions.raisedBy (loadSrk plentiful digitDecoder longRecord.cipher defaultBuild
      .plain (fun _ => pure false) (some longPasswd) none) Start.zeros.memory =
        some (.overrun .auth) := by decide +kernel
  refine ⟨hraised, fun hnever => ?_⟩
  have hdefined := hnever longPasswd plentiful digitDecoder longRecord.cipher .plain
    (fun _ => pure false) none Start.zeros
  rw [defined_iff, hraised] at hdefined
  exact Option.some_ne_none _ hdefined

end MetaSecurity.Tpm
