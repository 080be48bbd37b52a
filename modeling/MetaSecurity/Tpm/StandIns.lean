import MetaSecurity.Tpm.LoadSrk

/-!
# Stand-ins for the code outside the engine

Decoders, ciphers and a memory that behave as they should. `lastByteCipher` leaves the bytes as they
are and reads the amount of padding from the last one, so every text has a ciphertext and every
whole number of blocks is one. `Record.cipher` adds a single known decryption to it.
-/

namespace MetaSecurity.Tpm

open Library.Buffers

/-- A call that stores what it reports. -/
def Call.ofOutput (ret : Int) (bytes : List Byte) : Call :=
  ⟨ret, bytes, bytes.length, Nat.le_refl _⟩

@[simp] theorem Call.output_ofOutput (ret : Int) (bytes : List Byte) :
    (ofOutput ret bytes).output = bytes := List.take_length

/-- `malloc` that never fails. -/
def plentiful : Allocator where
  malloc n := if 0 ≤ n then some (List.replicate n.toNat 0) else none
  size {n block} h := by
    by_cases hn : 0 ≤ n
    · rw [if_pos hn, Option.some.injEq] at h
      rw [← h, List.length_replicate, Int.toNat_of_nonneg hn]
    · rw [if_neg hn] at h
      cases h

theorem plentiful_malloc (n : Nat) : plentiful.malloc n = some (List.replicate n 0) := by
  rw [plentiful]
  simp

/-- A memory full of zeros. -/
def Start.zeros : Start where
  memory
    | .auth => List.replicate 128 0
    | .aesSalt => List.replicate 8 0
    | .decData => List.replicate 256 0
    | _ => []
  auth := List.length_replicate
  aesSalt := List.length_replicate
  decData := List.length_replicate

/-! ## Decoders -/

/-- A decoder that gives at most `n` zeros. -/
def zeroDecoder (n : Nat) : Base64 where
  decodeUpdate text := .ofOutput 1 (List.replicate (min n (3 * (text.length / 4))) 0)
  decodeFinal _ := .ofOutput 1 []
  update_le {k text} htext := by
    simp only [Call.ofOutput, List.length_replicate]
    omega
  final_le _ := Nat.zero_le _
  total_le {k text} htext := by
    simp only [Call.ofOutput, List.length_replicate, List.length_nil]
    omega

/-- The digits of base64. -/
def base64Alphabet : List Byte :=
  charBytes ["ABCDEFGHIJKLMNOP", "QRSTUVWXYZabcdef", "ghijklmnopqrstuv", "wxyz0123456789+/"]

/-- Four digits are three bytes. -/
def decodeGroups : List Byte → List Byte
  | a :: b :: c :: d :: rest =>
      let n := [a, b, c, d].foldl (fun n digit => 64 * n + base64Alphabet.idxOf digit) 0
      BitVec.ofNat 8 (n / 65536) :: BitVec.ofNat 8 (n / 256) :: BitVec.ofNat 8 n ::
        decodeGroups rest
  | _ => []

theorem length_decodeGroups (text : List Byte) :
    (decodeGroups text).length = 3 * (text.length / 4) := by
  fun_induction decodeGroups text with
  | case1 a b c d rest n ih =>
      simp only [List.length_cons, ih]
      omega
  | case2 text h =>
      have hshort : text.length < 4 := by
        match text, h with
        | [], _ | [_], _ | [_, _], _ | [_, _, _], _ => simp
        | a :: b :: c :: d :: rest, h => exact absurd rfl (h a b c d rest)
      rw [Nat.div_eq_of_lt hshort]
      rfl

/-- A decoder for texts that consist of digits. -/
def digitDecoder : Base64 where
  decodeUpdate text := .ofOutput 1 (decodeGroups text)
  decodeFinal _ := .ofOutput 1 []
  update_le {k text} htext := by
    simp only [Call.ofOutput, length_decodeGroups]
    omega
  final_le _ := Nat.zero_le _
  total_le {k text} htext := by
    simp only [Call.ofOutput, length_decodeGroups, List.length_nil]
    omega

/-! ## Ciphers -/

/-- The amount of padding that the last byte stands for. -/
def padding (data : List Byte) : Nat :=
  (data.getLastD 0).toNat % 16 + 1

theorem padding_zeros (n : Nat) : padding (List.replicate n 0) = 1 := by
  cases n with
  | zero => rfl
  | succ n => simp [padding, List.replicate_succ']

/-- A text with padding, whose bytes are one less than the amount. -/
def padText (text : List Byte) : List Byte :=
  text ++ List.replicate (16 - text.length % 16) (BitVec.ofNat 8 (15 - text.length % 16))

/-- All blocks but the last. -/
def lastByteUpdate (data : List Byte) : Call :=
  .ofOutput 1 (data.take (data.length - 16))

/-- The last block without its padding. -/
def lastByteFinal (data : List Byte) : Call :=
  .ofOutput (if 16 ∣ data.length ∧ data ≠ [] then 1 else 0)
    ((data.drop (data.length - 16)).take (16 - padding data))

theorem length_padText (text : List Byte) :
    (padText text).length = 16 * (text.length / 16 + 1) := by
  rw [padText, List.length_append, List.length_replicate]
  omega

theorem getLastD_padText (text : List Byte) :
    (padText text).getLastD 0 = BitVec.ofNat 8 (15 - text.length % 16) := by
  obtain ⟨n, hn⟩ : ∃ n, 16 - text.length % 16 = n + 1 := ⟨15 - text.length % 16, by omega⟩
  rw [padText, hn, List.replicate_succ', ← List.append_assoc]
  simp

theorem padding_padText (text : List Byte) : padding (padText text) = 16 - text.length % 16 := by
  rw [padding, getLastD_padText, BitVec.toNat_ofNat]
  omega

/-- Whole blocks are decrypted. -/
theorem lastByteFinal_ret {data : List Byte} (h : 16 ∣ data.length) (hne : data ≠ []) :
    (lastByteFinal data).ret ≠ 0 := by
  simp [lastByteFinal, Call.ofOutput, h, hne]

/-- A padded text is decrypted to the text. -/
theorem lastByte_padText (text : List Byte) : (lastByteFinal (padText text)).ret ≠ 0 ∧
    (lastByteUpdate (padText text)).output ++ (lastByteFinal (padText text)).output = text := by
  have hlength := length_padText text
  constructor
  · exact lastByteFinal_ret ⟨_, hlength⟩ (List.length_pos_iff.mp (by omega))
  · rw [lastByteUpdate, lastByteFinal, Call.output_ofOutput, Call.output_ofOutput, padding_padText,
      ← List.take_add]
    have hall : (padText text).length - 16 + (16 - (16 - text.length % 16)) = text.length := by
      omega
    rw [hall, padText, List.take_left]

/-- The bytes that a decryption reports are all but the padding. -/
theorem length_lastByte {data : List Byte} (h : (lastByteFinal data).ret ≠ 0) :
    16 ∣ data.length ∧
      (lastByteUpdate data).length + (lastByteFinal data).length + padding data = data.length := by
  have hpadding : padding data ≤ 16 := Nat.mod_lt _ (by decide)
  have hblocks : 16 ∣ data.length ∧ data ≠ [] := by
    by_contra hnot
    exact h (if_neg hnot)
  obtain ⟨⟨n, hn⟩, hne⟩ := hblocks
  have hpos := List.length_pos_iff.mpr hne
  refine ⟨⟨n, hn⟩, ?_⟩
  simp only [lastByteUpdate, lastByteFinal, Call.ofOutput, List.length_take, List.length_drop]
  omega

/-- A cipher that only adds padding. -/
def lastByteCipher : Cipher where
  available := true
  bytesToKey _ _ _ := ([], [])
  initCipher := true
  initKey _ := true
  update _ := lastByteUpdate
  final _ := lastByteFinal
  update_le _ data := List.length_take_le' _ data
  final_le _ data := by
    simp only [lastByteUpdate, lastByteFinal, Call.ofOutput, List.length_take, List.length_drop]
    omega
  padded {_ data} _ hfinal := by
    obtain ⟨hblocks, htotal⟩ := length_lastByte hfinal
    have hpadding : padding data ≤ 16 := Nat.mod_lt _ (by decide)
    have hpos : 0 < padding data := Nat.succ_pos _
    exact ⟨hblocks, by omega, by omega⟩
  suitable _ text :=
    ⟨padText text, length_padText text, Int.one_ne_zero, lastByte_padText text⟩

/-- The key of a build, a ciphertext, and what `EVP_CipherUpdate` and `EVP_CipherFinal_ex` make of
it. Its last byte is not one of a padded text. -/
structure Record where
  key : Key
  data : List Byte
  first : List Byte
  last : List Byte
  blocks : 16 ∣ data.length
  total_lt : first.length + last.length < data.length
  le_total : data.length ≤ first.length + last.length + 16
  unpadded : 16 ≤ (data.getLastD 0).toNat

variable (record : Record)

/-- `EVP_CipherUpdate`, with the record. -/
def Record.update (data : List Byte) : Call :=
  if data = record.data then .ofOutput 1 record.first else lastByteUpdate data

/-- `EVP_CipherFinal_ex`, with the record. -/
def Record.final (data : List Byte) : Call :=
  if data = record.data then .ofOutput 1 record.last else lastByteFinal data

theorem Record.padText_ne (text : List Byte) : padText text ≠ record.data := by
  intro heq
  have hunpadded := record.unpadded
  rw [← heq, getLastD_padText, BitVec.toNat_ofNat] at hunpadded
  omega

/-- The record, and `lastByteCipher` for all other ciphertexts. -/
def Record.cipher : Cipher where
  available := true
  bytesToKey _ _ _ := record.key
  initCipher := true
  initKey _ := true
  update _ := record.update
  final _ := record.final
  update_le key data := by
    by_cases hdata : data = record.data
    · have htotal := record.total_lt
      simp only [Record.update, hdata, if_true, Call.ofOutput]
      omega
    · simp only [Record.update, hdata, if_false]
      exact lastByteCipher.update_le key data
  final_le key data := by
    by_cases hdata : data = record.data
    · have htotal := record.total_lt
      simp only [Record.update, Record.final, hdata, if_true, Call.ofOutput]
      omega
    · simp only [Record.update, Record.final, hdata, if_false]
      exact lastByteCipher.final_le key data
  padded {key data} hupdate hfinal := by
    by_cases hdata : data = record.data
    · simp only [Record.update, Record.final, hdata, if_true, Call.ofOutput]
      exact ⟨record.blocks, record.total_lt, record.le_total⟩
    · simp only [Record.update, Record.final, hdata, if_false] at hupdate hfinal ⊢
      exact @Cipher.padded lastByteCipher key data hupdate hfinal
  suitable key text := by
    refine ⟨padText text, length_padText text, ?_⟩
    simp only [Record.update, Record.final, record.padText_ne, if_false]
    exact ⟨Int.one_ne_zero, lastByte_padText text⟩

end MetaSecurity.Tpm
