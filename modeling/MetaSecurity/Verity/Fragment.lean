import MetaSecurity.Verity.Calls
import MetaSecurity.Verity.Environment

/-!
# The `.wks.in` fragment

In separate mode `process_verity` writes a fragment for `wic` with a line for the data partition and
one for the hash partition. A line names the file that goes into the partition and the UUID that
the partition gets.
-/

namespace MetaSecurity.Verity

open Library Shell

/-! ## Reading a fragment -/

/-- The values of a word like `--uuid="..."` without the quotes. -/
def quotedValues (option : Text) (words : List Text) : List Text :=
  (optionValues option words).map List.dropLast

def sourceFile : Text := "--sourceparams=\"file=".toList

def partitionUuid : Text := "--uuid=\"".toList

/-- The UUIDs that a `.wks.in` fragment gives to the partition made from a file. -/
def uuidsOfFile (wks file : Text) : List Text :=
  (records '\n' wks).flatMap fun line =>
    if quotedValues sourceFile (fields isIfs line) = [file] then
      quotedValues partitionUuid (fields isIfs line)
    else []

/-! ## The lines of a fragment -/

/-- The quote that closes an argument. -/
def quote : Text := "\"".toList

def partName : Text := "--part-name".toList

def partType : Text := "--part-type=\"".toList

/-- A line of the fragment, cut at its blanks. -/
theorem partLine_eq (part file name guid uuid : Text) :
    Config.partLine part file name guid uuid =
      part ++ ' ' :: ("--source rawcopy --ondisk sda".toList ++
        ' ' :: (sourceFile ++ (file ++ quote) ++ ' ' :: (partName ++ ' ' :: (name ++
          ' ' :: (partType ++ (guid ++ quote) ++
            ' ' :: (partitionUuid ++ (uuid ++ quote))))))) := by
  have hsource : " --source rawcopy --ondisk sda --sourceparams=\"file=".toList =
      ' ' :: ("--source rawcopy --ondisk sda".toList ++ ' ' :: sourceFile) := by decide
  have hpartName : "\" --part-name ".toList = quote ++ ' ' :: (partName ++ [' ']) := by decide
  have hpartType : " --part-type=\"".toList = ' ' :: partType := by decide
  have hpartUuid : "\" --uuid=\"".toList = quote ++ ' ' :: partitionUuid := by decide
  unfold Config.partLine
  rw [hsource, hpartName, hpartType, hpartUuid]
  simp only [List.append_assoc, List.cons_append, List.nil_append]
  rfl

/-- An option with a quoted value is one word. -/
theorem fields_quoted {option value : Text} (hne : option ≠ [])
    (hoption : (option.all fun c => !isIfs c) = true) (hvalue : value.all isPathChar = true) :
    fields isIfs (option ++ (value ++ quote)) = [option ++ (value ++ quote)] := by
  have hquote : ∀ d ∈ quote, isIfs d = false := List.forall_iff_forall_mem.mp (by decide)
  refine fields_eq_singleton (List.append_ne_nil_of_left_ne_nil hne _) fun c hc => ?_
  rcases List.mem_append.mp hc with hc | hc
  · simpa using List.all_eq_true.mp hoption c hc
  rcases List.mem_append.mp hc with hc | hc
  · exact (callChar_spec (callChar_of_path hvalue c hc)).1
  · exact hquote c hc

section

variable (part : Text) {file name guid uuid : Text} (hfile : file.all isPathChar = true)
  (hname : fields isIfs name = [name]) (hguid : guid.all isPathChar = true)
  (huuid : uuid.all isPathChar = true)

include hfile hname hguid huuid

/-- The words of a line of the fragment. -/
theorem fields_partLine :
    fields isIfs (Config.partLine part file name guid uuid) =
      fields isIfs part ++ ["--source".toList, "rawcopy".toList, "--ondisk".toList, "sda".toList,
        sourceFile ++ (file ++ quote), partName, name, partType ++ (guid ++ quote),
        partitionUuid ++ (uuid ++ quote)] := by
  have hblank : isIfs ' ' = true := by decide
  have hmiddle : fields isIfs "--source rawcopy --ondisk sda".toList =
      ["--source".toList, "rawcopy".toList, "--ondisk".toList, "sda".toList] := by decide
  have hpart : fields isIfs partName = [partName] := by decide
  have hsource : fields isIfs (sourceFile ++ (file ++ quote)) = [sourceFile ++ (file ++ quote)] :=
    fields_quoted (by decide) (by decide) hfile
  have htype : fields isIfs (partType ++ (guid ++ quote)) = [partType ++ (guid ++ quote)] :=
    fields_quoted (by decide) (by decide) hguid
  have huuidWord : fields isIfs (partitionUuid ++ (uuid ++ quote)) =
      [partitionUuid ++ (uuid ++ quote)] :=
    fields_quoted (by decide) (by decide) huuid
  rw [partLine_eq, fields_append_cons hblank, fields_append_cons hblank, fields_append_cons hblank,
    fields_append_cons hblank, fields_append_cons hblank, fields_append_cons hblank, hmiddle,
    hsource, hpart, hname, htype, huuidWord]
  rfl

/-- An option takes its values from the words that contain `=`. -/
theorem optionValues_partLine (hpart : ∀ word ∈ fields isIfs part, '=' ∉ word)
    (hequals : '=' ∉ name) {option : Text} (hoption : '=' ∈ option) :
    optionValues option (fields isIfs (Config.partLine part file name guid uuid)) =
      optionValues option [sourceFile ++ (file ++ quote)] ++
        optionValues option [partType ++ (guid ++ quote), partitionUuid ++ (uuid ++ quote)] := by
  have hnone : ∀ word : Text, '=' ∉ word → option.isPrefixOf word = false := fun word hword =>
    (not_option_of_no_equals hword).2 option hoption
  have hfront : ∀ word ∈ fields isIfs part ++ ["--source".toList, "rawcopy".toList,
      "--ondisk".toList, "sda".toList], '=' ∉ word := by
    have hmiddle : ∀ word ∈ ["--source".toList, "rawcopy".toList, "--ondisk".toList,
        "sda".toList], '=' ∉ word := by decide
    intro word hword
    exact (List.mem_append.mp hword).elim (hpart word) (hmiddle word)
  have hnames : ∀ word ∈ [partName, name], '=' ∉ word := by
    intro word hword
    simp only [List.mem_cons, List.not_mem_nil, or_false] at hword
    rcases hword with rfl | rfl
    · decide
    · exact hequals
  have hsplit : fields isIfs (Config.partLine part file name guid uuid) =
      (fields isIfs part ++
        ["--source".toList, "rawcopy".toList, "--ondisk".toList, "sda".toList]) ++
        ([sourceFile ++ (file ++ quote)] ++ ([partName, name] ++
          [partType ++ (guid ++ quote), partitionUuid ++ (uuid ++ quote)])) := by
    rw [fields_partLine part hfile hname hguid huuid, List.append_assoc]
    rfl
  -- neither the words of the part nor the name of the partition has a value
  rw [hsplit, optionValues_append,
    optionValues_eq_nil fun word hword => hnone word (hfront word hword), List.nil_append,
    optionValues_append, optionValues_append option [partName, name],
    optionValues_eq_nil fun word hword => hnone word (hnames word hword), List.nil_append]

/-- The file and the UUID of a line of the fragment. -/
theorem quotedValues_partLine (hpart : ∀ word ∈ fields isIfs part, '=' ∉ word)
    (hequals : '=' ∉ name) :
    quotedValues sourceFile (fields isIfs (Config.partLine part file name guid uuid)) = [file] ∧
      quotedValues partitionUuid (fields isIfs (Config.partLine part file name guid uuid)) =
        [uuid] := by
  have hvalues : ∀ option : Text, '=' ∈ option → _ := fun option hoption =>
    optionValues_partLine part hfile hname hguid huuid hpart hequals hoption
  have hdrop : ∀ value : Text, (value ++ quote).dropLast = value := fun value =>
    List.dropLast_concat
  constructor
  · rw [quotedValues, hvalues sourceFile (by decide), optionValues_cons_append,
      optionValues_cons_of_not rfl, optionValues_cons_of_not rfl]
    simp [optionValues, hdrop]
  · rw [quotedValues, hvalues partitionUuid (by decide), optionValues_cons_of_not rfl,
      optionValues_cons_of_not rfl, optionValues_cons_append]
    simp [optionValues, hdrop]

end

/-- A line of the fragment is printed by `echo` as it stands. -/
theorem echo_partLine (echo : Echo) (part name : Text) {file guid uuid : Text}
    (hpart : part.head? = some 'p') (hplain : ∀ c ∈ part ++ name, c ≠ '\\' ∧ c ≠ '\n')
    (hfile : file.all isPathChar = true) (hguid : guid.all isPathChar = true)
    (huuid : uuid.all isPathChar = true) :
    echo.output [Config.partLine part file name guid uuid] =
        Config.partLine part file name guid uuid ++ ['\n'] ∧
      '\n' ∉ Config.partLine part file name guid uuid := by
  have hpath : ∀ t : Text, t.all isPathChar = true → ∀ c ∈ t, c ≠ '\\' ∧ c ≠ '\n' := by
    intro t ht c hc
    have hchar := List.all_eq_true.mp ht c hc
    constructor <;> rintro rfl <;> exact absurd hchar (by decide)
  have hclosed : ∀ t ∈ [" --source rawcopy --ondisk sda --sourceparams=\"file=".toList,
      "\" --part-name ".toList, " --part-type=\"".toList, "\" --uuid=\"".toList, quote],
      ∀ c ∈ t, c ≠ '\\' ∧ c ≠ '\n' := by
    intro t ht
    refine List.forall_iff_forall_mem.mp ?_
    revert t
    decide
  have hchars : ∀ c ∈ Config.partLine part file name guid uuid, c ≠ '\\' ∧ c ≠ '\n' := by
    intro c hc
    unfold Config.partLine at hc
    simp only [List.mem_append] at hc
    rcases hc with ((((((((hc | hc) | hc) | hc) | hc) | hc) | hc) | hc) | hc) | hc
    · exact hplain c (List.mem_append_left _ hc)
    · exact hclosed _ (by simp) c hc
    · exact hpath file hfile c hc
    · exact hclosed _ (by simp) c hc
    · exact hplain c (List.mem_append_right _ hc)
    · exact hclosed _ (by simp) c hc
    · exact hpath guid hguid c hc
    · exact hclosed _ (by simp) c hc
    · exact hpath uuid huuid c hc
    · exact hclosed quote (by simp) c hc
  have hhead : (Config.partLine part file name guid uuid).head? = some 'p' := by
    obtain ⟨rest, rfl⟩ : ∃ rest, part = 'p' :: rest := by
      cases part with
      | nil => cases hpart
      | cons c rest => exact ⟨rest, by rw [Option.some.inj hpart]⟩
    rfl
  refine ⟨echo.output_singleton ?_ fun hmem => (hchars _ hmem).1 rfl,
    fun hmem => (hchars _ hmem).2 rfl⟩
  rw [hhead]
  decide

section

variable (c : Config)

/-- The name of a partition's file has no special characters. -/
theorem partitionFile_path {extension : Text} (h : extension.all isPathChar = true) :
    (c.partitionFile extension).all isPathChar = true := by
  have hall := c.plain
  have hslash : isPathChar '/' = true ∧ isPathChar '-' = true ∧ isPathChar '.' = true := by decide
  simp only [List.mem_cons, List.not_mem_nil, or_false, forall_eq_or_imp, forall_eq] at hall
  simp only [Config.partitionFile, List.all_append, List.all_cons, hall, hslash, h, Bool.and_self]

theorem partitionFile_ne :
    c.partitionFile ".vhash".toList ≠ c.partitionFile ".verity".toList := by
  intro h
  have hsuffix : ".vhash".toList = ".verity".toList := List.append_cancel_left h
  revert hsuffix
  decide

theorem partitionUuid_path (rootHash : RootHash) (operator : Char) :
    (halfUuid rootHash operator).all isPathChar = true :=
  pathChar_of_uuidChar (isUuidChar_of_mem_uuidText (hex_printed (hex_halfDigits rootHash operator)))

/-- The lines of the fragment. -/
theorem records_wksFragment (tools : Tools) (rootHash : RootHash) :
    records '\n' (wksFragment c tools rootHash) =
      [c.dataPart (halfUuid rootHash '/'), c.hashPart (halfUuid rootHash '%')] := by
  obtain ⟨hdataEcho, hdataLine⟩ := echo_partLine tools.echo "part /".toList "verityroot".toList rfl
    (List.forall_iff_forall_mem.mp (by decide))
    (partitionFile_path c (show ".verity".toList.all isPathChar = true by decide))
    (c.plain c.rootGuid (by simp)) (partitionUuid_path rootHash '/')
  obtain ⟨hhashEcho, hhashLine⟩ := echo_partLine tools.echo "part".toList "verityhash".toList rfl
    (List.forall_iff_forall_mem.mp (by decide))
    (partitionFile_path c (show ".vhash".toList.all isPathChar = true by decide))
    (c.plain c.rhashGuid (by simp)) (partitionUuid_path rootHash '%')
  rw [wksFragment, Config.dataPart, Config.hashPart, hdataEcho, hhashEcho, List.append_assoc,
    List.singleton_append, records_append_cons hdataLine, records_append_cons hhashLine,
    records_nil]

/-- The fragment gives the first UUID to the data file and the second one to the hash file. -/
theorem uuidsOfFile_wksFragment (tools : Tools) (rootHash : RootHash) :
    uuidsOfFile (wksFragment c tools rootHash) (c.partitionFile ".verity".toList) =
        [halfUuid rootHash '/'] ∧
      uuidsOfFile (wksFragment c tools rootHash) (c.partitionFile ".vhash".toList) =
        [halfUuid rootHash '%'] := by
  have hne := partitionFile_ne c
  have hdata := quotedValues_partLine "part /".toList
    (partitionFile_path c (show ".verity".toList.all isPathChar = true by decide))
    (show fields isIfs "verityroot".toList = ["verityroot".toList] by decide)
    (c.plain c.rootGuid (by simp)) (partitionUuid_path rootHash '/') (by decide) (by decide)
  have hhash := quotedValues_partLine "part".toList
    (partitionFile_path c (show ".vhash".toList.all isPathChar = true by decide))
    (show fields isIfs "verityhash".toList = ["verityhash".toList] by decide)
    (c.plain c.rhashGuid (by simp)) (partitionUuid_path rootHash '%') (by decide) (by decide)
  simp only [uuidsOfFile, records_wksFragment, List.flatMap_cons, List.flatMap_nil, Config.dataPart,
    Config.hashPart, hdata.1, hdata.2, hhash.1, hhash.2, List.append_nil]
  constructor
  · rw [if_pos trivial, if_neg fun h => hne (List.singleton_inj.mp h), List.append_nil]
  · rw [if_neg fun h => hne (List.singleton_inj.mp h).symm, if_pos trivial, List.nil_append]

end

end MetaSecurity.Verity
