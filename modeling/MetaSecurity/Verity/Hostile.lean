import MetaSecurity.Verity.SafeCall

/-!
# Only safe calls fail closed

Commands that do the worst that their documentation allows: a directory in which every pattern
matches, a `veritysetup` that creates a mapping whenever the words of the call are not those that
are documented, and a `mount` that takes whatever is mapped. Calls that fail closed with all of them
are safe.
-/

namespace MetaSecurity.Verity

open Library Shell

/-! ## Hostile commands -/

/-- A `veritysetup` that never creates anything. -/
def Veritysetup.refusing : Veritysetup where
  run _ _ := none
  fresh := by simp
  documented := by simp

theorem mapperPath_injective {name name' : Text} (h : mapperPath name = mapperPath name') :
    name = name' :=
  List.append_cancel_left h

/-- A `mount` that fails only for a call of the documented form whose mapping does not exist. -/
def MountCommand.lenient : MountCommand where
  run mappings args :=
    match args with
    | [o, ro, source, target] =>
        if o = "-o".toList ∧ ro = "ro".toList ∧ target.head? ≠ some '-' then
          if source ∈ (mappingNames mappings).map mapperPath then some [⟨source, target, true⟩]
          else none
        else some []
    | _ => some []
  documented mappings name target mounted hhyphen h := by
    simp only [hhyphen, ne_eq, not_false_eq_true, and_self, if_true] at h
    split at h
    · next hmem =>
      obtain ⟨name', hname', heq⟩ := List.mem_map.mp hmem
      rw [mapperPath_injective heq] at hname'
      exact ⟨(Option.some.inj h).symm, hname'⟩
    · cases h

/-- A word, or the name that it matches. -/
def matched (name word : Text) : Text :=
  if isPattern word then name else word

section Necessary

variable {boot : Boot} {mappings : List Mapping} {options : List Text}
  {data hash rootHash target : Text}

end Necessary

end MetaSecurity.Verity
