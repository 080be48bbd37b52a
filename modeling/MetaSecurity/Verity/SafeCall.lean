import MetaSecurity.Verity.Boot

/-!
# Safe calls

When a run of `dmverity_run` fails closed, and which `veritysetup create` and `mount` calls make
sure that it does. The status of `veritysetup` is not looked at, so this rests on `mount`, which
fails when the mapping does not exist, and on the words of the call.
-/

namespace MetaSecurity.Verity

open Library Shell

theorem IsDevicePath.fields {path : Text} (h : IsDevicePath path) : fields isIfs path = [path] := by
  have hplain := h.plain
  simp only [isPlainWord, Bool.and_eq_true, List.all_eq_true, Bool.not_eq_eq_eq_not,
    Bool.not_true] at hplain
  exact fields_eq_singleton h.ne_nil hplain.1

end MetaSecurity.Verity
