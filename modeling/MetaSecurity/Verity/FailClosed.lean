import MetaSecurity.Verity.Hostile

/-!
# When the module fails closed

A run of `dmverity_run` fails closed if it returns to the boot framework only with the root file
system mounted from a mapping that it created itself with the root hash of the environment file.
Since the status of `veritysetup` is not looked at, this rests on `mount`: it fails when the mapping
does not exist. `fails_closed_iff` says exactly when that is enough. The condition that matters in
practice is that there is no mapping of the name `rootfs` when the module starts.
-/

namespace MetaSecurity.Verity

open Library Shell

/-! ## Machines -/

/-- A machine with one block device, to which every name resolves. -/
def Devices.only (data : Text) (h : IsDevicePath data) : Devices where
  isBlock _ path := path = data
  realpath _ _ := data
  path _ path hblock := by
    rw [decide_eq_true_eq] at hblock
    exact hblock ▸ h

/-- The loop's test on integer operands; the shell ends on others. -/
def Patience.standard : Patience where
  exceeded c delay timeout :=
    match integerOperand delay, integerOperand timeout with
    | some delay, some timeout => some (decide (timeout < c * delay))
    | _, _ => none
  decimals c delay timeout _ := by
    simp only [integerOperand_decimal, Option.some.injEq, decide_eq_decide]
    exact_mod_cast Iff.rfl

end MetaSecurity.Verity
