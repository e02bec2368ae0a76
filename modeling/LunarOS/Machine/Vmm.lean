import LunarOS.Machine.Stop

/-!
# Address translation in software (`vmm.c`, `vmm.h`)
-/

namespace LunarOS

def VMM_KERNEL_START : Nat := 0xffff800000000000
def VMM_RESERVED_BOOT_START : Nat := VMM_KERNEL_START
def VMM_RESERVED_BOOT_END : Nat := 0xffff807fffffffff
def VMM_RESERVED_DM_START : Nat := 0xffff888000000000
def VMM_RESERVED_DM_END : Nat := 0xffffc87fffffffff

def vmmVirt2phys (addr : Nat) : Outcome Nat :=
  if VMM_RESERVED_BOOT_START ≤ addr ∧ addr ≤ VMM_RESERVED_BOOT_END then
    .ok (sub64 addr VMM_RESERVED_BOOT_START)
  else if VMM_RESERVED_DM_START ≤ addr ∧ addr ≤ VMM_RESERVED_DM_END then
    .ok (sub64 addr VMM_RESERVED_DM_START)
  else
    .error (.panic "TODO")

def vmmPhys2virt (addr : Nat) : Nat := add64 addr VMM_RESERVED_DM_START

/-- Bytes of the direct map. -/
def dmSize : Nat := 2 ^ 46

theorem vmmPhys2virt_eq {a : Nat} (h : a ≤ dmSize) :
    vmmPhys2virt a = a + VMM_RESERVED_DM_START := by
  unfold vmmPhys2virt
  apply add64_eq
  unfold dmSize at h
  unfold VMM_RESERVED_DM_START wordSize
  omega

/-- Inside the direct map the two translations are inverse. -/
theorem vmmVirt2phys_phys2virt {a : Nat} (h : a < dmSize) :
    vmmVirt2phys (vmmPhys2virt a) = .ok a := by
  rw [vmmPhys2virt_eq h.le]
  unfold dmSize at h
  unfold vmmVirt2phys VMM_RESERVED_BOOT_START VMM_RESERVED_BOOT_END VMM_RESERVED_DM_START
    VMM_RESERVED_DM_END VMM_KERNEL_START
  rw [if_neg (by omega), if_pos (by omega), sub64_eq (by omega) (by unfold wordSize; omega)]
  simp

end LunarOS
