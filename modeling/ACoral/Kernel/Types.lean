/-!
# `ACoral.Kernel.Types`: error codes and configuration

The enumeration of `kernel/include/error.h` and the values of
`bsp/zynq7020/config.h` that the modelled code reads.
-/

set_option autoImplicit false

namespace ACoral

/-- `kernel_error_t`. -/
inductive KernelError where
  | KR_MEM_ERR_LESS
  | KR_MEM_ERR_UNDEF
  | KR_MEM_ERR_MALLOC
  | KR_POLICY_ERR_NULL
  | KR_POLICY_ERR_THREAD
  | KR_RES_ERR_NO_POOL
  | KR_RES_ERR_NO_MEM
  | KR_RES_ERR_MAX_POOL
  | KR_THREAD_ERR_NO_STACK
  | KR_THREAD_ERR_STATE
  | KR_THREAD_ERR_CPU
  | KR_THREAD_ERR_PRIO
  | KR_THREAD_ERR_UNDEF
  | KR_IPC_ERR_NULL
  | KR_IPC_ERR_TYPE
  | KR_IPC_ERR_TASK_EXIST
  | KR_IPC_ERR_INTR
  | KR_IPC_ERR_UNDEF
  | KR_IPC_ERR_TIMEOUT
  | KR_IPC_ERR_THREAD
  | KR_IPC_ERR_CPU
  | KR_OK
  deriving DecidableEq, Repr

/-- The C value of an error: the enumeration counts up from -255, and
`KR_OK` is set to 0. -/
def KernelError.code : KernelError → Int
  | .KR_OK => 0
  | e      => -255 + e.ctorIdx

/-- `CFG_MAX_THREAD`. -/
def CFG_MAX_THREAD : Nat := 60

/-- `CFG_MAX_CPU`, of the build with `CFG_SMP`. -/
def CFG_MAX_CPU : Nat := 2

/-- `CFG_TICKS_PER_SEC`. -/
def CFG_TICKS_PER_SEC : Nat := 1000

/-- Only `KR_OK` has the value 0, so `err != KR_OK` tells failure. -/
theorem KernelError.code_eq_zero_iff (e : KernelError) : e.code = 0 ↔ e = .KR_OK := by
  cases e <;> decide

/-- Every error has a negative value. -/
theorem KernelError.code_neg {e : KernelError} (h : e ≠ .KR_OK) : e.code < 0 := by
  cases e <;> first | exact absurd rfl h | decide

/-! ### Small numbers of threads, CPUs and types of objects -/

instance (priority := high) neZero_two : @NeZero Nat Zero.ofOfNat0 2 := Nat.instNeZeroSucc

instance (priority := high) neZero_three : @NeZero Nat Zero.ofOfNat0 3 := Nat.instNeZeroSucc

instance (priority := high) neZero_four : @NeZero Nat Zero.ofOfNat0 4 := Nat.instNeZeroSucc

instance (priority := high) neZero_sixteen : @NeZero Nat Zero.ofOfNat0 16 := Nat.instNeZeroSucc

end ACoral
