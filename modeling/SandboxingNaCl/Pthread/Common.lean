import Mathlib.Data.Fintype.Basic

/-!
# The pthread library of the sandbox

What its parts share.  A system of threads takes one step at a time: each step belongs to one thread
and is one access to shared memory, or one call of the futex interface.
-/

namespace SandboxingNaCl

/-- The error numbers that the library returns or stores in `errno`. -/
inductive Errno
  | eagain | ebusy | edeadlk | einval | enomem | enosys | eoverflow | eperm | etimedout
deriving DecidableEq

/-- Why a step is not possible: the thread is elsewhere, or has to wait. -/
inductive Blocked
  | blocked

end SandboxingNaCl
