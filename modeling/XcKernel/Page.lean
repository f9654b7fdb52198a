import XcKernel.Lib.Word

/-!
# Pages and addresses

The macros of `page.h` and `pfn.h`: sizes in bytes and in page frame numbers, and the
two addresses of low memory.
-/

namespace XcKernel

def pageSize : Nat := 4096

def pageOffset : Nat := 0xc0000000

namespace Mm

open Word

def pageShift : Nat := 12

def pfnDown (x : Nat) : Nat := x >>> pageShift

/-- `__va`, a 32-bit sum -/
def va (x : Nat) : Nat := wrap 32 (wrap 32 x + pageOffset)

/-- `__pa` -/
def pa (x : Nat) : Nat := wrapSub 32 x pageOffset

theorem mul_pageSize_shiftRight (n : Nat) : (n * pageSize) >>> pageShift = n := by
  simp only [pageShift, pageSize, Nat.shiftRight_eq_div_pow]
  omega

theorem pa_va_of_lt {x : Nat} (h : x < 2 ^ 32) : pa (va x) = x := by
  simp only [pa, va, wrap, wrapSub, pageOffset]
  omega

end Mm

end XcKernel
