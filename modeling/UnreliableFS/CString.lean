import Mathlib.Algebra.Group.Int.Defs
import Mathlib.Algebra.Group.Nat.Defs

/-!
# C strings, integers and error numbers

A C string is the list of its bytes, without the terminating NUL. Machine
integers are mathematical integers; the conversions the code performs between
their types are the functions `toInt` and `toUnsigned`.
-/

namespace UnreliableFS

abbrev CStr := List UInt8

def ascii (s : String) : CStr := s.toList.map fun c => c.toNat.toUInt8

/-- What a C function reads of a buffer it takes for a string: up to the first NUL. -/
def cstr (b : List UInt8) : CStr := b.takeWhile (· ≠ 0)

abbrev slash : UInt8 := 47
abbrev newline : UInt8 := 10

/-- `isspace` in the C locale. -/
def isspace (c : UInt8) : Bool := c == 32 || (9 ≤ c && c ≤ 13)

def isdigit (c : UInt8) : Bool := 48 ≤ c && c ≤ 57

theorem isspace_of_isdigit {c : UInt8} (h : isdigit c = true) : isspace c = false := by
  simp only [isdigit, isspace, Bool.and_eq_true, decide_eq_true_eq, UInt8.le_iff_toNat_le,
    Bool.or_eq_false_iff, beq_eq_false_iff_ne, ne_eq, ← UInt8.toNat_inj, Bool.and_eq_false_iff,
    decide_eq_false_iff_not, UInt8.reduceToNat] at h ⊢
  omega

-- ---------------------------------------------------------------------------
-- Integer conversions
-- ---------------------------------------------------------------------------

def toInt (n : Int) : Int := (BitVec.ofInt 32 n).toInt

def toUnsigned (n : Int) : Nat := (n % 2 ^ 32).toNat

theorem toInt_of_small {n : Int} (h₀ : 0 ≤ n) (h₁ : n < 2 ^ 31) : toInt n = n := by
  simp only [toInt, BitVec.toInt_ofInt, Int.bmod]
  omega

def digitsValue : CStr → Nat → Nat
  | c :: s, acc => if isdigit c then digitsValue s (10 * acc + (c.toNat - 48)) else acc
  | [], acc => acc

/-- `strtol` in base 10: leading space, an optional sign, digits; a value out of
the range of `long` is the nearest one in it. -/
def strtol (s : CStr) : Int :=
  let clamp (n : Int) : Int := max (-2 ^ 63) (min n (2 ^ 63 - 1))
  match s.dropWhile isspace with
  | 45 :: t => clamp (-(digitsValue t 0))
  | 43 :: t => clamp (digitsValue t 0)
  | t => clamp (digitsValue t 0)

def atoi (s : CStr) : Int := toInt (strtol s)

example : atoi (ascii " -42x") = -42 := by decide
example : toUnsigned (atoi (ascii "-1")) = 4294967295 := by decide

-- ---------------------------------------------------------------------------
-- Error numbers
-- ---------------------------------------------------------------------------

/-- A value of `errno` after a failed call: never 0. -/
structure Errno where
  code : Nat
  pos : 0 < code
  deriving DecidableEq

namespace Errno

theorem code_inj {e e' : Errno} : e.code = e'.code ↔ e = e' := by
  cases e
  cases e'
  simp only [mk.injEq]

def EPERM : Errno := ⟨1, by decide⟩
def ENOENT : Errno := ⟨2, by decide⟩
def EIO : Errno := ⟨5, by decide⟩
def E2BIG : Errno := ⟨7, by decide⟩
def EBADF : Errno := ⟨9, by decide⟩
def EAGAIN : Errno := ⟨11, by decide⟩
def ENOMEM : Errno := ⟨12, by decide⟩
def EACCES : Errno := ⟨13, by decide⟩
def EBUSY : Errno := ⟨16, by decide⟩
def EEXIST : Errno := ⟨17, by decide⟩
def ENOTDIR : Errno := ⟨20, by decide⟩
def EISDIR : Errno := ⟨21, by decide⟩
def EINVAL : Errno := ⟨22, by decide⟩
def EMFILE : Errno := ⟨24, by decide⟩
def ENOTTY : Errno := ⟨25, by decide⟩
def ERANGE : Errno := ⟨34, by decide⟩
def ENOTEMPTY : Errno := ⟨39, by decide⟩
def ELOOP : Errno := ⟨40, by decide⟩
def ENODATA : Errno := ⟨61, by decide⟩
def EOPNOTSUPP : Errno := ⟨95, by decide⟩

end Errno

end UnreliableFS
