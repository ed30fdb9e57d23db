import Mathlib.Data.List.TakeDrop
/-
# C strings and fixed `char` arrays

| here | there |
| --- | --- |
| `CStr`            | a NUL-terminated `const char*`, or a `text` datum (PostgreSQL lets no NUL byte into one) |
| `CharArray n`     | a struct member `char f[n]` |
| `CharArray.zero`  | the member after a `MemSet(.., 0, ..)` |
| `CharArray.cstr`  | what a reader of the member as a `const char*` sees: the bytes before the first NUL |
| `CharArray.store` | a bounded copy that always terminates: at most `n - 1` bytes, then a NUL; the rest of the array keeps its bytes |
-/

namespace PostFga

abbrev Bytes := List UInt8

/-- The bytes of a string, without the terminator. -/
structure CStr where
  bytes : Bytes
  noNul : (0 : UInt8) ∉ bytes
deriving DecidableEq, Repr

namespace CStr

def length (s : CStr) : Nat := s.bytes.length

def empty : CStr := ⟨[], by simp⟩

@[ext] theorem ext {s t : CStr} (h : s.bytes = t.bytes) : s = t := by
  cases s; cases t; simp_all

/-- A string literal. -/
def lit (s : String) : CStr where
  bytes := s.toUTF8.data.toList.takeWhile (· != 0)
  noNul h := by simpa using List.all_eq_true.1 List.all_takeWhile 0 h

/-- `n` copies of a byte other than NUL. -/
def fill (n : Nat) (c : UInt8) (hc : c ≠ 0) : CStr :=
  ⟨List.replicate n c, fun h => hc (List.eq_of_mem_replicate h).symm⟩

end CStr

/-- `char f[n]`. -/
structure CharArray (n : Nat) where
  bytes : Bytes
  len : bytes.length = n
deriving DecidableEq, Repr

namespace CharArray
variable {n : Nat}

def zero (n : Nat) : CharArray n := ⟨List.replicate n 0, List.length_replicate⟩

def cstr (a : CharArray n) : Bytes := a.bytes.takeWhile (· != 0)

/-- Copies at most `n` bytes into a `char[n + 1]` and terminates them. -/
def store (a : CharArray (n + 1)) (s : CStr) : CharArray (n + 1) where
  bytes := s.bytes.take n ++ 0 :: a.bytes.drop (min n s.length + 1)
  len := by simp [a.len, CStr.length]; omega

@[simp] theorem cstr_zero : (zero n).cstr = [] := by
  cases n <;> simp [cstr, zero, List.replicate_succ]

theorem takeWhile_terminated {xs : Bytes} (h : (0 : UInt8) ∉ xs) (ys : Bytes) :
    (xs ++ 0 :: ys).takeWhile (· != 0) = xs := by
  induction xs with
  | nil => simp
  | cons x xs ih =>
    simp only [List.mem_cons, not_or] at h
    have hx : (x != 0) = true := by simpa using Ne.symm h.1
    simp only [List.cons_append, List.takeWhile_cons, hx, if_true, ih h.2]

/-- **A bounded copy cuts, and does nothing else**: reading the array back gives the first
`n` bytes of the source. -/
@[simp] theorem cstr_store (a : CharArray (n + 1)) (s : CStr) : (a.store s).cstr = s.bytes.take n :=
  takeWhile_terminated (fun h => s.noNul (List.mem_of_mem_take h)) _

end CharArray

end PostFga
