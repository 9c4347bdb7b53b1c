import Mathlib.Data.List.TakeWhile

/-! NUL-terminated strings and the two bounded library functions on them.

A list of bytes stands for the characters of an array or of a `c_str()`; past its
end the terminator is read.
-/

set_option autoImplicit false

namespace ComIpc.Semantics

/-- A string without an embedded NUL, so that its C view is the whole string. -/
structure CString where
  bytes : List UInt8
  nulFree : 0 ∉ bytes
  deriving DecidableEq

namespace CString

theorem ext {a b : CString} (same : a.bytes = b.bytes) : a = b := by
  cases a; cases b; cases same; rfl

end CString

/-- The characters before the terminator. -/
def cstr (chars : List UInt8) : List UInt8 := chars.takeWhile (· ≠ 0)

theorem zero_not_mem_cstr (chars : List UInt8) : 0 ∉ cstr chars := by
  intro member
  simpa using List.mem_takeWhile_imp member

/-- `strncpy`: at most `size` characters, padded with NULs up to `size`; the rest of the
target array stays. -/
def strncpy (target source : List UInt8) (size : Nat) : List UInt8 :=
  source.take size ++ List.replicate (size - source.length) 0 ++ target.drop size

/-- `strncmp`; callers only compare its result with zero. -/
def strncmp : List UInt8 → List UInt8 → Nat → Int
  | _, _, 0 => 0
  | [], [], _ + 1 => 0
  | [], b :: _, _ + 1 => -(b.toNat : Int)
  | a :: _, [], _ + 1 => a.toNat
  | a :: as, b :: bs, size + 1 =>
    -- a common terminator ends the comparison before `size` is used up
    if a = b then if a = 0 then 0 else strncmp as bs size else (a.toNat : Int) - b.toNat

theorem toNat_ne_zero {c : UInt8} (nonzero : c ≠ 0) : c.toNat ≠ 0 := by
  intro zero
  exact nonzero (UInt8.toNat_inj.mp zero)

theorem strncmp_eq_zero_iff (a b : List UInt8) (size : Nat) :
    strncmp a b size = 0 ↔ (cstr a).take size = (cstr b).take size := by
  induction size generalizing a b with
  | zero => simp [strncmp]
  | succ size ih =>
    cases a with
    | nil =>
      cases b with
      | nil => simp [strncmp]
      | cons y ys => by_cases end_ : y = 0 <;> simp [strncmp, cstr, end_, toNat_ne_zero]
    | cons x xs =>
      cases b with
      | nil => by_cases end_ : x = 0 <;> simp [strncmp, cstr, end_, toNat_ne_zero]
      | cons y ys =>
        by_cases same : x = y
        · subst same
          by_cases end_ : x = 0
          · simp [strncmp, cstr, end_]
          · simpa [strncmp, cstr, end_] using ih xs ys
        · have apart : (x.toNat : Int) - y.toNat ≠ 0 := by
            intro zero
            exact same (UInt8.toNat_inj.mp (by omega))
          simp only [strncmp, if_neg same, apart, false_iff]
          intro equal
          -- one of the two views may already be empty, but then the other one is not
          by_cases endX : x = 0 <;> by_cases endY : y = 0 <;>
            simp_all [cstr]

theorem cstr_of_nulFree {chars : List UInt8} (free : 0 ∉ chars) : cstr chars = chars := by
  rw [cstr, List.takeWhile_eq_self_iff]
  intro c member
  simpa using fun zero : c = 0 => free (zero ▸ member)

theorem cstr_eq_iff {chars : List UInt8} : cstr chars = chars ↔ 0 ∉ chars :=
  ⟨fun same member => zero_not_mem_cstr chars (same.symm ▸ member), cstr_of_nulFree⟩

theorem cstr_append_zero {chars rest : List UInt8} (free : 0 ∉ chars) :
    cstr (chars ++ 0 :: rest) = chars := by
  rw [cstr, List.takeWhile_append_of_pos]
  · simp
  · intro c member
    simpa using fun zero : c = 0 => free (zero ▸ member)

theorem cstr_strncpy {target source : List UInt8} (rest : List UInt8) {size : Nat}
    (free : 0 ∉ source) (terminated : target.drop size = 0 :: rest) :
    cstr (strncpy target source size) = source.take size := by
  have kept : 0 ∉ source.take size := fun member => free (List.mem_of_mem_take member)
  rw [strncpy, terminated, List.append_assoc]
  cases size - source.length with
  | zero => exact cstr_append_zero kept
  | succ n => exact cstr_append_zero kept

theorem drop_strncpy (target source : List UInt8) (size : Nat) :
    (strncpy target source size).drop size = target.drop size := by
  have full : (source.take size ++ List.replicate (size - source.length) 0).length = size := by
    rw [List.length_append, List.length_take, List.length_replicate]
    omega
  rw [strncpy, List.drop_append_of_le_length (Nat.le_of_eq full.symm),
    List.drop_of_length_le (Nat.le_of_eq full), List.nil_append]

end ComIpc.Semantics
