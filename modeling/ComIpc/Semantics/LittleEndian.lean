import Mathlib.Algebra.Order.Group.Nat
import Mathlib.Tactic.Ring

/-! Memory images of fixed-width integers. -/

set_option autoImplicit false

namespace ComIpc.Semantics

def toBytes : Nat → Nat → List UInt8
  | 0, _ => []
  | width + 1, n => UInt8.ofNat n :: toBytes width (n / 256)

def ofBytes : List UInt8 → Nat
  | [] => 0
  | b :: rest => b.toNat + 256 * ofBytes rest

@[simp] theorem length_toBytes (width n : Nat) : (toBytes width n).length = width := by
  induction width generalizing n with
  | zero => rfl
  | succ width ih => rw [toBytes, List.length_cons, ih]

theorem ofBytes_toBytes (width n : Nat) : ofBytes (toBytes width n) = n % 256 ^ width := by
  induction width generalizing n with
  | zero => simp [toBytes, ofBytes, Nat.mod_one]
  | succ width ih =>
    have low : (UInt8.ofNat n).toNat = n % 256 := UInt8.toNat_ofNat'
    rw [toBytes, ofBytes, ih, low, Nat.pow_succ', Nat.mod_mul]

theorem ofBytes_lt (bytes : List UInt8) : ofBytes bytes < 256 ^ bytes.length := by
  induction bytes with
  | nil => exact Nat.one_pos
  | cons b rest ih =>
    have low : b.toNat < 256 := b.toNat_lt
    rw [ofBytes, List.length_cons, Nat.pow_succ']
    omega

theorem toBytes_ofBytes (bytes : List UInt8) : toBytes bytes.length (ofBytes bytes) = bytes := by
  induction bytes with
  | nil => rfl
  | cons b rest ih =>
    have low : b.toNat < 256 := b.toNat_lt
    have head : UInt8.ofNat (b.toNat + 256 * ofBytes rest) = b := by
      rw [← UInt8.toNat_inj, UInt8.toNat_ofNat', Nat.add_mul_mod_self_left, Nat.mod_eq_of_lt low]
    rw [List.length_cons, ofBytes, toBytes, head, Nat.add_mul_div_left _ _ (by decide),
      Nat.div_eq_of_lt low, Nat.zero_add, ih]

theorem take_image {width n : Nat} (rest : List UInt8) :
    (toBytes width n ++ rest).take width = toBytes width n := by
  rw [List.take_append_of_le_length (by simp), List.take_of_length_le (by simp)]

theorem drop_image {width n : Nat} (rest : List UInt8) :
    (toBytes width n ++ rest).drop width = rest := by
  rw [List.drop_append_of_le_length (by simp), List.drop_of_length_le (by simp), List.nil_append]

def uint32Bytes (n : UInt32) : List UInt8 := toBytes 4 n.toNat

def uint32Of (bytes : List UInt8) : UInt32 := UInt32.ofNat (ofBytes (bytes.take 4))

def int32Bytes (n : Int32) : List UInt8 := uint32Bytes n.toUInt32

def int32Of (bytes : List UInt8) : Int32 := (uint32Of bytes).toInt32

def int64Bytes (n : Int64) : List UInt8 := toBytes 8 n.toUInt64.toNat

def int64Of (bytes : List UInt8) : Int64 := (UInt64.ofNat (ofBytes (bytes.take 8))).toInt64

def uint64Bytes (n : UInt64) : List UInt8 := toBytes 8 n.toNat

def uint64Of (bytes : List UInt8) : UInt64 := UInt64.ofNat (ofBytes (bytes.take 8))

@[simp] theorem length_uint32Bytes (n : UInt32) : (uint32Bytes n).length = 4 := length_toBytes 4 _

@[simp] theorem length_int32Bytes (n : Int32) : (int32Bytes n).length = 4 := length_toBytes 4 _

@[simp] theorem length_int64Bytes (n : Int64) : (int64Bytes n).length = 8 := length_toBytes 8 _

@[simp] theorem length_uint64Bytes (n : UInt64) : (uint64Bytes n).length = 8 := length_toBytes 8 _

@[simp] theorem uint32Of_image (n : UInt32) (rest : List UInt8) :
    uint32Of (uint32Bytes n ++ rest) = n := by
  have small : n.toNat < 256 ^ 4 := n.toNat_lt
  rw [uint32Of, uint32Bytes, take_image, ofBytes_toBytes, Nat.mod_eq_of_lt small,
    UInt32.ofNat_toNat]

@[simp] theorem int32Of_image (n : Int32) (rest : List UInt8) :
    int32Of (int32Bytes n ++ rest) = n := by
  rw [int32Of, int32Bytes, uint32Of_image, Int32.toInt32_toUInt32]

@[simp] theorem int64Of_image (n : Int64) (rest : List UInt8) :
    int64Of (int64Bytes n ++ rest) = n := by
  have small : n.toUInt64.toNat < 256 ^ 8 := n.toUInt64.toNat_lt
  rw [int64Of, int64Bytes, take_image, ofBytes_toBytes, Nat.mod_eq_of_lt small,
    UInt64.ofNat_toNat, Int64.toInt64_toUInt64]

@[simp] theorem uint64Of_image (n : UInt64) (rest : List UInt8) :
    uint64Of (uint64Bytes n ++ rest) = n := by
  have small : n.toNat < 256 ^ 8 := n.toNat_lt
  rw [uint64Of, uint64Bytes, take_image, ofBytes_toBytes, Nat.mod_eq_of_lt small,
    UInt64.ofNat_toNat]

theorem uint32Bytes_of {bytes : List UInt8} (enough : 4 ≤ bytes.length) :
    uint32Bytes (uint32Of bytes) = bytes.take 4 := by
  have length : (bytes.take 4).length = 4 := List.length_take_of_le enough
  have small := ofBytes_lt (bytes.take 4)
  rw [length] at small
  have same := toBytes_ofBytes (bytes.take 4)
  rwa [length, ← Nat.mod_eq_of_lt small] at same

theorem int32Bytes_of {bytes : List UInt8} (enough : 4 ≤ bytes.length) :
    int32Bytes (int32Of bytes) = bytes.take 4 := by
  rw [int32Bytes, int32Of, UInt32.toUInt32_toInt32, uint32Bytes_of enough]

theorem uint64Bytes_of {bytes : List UInt8} (enough : 8 ≤ bytes.length) :
    uint64Bytes (uint64Of bytes) = bytes.take 8 := by
  have length : (bytes.take 8).length = 8 := List.length_take_of_le enough
  have small := ofBytes_lt (bytes.take 8)
  rw [length] at small
  have same := toBytes_ofBytes (bytes.take 8)
  rwa [length, ← Nat.mod_eq_of_lt small] at same

theorem int64Bytes_of {bytes : List UInt8} (enough : 8 ≤ bytes.length) :
    int64Bytes (int64Of bytes) = bytes.take 8 := by
  rw [int64Bytes, int64Of, UInt64.toUInt64_toInt64]
  exact uint64Bytes_of enough

theorem toNat_uint64Of {n : Nat} (small : n < 2 ^ 64) :
    (uint64Of (uint64Bytes (UInt64.ofNat n))).toNat = n := by
  have same := uint64Of_image (UInt64.ofNat n) []
  rw [List.append_nil] at same
  rw [same, UInt64.toNat_ofNat', Nat.mod_eq_of_lt small]

end ComIpc.Semantics
