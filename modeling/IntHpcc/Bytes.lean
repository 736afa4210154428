/-
Big-endian numbers in byte strings, and slices of byte strings.

`be n v` writes the low `8 n` bits of `v` in network byte order, `of_be` reads a
byte string as a number. The two are inverse to each other on strings of one
length (`of_be_be`, `be_of_be`), which is all a codec needs; the rest of the file
is what `take` and `drop` do to strings put together from such pieces.
-/
import Mathlib.Data.List.Basic
import Mathlib.Tactic.Ring
import Mathlib.Tactic.Linarith

set_option autoImplicit false

namespace IntHpcc.Bytes

/-- One byte. -/
abbrev Byte := BitVec 8

/-- The `n` low bytes of `v`, most significant first. -/
def be : ℕ → ℕ → List Byte
  | 0, _ => []
  | n + 1, v => BitVec.ofNat 8 (v / 256 ^ n) :: be n v

/-- A byte string read as a big-endian number. -/
def of_be : List Byte → ℕ
  | [] => 0
  | b :: bs => b.toNat * 256 ^ bs.length + of_be bs

@[simp] theorem be_length (n v : ℕ) : (be n v).length = n := by
  induction n with
  | zero => rfl
  | succ n ih => rw [be, List.length_cons, ih]

theorem of_be_lt (bs : List Byte) : of_be bs < 256 ^ bs.length := by
  induction bs with
  | nil => simp [of_be]
  | cons b bs ih =>
      have hb : b.toNat + 1 ≤ 256 := b.isLt
      calc of_be (b :: bs) < b.toNat * 256 ^ bs.length + 256 ^ bs.length := by
            simp only [of_be]; omega
        _ = (b.toNat + 1) * 256 ^ bs.length := by ring
        _ ≤ 256 * 256 ^ bs.length := Nat.mul_le_mul_right _ hb
        _ = 256 ^ (b :: bs).length := by rw [List.length_cons]; ring

/-- Reading back what was written gives the number modulo the width. -/
theorem of_be_be (n v : ℕ) : of_be (be n v) = v % 256 ^ n := by
  induction n with
  | zero => simp [be, of_be, Nat.mod_one]
  | succ n ih =>
      rw [be, of_be, be_length, ih, BitVec.toNat_ofNat, pow_succ 256 n, Nat.mod_mul, Nat.add_comm,
        Nat.mul_comm]

theorem of_be_be_of_lt {n v : ℕ} (h : v < 256 ^ n) : of_be (be n v) = v := by
  rw [of_be_be, Nat.mod_eq_of_lt h]

/-- Only the value below the width is written. -/
theorem be_add_mul (n v k : ℕ) : be n (k * 256 ^ n + v) = be n v := by
  induction n generalizing k with
  | zero => rfl
  | succ n ih =>
      have hsplit : k * 256 ^ (n + 1) + v = k * 256 * 256 ^ n + v := by ring
      rw [be, be, hsplit, ih]
      congr 1
      apply BitVec.eq_of_toNat_eq
      rw [BitVec.toNat_ofNat, BitVec.toNat_ofNat,
        Nat.mul_comm (k * 256), Nat.mul_add_div (Nat.pow_pos (by norm_num))]
      omega

/-- Writing back what was read gives the same bytes. -/
theorem be_of_be (bs : List Byte) : be bs.length (of_be bs) = bs := by
  induction bs with
  | nil => rfl
  | cons b bs ih =>
      have hlt := of_be_lt bs
      rw [List.length_cons, be, of_be, be_add_mul, ih]
      congr 1
      apply BitVec.eq_of_toNat_eq
      have hdiv : (b.toNat * 256 ^ bs.length + of_be bs) / 256 ^ bs.length = b.toNat := by
        rw [Nat.mul_comm, Nat.mul_add_div (Nat.pow_pos (by norm_num)), Nat.div_eq_of_lt hlt,
          Nat.add_zero]
      rw [BitVec.toNat_ofNat, hdiv]
      exact Nat.mod_eq_of_lt b.isLt

theorem be_of_be_of_length {bs : List Byte} {n : ℕ} (h : bs.length = n) :
    be n (of_be bs) = bs := by
  rw [← h, be_of_be]

/-! ## Slices

`slice bs off n` is the source's `bs[off:off+n]`. Past the end it is shorter, as
in the source. -/

/-- The `n` bytes of `bs` from offset `off` on. -/
def slice (bs : List Byte) (off n : ℕ) : List Byte := (bs.drop off).take n

theorem slice_length {bs : List Byte} {off n : ℕ} (h : off + n ≤ bs.length) :
    (slice bs off n).length = n := by
  rw [slice, List.length_take, List.length_drop]
  omega

/-- A slice behind a prefix. -/
theorem slice_append_right {as bs : List Byte} {off n : ℕ} (h : as.length ≤ off) :
    slice (as ++ bs) off n = slice bs (off - as.length) n := by
  rw [slice, slice, List.drop_append, List.drop_eq_nil_of_le h, List.nil_append]

/-- A slice that ends before the suffix starts. -/
theorem slice_append_left {as bs : List Byte} {off n : ℕ} (h : off + n ≤ as.length) :
    slice (as ++ bs) off n = slice as off n := by
  rw [slice, slice, List.drop_append_of_le_length (by omega), List.take_append_of_le_length]
  rw [List.length_drop]
  omega

/-- The slice that is exactly the first part. -/
theorem slice_append_self {as bs : List Byte} {n : ℕ} (h : as.length = n) :
    slice (as ++ bs) 0 n = as := by
  rw [slice, List.drop_zero, ← h, List.take_left]

theorem slice_zero_self {bs : List Byte} {n : ℕ} (h : bs.length = n) : slice bs 0 n = bs := by
  rw [slice, List.drop_zero, ← h, List.take_length]

/-- The piece `x` between `p` and `q`: how one field is read out of a struct. -/
theorem slice_mid {p x q : List Byte} {off n : ℕ} (hp : p.length = off) (hx : x.length = n) :
    slice (p ++ (x ++ q)) off n = x := by
  rw [slice_append_right (by omega), hp, Nat.sub_self, slice_append_self hx]

/-- A slice of a slice. -/
theorem slice_slice {bs : List Byte} {off n off' n' : ℕ} (h : off' + n' ≤ n) :
    slice (slice bs off n) off' n' = slice bs (off + off') n' := by
  rw [slice, slice, slice, List.drop_take, List.take_take, List.drop_drop]
  congr 1
  omega

/-- Two adjacent slices are one. -/
theorem slice_add (bs : List Byte) (off n m : ℕ) :
    slice bs off (n + m) = slice bs off n ++ slice bs (off + n) m := by
  rw [slice, slice, slice, List.take_add, List.drop_drop]

end IntHpcc.Bytes
