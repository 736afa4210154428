/-
The parts of the Python runtime the modelled files rely on: exceptions as values
of `Except`, checked division, truncation by `int()`, and the unsigned integers of
`struct.pack` / `struct.unpack` in network byte order.

Python's `int` is `ℤ` and its `float` is `ℚ`: arithmetic is exact throughout.
-/
import IntHpcc.Bytes
import Mathlib.Data.Rat.Floor
import Mathlib.Algebra.Order.Floor.Ring

set_option autoImplicit false

namespace IntHpcc.Py

open IntHpcc.Bytes

/-- The exceptions the modelled code can raise. -/
inductive PyError
  | struct_error
  | value_error
  | zero_division
  deriving DecidableEq, Repr

/-- `x >>= f` succeeds exactly when both parts do. -/
theorem bind_eq_ok {α β : Type} {x : Except PyError α} {f : α → Except PyError β} {r : β} :
    x >>= f = .ok r ↔ ∃ a, x = .ok a ∧ f a = .ok r := by
  cases x with
  | error e => simp [bind, Except.bind]
  | ok a => simp [bind, Except.bind]

@[simp] theorem ok_bind {α β : Type} (a : α) (f : α → Except PyError β) :
    (Except.ok a : Except PyError α) >>= f = f a := rfl

/-! ## Arithmetic -/

/-- `a / b`, which raises `ZeroDivisionError` on a zero divisor. -/
def py_div (a b : ℚ) : Except PyError ℚ :=
  if b = 0 then .error .zero_division else .ok (a / b)

theorem py_div_of_ne {b : ℚ} (a : ℚ) (h : b ≠ 0) : py_div a b = .ok (a / b) := by
  rw [py_div, if_neg h]

/-- `int(x)`: truncation toward zero. -/
def py_int (x : ℚ) : ℤ := if 0 ≤ x then ⌊x⌋ else ⌈x⌉

theorem py_int_of_nonneg {x : ℚ} (h : 0 ≤ x) : py_int x = ⌊x⌋ := by
  rw [py_int, if_pos h]

theorem one_le_py_int {x : ℚ} (h : 1 ≤ x) : 1 ≤ py_int x := by
  rw [py_int_of_nonneg (le_trans zero_le_one h), Int.le_floor]
  exact_mod_cast h

theorem py_int_mono {x y : ℚ} (hx : 0 ≤ x) (hxy : x ≤ y) : py_int x ≤ py_int y := by
  rw [py_int_of_nonneg hx, py_int_of_nonneg (le_trans hx hxy)]
  exact Int.floor_le_floor hxy

/-- `x` is less than one above `int(x)`. -/
theorem lt_py_int_add_one {x : ℚ} (h : 0 ≤ x) : x < py_int x + 1 := by
  rw [py_int_of_nonneg h]
  exact Int.lt_floor_add_one x

theorem py_int_intCast (n : ℤ) : py_int n = n := by
  rw [py_int]
  split
  · exact Int.floor_intCast n
  · exact Int.ceil_intCast n

/-- A reading of `_now_us()`. `time.time_ns()` is a signed 64-bit count since the
epoch, so its microseconds fit the `Q` field the packets carry them in. -/
abbrev Us := Fin (2 ^ 64)

def zero_us : Us := 0

/-- The reading `n`, wrapped. -/
def at_us (n : ℕ) : Us := ⟨n % 2 ^ 64, Nat.mod_lt _ (by norm_num)⟩

/-! ## `struct` -/

/-- One unsigned `n`-byte field of `struct.pack("!…")`; out of range raises
`struct.error`. -/
def pack_uint (n : ℕ) (v : ℤ) : Except PyError (List Byte) :=
  if 0 ≤ v ∧ v < 256 ^ n then .ok (be n v.toNat) else .error .struct_error

/-- One unsigned field of `struct.unpack("!…")`. -/
def unpack_uint (bs : List Byte) : ℤ := of_be bs

theorem pack_uint_of_range {n : ℕ} {v : ℤ} (h₀ : 0 ≤ v) (h₁ : v < 256 ^ n) :
    pack_uint n v = .ok (be n v.toNat) := by
  rw [pack_uint, if_pos ⟨h₀, h₁⟩]

/-- A clock reading fits a `Q` field. -/
theorem pack_uint_us (t : Us) : pack_uint 8 (t.val : ℤ) = .ok (be 8 t.val) := by
  have hlt : ((t.val : ℕ) : ℤ) < 256 ^ 8 := by
    have := t.isLt
    norm_num at this ⊢
    omega
  rw [pack_uint_of_range (Int.natCast_nonneg _) hlt, Int.toNat_natCast]

/-- What a successful field pack says: the width, the range and the value back. -/
theorem pack_uint_spec {n : ℕ} {v : ℤ} {bs : List Byte} (h : pack_uint n v = .ok bs) :
    bs.length = n ∧ unpack_uint bs = v ∧ 0 ≤ v ∧ v < 256 ^ n := by
  rw [pack_uint] at h
  split at h
  · next hr =>
    obtain ⟨h₀, h₁⟩ := hr
    rw [Except.ok.injEq] at h
    subst h
    refine ⟨be_length _ _, ?_, h₀, h₁⟩
    have hlt : v.toNat < 256 ^ n := by
      zify
      rw [Int.toNat_of_nonneg h₀]
      exact h₁
    rw [unpack_uint, of_be_be_of_lt hlt, Int.toNat_of_nonneg h₀]
  · cases h

theorem unpack_uint_nonneg (bs : List Byte) : 0 ≤ unpack_uint bs := by
  rw [unpack_uint]
  exact Int.natCast_nonneg _

theorem unpack_uint_lt (bs : List Byte) : unpack_uint bs < 256 ^ bs.length := by
  rw [unpack_uint]
  exact_mod_cast of_be_lt bs

end IntHpcc.Py
