/-
Fixed-size headers as byte layouts.

A `Layout α` says how a value of `α` is written as a fixed number of bytes and how it is
read from them; the two are inverse to each other in both directions, and the proofs
travel with the layout. A header is put together from bit fields with `field`, `prod` and
`via`, so that nothing is left to prove about a single header. Two fields narrower than a
byte are one byte split by `halves`.

`extract` is what a packet parser does with a layout: it takes the header off the front
of the bytes, or fails and takes nothing when there are too few.
-/
import IntHpcc.Bytes
import Mathlib.Logic.Equiv.Defs

set_option autoImplicit false

namespace IntHpcc.HeaderLayout

open IntHpcc.Bytes

/-- How values of `α` are written as `size` bytes. -/
structure Layout (α : Type) where
  size : ℕ
  emit : α → List Byte
  read : List Byte → α
  emit_length : ∀ a, (emit a).length = size
  read_emit : ∀ a, read (emit a) = a
  emit_read : ∀ bs, bs.length = size → emit (read bs) = bs

attribute [simp] Layout.emit_length

/-! ## Fields -/

/-- A field of `n` whole bytes, most significant first. -/
def field (n : ℕ) {w : ℕ} (hw : w = 8 * n) : Layout (BitVec w) where
  size := n
  emit v := be n v.toNat
  read bs := BitVec.ofNat w (of_be bs)
  emit_length v := be_length n v.toNat
  read_emit v := by
    have hw' : 2 ^ w = 256 ^ n := by
      rw [hw, pow_mul]
      norm_num
    have hv : v.toNat < 256 ^ n := hw' ▸ v.isLt
    rw [of_be_be_of_lt hv, BitVec.ofNat_toNat, BitVec.setWidth_eq]
  emit_read bs hbs := by
    have hlt : of_be bs < 2 ^ w := by
      rw [hw, pow_mul, ← hbs]
      exact of_be_lt bs
    rw [BitVec.toNat_ofNat, Nat.mod_eq_of_lt hlt]
    exact be_of_be_of_length hbs

/-- A bit string and its upper and lower part. -/
def halves (a b : ℕ) : BitVec a × BitVec b ≃ BitVec (a + b) where
  toFun v := v.1 ++ v.2
  invFun v := (v.extractLsb' b a, v.extractLsb' 0 b)
  left_inv v := by
    dsimp only
    rw [BitVec.extractLsb'_append_eq_left, BitVec.extractLsb'_append_eq_right]
  right_inv v := by
    apply BitVec.eq_of_toNat_eq
    have hpow : 2 ^ (a + b) = 2 ^ b * 2 ^ a := by rw [Nat.add_comm, pow_add]
    have hv : v.toNat < 2 ^ b * 2 ^ a := hpow ▸ v.isLt
    simp only [BitVec.toNat_append, BitVec.extractLsb'_toNat, Nat.shiftRight_eq_div_pow,
      pow_zero, Nat.div_one]
    rw [Nat.mod_eq_of_lt (Nat.div_lt_of_lt_mul hv), ← Nat.shiftLeft_add_eq_or_of_lt
      (Nat.mod_lt _ (Nat.two_pow_pos b)), Nat.shiftLeft_eq]
    exact Nat.div_add_mod' v.toNat (2 ^ b)

namespace Layout

variable {α β : Type}

/-- One header behind the other. -/
def prod (L : Layout α) (M : Layout β) : Layout (α × β) where
  size := L.size + M.size
  emit v := L.emit v.1 ++ M.emit v.2
  read bs := (L.read (bs.take L.size), M.read (bs.drop L.size))
  emit_length v := by simp
  read_emit v := by
    rw [← L.emit_length v.1, List.take_left, List.drop_left, L.read_emit, M.read_emit]
  emit_read bs hbs := by
    have hleft : (bs.take L.size).length = L.size := by
      rw [List.length_take]
      omega
    have hright : (bs.drop L.size).length = M.size := by
      rw [List.length_drop]
      omega
    dsimp only
    rw [L.emit_read _ hleft, M.emit_read _ hright, List.take_append_drop]

/-- The same bytes, read as another type. -/
def via (L : Layout α) (e : β ≃ α) : Layout β where
  size := L.size
  emit b := L.emit (e b)
  read bs := e.symm (L.read bs)
  emit_length b := L.emit_length (e b)
  read_emit b := by rw [L.read_emit, e.symm_apply_apply]
  emit_read bs hbs := by rw [e.apply_symm_apply, L.emit_read bs hbs]

/-! ## Taking a header off the front -/

/-- The header at the front of `bs` and what is behind it. -/
def extract (L : Layout α) (bs : List Byte) : Option (α × List Byte) :=
  if L.size ≤ bs.length then some (L.read (bs.take L.size), bs.drop L.size) else none

variable {L : Layout α}

theorem extract_emit (a : α) (tail : List Byte) : L.extract (L.emit a ++ tail) = some (a, tail) := by
  have hsize : L.size ≤ (L.emit a ++ tail).length := by simp
  rw [extract, if_pos hsize, ← L.emit_length a, List.take_left, List.drop_left, L.read_emit]

/-- Nothing is lost: what was extracted, written in front of the rest, is the input. -/
theorem emit_of_extract {a : α} {bs tail : List Byte} (h : L.extract bs = some (a, tail)) :
    L.emit a ++ tail = bs := by
  unfold extract at h
  by_cases hsize : L.size ≤ bs.length
  · rw [if_pos hsize, Option.some.injEq, Prod.mk.injEq] at h
    obtain ⟨rfl, rfl⟩ := h
    have hlen : (bs.take L.size).length = L.size := by
      rw [List.length_take]
      omega
    rw [L.emit_read _ hlen, List.take_append_drop]
  · rw [if_neg hsize] at h
    cases h

end Layout

end IntHpcc.HeaderLayout
