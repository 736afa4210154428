/-
The fairness index of a list of shares.

`index xs` is the square of the sum over the length times the sum of the squares. What
keeps it from 1 is the sum of the squared differences of all pairs (`length_mul_squares`),
and what keeps it from one over the length is the sum of the products of all pairs
(`sum_sq`). So for shares that are not negative it is 1 exactly if all are equal, and it is
at its least exactly if one has everything.

Idle shares only thin it out: `index_mul_length` says by how much.
-/
import Mathlib.Algebra.BigOperators.Group.List.Basic
import Mathlib.Algebra.Order.BigOperators.Group.List
import Mathlib.Algebra.Order.Field.Basic
import Mathlib.Tactic.Common
import Mathlib.Tactic.Linarith
import Mathlib.Tactic.LinearCombination
import Mathlib.Tactic.Positivity
import Mathlib.Tactic.Ring

set_option autoImplicit false

namespace IntHpcc.Fairness

section

variable {K : Type*} [Field K]

/-- The sum of the squares. -/
def squares (xs : List K) : K := (xs.map fun x => x ^ 2).sum

def index (xs : List K) : K := xs.sum ^ 2 / (xs.length * squares xs)

/-- The squared differences of all pairs. -/
def spread : List K → K
  | [] => 0
  | a :: xs => (xs.map fun x => (a - x) ^ 2).sum + spread xs

/-- The products of all pairs. -/
def products : List K → K
  | [] => 0
  | a :: xs => a * xs.sum + products xs

variable {xs : List K}

@[simp] theorem squares_nil : squares ([] : List K) = 0 := rfl

@[simp] theorem squares_cons (a : K) (xs : List K) : squares (a :: xs) = a ^ 2 + squares xs :=
  List.sum_cons

/-- The squared differences to one share. -/
theorem sum_sub_sq (a : K) (xs : List K) :
    (xs.map fun x => (a - x) ^ 2).sum = xs.length * a ^ 2 - 2 * a * xs.sum + squares xs := by
  induction xs with
  | nil => simp
  | cons b xs ih =>
      simp only [List.map_cons, List.sum_cons, List.length_cons, squares_cons, ih]
      push_cast
      ring

/-- What keeps the index from 1. -/
theorem length_mul_squares (xs : List K) : xs.length * squares xs = xs.sum ^ 2 + spread xs := by
  induction xs with
  | nil => simp [spread]
  | cons a xs ih =>
      simp only [List.length_cons, squares_cons, List.sum_cons, spread, sum_sub_sq]
      push_cast
      linear_combination ih

/-- What keeps the index from one over the length. -/
theorem sum_sq (xs : List K) : xs.sum ^ 2 = squares xs + 2 * products xs := by
  induction xs with
  | nil => simp [products]
  | cons a xs ih =>
      simp only [squares_cons, List.sum_cons, products]
      linear_combination ih

end

/-! ## Idle shares -/

section

variable {K : Type*} [Field K] [LinearOrder K] {xs : List K}

/-- The shares that are not idle. -/
def active (xs : List K) : List K := xs.filter fun x => 0 < x

theorem pos_of_mem_active {x : K} (h : x ∈ active xs) : 0 < x :=
  of_decide_eq_true (List.mem_filter.mp h).2

/-- An idle share adds nothing. -/
theorem sums_active (h : ∀ x ∈ xs, 0 ≤ x) :
    (active xs).sum = xs.sum ∧ squares (active xs) = squares xs := by
  induction xs with
  | nil => exact ⟨rfl, rfl⟩
  | cons a xs ih =>
      obtain ⟨ha, hxs⟩ := List.forall_mem_cons.mp h
      obtain ⟨hsum, hsq⟩ := ih hxs
      unfold active at hsum hsq ⊢
      rcases ha.eq_or_lt with rfl | hpos
      · rw [List.filter_cons_of_neg (by simp), hsum, hsq]
        simp
      · rw [List.filter_cons_of_pos (by simpa using hpos), List.sum_cons, squares_cons, hsum, hsq,
          List.sum_cons, squares_cons]
        exact ⟨rfl, rfl⟩

end

/-! ## The sums -/

section

variable {K : Type*} [Field K] [LinearOrder K] [IsStrictOrderedRing K] {xs : List K}

theorem squares_nonneg (xs : List K) : 0 ≤ squares xs := by
  induction xs with
  | nil => simp
  | cons a xs ih =>
      rw [squares_cons]
      positivity

theorem squares_eq_zero_iff : squares xs = 0 ↔ ∀ x ∈ xs, x = 0 := by
  induction xs with
  | nil => simp
  | cons a xs ih =>
      have hrest := squares_nonneg xs
      rw [squares_cons, List.forall_mem_cons, ← ih, add_eq_zero_iff_of_nonneg (sq_nonneg a) hrest,
        sq_eq_zero_iff]

theorem sum_sub_sq_nonneg (a : K) (xs : List K) : 0 ≤ (xs.map fun x => (a - x) ^ 2).sum := by
  refine List.sum_nonneg ?_
  intro y hy
  obtain ⟨x, -, rfl⟩ := List.mem_map.mp hy
  positivity

theorem spread_nonneg (xs : List K) : 0 ≤ spread xs := by
  induction xs with
  | nil => exact le_refl _
  | cons a xs ih => exact add_nonneg (sum_sub_sq_nonneg a xs) ih

/-- No two shares differ. -/
theorem spread_eq_zero_iff : spread xs = 0 ↔ xs.Pairwise (· = ·) := by
  induction xs with
  | nil => simp [spread]
  | cons a xs ih =>
      have hone : (xs.map fun x => (a - x) ^ 2).sum = 0 ↔ ∀ x ∈ xs, a = x := by
        have hmap : (xs.map fun x => (a - x) ^ 2).sum = squares (xs.map fun x => a - x) := by
          rw [squares, List.map_map]
          rfl
        rw [hmap, squares_eq_zero_iff, List.forall_mem_map]
        simp only [sub_eq_zero]
      rw [spread, add_eq_zero_iff_of_nonneg (sum_sub_sq_nonneg a xs) (spread_nonneg xs), hone, ih,
        List.pairwise_cons]

theorem products_nonneg (h : ∀ x ∈ xs, 0 ≤ x) : 0 ≤ products xs := by
  induction xs with
  | nil => exact le_refl _
  | cons a xs ih =>
      obtain ⟨ha, hxs⟩ := List.forall_mem_cons.mp h
      exact add_nonneg (mul_nonneg ha (List.sum_nonneg hxs)) (ih hxs)

/-- Of shares that are not zero only a single one has no product. -/
theorem products_eq_zero_iff (h : ∀ x ∈ xs, 0 < x) : products xs = 0 ↔ xs.length ≤ 1 := by
  match xs, h with
  | [], _ => simp [products]
  | [a], _ => simp [products]
  | a :: b :: xs, h =>
      have ha : 0 < a := h a List.mem_cons_self
      have hrest : ∀ x ∈ b :: xs, 0 < x := fun x hx => h x (List.mem_cons_of_mem a hx)
      have hsum : 0 < (b :: xs).sum := by
        rw [List.sum_cons]
        refine add_pos_of_pos_of_nonneg (hrest b List.mem_cons_self) (List.sum_nonneg ?_)
        intro x hx
        exact (hrest x (List.mem_cons_of_mem b hx)).le
      have hprod : 0 ≤ products (b :: xs) := products_nonneg fun x hx => (hrest x hx).le
      have hpos : 0 < products (a :: b :: xs) := add_pos_of_pos_of_nonneg (mul_pos ha hsum) hprod
      simp [hpos.ne']

/-! ## The index -/

/-- A list with a share that is not zero. -/
theorem length_mul_squares_pos (h : squares xs ≠ 0) : 0 < (xs.length : K) * squares xs := by
  have hlen : xs ≠ [] := by
    rintro rfl
    exact h rfl
  have hpos : 0 < squares xs := lt_of_le_of_ne (squares_nonneg xs) h.symm
  have hcast : (0 : K) < xs.length := by exact_mod_cast List.length_pos_iff.mpr hlen
  positivity

theorem index_le_one (h : squares xs ≠ 0) : index xs ≤ 1 := by
  rw [index, div_le_one (length_mul_squares_pos h), length_mul_squares]
  exact le_add_of_nonneg_right (spread_nonneg xs)

/-- **Fair.** -/
theorem index_eq_one_iff (h : squares xs ≠ 0) : index xs = 1 ↔ xs.Pairwise (· = ·) := by
  rw [index, div_eq_one_iff_eq (length_mul_squares_pos h).ne', length_mul_squares,
    ← spread_eq_zero_iff, left_eq_add]

theorem index_mul_length_eq (xs : List K) : index xs * xs.length = xs.sum ^ 2 / squares xs := by
  rcases eq_or_ne xs [] with rfl | hne
  · simp [index]
  · have hlen : (xs.length : K) ≠ 0 := by exact_mod_cast (List.length_pos_iff.mpr hne).ne'
    unfold index
    rw [div_mul_eq_mul_div, mul_comm (xs.length : K) (squares xs), mul_div_mul_right _ _ hlen]

/-- **At least one share's worth.** -/
theorem one_le_index_mul_length (hxs : ∀ x ∈ xs, 0 ≤ x) (h : squares xs ≠ 0) :
    1 ≤ index xs * xs.length := by
  have hpos : 0 < squares xs := lt_of_le_of_ne (squares_nonneg xs) h.symm
  rw [index_mul_length_eq, one_le_div hpos, sum_sq]
  exact le_add_of_nonneg_right (mul_nonneg zero_le_two (products_nonneg hxs))

/-- **No more than that** only for a share that has everything. -/
theorem index_mul_length_eq_one_iff (hxs : ∀ x ∈ xs, 0 < x) (h : squares xs ≠ 0) :
    index xs * xs.length = 1 ↔ xs.length = 1 := by
  rw [index_mul_length_eq, div_eq_one_iff_eq h, sum_sq, add_eq_left,
    mul_eq_zero_iff_left two_ne_zero, products_eq_zero_iff hxs]
  have hne : xs ≠ [] := by
    rintro rfl
    exact h rfl
  have hlen := List.length_pos_iff.mpr hne
  omega

/-- **Idle shares thin the index out**, in proportion. -/
theorem index_mul_length (h : ∀ x ∈ xs, 0 ≤ x) :
    index xs * xs.length = index (active xs) * (active xs).length := by
  obtain ⟨hsum, hsq⟩ := sums_active h
  rw [index_mul_length_eq, index_mul_length_eq, hsum, hsq]

end

end IntHpcc.Fairness
