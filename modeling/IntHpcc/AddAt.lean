/-
Accumulating at an index.

`add_at` takes a list of deposits, each an index and an amount, and adds them to an array
one after the other; the same index can come again and again. An entry ends up with all
the amounts of its own index (`getElem?_add_at`), and as long as no index is out of range
nothing is lost on the whole (`sum_add_at`).

`weighted_means` is about two such arrays: when the one counts the deposits and the other
holds their amounts, the means of the entries, weighted by the counts, sum to all the
amounts.
-/
import Mathlib.Algebra.BigOperators.Group.List.Basic
import Mathlib.Algebra.Field.Basic
import Mathlib.Algebra.Order.Field.Basic
import Mathlib.Algebra.Module.NatInt
import Mathlib.Tactic.Common

set_option autoImplicit false

namespace IntHpcc.AddAt

section

variable {M : Type*} [AddCommMonoid M]

/-- The amounts of `us` are added to `a` at their indices. -/
def add_at (a : List M) (us : List (ℕ × M)) : List M :=
  us.foldl (fun a u => a.modify u.1 (· + u.2)) a

/-- All that is deposited at an index. -/
def amount_at (us : List (ℕ × M)) (i : ℕ) : M := ((us.filter fun u => u.1 = i).map Prod.snd).sum

theorem amount_at_cons (u : ℕ × M) (us : List (ℕ × M)) (i : ℕ) :
    amount_at (u :: us) i = (if u.1 = i then u.2 else 0) + amount_at us i := by
  unfold amount_at
  rw [List.filter_cons]
  by_cases h : u.1 = i
  · rw [if_pos (by simpa using h), if_pos h, List.map_cons, List.sum_cons]
  · rw [if_neg (by simpa using h), if_neg h, zero_add]

/-- Each entry gets what is deposited at its index. -/
theorem getElem?_add_at (a : List M) (us : List (ℕ × M)) (i : ℕ) :
    (add_at a us)[i]? = a[i]?.map (· + amount_at us i) := by
  unfold add_at
  induction us generalizing a with
  | nil =>
      have hid : (fun x : M => x + amount_at [] i) = id := by
        funext x
        exact add_zero x
      rw [List.foldl_nil, hid, Option.map_id_fun, id_eq]
  | cons u us ih =>
      rw [List.foldl_cons, ih, List.getElem?_modify, amount_at_cons]
      by_cases h : u.1 = i
      · simp only [if_pos h, Option.map_eq_map, Option.map_map, Function.comp_def, add_assoc]
      · simp only [if_neg h, id_map', zero_add]

/-- From an array of zeros: the amounts, index by index. -/
theorem add_at_zeros (n : ℕ) (us : List (ℕ × M)) :
    add_at (List.replicate n 0) us = (List.range n).map (amount_at us) := by
  apply List.ext_getElem?
  intro i
  rw [getElem?_add_at, List.getElem?_map]
  by_cases h : i < n
  · rw [List.getElem?_replicate, if_pos h, List.getElem?_range h, Option.map_some, Option.map_some,
      zero_add]
  · rw [List.getElem?_replicate, if_neg h, List.getElem?_eq_none (by simpa using h)]
    rfl

/-- Where nothing is deposited there is no amount. -/
theorem amount_at_eq_zero {us : List (ℕ × M)} {i : ℕ} (h : i ∉ us.map Prod.fst) :
    amount_at us i = 0 := by
  have hnone : us.filter (fun u => decide (u.1 = i)) = [] := by
    apply List.filter_eq_nil_iff.mpr
    intro u hu heq
    exact h (List.mem_map.mpr ⟨u, hu, of_decide_eq_true heq⟩)
  rw [amount_at, hnone]
  rfl

theorem sum_modify (a : List M) (i : ℕ) (x : M) (h : i < a.length) :
    (a.modify i (· + x)).sum = a.sum + x := by
  induction a generalizing i with
  | nil => cases h
  | cons y a ih =>
      cases i with
      | zero =>
          rw [List.modify_zero_cons, List.sum_cons, List.sum_cons, add_right_comm]
      | succ i =>
          rw [List.modify_succ_cons, List.sum_cons, ih i (Nat.lt_of_succ_lt_succ h), List.sum_cons,
            add_assoc]

/-- **Conservation.** What is deposited within range is all there. -/
theorem sum_add_at (a : List M) (us : List (ℕ × M)) (h : ∀ u ∈ us, u.1 < a.length) :
    (add_at a us).sum = a.sum + (us.map Prod.snd).sum := by
  unfold add_at
  induction us generalizing a with
  | nil => rw [List.foldl_nil, List.map_nil, List.sum_nil, add_zero]
  | cons u us ih =>
      have hrest : ∀ v ∈ us, v.1 < (a.modify u.1 (· + u.2)).length := by
        intro v hv
        rw [List.length_modify]
        exact h v (List.mem_cons_of_mem _ hv)
      rw [List.foldl_cons, ih _ hrest, sum_modify a u.1 u.2 (h u List.mem_cons_self), List.map_cons,
        List.sum_cons, add_assoc]

/-- The same from an array of zeros. -/
theorem sum_add_at_zeros (n : ℕ) (us : List (ℕ × M)) (h : ∀ u ∈ us, u.1 < n) :
    (add_at (List.replicate n 0) us).sum = (us.map Prod.snd).sum := by
  rw [sum_add_at _ us (by simpa using h), List.sum_replicate, smul_zero, zero_add]

end

section

variable {F : Type*} [Field F] [LinearOrder F] [IsStrictOrderedRing F]

/-- One deposit of 1 at each index. -/
def ones (ixs : List ℕ) : List (ℕ × F) := ixs.map fun i => (i, 1)

omit [LinearOrder F] [IsStrictOrderedRing F] in
/-- How often an index comes. -/
theorem amount_at_ones (ixs : List ℕ) (i : ℕ) : amount_at (ones (F := F) ixs) i = ixs.count i := by
  unfold ones
  induction ixs with
  | nil => exact Nat.cast_zero.symm
  | cons j ixs ih =>
      rw [List.map_cons, amount_at_cons, ih, List.count_cons]
      by_cases h : j = i
      · rw [if_pos h, if_pos (by simpa using h), Nat.cast_add, Nat.cast_one, add_comm]
      · rw [if_neg h, if_neg (by simpa using h), zero_add, add_zero]

/-- The mean amount of an index, 0 where nothing is deposited, times the number of its
deposits is its amount. -/
theorem mean_mul_count (us : List (ℕ × F)) (i : ℕ) :
    (if (0 : F) < amount_at (ones (us.map Prod.fst)) i
      then amount_at us i / amount_at (ones (us.map Prod.fst)) i else 0)
      * amount_at (ones (us.map Prod.fst)) i = amount_at us i := by
  rw [amount_at_ones]
  by_cases h : i ∈ us.map Prod.fst
  · have hpos : (0 : F) < ((us.map Prod.fst).count i : F) :=
      Nat.cast_pos.mpr (List.count_pos_iff.mpr h)
    rw [if_pos hpos, div_mul_cancel₀ _ hpos.ne']
  · rw [List.count_eq_zero_of_not_mem h, Nat.cast_zero, mul_zero, amount_at_eq_zero h]

/-- **Weighted means.** The means of the entries, weighted by the numbers of deposits, sum
to all the amounts. -/
theorem weighted_means (n : ℕ) (us : List (ℕ × F)) (h : ∀ u ∈ us, u.1 < n) :
    (List.zipWith (· * ·)
      (List.zipWith (fun m c => if 0 < c then m / c else 0) (add_at (List.replicate n 0) us)
        (add_at (List.replicate n 0) (ones (us.map Prod.fst))))
      (add_at (List.replicate n 0) (ones (us.map Prod.fst)))).sum = (us.map Prod.snd).sum := by
  rw [← sum_add_at_zeros n us h]
  simp only [add_at_zeros, List.zipWith_map, List.zipWith_self, mean_mul_count]

end

end IntHpcc.AddAt
