/-
Sums with end-around carry.

A checksum of `w`-bit words adds them up and brings the carries in again at the low end
until none is left. That is arithmetic modulo `2 ^ w - 1` with one twist: a positive sum
that is zero modulo `2 ^ w - 1` comes out as all ones and never as zero. So a sum to which
its own complement has been added always folds to all ones (`dvd_add_complement`,
`fold_fold_eq_iff`), which is what the receiving end tests.

Nothing here knows what the words are the words of.
-/
import Mathlib.Data.Nat.ModEq
import Mathlib.Tactic.Common
import Mathlib.Tactic.Ring
import Mathlib.Tactic.Linarith

set_option autoImplicit false

namespace IntHpcc.OnesComplement

/-- The carries of a sum added back in, once. -/
def fold (w s : ℕ) : ℕ := s % 2 ^ w + s / 2 ^ w

/-- All ones. -/
def ones (w : ℕ) : ℕ := 2 ^ w - 1

variable {w s t : ℕ}

theorem ones_succ (w : ℕ) : ones w + 1 = 2 ^ w := Nat.sub_add_cancel Nat.one_le_two_pow

/-- A fold stays where it is modulo all ones. -/
theorem fold_modEq (w s : ℕ) : fold w s ≡ s [MOD ones w] := by
  have hsplit : fold w s + ones w * (s / 2 ^ w) = s := by
    calc fold w s + ones w * (s / 2 ^ w)
        = s % 2 ^ w + (ones w + 1) * (s / 2 ^ w) := by unfold fold; ring
      _ = s := by rw [ones_succ, Nat.mod_add_div]
  have hmultiple : fold w s + ones w * (s / 2 ^ w) ≡ fold w s [MOD ones w] := by
    unfold Nat.ModEq
    rw [Nat.add_mul_mod_self_left]
  rw [hsplit] at hmultiple
  exact hmultiple.symm

/-- A sum that is not zero stays so. -/
theorem fold_pos (w : ℕ) (h : 0 < s) : 0 < fold w s := by
  unfold fold
  by_contra hzero
  obtain ⟨hmod, hdiv⟩ := Nat.add_eq_zero_iff.mp (Nat.eq_zero_of_not_pos hzero)
  have hsplit := Nat.mod_add_div s (2 ^ w)
  rw [hmod, hdiv, Nat.mul_zero] at hsplit
  omega

/-- A sum of up to `2 ^ w` words has one carry left after a fold, and none after two. -/
theorem fold_fold_le (h : s < 2 ^ w * 2 ^ w) : fold w (fold w s) ≤ ones w := by
  have hpos : 0 < 2 ^ w := Nat.two_pow_pos w
  have hmod : s % 2 ^ w < 2 ^ w := Nat.mod_lt _ hpos
  have hdiv : s / 2 ^ w < 2 ^ w := Nat.div_lt_of_lt_mul h
  have hones := ones_succ w
  have hle : fold w s ≤ ones w + ones w := by
    unfold fold
    omega
  unfold fold at hle ⊢
  generalize s % 2 ^ w + s / 2 ^ w = r at hle ⊢
  by_cases hr : r < 2 ^ w
  · rw [Nat.mod_eq_of_lt hr, Nat.div_eq_of_lt hr]
    omega
  · -- one carry, and little is left of the word it leaves behind
    have hone : r / 2 ^ w = 1 := Nat.div_eq_of_lt_le (by omega) (by omega)
    have hsplit := Nat.mod_add_div r (2 ^ w)
    rw [hone] at hsplit ⊢
    omega

/-- **The test.** Two folds of a positive sum give all ones exactly if the sum is zero
modulo all ones. -/
theorem fold_fold_eq_iff (hs : 0 < s) (h : s < 2 ^ w * 2 ^ w) :
    fold w (fold w s) = ones w ↔ ones w ∣ s := by
  have hmod : fold w (fold w s) ≡ s [MOD ones w] := (fold_modEq w _).trans (fold_modEq w s)
  have hpos : 0 < fold w (fold w s) := fold_pos w (fold_pos w hs)
  constructor
  · intro heq
    rw [heq] at hmod
    exact (Nat.modEq_zero_iff_dvd).mp (hmod.symm.trans (Nat.modEq_zero_iff_dvd.mpr dvd_rfl))
  · intro hdvd
    have hdvd' : ones w ∣ fold w (fold w s) := (hmod.dvd_iff dvd_rfl).mpr hdvd
    exact le_antisymm (fold_fold_le h) (Nat.le_of_dvd hpos hdvd')

/-- **The checksum.** With its complement added, a sum is positive and zero modulo all
ones. -/
theorem dvd_add_complement (hw : 0 < w) (h : s < 2 ^ w * 2 ^ w) :
    0 < s + (ones w - fold w (fold w s)) ∧ ones w ∣ s + (ones w - fold w (fold w s)) := by
  have hle := fold_fold_le h
  have hones : 0 < ones w := by
    have hone : 1 < 2 ^ w := Nat.one_lt_two_pow hw.ne'
    have hsucc := ones_succ w
    omega
  refine ⟨?_, ?_⟩
  · rcases Nat.eq_zero_or_pos s with rfl | hs
    · -- a sum of zero gets the all-ones complement
      have hzero : fold w (fold w 0) = 0 := by simp [fold]
      omega
    · omega
  · -- folding is taking the sum modulo all-ones
    have hmod : fold w (fold w s) ≡ s [MOD ones w] := (fold_modEq w _).trans (fold_modEq w s)
    rw [← Nat.modEq_zero_iff_dvd]
    calc s + (ones w - fold w (fold w s))
        ≡ fold w (fold w s) + (ones w - fold w (fold w s)) [MOD ones w] :=
          hmod.symm.add_right _
      _ = ones w := by omega
      _ ≡ 0 [MOD ones w] := Nat.modEq_zero_iff_dvd.mpr dvd_rfl

end IntHpcc.OnesComplement
