/-
Iterating `x ↦ a * x + b`, clamped to an interval.

A controller that multiplies its window by a factor, adds a constant and clamps the result
is such a map. Below slope one it contracts to the clamped fixed point, from one side and
without turning back; from slope one on it climbs to the top of the interval. Nothing here
knows what the window is.
-/
import Mathlib.Algebra.Order.Archimedean.Basic
import Mathlib.Algebra.Order.Floor.Semiring
import Mathlib.Algebra.Order.Group.MinMax
import Mathlib.Order.Iterate
import Mathlib.Tactic.FieldSimp
import Mathlib.Tactic.Linarith
import Mathlib.Tactic.Positivity

set_option autoImplicit false

namespace IntHpcc.ClampedAffine

section

variable {α : Type*}

/-! ## Sequences that a map generates -/

variable {w : ℕ → α}

/-- Such a sequence is the map's orbit. -/
theorem eq_iterate {f : α → α} (h : ∀ n, w (n + 1) = f (w n)) (n : ℕ) : w n = f^[n] (w 0) := by
  induction n with
  | zero => rfl
  | succ n ih => rw [h, ih, Function.iterate_succ_apply']

variable [LinearOrder α]

/-- The orbit of a monotone map on an ordered set does not turn back. -/
theorem monotone_or_antitone {f : α → α} (hf : Monotone f) (h : ∀ n, w (n + 1) = f (w n)) :
    Monotone w ∨ Antitone w := by
  have hw : w = fun n => f^[n] (w 0) := funext (eq_iterate h)
  rcases le_total (w 0) (f (w 0)) with h₀ | h₀
  · left
    rw [hw]
    exact hf.monotone_iterate_of_le_map h₀
  · right
    rw [hw]
    exact hf.antitone_iterate_of_map_le h₀

/-- Nor does it cross a fixed point. -/
theorem one_side {f : α → α} {p : α} (hf : Monotone f) (hp : f p = p)
    (h : ∀ n, w (n + 1) = f (w n)) : (∀ n, w n ≤ p) ∨ ∀ n, p ≤ w n := by
  have hfix : ∀ n, f^[n] p = p := fun n => Function.iterate_fixed hp n
  rcases le_total (w 0) p with h₀ | h₀
  · left
    intro n
    rw [eq_iterate h, ← hfix n]
    exact hf.iterate n h₀
  · right
    intro n
    rw [eq_iterate h, ← hfix n]
    exact hf.iterate n h₀

/-! ## The clamp -/

/-- `x`, moved into `[lo, hi]`. -/
def clamp (lo hi x : α) : α := max lo (min hi x)

variable {lo hi x : α}

theorem clamp_mono : Monotone (clamp lo hi) := fun _ _ h =>
  max_le_max (le_refl lo) (min_le_min (le_refl hi) h)

theorem le_clamp (lo hi x : α) : lo ≤ clamp lo hi x := le_max_left _ _

theorem clamp_le (h : lo ≤ hi) (x : α) : clamp lo hi x ≤ hi := max_le h (min_le_left _ _)

theorem clamp_of_mem (h₁ : lo ≤ x) (h₂ : x ≤ hi) : clamp lo hi x = x := by
  rw [clamp, min_eq_right h₂, max_eq_right h₁]

theorem clamp_of_le (h : x ≤ lo) : clamp lo hi x = lo :=
  max_eq_left (le_trans (min_le_right _ _) h)

theorem clamp_of_ge (hle : lo ≤ hi) (h : hi ≤ x) : clamp lo hi x = hi := by
  rw [clamp, min_eq_left h, max_eq_right hle]

end

variable {K : Type*} [Field K] [LinearOrder K] [IsStrictOrderedRing K] {lo hi a b x : K}

/-- Clamping does not take two points apart. -/
theorem abs_clamp_sub_le (lo hi x y : K) : |clamp lo hi x - clamp lo hi y| ≤ |x - y| := by
  have hmax := abs_max_sub_max_le_max lo (min hi x) lo (min hi y)
  have hmin := abs_min_sub_min_le_max hi x hi y
  rw [sub_self, abs_zero] at hmax hmin
  have h₁ : |clamp lo hi x - clamp lo hi y| ≤ |min hi x - min hi y| :=
    le_trans hmax (max_le (abs_nonneg _) (le_refl _))
  exact le_trans h₁ (le_trans hmin (max_le (abs_nonneg _) (le_refl _)))

/-! ## The map -/

/-- One step: `a * x + b`, clamped. -/
def clampedAffine (lo hi a b x : K) : K := clamp lo hi (a * x + b)

theorem clampedAffine_mono (ha : 0 ≤ a) : Monotone (clampedAffine lo hi a b) := fun x y h =>
  clamp_mono (by
    have hmul := mul_le_mul_of_nonneg_left h ha
    linarith)

/-- A larger slope gives a larger value, at points that are not negative. -/
theorem clampedAffine_mono_slope {a' : K} (h : a ≤ a') (hx : 0 ≤ x) :
    clampedAffine lo hi a b x ≤ clampedAffine lo hi a' b x :=
  clamp_mono (by
    have hmul := mul_le_mul_of_nonneg_right h hx
    linarith)

theorem abs_clampedAffine_sub_le (ha : 0 ≤ a) (x y : K) :
    |clampedAffine lo hi a b x - clampedAffine lo hi a b y| ≤ a * |x - y| := by
  have h := abs_clamp_sub_le lo hi (a * x + b) (a * y + b)
  rwa [add_sub_add_right_eq_sub, ← mul_sub, abs_mul, abs_of_nonneg ha] at h

/-! ## Below slope one -/

/-- Where the iteration settles: the fixed point of the line, clamped. -/
def rest (lo hi a b : K) : K := clamp lo hi (b / (1 - a))

theorem clampedAffine_rest (hle : lo ≤ hi) (ha : a < 1) :
    clampedAffine lo hi a b (rest lo hi a b) = rest lo hi a b := by
  have hpos : 0 < 1 - a := sub_pos.mpr ha
  -- the line is above the diagonal below its fixed point, and below it above
  have hfix : a * (b / (1 - a)) + b = b / (1 - a) := by
    field_simp
    ring
  unfold rest clampedAffine
  rcases le_total (b / (1 - a)) lo with h₁ | h₁
  · have hlo : a * lo + b ≤ lo := by
      rw [div_le_iff₀ hpos] at h₁
      linarith
    rw [clamp_of_le h₁, clamp_of_le hlo]
  · rcases le_total (b / (1 - a)) hi with h₂ | h₂
    · rw [clamp_of_mem h₁ h₂, hfix, clamp_of_mem h₁ h₂]
    · have hhi : hi ≤ a * hi + b := by
        rw [le_div_iff₀ hpos] at h₂
        linarith
      rw [clamp_of_ge hle h₂, clamp_of_ge hle hhi]

variable {w : ℕ → K}

/-- **Contraction**: the distance to a fixed point shrinks by the slope. -/
theorem abs_sub_le {p : K} (ha : 0 ≤ a) (hp : clampedAffine lo hi a b p = p)
    (h : ∀ n, w (n + 1) = clampedAffine lo hi a b (w n)) (n : ℕ) :
    |w n - p| ≤ a ^ n * |w 0 - p| := by
  induction n with
  | zero => rw [pow_zero, one_mul]
  | succ n ih =>
      have hstep : |w (n + 1) - p| ≤ a * |w n - p| := by
        rw [h]
        calc |clampedAffine lo hi a b (w n) - p|
            = |clampedAffine lo hi a b (w n) - clampedAffine lo hi a b p| := by rw [hp]
          _ ≤ a * |w n - p| := abs_clampedAffine_sub_le ha _ _
      calc |w (n + 1) - p| ≤ a * |w n - p| := hstep
        _ ≤ a * (a ^ n * |w 0 - p|) := mul_le_mul_of_nonneg_left ih ha
        _ = a ^ (n + 1) * |w 0 - p| := by ring

/-! ## From slope one on -/

/-- One step gains `b` until the top is reached. -/
theorem climb_step (ha : 1 ≤ a) (hx : 0 ≤ x) : min hi (x + b) ≤ clampedAffine lo hi a b x := by
  have hmul : x ≤ a * x := le_mul_of_one_le_left hx ha
  exact le_trans (min_le_min (le_refl hi) (by linarith)) (le_max_right _ _)

variable (hlo : 0 ≤ lo) (hle : lo ≤ hi) (ha : 1 ≤ a) (hb : 0 < b)
  (h₀ : w 0 ∈ Set.Icc lo hi) (h : ∀ n, w (n + 1) = clampedAffine lo hi a b (w n))

omit [IsStrictOrderedRing K] in
include hle h₀ h in
theorem orbit_mem (n : ℕ) : w n ∈ Set.Icc lo hi := by
  cases n with
  | zero => exact h₀
  | succ n =>
      rw [h]
      exact ⟨le_clamp _ _ _, clamp_le hle _⟩

include hlo hle ha hb h₀ h

theorem climb (n : ℕ) : min hi (w 0 + n * b) ≤ w n := by
  induction n with
  | zero =>
      rw [Nat.cast_zero, zero_mul, add_zero]
      exact min_le_right _ _
  | succ n ih =>
      have hmem := orbit_mem hle h₀ h n
      have hstep : min hi (w n + b) ≤ w (n + 1) := by
        rw [h]
        exact climb_step ha (le_trans hlo hmem.1)
      refine le_trans (le_min (min_le_left _ _) ?_) hstep
      rcases min_le_iff.mp ih with htop | hbelow
      · exact le_trans (min_le_left _ _) (by linarith)
      · refine le_trans (min_le_right _ _) ?_
        push_cast
        linarith

theorem monotone_of_one_le : Monotone w := by
  refine monotone_nat_of_le_succ fun n => ?_
  have hmem := orbit_mem hle h₀ h n
  have hstep : min hi (w n + b) ≤ w (n + 1) := by
    rw [h]
    exact climb_step ha (le_trans hlo hmem.1)
  exact le_trans (le_min hmem.2 (by linarith)) hstep

/-- **The climb**: the top is reached after as many steps as it takes in steps of `b`. -/
theorem eq_top [FloorSemiring K] {n : ℕ} (hn : ⌈(hi - w 0) / b⌉₊ ≤ n) : w n = hi := by
  have hgap : hi - w 0 ≤ n * b := by
    rw [← div_le_iff₀ hb]
    exact le_trans (Nat.le_ceil _) (by exact_mod_cast hn)
  have htop : hi ≤ w n := by
    have hclimb := climb hlo hle ha hb h₀ h n
    rwa [min_eq_left (by linarith)] at hclimb
  exact le_antisymm (orbit_mem hle h₀ h n).2 htop

omit hlo hle ha hb h₀ h

/-! ## Both -/

/-- How the sequences of the map go, for either kind of slope. -/
structure Settles [FloorSemiring K] (lo hi a b : K) (w : ℕ → K) : Prop where
  /-- below slope one the sequence closes in on the clamped fixed point, from one side -/
  below : a < 1 → (Monotone w ∨ Antitone w) ∧
    ((∀ n, w n ≤ rest lo hi a b) ∨ ∀ n, rest lo hi a b ≤ w n) ∧
    ∀ n, |w n - rest lo hi a b| ≤ a ^ n * |w 0 - rest lo hi a b|
  /-- from slope one on it climbs to the top -/
  above : 1 ≤ a → Monotone w ∧ ∀ n, ⌈(hi - w 0) / b⌉₊ ≤ n → w n = hi

theorem settles [FloorSemiring K] (hlo : 0 ≤ lo) (hle : lo ≤ hi) (ha : 0 ≤ a) (hb : 0 < b)
    (h₀ : w 0 ∈ Set.Icc lo hi) (h : ∀ n, w (n + 1) = clampedAffine lo hi a b (w n)) :
    Settles lo hi a b w := by
  constructor
  · intro ha1
    have hrest := clampedAffine_rest hle ha1 (b := b)
    have hmono : Monotone (clampedAffine lo hi a b) := clampedAffine_mono ha
    exact ⟨monotone_or_antitone hmono h, one_side hmono hrest h, abs_sub_le ha hrest h⟩
  · intro ha1
    exact ⟨monotone_of_one_le hlo hle ha1 hb h₀ h, fun n hn => eq_top hlo hle ha1 hb h₀ h hn⟩

end IntHpcc.ClampedAffine
