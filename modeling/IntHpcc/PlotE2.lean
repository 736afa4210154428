/-
`analysis/plot_e2.py`: two throughput series on one grid.

`main` shifts the time stamps of the second flow by the delay it started with, and
`aligned_throughput` is to put both series on the grid of the first. It copies them from the
first entry on, so that the second one loses its shift again: the entry of its bin `k` ends
up at bin `k` of the grid and not at the delay behind it. When the first series has fewer
than two bins the grid has bins of 0.1 s, whatever the width of the bins is.

`same_instant_iff` says for which series the outputs are right all the same. The numbers are
exact: on the source's floats `int(t_max / bin_s)` may come out one lower, and the last time of
the grid is missing.
-/
import IntHpcc.ParseLogs
import Mathlib.Data.List.GetD

set_option autoImplicit false

namespace IntHpcc.PlotE2

open IntHpcc.Py IntHpcc.ParseLogs

/-! ## `aligned_throughput` -/

/-- `t[-1] if t.size else 0`. -/
def last (t : List ℚ) : ℚ := t.getLast?.getD 0

/-- `out[: m] = xs`: the lengths must agree, but for a single value. -/
def assign_slice (out : List ℚ) (m : ℕ) (xs : List ℚ) : Except PyError (List ℚ) :=
  let k := min m out.length
  if xs.length = k then .ok (xs ++ out.drop k)
  else if xs.length = 1 then .ok (List.replicate k (xs.getD 0 0) ++ out.drop k)
  else .error .value_error

/-- One of the two outputs. -/
def resampled (n : ℕ) (t x : List ℚ) : Except PyError (List ℚ) :=
  let out := List.replicate n 0
  if t = [] then .ok out else assign_slice out t.length (x.take n)

/-- `bin_s` of the grid. -/
def grid_width (t_a : List ℚ) : ℚ :=
  if 1 < t_a.length then t_a.getD 1 0 - t_a.getD 0 0 else 1 / 10

/-- The quotient that `int` rounds down is exact here, and a float in the source. -/
def aligned_throughput (t_a x_a t_b x_b : List ℚ) :
    Except PyError (List ℚ × List ℚ × List ℚ) := do
  let t_max := max (last t_a) (last t_b)
  let bin_s := grid_width t_a
  let bins ← py_div t_max bin_s
  let n := py_int bins + 1
  -- `np.zeros(n)`
  if n < 0 then
    throw .value_error
  let grid := (List.range n.toNat).map fun i : ℕ => (i : ℚ) * bin_s
  let out_a ← resampled n.toNat t_a x_a
  let out_b ← resampled n.toNat t_b x_b
  return (grid, out_a, out_b)

/-- The line of `main` that shifts the second flow. -/
def shift_h2 (h2_delay : ℚ) (t2 : List ℚ) : List ℚ :=
  if t2 = [] then t2 else t2.map fun t => t + h2_delay

/-- `np.arange(n_bins) * bin_s`. -/
def bin_times (bin_s : ℚ) (n_bins : ℕ) : List ℚ :=
  (List.range n_bins).map fun k : ℕ => (k : ℚ) * bin_s

/-- Such are the time stamps `throughput_mbps` returns. -/
theorem throughput_bin_times (trace : Trace) (bin_s : ℚ) (pkt_size_bytes : ℤ) :
    (throughput_mbps trace bin_s pkt_size_bytes).1
      = bin_times bin_s (throughput_mbps trace bin_s pkt_size_bytes).2.length := by
  unfold throughput_mbps
  by_cases h : trace.n_ack = 0
  · rw [if_pos h]
    rfl
  · rw [if_neg h]
    dsimp only
    rw [List.length_map, List.length_map, counts_eq, List.length_map, List.length_range]
    rfl

/-! ## What the outputs should be -/

/-- `v` is the value of the series at time `g`: that of the bin with this time stamp, and 0
if there is none. -/
def ValueAt (t x : List ℚ) (g v : ℚ) : Prop :=
  (∃ k : ℕ, t[k]? = some g ∧ x[k]? = some v) ∨ ((∀ k : ℕ, t[k]? ≠ some g) ∧ v = 0)

/-- At each time of the grid the output has the value of the series. -/
def KeepsTime (t x grid out : List ℚ) : Prop :=
  out.length = grid.length ∧
    ∀ (i : ℕ) (g v : ℚ), grid[i]? = some g → out[i]? = some v → ValueAt t x g v

/-- For bins of width `bin_s` and a second flow that starts `d` bins after the first,
both outputs have the values of their series at the times of the grid. -/
def SameInstant (bin_s : ℚ) (x_a x_b : List ℚ) (d : ℕ) : Prop :=
  let t_a := bin_times bin_s x_a.length
  let t_b := shift_h2 (d * bin_s) (bin_times bin_s x_b.length)
  ∃ grid out_a out_b, aligned_throughput t_a x_a t_b x_b = .ok (grid, out_a, out_b) ∧
    KeepsTime t_a x_a grid out_a ∧ KeepsTime t_b x_b grid out_b

/-! ## The series by index -/

section

variable {bin_s : ℚ} {d : ℕ} {x : List ℚ}

/-- Time stamps `k * bin_s`, shifted by `d` bins. -/
def stamps (bin_s : ℚ) (d n_bins : ℕ) : List ℚ :=
  (List.range n_bins).map fun k : ℕ => ((k : ℚ) + d) * bin_s

theorem bin_times_eq (bin_s : ℚ) (n_bins : ℕ) : bin_times bin_s n_bins = stamps bin_s 0 n_bins := by
  simp [bin_times, stamps]

theorem shift_h2_eq (bin_s : ℚ) (d n_bins : ℕ) :
    shift_h2 (d * bin_s) (bin_times bin_s n_bins) = stamps bin_s d n_bins := by
  have hmap : shift_h2 (d * bin_s) (bin_times bin_s n_bins)
      = (bin_times bin_s n_bins).map fun t => t + d * bin_s := by
    unfold shift_h2
    by_cases h : bin_times bin_s n_bins = []
    · rw [if_pos h, h]
      rfl
    · rw [if_neg h]
  rw [hmap, bin_times, stamps, List.map_map]
  apply List.map_congr_left
  intro k _
  exact (add_mul _ _ _).symm

theorem length_stamps (bin_s : ℚ) (d n_bins : ℕ) : (stamps bin_s d n_bins).length = n_bins := by
  rw [stamps, List.length_map, List.length_range]

theorem getElem?_stamps {n_bins k : ℕ} {g : ℚ} :
    (stamps bin_s d n_bins)[k]? = some g ↔ k < n_bins ∧ ((k : ℚ) + d) * bin_s = g := by
  rw [stamps, List.getElem?_map]
  by_cases h : k < n_bins
  · rw [List.getElem?_range h, Option.map_some, Option.some.injEq, and_iff_right h]
  · rw [List.getElem?_eq_none (by simpa using h)]
    simp [h]

/-- The last time stamp. -/
theorem last_stamps (bin_s : ℚ) (d n_bins : ℕ) :
    last (stamps bin_s d (n_bins + 1)) = ((n_bins : ℚ) + d) * bin_s := by
  rw [last, stamps, List.range_succ, List.map_append, List.map_singleton, List.getLast?_concat]
  rfl

theorem last_nonneg (hbin : 0 < bin_s) (d n_bins : ℕ) : 0 ≤ last (stamps bin_s d n_bins) := by
  cases n_bins with
  | zero => exact le_refl _
  | succ n =>
      rw [last_stamps]
      positivity

/-- A series without its time stamps, on `n` bins: cut off or filled up with zeros. -/
def filled (n : ℕ) (x : List ℚ) : List ℚ := x.take n ++ List.replicate (n - x.length) 0

theorem length_filled (n : ℕ) (x : List ℚ) : (filled n x).length = n := by
  rw [filled, List.length_append, List.length_take, List.length_replicate]
  omega

theorem getElem?_filled {n i : ℕ} (h : i < n) : (filled n x)[i]? = some (x.getD i 0) := by
  unfold filled
  by_cases hx : i < x.length
  · rw [List.getElem?_append_left (by simp [h, hx]), List.getElem?_take_of_lt h,
      List.getElem?_eq_getElem hx, List.getD_eq_getElem _ _ hx]
  · rw [List.getElem?_append_right (by simp; omega), List.getElem?_replicate,
      if_pos (by simp; omega), List.getD_eq_default _ _ (not_lt.mp hx)]

/-- This is all `aligned_throughput` does with a series. -/
theorem resampled_stamps (n : ℕ) (bin_s : ℚ) (d : ℕ) (x : List ℚ) :
    resampled n (stamps bin_s d x.length) x = .ok (filled n x) := by
  unfold resampled
  by_cases h : stamps bin_s d x.length = []
  · have hx : x = [] := by
      rw [← List.length_eq_zero_iff, ← length_stamps bin_s d x.length, h]
      rfl
    rw [if_pos h, hx, filled, List.take_nil, List.nil_append]
    rfl
  · have hlen : (x.take n).length = min x.length (List.replicate n (0 : ℚ)).length := by
      rw [List.length_take, List.length_replicate, min_comm]
    rw [if_neg h, length_stamps]
    unfold assign_slice
    dsimp only
    rw [if_pos hlen, List.drop_replicate, List.length_replicate, filled]
    congr 3
    omega

/-- With bins of `ratio` grid widths, entry `i` is the value at time `i` of the grid. -/
def Agrees (ratio : ℚ) (d : ℕ) (x : List ℚ) (i : ℕ) : Prop :=
  (∃ k < x.length, (i : ℚ) = ratio * (k + d) ∧ x.getD k 0 = x.getD i 0) ∨
    ((∀ k < x.length, (i : ℚ) ≠ ratio * (k + d)) ∧ x.getD i 0 = 0)

/-- Two times in grid widths. -/
theorem time_eq_iff {width : ℚ} (hw : 0 < width) (i k : ℕ) :
    ((k : ℚ) + d) * bin_s = i * width ↔ (i : ℚ) = bin_s / width * (k + d) := by
  rw [div_mul_eq_mul_div, eq_div_iff hw.ne', eq_comm, mul_comm bin_s]

theorem valueAt_stamps {width : ℚ} (hw : 0 < width) (i : ℕ) :
    ValueAt (stamps bin_s d x.length) x (i * width) (x.getD i 0) ↔
      Agrees (bin_s / width) d x i := by
  unfold ValueAt Agrees
  simp only [ne_eq, getElem?_stamps, time_eq_iff hw]
  apply or_congr
  · constructor
    · rintro ⟨k, ⟨hk, htime⟩, hv⟩
      refine ⟨k, hk, htime, ?_⟩
      rw [List.getD_eq_getElem?_getD, hv]
      rfl
    · rintro ⟨k, hk, htime, hv⟩
      refine ⟨k, ⟨hk, htime⟩, ?_⟩
      rw [List.getElem?_eq_getElem hk, ← hv, List.getD_eq_getElem _ _ hk]
  · apply and_congr_left'
    constructor
    · intro h k hk htime
      exact h k ⟨hk, htime⟩
    · rintro h k ⟨hk, htime⟩
      exact h k hk htime

/-- An output keeps time exactly if its entries agree with the series. -/
theorem keepsTime_iff {width : ℚ} (hw : 0 < width) (n : ℕ) :
    KeepsTime (stamps bin_s d x.length) x ((List.range n).map fun i : ℕ => (i : ℚ) * width)
        (filled n x) ↔ ∀ i < n, Agrees (bin_s / width) d x i := by
  -- the i-th value of the output stands at the i-th time of the grid
  unfold KeepsTime
  rw [length_filled, List.length_map, List.length_range, and_iff_right rfl]
  constructor
  · intro h i hi
    refine (valueAt_stamps hw i).mp (h i (i * width) (x.getD i 0) ?_ (getElem?_filled hi))
    rw [List.getElem?_map, List.getElem?_range hi]
    rfl
  · intro h i g v hg hv
    have hi : i < n := by
      obtain ⟨hlt, -⟩ := List.getElem?_eq_some_iff.mp hv
      rwa [length_filled] at hlt
    rw [List.getElem?_map, List.getElem?_range hi, Option.map_some, Option.some.injEq] at hg
    rw [getElem?_filled hi, Option.some.injEq] at hv
    rw [← hg, ← hv]
    exact (valueAt_stamps hw i).mpr (h i hi)

/-! ## When the entries agree -/

/-- On a grid of its own width, and not shifted, a series agrees. -/
theorem agrees_same (i : ℕ) : Agrees 1 0 x i := by
  by_cases h : i < x.length
  · exact Or.inl ⟨i, h, by simp, rfl⟩
  · refine Or.inr ⟨?_, List.getD_eq_default _ _ (not_lt.mp h)⟩
    intro k hk htime
    have hik : i = k := by simpa using htime
    omega

theorem getD_of_zero (h : ∀ v ∈ x, v = 0) (i : ℕ) : x.getD i 0 = 0 := by
  by_cases hi : i < x.length
  · rw [List.getD_eq_getElem _ _ hi]
    exact h _ (List.getElem_mem hi)
  · exact List.getD_eq_default _ _ (not_lt.mp hi)

/-- A series of zeros agrees anywhere. -/
theorem agrees_zero {ratio : ℚ} (h : ∀ v ∈ x, v = 0) (i : ℕ) : Agrees ratio d x i := by
  by_cases hex : ∃ k < x.length, (i : ℚ) = ratio * (k + d)
  · obtain ⟨k, hk, htime⟩ := hex
    exact Or.inl ⟨k, hk, htime, (getD_of_zero h k).trans (getD_of_zero h i).symm⟩
  · refine Or.inr ⟨?_, getD_of_zero h i⟩
    intro k hk htime
    exact hex ⟨k, hk, htime⟩

/-- So does a single value at time 0. -/
theorem agrees_head {ratio : ℚ} (hr : 0 < ratio) (h : ∀ i, 0 < i → x.getD i 0 = 0) (i : ℕ) :
    Agrees ratio 0 x i := by
  -- a bin of the series starts at this time, or none does
  by_cases hex : ∃ k < x.length, (i : ℚ) = ratio * (k + (0 : ℕ))
  · obtain ⟨k, hk, htime⟩ := hex
    refine Or.inl ⟨k, hk, htime, ?_⟩
    rw [Nat.cast_zero, add_zero] at htime
    rcases Nat.eq_zero_or_pos k with rfl | hpos
    · have hi : i = 0 := by simpa using htime
      rw [hi]
    · have hi : (0 : ℚ) < i := by
        rw [htime]
        exact mul_pos hr (Nat.cast_pos.mpr hpos)
      rw [h k hpos, h i (Nat.cast_pos.mp hi)]
  · rcases Nat.eq_zero_or_pos i with rfl | hpos
    · refine Or.inr ⟨fun k hk htime => hex ⟨k, hk, htime⟩, ?_⟩
      by_cases hx : 0 < x.length
      · exact absurd ⟨0, hx, by simp⟩ hex
      · exact List.getD_eq_default _ _ (not_lt.mp hx)
    · exact Or.inr ⟨fun k hk htime => hex ⟨k, hk, htime⟩, h i hpos⟩

/-- On a grid at least as fine as its bins an entry is copied from further on only: so the
entries vanish, one after the other, except one at time 0. -/
theorem zero_of_agrees {ratio : ℚ} (hr : 1 ≤ ratio) (hmove : 0 < d ∨ 1 < ratio)
    (h : ∀ i < x.length, Agrees ratio d x i) (i : ℕ) (hi : 0 < d ∨ 0 < i) : x.getD i 0 = 0 := by
  induction i using Nat.strong_induction_on with
  | _ i ih =>
      by_cases hlt : i < x.length
      · rcases h i hlt with ⟨k, hk, htime, hsame⟩ | ⟨-, hzero⟩
        · -- the entry is that of a bin with a smaller index
          have hkd : (k : ℚ) + d ≤ i := by
            rw [htime]
            exact le_mul_of_one_le_left (by positivity) hr
          have hsmall : k < i ∧ (0 < d ∨ 0 < k) := by
            rcases Nat.eq_zero_or_pos d with rfl | hd
            · have hpos : 0 < i := hi.resolve_left (lt_irrefl 0)
              have hkpos : 0 < k := by
                by_contra hk0
                have hk0' : k = 0 := Nat.eq_zero_of_not_pos hk0
                rw [hk0'] at htime
                have hi0 : i = 0 := by simpa using htime
                omega
              have hstrict : (k : ℚ) < i := by
                rw [htime, Nat.cast_zero, add_zero]
                exact lt_mul_of_one_lt_left (Nat.cast_pos.mpr hkpos)
                  (hmove.resolve_left (lt_irrefl 0))
              exact ⟨Nat.cast_lt.mp hstrict, Or.inr hkpos⟩
            · have hle : k + d ≤ i := by exact_mod_cast hkd
              exact ⟨by omega, Or.inl hd⟩
          rw [← hsame]
          exact ih k hsmall.1 hsmall.2
        · exact hzero
      · exact List.getD_eq_default _ _ (not_lt.mp hlt)

theorem zero_iff : (∀ v ∈ x, v = 0) ↔ ∀ i, x.getD i 0 = 0 := by
  constructor
  · exact fun h i => getD_of_zero h i
  · intro h v hv
    obtain ⟨i, hi, rfl⟩ := List.getElem_of_mem hv
    rw [← List.getD_eq_getElem _ 0 hi]
    exact h i

theorem tail_zero_iff : (∀ v ∈ x.tail, v = 0) ↔ ∀ i, 0 < i → x.getD i 0 = 0 := by
  rw [zero_iff]
  constructor
  · intro h i hi
    have hprev := h (i - 1)
    rw [List.getD_eq_getElem?_getD, List.getElem?_tail, Nat.sub_add_cancel hi,
      ← List.getD_eq_getElem?_getD] at hprev
    exact hprev
  · intro h i
    rw [List.getD_eq_getElem?_getD, List.getElem?_tail, ← List.getD_eq_getElem?_getD]
    exact h (i + 1) (Nat.succ_pos i)

end

/-! ## The grid -/

section

variable {bin_s : ℚ} {d : ℕ} {x_a x_b : List ℚ}

/-- The width of the grid for a first flow of bins of width `bin_s`. -/
def width (bin_s : ℚ) (x_a : List ℚ) : ℚ := if 1 < x_a.length then bin_s else 1 / 10

theorem width_pos (hbin : 0 < bin_s) (x_a : List ℚ) : 0 < width bin_s x_a := by
  unfold width
  split
  · exact hbin
  · norm_num

theorem grid_width_stamps (bin_s : ℚ) (x_a : List ℚ) :
    grid_width (stamps bin_s 0 x_a.length) = width bin_s x_a := by
  unfold grid_width width
  rw [length_stamps]
  by_cases h : 1 < x_a.length
  · have h₁ : (stamps bin_s 0 x_a.length)[1]? = some (((1 : ℕ) + (0 : ℕ)) * bin_s) :=
      getElem?_stamps.mpr ⟨h, rfl⟩
    have h₀ : (stamps bin_s 0 x_a.length)[0]? = some (((0 : ℕ) + (0 : ℕ)) * bin_s) :=
      getElem?_stamps.mpr ⟨by omega, rfl⟩
    rw [if_pos h, if_pos h, List.getD_eq_getElem?_getD, List.getD_eq_getElem?_getD, h₁, h₀]
    simp
  · rw [if_neg h, if_neg h]

/-- The last time of the grid, at most. -/
def t_max (bin_s : ℚ) (d : ℕ) (x_a x_b : List ℚ) : ℚ :=
  max (last (stamps bin_s 0 x_a.length)) (last (stamps bin_s d x_b.length))

/-- The bins of the grid. -/
def slots (bin_s : ℚ) (d : ℕ) (x_a x_b : List ℚ) : ℕ :=
  (py_int (t_max bin_s d x_a x_b / width bin_s x_a) + 1).toNat

theorem bins_nonneg (hbin : 0 < bin_s) (d : ℕ) (x_a x_b : List ℚ) :
    0 ≤ t_max bin_s d x_a x_b / width bin_s x_a :=
  div_nonneg (le_trans (last_nonneg hbin 0 x_a.length) (le_max_left _ _))
    (width_pos hbin x_a).le

theorem lt_slots_iff (hbin : 0 < bin_s) (i : ℕ) :
    i < slots bin_s d x_a x_b ↔ i * width bin_s x_a ≤ t_max bin_s d x_a x_b := by
  have hfloor : (i : ℤ) ≤ ⌊t_max bin_s d x_a x_b / width bin_s x_a⌋ ↔
      i * width bin_s x_a ≤ t_max bin_s d x_a x_b := by
    rw [Int.le_floor, Int.cast_natCast, le_div_iff₀ (width_pos hbin x_a)]
  rw [← hfloor, slots, py_int_of_nonneg (bins_nonneg hbin d x_a x_b)]
  omega

/-- `aligned_throughput` does not raise, and copies both series from the first bin on. -/
theorem aligned_ok (hbin : 0 < bin_s) (d : ℕ) (x_a x_b : List ℚ) :
    aligned_throughput (stamps bin_s 0 x_a.length) x_a (stamps bin_s d x_b.length) x_b
      = .ok ((List.range (slots bin_s d x_a x_b)).map fun i : ℕ => (i : ℚ) * width bin_s x_a,
        filled (slots bin_s d x_a x_b) x_a, filled (slots bin_s d x_a x_b) x_b) := by
  have hn : ¬ py_int (t_max bin_s d x_a x_b / width bin_s x_a) + 1 < 0 := by
    rw [py_int_of_nonneg (bins_nonneg hbin d x_a x_b)]
    have hfloor := Int.floor_nonneg.mpr (bins_nonneg hbin d x_a x_b)
    omega
  unfold aligned_throughput
  dsimp only
  rw [grid_width_stamps, py_div_of_ne _ (width_pos hbin x_a).ne']
  simp only [ok_bind]
  unfold t_max at hn
  rw [if_neg hn, resampled_stamps, resampled_stamps]
  rfl

/-- So the outputs are right where their entries agree. -/
theorem sameInstant_iff_agrees (hbin : 0 < bin_s) : SameInstant bin_s x_a x_b d ↔
    (∀ i < slots bin_s d x_a x_b, Agrees (bin_s / width bin_s x_a) 0 x_a i) ∧
      ∀ i < slots bin_s d x_a x_b, Agrees (bin_s / width bin_s x_a) d x_b i := by
  unfold SameInstant
  dsimp only
  rw [shift_h2_eq, bin_times_eq, aligned_ok hbin, ← keepsTime_iff (width_pos hbin x_a),
    ← keepsTime_iff (width_pos hbin x_a)]
  constructor
  · rintro ⟨grid, out_a, out_b, hok, ha, hb⟩
    obtain ⟨rfl, hout⟩ := Prod.mk.inj (Except.ok.inj hok)
    obtain ⟨rfl, rfl⟩ := Prod.mk.inj hout
    exact ⟨ha, hb⟩
  · rintro ⟨ha, hb⟩
    exact ⟨_, _, _, rfl, ha, hb⟩

/-- The first series is always right: it starts the grid. -/
theorem agrees_first (hbin : 0 < bin_s) (x_a : List ℚ) (i : ℕ) :
    Agrees (bin_s / width bin_s x_a) 0 x_a i := by
  by_cases h : 1 < x_a.length
  · rw [width, if_pos h, div_self hbin.ne']
    exact agrees_same i
  · refine agrees_head (div_pos hbin (width_pos hbin x_a)) ?_ i
    intro j hj
    exact List.getD_eq_default _ _ (by omega)

/-- A grid at least as fine as the bins has room for the whole second series. -/
theorem length_le_slots (hbin : 0 < bin_s) (hfine : width bin_s x_a ≤ bin_s) {i : ℕ}
    (hi : i < x_b.length) : i < slots bin_s d x_a x_b := by
  obtain ⟨m, hm⟩ := Nat.exists_eq_add_of_lt hi
  rw [lt_slots_iff hbin]
  refine le_trans ?_ (le_max_right _ _)
  rw [hm, last_stamps]
  have hle : (i : ℚ) ≤ ((i + m : ℕ) : ℚ) + d := by
    push_cast
    have hm₀ : (0 : ℚ) ≤ m := Nat.cast_nonneg m
    have hd₀ : (0 : ℚ) ≤ d := Nat.cast_nonneg d
    linarith
  exact mul_le_mul hle hfine (width_pos hbin x_a).le (by positivity)

/-- The times of a coarser grid, for a first flow of at most one bin. -/
theorem coarse_le {i : ℕ} (hbin : 0 < bin_s) (ha : x_a.length ≤ 1) (hb : x_b ≠ []) :
    i < slots bin_s d x_a x_b ↔ (i : ℚ) / 10 ≤ (x_b.length - 1 + d) * bin_s := by
  have hlast : last (stamps bin_s 0 x_a.length) = 0 := by
    rcases Nat.le_one_iff_eq_zero_or_eq_one.mp ha with h | h
    · rw [h]
      rfl
    · rw [h, last_stamps]
      simp
  have hlen : x_b.length = x_b.length - 1 + 1 :=
    (Nat.sub_add_cancel (List.length_pos_iff.mpr hb)).symm
  have hb' : last (stamps bin_s d x_b.length) = (x_b.length - 1 + d) * bin_s := by
    rw [hlen, last_stamps]
    push_cast
    ring
  rw [lt_slots_iff hbin, t_max, hlast, max_eq_right (last_nonneg hbin d _), hb', width,
    if_neg (by omega), mul_one_div]

/-! ## When time is kept -/

/-- The series for which both outputs are right. On a grid of bins of the same width: the
second flow is not late, or all zeros. On a finer one: it has no value but at time 0. On a
coarser one: each entry is a copy of that bin which starts at the time of the grid, or 0. -/
structure InStep (bin_s : ℚ) (x_a x_b : List ℚ) (d : ℕ) : Prop where
  common : 1 < x_a.length ∨ bin_s = 1 / 10 → d = 0 ∨ ∀ v ∈ x_b, v = 0
  finer : x_a.length ≤ 1 → 1 / 10 < bin_s →
    (∀ v ∈ x_b, v = 0) ∨ d = 0 ∧ ∀ v ∈ x_b.tail, v = 0
  coarser : x_a.length ≤ 1 → bin_s < 1 / 10 → ∀ i : ℕ,
    (i : ℚ) / 10 ≤ (x_b.length - 1 + d) * bin_s → Agrees (10 * bin_s) d x_b i

theorem width_of_common (h : 1 < x_a.length ∨ bin_s = 1 / 10) : width bin_s x_a = bin_s := by
  unfold width
  by_cases ha : 1 < x_a.length
  · exact if_pos ha
  · rw [if_neg ha, h.resolve_left ha]

theorem width_of_short (h : x_a.length ≤ 1) : width bin_s x_a = 1 / 10 := if_neg (by omega)

theorem sameInstant_iff_inStep (hbin : 0 < bin_s) :
    SameInstant bin_s x_a x_b d ↔ InStep bin_s x_a x_b d := by
  rw [sameInstant_iff_agrees hbin, and_iff_right fun i _ => agrees_first hbin x_a i]
  constructor
  · intro h
    refine ⟨?_, ?_, ?_⟩
    · -- the two widths agree, so index i of the second flow is drawn i bins early
      intro hcommon
      rcases Nat.eq_zero_or_pos d with hd | hd
      · exact Or.inl hd
      · have hw := width_of_common hcommon
        rw [hw, div_self hbin.ne'] at h
        refine Or.inr (zero_iff.mpr fun i => zero_of_agrees (le_refl 1) (Or.inl hd) ?_ i (Or.inl hd))
        exact fun i hi => h i (length_le_slots hbin hw.le hi)
    · -- the finer grid of 0.1 s: each bin of the second flow spans several times of the grid
      intro ha hlt
      have hw : width bin_s x_a = 1 / 10 := width_of_short ha
      have hr : 1 < bin_s / (1 / 10) := (one_lt_div (by norm_num)).mpr hlt
      rw [hw] at h
      have hall : ∀ i < x_b.length, Agrees (bin_s / (1 / 10)) d x_b i :=
        fun i hi => h i (length_le_slots hbin (by rw [hw]; exact hlt.le) hi)
      rcases Nat.eq_zero_or_pos d with hd | hd
      · refine Or.inr ⟨hd, tail_zero_iff.mpr fun i hi => ?_⟩
        exact zero_of_agrees hr.le (Or.inr hr) hall i (Or.inr hi)
      · refine Or.inl (zero_iff.mpr fun i => ?_)
        exact zero_of_agrees hr.le (Or.inl hd) hall i (Or.inl hd)
    · -- the coarser grid: it only meets some of the bins of the second flow
      intro ha hlt i hi
      by_cases hb : x_b = []
      · exact agrees_zero (by simp [hb]) i
      · have hagree := h i ((coarse_le hbin ha hb).mpr hi)
        rw [width_of_short ha, div_div_eq_mul_div, div_one, mul_comm] at hagree
        exact hagree
  · -- the converse, width by width
    intro h i hi
    by_cases hcommon : 1 < x_a.length ∨ bin_s = 1 / 10
    · rcases h.common hcommon with rfl | hzero
      · rw [width_of_common hcommon, div_self hbin.ne']
        exact agrees_same i
      · exact agrees_zero hzero i
    · obtain ⟨ha, hne⟩ := not_or.mp hcommon
      have hshort : x_a.length ≤ 1 := not_lt.mp ha
      rcases lt_or_gt_of_ne hne with hlt | hgt
      · by_cases hb : x_b = []
        · exact agrees_zero (by simp [hb]) i
        · have hagree := h.coarser hshort hlt i ((coarse_le hbin hshort hb).mp hi)
          rw [width_of_short hshort, div_div_eq_mul_div, div_one, mul_comm]
          exact hagree
      · rcases h.finer hshort hgt with hzero | ⟨rfl, htail⟩
        · exact agrees_zero hzero i
        · exact agrees_head (div_pos hbin (width_pos hbin x_a)) (tail_zero_iff.mp htail) i

/-- **Two flows at the same instant.** The outputs of `aligned_throughput` have, at every
time of the grid, the values of the two series at that time, exactly for the series in
`InStep`: with at least two bins of the first flow, if the second is not late. The times are
exact. -/
theorem same_instant_iff (bin_s : ℚ) (hbin : 0 < bin_s) (x_a x_b : List ℚ) (d : ℕ) :
    SameInstant bin_s x_a x_b d ↔ InStep bin_s x_a x_b d :=
  sameInstant_iff_inStep hbin

/-- Two flows that start together. -/
theorem same_instant_together : SameInstant (1 / 2) [8, 4] [2, 4, 6] 0 :=
  (same_instant_iff (1 / 2) (by norm_num) [8, 4] [2, 4, 6] 0).mpr
    ⟨fun _ => Or.inl rfl, fun h => absurd h (by decide), fun h => absurd h (by decide)⟩

/-- With the default arguments the second flow starts 5 s, so ten bins, behind the first,
and is drawn from time 0 on. -/
theorem same_instant_fails :
    ¬ ∀ (bin_s : ℚ) (x_a x_b : List ℚ) (d : ℕ), 0 < bin_s → SameInstant bin_s x_a x_b d := by
  intro h
  have hsame := h (1 / 2) (List.replicate 12 8) [4, 4] 10 (by norm_num)
  have hstep := (sameInstant_iff_inStep (by norm_num)).mp hsame
  rcases hstep.common (Or.inl (by decide)) with hd | hzero
  · cases hd
  · exact absurd (hzero 4 List.mem_cons_self) (by norm_num)

end

end IntHpcc.PlotE2
