/-
The fairness index, which `analysis/` computes in three places.

`plot_e2.py` takes the flows that have a value, `plot_e4.py` those that have a positive one,
and `compare.py` takes both of its two flows as they are. All three guard the division, each
in its own way, and all three are the index of the library (`jain_index_eq`). So they agree on
flows none of which is idle, and only on those: an idle flow counts in the denominator of the
first and the last, and in that of the second it does not. A flow alone is fair for
`plot_e4.py` and as unfair as can be for the other two.

The numbers are exact. The source computes on floats, where the last digit is rounded: three
equal flows can have an index a little over 1, and what is equal here can differ by an ulp.
-/
import IntHpcc.Fairness
import IntHpcc.ParseLogs

set_option autoImplicit false

namespace IntHpcc.JainIndex

open IntHpcc.Fairness IntHpcc.Py IntHpcc.ParseLogs

/-! ## The three places -/

namespace PlotE2

/-- `jain_index` of `plot_e2.py`, with the quotient unrounded. -/
def jain_index (throughputs : List (Option ℚ)) : ℚ :=
  let arr := throughputs.filterMap id
  let sum_sq := (arr.map fun x => x ^ 2).sum
  if arr.length = 0 ∨ sum_sq = 0 then 0 else arr.sum ^ 2 / (arr.length * sum_sq)

/-- An entry of `fair`; `none` is `np.nan`. -/
def fair (a b : ℚ) : Option ℚ := if 0 < a + b then some (jain_index [some a, some b]) else none

end PlotE2

namespace PlotE4

/-- `jain_index` of `plot_e4.py`, with the quotient unrounded. -/
def jain_index (values : List ℚ) : ℚ :=
  let arr := values.filter fun x => 0 < x
  let sum_sq := (arr.map fun x => x ^ 2).sum
  if arr.length = 0 ∨ sum_sq = 0 then 0 else arr.sum ^ 2 / (arr.length * sum_sq)

end PlotE4

namespace Compare

/-- The `throughput_mbps` that `summarize` returns, if it returns one. -/
def steady_mbps (trace : Trace) (pkt_size_bytes : ℤ) (warmup_s : ℚ) : Option ℚ :=
  if trace.n_ack = 0 then none
  else
    let t_ack_warm := trace.t_ack.filter fun t => warmup_s ≤ t
    if t_ack_warm.length = 0 then none
    else
      let span := t_ack_warm.getLast?.getD 0 - t_ack_warm.head?.getD 0
      some ((t_ack_warm.length * pkt_size_bytes * 8 : ℚ) / max span (1 / 1000000) / 1000000)

/-- The line of `compare_e2` that computes `jain`, with the quotient unrounded. -/
def jain (x : List ℚ) : ℚ :=
  if 0 < x.sum then x.sum ^ 2 / (x.length * (x.map fun y => y ^ 2).sum) else 0

/-- What `compare_e2` makes of the traces of the two flows. -/
def compare_e2 (tr1 tr2 : Trace) : ℚ :=
  let s1 := steady_mbps tr1 1500 10
  let s2 := steady_mbps tr2 1500 5
  jain [s1.getD 0, s2.getD 0]

/-- No throughput is negative, not even when the ACKs of the log are out of order. -/
theorem steady_mbps_nonneg (trace : Trace) (warmup_s : ℚ) :
    0 ≤ (steady_mbps trace 1500 warmup_s).getD 0 := by
  unfold steady_mbps
  dsimp only
  split
  · exact le_refl _
  · split
    · exact le_refl _
    · have hspan : (0 : ℚ) < max ((trace.t_ack.filter fun t => warmup_s ≤ t).getLast?.getD 0
          - (trace.t_ack.filter fun t => warmup_s ≤ t).head?.getD 0) (1 / 1000000) :=
        lt_max_of_lt_right (by norm_num)
      rw [Option.getD_some]
      positivity

/-- It is positive exactly if an ACK came after the warm-up. -/
theorem steady_mbps_pos_iff (trace : Trace) (warmup_s : ℚ) :
    0 < (steady_mbps trace 1500 warmup_s).getD 0 ↔ ∃ t ∈ trace.t_ack, warmup_s ≤ t := by
  have hwarm : (trace.t_ack.filter fun t => warmup_s ≤ t).length = 0 ↔
      ¬ ∃ t ∈ trace.t_ack, warmup_s ≤ t := by
    rw [List.length_eq_zero_iff, List.filter_eq_nil_iff]
    simp
  unfold steady_mbps
  dsimp only
  split
  · next h =>
    have hnil : trace.t_ack = [] := List.length_eq_zero_iff.mp h
    simp [hnil]
  · split
    · next h => simpa using hwarm.mp h
    · next h =>
      -- the span is at least a microsecond, so one ACK is enough for a positive rate
      have hspan : (0 : ℚ) < max ((trace.t_ack.filter fun t => warmup_s ≤ t).getLast?.getD 0
          - (trace.t_ack.filter fun t => warmup_s ≤ t).head?.getD 0) (1 / 1000000) :=
        lt_max_of_lt_right (by norm_num)
      have hlen : (0 : ℚ) < (trace.t_ack.filter fun t => warmup_s ≤ t).length :=
        Nat.cast_pos.mpr (Nat.pos_of_ne_zero h)
      rw [Option.getD_some]
      refine iff_of_true (by positivity) ?_
      exact not_not.mp fun hno => h (hwarm.mpr hno)

end Compare

/-! ## They are the index -/

section

variable {xs : List ℚ}

/-- Of nothing, or of nothing but zeros, the index is 0 by the division. -/
theorem index_guarded (xs : List ℚ) :
    (if xs.length = 0 ∨ (xs.map fun x => x ^ 2).sum = 0 then 0
      else xs.sum ^ 2 / (xs.length * (xs.map fun x => x ^ 2).sum)) = index xs := by
  unfold index squares
  split
  · next h => rcases h with h | h <;> simp [h]
  · rfl

theorem e4_eq (xs : List ℚ) : PlotE4.jain_index xs = index (active xs) :=
  index_guarded (active xs)

theorem e2_eq (xs : List ℚ) : PlotE2.jain_index (xs.map some) = index xs := by
  have harr : (xs.map some).filterMap id = xs := by simp
  unfold PlotE2.jain_index
  rw [harr]
  exact index_guarded xs

/-- The guard of `compare.py` asks for the sum and not for the squares. -/
theorem compare_eq (h : ∀ x ∈ xs, 0 ≤ x) : Compare.jain xs = index xs := by
  unfold Compare.jain
  split
  · rfl
  · next hsum =>
    have hzero : xs.sum = 0 := le_antisymm (not_lt.mp hsum) (List.sum_nonneg h)
    rw [index, hzero]
    simp

theorem squares_active_eq_zero (h : ∀ x ∈ xs, 0 ≤ x) :
    squares (active xs) = 0 ↔ ∀ x ∈ xs, x = 0 := by
  rw [(sums_active h).2]
  exact squares_eq_zero_iff

/-- All flows are active. -/
theorem active_length_iff : (active xs).length = xs.length ↔ ∀ x ∈ xs, 0 < x := by
  rw [active, List.length_filter_eq_length_iff]
  simp

/-- A list of flows is idle or has an index that is positive. -/
theorem index_active_eq_zero (h : ∀ x ∈ xs, 0 ≤ x) :
    index (active xs) = 0 ↔ ∀ x ∈ xs, x = 0 := by
  rw [← squares_active_eq_zero h]
  constructor
  · intro hzero
    by_contra hsq
    have hone := one_le_index_mul_length (fun x hx => (pos_of_mem_active hx).le) hsq
    rw [hzero, zero_mul] at hone
    exact absurd hone (by norm_num)
  · intro hsq
    rw [index, hsq, mul_zero, div_zero]

/-! ## Where they agree -/

end

/-! ## The comparison of two flows -/

/-- Two flows that are not both idle. -/
theorem index_pair {a b : ℚ} (h : a ≠ 0 ∨ b ≠ 0) (ha : 0 ≤ a) (hb : 0 ≤ b) :
    1 / 2 ≤ index [a, b] ∧ index [a, b] ≤ 1 ∧ (index [a, b] = 1 / 2 ↔ a = 0 ∨ b = 0) ∧
      (index [a, b] = 1 ↔ a = b) := by
  have hsq : squares [a, b] ≠ 0 := by
    intro hzero
    have hall := squares_eq_zero_iff.mp hzero
    exact h.elim (fun hne => hne (hall a (by simp))) fun hne => hne (hall b (by simp))
  have hnonneg : ∀ x ∈ [a, b], 0 ≤ x := by simp [ha, hb]
  have hleast := one_le_index_mul_length hnonneg hsq
  have hprod : index [a, b] * [a, b].length = 1 ↔ a = 0 ∨ b = 0 := by
    rw [index_mul_length_eq, div_eq_one_iff_eq hsq, sum_sq, add_eq_left,
      mul_eq_zero_iff_left two_ne_zero]
    simp [products]
  have htwo : (([a, b].length : ℕ) : ℚ) = 2 := by norm_num
  rw [htwo] at hleast hprod
  refine ⟨by linarith, index_le_one hsq, ?_, ?_⟩
  · rw [← hprod, eq_div_iff two_ne_zero]
  · rw [index_eq_one_iff hsq, List.pairwise_pair]

/-- A bin of `plot_e2.py`: nothing is shown if no ACK falls into it. -/
theorem fair_range {a b : ℚ} (ha : 0 ≤ a) (hb : 0 ≤ b) :
    (PlotE2.fair a b = none ∧ a = 0 ∧ b = 0) ∨
      ∃ j, PlotE2.fair a b = some j ∧ 1 / 2 ≤ j ∧ j ≤ 1 ∧ (j = 1 / 2 ↔ a = 0 ∨ b = 0) ∧
        (j = 1 ↔ a = b) := by
  unfold PlotE2.fair
  by_cases h : 0 < a + b
  · refine Or.inr ⟨_, if_pos h, ?_⟩
    have heq : PlotE2.jain_index [some a, some b] = index [a, b] := e2_eq [a, b]
    have hne : a ≠ 0 ∨ b ≠ 0 := by
      by_contra hno
      obtain ⟨rfl, rfl⟩ := not_or.mp hno |>.imp not_not.mp not_not.mp
      simp at h
    rw [heq]
    exact index_pair hne ha hb
  · obtain ⟨rfl, rfl⟩ := (add_eq_zero_iff_of_nonneg ha hb).mp
      (le_antisymm (not_lt.mp h) (add_nonneg ha hb))
    exact Or.inl ⟨if_neg h, rfl, rfl⟩

/-- `compare_e2` shows 0 if neither flow had an ACK after its warm-up. Else what it shows is
between one half and 1: one half if one of the flows had all of the ACKs, and 1 if the two are
equally fast. -/
theorem compare_e2_range (tr1 tr2 : Trace) :
    let x1 := (Compare.steady_mbps tr1 1500 10).getD 0
    let x2 := (Compare.steady_mbps tr2 1500 5).getD 0
    ((¬ ∃ t ∈ tr1.t_ack, 10 ≤ t) ∧ (¬ ∃ t ∈ tr2.t_ack, 5 ≤ t) ∧ Compare.compare_e2 tr1 tr2 = 0) ∨
      (1 / 2 ≤ Compare.compare_e2 tr1 tr2 ∧ Compare.compare_e2 tr1 tr2 ≤ 1 ∧
        (Compare.compare_e2 tr1 tr2 = 1 / 2 ↔
          (¬ ∃ t ∈ tr1.t_ack, 10 ≤ t) ∨ ¬ ∃ t ∈ tr2.t_ack, 5 ≤ t) ∧
        (Compare.compare_e2 tr1 tr2 = 1 ↔ x1 = x2)) := by
  intro x1 x2
  have h₁ : 0 ≤ x1 := Compare.steady_mbps_nonneg tr1 10
  have h₂ : 0 ≤ x2 := Compare.steady_mbps_nonneg tr2 5
  -- a rate is zero exactly if no ACK came after the warm-up
  have hidle₁ : (¬ ∃ t ∈ tr1.t_ack, 10 ≤ t) ↔ x1 = 0 := by
    rw [← Compare.steady_mbps_pos_iff, h₁.lt_iff_ne]
    exact not_not.trans eq_comm
  have hidle₂ : (¬ ∃ t ∈ tr2.t_ack, 5 ≤ t) ↔ x2 = 0 := by
    rw [← Compare.steady_mbps_pos_iff, h₂.lt_iff_ne]
    exact not_not.trans eq_comm
  have hindex : Compare.compare_e2 tr1 tr2 = index [x1, x2] :=
    compare_eq (List.forall_mem_cons.mpr ⟨h₁, List.forall_mem_singleton.mpr h₂⟩)
  rw [hidle₁, hidle₂, hindex]
  -- both idle: the function returns 0 by its own guard
  by_cases h : x1 = 0 ∧ x2 = 0
  · refine Or.inl ⟨h.1, h.2, ?_⟩
    rw [h.1, h.2]
    simp [index]
  · exact Or.inr (index_pair (not_and_or.mp h) h₁ h₂)

end IntHpcc.JainIndex
