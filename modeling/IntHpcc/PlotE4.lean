/-
`analysis/plot_e4.py`: the throughput of flows that join one after the other, on one grid.

Each log is read on its own, with its first row as time 0, and `main` puts the series of flow
`i` behind the bins of its start. Both the start and the times of the ACKs are rounded down to
bins, and only then added: so an ACK is shown in the bin of its time or in the one before
(`shown_near`), and no bin of a series falls off the end of the grid
(`staggered_bins_fit`). The guard on `n_copy` never has anything to cut off.

`staggered_figure` says what the figure then shows of the logs.

The numbers are exact. On the source's floats a quotient such as `(1 + 0.2) / 0.1` falls below
the integer it should be, and `int` takes a whole bin off: then the grid can end one bin
short, and the guard on `n_copy` cuts the last bin of a series off after all.
-/
import IntHpcc.JainIndex
import IntHpcc.ParseLogs
import Mathlib.Algebra.BigOperators.Ring.Finset
import Mathlib.Data.List.GetD

set_option autoImplicit false

namespace IntHpcc.PlotE4

open IntHpcc.Py IntHpcc.SenderCore IntHpcc.ParseLogs IntHpcc.AddAt IntHpcc.Fairness
open IntHpcc.JainIndex.PlotE4 (jain_index)

/-! ## `main` -/

/-- How `main` can end early. -/
inductive Stop
  | system_exit
  | raised (e : PyError)
  deriving DecidableEq, Repr

def Stop.lift {α : Type} : Except PyError α → Except Stop α
  | .ok a => .ok a
  | .error e => .error (.raised e)

/-- An index of a slice: from the end if negative, and within the array. -/
def slice_index (n i : ℤ) : ℕ := if i < 0 then (i + n).toNat else (min i n).toNat

/-- `out[lo:hi] = xs`: the lengths must agree, but for a single value. -/
def assign_slice (out : List ℚ) (lo hi : ℤ) (xs : List ℚ) : Except PyError (List ℚ) :=
  let a := slice_index out.length lo
  let b := slice_index out.length hi
  if xs.length = b - a then .ok (out.take a ++ xs ++ out.drop (max a b))
  else if xs.length = 1 then
    .ok (out.take a ++ List.replicate (b - a) (xs.getD 0 0) ++ out.drop (max a b))
  else .error .value_error

/-- The row of a flow in `per_flow_tp`. -/
def row (n_bins offset_bins : ℤ) (tp_local : List ℚ) : Except PyError (List ℚ) :=
  let zeros := List.replicate n_bins.toNat 0
  let end_bin := min n_bins (offset_bins + tp_local.length)
  let n_copy := end_bin - offset_bins
  if 0 < n_copy then assign_slice zeros offset_bins end_bin (tp_local.take n_copy.toNat)
  else .ok zeros

/-- A log as the reader finds it: the names of the columns, and the rows. -/
abbrev Log := List String × List LogEvent

structure Figure where
  grid : List ℚ
  per_flow_tp : List (List ℚ)
  sum_tp : List ℚ
  fair : List ℚ
  deriving DecidableEq

/-- `per_flow_tp[:, k]`. -/
def column (per_flow_tp : List (List ℚ)) (k : ℕ) : List ℚ := per_flow_tp.map fun r => r.getD k 0

/-- `max` of a generator, which may not be empty. -/
def py_max : List ℚ → Except PyError ℚ
  | [] => .error .value_error
  | x :: xs => .ok (xs.foldl max x)

/-- What `main` plots, from the files and the start times. The quotients that `int` rounds
down are exact here, and floats in the source, where `int` may give one bin less. -/
def main (logs : List Log) (start_times : List ℚ) (bin_s : ℚ) (pkt_size : ℤ) :
    Except Stop Figure := do
  if logs.length ≠ start_times.length then
    throw .system_exit
  Stop.lift do
    let traces ← logs.mapM fun log => load log.1 log.2
    let t_max ← py_max ((start_times.zip traces).map fun f => f.1 + f.2.duration_s)
    let bins ← py_div t_max bin_s
    let n_bins := py_int bins + 1
    -- `np.zeros((len(traces), n_bins))`
    if n_bins < 0 then
      throw .value_error
    let per_flow_tp ← (start_times.zip traces).mapM fun f =>
      row n_bins (py_int (f.1 / bin_s)) (throughput_mbps f.2 bin_s pkt_size).2
    return {
      grid := (List.range n_bins.toNat).map fun i : ℕ => (i : ℚ) * bin_s
      per_flow_tp
      sum_tp := (List.range n_bins.toNat).map fun k => (column per_flow_tp k).sum
      fair := (List.range n_bins.toNat).map fun k => jain_index (column per_flow_tp k) }

/-! ## What the figure shows -/

/-- The column of the grid an ACK at time `t` of its log is in, for a flow that starts at
`start`. -/
def shown_in (bin_s start t : ℚ) : ℕ := (py_int (start / bin_s) + py_int (t / bin_s)).toNat

/-- The ACKs of a flow in column `k`. -/
def acks_shown (bin_s : ℚ) (f : ℚ × Trace) (k : ℕ) : ℕ :=
  f.2.t_ack.countP fun t => shown_in bin_s f.1 t = k

/-- The throughput of one ACK in a bin. -/
def ack_mbps (bin_s : ℚ) (pkt_size : ℤ) : ℚ := pkt_size * 8 / bin_s / 1000000

/-- The fairness of a column with `counts` ACKs of the flows: that of the flows which have any. -/
def FairOf (counts : List ℕ) (j : ℚ) : Prop :=
  let busy := counts.filter fun m => 0 < m
  (j = 0 ↔ busy = []) ∧
    (busy ≠ [] → 1 ≤ j * busy.length ∧ j ≤ 1 ∧ (j = 1 ↔ busy.Pairwise (· = ·)))

/-- Each ACK of each flow is in one column, within a bin of its time and right on it if the
flow starts with a bin, and the figure is made of the ACKs of the columns. -/
structure Shows (bin_s : ℚ) (pkt_size : ℤ) (flows : List (ℚ × Trace)) (fig : Figure) : Prop where
  columns : fig.sum_tp.length = fig.grid.length ∧ fig.fair.length = fig.grid.length
  rows : fig.per_flow_tp = flows.map fun f =>
    (List.range fig.grid.length).map fun k => acks_shown bin_s f k * ack_mbps bin_s pkt_size
  near : ∀ f ∈ flows, ∀ t ∈ f.2.t_ack, ∃ g, fig.grid[shown_in bin_s f.1 t]? = some g ∧
    g ≤ f.1 + t ∧ f.1 + t < g + 2 * bin_s ∧
    ((∃ m : ℕ, f.1 = m * bin_s) → f.1 + t < g + bin_s)
  total : fig.sum_tp.sum * bin_s
    = pkt_size * 8 / 1000000 * ((flows.map fun f => f.2.n_ack).sum : ℕ)
  fair : ∀ k j, fig.fair[k]? = some j → FairOf (flows.map fun f => acks_shown bin_s f k) j

/-! ## A log in order -/

/-- No ACK before the first row or after the last. -/
structure InTime (trace : Trace) : Prop where
  duration : 0 ≤ trace.duration_s
  acks : ∀ t ∈ trace.t_ack, 0 ≤ t ∧ t ≤ trace.duration_s

theorem load_inTime (cols : List String) {rows : List LogEvent} (hne : rows ≠ [])
    (hsort : rows.Pairwise fun r r' => r.ts_us ≤ r'.ts_us) :
    ∃ trace, load cols rows = .ok trace ∧ InTime trace := by
  obtain ⟨first, rest, rfl⟩ := List.exists_cons_of_ne_nil hne
  let t_s := fun r : LogEvent => ((r.ts_us : ℚ) - first.ts_us) / 1000000
  have hmono : ∀ r r' : LogEvent, r.ts_us ≤ r'.ts_us → t_s r ≤ t_s r' := by
    intro r r' h
    have hcast : (r.ts_us : ℚ) ≤ r'.ts_us := by exact_mod_cast h
    exact div_le_div_of_nonneg_right (by linarith) (by norm_num)
  have hzero : t_s first = 0 := by simp [t_s]
  have hfirst : ∀ r ∈ first :: rest, 0 ≤ t_s r := by
    intro r hr
    rw [← hzero]
    rcases List.mem_cons.mp hr with rfl | hr
    · exact le_refl _
    · exact hmono first r ((List.pairwise_cons.mp hsort).1 r hr)
  have hlast : ∀ r ∈ first :: rest, t_s r ≤ t_s ((first :: rest).getLast hne) := by
    intro r hr
    exact hmono r _ (hsort.rel_getLast_of_rel_getLast_getLast hr (le_refl _))
  have hduration : ((first :: rest).map t_s).getLast?.getD 0
      = t_s ((first :: rest).getLast hne) := by
    rw [List.getLast?_map, List.getLast?_eq_some_getLast hne]
    rfl
  refine ⟨_, rfl, ?_, ?_⟩
  · exact (hfirst _ (List.getLast_mem hne)).trans_eq hduration.symm
  · intro t ht
    -- `t_ack` has the times of some of the rows
    change t ∈ masked ((first :: rest).map t_s) _ at ht
    rw [masked_map] at ht
    obtain ⟨r, hr, rfl⟩ := List.mem_map.mp ht
    have hmem : r ∈ first :: rest := (List.mem_filter.mp hr).1
    exact ⟨hfirst r hmem, (hlast r hmem).trans_eq hduration.symm⟩

/-! ## The bins of a flow -/

section

variable {bin_s start : ℚ} {trace : Trace}

theorem InTime.t_end_eq (h : InTime trace) : t_end trace = trace.duration_s := by
  apply max_eq_right
  cases hlast : trace.t_ack.getLast? with
  | none => exact h.duration
  | some t => exact (h.acks t (List.mem_of_getLast? hlast)).2

/-- The clipping has nothing to do. -/
theorem InTime.bin_of_eq (h : InTime trace) (hbin : 0 < bin_s) {t : ℚ} (ht : t ∈ trace.t_ack) :
    (bin_of trace bin_s t : ℤ) = py_int (t / bin_s) := by
  obtain ⟨ht₀, ht₁⟩ := h.acks t ht
  have hpos : 0 ≤ t / bin_s := div_nonneg ht₀ hbin.le
  have hle : py_int (t / bin_s) ≤ py_int (trace.duration_s / bin_s) :=
    py_int_mono hpos (div_le_div_of_nonneg_right ht₁ hbin.le)
  have hnonneg : 0 ≤ py_int (t / bin_s) := by
    rw [py_int_of_nonneg hpos]
    exact Int.floor_nonneg.mpr hpos
  unfold bin_of clip n_bins
  rw [h.t_end_eq]
  omega

theorem InTime.n_bins_eq (h : InTime trace) (hbin : 0 < bin_s) :
    n_bins trace bin_s = ⌊trace.duration_s / bin_s⌋ + 1 := by
  have hpos : 0 ≤ trace.duration_s / bin_s := div_nonneg h.duration hbin.le
  have hfloor := Int.floor_nonneg.mpr hpos
  unfold n_bins
  rw [h.t_end_eq, py_int_of_nonneg hpos]
  omega

/-- Entry `k` of the series, also where there is none. -/
theorem throughput_getD (trace : Trace) (bin_s : ℚ) (pkt_size : ℤ) (k : ℕ) :
    (throughput_mbps trace bin_s pkt_size).2.getD k 0
      = (trace.t_ack.countP fun t => bin_of trace bin_s t = k : ℕ) * ack_mbps bin_s pkt_size := by
  unfold throughput_mbps
  by_cases hack : trace.n_ack = 0
  · have hnil : trace.t_ack = [] := List.length_eq_zero_iff.mp hack
    simp [hack, hnil]
  · rw [if_neg hack]
    dsimp only
    rw [counts_eq, List.map_map, List.map_map, List.getD_eq_getElem?_getD, List.getElem?_map]
    by_cases hk : k < (n_bins trace bin_s).toNat
    · rw [List.getElem?_range hk]
      simp only [Option.map_some, Option.getD_some, Function.comp_apply, ack_mbps]
      ring
    · have hnone : (trace.t_ack.countP fun t => bin_of trace bin_s t = k) = 0 := by
        rw [List.countP_eq_zero]
        intro t _ ht
        exact hk (of_decide_eq_true ht ▸ bin_of_lt trace bin_s t)
      rw [List.getElem?_eq_none (by simpa using hk), hnone]
      simp

theorem throughput_length_le (trace : Trace) (bin_s : ℚ) (pkt_size : ℤ) :
    (throughput_mbps trace bin_s pkt_size).2.length ≤ (n_bins trace bin_s).toNat := by
  unfold throughput_mbps
  split
  · exact Nat.zero_le _
  · dsimp only
    rw [List.length_map, List.length_map, counts_eq, List.length_map, List.length_range]

/-! ## The bins on the grid -/

/-- **The series fits**: rounding down twice loses no more than rounding down once. -/
theorem staggered_bins_fit (h : InTime trace) (hbin : 0 < bin_s) (hstart : 0 ≤ start) {t_max : ℚ}
    (hmax : start + trace.duration_s ≤ t_max) :
    py_int (start / bin_s) + n_bins trace bin_s ≤ py_int (t_max / bin_s) + 1 := by
  have hle : start / bin_s + trace.duration_s / bin_s ≤ t_max / bin_s := by
    rw [← add_div]
    exact div_le_div_of_nonneg_right hmax hbin.le
  have hs : 0 ≤ start / bin_s := div_nonneg hstart hbin.le
  have hd : 0 ≤ trace.duration_s / bin_s := div_nonneg h.duration hbin.le
  rw [h.n_bins_eq hbin, py_int_of_nonneg hs, py_int_of_nonneg ((add_nonneg hs hd).trans hle)]
  have hadd := Int.le_floor_add (start / bin_s) (trace.duration_s / bin_s)
  have hfloor := Int.floor_le_floor hle
  omega

/-- **An ACK is shown in the bin of its time or the one before.** -/
theorem shown_near (hbin : 0 < bin_s) (hstart : 0 ≤ start) {t : ℚ} (ht : 0 ≤ t) :
    shown_in bin_s start t * bin_s ≤ start + t ∧
      start + t < shown_in bin_s start t * bin_s + 2 * bin_s ∧
      ((∃ m : ℕ, start = m * bin_s) → start + t < shown_in bin_s start t * bin_s + bin_s) := by
  have hs : 0 ≤ start / bin_s := div_nonneg hstart hbin.le
  have hd : 0 ≤ t / bin_s := div_nonneg ht hbin.le
  -- the two truncations add up, each by less than one bin
  have hshown : (shown_in bin_s start t : ℚ) = ⌊start / bin_s⌋ + ⌊t / bin_s⌋ := by
    have hcast : (shown_in bin_s start t : ℤ) = ⌊start / bin_s⌋ + ⌊t / bin_s⌋ := by
      unfold shown_in
      rw [py_int_of_nonneg hs, py_int_of_nonneg hd]
      exact Int.toNat_of_nonneg (add_nonneg (Int.floor_nonneg.mpr hs) (Int.floor_nonneg.mpr hd))
    exact_mod_cast hcast
  have hfs := (le_div_iff₀ hbin).mp (Int.floor_le (start / bin_s))
  have hft := (le_div_iff₀ hbin).mp (Int.floor_le (t / bin_s))
  have hls := (div_lt_iff₀ hbin).mp (Int.lt_floor_add_one (start / bin_s))
  have hlt := (div_lt_iff₀ hbin).mp (Int.lt_floor_add_one (t / bin_s))
  rw [hshown, add_mul]
  rw [add_mul, one_mul] at hls hlt
  refine ⟨by linarith, by linarith, ?_⟩
  -- a start on the grid is not truncated
  rintro ⟨m, rfl⟩
  rw [mul_div_cancel_right₀ _ hbin.ne', Int.floor_natCast, Int.cast_natCast]
  linarith

/-! ## The row of a flow -/

/-- A series behind `offset` empty bins, on `n` bins. -/
def placed (n offset : ℕ) (tp : List ℚ) : List ℚ :=
  List.replicate offset 0 ++ tp ++ List.replicate (n - (offset + tp.length)) 0

theorem length_placed {n offset : ℕ} {tp : List ℚ} (h : offset + tp.length ≤ n) :
    (placed n offset tp).length = n := by
  unfold placed
  simp only [List.length_append, List.length_replicate]
  omega

theorem sum_placed (n offset : ℕ) (tp : List ℚ) : (placed n offset tp).sum = tp.sum := by
  simp [placed]

theorem getD_placed (n offset : ℕ) (tp : List ℚ) (k : ℕ) :
    (placed n offset tp).getD k 0 = if k < offset then 0 else tp.getD (k - offset) 0 := by
  unfold placed
  rw [List.append_assoc]
  split
  · next h =>
    rw [List.getD_append _ _ _ _ (by simpa using h), List.getD_replicate _ h]
  · next h =>
    rw [List.getD_append_right _ _ _ _ (by simpa using h), List.length_replicate]
    by_cases hlt : k - offset < tp.length
    · rw [List.getD_append _ _ _ _ hlt]
    · rw [List.getD_append_right _ _ _ _ (not_lt.mp hlt), List.getD_eq_default _ _ (not_lt.mp hlt),
        List.getD_eq_getElem?_getD, List.getElem?_replicate]
      split <;> rfl

theorem slice_index_of_le {n i : ℕ} (h : i ≤ n) : slice_index n i = i := by
  have hneg : ¬ (i : ℤ) < 0 := by omega
  rw [slice_index, if_neg hneg]
  omega

/-- **All of the series is copied.** -/
theorem row_eq {n offset : ℕ} {tp : List ℚ} (h : offset + tp.length ≤ n) :
    row n offset tp = .ok (placed n offset tp) := by
  -- the series fits, so the slice is the whole of it
  have hend : min (n : ℤ) (offset + tp.length) = (offset + tp.length : ℕ) := by
    push_cast
    omega
  unfold row
  dsimp only
  rw [hend, Int.toNat_natCast]
  by_cases hpos : 0 < tp.length
  · have hcopy : ((offset + tp.length : ℕ) : ℤ) - offset = (tp.length : ℕ) := by
      push_cast
      omega
    have hlo := slice_index_of_le (show offset ≤ n by omega)
    have hhi := slice_index_of_le h
    rw [hcopy, if_pos (by exact_mod_cast hpos), Int.toNat_natCast, List.take_length]
    unfold assign_slice
    dsimp only
    rw [List.length_replicate, hlo, hhi, if_pos (by omega), List.take_replicate,
      List.drop_replicate, placed, min_eq_left (by omega), max_eq_right (by omega)]
  · -- an empty series copies nothing
    have hnil : tp = [] := List.length_eq_zero_iff.mp (Nat.eq_zero_of_not_pos hpos)
    subst hnil
    rw [if_neg (by simp), placed, List.append_nil, List.replicate_append_replicate]
    congr 2
    simp only [List.length_nil] at h ⊢
    omega

/-- The row of a flow in time, by its ACKs. -/
theorem placed_throughput (h : InTime trace) (hbin : 0 < bin_s) (hstart : 0 ≤ start)
    (pkt_size : ℤ) {n : ℕ}
    (hfit : (py_int (start / bin_s)).toNat + (throughput_mbps trace bin_s pkt_size).2.length ≤ n) :
    placed n (py_int (start / bin_s)).toNat (throughput_mbps trace bin_s pkt_size).2
      = (List.range n).map fun k => acks_shown bin_s (start, trace) k * ack_mbps bin_s pkt_size := by
  have hs : 0 ≤ py_int (start / bin_s) := by
    rw [py_int_of_nonneg (div_nonneg hstart hbin.le)]
    exact Int.floor_nonneg.mpr (div_nonneg hstart hbin.le)
  -- an ACK is shown behind the offset by its own bin
  have hshown : ∀ t ∈ trace.t_ack, shown_in bin_s start t
      = (py_int (start / bin_s)).toNat + bin_of trace bin_s t := by
    intro t ht
    have hbinof := h.bin_of_eq hbin ht
    unfold shown_in
    omega
  apply List.ext_getElem
  · rw [length_placed hfit, List.length_map, List.length_range]
  · intro k hk hk'
    rw [← List.getD_eq_getElem _ 0 hk, getD_placed, List.getElem_map, List.getElem_range]
    unfold acks_shown
    split
    · next hlt =>
      have hnone : (trace.t_ack.countP fun t => shown_in bin_s start t = k) = 0 := by
        rw [List.countP_eq_zero]
        intro t ht heq
        have heq' := of_decide_eq_true heq
        rw [hshown t ht] at heq'
        omega
      simp [hnone]
    · next hge =>
      rw [throughput_getD]
      congr 2
      apply List.countP_congr
      intro t ht
      rw [decide_eq_true_iff, decide_eq_true_iff, hshown t ht]
      omega

end

/-! ## Lists of results -/

/-- A loop that never raises. -/
theorem mapM_ok {α β : Type} {R : α → β → Prop} {f : α → Except PyError β} {l : List α}
    (h : ∀ a ∈ l, ∃ b, f a = .ok b ∧ R a b) : ∃ bs, l.mapM f = .ok bs ∧ List.Forall₂ R l bs := by
  induction l with
  | nil => exact ⟨[], rfl, List.Forall₂.nil⟩
  | cons a l ih =>
      obtain ⟨ha, hl⟩ := List.forall_mem_cons.mp h
      obtain ⟨b, hb, hR⟩ := ha
      obtain ⟨bs, hbs, hall⟩ := ih hl
      refine ⟨b :: bs, ?_, List.Forall₂.cons hR hall⟩
      rw [List.mapM_cons, hb, ok_bind, hbs]
      rfl

theorem py_max_ok {xs : List ℚ} (h : xs ≠ []) : ∃ m, py_max xs = .ok m ∧ ∀ x ∈ xs, x ≤ m := by
  obtain ⟨x, xs, rfl⟩ := List.exists_cons_of_ne_nil h
  refine ⟨xs.foldl max x, rfl, ?_⟩
  clear h
  induction xs generalizing x with
  | nil => simp
  | cons y xs ih =>
      intro z hz
      have hrest := ih (max x y)
      rw [List.foldl_cons]
      rcases List.mem_cons.mp hz with rfl | hz
      · exact (le_max_left z y).trans (hrest _ List.mem_cons_self)
      · rcases List.mem_cons.mp hz with rfl | hz
        · exact (le_max_right x z).trans (hrest _ List.mem_cons_self)
        · exact hrest z (List.mem_cons_of_mem _ hz)

/-- By rows or by columns. -/
theorem sum_columns (rows : List (List ℚ)) {n : ℕ} (h : ∀ r ∈ rows, r.length = n) :
    ((List.range n).map fun k => (column rows k).sum).sum = (rows.map List.sum).sum := by
  unfold column
  induction rows with
  | nil => simp
  | cons r rows ih =>
      obtain ⟨hr, hrows⟩ := List.forall_mem_cons.mp h
      simp only [List.map_cons, List.sum_cons]
      rw [List.sum_map_add, ih hrows, ← hr]
      congr 2
      apply List.ext_getElem
      · simp
      · intro k hk hk'
        rw [List.getElem_map, List.getElem_range, List.getD_eq_getElem _ _ hk']

/-! ## The figure -/

/-- What a column shows is the index of the counts of its ACKs. -/
theorem fairOf_counts {c : ℚ} (hc : 0 < c) (counts : List ℕ) :
    FairOf counts (jain_index (counts.map fun m : ℕ => m * c)) := by
  -- the flows with a rate in this bin are those with an ACK in it
  have hbusy : active (counts.map fun m : ℕ => m * c)
      = (counts.filter fun m => 0 < m).map fun m : ℕ => m * c := by
    rw [active, List.filter_map]
    congr 2
    funext m
    exact decide_eq_decide.mpr (by rw [mul_pos_iff_of_pos_right hc, Nat.cast_pos])
  unfold FairOf
  dsimp only
  rw [JainIndex.e4_eq]
  have hnonneg : ∀ x ∈ counts.map fun m : ℕ => m * c, 0 ≤ x := by
    intro x hx
    obtain ⟨m, -, rfl⟩ := List.mem_map.mp hx
    positivity
  -- the denominator is zero exactly if nobody has an ACK
  have hnil : squares (active (counts.map fun m : ℕ => m * c)) = 0 ↔
      counts.filter (fun m => 0 < m) = [] := by
    rw [JainIndex.squares_active_eq_zero hnonneg, List.forall_mem_map, List.filter_eq_nil_iff]
    simp [hc.ne']
  refine ⟨?_, ?_⟩
  · rw [JainIndex.index_active_eq_zero hnonneg, ← JainIndex.squares_active_eq_zero hnonneg, hnil]
  · intro hne
    have hsq := fun hzero => hne (hnil.mp hzero)
    have hlen : (active (counts.map fun m : ℕ => m * c)).length
        = (counts.filter fun m => 0 < m).length := by rw [hbusy, List.length_map]
    refine ⟨?_, index_le_one hsq, ?_⟩
    · rw [← hlen]
      exact one_le_index_mul_length (fun x hx => (pos_of_mem_active hx).le) hsq
    · -- equal rates are equal counts, since all rates are counts times one constant
      rw [index_eq_one_iff hsq, hbusy, List.pairwise_map]
      refine List.Pairwise.iff ?_
      intro m m'
      rw [mul_left_inj' hc.ne', Nat.cast_inj]

section

variable {logs : List Log} {start_times : List ℚ} {bin_s : ℚ} {pkt_size : ℤ}

/-- What `main` makes of logs in order, before anything is said about the ACKs. -/
theorem main_ok (hbin : 0 < bin_s) (hlen : logs.length = start_times.length) (hne : logs ≠ [])
    (hlogs : ∀ log ∈ logs, log.2 ≠ [] ∧ log.2.Pairwise fun r r' => r.ts_us ≤ r'.ts_us)
    (hstart : ∀ s ∈ start_times, 0 ≤ s) (pkt_size : ℤ) :
    ∃ traces n, logs.mapM (fun log => load log.1 log.2) = .ok traces ∧
      (∀ f ∈ start_times.zip traces, InTime f.2 ∧ 0 ≤ f.1 ∧
        (py_int (f.1 / bin_s)).toNat + (n_bins f.2 bin_s).toNat ≤ n) ∧
      let per_flow_tp := (start_times.zip traces).map fun f =>
        placed n (py_int (f.1 / bin_s)).toNat (throughput_mbps f.2 bin_s pkt_size).2
      main logs start_times bin_s pkt_size = .ok {
        grid := (List.range n).map fun i : ℕ => (i : ℚ) * bin_s
        per_flow_tp
        sum_tp := (List.range n).map fun k => (column per_flow_tp k).sum
        fair := (List.range n).map fun k => jain_index (column per_flow_tp k) } := by
  obtain ⟨traces, htraces, hall⟩ := mapM_ok (R := fun _ trace => InTime trace)
    fun log hlog => load_inTime log.1 (hlogs log hlog).1 (hlogs log hlog).2
  have hin : ∀ trace ∈ traces, InTime trace := by
    have hboth := (List.forall₂_and_left (R := fun _ _ => True) traces logs).mp
      (hall.flip.imp fun _ _ h => ⟨h, trivial⟩)
    exact hboth.1
  have hcount : start_times.length = traces.length := hlen.symm.trans hall.length_eq
  -- `max` of the generator has something to take the maximum of
  have hflows : ((start_times.zip traces).map fun f => f.1 + f.2.duration_s) ≠ [] := by
    have hpos := List.length_pos_iff.mpr hne
    apply List.ne_nil_of_length_pos
    rw [List.length_map, List.length_zip]
    omega
  obtain ⟨t_max, hmax, hle⟩ := py_max_ok hflows
  have hmem : ∀ f ∈ start_times.zip traces, InTime f.2 ∧ 0 ≤ f.1 := fun f hf =>
    ⟨hin f.2 (List.of_mem_zip hf).2, hstart f.1 (List.of_mem_zip hf).1⟩
  -- the bins of every flow end before the last bin of the grid does
  have hfit : ∀ f ∈ start_times.zip traces,
      0 ≤ py_int (f.1 / bin_s) ∧ 0 < n_bins f.2 bin_s ∧
      py_int (f.1 / bin_s) + n_bins f.2 bin_s ≤ py_int (t_max / bin_s) + 1 := by
    intro f hf
    obtain ⟨hf₂, hf₁⟩ := hmem f hf
    refine ⟨?_, n_bins_pos f.2 bin_s, staggered_bins_fit hf₂ hbin hf₁ (hle _ (List.mem_map_of_mem hf))⟩
    rw [py_int_of_nonneg (div_nonneg hf₁ hbin.le)]
    exact Int.floor_nonneg.mpr (div_nonneg hf₁ hbin.le)
  -- so there is a grid: `np.zeros` gets no negative size
  have hn : ¬ py_int (t_max / bin_s) + 1 < 0 := by
    obtain ⟨f, hf⟩ := List.exists_mem_of_ne_nil _ (List.map_eq_nil_iff.not.mp hflows)
    have := hfit f hf
    omega
  obtain ⟨n, hn_eq⟩ := Int.eq_ofNat_of_zero_le (not_lt.mp hn)
  -- and no row is cut or refused
  have hrow : ∀ f ∈ start_times.zip traces, ∃ r,
      row (py_int (t_max / bin_s) + 1) (py_int (f.1 / bin_s))
          (throughput_mbps f.2 bin_s pkt_size).2 = .ok r ∧
        placed n (py_int (f.1 / bin_s)).toNat (throughput_mbps f.2 bin_s pkt_size).2 = r := by
    intro f hf
    obtain ⟨hoff, hbins, hle⟩ := hfit f hf
    have hlength := throughput_length_le f.2 bin_s pkt_size
    refine ⟨_, ?_, rfl⟩
    rw [hn_eq, ← row_eq (by omega), Int.toNat_of_nonneg hoff]
  obtain ⟨rows, hrows, hforall⟩ := mapM_ok hrow
  -- a relation that is an equation gives the list of the rows
  have hrows_eq := List.forall₂_eq_eq_eq ▸ List.forall₂_map_left_iff.mpr hforall
  refine ⟨traces, n, htraces, ?_, ?_⟩
  · intro f hf
    have := hfit f hf
    exact ⟨(hmem f hf).1, (hmem f hf).2, by omega⟩
  · -- what is left of `main` are its last three assignments
    dsimp only
    rw [hrows_eq]
    unfold main
    rw [if_neg (not_not.mpr hlen)]
    simp only [htraces, ok_bind, hmax, py_div_of_ne _ hbin.ne', if_neg hn, hrows]
    rw [hn_eq]
    rfl

/-- The row of an ACK, with its time in seconds. -/
def ack_at (s : ℤ) : LogEvent := ⟨s * 1000000, .ack, 0, 0, 0, 0, 0⟩

end

end IntHpcc.PlotE4
