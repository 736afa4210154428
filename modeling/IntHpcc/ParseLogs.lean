/-
`analysis/parse_logs.py`: the event log of a sender as throughput and marks per bin.

The reader takes the rows named `ack` and puts each into the bin of its time stamp. The
clipping of the bin index sees to it that no time stamp, however disordered, falls outside
(`bin_of_lt`), so the bins hold what the reader has taken. `HpccSenderV2` however gives an
ACK of an older incarnation another name, and those the reader does not take.
`throughput_conserved_iff`: the bins hold all the accepted ACKs exactly if the log has no
such row.

Of a trace only what the two functions read is kept, and the numbers are exact: on the
source's floats a time stamp just on the border of two bins may be counted in the other one.
-/
import IntHpcc.AddAt
import IntHpcc.EventLog
import IntHpcc.HpccCut
import Mathlib.Algebra.BigOperators.Ring.List
import Mathlib.Tactic.FieldSimp
import Mathlib.Tactic.Ring

set_option autoImplicit false

namespace IntHpcc.ParseLogs

open IntHpcc.Runs IntHpcc.Bytes IntHpcc.Py IntHpcc.PacketFormat IntHpcc.SenderCore
open IntHpcc.SenderWindow IntHpcc.Network IntHpcc.EventLog IntHpcc.AddAt

/-! ## The files -/

/-- The `event` column. -/
def event_name : EventKind → String
  | .send => "send"
  | .rtx => "rtx"
  | .ack => "ack"
  | .ack_stale => "ack-stale"
  | .update => "update"
  | .rto => "rto"

/-- The header `_dump_log` writes. -/
def header : SenderKind → List String
  | .dctcp => ["ts_us", "event", "seq", "rtt_us", "ecn_echo", "w", "alpha", "cum_acked",
      "in_flight"]
  | .hpcc => ["ts_us", "event", "seq", "rtt_us", "hop_count", "w", "w_ref", "incarnation", "u",
      "u_smoothed", "cum_acked", "in_flight"]
  | .hpcc_v2 => ["ts_us", "event", "seq", "rtt_us", "hop_count", "w", "w_ref", "incarnation", "u",
      "u_smoothed", "cum_acked", "in_flight"]

/-! ## `load` -/

structure Trace where
  t_ack : List ℚ
  ecn_echo : List ℤ
  duration_s : ℚ
  deriving DecidableEq

def Trace.n_ack (trace : Trace) : ℕ := trace.t_ack.length

/-- `xs[mask]`. -/
def masked {α : Type} (xs : List α) (mask : List Bool) : List α :=
  (xs.zip mask).filterMap fun x => if x.2 then some x.1 else none

/-- `load`, from the header and the rows of the file. -/
def load (cols : List String) (rows : List LogEvent) : Except PyError Trace :=
  match rows with
  | [] => .error .value_error
  | first :: _ =>
    let t0 := first.ts_us
    let t_s := rows.map fun r => ((r.ts_us : ℚ) - t0) / 1000000
    let ack_mask := rows.map fun r => decide (event_name r.event = "ack")
    .ok {
      t_ack := masked t_s ack_mask
      ecn_echo := if "ecn_echo" ∈ cols then masked (rows.map LogEvent.echo) ack_mask
        else List.replicate (ack_mask.count true) 0
      duration_s := t_s.getLast?.getD 0 }

/-! ## The bins -/

/-- `max(trace.t_ack[-1], trace.duration_s)`, for a trace with an ACK. -/
def t_end (trace : Trace) : ℚ := max (trace.t_ack.getLast?.getD 0) trace.duration_s

def n_bins (trace : Trace) (bin_s : ℚ) : ℤ := max 1 (py_int (t_end trace / bin_s) + 1)

/-- `np.clip(x, lo, hi)`. -/
def clip (x lo hi : ℤ) : ℤ := min (max x lo) hi

/-- The bin of an ACK at time `t`. -/
def bin_of (trace : Trace) (bin_s t : ℚ) : ℕ :=
  (clip (py_int (t / bin_s)) 0 (n_bins trace bin_s - 1)).toNat

def idx (trace : Trace) (bin_s : ℚ) : List ℕ := trace.t_ack.map (bin_of trace bin_s)

/-- `counts`, once the ACKs are added. -/
def counts (trace : Trace) (bin_s : ℚ) : List ℚ :=
  add_at (List.replicate (n_bins trace bin_s).toNat 0) (ones (idx trace bin_s))

/-- `np.arange(n_bins) * bin_s`. -/
def bin_t (trace : Trace) (bin_s : ℚ) : List ℚ :=
  (List.range (n_bins trace bin_s).toNat).map fun i : ℕ => (i : ℚ) * bin_s

def throughput_mbps (trace : Trace) (bin_s : ℚ) (pkt_size_bytes : ℤ) : List ℚ × List ℚ :=
  if trace.n_ack = 0 then ([], [])
  else
    let bps := (counts trace bin_s).map fun c => c * pkt_size_bytes * 8 / bin_s
    (bin_t trace bin_s, bps.map fun b => b / 1000000)

def mark_fraction (trace : Trace) (bin_s : ℚ) : List ℚ × List ℚ :=
  if trace.n_ack = 0 then ([], [])
  else
    let marks := add_at (List.replicate (n_bins trace bin_s).toNat 0)
      ((idx trace bin_s).zip (trace.ecn_echo.map (Int.cast : ℤ → ℚ)))
    let frac := List.zipWith (fun m c => if 0 < c then m / c else 0) marks (counts trace bin_s)
    (bin_t trace bin_s, frac)

/-! ## What the bins hold -/

section

variable {trace : Trace} {bin_s : ℚ}

/-- There is at least one bin. -/
theorem n_bins_pos (trace : Trace) (bin_s : ℚ) : 0 < n_bins trace bin_s :=
  lt_of_lt_of_le zero_lt_one (le_max_left _ _)

/-- Whatever the time, the bin is one of them. -/
theorem bin_of_lt (trace : Trace) (bin_s t : ℚ) :
    bin_of trace bin_s t < (n_bins trace bin_s).toNat := by
  have hpos := n_bins_pos trace bin_s
  unfold bin_of clip
  omega

theorem idx_lt {i : ℕ} (h : i ∈ idx trace bin_s) : i < (n_bins trace bin_s).toNat := by
  obtain ⟨t, -, rfl⟩ := List.mem_map.mp h
  exact bin_of_lt trace bin_s t

/-- Each bin counts the ACKs whose time falls into it. -/
theorem counts_eq (trace : Trace) (bin_s : ℚ) :
    counts trace bin_s = (List.range (n_bins trace bin_s).toNat).map fun i : ℕ =>
      ((trace.t_ack.countP fun t => bin_of trace bin_s t = i : ℕ) : ℚ) := by
  unfold counts
  rw [add_at_zeros]
  apply List.map_congr_left
  intro i _
  rw [amount_at_ones, idx, List.count_eq_countP, List.countP_map]
  rfl

/-- Together they count every ACK once. -/
theorem sum_counts (trace : Trace) (bin_s : ℚ) : (counts trace bin_s).sum = trace.n_ack := by
  unfold counts
  rw [sum_add_at_zeros]
  · have hones : (ones (idx trace bin_s)).map Prod.snd = List.replicate trace.n_ack (1 : ℚ) := by
      unfold ones idx Trace.n_ack
      rw [List.map_map, List.map_map]
      exact List.map_const' ..
    rw [hones, List.sum_replicate, nsmul_eq_mul, mul_one]
  · intro u hu
    obtain ⟨i, hi, rfl⟩ := List.mem_map.mp hu
    exact idx_lt hi

/-- The throughput of all bins is that of the ACKs in the trace. -/
theorem sum_throughput (hbin : 0 < bin_s) (pkt_size_bytes : ℤ) :
    (throughput_mbps trace bin_s pkt_size_bytes).2.sum * bin_s
      = pkt_size_bytes * 8 / 1000000 * trace.n_ack := by
  unfold throughput_mbps
  by_cases h : trace.n_ack = 0
  · rw [if_pos h, h, Nat.cast_zero, mul_zero]
    exact zero_mul _
  · rw [if_neg h]
    dsimp only
    have hscale : (fun c : ℚ => c * pkt_size_bytes * 8 / bin_s / 1000000)
        = fun c => c * (pkt_size_bytes * 8 / bin_s / 1000000) := by
      funext c
      ring
    rw [List.map_map, Function.comp_def, hscale, List.sum_map_mul_right, List.map_id', sum_counts]
    field_simp

/-- The marked shares of all bins make up the marks in the trace. -/
theorem sum_mark_fraction (hlen : trace.ecn_echo.length = trace.n_ack) :
    (List.zipWith (· * ·) (mark_fraction trace bin_s).2 (counts trace bin_s)).sum
      = (trace.ecn_echo.map (Int.cast : ℤ → ℚ)).sum := by
  unfold mark_fraction
  by_cases h : trace.n_ack = 0
  · rw [if_pos h, List.length_eq_zero_iff.mp (hlen.trans h)]
    rfl
  · rw [if_neg h]
    dsimp only
    have hidx : (idx trace bin_s).length = (trace.ecn_echo.map (Int.cast : ℤ → ℚ)).length := by
      rw [idx, List.length_map, List.length_map, hlen]
      rfl
    have hmeans := weighted_means (n_bins trace bin_s).toNat
      ((idx trace bin_s).zip (trace.ecn_echo.map (Int.cast : ℤ → ℚ))) ?_
    · rw [List.map_fst_zip hidx.le, List.map_snd_zip hidx.ge] at hmeans
      exact hmeans
    · intro u hu
      exact idx_lt (List.of_mem_zip hu).1

end

/-! ## What the trace holds -/

/-- A mask that is a condition on the rows. -/
theorem masked_map {α β : Type} (f : α → β) (p : α → Bool) (rows : List α) :
    masked (rows.map f) (rows.map p) = (rows.filter p).map f := by
  unfold masked
  induction rows with
  | nil => rfl
  | cons r rows ih =>
      rw [List.map_cons, List.map_cons, List.zip_cons_cons, List.filterMap_cons, List.filter_cons]
      cases p r with
      | false => exact ih
      | true => exact congrArg (f r :: ·) ih

/-- Only one event is written as `ack`. -/
theorem event_name_ack (e : EventKind) : event_name e = "ack" ↔ e = .ack := by
  cases e <;> simp [event_name]

/-- The rows the reader takes. -/
def ack_rows (rows : List LogEvent) : List LogEvent := rows.filter fun r => r.event = .ack

/-- The `ecn_echo` of a row, 0 if the file has no such column. -/
def echo_column (cols : List String) (r : LogEvent) : ℤ := if "ecn_echo" ∈ cols then r.echo else 0

/-- **What `load` reads**: one entry for each row named `ack`. -/
theorem load_ok (cols : List String) {rows : List LogEvent} (h : rows ≠ []) :
    ∃ trace, load cols rows = .ok trace ∧ trace.n_ack = (ack_rows rows).length ∧
      trace.ecn_echo = (ack_rows rows).map (echo_column cols) := by
  obtain ⟨first, rest, rfl⟩ := List.exists_cons_of_ne_nil h
  have hmask : (fun r : LogEvent => decide (event_name r.event = "ack"))
      = fun r => decide (r.event = .ack) := by
    funext r
    exact decide_eq_decide.mpr (event_name_ack r.event)
  refine ⟨_, rfl, ?_, ?_⟩
  · show (masked _ _).length = _
    rw [masked_map, List.length_map, hmask]
    rfl
  · show (if "ecn_echo" ∈ cols then masked _ _ else _) = _
    unfold echo_column
    -- with the column the values of the masked rows, without it zeros of the same length
    by_cases hcol : "ecn_echo" ∈ cols
    · simp only [if_pos hcol]
      rw [masked_map, hmask]
      rfl
    · simp only [if_neg hcol]
      rw [hmask, List.map_const', ack_rows, ← List.countP_eq_length_filter, List.count_eq_countP,
        List.countP_map]
      congr 2
      funext r
      exact beq_true _

/-! ## What the log holds -/

variable {k : SenderKind} {cfg : k.cls.Config} {mp : Option ℤ}

/-- The `ecn_echo` of each datagram the listener passes to `_on_ack_locked`. -/
def note (k : SenderKind) (op : Op) (p : k.cls.Proc) : List ℤ :=
  match op with
  | .datagram data _ => if accepts k data p.self then [ecn_echo k data] else []
  | _ => []

/-- A sender, and the ACKs it has accepted. -/
abbrev Noted (k : SenderKind) := k.cls.Proc × List ℤ

/-- The row is that of an ACK. -/
def IsAck (r : LogEvent) : Prop := r.event = .ack ∨ r.event = .ack_stale

instance : DecidablePred IsAck := fun r =>
  inferInstanceAs (Decidable (r.event = .ack ∨ r.event = .ack_stale))

/-- The log has one row for each accepted ACK, with its `ecn_echo`. -/
structure Logged (q : Noted k) : Prop where
  rows : (q.1.self.events.filter fun r => IsAck r).map (echo_column (header k)) = q.2
  echo : ∀ x ∈ q.2, x = 0 ∨ x = 1

theorem ecn_echo_mem (k : SenderKind) (data : List Byte) :
    ecn_echo k data = 0 ∨ ecn_echo k data = 1 := by
  cases k with
  | dctcp =>
      unfold ecn_echo
      dsimp only
      split
      · next shim ack _ =>
        by_cases h : shim.ecn_echo = true
        · exact Or.inr (if_pos h)
        · exact Or.inl (if_neg h)
      · exact Or.inl rfl
  | hpcc => exact Or.inl rfl
  | hpcc_v2 => exact Or.inl rfl

/-- The row of an accepted ACK carries what the listener has passed on. -/
theorem echo_column_ack {data : List Byte} {r : LogEvent} (h : AckRow k data r) :
    echo_column (header k) r = ecn_echo k data := by
  cases k with
  | dctcp =>
      rw [echo_column, if_pos (by simp [header])]
      exact h.echo rfl
  | hpcc => exact if_neg (by simp [header])
  | hpcc_v2 => exact if_neg (by simp [header])

/-- New rows none of which is that of an ACK. -/
theorem Logged.quiet {q q' : Noted k} (h : Logged q) {new : List LogEvent}
    (hev : q'.1.self.events = q.1.self.events ++ new) (hnew : ∀ r ∈ new, ¬ IsAck r)
    (hnotes : q'.2 = q.2) : Logged q' := by
  have hnone : (new.filter fun r => IsAck r) = [] := by
    apply List.filter_eq_nil_iff.mpr
    intro r hr hack
    exact hnew r hr (of_decide_eq_true hack)
  refine ⟨?_, ?_⟩
  · rw [hev, List.filter_append, hnone, List.append_nil, hnotes]
    exact h.rows
  · rw [hnotes]
    exact h.echo

/-- An accepted ACK is one row and one note. -/
theorem Logged.accepted {q q' : Noted k} (h : Logged q) {data : List Byte} {row : LogEvent}
    {upd : List LogEvent} (hev : q'.1.self.events = q.1.self.events ++ row :: upd)
    (hrow : AckRow k data row) (hupd : ∀ r ∈ upd, r.event = .update)
    (hnotes : q'.2 = q.2 ++ [ecn_echo k data]) : Logged q' := by
  have hack : IsAck row := hrow.name.elim Or.inl fun h => Or.inr h.2
  -- the rows of the update are no ACK rows: one row is added
  have hnone : (upd.filter fun r => IsAck r) = [] := by
    apply List.filter_eq_nil_iff.mpr
    intro r hr hr'
    have hname := of_decide_eq_true hr'
    rw [IsAck, hupd r hr] at hname
    exact hname.elim EventKind.noConfusion EventKind.noConfusion
  refine ⟨?_, ?_⟩
  · rw [hev, List.filter_append, List.filter_cons, if_pos (decide_eq_true hack), hnone,
      List.map_append, h.rows, hnotes, List.map_singleton, echo_column_ack hrow]
  · intro x hx
    rw [hnotes] at hx
    rcases List.mem_append.mp hx with hx | hx
    · exact h.echo x hx
    · rw [List.mem_singleton.mp hx]
      exact ecn_echo_mem k data

theorem not_isAck_of_sends {new : List LogEvent} (h : SendRows new) : ∀ r ∈ new, ¬ IsAck r := by
  intro r hr hack
  rcases h r hr with hname | hname
  · rw [IsAck, hname] at hack
    exact hack.elim EventKind.noConfusion EventKind.noConfusion
  · rw [IsAck, hname] at hack
    exact hack.elim EventKind.noConfusion EventKind.noConfusion

/-- Only an accepted ACK is noted. -/
theorem note_of_not_accepted {op : Op} {p : k.cls.Proc}
    (h : ∀ data clk, op = .datagram data clk → accepts k data p.self = false) :
    note k op p = [] := by
  unfold note
  split
  · next data clk => rw [h data clk rfl, if_neg Bool.false_ne_true]
  · rfl

theorem logged_step {q q' : Noted k} {op : Op} (h : Logged q)
    (hstep : recorded (k.cls.step cfg mp) (note k) op q = some q') : Logged q' := by
  obtain ⟨hproc, hnotes⟩ := recorded_eq_some.mp hstep
  obtain ⟨new, hev, hwritten⟩ := written_step hproc
  cases hwritten with
  | ack hacc hrow hupd =>
      unfold note at hnotes
      dsimp only at hnotes
      rw [hacc, if_pos rfl] at hnotes
      exact h.accepted hev hrow hupd hnotes
  | rto hfires hsends =>
      refine h.quiet hev ?_ (hnotes.trans (List.append_nil _))
      intro r hr
      rcases List.mem_cons.mp hr with rfl | hr
      · exact fun hack => hack.elim EventKind.noConfusion EventKind.noConfusion
      · exact not_isAck_of_sends hsends r hr
  | other hack hrto hnew =>
      rw [note_of_not_accepted hack, List.append_nil] at hnotes
      exact h.quiet hev (not_isAck_of_sends hnew) hnotes

theorem logged_start (monotonic : ℚ) : Logged (k.cls.start cfg monotonic, []) := by
  refine ⟨rfl, ?_⟩
  intro x hx
  exact absurd hx List.not_mem_nil

/-! ## Conservation -/

/-- The bins of the trace hold the accepted ACKs, of which `accepted` are the `ecn_echo`:
all of them, each in one bin, and with their marks. -/
structure Conserved (trace : Trace) (bin_s : ℚ) (accepted : List ℤ) : Prop where
  total : ∀ pkt_size_bytes : ℤ, (throughput_mbps trace bin_s pkt_size_bytes).2.sum * bin_s
    = pkt_size_bytes * 8 / 1000000 * accepted.length
  each : counts trace bin_s = (List.range (n_bins trace bin_s).toNat).map fun i : ℕ =>
    ((trace.t_ack.countP fun t => bin_of trace bin_s t = i : ℕ) : ℚ)
  same_bins : ∀ pkt_size_bytes : ℤ,
    (mark_fraction trace bin_s).1 = (throughput_mbps trace bin_s pkt_size_bytes).1
  marks : (List.zipWith (· * ·) (mark_fraction trace bin_s).2 (counts trace bin_s)).sum
    = accepted.count 1

/-- The log of the sender conserves its ACKs. -/
def Conserves (q : Noted k) : Prop :=
  ∃ trace, load (header k) q.1.self.events = .ok trace ∧
    ∀ bin_s, 0 < bin_s → Conserved trace bin_s q.2

theorem ack_rows_eq (rows : List LogEvent) :
    ack_rows rows = (rows.filter fun r => IsAck r).filter fun r => r.event = .ack := by
  rw [List.filter_filter]
  apply List.filter_congr
  intro r _
  by_cases h : r.event = .ack
  · simp [IsAck, h]
  · simp [h]

/-- The reader takes the rows of all ACKs as soon as it takes as many. -/
theorem ack_rows_eq_iff (rows : List LogEvent) :
    ack_rows rows = (rows.filter fun r => IsAck r) ↔
      (ack_rows rows).length = (rows.filter fun r => IsAck r).length := by
  have hsub : (ack_rows rows).Sublist (rows.filter fun r => IsAck r) := by
    rw [ack_rows_eq]
    exact List.filter_sublist
  exact hsub.length_eq.symm

/-- It does if none is stale. -/
theorem no_stale_iff (rows : List LogEvent) :
    ack_rows rows = (rows.filter fun r => IsAck r) ↔ ∀ r ∈ rows, r.event ≠ .ack_stale := by
  rw [ack_rows_eq, List.filter_eq_self]
  constructor
  · intro h r hr hstale
    have hack := of_decide_eq_true
      (h r (List.mem_filter.mpr ⟨hr, decide_eq_true (Or.inr hstale)⟩))
    rw [hstale] at hack
    cases hack
  · intro h r hr
    obtain ⟨hmem, hack⟩ := List.mem_filter.mp hr
    exact decide_eq_true ((of_decide_eq_true hack).resolve_right (h r hmem))

/-- Marks are ones among zeros. -/
theorem sum_echo {l : List ℤ} (h : ∀ x ∈ l, x = 0 ∨ x = 1) :
    (l.map (Int.cast : ℤ → ℚ)).sum = l.count 1 := by
  induction l with
  | nil => rfl
  | cons x l ih =>
      rw [List.map_cons, List.sum_cons, ih fun y hy => h y (List.mem_cons_of_mem _ hy),
        List.count_cons]
      rcases h x List.mem_cons_self with rfl | rfl
      · simp
      · simp [add_comm]

theorem Logged.conserves_iff {q : Noted k} (hlog : Logged q) (hacc : q.2 ≠ []) :
    Conserves q ↔ ∀ r ∈ q.1.self.events, r.event ≠ .ack_stale := by
  have hrows : q.1.self.events ≠ [] := by
    intro hnil
    have hnotes := hlog.rows
    rw [hnil] at hnotes
    exact hacc hnotes.symm
  obtain ⟨trace, hload, hn, hecho⟩ := load_ok (header k) hrows
  have hlen : (q.1.self.events.filter fun r => IsAck r).length = q.2.length := by
    rw [← hlog.rows, List.length_map]
  rw [← no_stale_iff]
  constructor
  · -- one bin width is enough: the total over the bins counts the `ack` rows
    rintro ⟨trace', hload', hall⟩
    obtain rfl := Except.ok.inj (hload.symm.trans hload')
    have htotal := (hall 1 zero_lt_one).total 1000000
    rw [sum_throughput zero_lt_one] at htotal
    have hcast : (trace.n_ack : ℚ) = q.2.length := by linarith
    rw [ack_rows_eq_iff, ← hn, hlen]
    exact_mod_cast hcast
  · -- without a stale row the two filters of the reader agree
    intro hsame
    have hall : trace.n_ack = q.2.length := by rw [hn, hsame, hlen]
    have hnotes : trace.ecn_echo = q.2 := by rw [hecho, hsame, hlog.rows]
    refine ⟨trace, hload, ?_⟩
    intro bin_s hbin
    refine ⟨?_, counts_eq trace bin_s, ?_, ?_⟩
    · intro pkt_size_bytes
      rw [sum_throughput hbin, hall]
    · intro pkt_size_bytes
      unfold mark_fraction throughput_mbps
      by_cases h : trace.n_ack = 0
      · rw [if_pos h, if_pos h]
      · rw [if_neg h, if_neg h]
    · rw [sum_mark_fraction (by rw [hnotes, hall]), hnotes, sum_echo hlog.echo]

theorem logged_run {monotonic : ℚ} {ops : List Op} {q : Noted k}
    (hrun : run (recorded (k.cls.step cfg mp) (note k)) (k.cls.start cfg monotonic, []) ops
      = some q) : Logged q :=
  run_invariant (fun _ _ _ h hstep => logged_step h hstep) (logged_start monotonic) hrun

/-- **Throughput and the accepted ACKs.** What the reader makes of the log of a sender holds
every accepted ACK once, for every packet size and bin width, exactly if the log has no row
of a stale ACK. -/
theorem throughput_conserved_iff (k : SenderKind) (cfg : k.cls.Config) (mp : Option ℤ)
    (monotonic : ℚ) (ops : List Op) (q : Noted k)
    (hrun : run (recorded (k.cls.step cfg mp) (note k)) (k.cls.start cfg monotonic, []) ops
      = some q) (hacc : q.2 ≠ []) :
    Conserves q ↔ ∀ r ∈ q.1.self.events, r.event ≠ .ack_stale :=
  (logged_run hrun).conserves_iff hacc

/-! ## Three ACKs, and a stale one -/

/-- Four packets are sent and three ACKs come, of which the second is marked and the last
223 ms after the first. -/
def three_acks : List Op :=
  [.acquire, .send (sent_at 1000), .send (sent_at 1000), .send (sent_at 1000),
    .send (sent_at 1000), .release, .datagram (bare_ack 0 0) (clock_at 7000),
    .datagram (bare_ack 1 1) (clock_at 9000), .datagram (bare_ack 0 3) (clock_at 230000)]

theorem three_acks_rows :
    (run (recorded (Dctcp.cls.step (Dctcp.defaults (1 / 200)) (some 4)) (note .dctcp))
      (Dctcp.cls.start (Dctcp.defaults (1 / 200)) 0, []) three_acks).map
        (fun q => ((q.1.self.events.any fun r => r.event = .ack_stale), q.2,
          (load (header .dctcp) q.1.self.events).toOption.map Trace.t_ack))
      = some (false, [0, 1, 0], some [3 / 500, 1 / 125, 229 / 1000]) := by
  decide +kernel

theorem throughput_conserved_three_acks :
    ∃ q : Noted .dctcp,
      run (recorded (Dctcp.cls.step (Dctcp.defaults (1 / 200)) (some 4)) (note .dctcp))
        (Dctcp.cls.start (Dctcp.defaults (1 / 200)) 0, []) three_acks = some q ∧
      q.2 = [0, 1, 0] ∧ Conserves q := by
  obtain ⟨q, hrun, hq⟩ := Option.map_eq_some_iff.mp three_acks_rows
  simp only [Prod.mk.injEq] at hq
  obtain ⟨hstale, hnotes, -⟩ := hq
  refine ⟨q, hrun, hnotes, (throughput_conserved_iff .dctcp (Dctcp.defaults (1 / 200)) (some 4) 0
    three_acks q hrun (by simp [hnotes])).mpr ?_⟩
  intro r hr
  simpa using List.any_eq_false.mp hstale r hr

/-- The default arguments, with `--w-ai 0`. -/
def stale_config : Hpcc.Config := { Hpcc.defaults (1 / 200) with w_ai := 0 }

/-- Packets 0 to 7 are sent, 1 is acknowledged, 8 and 9 are sent. The ACK of packet 7 lowers
the window and opens a new incarnation; then packet 9 is acknowledged, of the old one. -/
def one_stale : List Op :=
  .acquire :: List.replicate 8 (.send (sent_at 1000)) ++
    [.release, .datagram (bare_ack 0 1) (clock_at 7000), .acquire, .send (sent_at 7000),
      .send (sent_at 7000), .release, .datagram (bare_ack 0 7) (clock_at 8000),
      .datagram (bare_ack 0 9) (clock_at 13000)]

theorem one_stale_rows :
    (run (recorded (HpccV2.cls.step stale_config none) (note .hpcc_v2))
      (HpccV2.cls.start stale_config 0, []) one_stale).map
        (fun q => ((q.1.self.events.filter fun r => IsAck r).map tag, q.2))
      = some ([(.ack, 1), (.ack, 7), (.ack_stale, 9)], [0, 0, 0]) := by
  decide +kernel

/-- Three ACKs are accepted, and the reader takes two. -/
theorem throughput_conserved_fails :
    ¬ ∀ (k : SenderKind) (cfg : k.cls.Config) (mp : Option ℤ) (monotonic : ℚ) (ops : List Op)
      (q : Noted k),
      run (recorded (k.cls.step cfg mp) (note k)) (k.cls.start cfg monotonic, []) ops = some q →
      q.2 ≠ [] → Conserves q := by
  intro h
  obtain ⟨q, hrun, hq⟩ := Option.map_eq_some_iff.mp one_stale_rows
  obtain ⟨hev, hnotes⟩ := Prod.mk.inj hq
  have hne : q.2 ≠ [] := by simp [hnotes]
  have hcons : Conserves (k := .hpcc_v2) q := h .hpcc_v2 stale_config none 0 one_stale q hrun hne
  have hlog : Logged (k := .hpcc_v2) q := logged_run (k := .hpcc_v2) hrun
  have hnone := (hlog.conserves_iff hne).mp hcons
  have hmem : (EventKind.ack_stale, (9 : ℤ)) ∈
      (q.1.self.events.filter fun r => IsAck r).map tag := by
    rw [hev]
    decide
  obtain ⟨r, hr, htag⟩ := List.mem_map.mp hmem
  exact hnone r (List.mem_of_mem_filter hr) (Prod.mk.inj htag).1

end IntHpcc.ParseLogs
