/-
HPCC v2 never inflates the window from an old snapshot.

The update of v2 multiplies the `w_ref` snapshot of the earliest packet in flight, which
can be larger than the current `w_ref`. That the new window is bounded as if the current
`w_ref` had been used rests on the invariant `Snapshots` about the entries of
`in_flight`: an entry with a larger snapshot is either too close to the last update for
the gate to open on it, or was left behind by a cut that the formula, from that very
snapshot, would repeat. Sending, acknowledging, updating and retransmitting each keep
`Snapshots`; the bound on one update falls out of the update's own lemma.

All runs here are lossless (`LosslessRun`), so the packets in flight are contiguous.
-/
import IntHpcc.ControllerInv
import IntHpcc.LosslessRun
import Mathlib.Tactic.FieldSimp

set_option autoImplicit false

namespace IntHpcc.V2Window

open IntHpcc.Runs IntHpcc.Bytes IntHpcc.Py IntHpcc.PacketFormat IntHpcc.SenderCore
open IntHpcc.SenderWindow IntHpcc.CumAck IntHpcc.Network IntHpcc.LosslessRun
open IntHpcc.Hpcc IntHpcc.ControllerInv.Hpcc

variable {cfg : Config} {st : Self}

/-! ## The update formula -/

/-- The formula grows with the window it starts from. -/
theorem target_mono (h : 0 < cfg.eta) {g g' : ℚ} (hg : g ≤ g') (c : Ctl) :
    c.target cfg g ≤ c.target cfg g' := by
  have hd : 0 < c.u_eff / cfg.eta := div_pos c.u_eff_pos h
  unfold Ctl.target
  refine max_le_max (le_refl _) (min_le_min (le_refl _) ?_)
  have := div_le_div_of_nonneg_right hg hd.le
  linarith

/-- From the current window it gives at most the bound one expects. -/
theorem target_le (hw : 1 ≤ st.ctl.w_ref) :
    st.ctl.target cfg st.ctl.w_ref
      ≤ max st.ctl.w_ref (st.ctl.w_ref * cfg.eta / st.ctl.u_eff + cfg.w_ai) := by
  unfold Ctl.target
  refine max_le (le_trans hw (le_max_left _ _)) ?_
  refine le_trans (min_le_right _ _) ?_
  rw [div_div_eq_mul_div]
  exact le_max_right _ _

/-! ## The earliest packet in flight -/

/-- In a contiguous flight the window the update starts from is that of the packet after
the last acknowledged one, or the current one if nothing is in flight. -/
theorem gate_w_cases (h : Contig st.toTransport) :
    ((∀ s, st.in_flight.lookup s = none) ∧ HpccV2.earliest_unacked_w_ref st = st.ctl.w_ref) ∨
    ∃ e, st.in_flight.lookup (st.cum_acked_seq + 1) = some e ∧
      HpccV2.earliest_unacked_w_ref st = e.snap.w_ref := by
  unfold HpccV2.earliest_unacked_w_ref HpccV2.earliest
  -- the earliest packet in flight is the first one not acknowledged
  by_cases hne : st.cum_acked_seq + 1 < st.next_seq
  · have hmem : st.cum_acked_seq + 1 ∈ st.in_flight := (h.mem_iff _).mpr ⟨by omega, hne⟩
    obtain ⟨e, he⟩ := mem_iff_lookup.mp hmem
    have hmin : st.in_flight.keys.min? = some (st.cum_acked_seq + 1) := by
      rw [List.min?_eq_some_iff]
      refine ⟨AList.mem_keys.mp hmem, fun s hs => ?_⟩
      have := ((h.mem_iff s).mp (AList.mem_keys.mpr hs)).1
      omega
    refine Or.inr ⟨e, he, ?_⟩
    rw [hmin]
    dsimp only
    rw [he]
    rfl
  · have hnone : ∀ s, st.in_flight.lookup s = none := by
      intro s
      rw [AList.lookup_eq_none, h.mem_iff]
      omega
    have hkeys : st.in_flight.keys = [] := by
      apply List.eq_nil_iff_forall_not_mem.mpr
      intro s hs
      exact AList.lookup_eq_none.mp (hnone s) (AList.mem_keys.mpr hs)
    refine Or.inl ⟨hnone, ?_⟩
    rw [hkeys]
    rfl

/-! ## The invariant -/

/-- What holds of the snapshots stored with the packets in flight. -/
structure Snapshots (cfg : Config) (st : Self) : Prop where
  one_le : ∀ s e, st.in_flight.lookup s = some e → 1 ≤ e.snap.w_ref
  inc_le : ∀ s e, st.in_flight.lookup s = some e → e.snap.incarnation ≤ st.ctl.incarnation
  inc_mono : ∀ s t e f, st.in_flight.lookup s = some e → st.in_flight.lookup t = some f →
    s < t → e.snap.incarnation ≤ f.snap.incarnation
  -- a later packet fits the window it was sent under, or was restamped with the earlier one
  near_or_same : ∀ s t e f, st.in_flight.lookup s = some e → st.in_flight.lookup t = some f →
    s < t → t ≤ st.cum_acked_seq + py_int f.snap.w_ref ∨ e.snap = f.snap
  -- too close to the last update, or not larger than the current window, or cut already
  bounded : ∀ s e, st.in_flight.lookup s = some e →
    s ≤ st.ctl.last_update_seq + py_int e.snap.w_ref ∨ e.snap.w_ref ≤ st.ctl.w_ref ∨
      (e.snap.incarnation < st.ctl.incarnation ∧
        st.ctl.target cfg e.snap.w_ref ≤ st.ctl.w_ref)

theorem snapshots_of_empty (h : ∀ s, st.in_flight.lookup s = none) : Snapshots cfg st := by
  refine ⟨?_, ?_, ?_, ?_, ?_⟩
  · intro s e he
    rw [h] at he
    cases he
  · intro s e he
    rw [h] at he
    cases he
  · intro s t e f he
    rw [h] at he
    cases he
  · intro s t e f he
    rw [h] at he
    cases he
  · intro s e he
    rw [h] at he
    cases he

/-! ### Sending -/

/-- A packet in flight after a burst iteration is the next one, with the snapshot of now,
or was in flight below it. -/
theorem lookup_burst (hc : Contig st.toTransport) {call : SendCall} {k : ℤ} {e : Entry Snap}
    (he : (HpccV2.cls.burst_iter st call).in_flight.lookup k = some e) :
    (k = st.next_seq ∧ e.snap = snapshot st.ctl) ∨
      (k < st.next_seq ∧ st.in_flight.lookup k = some e) := by
  have hnew : st.next_seq ∉ st.in_flight := by
    rw [hc.mem_iff]
    omega
  rcases first_send_entry HpccV2.cls.snapshot hnew he with ⟨hk, b, t, l, -, rfl⟩ | ⟨-, hold⟩
  · exact Or.inl ⟨hk, rfl⟩
  · have hmem : k ∈ st.in_flight := mem_iff_lookup.mpr ⟨e, hold⟩
    exact Or.inr ⟨((hc.mem_iff k).mp hmem).2, hold⟩

/-- The next packet of a burst fits the window. -/
theorem burst_fits {mp : Option ℤ} (hok : Ok cfg st) (hc : Contig st.toTransport)
    (hg : HpccV2.cls.burst_guard mp st = true) :
    st.next_seq ≤ st.cum_acked_seq + py_int st.ctl.w_ref := by
  unfold SenderClass.burst_guard at hg
  rw [Bool.and_eq_true, decide_eq_true_eq] at hg
  have hlt : (st.flight : ℤ) < py_int st.ctl.w := hg.1
  rw [hc.flight_eq, hok.w_eq] at hlt
  omega

/-- A burst iteration: the new packet carries the current window and incarnation, and fits
the window. -/
theorem snapshots_burst_iter {mp : Option ℤ} (h : Snapshots cfg st) (hok : Ok cfg st)
    (hc : Contig st.toTransport) (hg : HpccV2.cls.burst_guard mp st = true) (call : SendCall) :
    Snapshots cfg (HpccV2.cls.burst_iter st call) := by
  have hctl : (HpccV2.cls.burst_iter st call).ctl = st.ctl :=
    ControllerInv.burst_iter_ctl (C := HpccV2.cls) st call
  have hcum : (HpccV2.cls.burst_iter st call).cum_acked_seq = st.cum_acked_seq :=
    ControllerInv.burst_iter_cum (C := HpccV2.cls) st call
  -- each entry is the new one or an old one; the new one has the snapshot of now
  refine ⟨?_, ?_, ?_, ?_, ?_⟩
  · intro s e he
    rcases lookup_burst hc he with ⟨-, hsnap⟩ | ⟨-, hold⟩
    · rw [hsnap]
      exact hok.one_le_w
    · exact h.one_le s e hold
  · intro s e he
    rw [hctl]
    rcases lookup_burst hc he with ⟨-, hsnap⟩ | ⟨-, hold⟩
    · rw [hsnap]
      exact le_refl _
    · exact h.inc_le s e hold
  · -- the incarnation in force is the latest there is, so the order is kept
    intro s t e f he hf hst
    rcases lookup_burst hc he with ⟨rfl, -⟩ | ⟨-, hold⟩
    · rcases lookup_burst hc hf with ⟨rfl, -⟩ | ⟨hlt, -⟩
      · exact absurd hst (lt_irrefl _)
      · omega
    · rcases lookup_burst hc hf with ⟨-, hsnap⟩ | ⟨-, hold'⟩
      · rw [hsnap]
        exact h.inc_le s e hold
      · exact h.inc_mono s t e f hold hold' hst
  · intro s t e f he hf hst
    rw [hcum]
    rcases lookup_burst hc he with ⟨rfl, -⟩ | ⟨-, hold⟩
    · rcases lookup_burst hc hf with ⟨rfl, -⟩ | ⟨hlt, -⟩
      · exact absurd hst (lt_irrefl _)
      · omega
    · rcases lookup_burst hc hf with ⟨rfl, hsnap⟩ | ⟨-, hold'⟩
      · -- the newest number: the guard says that it lies within the window
        refine Or.inl ?_
        rw [hsnap]
        exact burst_fits hok hc hg
      · exact h.near_or_same s t e f hold hold' hst
  · intro s e he
    rw [hctl]
    rcases lookup_burst hc he with ⟨-, hsnap⟩ | ⟨-, hold⟩
    · refine Or.inr (Or.inl ?_)
      rw [hsnap]
      exact le_refl _
    · exact h.bounded s e hold

/-! ### Acknowledging -/

/-- An ACK of a packet in flight, up to the gate. If its hops are taken in, the packet
was sent under the current incarnation, and so was everything behind it. -/
theorem snapshots_before_gate (h : Snapshots cfg st) (hc : Contig st.toTransport) {k : ℤ}
    {e : Entry Snap} (he : st.in_flight.lookup k = some e) (clk : AckClock) (hops : List IntHop)
    (rtt_us : ℤ) :
    Snapshots cfg (before_gate cfg clk k hops rtt_us
      (decide (e.snap.incarnation = st.ctl.incarnation)) st) := by
  have hk : st.cum_acked_seq < k :=
    ((hc.mem_iff k).mp (mem_iff_lookup.mpr ⟨e, he⟩)).1
  generalize hfresh : decide (e.snap.incarnation = st.ctl.incarnation) = fresh
  -- what is left lies behind the acknowledged packet
  have hleft : ∀ s f, (before_gate cfg clk k hops rtt_us fresh st).in_flight.lookup s = some f →
      k < s ∧ st.in_flight.lookup s = some f := by
    intro s f hf
    obtain ⟨hold, hs⟩ := lookup_acked_eq_some.mp hf
    have hcum : st.cum_acked_seq < s := ((hc.mem_iff s).mp (mem_iff_lookup.mpr ⟨f, hold⟩)).1
    exact ⟨by omega, hold⟩
  have hcum : (before_gate cfg clk k hops rtt_us fresh st).cum_acked_seq = k := by
    show (st.toTransport.acked k).cum_acked_seq = k
    rw [acked_cum]
    exact max_eq_right hk.le
  have hinc := before_gate_incarnation cfg clk k hops rtt_us fresh st
  have hfields : (before_gate cfg clk k hops rtt_us fresh st).ctl.w_ref = st.ctl.w_ref ∧
      (before_gate cfg clk k hops rtt_us fresh st).ctl.last_update_seq
        = st.ctl.last_update_seq := by
    cases fresh with
    | false => exact ⟨rfl, rfl⟩
    | true =>
        obtain ⟨-, e₂, -, e₃, -⟩ := took_fields cfg hops st.ctl
        exact ⟨e₂, e₃⟩
  obtain ⟨hw, hlast⟩ := hfields
  refine ⟨?_, ?_, ?_, ?_, ?_⟩
  · intro s f hf
    exact h.one_le s f (hleft s f hf).2
  · intro s f hf
    rw [hinc]
    exact h.inc_le s f (hleft s f hf).2
  · intro s t f g hf hg hst
    exact h.inc_mono s t f g (hleft s f hf).2 (hleft t g hg).2 hst
  · intro s t f g hf hg hst
    rw [hcum]
    rcases h.near_or_same s t f g (hleft s f hf).2 (hleft t g hg).2 hst with hnear | hsame
    · exact Or.inl (by omega)
    · exact Or.inr hsame
  · intro s f hf
    obtain ⟨hks, hold⟩ := hleft s f hf
    rw [hw, hlast, hinc]
    rcases h.bounded s f hold with h₁ | h₂ | ⟨h₃, h₄⟩
    · exact Or.inl h₁
    · exact Or.inr (Or.inl h₂)
    · refine Or.inr (Or.inr ⟨h₃, ?_⟩)
      cases fresh with
      | false => exact h₄
      | true =>
          -- the acknowledged packet is not older than `s`, which contradicts `h₃`
          have hcur : e.snap.incarnation = st.ctl.incarnation := of_decide_eq_true hfresh
          have hmono := h.inc_mono k s e f he hold hks
          omega

/-! ### Updating -/

/-- The gate: it opens only if the packets up to a window behind the last update are
acknowledged. -/
theorem gate_open_acked {now gate_w : ℚ} (hw : 1 ≤ gate_w)
    (hg : gate_open cfg now gate_w st = true) :
    st.ctl.last_update_seq + py_int gate_w ≤ st.cum_acked_seq := by
  unfold gate_open at hg
  rw [Bool.and_eq_true, decide_eq_true_eq] at hg
  have := hg.1
  rwa [max_eq_left hw] at this

/-- When the gate opens, the snapshot of the earliest packet is not above the current
window, or the formula gives no more than the current window anyway. -/
theorem earliest_bounded (h : Snapshots cfg st) {e : Entry Snap}
    (he : st.in_flight.lookup (st.cum_acked_seq + 1) = some e) {now : ℚ}
    (hg : gate_open cfg now e.snap.w_ref st = true) :
    e.snap.w_ref ≤ st.ctl.w_ref ∨ (e.snap.incarnation < st.ctl.incarnation ∧
      st.ctl.target cfg e.snap.w_ref ≤ st.ctl.w_ref) := by
  have hacked := gate_open_acked (h.one_le _ e he) hg
  rcases h.bounded _ e he with h₁ | h₂
  · omega
  · exact h₂

/-- **The bound on one update.** -/
theorem update_le (hv : Valid cfg) (hok : Ok cfg st) (h : Snapshots cfg st)
    (hc : Contig st.toTransport) (clk : AckClock) :
    (HpccV2.maybe_update_window_locked cfg clk st).1.ctl.w_ref
      ≤ max st.ctl.w_ref (st.ctl.w_ref * cfg.eta / st.ctl.u_eff + cfg.w_ai) := by
  unfold HpccV2.maybe_update_window_locked
  rw [update_from_eq hv.eta_pos.ne']
  by_cases hg : gate_open cfg clk.monotonic (HpccV2.earliest_unacked_w_ref st) st = true
  · rw [if_pos hg]
    show st.ctl.target cfg (HpccV2.earliest_unacked_w_ref st) ≤ _
    -- the update starts from `w_ref`, or from the snapshot of the earliest packet
    rcases gate_w_cases hc with ⟨-, hgw⟩ | ⟨e, he, hgw⟩
    · rw [hgw]
      exact target_le hok.one_le_w
    · rw [hgw] at hg ⊢
      -- an older snapshot is at most `w_ref`, or its update lands below it
      rcases earliest_bounded h he hg with hle | ⟨-, hle⟩
      · exact le_trans (target_mono hv.eta_pos hle _) (target_le hok.one_le_w)
      · exact le_trans hle (le_max_left _ _)
  · rw [if_neg hg]
    exact le_max_left _ _

/-- The update keeps the invariant. -/
theorem snapshots_update (hv : Valid cfg) (h : Snapshots cfg st) (hc : Contig st.toTransport)
    (clk : AckClock) : Snapshots cfg (HpccV2.maybe_update_window_locked cfg clk st).1 := by
  unfold HpccV2.maybe_update_window_locked
  rw [update_from_eq hv.eta_pos.ne']
  by_cases hg : gate_open cfg clk.monotonic (HpccV2.earliest_unacked_w_ref st) st = true
  · rw [if_pos hg]
    rcases gate_w_cases hc with ⟨hnone, -⟩ | ⟨e₀, he₀, hgw⟩
    · exact snapshots_of_empty hnone
    · rw [hgw] at hg ⊢
      have hinc : st.ctl.incarnation ≤ (st.ctl.updated st.cum_acked_seq clk.monotonic
          (st.ctl.target cfg e₀.snap.w_ref)).incarnation := by
        unfold Ctl.updated
        dsimp only
        split
        · exact Nat.le_succ _
        · exact le_refl _
      refine ⟨h.one_le, fun s e he => le_trans (h.inc_le s e he) hinc, h.inc_mono,
        h.near_or_same, ?_⟩
      intro s e he
      show s ≤ st.cum_acked_seq + py_int e.snap.w_ref ∨
        e.snap.w_ref ≤ st.ctl.target cfg e₀.snap.w_ref ∨ _
      have hmem := (hc.mem_iff s).mp (mem_iff_lookup.mpr ⟨e, he⟩)
      -- the earliest packet itself, or a later one
      by_cases hs : s = st.cum_acked_seq + 1
      · have := one_le_py_int (h.one_le s e he)
        exact Or.inl (by omega)
      · rcases h.near_or_same _ s e₀ e he₀ he (by omega) with hnear | hsame
        · exact Or.inl hnear
        · -- restamped together with the earliest packet: the formula starts from `e` too
          rw [← hsame]
          by_cases hle : e₀.snap.w_ref ≤ st.ctl.target cfg e₀.snap.w_ref
          · exact Or.inr (Or.inl hle)
          · refine Or.inr (Or.inr ⟨?_, le_refl _⟩)
            rcases earliest_bounded h he₀ hg with hcur | ⟨hold, -⟩
            · have hlt : st.ctl.target cfg e₀.snap.w_ref < st.ctl.w_ref :=
                lt_of_lt_of_le (not_le.mp hle) hcur
              show e₀.snap.incarnation < (if st.ctl.target cfg e₀.snap.w_ref < st.ctl.w_ref
                then st.ctl.incarnation + 1 else st.ctl.incarnation)
              rw [if_pos hlt]
              exact Nat.lt_succ_of_le (h.inc_le _ e₀ he₀)
            · exact lt_of_lt_of_le hold hinc
  · rw [if_neg hg]
    exact h

/-! ### Retransmitting -/

/-- An RTO pass that fires and resends everything stamps every packet with the cut
window. -/
theorem snapshots_rto {now log_us : Us} {calls : ℤ → SendCall}
    (hx : expired st.toTransport now.val cfg.rto_us.val = true) :
    Snapshots cfg
      (rto_checker HpccV2.cls.snapshot rto_cut cfg.rto_us.val now log_us calls st) := by
  have hctl : (rto_checker HpccV2.cls.snapshot rto_cut cfg.rto_us.val now log_us calls st).ctl
      = rto_cut st.ctl := rto_fired_ctl hx
  have hsnap : ∀ k e, (rto_checker HpccV2.cls.snapshot rto_cut cfg.rto_us.val now log_us calls
      st).in_flight.lookup k = some e → e.snap = snapshot (rto_cut st.ctl) := by
    intro k e he
    obtain ⟨-, b, t, l, -, rfl⟩ := rto_fired_entry hx he
    rfl
  -- all the entries carry one snapshot, so what relates two of them holds
  refine ⟨?_, ?_, ?_, ?_, ?_⟩
  · intro s e he
    rw [hsnap s e he]
    exact le_max_left _ _
  · intro s e he
    rw [hsnap s e he, hctl]
    exact le_refl _
  · intro s t e f he hf _
    rw [hsnap s e he, hsnap t f hf]
  · intro s t e f he hf _
    refine Or.inr ?_
    rw [hsnap s e he, hsnap t f hf]
  · intro s e he
    refine Or.inr (Or.inl ?_)
    rw [hsnap s e he, hctl]
    exact le_refl _

/-! ## Runs -/

section

variable {mp : Option ℤ} {n n' : Net HpccV2.cls}

/-- What an ACK of the network does to a lossless v2 sender: nothing, or it acknowledges a
packet in flight. -/
theorem ack_cases (cfg : Config) (h : Lossless n) {data : List Byte} (hd : data ∈ n.acks)
    (clk : AckClock) :
    HpccV2.ack_listener cfg clk data n.proc.self = (n.proc.self, none) ∨
      ∃ k e hops rtt_us, HpccV2.cls.ack_seq data = some k ∧
        n.proc.self.in_flight.lookup k = some e ∧
        HpccV2.ack_listener cfg clk data n.proc.self =
          HpccV2.maybe_update_window_locked cfg clk (before_gate cfg clk k hops rtt_us
            (decide (e.snap.incarnation = n.proc.self.ctl.incarnation)) n.proc.self) := by
  rcases HpccV2.ack_listener_cases cfg clk data n.proc.self with
    heq | ⟨shim, hops, ack, rtt_us, hparse, hstale, heq⟩
  · exact Or.inl heq
  · have hseq : HpccV2.cls.ack_seq data = some ack.ack_seq := by
      show ack_seq data = some ack.ack_seq
      unfold ack_seq
      rw [hparse]
    -- with no number lost, what is neither stale nor in flight does not exist
    have hmem : ack.ack_seq ∈ n.proc.self.in_flight := by
      by_contra hnot
      rw [AList.lookup_eq_none.mpr hnot] at hstale
      exact hnot (h.mem_of_fresh hd hseq (not_le.mp fun hle => hstale ⟨rfl, hle⟩))
    obtain ⟨e, he⟩ := mem_iff_lookup.mp hmem
    refine Or.inr ⟨ack.ack_seq, e, hops, rtt_us, hseq, he, ?_⟩
    rw [heq, he]
    rfl

/-- The invariants of a lossless v2 run. -/
structure Inv (cfg : Config) (n : Net HpccV2.cls) : Prop where
  lossless : Lossless n
  ok : Ok cfg n.proc.self
  snapshots : Snapshots cfg n.proc.self

theorem inv_start (hv : Valid cfg) (monotonic : ℚ) :
    Inv cfg (Net.start HpccV2.cls cfg monotonic) := by
  refine ⟨lossless_start monotonic, ok_init hv monotonic, ?_⟩
  apply snapshots_of_empty
  intro s
  exact AList.lookup_empty s

/-- The controller bounds over the network. -/
theorem net_ok_step (hv : Valid cfg) (h : Ok cfg n.proc.self) {e : NetEvent}
    (hstep : Net.step cfg mp e n = some n') : Ok cfg n'.proc.self := by
  rcases step_cases hstep with ⟨op, p, -, hp, rfl⟩ | ⟨_, _, _, _, _, -, -, -, rfl⟩
  · exact (v2_ok_step hv h hp).1
  · exact h

theorem inv_step (hv : Valid cfg) (h : Inv cfg n) {e : NetEvent}
    (hstep : Net.step cfg mp e n = some n') (hsent : AllSent cfg n e) : Inv cfg n' := by
  refine ⟨lossless_step h.lossless hstep hsent, net_ok_step hv h.ok hstep, ?_⟩
  have hc := h.lossless.contig
  -- with the window in bounds and no number lost, the snapshots follow
  rcases net_self hstep with heq | ⟨call, rfl, hg, heq⟩ | ⟨j, clk, data, -, hj, heq⟩ |
    ⟨now, log_us, calls, rfl, hx, heq⟩
  · rw [heq]
    exact h.snapshots
  · rw [heq]
    exact snapshots_burst_iter h.snapshots h.ok hc hg call
  · rw [heq]
    rcases ack_cases cfg h.lossless (List.mem_of_getElem? hj) clk with
      hsame | ⟨k, e, hops, rtt_us, -, he, hack⟩
    · show Snapshots cfg (HpccV2.ack_listener cfg clk data n.proc.self).1
      rw [hsame]
      exact h.snapshots
    · show Snapshots cfg (HpccV2.ack_listener cfg clk data n.proc.self).1
      rw [hack]
      -- the update looks at the flight without the packets acknowledged
      have hc' : Contig (n.proc.self.toTransport.acked k) :=
        hc.acked (mem_iff_lookup.mpr ⟨e, he⟩)
      exact snapshots_update hv (snapshots_before_gate h.snapshots hc he clk hops rtt_us) hc' clk
  · rw [heq]
    exact snapshots_rto hx

/-- The update does not touch `u_smoothed`. -/
theorem maybe_update_u_eff (hv : Valid cfg) (clk : AckClock) (st : Self) :
    (HpccV2.maybe_update_window_locked cfg clk st).1.ctl.u_smoothed = st.ctl.u_smoothed := by
  unfold HpccV2.maybe_update_window_locked
  rw [update_from_eq hv.eta_pos.ne']
  by_cases hg : gate_open cfg clk.monotonic (HpccV2.earliest_unacked_w_ref st) st = true
  · rw [if_pos hg]
    rfl
  · rw [if_neg hg]

/-- One event raises `w_ref` to at most what the formula gives from the current `w_ref`. -/
theorem w_ref_le_step (hv : Valid cfg) (h : Inv cfg n) {e : NetEvent}
    (hstep : Net.step cfg mp e n = some n') :
    n'.proc.self.ctl.w_ref ≤ max n.proc.self.ctl.w_ref
      (n.proc.self.ctl.w_ref * cfg.eta / n'.proc.self.ctl.u_eff + cfg.w_ai) := by
  rcases net_self hstep with heq | ⟨call, -, -, heq⟩ | ⟨j, clk, data, -, hj, heq⟩ |
    ⟨now, log_us, calls, -, hx, heq⟩
  · rw [heq]
    exact le_max_left _ _
  · rw [heq, ControllerInv.burst_iter_ctl n.proc.self call]
    exact le_max_left _ _
  · rw [heq]
    rcases ack_cases cfg h.lossless (List.mem_of_getElem? hj) clk with
      hsame | ⟨k, e, hops, rtt_us, -, he, hack⟩
    · have hsame' : (HpccV2.cls.ack_listener cfg clk data n.proc.self).1 = n.proc.self :=
        congrArg Prod.fst hsame
      rw [hsame']
      exact le_max_left _ _
    · have hack' : (HpccV2.cls.ack_listener cfg clk data n.proc.self).1 = _ :=
        congrArg Prod.fst hack
      rw [hack']
      have hc := h.lossless.contig
      have hle := update_le hv (ok_before_gate hv h.ok clk k hops rtt_us _)
        (snapshots_before_gate h.snapshots hc he clk hops rtt_us)
        (hc.acked (mem_iff_lookup.mpr ⟨e, he⟩)) clk
      have hu := maybe_update_u_eff hv clk (before_gate cfg clk k hops rtt_us
        (decide (e.snap.incarnation = n.proc.self.ctl.incarnation)) n.proc.self)
      -- up to the gate `w_ref` is the old one
      have hw : (before_gate cfg clk k hops rtt_us
          (decide (e.snap.incarnation = n.proc.self.ctl.incarnation)) n.proc.self).ctl.w_ref
          = n.proc.self.ctl.w_ref := by
        cases decide (e.snap.incarnation = n.proc.self.ctl.incarnation) with
        | false => rfl
        | true => exact (took_fields cfg hops n.proc.self.ctl).2.1
      rw [hw] at hle
      unfold Ctl.u_eff at hle ⊢
      rw [hu]
      exact hle
  · rw [heq]
    refine le_trans ?_ (le_max_left _ _)
    rw [rto_fired_ctl hx]
    refine max_le h.ok.one_le_w ?_
    have := h.ok.one_le_w
    linarith

end

/-- The new `w_ref` of a step is at most what the formula gives from the `w_ref` just
before it. -/
def NotInflated (cfg : Config) (n : Net HpccV2.cls) (_ : NetEvent) (n' : Net HpccV2.cls) : Prop :=
  n'.proc.self.ctl.w_ref ≤ max n.proc.self.ctl.w_ref
    (n.proc.self.ctl.w_ref * cfg.eta / n'.proc.self.ctl.u_eff + cfg.w_ai)

/-- While `u_smoothed` is at least `eta`, a step raises `w_ref` by at most `w_ai`. -/
def RaisedByAI (cfg : Config) (n : Net HpccV2.cls) (_ : NetEvent) (n' : Net HpccV2.cls) : Prop :=
  cfg.eta ≤ n'.proc.self.ctl.u_smoothed →
    n'.proc.self.ctl.w_ref ≤ n.proc.self.ctl.w_ref + cfg.w_ai

/-- **The window is never inflated from an old snapshot.** In every run of a v2 sender
over the lossy network in which the sends succeed, each event leaves `w_ref` at most at
`max(w_ref, w_ref·eta/u_eff + w_ai)`, computed from the `w_ref` just before it; and while
`u_smoothed` is at least `eta`, no event raises it by more than `w_ai`. The numbers are
exact here; in doubles the bound can be missed by a unit in the last place. -/
theorem window_never_inflated (cfg : Config) (hv : Valid cfg) (hai : 0 ≤ cfg.w_ai)
    (mp : Option ℤ) (monotonic : ℚ) (es : List NetEvent)
    (hsent : EachStep (Net.step cfg mp) (fun n e _ => AllSent cfg n e)
      (Net.start HpccV2.cls cfg monotonic) es) :
    EachStep (Net.step cfg mp) (fun n e n' => NotInflated cfg n e n' ∧ RaisedByAI cfg n e n')
      (Net.start HpccV2.cls cfg monotonic) es := by
  refine EachStep.of_invariant (P := Inv cfg)
    (fun e s s' hs hstep hc => inv_step hv hs hstep hc) ?_ (inv_start hv monotonic) hsent
  intro e n n' h hstep _
  have hle := w_ref_le_step hv h hstep
  refine ⟨hle, fun hu => le_trans hle ?_⟩
  have hw : 0 ≤ n.proc.self.ctl.w_ref := le_trans zero_le_one h.ok.one_le_w
  -- at or above the target utilisation the factor is at most 1
  have hueff : cfg.eta ≤ n'.proc.self.ctl.u_eff := le_trans hu (le_max_left _ _)
  refine max_le (by linarith) ?_
  have hdiv : n.proc.self.ctl.w_ref * cfg.eta / n'.proc.self.ctl.u_eff
      ≤ n.proc.self.ctl.w_ref := by
    rw [div_le_iff₀ n'.proc.self.ctl.u_eff_pos]
    exact mul_le_mul_of_nonneg_left hueff hw
  linarith

/-! ## An update from a snapshot above the window -/

/-- A window of 16, halved by an update, for packets that bring no hops back. -/
def halving_config : Config where
  w_init := 16
  w_max := 64
  eta := 1 / 2
  w_ai := 0
  tau_over_T := 1 / 20
  padding := 0
  base_rtt_s := 1 / 1000
  rto_us := exact_rto_us _

/-- A pass of the RTO thread that sends everything again. -/
def pass_at (n : ℕ) : NetEvent :=
  .rto (at_us n) (at_us n) fun _ => sent_at n

/-- Sixteen packets are sent and time out twice, which stamps them all with a window of 4.
The ACK of 3 then opens the gate and halves the window to 2. -/
def restamped : List NetEvent :=
  [.acquire] ++ List.replicate 16 (.send sent_at_zero) ++
    [.release, pass_at 30000, pass_at 60000, .deliver 3 [] 0 zero_us, .deliver 7 [] 0 zero_us,
      .ack 0 { zero_clock with monotonic := 1 }]

/-- The ACK of 7, which opens the gate again. -/
def late_ack : NetEvent := .ack 1 { zero_clock with monotonic := 2 }

/-- The last update starts from the snapshot 4 of packet 8, twice the window, and leaves
the window at 2. -/
theorem window_never_inflated_restamped :
    EachStep (Net.step halving_config none)
      (fun n e n' => NotInflated halving_config n e n' ∧ RaisedByAI halving_config n e n')
      (Net.start HpccV2.cls halving_config 0) (restamped ++ [late_ack]) ∧
    (run (Net.step halving_config none) (Net.start HpccV2.cls halving_config 0) restamped).map
        (fun n => (n.proc.self.ctl.w_ref, n.proc.self.ctl.last_update_seq,
          (n.proc.self.in_flight.lookup 8).map fun e => e.snap.w_ref)) = some (2, 3, some 4) ∧
    (run (Net.step halving_config none) (Net.start HpccV2.cls halving_config 0)
        (restamped ++ [late_ack])).map
        (fun n => (n.proc.self.ctl.w_ref, n.proc.self.ctl.last_update_seq,
          HpccV2.earliest_unacked_w_ref n.proc.self)) = some (2, 7, 4) := by
  refine ⟨window_never_inflated halving_config ?_ (le_refl _) none 0 _ (eachStep_allSent ?_),
    by decide +kernel, by decide +kernel⟩
  · constructor
    all_goals norm_num [halving_config]
  · intro e he
    simp only [restamped, late_ack, pass_at, List.mem_append, List.mem_cons, List.mem_replicate,
      List.not_mem_nil, or_false] at he
    -- the first copies and the two passes are the events that call `sendto`
    rcases he with ((rfl | ⟨-, rfl⟩) | rfl | rfl | rfl | rfl | rfl | rfl) | rfl
    all_goals first | trivial | exact fun _ => rfl

end IntHpcc.V2Window
