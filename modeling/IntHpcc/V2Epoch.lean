/-
HPCC v2 and the congestion epoch.

A packet carries the incarnation it was sent under, and an ACK of an older incarnation is
meant to advance `cum_acked_seq` and nothing else. The stale branch of `_on_ack_locked`
skips the U update, but it still ends in the window update, so a stale ACK can cut the
window once more for the same congestion; and an RTO pass restamps old packets with the
new incarnation, after which their ACKs are no longer stale at all.

This file says when the intended law holds. `stale_inert_iff`: a stale ACK is inert
exactly if it finds the gate shut. `Epoch` is the invariant of the rest of a run after a
cut: the packets numbered before the cut carry incarnations older than the one it began.
It is what a later cut contradicts, and it needs the RTO condition `RtoFresh`.
-/
import IntHpcc.V2Window

set_option autoImplicit false

namespace IntHpcc.V2Epoch

open IntHpcc.Runs IntHpcc.Bytes IntHpcc.Py IntHpcc.PacketFormat IntHpcc.SenderCore
open IntHpcc.SenderWindow IntHpcc.CumAck IntHpcc.Network IntHpcc.LosslessRun
open IntHpcc.Hpcc IntHpcc.ControllerInv.Hpcc IntHpcc.V2Window

/-! ## The law -/

/-- The event is an ACK of packet `k` that the listener processes. -/
def AckOf (n : Net HpccV2.cls) (e : NetEvent) (k : ℤ) : Prop :=
  ∃ j clk data, e = .ack j clk ∧ n.acks[j]? = some data ∧ HpccV2.cls.ack_seq data = some k ∧
    n.proc.self.cum_acked_seq < k

/-- A window update: it moves `last_update_seq`, which nothing else does. -/
def Updates (n : Net HpccV2.cls) (_ : NetEvent) (n' : Net HpccV2.cls) : Prop :=
  n'.proc.self.ctl.last_update_seq ≠ n.proc.self.ctl.last_update_seq

/-- A window update that lowers `w_ref`. -/
def Cuts (n : Net HpccV2.cls) (e : NetEvent) (n' : Net HpccV2.cls) : Prop :=
  Updates n e n' ∧ n'.proc.self.ctl.w_ref < n.proc.self.ctl.w_ref

/-- Between two consecutive updates that both lower `w_ref` (the second one's own ACK
included) an ACK of a packet first sent after the first of them is processed. -/
def OneCutPerEpoch (cfg : Config) (mp : Option ℤ) (n : Net HpccV2.cls)
    (es : List NetEvent) : Prop :=
  ∀ s₁ a s₂ mid s₃ b s₄, Segment (Net.step cfg mp) n es s₁ a s₂ mid s₃ b s₄ →
    Cuts s₁ a s₂ → EachStep (Net.step cfg mp) (fun n e n' => ¬ Updates n e n') s₂ mid →
    Cuts s₃ b s₄ →
    ∃ pre e post t k, mid ++ [b] = pre ++ e :: post ∧ run (Net.step cfg mp) s₂ pre = some t ∧
      AckOf t e k ∧ s₁.proc.self.next_seq ≤ k

/-- The event is an ACK of packet `k`, sent under an older incarnation. -/
def StaleAck (n : Net HpccV2.cls) (e : NetEvent) (clk : AckClock) (k : ℤ) : Prop :=
  ∃ j data entry, e = .ack j clk ∧ n.acks[j]? = some data ∧
    HpccV2.cls.ack_seq data = some k ∧ n.proc.self.in_flight.lookup k = some entry ∧
    entry.snap.incarnation < n.proc.self.ctl.incarnation

/-- A stale ACK leaves the controller alone: it moves `cum_acked_seq` and `in_flight`
only. -/
def StaleInert (n : Net HpccV2.cls) (e : NetEvent) (n' : Net HpccV2.cls) : Prop :=
  ∀ clk k, StaleAck n e clk k → n'.proc.self.ctl = n.proc.self.ctl

/-! ## The condition -/

/-- The window the gate looks at once packet `k` is acknowledged: the snapshot of the next
packet, or `w_ref` if it is not in flight. -/
def gate_w_after (st : Self) (k : ℤ) : ℚ :=
  ((st.in_flight.lookup (k + 1)).map fun e => e.snap.w_ref).getD st.ctl.w_ref

/-- The update gate is shut for an ACK of packet `k`. -/
def GateShut (cfg : Config) (clk : AckClock) (st : Self) (k : ℤ) : Prop :=
  k < st.ctl.last_update_seq + py_int (max (gate_w_after st k) 1) ∨
    clk.monotonic - st.ctl.last_update_time < cfg.base_rtt_s

/-- A stale ACK finds the gate shut. -/
def StaleShut (cfg : Config) (n : Net HpccV2.cls) (e : NetEvent) : Prop :=
  ∀ clk k, StaleAck n e clk k → GateShut cfg clk n.proc.self k

/-- An RTO pass fires only when no packet in flight is of an older incarnation. -/
def RtoFresh (cfg : Config) (n : Net HpccV2.cls) (e : NetEvent) : Prop :=
  ∀ now log_us calls, e = .rto now log_us calls →
    rto_fires HpccV2.cls cfg n.proc.self now = true →
    ∀ s entry, n.proc.self.in_flight.lookup s = some entry →
      ¬ entry.snap.incarnation < n.proc.self.ctl.incarnation

/-! ## One ACK -/

section

variable {cfg : Config} {mp : Option ℤ} {n n' : Net HpccV2.cls} {st : Self}

/-- Before the gate an ACK leaves these fields alone. -/
theorem before_gate_fields (cfg : Config) (clk : AckClock) (k : ℤ) (hops : List IntHop) (rtt_us : ℤ)
    (fresh : Bool) (st : Self) :
    (before_gate cfg clk k hops rtt_us fresh st).ctl.w_ref = st.ctl.w_ref ∧
      (before_gate cfg clk k hops rtt_us fresh st).ctl.incarnation = st.ctl.incarnation ∧
      (before_gate cfg clk k hops rtt_us fresh st).ctl.last_update_seq
        = st.ctl.last_update_seq ∧
      (before_gate cfg clk k hops rtt_us fresh st).ctl.last_update_time
        = st.ctl.last_update_time := by
  cases fresh with
  | false => exact ⟨rfl, rfl, rfl, rfl⟩
  | true =>
      obtain ⟨-, e₂, e₃, e₄, e₅⟩ := took_fields cfg hops st.ctl
      exact ⟨e₂, e₃, e₄, e₅⟩

/-- The gate, in terms of the state before the ACK. -/
theorem gate_open_iff (cfg : Config) (hc : Contig st.toTransport) {k : ℤ} {e : Entry Snap}
    (he : st.in_flight.lookup k = some e) (clk : AckClock) (hops : List IntHop) (rtt_us : ℤ)
    (fresh : Bool) :
    gate_open cfg clk.monotonic
        (HpccV2.earliest_unacked_w_ref (before_gate cfg clk k hops rtt_us fresh st))
        (before_gate cfg clk k hops rtt_us fresh st) = true
      ↔ ¬ GateShut cfg clk st k := by
  have hmem : k ∈ st.in_flight := mem_iff_lookup.mpr ⟨e, he⟩
  have hk : st.cum_acked_seq < k := ((hc.mem_iff k).mp hmem).1
  have hcum : (before_gate cfg clk k hops rtt_us fresh st).cum_acked_seq = k := by
    show (st.toTransport.acked k).cum_acked_seq = k
    rw [acked_cum]
    exact max_eq_right hk.le
  obtain ⟨hw, -, hseq, htime⟩ := before_gate_fields cfg clk k hops rtt_us fresh st
  -- the next packet has the same entry before and after
  have hnext : (before_gate cfg clk k hops rtt_us fresh st).in_flight.lookup (k + 1)
      = st.in_flight.lookup (k + 1) := by
    show (st.toTransport.acked k).in_flight.lookup (k + 1) = _
    rw [lookup_acked, if_neg (by omega)]
  have hgw : HpccV2.earliest_unacked_w_ref (before_gate cfg clk k hops rtt_us fresh st)
      = gate_w_after st k := by
    have hc' : Contig (before_gate cfg clk k hops rtt_us fresh st).toTransport := hc.acked hmem
    unfold gate_w_after
    rcases gate_w_cases hc' with ⟨hnone, hgw⟩ | ⟨e', he', hgw⟩
    · rw [hgw, ← hnext, hnone, hw]
      rfl
    · rw [hcum, hnext] at he'
      rw [hgw, he']
      rfl
  unfold gate_open GateShut
  rw [Bool.and_eq_true, decide_eq_true_eq, decide_eq_true_eq, hgw, hcum, hseq, htime]
  push Not
  exact Iff.rfl

/-- What of a lossless run matters here; it holds for every configuration. -/
structure Base (n : Net HpccV2.cls) : Prop where
  lossless : Lossless n
  last_le : n.proc.self.ctl.last_update_seq ≤ n.proc.self.cum_acked_seq
  inc_le : ∀ s e, n.proc.self.in_flight.lookup s = some e →
    e.snap.incarnation ≤ n.proc.self.ctl.incarnation

theorem base_start (cfg : Config) (monotonic : ℚ) :
    Base (Net.start HpccV2.cls cfg monotonic) := by
  refine ⟨lossless_start monotonic, le_refl _, ?_⟩
  intro s e he
  exact absurd (mem_iff_lookup.mpr ⟨e, he⟩) (AList.notMem_empty s)

/-- What a processed ACK does. The gate is shut and only the average moves, or it is open
and the update is made, or it is open and `eta` is zero: then the update raises. -/
theorem ack_step (h : Base n) {j : ℕ} {clk : AckClock} {data : List Byte}
    (hj : n.acks[j]? = some data)
    (hself : n'.proc.self = (HpccV2.ack_listener cfg clk data n.proc.self).1) :
    n'.proc.self = n.proc.self ∨
      ∃ k e hops rtt_us st, HpccV2.cls.ack_seq data = some k ∧
        n.proc.self.in_flight.lookup k = some e ∧
        st = before_gate cfg clk k hops rtt_us
          (decide (e.snap.incarnation = n.proc.self.ctl.incarnation)) n.proc.self ∧
        (((GateShut cfg clk n.proc.self k ∨ cfg.eta = 0) ∧ n'.proc.self.ctl = st.ctl) ∨
          (¬ GateShut cfg clk n.proc.self k ∧ n'.proc.self.ctl = st.ctl.updated k clk.monotonic
            (st.ctl.target cfg (HpccV2.earliest_unacked_w_ref st)))) ∧
        n'.proc.self.toTransport = n.proc.self.toTransport.acked k := by
  have hc := h.lossless.contig
  rcases ack_cases cfg h.lossless (List.mem_of_getElem? hj) clk with
    hsame | ⟨k, e, hops, rtt_us, hseq, he, hack⟩
  · rw [hsame] at hself
    exact Or.inl hself
  · rw [hack] at hself
    refine Or.inr ⟨k, e, hops, rtt_us, _, hseq, he, rfl, ?_, ?_⟩
    · have hk : n.proc.self.cum_acked_seq < k :=
        h.lossless.cum_lt_of_mem (mem_iff_lookup.mpr ⟨e, he⟩)
      have hgate := gate_open_iff cfg hc he clk hops rtt_us
        (decide (e.snap.incarnation = n.proc.self.ctl.incarnation))
      unfold HpccV2.maybe_update_window_locked at hself
      -- with `eta` at zero the update raises before it changes anything
      by_cases heta : cfg.eta = 0
      · rw [update_from_eta_zero heta] at hself
        refine Or.inl ⟨Or.inr heta, ?_⟩
        rw [hself]
      · rw [update_from_eq heta] at hself
        by_cases hs : GateShut cfg clk n.proc.self k
        · rw [if_neg (fun hg => hgate.mp hg hs)] at hself
          refine Or.inl ⟨Or.inl hs, ?_⟩
          rw [hself]
        · rw [if_pos (hgate.mpr hs)] at hself
          refine Or.inr ⟨hs, ?_⟩
          rw [hself]
          have hcum : (before_gate cfg clk k hops rtt_us (decide (e.snap.incarnation
              = n.proc.self.ctl.incarnation)) n.proc.self).cum_acked_seq = k := by
            show (n.proc.self.toTransport.acked k).cum_acked_seq = k
            rw [acked_cum]
            exact max_eq_right hk.le
          rw [hcum]
          rfl
    · rw [hself]
      exact update_from_toTransport cfg clk _ _

/-- A processed ACK moves `last_update_seq` only up to the packet it acknowledges, and never
lowers the incarnation. -/
theorem ack_fields (h : Base n) {j : ℕ} {clk : AckClock} {data : List Byte}
    (hj : n.acks[j]? = some data)
    (hself : n'.proc.self = (HpccV2.ack_listener cfg clk data n.proc.self).1) :
    n'.proc.self = n.proc.self ∨
      ∃ k, n.proc.self.cum_acked_seq < k ∧
        n'.proc.self.ctl.last_update_seq ≤ k ∧
        n.proc.self.ctl.incarnation ≤ n'.proc.self.ctl.incarnation ∧
        n'.proc.self.toTransport = n.proc.self.toTransport.acked k := by
  rcases ack_step h hj hself with hsame | ⟨k, e, hops, rtt_us, st, -, he, rfl, hctl, ht⟩
  · exact Or.inl hsame
  · obtain ⟨-, hinc, hseq, -⟩ := before_gate_fields cfg clk k hops rtt_us
      (decide (e.snap.incarnation = n.proc.self.ctl.incarnation)) n.proc.self
    have hk : n.proc.self.cum_acked_seq < k :=
      h.lossless.cum_lt_of_mem (mem_iff_lookup.mpr ⟨e, he⟩)
    refine Or.inr ⟨k, hk, ?_, ?_, ht⟩
    · -- shut, the gate leaves the record; open, it moves it to `k`
      rcases hctl with ⟨-, hctl⟩ | ⟨-, hctl⟩
      · rw [hctl, hseq]
        exact le_trans h.last_le hk.le
      · rw [hctl]
        exact le_refl _
    · rcases hctl with ⟨-, hctl⟩ | ⟨-, hctl⟩
      · rw [hctl, hinc]
      · rw [hctl]
        unfold Ctl.updated
        dsimp only
        rw [hinc]
        split
        · exact Nat.le_succ _
        · exact le_refl _

/-- What is left in flight by an acknowledgement was in flight before. -/
theorem lookup_of_acked {k s : ℤ} {f : Entry Snap}
    (ht : n'.proc.self.toTransport = n.proc.self.toTransport.acked k)
    (hf : n'.proc.self.in_flight.lookup s = some f) :
    n.proc.self.in_flight.lookup s = some f := by
  rw [ht] at hf
  exact (lookup_acked_eq_some.mp hf).1

theorem base_step (h : Base n) {e : NetEvent} (hstep : Net.step cfg mp e n = some n')
    (hsent : AllSent cfg n e) : Base n' := by
  have hl := lossless_step h.lossless hstep hsent
  rcases net_self hstep with heq | ⟨call, rfl, -, heq⟩ | ⟨j, clk, data, rfl, hj, heq⟩ |
    ⟨now, log_us, calls, rfl, hx, heq⟩
  · refine ⟨hl, ?_, ?_⟩
    · rw [heq]
      exact h.last_le
    · rw [heq]
      exact h.inc_le
  · have hctl := ControllerInv.burst_iter_ctl n.proc.self call
    have hcum := ControllerInv.burst_iter_cum n.proc.self call
    rw [← heq] at hctl hcum
    refine ⟨hl, ?_, ?_⟩
    · rw [hctl, hcum]
      exact h.last_le
    · intro s f hf
      rw [hctl]
      rw [heq] at hf
      rcases lookup_burst h.lossless.contig hf with ⟨-, hsnap⟩ | ⟨-, hold⟩
      · rw [hsnap]
        exact le_refl _
      · exact h.inc_le s f hold
  · rcases ack_fields h hj heq with hsame | ⟨k, hk, hlast, hinc, ht⟩
    · refine ⟨hl, ?_, ?_⟩
      · rw [hsame]
        exact h.last_le
      · rw [hsame]
        exact h.inc_le
    · refine ⟨hl, ?_, ?_⟩
      · rw [ht, acked_cum]
        exact le_trans hlast (le_max_right _ _)
      · intro s f hf
        exact le_trans (h.inc_le s f (lookup_of_acked ht hf)) hinc
  · have hctl : n'.proc.self.ctl = rto_cut n.proc.self.ctl := by
      rw [heq]
      exact rto_fired_ctl hx
    have hcum : n'.proc.self.cum_acked_seq = n.proc.self.cum_acked_seq := by
      rw [heq]
      exact ControllerInv.rto_fired_cum hx
    refine ⟨hl, ?_, ?_⟩
    · rw [hctl, hcum]
      exact h.last_le
    · intro s f hf
      rw [hctl]
      -- what was sent again carries the incarnation the pass begins
      rw [heq] at hf
      obtain ⟨-, b, t, l, -, rfl⟩ := rto_fired_entry hx hf
      exact le_refl _

/-- **Inertness.** A stale ACK is inert exactly if it finds the gate shut. -/
theorem stale_inert_iff (heta : cfg.eta ≠ 0) (h : Base n) {e : NetEvent}
    (hstep : Net.step cfg mp e n = some n') : StaleInert n e n' ↔ StaleShut cfg n e := by
  -- an ACK event, seen from the state it acts on
  have hack : ∀ clk k, StaleAck n e clk k →
      (GateShut cfg clk n.proc.self k ∧ n'.proc.self.ctl = n.proc.self.ctl) ∨
      (¬ GateShut cfg clk n.proc.self k ∧ n'.proc.self.ctl.last_update_seq = k ∧
        n.proc.self.ctl.last_update_seq < k) := by
    rintro clk k ⟨j, data, entry, rfl, hj, hseq, hlook, hold⟩
    have hlt : n.proc.self.cum_acked_seq < k :=
      h.lossless.cum_lt_of_mem (mem_iff_lookup.mpr ⟨entry, hlook⟩)
    have hlast : n.proc.self.ctl.last_update_seq < k := lt_of_le_of_lt h.last_le hlt
    rcases ack_step h hj (ack_self hj hstep) with
      hsame | ⟨k', e', hops, rtt_us, st, hseq', hlook', rfl, hctl, ht⟩
    · -- the listener took the ACK in: `cum_acked_seq` has moved
      exfalso
      have hcum := ack_cum_acked hj hseq hstep
      rw [hsame, max_eq_right hlt.le] at hcum
      omega
    · rw [hseq, Option.some.injEq] at hseq'
      subst hseq'
      rw [hlook, Option.some.injEq] at hlook'
      subst hlook'
      have hne : ¬ entry.snap.incarnation = n.proc.self.ctl.incarnation := Nat.ne_of_lt hold
      rw [decide_eq_false hne] at hctl
      rcases hctl with ⟨hs, hctl⟩ | ⟨hs, hctl⟩
      · exact Or.inl ⟨hs.resolve_right heta, hctl⟩
      · refine Or.inr ⟨hs, ?_, hlast⟩
        rw [hctl]
        rfl
  constructor
  · intro hin clk k hst
    rcases hack clk k hst with ⟨hs, -⟩ | ⟨-, hmoved, hlast⟩
    · exact hs
    · rw [hin clk k hst] at hmoved
      omega
  · intro hshut clk k hst
    rcases hack clk k hst with ⟨-, hctl⟩ | ⟨hs, -⟩
    · exact hctl
    · exact absurd (hshut clk k hst) hs

/-! ## The epoch after a cut -/

/-- An update is the work of an ACK that finds the gate open. -/
theorem updates_ack (h : Base n) {e : NetEvent}
    (hstep : Net.step cfg mp e n = some n') (hu : Updates n e n') :
    ∃ (j : ℕ) (clk : AckClock) (data : List Byte) (k : ℤ) (entry : Entry Snap) (st : Self),
      e = .ack j clk ∧ n.acks[j]? = some data ∧
      HpccV2.cls.ack_seq data = some k ∧ n.proc.self.in_flight.lookup k = some entry ∧
      ¬ GateShut cfg clk n.proc.self k ∧
      st.ctl.w_ref = n.proc.self.ctl.w_ref ∧
      st.ctl.incarnation = n.proc.self.ctl.incarnation ∧
      n'.proc.self.ctl = st.ctl.updated k clk.monotonic
        (st.ctl.target cfg (HpccV2.earliest_unacked_w_ref st)) ∧
      n'.proc.self.toTransport = n.proc.self.toTransport.acked k := by
  -- only the update moves `last_update_seq`, and only the listener runs it
  rcases net_self hstep with heq | ⟨call, -, -, heq⟩ | ⟨j, clk, data, rfl, hj, heq⟩ |
    ⟨now, log_us, calls, -, hx, heq⟩
  · refine absurd ?_ hu
    rw [heq]
  · refine absurd ?_ hu
    rw [heq, ControllerInv.burst_iter_ctl n.proc.self call]
  · rcases ack_step h hj heq with
      hsame | ⟨k, entry, hops, rtt_us, st, hseq, hlook, rfl, hctl, ht⟩
    · refine absurd ?_ hu
      rw [hsame]
    · have hbefore := before_gate_fields cfg clk k hops rtt_us
        (decide (entry.snap.incarnation = n.proc.self.ctl.incarnation)) n.proc.self
      rcases hctl with ⟨-, hctl⟩ | ⟨hs, hctl⟩
      · refine absurd ?_ hu
        rw [hctl]
        exact hbefore.2.2.1
      · exact ⟨j, clk, data, k, entry, _, rfl, hj, hseq, hlook, hs, hbefore.1, hbefore.2.1, hctl, ht⟩
  · refine absurd ?_ hu
    rw [heq, rto_fired_ctl hx]
    rfl

/-- The rest of a run after a cut: packets numbered before `cut` carry incarnations older
than `inc`, and the current one is not older. -/
structure Epoch (cut : ℤ) (inc : ℕ) (n : Net HpccV2.cls) : Prop where
  base : Base n
  inc_le : inc ≤ n.proc.self.ctl.incarnation
  cut_le : cut ≤ n.proc.self.next_seq
  old : ∀ s e, n.proc.self.in_flight.lookup s = some e → s < cut → e.snap.incarnation < inc

/-- A cut begins an epoch. -/
theorem epoch_start (h : Base n) {e : NetEvent}
    (hstep : Net.step cfg mp e n = some n') (hsent : AllSent cfg n e) (hcut : Cuts n e n') :
    Epoch n.proc.self.next_seq (n.proc.self.ctl.incarnation + 1) n' := by
  obtain ⟨j, clk, data, k, entry, st, -, -, -, -, -, hw, hinc, hctl, ht⟩ :=
    updates_ack h hstep hcut.1
  have hlower := hcut.2
  have hinc' : n'.proc.self.ctl.incarnation = n.proc.self.ctl.incarnation + 1 := by
    rw [hctl] at hlower ⊢
    -- the window went down, so the target was below `w_ref` and the incarnation went up
    have hlt : st.ctl.target cfg (HpccV2.earliest_unacked_w_ref st) < st.ctl.w_ref := by
      rw [hw]
      exact hlower
    show (if st.ctl.target cfg (HpccV2.earliest_unacked_w_ref st) < st.ctl.w_ref
      then st.ctl.incarnation + 1 else st.ctl.incarnation) = _
    rw [if_pos hlt, hinc]
  refine ⟨base_step h hstep hsent, hinc'.ge, ?_, ?_⟩
  · rw [ht, acked_next]
  · intro s f hf _
    exact Nat.lt_succ_of_le (h.inc_le s f (lookup_of_acked ht hf))

/-- An epoch lasts as long as no RTO restamps an old packet. -/
theorem epoch_step {cut : ℤ} {inc : ℕ} (h : Epoch cut inc n)
    {e : NetEvent} (hstep : Net.step cfg mp e n = some n') (hsent : AllSent cfg n e)
    (hrto : RtoFresh cfg n e) : Epoch cut inc n' := by
  have hbase := base_step h.base hstep hsent
  rcases net_self hstep with heq | ⟨call, rfl, -, heq⟩ | ⟨j, clk, data, rfl, hj, heq⟩ |
    ⟨now, log_us, calls, rfl, hx, heq⟩
  · refine ⟨hbase, ?_, ?_, ?_⟩
    · rw [heq]
      exact h.inc_le
    · rw [heq]
      exact h.cut_le
    · rw [heq]
      exact h.old
  · -- the new packet is numbered from `cut` on
    have hcut := h.cut_le
    refine ⟨hbase, ?_, ?_, ?_⟩
    · rw [heq, ControllerInv.burst_iter_ctl n.proc.self call]
      exact h.inc_le
    · rw [heq, burst_iter_next]
      omega
    · intro s f hf hs
      rw [heq] at hf
      rcases lookup_burst h.base.lossless.contig hf with ⟨rfl, -⟩ | ⟨-, hold⟩
      · omega
      · exact h.old s f hold hs
  · rcases ack_fields h.base hj heq with hsame | ⟨k, -, -, hinc, ht⟩
    · refine ⟨hbase, ?_, ?_, ?_⟩
      · rw [hsame]
        exact h.inc_le
      · rw [hsame]
        exact h.cut_le
      · rw [hsame]
        exact h.old
    · refine ⟨hbase, le_trans h.inc_le hinc, ?_, ?_⟩
      · rw [ht, acked_next]
        exact h.cut_le
      · intro s f hf hs
        exact h.old s f (lookup_of_acked ht hf) hs
  · -- a packet numbered before `cut` would be stale, and the pass would not fire
    refine ⟨hbase, ?_, ?_, ?_⟩
    · rw [heq, rto_fired_ctl hx]
      exact le_trans h.inc_le (Nat.le_succ _)
    · rw [heq, rto_checker_fired hx, resend_all_next]
      exact h.cut_le
    · intro s f hf hs
      exfalso
      rw [heq] at hf
      obtain ⟨g, hg⟩ := mem_iff_lookup.mp (rto_fired_entry hx hf).1
      exact hrto now log_us calls rfl hx s g hg (lt_of_lt_of_le (h.old s g hg hs) h.inc_le)

/-- Within an epoch the next cut is made by an ACK of a packet numbered from `cut` on. -/
theorem epoch_cut {cut : ℤ} {inc : ℕ} (h : Epoch cut inc n)
    {e : NetEvent} (hstep : Net.step cfg mp e n = some n') (hshut : StaleShut cfg n e)
    (hcut : Cuts n e n') : ∃ k, AckOf n e k ∧ cut ≤ k := by
  obtain ⟨j, clk, data, k, entry, st, rfl, hj, hseq, hlook, hopen, -, -, -, -⟩ :=
    updates_ack h.base hstep hcut.1
  refine ⟨k, ⟨j, clk, data, rfl, hj, hseq,
    h.base.lossless.cum_lt_of_mem (mem_iff_lookup.mpr ⟨entry, hlook⟩)⟩, ?_⟩
  -- an ACK of an older packet is stale, and would find the gate shut
  by_contra hlt
  have hold := h.old k entry hlook (not_le.mp hlt)
  exact hopen (hshut clk k ⟨j, data, entry, rfl, hj, hseq, hlook, lt_of_lt_of_le hold h.inc_le⟩)

end

/-- **One cut per epoch, when stale ACKs find the gate shut.** In a run of a v2 sender
over the lossy network in which the sends succeed: stale ACKs are inert exactly if each of
them finds the gate shut (or `eta` is zero, and the update raises); and if so, and if no
RTO pass fires while a packet of an older incarnation is in flight, then between two cuts
an ACK of a packet first sent after the first of them is processed. -/
theorem one_cut_per_epoch (cfg : Config) (mp : Option ℤ) (monotonic : ℚ)
    (es : List NetEvent)
    (hsent : EachStep (Net.step cfg mp) (fun n e _ => AllSent cfg n e)
      (Net.start HpccV2.cls cfg monotonic) es) :
    (cfg.eta ≠ 0 →
      (EachStep (Net.step cfg mp) StaleInert (Net.start HpccV2.cls cfg monotonic) es ↔
        EachStep (Net.step cfg mp) (fun n e _ => StaleShut cfg n e)
          (Net.start HpccV2.cls cfg monotonic) es)) ∧
    (EachStep (Net.step cfg mp) (fun n e _ => StaleShut cfg n e ∧ RtoFresh cfg n e)
        (Net.start HpccV2.cls cfg monotonic) es →
      OneCutPerEpoch cfg mp (Net.start HpccV2.cls cfg monotonic) es) := by
  have hstart := base_start cfg monotonic
  have hkeep : ∀ e (s s' : Net HpccV2.cls), Base s → Net.step cfg mp e s = some s' →
      AllSent cfg s e → Base s' := fun e s s' hs hstep hc => base_step hs hstep hc
  constructor
  · intro heta
    constructor
    · intro h
      exact EachStep.of_invariant (fun e s s' hs hstep hc => hkeep e s s' hs hstep hc.1)
        (fun e s s' hs hstep hc => (stale_inert_iff heta hs hstep).mp hc.2) hstart (hsent.and h)
    · intro h
      exact EachStep.of_invariant (fun e s s' hs hstep hc => hkeep e s s' hs hstep hc.1)
        (fun e s s' hs hstep hc => (stale_inert_iff heta hs hstep).mpr hc.2) hstart (hsent.and h)
  · intro h s₁ a s₂ mid s₃ b s₄ hseg hcut₁ _ hcut₂
    have hall := hsent.and h
    have hs₁ : Base s₁ := hseg.each_before hsent hstart hkeep
    obtain ⟨ha, hmid, hb⟩ := hseg.each hall
    -- the first cut opens the epoch, and the run up to the second stays in it
    have hepoch : Epoch s₁.proc.self.next_seq (s₁.proc.self.ctl.incarnation + 1) s₃ :=
      run_invariant_of_each
        (fun e s s' hs hstep hc => epoch_step hs hstep hc.1 hc.2.2)
        (epoch_start hs₁ hseg.first ha.1 hcut₁) hmid hseg.between
    obtain ⟨k, hack, hk⟩ := epoch_cut hepoch hseg.second hb.2.1 hcut₂
    exact ⟨mid, b, [], s₃, k, rfl, hseg.between, hack, hk⟩

/-! ## A run with two cuts in one epoch -/

def two_cuts_config : Config where
  w_init := 4
  w_max := 64
  eta := 1 / 2
  w_ai := 0
  tau_over_T := 0
  padding := 0
  base_rtt_s := 1 / 1000
  rto_us := exact_rto_us _

/-- Packets 0 to 3 are sent, 1 is acknowledged, 4 and 5 are sent. -/
def before_cuts : List NetEvent :=
  [.acquire, .send sent_at_zero, .send sent_at_zero, .send sent_at_zero, .send sent_at_zero,
    .release, .deliver 1 [] 0 zero_us, .ack 0 { zero_clock with monotonic := 1 },
    .acquire, .send sent_at_zero, .send sent_at_zero, .release, .deliver 3 [] 0 zero_us,
    .deliver 5 [] 0 zero_us]

/-- The ACK of packet 3 makes the first cut, that of packet 5 the second. -/
def first_cut : NetEvent := .ack 1 { zero_clock with monotonic := 2 }

def second_cut : NetEvent := .ack 2 { zero_clock with monotonic := 3 }

/-- What the three states show: `w_ref`, `last_update_seq`, `next_seq`. -/
def shown (n : Net HpccV2.cls) : ℚ × ℤ × ℤ :=
  (n.proc.self.ctl.w_ref, n.proc.self.ctl.last_update_seq, n.proc.self.next_seq)

theorem two_cuts_states :
    (run (Net.step two_cuts_config none) (Net.start HpccV2.cls two_cuts_config 0)
        before_cuts).map shown = some (4, -1, 6) ∧
    (run (Net.step two_cuts_config none) (Net.start HpccV2.cls two_cuts_config 0)
        (before_cuts ++ [first_cut])).map (fun n => (shown n,
          (n.acks[2]?).map HpccV2.cls.ack_seq)) = some ((2, 3, 6), some (some 5)) ∧
    (run (Net.step two_cuts_config none) (Net.start HpccV2.cls two_cuts_config 0)
        (before_cuts ++ [first_cut] ++ [second_cut])).map shown = some (1, 5, 6) := by
  decide +kernel

/-- The run with its three states. -/
theorem two_cuts_run : ∃ s₁ s₂ s₄ : Net HpccV2.cls,
    Segment (Net.step two_cuts_config none) (Net.start HpccV2.cls two_cuts_config 0)
      (before_cuts ++ [first_cut] ++ [second_cut]) s₁ first_cut s₂ [] s₂ second_cut s₄ ∧
    shown s₁ = (4, -1, 6) ∧ shown s₂ = (2, 3, 6) ∧ shown s₄ = (1, 5, 6) ∧
    (s₂.acks[2]?).map HpccV2.cls.ack_seq = some (some 5) := by
  obtain ⟨h₁, h₂, h₃⟩ := two_cuts_states
  obtain ⟨s₁, hrun₁, hs₁⟩ := Option.map_eq_some_iff.mp h₁
  obtain ⟨s₂, hrun₂, hs₂⟩ := Option.map_eq_some_iff.mp h₂
  obtain ⟨s₄, hrun₄, hs₄⟩ := Option.map_eq_some_iff.mp h₃
  rw [Prod.mk.injEq] at hs₂
  exact ⟨s₁, s₂, s₄, Segment.of_runs hrun₁ hrun₂ hrun₄, hs₁, hs₂.1, hs₄, hs₂.2⟩

theorem two_cuts_sent :
    EachStep (Net.step two_cuts_config none) (fun n e _ => AllSent two_cuts_config n e)
      (Net.start HpccV2.cls two_cuts_config 0) (before_cuts ++ [first_cut] ++ [second_cut]) := by
  apply eachStep_allSent
  simp only [before_cuts, first_cut, second_cut, List.cons_append, List.nil_append,
    List.forall_mem_cons, NetEvent.Sent, sent_at_zero, SendCall.sent, List.not_mem_nil,
    false_imp_iff, implies_true, and_self]

/-- The second cut is made by packet 5, which was sent before the first. -/
theorem two_cuts_break_law :
    ¬ OneCutPerEpoch two_cuts_config none (Net.start HpccV2.cls two_cuts_config 0)
      (before_cuts ++ [first_cut] ++ [second_cut]) := by
  intro h
  obtain ⟨s₁, s₂, s₄, hseg, h₁, h₂, h₄, hack⟩ := two_cuts_run
  simp only [shown, Prod.mk.injEq] at h₁ h₂ h₄
  have hcut₁ : Cuts s₁ first_cut s₂ := by
    unfold Cuts Updates
    rw [h₁.1, h₁.2.1, h₂.1, h₂.2.1]
    norm_num
  have hcut₂ : Cuts s₂ second_cut s₄ := by
    unfold Cuts Updates
    rw [h₂.1, h₂.2.1, h₄.1, h₄.2.1]
    norm_num
  obtain ⟨pre, e, post, t, k, hsplit, hrun, ⟨j, clk, data, rfl, hj, hseq, -⟩, hk⟩ :=
    h s₁ first_cut s₂ [] s₂ second_cut s₄ hseg hcut₁ eachStep_nil hcut₂
  -- the only event between the cuts is the second ACK itself
  rw [List.nil_append, List.singleton_eq_append_iff] at hsplit
  rcases hsplit with ⟨rfl, hev⟩ | ⟨-, hev⟩
  · rw [List.cons.injEq] at hev
    rw [run_nil, Option.some.injEq] at hrun
    subst hrun
    have hj2 : j = 2 := (NetEvent.ack.inj hev.1).1
    subst hj2
    rw [hj, Option.map_some, hseq] at hack
    have hk5 : k = 5 := by simpa using hack
    omega
  · cases hev

theorem one_cut_per_epoch_fails :
    ¬ ∀ (cfg : Config) (mp : Option ℤ) (monotonic : ℚ) (es : List NetEvent),
      EachStep (Net.step cfg mp) (fun n e _ => AllSent cfg n e)
        (Net.start HpccV2.cls cfg monotonic) es →
      OneCutPerEpoch cfg mp (Net.start HpccV2.cls cfg monotonic) es :=
  fun h => two_cuts_break_law (h two_cuts_config none 0 _ two_cuts_sent)

theorem one_cut_per_epoch_two_cuts :
    ¬ EachStep (Net.step two_cuts_config none)
      (fun n e _ => StaleShut two_cuts_config n e ∧ RtoFresh two_cuts_config n e)
      (Net.start HpccV2.cls two_cuts_config 0) (before_cuts ++ [first_cut] ++ [second_cut]) := by
  intro hcond
  exact two_cuts_break_law ((one_cut_per_epoch two_cuts_config none 0 _ two_cuts_sent).2 hcond)

end IntHpcc.V2Epoch
