/-
`extensions/hpcc_v2/hpcc_sender_v2.py`: HPCC with the window snapshot of the earliest
unacknowledged packet.

Three things differ from `Hpcc.lean`: the listener looks up the incarnation the
acknowledged packet was sent under, an ACK of another incarnation leaves `u_smoothed`
and `hop_last` alone, and the update gate and formula use the `w_ref` snapshot of the
earliest packet in flight.
-/
import IntHpcc.Hpcc

set_option autoImplicit false

namespace IntHpcc.HpccV2

open IntHpcc.Bytes IntHpcc.Py IntHpcc.PacketFormat IntHpcc.SenderCore IntHpcc.Hpcc

/-- `min(self.in_flight)`. -/
def earliest (st : Self) : Option ℤ := st.in_flight.keys.min?

/-- `_earliest_unacked_w_ref`. -/
def earliest_unacked_w_ref (st : Self) : ℚ :=
  match earliest st with
  | none => st.ctl.w_ref
  | some s => ((st.in_flight.lookup s).map fun e => e.snap.w_ref).getD st.ctl.w_ref

/-- `_maybe_update_window_locked`. -/
def maybe_update_window_locked (cfg : Config) (clk : AckClock) (st : Self) :
    Self × Option PyError := update_from cfg clk (earliest_unacked_w_ref st) st

/-- `_on_ack_locked`. -/
def on_ack_locked (cfg : Config) (clk : AckClock) (ack_seq : ℤ) (hops : List IntHop)
    (rtt_us : ℤ) (incarnation_at_send : ℕ) (st : Self) : Self × Option PyError :=
  let st : Self := { st with toTransport := st.toTransport.acked ack_seq }
  if incarnation_at_send = st.ctl.incarnation then
    apply_u cfg clk ack_seq hops rtt_us (maybe_update_window_locked cfg clk) st
  else
    maybe_update_window_locked cfg clk
      (st.log_event clk.log_us .ack_stale ack_seq rtt_us hops.length)

/-- `inc_snap` of `_ack_listener`. -/
def inc_snap (entry : Option (Entry Snap)) (st : Self) : ℕ :=
  (entry.map fun e => e.snap.incarnation).getD st.ctl.incarnation

/-- `_ack_listener`. -/
def ack_listener (cfg : Config) (clk : AckClock) : List Byte → Self → Self × Option PyError :=
  listen fun ack hops entry st =>
    on_ack_locked cfg clk ack.ack_seq hops (ack_rtt clk.now_us entry) (inc_snap entry st) st

/-! ## The class -/

theorem on_ack_toTransport (cfg : Config) (clk : AckClock) (ack_seq : ℤ) (hops : List IntHop)
    (rtt_us : ℤ) (inc : ℕ) (st : Self) :
    (on_ack_locked cfg clk ack_seq hops rtt_us inc st).1.toTransport
      = st.toTransport.acked ack_seq := by
  have hu : ∀ st', (maybe_update_window_locked cfg clk st').1.toTransport = st'.toTransport :=
    fun st' => update_from_toTransport cfg clk _ st'
  unfold on_ack_locked
  dsimp only
  by_cases hi : inc = st.ctl.incarnation
  · rw [if_pos hi]
    exact apply_u_toTransport cfg clk ack_seq hops rtt_us hu _
  · rw [if_neg hi]
    exact hu _

theorem on_ack_eq (cfg : Config) (clk : AckClock) (ack_seq : ℤ) (hops : List IntHop)
    (rtt_us : ℤ) (inc : ℕ) (st : Self) :
    on_ack_locked cfg clk ack_seq hops rtt_us inc st = maybe_update_window_locked cfg clk
      (before_gate cfg clk ack_seq hops rtt_us (decide (inc = st.ctl.incarnation)) st) := by
  unfold on_ack_locked
  dsimp only
  by_cases hi : inc = st.ctl.incarnation
  · rw [if_pos hi, apply_u_eq, decide_eq_true hi]
    rfl
  · rw [if_neg hi, decide_eq_false hi]
    rfl

/-- What one datagram does to an `HpccSenderV2`: its hops count only if the packet was
sent under the current incarnation. -/
theorem ack_listener_cases (cfg : Config) (clk : AckClock) (data : List Byte) (st : Self) :
    ack_listener cfg clk data st = (st, none) ∨
      ∃ shim hops ack rtt_us, parse_ack (data.take RECV_BUF) = .ok (some (shim, hops, ack)) ∧
        ¬ (st.in_flight.lookup ack.ack_seq = none ∧ ack.ack_seq ≤ st.cum_acked_seq) ∧
        ack_listener cfg clk data st = maybe_update_window_locked cfg clk
          (before_gate cfg clk ack.ack_seq hops rtt_us
            (decide (inc_snap (st.in_flight.lookup ack.ack_seq) st = st.ctl.incarnation)) st) := by
  rcases listen_cases (fun ack hops entry st =>
    on_ack_locked cfg clk ack.ack_seq hops (ack_rtt clk.now_us entry) (inc_snap entry st) st)
    data st with h | ⟨shim, hops, ack, hp, hs, h⟩
  · exact Or.inl h
  · refine Or.inr ⟨shim, hops, ack, ack_rtt clk.now_us (st.in_flight.lookup ack.ack_seq), hp, hs, ?_⟩
    rw [← on_ack_eq]
    exact h

theorem ack_listener_toTransport (cfg : Config) (clk : AckClock) (data : List Byte) (st : Self) :
    (ack_listener cfg clk data st).1.toTransport
      = (ack_seq data).elim st.toTransport st.toTransport.acked :=
  listen_toTransport (fun _ _ _ st => on_ack_toTransport cfg clk _ _ _ _ st) data st

/-- `HpccSenderV2`. -/
abbrev cls : SenderClass where
  Config := Config
  Snap := Snap
  Ctl := Ctl
  init := init
  padding := Config.padding
  rto_us cfg := cfg.rto_us.val
  w := Ctl.w
  snapshot := snapshot
  rto_cut := rto_cut
  ack_seq := ack_seq
  ack_listener := ack_listener
  le_rto_us := le_rto_us
  ack_transport := ack_listener_toTransport
  reads_ack := ack_seq_pack

end IntHpcc.HpccV2
