/-
`extensions/hpcc_v2/hpcc_sender_v2.py` in the doubles it computes with.

`HpccV2.lean` takes the source's `float`s for exact numbers. Here they are `Float`, Lean's
binary64, and every operation of `_compute_u`, the EWMA, the gate and the update formula
rounds as the source's does. What is not arithmetic is shared with the exact model: the
packets, `in_flight`, the listener, the threads and the network.

The bound of `V2Window.lean` does not survive the rounding. The formula divides by a
quotient, the bound divides a product, and at `u_eff = 0.137` and `eta = 0.95` the first
comes out one unit in the last place above the second (`window_never_inflated_fails`).
-/
import IntHpcc.HpccV2
import IntHpcc.LosslessRun

set_option autoImplicit false

namespace IntHpcc.V2Double

open IntHpcc.Runs IntHpcc.Bytes IntHpcc.Py IntHpcc.PacketFormat IntHpcc.SenderCore
open IntHpcc.Network IntHpcc.LosslessRun

/-! ## Doubles -/

/-- The number a double stands for; infinities and NaN stand for none and give 0. -/
def val (x : Float) : ℚ :=
  match x.toModel.unpack with
  | .finite sign mantissa exponent _ => sign.apply (mantissa : ℤ) * 2 ^ exponent
  | _ => 0

/-- The double nearest to `q`, which is `q` itself when `q` is the reading of a clock. -/
def nearest (q : ℚ) : Float := Float.ofInt q.num / Float.ofNat q.den

/-- `x / y`, which raises `ZeroDivisionError` on a zero divisor. -/
def py_div (x y : Float) : Except PyError Float :=
  if y == 0 then .error .zero_division else .ok (x / y)

/-- `max(x, y)` and `min(x, y)` return `x` unless `y` is beyond it. -/
def py_max (x y : Float) : Float := if x < y then y else x

def py_min (x y : Float) : Float := if y < x then y else x

/-- The timeout of a base RTT of 9 ms is a microsecond short of the exact product. -/
example : (3.0 * 0.009 * 1000000 : Float).toUInt64 = 26999 := by decide +kernel

/-! ## The object -/

/-- `DEFAULT_W_MIN`. -/
def w_min : Float := 1.0

/-- The constructor arguments the sender works with. -/
structure Config where
  w_init : ℤ
  w_max : ℤ
  eta : Float
  w_ai : Float
  tau_over_T : Float
  padding : ℕ
  base_rtt_s : Float
  rto_us : RtoUs (rto_seconds (val base_rtt_s))

/-- `(w_ref_at_send, inc_at_send)`. -/
structure Snap where
  w_ref : Float
  incarnation : ℕ

/-- The controller's fields. -/
structure Ctl where
  w : Float
  w_ref : Float
  incarnation : ℕ
  u_smoothed : Float
  hop_last : Hpcc.HopLast
  last_update_seq : ℤ
  last_update_time : Float

abbrev Self := Sender Snap Ctl

/-- `__init__`. -/
def init (cfg : Config) (monotonic : ℚ) : Ctl where
  w := Float.ofInt cfg.w_init
  w_ref := Float.ofInt cfg.w_init
  incarnation := 0
  u_smoothed := 1.0
  hop_last := fun _ => none
  last_update_seq := -1
  last_update_time := nearest monotonic

/-- What `_send_locked` stores with a packet. -/
def snapshot (c : Ctl) : Snap := ⟨c.w_ref, c.incarnation⟩

/-! ## `_compute_u` -/

/-- The body of the loop after `last` has been read and replaced. -/
def hop_sample (base_rtt_s : Float) (hop : IntHop) :
    Option (ℤ × ℤ) → Except PyError (Option Float)
  | none => .ok none
  | some (last_ts, last_bytes) => do
    let dt := hop.egress_tstamp_us - last_ts
    if dt ≤ 0 then
      return none
    let db := hop.tx_byte_count - last_bytes
    if db < 0 then
      return none
    let tx_rate ← py_div (Float.ofInt db * 8.0 * 1000000.0) (Float.ofInt dt)
    let b_bytes ← py_div (Float.ofInt hop.link_bps * base_rtt_s) 8.0
    if b_bytes ≤ 0 then
      return none
    let q_bytes := hop.qdepth * Hpcc.QDEPTH_PKT_BYTES
    let q ← py_div (Float.ofInt q_bytes) b_bytes
    let r ← py_div tx_rate (Float.ofInt hop.link_bps)
    return some (q + r)

/-- `_compute_u`: the loop over the hops, with `u_max` so far. -/
def compute_u (base_rtt_s : Float) :
    List IntHop → Hpcc.HopLast → Float → Hpcc.HopLast × Except PyError Float
  | [], hop_last, u_max => (hop_last, .ok u_max)
  | hop :: hops, hop_last, u_max =>
    if hop.link_bps = 0 then compute_u base_rtt_s hops hop_last u_max
    else
      let last := hop_last (Hpcc.hop_key hop)
      let hop_last := Function.update hop_last (Hpcc.hop_key hop) (some (Hpcc.hop_record hop))
      match hop_sample base_rtt_s hop last with
      | .error e => (hop_last, .error e)
      | .ok none => compute_u base_rtt_s hops hop_last u_max
      | .ok (some u_i) => compute_u base_rtt_s hops hop_last (if u_i > u_max then u_i else u_max)

/-- The EWMA of `_on_ack_locked`. -/
def Ctl.smoothed (tau_over_T u : Float) (c : Ctl) : Ctl :=
  if u > 0 then { c with u_smoothed := (1.0 - tau_over_T) * c.u_smoothed + tau_over_T * u }
  else c

/-! ## The update -/

/-- `_earliest_unacked_w_ref`. -/
def earliest_unacked_w_ref (st : Self) : Float :=
  match st.in_flight.keys.min? with
  | none => st.ctl.w_ref
  | some s => ((st.in_flight.lookup s).map fun e => e.snap.w_ref).getD st.ctl.w_ref

/-- `u_eff`. -/
def Ctl.u_eff (c : Ctl) : Float := py_max c.u_smoothed 1e-3

/-- `w_new` for the window `gate_w`. -/
def Ctl.w_new (cfg : Config) (gate_w : Float) (c : Ctl) : Except PyError Float := do
  let d ← py_div c.u_eff cfg.eta
  let q ← py_div gate_w d
  return py_max w_min (py_min (Float.ofInt cfg.w_max) (q + cfg.w_ai))

/-- The gate. -/
def gate_open (cfg : Config) (now gate_w : Float) (st : Self) : Bool :=
  !(decide (st.cum_acked_seq < st.ctl.last_update_seq + py_int (val (py_max gate_w 1))) ||
    decide (now - st.ctl.last_update_time < cfg.base_rtt_s))

/-- The controller after the new window `w` has been put in force. -/
def Ctl.updated (cum_acked_seq : ℤ) (now w : Float) (c : Ctl) : Ctl :=
  { c with
    w := w
    w_ref := w
    incarnation := if w < c.w_ref then c.incarnation + 1 else c.incarnation
    last_update_seq := cum_acked_seq
    last_update_time := now }

/-- `_maybe_update_window_locked`. -/
def maybe_update_window_locked (cfg : Config) (clk : AckClock) (st : Self) :
    Self × Option PyError :=
  let now := nearest clk.monotonic
  let gate_w := earliest_unacked_w_ref st
  if gate_open cfg now gate_w st then
    match st.ctl.w_new cfg gate_w with
    | .error e => (st, some e)
    | .ok w =>
      ({ st with ctl := st.ctl.updated st.cum_acked_seq now w }.log_event clk.update_log_us
        .update (-1) 0 0, none)
  else (st, none)

/-! ## The listener -/

/-- `_on_ack_locked`. -/
def on_ack_locked (cfg : Config) (clk : AckClock) (ack_seq : ℤ) (hops : List IntHop)
    (rtt_us : ℤ) (incarnation_at_send : ℕ) (st : Self) : Self × Option PyError :=
  let st : Self := { st with toTransport := st.toTransport.acked ack_seq }
  if incarnation_at_send = st.ctl.incarnation then
    let (hop_last, u) := compute_u cfg.base_rtt_s hops st.ctl.hop_last 0
    let st : Self := { st with ctl := { st.ctl with hop_last := hop_last } }
    match u with
    | .error e => (st, some e)
    | .ok u =>
      let st : Self := { st with ctl := st.ctl.smoothed cfg.tau_over_T u }
      maybe_update_window_locked cfg clk
        (st.log_event clk.log_us .ack ack_seq rtt_us hops.length)
  else
    maybe_update_window_locked cfg clk
      (st.log_event clk.log_us .ack_stale ack_seq rtt_us hops.length)

/-- `_ack_listener`. -/
def ack_listener (cfg : Config) (clk : AckClock) : List Byte → Self → Self × Option PyError :=
  Hpcc.listen fun ack hops entry st =>
    on_ack_locked cfg clk ack.ack_seq hops (Hpcc.ack_rtt clk.now_us entry)
      ((entry.map fun e => e.snap.incarnation).getD st.ctl.incarnation) st

/-- The window cut of `_rto_checker`. -/
def rto_cut (c : Ctl) : Ctl :=
  { c with
    w_ref := py_max w_min (c.w_ref / 2)
    w := py_max w_min (c.w_ref / 2)
    incarnation := c.incarnation + 1 }

/-! ## The class -/

theorem maybe_update_toTransport (cfg : Config) (clk : AckClock) (st : Self) :
    (maybe_update_window_locked cfg clk st).1.toTransport = st.toTransport := by
  unfold maybe_update_window_locked
  dsimp only
  by_cases hg : gate_open cfg (nearest clk.monotonic) (earliest_unacked_w_ref st) st = true
  · rw [if_pos hg]
    cases st.ctl.w_new cfg (earliest_unacked_w_ref st) with
    | error e => rfl
    | ok w => rfl
  · rw [if_neg hg]

theorem on_ack_toTransport (cfg : Config) (clk : AckClock) (ack_seq : ℤ) (hops : List IntHop)
    (rtt_us : ℤ) (inc : ℕ) (st : Self) :
    (on_ack_locked cfg clk ack_seq hops rtt_us inc st).1.toTransport
      = st.toTransport.acked ack_seq := by
  unfold on_ack_locked
  dsimp only
  by_cases hi : inc = st.ctl.incarnation
  · rw [if_pos hi]
    rcases compute_u cfg.base_rtt_s hops st.ctl.hop_last 0 with ⟨hop_last, u⟩
    cases u with
    | error e => rfl
    | ok u => exact maybe_update_toTransport cfg clk _
  · rw [if_neg hi]
    exact maybe_update_toTransport cfg clk _

theorem ack_listener_toTransport (cfg : Config) (clk : AckClock) (data : List Byte) (st : Self) :
    (ack_listener cfg clk data st).1.toTransport
      = (Hpcc.ack_seq data).elim st.toTransport st.toTransport.acked :=
  Hpcc.listen_toTransport (fun _ _ _ st => on_ack_toTransport cfg clk _ _ _ _ st) data st

/-- `HpccSenderV2`, in doubles. -/
abbrev cls : SenderClass where
  Config := Config
  Snap := Snap
  Ctl := Ctl
  init := init
  padding := Config.padding
  rto_us cfg := cfg.rto_us.val
  w c := val c.w
  snapshot := snapshot
  rto_cut := rto_cut
  ack_seq := Hpcc.ack_seq
  ack_listener := ack_listener
  le_rto_us cfg := cfg.rto_us.min_le
  ack_transport := ack_listener_toTransport
  reads_ack := Hpcc.ack_seq_pack

/-! ## The bound fails by a unit in the last place -/

/-- The range of arguments that the exact bound covers. -/
structure Valid (cfg : Config) : Prop where
  w_init : 1 ≤ cfg.w_init
  w_init_le : cfg.w_init ≤ cfg.w_max
  eta_pos : 0 < cfg.eta
  w_ai_nonneg : 0 ≤ cfg.w_ai
  tau_nonneg : 0 ≤ cfg.tau_over_T
  tau_le : cfg.tau_over_T ≤ 1

/-- The new `w_ref` of a step is at most what the formula gives from the `w_ref` just
before it, for the numbers the doubles stand for. -/
def NotInflated (cfg : Config) (n : Net cls) (_ : NetEvent) (n' : Net cls) : Prop :=
  val n'.proc.self.ctl.w_ref ≤ max (val n.proc.self.ctl.w_ref)
    (val n.proc.self.ctl.w_ref * val cfg.eta / val n'.proc.self.ctl.u_eff + val cfg.w_ai)

/-- The same with the bound computed in doubles. -/
def NotInflatedDouble (cfg : Config) (n : Net cls) (_ : NetEvent) (n' : Net cls) : Prop :=
  n'.proc.self.ctl.w_ref ≤ py_max n.proc.self.ctl.w_ref
    (n.proc.self.ctl.w_ref * cfg.eta / n'.proc.self.ctl.u_eff + cfg.w_ai)

/-- A base RTT of 1 ms, no additive increase and no smoothing. -/
def config : Config where
  w_init := 8
  w_max := 64
  eta := 0.95
  w_ai := 0
  tau_over_T := 1
  padding := 0
  base_rtt_s := 0.001
  rto_us := exact_rto_us _

/-- What a 1 Mbps port reports at `s` seconds with `bytes` on its counter. -/
def reading (s bytes : ℤ) : IntHop where
  switch_id := 1
  ingress_port := 1
  egress_port := 2
  qdepth := 0
  egress_tstamp_us := s * 1000000
  tx_byte_count := bytes
  link_bps := 1000000

/-- A window of eight packets is sent, and 3 is acknowledged. -/
def before_update : List NetEvent :=
  [.acquire] ++ List.replicate 8 (.send sent_at_zero) ++
    [.release, .deliver 3 [reading 1 0] 0 zero_us, .deliver 7 [reading 2 17125] 0 zero_us,
      .ack 0 { zero_clock with monotonic := 1 }]

/-- The ACK of 7 a second later: the port was busy 13.7 % of the time. -/
def update : NetEvent := .ack 1 { zero_clock with monotonic := 2 }

theorem config_valid : Valid config := by
  refine ⟨by decide, by decide, ?_, ?_, ?_, ?_⟩
  all_goals decide +kernel

/-- The window before the ACK of 7 and after it; the EWMA is that port's 0.137. -/
theorem update_states :
    (run (Net.step config none) (Net.start cls config 0) before_update).map
        (fun n => n.proc.self.ctl.w_ref) = some 8 ∧
    (run (Net.step config none) (Net.start cls config 0) (before_update ++ [update])).map
        (fun n => (n.proc.self.ctl.w_ref, n.proc.self.ctl.u_eff))
      = some (8 / (0.137 / 0.95), 0.137) := by
  decide +kernel

theorem update_sent :
    EachStep (Net.step config none) (fun n e _ => AllSent config n e)
      (Net.start cls config 0) (before_update ++ [update]) := by
  refine eachStep_allSent fun e he => ?_
  simp only [before_update, update, List.mem_append, List.mem_cons, List.mem_replicate,
    List.not_mem_nil, or_false] at he
  -- only the eight `sendto`s could fail
  rcases he with ((rfl | ⟨-, rfl⟩) | rfl | rfl | rfl | rfl) | rfl
  all_goals trivial

/-- What holds of every step of a run holds of the update. -/
theorem of_eachStep {P : Net cls → NetEvent → Net cls → Prop}
    (h : EachStep (Net.step config none) P (Net.start cls config 0) (before_update ++ [update])) :
    ∃ n n', P n update n' ∧ n.proc.self.ctl.w_ref = 8 ∧
      n'.proc.self.ctl.w_ref = 8 / (0.137 / 0.95) ∧ n'.proc.self.ctl.u_eff = 0.137 := by
  obtain ⟨h₁, h₂⟩ := update_states
  obtain ⟨n, hrun, hw⟩ := Option.map_eq_some_iff.mp h₁
  obtain ⟨n', hrun', hw'⟩ := Option.map_eq_some_iff.mp h₂
  rw [Prod.mk.injEq] at hw'
  obtain ⟨n₁, hrun₁, hlast⟩ := (run_append_eq_some _).mp hrun'
  obtain ⟨n₂, hstep, hnil⟩ := (run_cons_eq_some _).mp hlast
  -- the run is a function, so its two stops are these two states
  obtain rfl : n₁ = n := Option.some.inj (hrun₁.symm.trans hrun)
  obtain rfl : n₂ = n' := Option.some.inj hnil
  exact ⟨n₁, n₂, h before_update update [] n₁ n₂ rfl hrun hstep, hw, hw'⟩

/-- In doubles neither reading of the bound holds: the update from 8 gives
`8 / (0.137 / 0.95)`, which exceeds `8 * 0.95 / 0.137`, exact or computed. -/
theorem window_never_inflated_fails :
    (¬ ∀ (cfg : Config) (mp : Option ℤ) (monotonic : ℚ) (es : List NetEvent), Valid cfg →
      EachStep (Net.step cfg mp) (fun n e _ => AllSent cfg n e) (Net.start cls cfg monotonic) es →
        EachStep (Net.step cfg mp) (NotInflated cfg) (Net.start cls cfg monotonic) es) ∧
    ¬ ∀ (cfg : Config) (mp : Option ℤ) (monotonic : ℚ) (es : List NetEvent), Valid cfg →
      EachStep (Net.step cfg mp) (fun n e _ => AllSent cfg n e) (Net.start cls cfg monotonic) es →
        EachStep (Net.step cfg mp) (NotInflatedDouble cfg) (Net.start cls cfg monotonic) es := by
  constructor
  · -- over the rationals, by one ulp
    intro h
    obtain ⟨n, n', hle, hw, hw', hu⟩ :=
      of_eachStep (h config none 0 _ config_valid update_sent)
    unfold NotInflated at hle
    rw [hw, hw', hu] at hle
    exact absurd hle (by decide +kernel)
  · -- and in the arithmetic of the code itself
    intro h
    obtain ⟨n, n', hle, hw, hw', hu⟩ :=
      of_eachStep (h config none 0 _ config_valid update_sent)
    unfold NotInflatedDouble at hle
    rw [hw, hw', hu] at hle
    exact absurd hle (by decide +kernel)

end IntHpcc.V2Double
