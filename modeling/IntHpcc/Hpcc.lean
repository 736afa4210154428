/-
`sender/hpcc_sender.py`: the INT-driven controller.

`HpccSender` and `HpccSenderV2` have the same fields, the same `_parse_ack`, the same
`_compute_u` and, but for the window it starts from, the same update formula. These are
written once, here, and `HpccV2.lean` adds what v2 does differently.

Every division of the source is a `py_div`, so a zero divisor would show up as the
exception it is.
-/
import IntHpcc.SenderCore

set_option autoImplicit false

namespace IntHpcc.Hpcc

open IntHpcc.Bytes IntHpcc.Py IntHpcc.PacketFormat IntHpcc.SenderCore

/-- `DEFAULT_W_MIN`. -/
def w_min : ℚ := 1

/-- `_QDEPTH_PKT_BYTES`. -/
def QDEPTH_PKT_BYTES : ℤ := 1500

/-- The constructor arguments the sender works with. -/
structure Config where
  w_init : ℤ
  w_max : ℤ
  eta : ℚ
  w_ai : ℚ
  tau_over_T : ℚ
  padding : ℕ
  base_rtt_s : ℚ
  rto_us : RtoUs (rto_seconds base_rtt_s)

/-- The arguments `main` passes when none is given, for a measured base RTT. -/
def defaults (base_rtt_s : ℚ) : Config where
  w_init := 8
  w_max := 64
  eta := 99 / 100
  w_ai := 3
  tau_over_T := 1 / 20
  padding := 1400
  base_rtt_s := base_rtt_s
  rto_us := exact_rto_us base_rtt_s

/-- What a send stores: `(w_ref_at_send, inc_at_send)`. -/
structure Snap where
  w_ref : ℚ
  incarnation : ℕ
  deriving DecidableEq

/-- `hop_last`: the last time stamp and byte counter of each (switch, port). -/
abbrev HopLast := ℤ × ℤ → Option (ℤ × ℤ)

/-- The controller's fields. -/
structure Ctl where
  w : ℚ
  w_ref : ℚ
  incarnation : ℕ
  u_smoothed : ℚ
  hop_last : HopLast
  last_update_seq : ℤ
  last_update_time : ℚ

abbrev Self := Sender Snap Ctl

/-- `__init__`; `monotonic` is the reading of `time.monotonic()`. -/
def init (cfg : Config) (monotonic : ℚ) : Ctl where
  w := cfg.w_init
  w_ref := cfg.w_init
  incarnation := 0
  u_smoothed := 1
  hop_last := fun _ => none
  last_update_seq := -1
  last_update_time := monotonic

/-- What `_send_locked` stores with a packet. -/
def snapshot (c : Ctl) : Snap := ⟨c.w_ref, c.incarnation⟩

/-! ## `_compute_u` -/

/-- The key of a hop in `hop_last`, and the value stored under it. -/
def hop_key (hop : IntHop) : ℤ × ℤ := (hop.switch_id, hop.egress_port)

def hop_record (hop : IntHop) : ℤ × ℤ := (hop.egress_tstamp_us, hop.tx_byte_count)

/-- The `u_i` of one hop, if it gives a sample: the body of the loop after `last` has
been read and replaced. -/
def hop_sample (base_rtt_s : ℚ) (hop : IntHop) : Option (ℤ × ℤ) → Except PyError (Option ℚ)
  | none => .ok none
  | some (last_ts, last_bytes) => do
    let dt_us := hop.egress_tstamp_us - last_ts
    if dt_us ≤ 0 then
      return none
    let dbytes := hop.tx_byte_count - last_bytes
    -- a counter reset between runs
    if dbytes < 0 then
      return none
    let tx_rate_bps ← py_div (dbytes * 8 * 1000000) dt_us
    let b_bytes ← py_div (hop.link_bps * base_rtt_s) 8
    if b_bytes ≤ 0 then
      return none
    let qdepth_bytes := hop.qdepth * QDEPTH_PKT_BYTES
    let q ← py_div qdepth_bytes b_bytes
    let r ← py_div tx_rate_bps hop.link_bps
    return some (q + r)

/-- `_compute_u`: the loop over the hops, with `u_max` so far. `hop_last` has been
updated up to the point where an exception left the loop. -/
def compute_u (base_rtt_s : ℚ) : List IntHop → HopLast → ℚ → HopLast × Except PyError ℚ
  | [], hop_last, u_max => (hop_last, .ok u_max)
  | hop :: hops, hop_last, u_max =>
    if hop.link_bps = 0 then compute_u base_rtt_s hops hop_last u_max
    else
      let last := hop_last (hop_key hop)
      let hop_last := Function.update hop_last (hop_key hop) (some (hop_record hop))
      match hop_sample base_rtt_s hop last with
      | .error e => (hop_last, .error e)
      | .ok none => compute_u base_rtt_s hops hop_last u_max
      | .ok (some u_i) => compute_u base_rtt_s hops hop_last (if u_i > u_max then u_i else u_max)

/-- The EWMA of `_on_ack_locked`. -/
def Ctl.smoothed (tau_over_T u : ℚ) (c : Ctl) : Ctl :=
  if u > 0 then { c with u_smoothed := (1 - tau_over_T) * c.u_smoothed + tau_over_T * u } else c

/-! ## The update -/

/-- `u_eff`. -/
def Ctl.u_eff (c : Ctl) : ℚ := max c.u_smoothed (1 / 1000)

/-- `w_new` for the window `gate_w`. -/
def Ctl.w_new (cfg : Config) (gate_w : ℚ) (c : Ctl) : Except PyError ℚ := do
  let d ← py_div c.u_eff cfg.eta
  let q ← py_div gate_w d
  return max w_min (min cfg.w_max (q + cfg.w_ai))

/-- The gate: `int(max(gate_w, 1))` packets acknowledged since the last update, and
`base_rtt_s` gone by. -/
def gate_open (cfg : Config) (now gate_w : ℚ) (st : Self) : Bool :=
  decide (st.ctl.last_update_seq + py_int (max gate_w 1) ≤ st.cum_acked_seq) &&
    decide (cfg.base_rtt_s ≤ now - st.ctl.last_update_time)

/-- The controller after the new window `w` has been put in force. -/
def Ctl.updated (cum_acked_seq : ℤ) (now w : ℚ) (c : Ctl) : Ctl :=
  { c with
    w := w
    w_ref := w
    incarnation := if w < c.w_ref then c.incarnation + 1 else c.incarnation
    last_update_seq := cum_acked_seq
    last_update_time := now }

/-- `_maybe_update_window_locked` from the window `gate_w`, which gates the update and
enters the formula. -/
def update_from (cfg : Config) (clk : AckClock) (gate_w : ℚ) (st : Self) :
    Self × Option PyError :=
  let now := clk.monotonic
  if gate_open cfg now gate_w st then
    match st.ctl.w_new cfg gate_w with
    | .error e => (st, some e)
    | .ok w =>
      ({ st with ctl := st.ctl.updated st.cum_acked_seq now w }.log_event clk.update_log_us
        .update (-1) 0 0, none)
  else (st, none)

/-- `HpccSender._maybe_update_window_locked`: from `self.w_ref`. -/
def maybe_update_window_locked (cfg : Config) (clk : AckClock) (st : Self) :
    Self × Option PyError := update_from cfg clk st.ctl.w_ref st

/-! ## The listener -/

/-- The U half of `_on_ack_locked`, then the log row, then the gate `update`. -/
def apply_u (cfg : Config) (clk : AckClock) (ack_seq : ℤ) (hops : List IntHop) (rtt_us : ℤ)
    (update : Self → Self × Option PyError) (st : Self) : Self × Option PyError :=
  let (hop_last, u) := compute_u cfg.base_rtt_s hops st.ctl.hop_last 0
  let st : Self := { st with ctl := { st.ctl with hop_last := hop_last } }
  match u with
  | .error e => (st, some e)
  | .ok u =>
    let st : Self := { st with ctl := st.ctl.smoothed cfg.tau_over_T u }
    update (st.log_event clk.log_us .ack ack_seq rtt_us hops.length)

/-- `HpccSender._on_ack_locked`. -/
def on_ack_locked (cfg : Config) (clk : AckClock) (ack_seq : ℤ) (hops : List IntHop)
    (rtt_us : ℤ) (st : Self) : Self × Option PyError :=
  let st : Self := { st with toTransport := st.toTransport.acked ack_seq }
  apply_u cfg clk ack_seq hops rtt_us (maybe_update_window_locked cfg clk) st

/-- `_parse_ack`. -/
def parse_ack (data : List Byte) : Except PyError (Option (Shim × List IntHop × AckPayload)) := do
  if data.length < SHIM_SIZE then
    return none
  let shim ← Shim.unpack data
  let n := shim.hop_count.toNat
  if n > 8 ∨ data.length < SHIM_SIZE + n * INT_HOP_SIZE + ACK_PAYLOAD_SIZE then
    return none
  let hops ← unpack_hops data n SHIM_SIZE
  let ack ← AckPayload.unpack (slice data (SHIM_SIZE + n * INT_HOP_SIZE) ACK_PAYLOAD_SIZE)
  return some (shim, hops, ack)

/-- `sock.recvfrom(4096)`. -/
def RECV_BUF : ℕ := 4096

/-- `rtt_us` of `_ack_listener`. -/
def ack_rtt {S : Type} (now_us : Us) (entry : Option (Entry S)) : ℤ :=
  let send_ts := (entry.map Entry.send_ts_us).getD 0
  if send_ts ≠ 0 then now_us.val - send_ts else 0

/-- One datagram, as both `_ack_listener`s handle it; `locked` is the class's
`_on_ack_locked`, which v2 also hands the packet's incarnation. The controller is left to
`locked`. -/
def listen {S C : Type}
    (locked : AckPayload → List IntHop → Option (Entry S) → Sender S C →
      Sender S C × Option PyError)
    (data : List Byte) (st : Sender S C) : Sender S C × Option PyError :=
  match parse_ack (data.take RECV_BUF) with
  | .error e => (st, some e)
  | .ok none => (st, none)
  | .ok (some (_, hops, ack)) =>
    let entry := st.in_flight.lookup ack.ack_seq
    -- a late duplicate
    if entry = none ∧ ack.ack_seq ≤ st.cum_acked_seq then (st, none)
    else locked ack hops entry st

/-- `HpccSender._ack_listener`. -/
def ack_listener (cfg : Config) (clk : AckClock) : List Byte → Self → Self × Option PyError :=
  listen fun ack hops entry st =>
    on_ack_locked cfg clk ack.ack_seq hops (ack_rtt clk.now_us entry) st

/-- The sequence number of a datagram `_ack_listener` accepts. -/
def ack_seq (data : List Byte) : Option ℤ :=
  match parse_ack (data.take RECV_BUF) with
  | .ok (some (_, _, ack)) => some ack.ack_seq
  | _ => none

/-- The window cut of `_rto_checker`. -/
def rto_cut (c : Ctl) : Ctl :=
  { c with
    w_ref := max w_min (c.w_ref / 2)
    w := max w_min (c.w_ref / 2)
    incarnation := c.incarnation + 1 }

/-! ## The class -/

@[simp] theorem update_from_toTransport (cfg : Config) (clk : AckClock) (gate_w : ℚ) (st : Self) :
    (update_from cfg clk gate_w st).1.toTransport = st.toTransport := by
  unfold update_from
  dsimp only
  by_cases hg : gate_open cfg clk.monotonic gate_w st
  · rw [if_pos hg]
    cases st.ctl.w_new cfg gate_w with
    | error e => rfl
    | ok w => rfl
  · rw [if_neg hg]

theorem apply_u_toTransport (cfg : Config) (clk : AckClock) (ack_seq : ℤ) (hops : List IntHop)
    (rtt_us : ℤ) {update : Self → Self × Option PyError}
    (hu : ∀ st, (update st).1.toTransport = st.toTransport) (st : Self) :
    (apply_u cfg clk ack_seq hops rtt_us update st).1.toTransport = st.toTransport := by
  unfold apply_u
  obtain ⟨hop_last, u⟩ := compute_u cfg.base_rtt_s hops st.ctl.hop_last 0
  cases u with
  | error e => rfl
  | ok u => exact hu _

theorem on_ack_toTransport (cfg : Config) (clk : AckClock) (ack_seq : ℤ) (hops : List IntHop)
    (rtt_us : ℤ) (st : Self) :
    (on_ack_locked cfg clk ack_seq hops rtt_us st).1.toTransport
      = st.toTransport.acked ack_seq := by
  have hu : ∀ st', (maybe_update_window_locked cfg clk st').1.toTransport = st'.toTransport :=
    fun st' => update_from_toTransport cfg clk _ st'
  unfold on_ack_locked
  exact apply_u_toTransport cfg clk ack_seq hops rtt_us hu _

/-- A listener whose locked part acknowledges what the datagram carries. -/
theorem listen_toTransport {S C : Type}
    {locked : AckPayload → List IntHop → Option (Entry S) → Sender S C →
      Sender S C × Option PyError}
    (hl : ∀ ack hops entry st,
      (locked ack hops entry st).1.toTransport = st.toTransport.acked ack.ack_seq)
    (data : List Byte) (st : Sender S C) :
    (listen locked data st).1.toTransport
      = (ack_seq data).elim st.toTransport st.toTransport.acked := by
  unfold listen ack_seq
  cases parse_ack (data.take RECV_BUF) with
  | error e => rfl
  | ok r =>
      cases r with
      | none => rfl
      | some r =>
          obtain ⟨shim, hops, ack⟩ := r
          dsimp only
          by_cases hs : st.in_flight.lookup ack.ack_seq = none ∧ ack.ack_seq ≤ st.cum_acked_seq
          · -- a stale duplicate is dropped: acknowledging it again would change nothing
            rw [if_pos hs]
            exact (acked_of_le hs.2).symm
          · rw [if_neg hs]
            exact hl ack hops _ st

/-- A packed ACK packet is accepted, and read as what was packed. -/
theorem parse_ack_pack {a : AckPacket} {data : List Byte} (h : a.pack = .ok data) :
    parse_ack data = .ok (some
      ({ a.shim with hop_count := a.hops.length, max_hops := MAX_HOPS }, a.hops, a.payload)) := by
  obtain ⟨hmax, hlen, hshim, hhops, hpay⟩ := AckPacket.pack_layout h
  simp only [SHIM_SIZE, INT_HOP_SIZE, ACK_PAYLOAD_SIZE, MAX_HOPS] at hmax hlen
  have g₁ : ¬ data.length < SHIM_SIZE := by
    simp only [SHIM_SIZE]
    omega
  have g₂ : ¬ (a.hops.length > 8 ∨
      data.length < SHIM_SIZE + a.hops.length * INT_HOP_SIZE + ACK_PAYLOAD_SIZE) := by
    simp only [SHIM_SIZE, INT_HOP_SIZE, ACK_PAYLOAD_SIZE]
    omega
  unfold parse_ack
  simp only [if_neg g₁, hshim, ok_bind, Int.toNat_natCast, if_neg g₂, hhops, hpay]
  rfl

/-- A packed ACK fits the receive buffer. -/
theorem take_pack {a : AckPacket} {data : List Byte} (h : a.pack = .ok data) :
    data.take RECV_BUF = data := by
  obtain ⟨hmax, hlen, -⟩ := AckPacket.pack_layout h
  simp only [SHIM_SIZE, INT_HOP_SIZE, ACK_PAYLOAD_SIZE, MAX_HOPS] at hmax hlen
  apply List.take_of_length_le
  simp only [RECV_BUF]
  omega

theorem ack_seq_pack {a : AckPacket} {data : List Byte} (h : a.pack = .ok data) :
    ack_seq data = some a.payload.ack_seq := by
  unfold ack_seq
  rw [take_pack h, parse_ack_pack h]

/-! ## Nothing raises

With `eta` not zero no exception of the source can happen: the guards before each
division leave a divisor that is not zero, and a datagram is parsed only when it is long
enough. -/

/-- `_parse_ack` does not raise. -/
theorem parse_ack_ok (data : List Byte) : ∃ r, parse_ack data = .ok r := by
  unfold parse_ack
  by_cases g₁ : data.length < SHIM_SIZE
  · rw [if_pos g₁]
    exact ⟨_, rfl⟩
  · rw [if_neg g₁]
    simp only [Shim.unpack_of_length (Nat.le_of_not_lt g₁), ok_bind]
    by_cases g₂ : (Shim.of_bytes data).hop_count.toNat > 8 ∨ data.length <
        SHIM_SIZE + (Shim.of_bytes data).hop_count.toNat * INT_HOP_SIZE + ACK_PAYLOAD_SIZE
    · rw [if_pos g₂]
      exact ⟨_, rfl⟩
    · rw [if_neg g₂]
      -- past the guards every `unpack_from` has its bytes
      have hlen : SHIM_SIZE + (Shim.of_bytes data).hop_count.toNat * INT_HOP_SIZE
          + ACK_PAYLOAD_SIZE ≤ data.length := by omega
      have hroom : SHIM_SIZE + (Shim.of_bytes data).hop_count.toNat * INT_HOP_SIZE
          ≤ data.length := by omega
      obtain ⟨hops, hhops, -⟩ := unpack_hops_of_length hroom
      obtain ⟨ack, hack⟩ := AckPayload.unpack_of_length (slice_length hlen).ge
      simp only [hhops, hack, ok_bind]
      exact ⟨_, rfl⟩

/-- The queueing term of a hop. -/
def queue_term (base_rtt_s : ℚ) (hop : IntHop) : ℚ :=
  hop.qdepth * 1500 * 8 / (hop.link_bps * base_rtt_s)

/-- `tx_rate_bps` of a hop against the sample `last`. -/
def tx_rate_bps (hop : IntHop) (last : ℤ × ℤ) : ℚ :=
  ((hop.tx_byte_count - last.2 : ℤ) : ℚ) * 8 * 1000000
    / ((hop.egress_tstamp_us - last.1 : ℤ) : ℚ)

/-- `u_i`. -/
def u_term (base_rtt_s : ℚ) (m : IntHop × (ℤ × ℤ)) : ℚ :=
  queue_term base_rtt_s m.1 + tx_rate_bps m.1 m.2 / m.1.link_bps

/-- The pair passes the guards of the loop. -/
def Counts (base_rtt_s : ℚ) (hop : IntHop) (last : ℤ × ℤ) : Prop :=
  last.1 < hop.egress_tstamp_us ∧ last.2 ≤ hop.tx_byte_count ∧
    0 < hop.link_bps * base_rtt_s / 8

instance (base_rtt_s : ℚ) (hop : IntHop) (last : ℤ × ℤ) : Decidable (Counts base_rtt_s hop last) :=
  inferInstanceAs (Decidable (_ ∧ _ ∧ _))

/-- The body of the loop: no exception, and a term exactly for the pairs that count. -/
theorem hop_sample_eq (base_rtt_s : ℚ) {hop : IntHop} (h : hop.link_bps ≠ 0) (last : ℤ × ℤ) :
    hop_sample base_rtt_s hop (some last) = .ok
      (if Counts base_rtt_s hop last then some (u_term base_rtt_s (hop, last)) else none) := by
  obtain ⟨last_ts, last_bytes⟩ := last
  unfold hop_sample
  dsimp only
  by_cases hdt : hop.egress_tstamp_us - last_ts ≤ 0
  · rw [if_pos hdt, if_neg fun hc => by have := hc.1; omega]
    rfl
  · rw [if_neg hdt]
    by_cases hdb : hop.tx_byte_count - last_bytes < 0
    · rw [if_pos hdb, if_neg fun hc => by have := hc.2.1; omega]
      rfl
    · rw [if_neg hdb]
      have hdt' : ((hop.egress_tstamp_us - last_ts : ℤ) : ℚ) ≠ 0 := by
        exact_mod_cast (by omega : hop.egress_tstamp_us - last_ts ≠ 0)
      have hlink : (hop.link_bps : ℚ) ≠ 0 := by exact_mod_cast h
      simp only [py_div_of_ne _ hdt', py_div_of_ne _ (by norm_num : (8 : ℚ) ≠ 0), ok_bind]
      by_cases hb : (hop.link_bps : ℚ) * base_rtt_s / 8 ≤ 0
      · rw [if_pos hb, if_neg fun hc => absurd hc.2.2 (not_lt.mpr hb)]
        rfl
      · have hb' : (hop.link_bps : ℚ) * base_rtt_s / 8 ≠ 0 := fun h0 => hb h0.le
        have hcounts : Counts base_rtt_s hop (last_ts, last_bytes) :=
          ⟨by show last_ts < _; omega, by show last_bytes ≤ _; omega, not_le.mp hb⟩
        rw [if_neg hb, if_pos hcounts]
        simp only [py_div_of_ne _ hb', py_div_of_ne _ hlink, ok_bind]
        -- the source divides by an eighth of what the queueing term divides by
        have hq : ((hop.qdepth * QDEPTH_PKT_BYTES : ℤ) : ℚ) / (hop.link_bps * base_rtt_s / 8)
            = queue_term base_rtt_s hop := by
          unfold queue_term QDEPTH_PKT_BYTES
          push_cast
          rw [div_div_eq_mul_div]
        rw [hq]
        rfl

/-- A hop with a link speed gives a sample or none. -/
theorem hop_sample_ok (base_rtt_s : ℚ) {hop : IntHop} (h : hop.link_bps ≠ 0)
    (last : Option (ℤ × ℤ)) : ∃ r, hop_sample base_rtt_s hop last = .ok r := by
  cases last with
  | none => exact ⟨none, rfl⟩
  | some last => exact ⟨_, hop_sample_eq base_rtt_s h last⟩

/-- `_compute_u` returns. -/
theorem compute_u_ok (base_rtt_s : ℚ) (hops : List IntHop) (hop_last : HopLast) (u_max : ℚ) :
    ∃ u, (compute_u base_rtt_s hops hop_last u_max).2 = .ok u := by
  induction hops generalizing hop_last u_max with
  | nil => exact ⟨u_max, rfl⟩
  | cons hop hops ih =>
      unfold compute_u
      by_cases hl : hop.link_bps = 0
      · rw [if_pos hl]
        exact ih hop_last u_max
      · rw [if_neg hl]
        obtain ⟨r, hr⟩ := hop_sample_ok base_rtt_s hl (hop_last (hop_key hop))
        dsimp only
        rw [hr]
        cases r with
        | none => exact ih _ _
        | some u_i => exact ih _ _

/-- The window the update formula gives. -/
def Ctl.target (cfg : Config) (gate_w : ℚ) (c : Ctl) : ℚ :=
  max w_min (min cfg.w_max (gate_w / (c.u_eff / cfg.eta) + cfg.w_ai))

theorem Ctl.u_eff_pos (c : Ctl) : 0 < c.u_eff :=
  lt_of_lt_of_le (by norm_num : (0 : ℚ) < 1 / 1000) (le_max_right _ _)

theorem w_new_eq {cfg : Config} (h : cfg.eta ≠ 0) (gate_w : ℚ) (c : Ctl) :
    c.w_new cfg gate_w = .ok (c.target cfg gate_w) := by
  have hd : c.u_eff / cfg.eta ≠ 0 := div_ne_zero c.u_eff_pos.ne' h
  unfold Ctl.w_new
  simp only [py_div_of_ne _ h, py_div_of_ne _ hd, ok_bind]
  rfl

/-- What `_maybe_update_window_locked` does. -/
theorem update_from_eq {cfg : Config} (h : cfg.eta ≠ 0) (clk : AckClock) (gate_w : ℚ)
    (st : Self) :
    update_from cfg clk gate_w st =
      (if gate_open cfg clk.monotonic gate_w st then
        { st with
          ctl := st.ctl.updated st.cum_acked_seq clk.monotonic
            (st.ctl.target cfg gate_w) }.log_event clk.update_log_us .update (-1) 0 0
      else st, none) := by
  unfold update_from
  dsimp only
  rw [w_new_eq h]
  by_cases hg : gate_open cfg clk.monotonic gate_w st
  · rw [if_pos hg, if_pos hg]
  · rw [if_neg hg, if_neg hg]

/-- With `eta` zero the update raises before it has changed anything. -/
theorem update_from_eta_zero {cfg : Config} (h : cfg.eta = 0) (clk : AckClock) (gate_w : ℚ)
    (st : Self) : (update_from cfg clk gate_w st).1 = st := by
  have hw : st.ctl.w_new cfg gate_w = .error .zero_division := by
    unfold Ctl.w_new py_div
    rw [if_pos h]
    rfl
  unfold update_from
  dsimp only
  by_cases hg : gate_open cfg clk.monotonic gate_w st
  · rw [if_pos hg, hw]
  · rw [if_neg hg]

/-- The controller once the hops of an ACK have been taken in, and the utilisation they
give. -/
def Ctl.took (cfg : Config) (hops : List IntHop) (c : Ctl) : Ctl :=
  let r := compute_u cfg.base_rtt_s hops c.hop_last 0
  { c with hop_last := r.1 }.smoothed cfg.tau_over_T (r.2.toOption.getD 0)

/-- What the U half of `_on_ack_locked` does before the gate. -/
theorem apply_u_eq (cfg : Config) (clk : AckClock) (ack_seq : ℤ) (hops : List IntHop)
    (rtt_us : ℤ) (update : Self → Self × Option PyError) (st : Self) :
    apply_u cfg clk ack_seq hops rtt_us update st =
      update ({ st with ctl := st.ctl.took cfg hops }.log_event clk.log_us .ack ack_seq rtt_us
        hops.length) := by
  obtain ⟨u, hu⟩ := compute_u_ok cfg.base_rtt_s hops st.ctl.hop_last 0
  unfold apply_u Ctl.took
  revert hu
  rcases compute_u cfg.base_rtt_s hops st.ctl.hop_last 0 with ⟨hop_last, r⟩
  rintro rfl
  rfl

/-- The state an ACK leaves before the gate; `fresh` says whether its hops are taken
in. -/
def before_gate (cfg : Config) (clk : AckClock) (ack_seq : ℤ) (hops : List IntHop) (rtt_us : ℤ)
    (fresh : Bool) (st : Self) : Self :=
  Sender.log_event
    { st with
      toTransport := st.toTransport.acked ack_seq
      ctl := if fresh then st.ctl.took cfg hops else st.ctl }
    clk.log_us (if fresh then .ack else .ack_stale) ack_seq rtt_us hops.length

theorem on_ack_eq (cfg : Config) (clk : AckClock) (ack_seq : ℤ) (hops : List IntHop)
    (rtt_us : ℤ) (st : Self) :
    on_ack_locked cfg clk ack_seq hops rtt_us st = maybe_update_window_locked cfg clk
      (before_gate cfg clk ack_seq hops rtt_us true st) := by
  unfold on_ack_locked
  dsimp only
  rw [apply_u_eq]
  rfl

/-- A datagram either changes nothing or is handed, parsed, to the locked part. -/
theorem listen_cases
    (locked : AckPayload → List IntHop → Option (Entry Snap) → Self → Self × Option PyError)
    (data : List Byte) (st : Self) :
    listen locked data st = (st, none) ∨
      ∃ shim hops ack, parse_ack (data.take RECV_BUF) = .ok (some (shim, hops, ack)) ∧
        ¬ (st.in_flight.lookup ack.ack_seq = none ∧ ack.ack_seq ≤ st.cum_acked_seq) ∧
        listen locked data st = locked ack hops (st.in_flight.lookup ack.ack_seq) st := by
  obtain ⟨r, hr⟩ := parse_ack_ok (data.take RECV_BUF)
  unfold listen
  rw [hr]
  rcases r with _ | ⟨shim, hops, ack⟩
  · exact Or.inl rfl
  · dsimp only
    by_cases hs : st.in_flight.lookup ack.ack_seq = none ∧ ack.ack_seq ≤ st.cum_acked_seq
    · rw [if_pos hs]
      exact Or.inl rfl
    · rw [if_neg hs]
      exact Or.inr ⟨shim, hops, ack, rfl, hs, rfl⟩

/-- What one datagram does to an `HpccSender`. -/
theorem ack_listener_cases (cfg : Config) (clk : AckClock) (data : List Byte) (st : Self) :
    ack_listener cfg clk data st = (st, none) ∨
      ∃ shim hops ack rtt_us, parse_ack (data.take RECV_BUF) = .ok (some (shim, hops, ack)) ∧
        ¬ (st.in_flight.lookup ack.ack_seq = none ∧ ack.ack_seq ≤ st.cum_acked_seq) ∧
        ack_listener cfg clk data st = maybe_update_window_locked cfg clk
          (before_gate cfg clk ack.ack_seq hops rtt_us true st) := by
  rcases listen_cases (fun ack hops entry st =>
    on_ack_locked cfg clk ack.ack_seq hops (ack_rtt clk.now_us entry) st) data st with
    h | ⟨shim, hops, ack, hp, hs, h⟩
  · exact Or.inl h
  · refine Or.inr ⟨shim, hops, ack, ack_rtt clk.now_us (st.in_flight.lookup ack.ack_seq), hp, hs, ?_⟩
    rw [← on_ack_eq]
    exact h

theorem ack_listener_toTransport (cfg : Config) (clk : AckClock) (data : List Byte) (st : Self) :
    (ack_listener cfg clk data st).1.toTransport
      = (ack_seq data).elim st.toTransport st.toTransport.acked :=
  listen_toTransport (fun _ _ _ st => on_ack_toTransport cfg clk _ _ _ st) data st

theorem le_rto_us (cfg : Config) : 20000 ≤ cfg.rto_us.val := cfg.rto_us.min_le

/-- `HpccSender`. -/
abbrev cls : SenderClass where
  Config := Config
  Snap := Snap
  Ctl := Ctl
  init := init
  padding := Config.padding
  rto_us cfg := cfg.rto_us.val
  w := Ctl.w
  snapshot := snapshot
  rto_cut := rto_cut
  ack_seq := ack_seq
  ack_listener := ack_listener
  le_rto_us := le_rto_us
  ack_transport := ack_listener_toTransport
  reads_ack := ack_seq_pack

end IntHpcc.Hpcc
