/-
`sender/dctcp_sender.py`: the DCTCP-style controller.

The transport half is `SenderCore`; here are the fields of the controller, the
listener, the per-RTT update and the RTO cut. Exceptions are values: a listener that
raises has changed the state up to that point, so every step returns the object
together with the exception, if any.
-/
import IntHpcc.SenderCore

set_option autoImplicit false

namespace IntHpcc.Dctcp

open IntHpcc.Bytes IntHpcc.Py IntHpcc.PacketFormat IntHpcc.SenderCore

/-- `DEFAULT_W_MIN`. -/
def w_min : ℚ := 1

/-- The constructor arguments the sender works with. -/
structure Config where
  w_init : ℤ
  w_max : ℤ
  g : ℚ
  padding : ℕ
  base_rtt_s : ℚ
  rto_us : RtoUs (rto_seconds base_rtt_s)

/-- The arguments `main` passes when none is given, for a measured base RTT. -/
def defaults (base_rtt_s : ℚ) : Config where
  w_init := 4
  w_max := 64
  g := 1 / 16
  padding := 1400
  base_rtt_s := base_rtt_s
  rto_us := exact_rto_us base_rtt_s

/-- The controller's fields. -/
structure Ctl where
  w : ℚ
  alpha : ℚ
  last_update_seq : ℤ
  rtt_window_total : ℕ
  rtt_window_marked : ℕ
  deriving DecidableEq

/-- A DCTCP sender stores nothing with a packet but its send time and count. -/
abbrev Self := Sender Unit Ctl

/-- `__init__`. -/
def init (cfg : Config) : Ctl where
  w := cfg.w_init
  alpha := 0
  last_update_seq := -1
  rtt_window_total := 0
  rtt_window_marked := 0

/-! ## The update -/

/-- The gate of `_maybe_update_window_locked`: a window of packets has been
acknowledged since the last update, and an ACK has been counted. -/
def gate_open (st : Self) : Bool :=
  decide (st.ctl.last_update_seq + py_int st.ctl.w ≤ st.cum_acked_seq) &&
    decide (st.ctl.rtt_window_total ≠ 0)

/-- The controller once the fraction `f` of marked ACKs is known. -/
def Ctl.updated (cfg : Config) (cum_acked_seq : ℤ) (f : ℚ) (c : Ctl) : Ctl :=
  let alpha := (1 - cfg.g) * c.alpha + cfg.g * f
  { w := if 0 < c.rtt_window_marked then max w_min (c.w * (1 - alpha / 2))
      else min (cfg.w_max : ℚ) (c.w + 1)
    alpha := alpha
    last_update_seq := cum_acked_seq
    rtt_window_total := 0
    rtt_window_marked := 0 }

/-- `_maybe_update_window_locked`. -/
def maybe_update_window_locked (cfg : Config) (log_us : Us) (st : Self) : Self × Option PyError :=
  if gate_open st then
    match py_div st.ctl.rtt_window_marked st.ctl.rtt_window_total with
    | .error e => (st, some e)
    | .ok f =>
      ({ st with ctl := st.ctl.updated cfg st.cum_acked_seq f }.log_event log_us .update (-1) 0 0,
        none)
  else (st, none)

/-! ## The listener -/

/-- The counters after one more ACK. -/
def Ctl.counted (ecn_echo : ℤ) (c : Ctl) : Ctl :=
  { c with
    rtt_window_total := c.rtt_window_total + 1
    rtt_window_marked := c.rtt_window_marked + if ecn_echo ≠ 0 then 1 else 0 }

/-- `_on_ack_locked`. -/
def on_ack_locked (cfg : Config) (clk : AckClock) (ack_seq ecn_echo rtt_us : ℤ) (st : Self) :
    Self × Option PyError :=
  let st : Self := { st with toTransport := st.toTransport.acked ack_seq }
  let st : Self := { st with ctl := st.ctl.counted ecn_echo }
  maybe_update_window_locked cfg clk.update_log_us
    (st.log_event clk.log_us .ack ack_seq rtt_us ecn_echo)

/-- `self.in_flight.get(seq, (0, 0))[0]`. -/
def send_ts (st : Self) (seq : ℤ) : ℤ := ((st.in_flight.lookup seq).map Entry.send_ts_us).getD 0

/-- What `_ack_listener` reads out of one `recvfrom(2048)`: the shim and the ACK
payload, or nothing if the datagram is too short. The hops are skipped unread, and
their number is not bounded. -/
def read_ack (data : List Byte) : Except PyError (Option (Shim × AckPayload)) := do
  let data := data.take 2048
  if data.length < SHIM_SIZE then
    return none
  let shim ← Shim.unpack data
  let hops_size := shim.hop_count.toNat * INT_HOP_SIZE
  let ack_off := SHIM_SIZE + hops_size
  if data.length < ack_off + ACK_PAYLOAD_SIZE then
    return none
  let ack ← AckPayload.unpack (slice data ack_off ACK_PAYLOAD_SIZE)
  return some (shim, ack)

/-- One datagram, as `_ack_listener` handles it. -/
def ack_listener (cfg : Config) (clk : AckClock) (data : List Byte) (st : Self) :
    Self × Option PyError :=
  match read_ack data with
  | .error e => (st, some e)
  | .ok none => (st, none)
  | .ok (some (shim, ack)) =>
    let ecn : ℤ := if shim.ecn_echo then 1 else 0
    let ts := send_ts st ack.ack_seq
    -- a stale duplicate
    if ts = 0 ∧ ack.ack_seq ≤ st.cum_acked_seq then (st, none)
    else
      let rtt_us := if ts ≠ 0 then clk.now_us.val - ts else 0
      on_ack_locked cfg clk ack.ack_seq ecn rtt_us st

/-- The sequence number of a datagram `_ack_listener` accepts. -/
def ack_seq (data : List Byte) : Option ℤ :=
  match read_ack data with
  | .ok (some (_, ack)) => some ack.ack_seq
  | _ => none

/-- The window cut of `_rto_checker`. -/
def rto_cut (c : Ctl) : Ctl := { c with w := max w_min (c.w / 2) }

/-! ## The class -/

@[simp] theorem maybe_update_toTransport (cfg : Config) (log_us : Us) (st : Self) :
    (maybe_update_window_locked cfg log_us st).1.toTransport = st.toTransport := by
  unfold maybe_update_window_locked
  by_cases hg : gate_open st
  · rw [if_pos hg]
    cases py_div st.ctl.rtt_window_marked st.ctl.rtt_window_total with
    | error e => rfl
    | ok f => rfl
  · rw [if_neg hg]

@[simp] theorem on_ack_toTransport (cfg : Config) (clk : AckClock) (ack_seq ecn_echo rtt_us : ℤ)
    (st : Self) :
    (on_ack_locked cfg clk ack_seq ecn_echo rtt_us st).1.toTransport
      = st.toTransport.acked ack_seq := by
  unfold on_ack_locked
  dsimp only
  rw [maybe_update_toTransport]
  rfl

theorem ack_listener_toTransport (cfg : Config) (clk : AckClock) (data : List Byte) (st : Self) :
    (ack_listener cfg clk data st).1.toTransport
      = (ack_seq data).elim st.toTransport st.toTransport.acked := by
  unfold ack_listener ack_seq
  cases read_ack data with
  | error e => rfl
  | ok r =>
      cases r with
      | none => rfl
      | some r =>
          obtain ⟨shim, ack⟩ := r
          dsimp only
          by_cases hs : send_ts st ack.ack_seq = 0 ∧ ack.ack_seq ≤ st.cum_acked_seq
          · rw [if_pos hs]
            exact (acked_of_le hs.2).symm
          · rw [if_neg hs]
            exact on_ack_toTransport cfg clk _ _ _ st

/-- A packed ACK packet is accepted, and read as what was packed. -/
theorem read_ack_pack {a : AckPacket} {data : List Byte} (h : a.pack = .ok data) :
    read_ack data = .ok (some
      ({ a.shim with hop_count := a.hops.length, max_hops := MAX_HOPS }, a.payload)) := by
  obtain ⟨hmax, hlen, hshim, -, hpay⟩ := AckPacket.pack_layout h
  simp only [SHIM_SIZE, INT_HOP_SIZE, ACK_PAYLOAD_SIZE, MAX_HOPS] at hmax hlen
  have htake : data.take 2048 = data := List.take_of_length_le (by omega)
  have g₁ : ¬ data.length < SHIM_SIZE := by
    simp only [SHIM_SIZE]
    omega
  have g₂ : ¬ data.length < SHIM_SIZE + a.hops.length * INT_HOP_SIZE + ACK_PAYLOAD_SIZE := by
    simp only [SHIM_SIZE, INT_HOP_SIZE, ACK_PAYLOAD_SIZE]
    omega
  unfold read_ack
  simp only [htake, if_neg g₁, hshim, ok_bind, Int.toNat_natCast, if_neg g₂, hpay]
  rfl

/-! ## Nothing raises -/

/-- The listener's parser does not raise. -/
theorem read_ack_ok (data : List Byte) : ∃ r, read_ack data = .ok r := by
  unfold read_ack
  dsimp only
  by_cases g₁ : (data.take 2048).length < SHIM_SIZE
  · rw [if_pos g₁]
    exact ⟨_, rfl⟩
  · rw [if_neg g₁]
    simp only [Shim.unpack_of_length (Nat.le_of_not_lt g₁), ok_bind]
    by_cases g₂ : (data.take 2048).length < SHIM_SIZE
        + (Shim.of_bytes (data.take 2048)).hop_count.toNat * INT_HOP_SIZE + ACK_PAYLOAD_SIZE
    · rw [if_pos g₂]
      exact ⟨_, rfl⟩
    · rw [if_neg g₂]
      obtain ⟨ack, hack⟩ :=
        AckPayload.unpack_of_length (slice_length (Nat.le_of_not_lt g₂)).ge
      simp only [hack, ok_bind]
      exact ⟨_, rfl⟩

/-- The fraction of marked ACKs. -/
def Ctl.marked_share (c : Ctl) : ℚ := (c.rtt_window_marked : ℚ) / c.rtt_window_total

/-- What `_maybe_update_window_locked` does: behind the gate the counter divided by is
not zero. -/
theorem maybe_update_eq (cfg : Config) (log_us : Us) (st : Self) :
    maybe_update_window_locked cfg log_us st =
      (if gate_open st then
        { st with
          ctl := st.ctl.updated cfg st.cum_acked_seq st.ctl.marked_share }.log_event log_us
            .update (-1) 0 0
      else st, none) := by
  unfold maybe_update_window_locked
  by_cases hg : gate_open st
  · have htotal : st.ctl.rtt_window_total ≠ 0 := by
      unfold gate_open at hg
      rw [Bool.and_eq_true, decide_eq_true_eq, decide_eq_true_eq] at hg
      exact hg.2
    have htotal' : (st.ctl.rtt_window_total : ℚ) ≠ 0 := by exact_mod_cast htotal
    rw [if_pos hg, if_pos hg, py_div_of_ne _ htotal']
    rfl
  · rw [if_neg hg, if_neg hg]

/-- The state an ACK leaves before the gate. -/
def before_gate (clk : AckClock) (ack_seq ecn_echo rtt_us : ℤ) (st : Self) : Self :=
  Sender.log_event
    { st with
      toTransport := st.toTransport.acked ack_seq
      ctl := st.ctl.counted ecn_echo } clk.log_us .ack ack_seq rtt_us ecn_echo

theorem on_ack_eq (cfg : Config) (clk : AckClock) (ack_seq ecn_echo rtt_us : ℤ) (st : Self) :
    on_ack_locked cfg clk ack_seq ecn_echo rtt_us st
      = maybe_update_window_locked cfg clk.update_log_us
        (before_gate clk ack_seq ecn_echo rtt_us st) := rfl

/-- A datagram either changes nothing or is an ACK the counters take in. -/
theorem ack_listener_cases (cfg : Config) (clk : AckClock) (data : List Byte) (st : Self) :
    ack_listener cfg clk data st = (st, none) ∨
      ∃ shim ack rtt_us, read_ack data = .ok (some (shim, ack)) ∧
        ¬ (send_ts st ack.ack_seq = 0 ∧ ack.ack_seq ≤ st.cum_acked_seq) ∧
        ack_listener cfg clk data st =
          on_ack_locked cfg clk ack.ack_seq (if shim.ecn_echo then 1 else 0) rtt_us st := by
  obtain ⟨r, hr⟩ := read_ack_ok data
  unfold ack_listener
  rw [hr]
  rcases r with _ | ⟨shim, ack⟩
  · exact Or.inl rfl
  · dsimp only
    by_cases hs : send_ts st ack.ack_seq = 0 ∧ ack.ack_seq ≤ st.cum_acked_seq
    · rw [if_pos hs]
      exact Or.inl rfl
    · rw [if_neg hs]
      exact Or.inr ⟨shim, ack, _, rfl, hs, rfl⟩

/-- An ACK above `cum_acked_seq` is no stale duplicate. -/
theorem ack_listener_fresh (cfg : Config) (clk : AckClock) {data : List Byte} {st : Self}
    {shim : Shim} {ack : AckPayload} (hread : read_ack data = .ok (some (shim, ack)))
    (hfresh : st.cum_acked_seq < ack.ack_seq) :
    ∃ rtt_us, ack_listener cfg clk data st =
      on_ack_locked cfg clk ack.ack_seq (if shim.ecn_echo then 1 else 0) rtt_us st := by
  unfold ack_listener
  rw [hread]
  dsimp only
  rw [if_neg (fun h => absurd h.2 (not_le.mpr hfresh))]
  exact ⟨_, rfl⟩

/-- `DctcpSender`. -/
abbrev cls : SenderClass where
  Config := Config
  Snap := Unit
  Ctl := Ctl
  init cfg _ := init cfg
  padding := Config.padding
  rto_us cfg := cfg.rto_us.val
  w := Ctl.w
  snapshot _ := ()
  rto_cut := rto_cut
  ack_seq := ack_seq
  ack_listener := ack_listener
  le_rto_us cfg := cfg.rto_us.min_le
  ack_transport := ack_listener_toTransport
  reads_ack h := by rw [ack_seq, read_ack_pack h]

end IntHpcc.Dctcp
