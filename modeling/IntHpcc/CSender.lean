/-
`extensions/csender/hpcc_sender.c`: the HPCC sender in C.

The state is `struct sender_state`: the packets in flight sit in 4096 slots, number `seq`
in slot `seq % 4096`, and the per-port counters in a 256-slot hash table with linear
probing. Arithmetic on `double` is exact here, as in the model of the Python sender.
`incarnation` and `next_seq` are `uint32_t` and wrap, the clock readings are `uint64_t`
and their differences wrap, and sequence numbers are compared as `int64_t`.

The event log (`log_event`) is written and never read back, so it is left out. The main
loop runs the burst and, when it is due, the RTO check under one lock; here the check is
an event of its own, which allows every order the source has and more.
-/
import IntHpcc.PacketFormat
import IntHpcc.SenderCore
import Mathlib.Tactic.Linarith

set_option autoImplicit false

namespace IntHpcc.CSender

open IntHpcc.Bytes IntHpcc.Py IntHpcc.PacketFormat IntHpcc.SenderCore

/-! ## Constants and types -/

def INFLIGHT_MAX : ℕ := 4096
def HOP_TABLE_SZ : ℕ := 256
def DEFAULT_WMIN : ℚ := 1
def QDEPTH_PKT_BYTES : ℚ := 1500

/-- `0xFFFFFFFF`: the slot is empty. -/
def EMPTY : ℕ := 2 ^ 32 - 1

instance : NeZero INFLIGHT_MAX := ⟨by decide⟩

instance : NeZero HOP_TABLE_SZ := ⟨by decide⟩

/-- `s.rto_s`, as `main` clamps it. -/
def rto_s (base_rtt_s : ℚ) : ℚ :=
  let r := 3 * base_rtt_s
  let r := if r < 20 / 1000 then 20 / 1000 else r
  if r > 1 then 1 else r

/-- It is the clamp of `_rto_seconds`. -/
theorem rto_s_eq (base_rtt_s : ℚ) : rto_s base_rtt_s = rto_seconds base_rtt_s := by
  unfold rto_s rto_seconds RTO_MIN_S RTO_MAX_S
  dsimp only
  by_cases h₁ : 3 * base_rtt_s < 20 / 1000
  · rw [if_pos h₁, if_neg (by norm_num), min_eq_right (by linarith), max_eq_left h₁.le]
  · rw [if_neg h₁]
    by_cases h₂ : 3 * base_rtt_s > 1
    · rw [if_pos h₂, min_eq_left h₂.le, max_eq_right (by norm_num)]
    · rw [if_neg h₂, min_eq_right (not_lt.mp h₂), max_eq_right (not_lt.mp h₁)]

/-- The fields of `sender_state` that the command line sets, and the value of
`(uint64_t)(s->rto_s * 1e6)`, a product truncated as in Python. -/
structure Config where
  w_init : ℚ
  w_max : ℤ
  eta : ℚ
  w_ai : ℚ
  tau_over_t : ℚ
  padding : ℕ
  base_rtt_s : ℚ
  rto_us : RtoUs (rto_s base_rtt_s)

structure InflightEntry where
  seq : ℕ
  send_ts_us : Us
  w_ref_snap : ℚ
  incarnation_snap : ℕ
  rtx : ℕ

structure HopKey where
  switch_id : ℕ
  egress_port : ℕ
  valid : Bool
  last_tstamp_us : ℕ
  last_tx_bytes : ℕ

/-- `struct int_hop_host`: a decoded hop. -/
structure IntHopHost where
  switch_id : ℕ
  ingress_port : ℕ
  egress_port : ℕ
  qdepth : ℕ
  egress_tstamp_us : ℕ
  tx_byte_count : ℕ
  link_bps : ℕ

/-- The hop table. -/
abbrev HopTable := Fin HOP_TABLE_SZ → HopKey

/-- `struct sender_state`, less the configuration; `sent` are the datagrams `sendto` has
taken. -/
structure SenderState where
  w : ℚ
  w_ref : ℚ
  incarnation : ℕ
  u_smoothed : ℚ
  last_update_seq : ℤ
  last_update_us : Us
  inflight : Fin INFLIGHT_MAX → InflightEntry
  in_flight_count : ℤ
  next_seq : ℕ
  cum_acked_seq : ℤ
  hops : HopTable
  sent : List (List Byte)

def clampd (v lo hi : ℚ) : ℚ := if v < lo then lo else if v > hi then hi else v

/-! ## The hop table -/

/-- The loop of `hop_lookup`: at most `n` slots, from slot `h` on. -/
def hop_probe (hops : HopTable) (swid port : ℕ) (create : Bool) :
    Fin HOP_TABLE_SZ → ℕ → HopTable × Option (Fin HOP_TABLE_SZ)
  | _, 0 => (hops, none)
  | h, n + 1 =>
    if (hops h).valid = true ∧ (hops h).switch_id = swid ∧ (hops h).egress_port = port then
      (hops, some h)
    else if (hops h).valid = false then
      if create then
        (Function.update hops h
          { hops h with switch_id := swid, egress_port := port, valid := false }, some h)
      else (hops, none)
    else hop_probe hops swid port create (h + 1) n

/-- `((uint32_t)swid * 31 + port) & (HOP_TABLE_SZ - 1)`. -/
def hop_hash (swid port : ℕ) : Fin HOP_TABLE_SZ := Fin.ofNat HOP_TABLE_SZ (swid * 31 + port)

def hop_lookup (hops : HopTable) (swid port : ℕ) (create : Bool) :
    HopTable × Option (Fin HOP_TABLE_SZ) :=
  hop_probe hops swid port create (hop_hash swid port) HOP_TABLE_SZ

/-! ## In-flight tracking -/

def inflight_idx (seq : ℕ) : Fin INFLIGHT_MAX := Fin.ofNat INFLIGHT_MAX seq

/-- `s->inflight[i] = e`. -/
def set_slot (s : SenderState) (i : Fin INFLIGHT_MAX) (e : InflightEntry) : SenderState :=
  { s with inflight := Function.update s.inflight i e }

def inflight_insert (s : SenderState) (seq : ℕ) (send_ts : Us) : SenderState :=
  let e : InflightEntry := {
    seq := seq
    send_ts_us := send_ts
    w_ref_snap := s.w_ref
    incarnation_snap := s.incarnation
    rtx := 0 }
  { set_slot s (inflight_idx seq) e with in_flight_count := s.in_flight_count + 1 }

def inflight_get (s : SenderState) (seq : ℕ) : Option InflightEntry :=
  if (s.inflight (inflight_idx seq)).seq = seq then some (s.inflight (inflight_idx seq)) else none

/-- `s->inflight[i].seq = 0xFFFFFFFF; s->in_flight_count--`. -/
def empty_slot (s : SenderState) (i : Fin INFLIGHT_MAX) : SenderState :=
  { set_slot s i { s.inflight i with seq := EMPTY } with in_flight_count := s.in_flight_count - 1 }

/-- The loop of `inflight_clear_up_to`: `n` numbers from `k` on. -/
def clear_range (s : SenderState) (k : ℤ) : ℕ → SenderState
  | 0 => s
  | n + 1 =>
    let seq := (k % 2 ^ 32).toNat
    let i := inflight_idx seq
    clear_range (if (s.inflight i).seq = seq then empty_slot s i else s) (k + 1) n

def inflight_clear_up_to (s : SenderState) (up_to : ℕ) : SenderState :=
  clear_range s (s.cum_acked_seq + 1) ((up_to : ℤ) - s.cum_acked_seq).toNat

/-! ## The send path -/

/-- `data_packet_pack`: a 0-hop data packet. -/
def data_packet_pack (seq : ℕ) (send_ts_us : Us) (padding : ℕ) : List Byte :=
  be 1 0 ++ be 1 0 ++ be 1 MAX_HOPS ++ be 1 0 ++
    (be 4 seq ++ be 8 send_ts_us.val ++ be 4 0) ++ List.replicate padding 0

/-- `sizeof(buf)` of `send_one`. -/
def SEND_BUF : ℕ := 2048

/-- With so much padding the packets fit into `buf`. -/
def FitsBuf (padding : ℕ) : Prop :=
  ∀ (seq : ℕ) (send_ts_us : Us), (data_packet_pack seq send_ts_us padding).length ≤ SEND_BUF

theorem fitsBuf_iff {padding : ℕ} : FitsBuf padding ↔ padding ≤ 2028 := by
  have hlen : ∀ (seq : ℕ) (t : Us), (data_packet_pack seq t padding).length = 20 + padding := by
    intro seq t
    simp only [data_packet_pack, List.length_append, be_length, List.length_replicate]
  unfold FitsBuf SEND_BUF
  constructor
  · intro h
    have hzero := h 0 zero_us
    rw [hlen] at hzero
    omega
  · intro h seq t
    rw [hlen]
    omega

/-- `send_one`; a failed `sendto` leaves everything as it is. A packet that does not fit
into `buf` is written past its end, which C leaves undefined: without `FitsBuf cfg.padding`
the program is described up to its first call only. -/
def send_one (cfg : Config) (s : SenderState) (seq : ℕ) : SendCall → SenderState
  | .os_error _ => s
  | .ok build_ts t _ =>
    let s := { s with sent := s.sent ++ [data_packet_pack seq build_ts cfg.padding] }
    match inflight_get s seq with
    | some e => set_slot s (inflight_idx seq) { e with send_ts_us := t, rtx := e.rtx + 1 }
    | none => inflight_insert s seq t

/-! ## The controller -/

/-- `compute_u`: the loop over the hops, with `u_max` so far. -/
def compute_u (base_rtt_s : ℚ) : List IntHopHost → HopTable → ℚ → HopTable × ℚ
  | [], hops, u_max => (hops, u_max)
  | h :: hs, hops, u_max =>
    if h.link_bps = 0 then compute_u base_rtt_s hs hops u_max
    else
      match hop_lookup hops h.switch_id h.egress_port true with
      | (hops, none) => compute_u base_rtt_s hs hops u_max
      | (hops, some i) =>
        let primed := Function.update hops i
          { hops i with
            last_tstamp_us := h.egress_tstamp_us
            last_tx_bytes := h.tx_byte_count
            valid := true }
        if (hops i).valid = false then compute_u base_rtt_s hs primed u_max
        else
          let dt : ℤ := (h.egress_tstamp_us : ℤ) - (hops i).last_tstamp_us
          let db : ℤ := (h.tx_byte_count : ℤ) - (hops i).last_tx_bytes
          if dt ≤ 0 ∨ db < 0 then compute_u base_rtt_s hs primed u_max
          else
            let tx_rate_bps : ℚ := db * 8 * 1000000 / dt
            let b_bytes : ℚ := h.link_bps * base_rtt_s / 8
            if b_bytes ≤ 0 then compute_u base_rtt_s hs primed u_max
            else
              let qdepth_bytes : ℚ := h.qdepth * QDEPTH_PKT_BYTES
              let u : ℚ := qdepth_bytes / b_bytes + tx_rate_bps / h.link_bps
              compute_u base_rtt_s hs primed (if u > u_max then u else u_max)

/-- The gate of `maybe_update_window`. -/
def gate_open (cfg : Config) (now_mono : Us) (s : SenderState) : Bool :=
  decide (s.last_update_seq + py_int (max s.w_ref 1) ≤ s.cum_acked_seq) &&
    decide (cfg.base_rtt_s ≤ ((now_mono - s.last_update_us : Us).val : ℚ) / 1000000)

/-- `w_new` of `maybe_update_window`. -/
def w_new (cfg : Config) (s : SenderState) : ℚ :=
  let u_eff := if s.u_smoothed < 1 / 1000 then 1 / 1000 else s.u_smoothed
  clampd (s.w_ref / (u_eff / cfg.eta) + cfg.w_ai) DEFAULT_WMIN cfg.w_max

def maybe_update_window (cfg : Config) (now_mono : Us) (s : SenderState) : SenderState :=
  if gate_open cfg now_mono s then
    { s with
      w_ref := w_new cfg s
      w := w_new cfg s
      incarnation := if w_new cfg s < s.w_ref then (s.incarnation + 1) % 2 ^ 32 else s.incarnation
      last_update_seq := s.cum_acked_seq
      last_update_us := now_mono }
  else s

/-! ## The ACK listener -/

/-- `u48_unpack`, on the six bytes at `in`. -/
def u48_unpack (b : List Byte) : ℕ :=
  let byte (i : ℕ) : BitVec 64 := (b.getD i 0).setWidth 64
  (byte 0 <<< 40 ||| byte 1 <<< 32 ||| byte 2 <<< 24 ||| byte 3 <<< 16 ||| byte 4 <<< 8 |||
    byte 5).toNat

/-- `int_hop_decode`; `ntohs` and `ntohl` read in network byte order. -/
def int_hop_decode (wire : List Byte) : IntHopHost where
  switch_id := of_be (slice wire 0 2)
  ingress_port := of_be (slice wire 2 2)
  egress_port := of_be (slice wire 4 2)
  qdepth := of_be (slice wire 6 4)
  egress_tstamp_us := u48_unpack (slice wire 10 6)
  tx_byte_count := u48_unpack (slice wire 16 6)
  link_bps := of_be (slice wire 22 4)

/-- `sizeof(buf)` of `ack_thread`. -/
def RECV_BUF : ℕ := 4096

/-- What `ack_thread` decodes from one `recv`: the sequence number and the hops, unless
the datagram is too short or claims too many hops. -/
def decode_ack (data : List Byte) : Option (ℕ × List IntHopHost) :=
  let buf := data.take RECV_BUF
  if buf.length < SHIM_SIZE + ACK_PAYLOAD_SIZE then none
  else
    let hop_count := of_be (slice buf 1 1)
    if MAX_HOPS < hop_count then none
    else
      let hops_size := hop_count * INT_HOP_SIZE
      if buf.length < SHIM_SIZE + hops_size + ACK_PAYLOAD_SIZE then none
      else
        let hops := (List.range hop_count).map fun i =>
          int_hop_decode (buf.drop (SHIM_SIZE + i * INT_HOP_SIZE))
        some (of_be (slice buf (SHIM_SIZE + hops_size) 4), hops)

/-- The U half of `ack_thread`, and the window update. -/
def apply_u (cfg : Config) (now_mono : Us) (hops : List IntHopHost) (s : SenderState) :
    SenderState :=
  let r := compute_u cfg.base_rtt_s hops s.hops 0
  let s := { s with hops := r.1 }
  let s := if r.2 > 0 then
      { s with u_smoothed := (1 - cfg.tau_over_t) * s.u_smoothed + cfg.tau_over_t * r.2 }
    else s
  maybe_update_window cfg now_mono s

/-- What `ack_thread` does for a packet in flight. -/
def acked (s : SenderState) (ack_seq : ℕ) : SenderState :=
  { inflight_clear_up_to s ack_seq with cum_acked_seq := ack_seq }

/-- One datagram, as `ack_thread` handles it under the lock. An ACK of a packet that is not
in flight is a duplicate, or its hops are taken in all the same. -/
def on_ack (cfg : Config) (now_mono : Us) (ack_seq : ℕ) (hops : List IntHopHost)
    (s : SenderState) : SenderState :=
  match inflight_get s ack_seq with
  | some _ => apply_u cfg now_mono hops (acked s ack_seq)
  | none => if (ack_seq : ℤ) ≤ s.cum_acked_seq then s else apply_u cfg now_mono hops s

def ack_thread (cfg : Config) (now_mono : Us) (data : List Byte) (s : SenderState) :
    SenderState :=
  match decode_ack data with
  | none => s
  | some (ack_seq, hops) => on_ack cfg now_mono ack_seq hops s

/-! ## The RTO check -/

/-- `rto_us` of `rto_check`. -/
def rto_us (cfg : Config) : ℕ := cfg.rto_us.val.toNat

/-- Some packet in flight has timed out. -/
def fired (cfg : Config) (now : Us) (s : SenderState) : Bool :=
  (List.finRange INFLIGHT_MAX).any fun i =>
    decide ((s.inflight i).seq ≠ EMPTY) &&
      !decide ((now - (s.inflight i).send_ts_us : Us).val < rto_us cfg)

/-- The window cut of `rto_check`. -/
def rto_cut (s : SenderState) : SenderState :=
  { s with
    w_ref := if s.w_ref / 2 < DEFAULT_WMIN then DEFAULT_WMIN else s.w_ref / 2
    w := if s.w_ref / 2 < DEFAULT_WMIN then DEFAULT_WMIN else s.w_ref / 2
    incarnation := (s.incarnation + 1) % 2 ^ 32 }

/-- The body of the retransmission loop, for slot `i`. -/
def resend_slot (cfg : Config) (calls : ℕ → SendCall) (s : SenderState) (i : Fin INFLIGHT_MAX) :
    SenderState :=
  if (s.inflight i).seq = EMPTY then s
  else send_one cfg s (s.inflight i).seq (calls (s.inflight i).seq)

def rto_check (cfg : Config) (now : Us) (calls : ℕ → SendCall) (s : SenderState) :
    SenderState :=
  if fired cfg now s then
    (List.finRange INFLIGHT_MAX).foldl (resend_slot cfg calls) (rto_cut s)
  else s

/-! ## The threads -/

/-- The sender; `w_int` is set while the main loop holds the lock for a burst. -/
structure Proc where
  self : SenderState
  w_int : Option ℤ

inductive Op
  /-- the main loop takes the lock and reads `w_int` -/
  | acquire
  /-- one iteration of the burst loop -/
  | send (call : SendCall)
  /-- the burst loop is over -/
  | release
  /-- `ack_thread` handles a datagram -/
  | datagram (data : List Byte) (now_mono : Us)
  /-- the main loop checks for timeouts -/
  | rto (now : Us) (calls : ℕ → SendCall)

/-- The guard of the burst loop; without `--max-packets` the limit is negative. -/
def burst_guard (max_packets : ℤ) (w_int : ℤ) (s : SenderState) : Bool :=
  decide (s.in_flight_count < w_int) &&
    (decide (max_packets < 0) || decide ((s.next_seq : ℤ) < max_packets))

/-- One iteration of the burst loop. -/
def burst_iter (cfg : Config) (s : SenderState) (call : SendCall) : SenderState :=
  let s := send_one cfg s s.next_seq call
  { s with next_seq := (s.next_seq + 1) % 2 ^ 32 }

/-- One event; `none` when the thread it belongs to cannot take it now. -/
def step (cfg : Config) (max_packets : ℤ) : Op → Proc → Option Proc
  | .acquire, p =>
    if p.w_int.isNone then some { p with w_int := some (py_int p.self.w) } else none
  | .send call, p => p.w_int.bind fun w_int =>
    if burst_guard max_packets w_int p.self then some { p with self := burst_iter cfg p.self call }
    else none
  | .release, p => p.w_int.bind fun w_int =>
    if burst_guard max_packets w_int p.self then none else some { p with w_int := none }
  | .datagram data now_mono, p =>
    if p.w_int.isNone then some { p with self := ack_thread cfg now_mono data p.self } else none
  | .rto now calls, p =>
    if p.w_int.isNone then some { p with self := rto_check cfg now calls p.self } else none

/-- `main` before its loop. -/
def start (cfg : Config) (now_mono : Us) : Proc where
  self := {
    w := cfg.w_init
    w_ref := cfg.w_init
    incarnation := 0
    u_smoothed := 1
    last_update_seq := -1
    last_update_us := now_mono
    inflight := fun _ =>
      { seq := EMPTY
        send_ts_us := zero_us
        w_ref_snap := 0
        incarnation_snap := 0
        rtx := 0 }
    in_flight_count := 0
    next_seq := 0
    cum_acked_seq := -1
    hops := fun _ =>
      { switch_id := 0
        egress_port := 0
        valid := false
        last_tstamp_us := 0
        last_tx_bytes := 0 }
    sent := [] }
  w_int := none

end IntHpcc.CSender
