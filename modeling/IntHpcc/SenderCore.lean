/-
What `DctcpSender`, `HpccSender` and `HpccSenderV2` have in common: the in-flight
map, sending and retransmitting, the burst loop of `run`, the RTO thread and the
lock between the threads.

The three classes are copies of one another except for the controller, so the shared
methods are written once, over a `SenderClass` that names what differs: the
controller's fields, the snapshot a send stores with a packet, the RTO cut and the
ACK listener. `Dctcp.lean`, `Hpcc.lean` and `HpccV2.lean` supply the three.

## The threads

`run`, the ACK listener and the RTO checker share one lock. A `Proc` is the object
together with two facts about its threads: whether `run` is inside its burst loop
(and so holds the lock), and whether the ACK listener is still running (an exception
ends that thread, the lock is released and nothing else stops). One iteration of the
burst loop is one event, because the loop need not end; everything else done under
the lock is one event as a whole.

`stop` is set by `run` itself after its loops, so it is never set while they run, and
it is not part of the state.
-/
import IntHpcc.CumAck
import IntHpcc.PacketFormat
import IntHpcc.Runs
import Mathlib.Data.List.AList
import Mathlib.Data.List.Sort

set_option autoImplicit false

namespace IntHpcc.SenderCore

open IntHpcc.Bytes IntHpcc.Py IntHpcc.PacketFormat

/-! ## The object -/

/-- A value of `in_flight`: the send time, what the class stores besides, and the
number of retransmissions. -/
structure Entry (Snap : Type) where
  send_ts_us : ℤ
  snap : Snap
  rtx : ℕ
  deriving DecidableEq, Repr

/-- The dict `in_flight`. The code never depends on its order. -/
abbrev InFlight (Snap : Type) := AList fun _ : ℤ => Entry Snap

/-- The event names of the log. -/
inductive EventKind
  | send
  | rtx
  | ack
  | ack_stale
  | update
  | rto
  deriving DecidableEq, Repr

/-- A row of the event log, without the columns that display the controller. `echo`
is the `ecn_echo` column of the DCTCP log and the `hop_count` column of the HPCC
one. -/
structure LogEvent where
  ts_us : ℤ
  event : EventKind
  seq : ℤ
  rtt_us : ℤ
  echo : ℤ
  cum_acked : ℤ
  in_flight : ℕ
  deriving DecidableEq, Repr

/-- The transport half of a sender. `sock` holds the data packets `sendto` has
accepted, oldest first. -/
structure Transport (Snap : Type) where
  next_seq : ℤ
  cum_acked_seq : ℤ
  in_flight : InFlight Snap
  sock : List DataPayload

/-- A sender: the transport half, the controller's fields and the event buffer. -/
structure Sender (Snap Ctl : Type) extends Transport Snap where
  ctl : Ctl
  events : List LogEvent

section

variable {Snap Ctl : Type}

/-- `len(self.in_flight)`. -/
def Transport.flight (st : Transport Snap) : ℕ := st.in_flight.keys.length

/-- `_log_event`. -/
def Sender.log_event (st : Sender Snap Ctl) (ts_us : Us) (event : EventKind)
    (seq rtt_us echo : ℤ) : Sender Snap Ctl :=
  { st with events := st.events ++
      [⟨ts_us.val, event, seq, rtt_us, echo, st.cum_acked_seq, st.flight⟩] }

/-! ## Sending -/

/-- One `sendto`: the readings of `_now_us()` for the packet, for the entry and for the
log, or the reading for the packet that raised `OSError`. -/
inductive SendCall
  | ok (build_us ts_us log_us : Us)
  | os_error (build_us : Us)

/-- The call went through. -/
def SendCall.sent : SendCall → Bool
  | .ok _ _ _ => true
  | .os_error _ => false

/-- `_build_packet_bytes`. -/
def build_packet_bytes (padding : ℕ) (seq : ℤ) (send_ts_us : Us) :
    Except PyError (List Byte) := do
  let body ← DataPacket.pack { payload := { seq := seq, send_ts_us := send_ts_us.val } }
  return body ++ List.replicate padding 0

/-- `_send_locked`. -/
def send_locked (snapshot : Ctl → Snap) (st : Sender Snap Ctl) (seq : ℤ) :
    SendCall → Sender Snap Ctl
  | .os_error _ => st
  | .ok build_us ts log_us =>
    let st := { st with sock := st.sock ++ [(⟨seq, build_us.val, 0⟩ : DataPayload)] }
    match st.in_flight.lookup seq with
    | some e =>
      { st with in_flight := st.in_flight.insert seq ⟨ts.val, e.snap, e.rtx + 1⟩ }.log_event
        log_us .rtx seq 0 0
    | none =>
      { st with in_flight := st.in_flight.insert seq ⟨ts.val, snapshot st.ctl, 0⟩ }.log_event
        log_us .send seq 0 0

/-! ## Acknowledging -/

/-- `for s in range(lo, lo + n): self.in_flight.pop(s, None)`. -/
def pop_range (d : InFlight Snap) : ℤ → ℕ → InFlight Snap
  | _, 0 => d
  | lo, n + 1 => pop_range (d.erase lo) (lo + 1) n

/-- The cumulative part of `_on_ack_locked`. -/
def Transport.acked (st : Transport Snap) (ack_seq : ℤ) : Transport Snap :=
  if ack_seq > st.cum_acked_seq then
    { st with
      in_flight := pop_range st.in_flight (st.cum_acked_seq + 1) (ack_seq - st.cum_acked_seq).toNat
      cum_acked_seq := ack_seq }
  else st

/-! ## The RTO thread -/

def RTO_MIN_S : ℚ := 20 / 1000
def RTO_MAX_S : ℚ := 1

/-- `_rto_seconds`. -/
def rto_seconds (base_rtt_s : ℚ) : ℚ := max RTO_MIN_S (min RTO_MAX_S (3 * base_rtt_s))

/-- A value of `int(self.rto_s * 1_000_000)`. The code multiplies doubles before it
truncates, so the value can miss the exact product by one: a base RTT of 9 ms gives 26999.
What the doubles promise is that the two ends of the clamp come out exact and that the
value is less than two off in between. -/
structure RtoUs (rto_s : ℚ) where
  val : ℤ
  min_le : 20000 ≤ val
  at_max : 1 ≤ rto_s → val = 1000000
  near : |(val : ℚ) - rto_s * 1000000| < 2

/-- The value for another way to compute the same timeout. -/
def RtoUs.of_eq {a b : ℚ} (h : a = b) (r : RtoUs a) : RtoUs b where
  val := r.val
  min_le := r.min_le
  at_max := h ▸ r.at_max
  near := h ▸ r.near

/-- `expired` is not empty. -/
def expired (st : Transport Snap) (now rto : ℤ) : Bool :=
  st.in_flight.entries.any fun e => decide (rto ≤ now - e.2.send_ts_us)

/-- The retransmission loop. -/
def resend_all (snapshot : Ctl → Snap) (calls : ℤ → SendCall) :
    List ℤ → Sender Snap Ctl → Sender Snap Ctl
  | [], st => st
  | s :: seqs, st => resend_all snapshot calls seqs (send_locked snapshot st s (calls s))

/-- One pass of `_rto_checker` under the lock. `cut` is the class's window cut, `calls`
the outcome of each retransmission. -/
def rto_checker (snapshot : Ctl → Snap) (cut : Ctl → Ctl) (rto_us : ℤ) (now log_us : Us)
    (calls : ℤ → SendCall) (st : Sender Snap Ctl) : Sender Snap Ctl :=
  if expired st.toTransport now.val rto_us then
    let st := { st with ctl := cut st.ctl }.log_event log_us .rto (-1) 0 0
    let seqs := st.in_flight.keys.insertionSort (· ≤ ·)
    resend_all snapshot calls seqs { st with in_flight := ∅ }
  else st

end

/-! ## What a class supplies -/

/-- The clock readings one datagram can cost: `_now_us()` for the RTT and for the two
log rows, `time.monotonic()` for the update gate. -/
structure AckClock where
  now_us : Us
  log_us : Us
  update_log_us : Us
  monotonic : ℚ

/-- The readings of a clock that stands at zero, for runs written down by hand. -/
def zero_clock : AckClock := ⟨zero_us, zero_us, zero_us, 0⟩

def sent_at_zero : SendCall := .ok zero_us zero_us zero_us

/-- Both clocks at `n` microseconds. -/
def clock_at (n : ℕ) : AckClock := ⟨at_us n, at_us n, at_us n, n / 1000000⟩

def sent_at (n : ℕ) : SendCall := .ok (at_us n) (at_us n) (at_us n)

/-- The answer to packet `seq`, with these flags and without hops. -/
def bare_ack (flags seq : ℕ) : List Byte :=
  be 1 flags ++ be 1 0 ++ be 1 MAX_HOPS ++ be 1 0 ++ (be 4 seq ++ be 8 0 ++ be 4 0)

/-- One sender class. `ack_seq` is the sequence number its listener reads out of a
datagram, if it accepts it. The last three fields are laws: the timeout is at least
`RTO_MIN_S`, a datagram moves the transport half only through `Transport.acked` at that
number, and the number read out of a packed ACK is the one packed into it. -/
structure SenderClass where
  Config : Type
  Snap : Type
  Ctl : Type
  init : Config → ℚ → Ctl
  padding : Config → ℕ
  rto_us : Config → ℤ
  w : Ctl → ℚ
  snapshot : Ctl → Snap
  rto_cut : Ctl → Ctl
  ack_seq : List Byte → Option ℤ
  ack_listener : Config → AckClock → List Byte → Sender Snap Ctl →
    Sender Snap Ctl × Option PyError
  le_rto_us : ∀ cfg, 20000 ≤ rto_us cfg
  ack_transport : ∀ cfg clk data st, (ack_listener cfg clk data st).1.toTransport
    = (ack_seq data).elim st.toTransport st.toTransport.acked
  reads_ack : ∀ {a : AckPacket} {data}, a.pack = .ok data → ack_seq data = some a.payload.ack_seq

variable (C : SenderClass)

/-- An object of the class. -/
abbrev SenderClass.Self := Sender C.Snap C.Ctl

/-- The guard of the burst loop. -/
def SenderClass.burst_guard (max_packets : Option ℤ) (st : C.Self) : Bool :=
  decide ((st.flight : ℤ) < py_int (C.w st.ctl)) &&
    max_packets.all fun n => decide (st.next_seq < n)

/-- One iteration of the burst loop. -/
def SenderClass.burst_iter (st : C.Self) (call : SendCall) : C.Self :=
  let st := send_locked C.snapshot st st.next_seq call
  { st with next_seq := st.next_seq + 1 }

/-- The packet of the next iteration can be built: `struct.pack` raises once the
sequence number outgrows its `I` field (`build_packet_bytes_isOk`). -/
def SenderClass.buildable (st : C.Self) : Bool := decide (st.next_seq < 2 ^ 32)

/-- A sender and the state of its threads. -/
structure SenderClass.Proc where
  self : C.Self
  bursting : Bool
  listening : Bool

/-- What the threads do, one critical section (or burst iteration) at a time. -/
inductive Op
  /-- `run` takes the lock for a burst -/
  | acquire
  /-- one iteration of the burst loop -/
  | send (call : SendCall)
  /-- the burst loop is over -/
  | release
  /-- the listener handles a datagram -/
  | datagram (data : List Byte) (clk : AckClock)
  /-- the RTO thread makes a pass -/
  | rto (now log_us : Us) (calls : ℤ → SendCall)

/-- A pass throughout which `_now_us()` reads `n`. -/
def pass_at (n : ℕ) : Op := .rto (at_us n) (at_us n) fun _ => sent_at n

/-- One event; `none` when the thread it belongs to cannot take it now. -/
def SenderClass.step (cfg : C.Config) (max_packets : Option ℤ) :
    Op → C.Proc → Option C.Proc
  | .acquire, p => if p.bursting then none else some { p with bursting := true }
  | .send call, p =>
    if p.bursting && C.burst_guard max_packets p.self && C.buildable p.self then
      some { p with self := C.burst_iter p.self call }
    else none
  | .release, p =>
    if p.bursting && !(C.burst_guard max_packets p.self && C.buildable p.self) then
      some { p with bursting := false }
    else none
  | .datagram data clk, p =>
    if !p.bursting && p.listening then
      let (self, raised) := C.ack_listener cfg clk data p.self
      some { p with self := self, listening := raised.isNone }
    else none
  | .rto now log_us calls, p =>
    if p.bursting then none
    else some { p with
      self := rto_checker C.snapshot C.rto_cut (C.rto_us cfg) now log_us calls p.self }

/-- `__init__`, and the listener thread started by `run`. -/
def SenderClass.start (cfg : C.Config) (monotonic : ℚ) : C.Proc where
  self := {
    next_seq := 0
    cum_acked_seq := -1
    in_flight := ∅
    sock := []
    ctl := C.init cfg monotonic
    events := [] }
  bursting := false
  listening := true

/-- `run` leaves its loop early: everything is sent and nothing is in flight. -/
def SenderClass.drained (max_packets : ℤ) (st : C.Self) : Prop :=
  max_packets ≤ st.next_seq ∧ st.flight = 0

/-- `_build_packet_bytes` raises exactly for the sequence numbers that outgrow their
field. -/
theorem build_packet_bytes_ok (padding : ℕ) {seq : ℤ} (h : 0 ≤ seq) (t : Us) :
    (∃ bs, build_packet_bytes padding seq t = .ok bs) ↔ seq < 2 ^ 32 := by
  constructor
  · rintro ⟨bs, hbs⟩
    unfold build_packet_bytes at hbs
    obtain ⟨body, hbody, -⟩ := bind_eq_ok.mp hbs
    obtain ⟨-, s, b, p, -, -, hp, -⟩ := packet_pack_spec hbody
    unfold DataPayload.pack pack_iqi at hp
    obtain ⟨x, hx, -⟩ := bind_eq_ok.mp hp
    obtain ⟨-, -, -, hlt⟩ := pack_uint_spec hx
    exact lt_of_lt_of_eq hlt (by norm_num)
  · -- the number is the only field that can be out of range
    intro hlt
    have hseq : pack_uint 4 seq = .ok (be 4 seq.toNat) :=
      pack_uint_of_range h (lt_of_lt_of_eq hlt (by norm_num))
    have hz : pack_uint 4 0 = .ok (be 4 0) := pack_uint_of_range (by norm_num) (by norm_num)
    have hp : DataPayload.pack ⟨seq, t.val, 0⟩
        = .ok (be 4 seq.toNat ++ be 8 t.val ++ be 4 0) := by
      rw [DataPayload.pack, pack_iqi]
      simp only [hseq, pack_uint_us, hz, ok_bind]
      rfl
    have hs : Shim.pack { hop_count := ([] : List IntHop).length, max_hops := MAX_HOPS }
        = .ok [0, 0, 4, 0] := by decide
    have hbody : DataPacket.pack { payload := ⟨seq, t.val, 0⟩ }
        = .ok ([0, 0, 4, 0] ++ [] ++ (be 4 seq.toNat ++ be 8 t.val ++ be 4 0)) :=
      packet_pack_of_parts (Nat.zero_le _) hs rfl hp
    refine ⟨[0, 0, 4, 0] ++ [] ++ (be 4 seq.toNat ++ be 8 t.val ++ be 4 0)
      ++ List.replicate padding 0, ?_⟩
    unfold build_packet_bytes
    rw [hbody]
    rfl

/-! ## `in_flight` -/

section

variable {Snap Ctl : Type}

/-- The packets a `pop_range` leaves. -/
theorem lookup_pop_range (d : InFlight Snap) (lo : ℤ) (n : ℕ) (k : ℤ) :
    (pop_range d lo n).lookup k = if lo ≤ k ∧ k < lo + n then none else d.lookup k := by
  induction n generalizing d lo with
  | zero =>
      rw [pop_range, if_neg (by push_cast; omega)]
  | succ n ih =>
      rw [pop_range, ih]
      by_cases hk : k = lo
      · subst hk
        rw [AList.lookup_erase, ite_self, if_pos (by push_cast; omega)]
      · rw [AList.lookup_erase_ne hk]
        split
        · next h => rw [if_pos (by push_cast at h ⊢; omega)]
        · next h => rw [if_neg (by push_cast at h ⊢; omega)]

theorem pop_range_flight_le (d : InFlight Snap) (lo : ℤ) (n : ℕ) :
    (pop_range d lo n).keys.length ≤ d.keys.length := by
  induction n generalizing d lo with
  | zero => exact le_refl _
  | succ n ih =>
      refine le_trans (ih (d.erase lo) (lo + 1)) ?_
      rw [AList.keys_erase]
      exact List.length_erase_le

theorem mem_iff_lookup {d : InFlight Snap} {k : ℤ} : k ∈ d ↔ ∃ e, d.lookup k = some e := by
  rw [← AList.lookup_isSome, Option.isSome_iff_exists]

/-- The flight as the loop of an RTO pass takes it: each number once, in order. -/
theorem mem_sorted {d : InFlight Snap} {k : ℤ} : k ∈ d.keys.insertionSort (· ≤ ·) ↔ k ∈ d := by
  rw [List.mem_insertionSort, AList.mem_keys]

theorem nodup_sorted (d : InFlight Snap) : (d.keys.insertionSort (· ≤ ·)).Nodup :=
  (List.perm_insertionSort _ _).nodup_iff.mpr d.keys_nodup

/-- After an ACK, the packets above the acknowledged number are untouched. -/
theorem lookup_acked (st : Transport Snap) (ack_seq k : ℤ) :
    (st.acked ack_seq).in_flight.lookup k
      = if st.cum_acked_seq < k ∧ k ≤ ack_seq then none else st.in_flight.lookup k := by
  unfold Transport.acked
  split
  · next h =>
    rw [lookup_pop_range]
    have hn : ((ack_seq - st.cum_acked_seq).toNat : ℤ) = ack_seq - st.cum_acked_seq :=
      Int.toNat_of_nonneg (by omega)
    rw [hn]
    by_cases hk : st.cum_acked_seq < k ∧ k ≤ ack_seq
    · rw [if_pos hk, if_pos (by omega)]
    · rw [if_neg hk, if_neg (by omega)]
  · next h => rw [if_neg (by omega)]

/-- What an ACK leaves in flight was there before, and the ACK does not cover it. -/
theorem lookup_acked_eq_some {st : Transport Snap} {ack_seq k : ℤ} {e : Entry Snap} :
    (st.acked ack_seq).in_flight.lookup k = some e ↔
      st.in_flight.lookup k = some e ∧ ¬ (st.cum_acked_seq < k ∧ k ≤ ack_seq) := by
  rw [lookup_acked]
  by_cases hk : st.cum_acked_seq < k ∧ k ≤ ack_seq
  · rw [if_pos hk]
    exact iff_of_false (Option.some_ne_none e).symm fun h => h.2 hk
  · rw [if_neg hk]
    exact (and_iff_left hk).symm

theorem mem_acked {st : Transport Snap} {ack_seq k : ℤ} :
    k ∈ (st.acked ack_seq).in_flight ↔
      k ∈ st.in_flight ∧ ¬ (st.cum_acked_seq < k ∧ k ≤ ack_seq) := by
  simp only [mem_iff_lookup, lookup_acked_eq_some, exists_and_right]

theorem acked_cum (st : Transport Snap) (ack_seq : ℤ) :
    (st.acked ack_seq).cum_acked_seq = max st.cum_acked_seq ack_seq := by
  unfold Transport.acked
  split
  · next h => exact (max_eq_right h.le).symm
  · next h => exact (max_eq_left (not_lt.mp h)).symm

@[simp] theorem acked_next (st : Transport Snap) (ack_seq : ℤ) :
    (st.acked ack_seq).next_seq = st.next_seq := by
  unfold Transport.acked
  split <;> rfl

@[simp] theorem acked_sock (st : Transport Snap) (ack_seq : ℤ) :
    (st.acked ack_seq).sock = st.sock := by
  unfold Transport.acked
  split <;> rfl

theorem acked_flight_le (st : Transport Snap) (ack_seq : ℤ) :
    (st.acked ack_seq).flight ≤ st.flight := by
  unfold Transport.acked
  split
  · exact pop_range_flight_le _ _ _
  · exact le_refl _

/-- At or below the highest acknowledged number an ACK changes nothing. -/
theorem acked_of_le {st : Transport Snap} {ack_seq : ℤ} (h : ack_seq ≤ st.cum_acked_seq) :
    st.acked ack_seq = st := by
  unfold Transport.acked
  rw [if_neg (by omega)]

/-! ## `send_locked` -/

@[simp] theorem log_event_toTransport (st : Sender Snap Ctl) (t : Us) (ev : EventKind)
    (seq rtt echo : ℤ) : (st.log_event t ev seq rtt echo).toTransport = st.toTransport := rfl

@[simp] theorem log_event_ctl (st : Sender Snap Ctl) (t : Us) (ev : EventKind)
    (seq rtt echo : ℤ) : (st.log_event t ev seq rtt echo).ctl = st.ctl := rfl

variable (snapshot : Ctl → Snap)

/-- A send leaves the controller alone. -/
@[simp] theorem send_locked_ctl (st : Sender Snap Ctl) (seq : ℤ) (call : SendCall) :
    (send_locked snapshot st seq call).ctl = st.ctl := by
  cases call with
  | os_error b => rfl
  | ok b t l =>
      unfold send_locked
      dsimp only
      split <;> rfl

@[simp] theorem send_locked_next (st : Sender Snap Ctl) (seq : ℤ) (call : SendCall) :
    (send_locked snapshot st seq call).next_seq = st.next_seq := by
  cases call with
  | os_error b => rfl
  | ok b t l =>
      unfold send_locked
      dsimp only
      split <;> rfl

@[simp] theorem send_locked_cum (st : Sender Snap Ctl) (seq : ℤ) (call : SendCall) :
    (send_locked snapshot st seq call).cum_acked_seq = st.cum_acked_seq := by
  cases call with
  | os_error b => rfl
  | ok b t l =>
      unfold send_locked
      dsimp only
      split <;> rfl

/-- The packets in flight after a send: all that were, and `seq` if the call went
through. -/
theorem mem_send_locked {st : Sender Snap Ctl} {seq k : ℤ} {call : SendCall} :
    k ∈ (send_locked snapshot st seq call).in_flight
      ↔ k ∈ st.in_flight ∨ (k = seq ∧ call.sent = true) := by
  cases call with
  | os_error b => simp [send_locked, SendCall.sent]
  | ok b t l =>
      unfold send_locked
      dsimp only
      split
      · simp only [log_event_toTransport, AList.mem_insert, SendCall.sent, and_true]
        exact or_comm
      · simp only [log_event_toTransport, AList.mem_insert, SendCall.sent, and_true]
        exact or_comm

/-- Another packet's entry is untouched. -/
theorem lookup_send_locked_ne {st : Sender Snap Ctl} {seq k : ℤ} {call : SendCall}
    (h : k ≠ seq) :
    (send_locked snapshot st seq call).in_flight.lookup k = st.in_flight.lookup k := by
  cases call with
  | os_error b => rfl
  | ok b t l =>
      unfold send_locked
      dsimp only
      split
      · exact AList.lookup_insert_ne h
      · exact AList.lookup_insert_ne h

/-- A first send stores the snapshot of the controller at that moment. -/
theorem lookup_send_locked_new {st : Sender Snap Ctl} {seq : ℤ} {b t l : Us}
    (h : seq ∉ st.in_flight) :
    (send_locked snapshot st seq (.ok b t l)).in_flight.lookup seq
      = some ⟨t.val, snapshot st.ctl, 0⟩ := by
  unfold send_locked
  dsimp only
  rw [AList.lookup_eq_none.mpr h]
  exact AList.lookup_insert _

/-- `len(in_flight)` grows by at most one. -/
theorem send_locked_flight_le (st : Sender Snap Ctl) (seq : ℤ) (call : SendCall) :
    (send_locked snapshot st seq call).flight ≤ st.flight + 1 := by
  have hins : ∀ e, (st.in_flight.insert seq e).keys.length ≤ st.in_flight.keys.length + 1 := by
    intro e
    rw [AList.keys_insert, List.length_cons]
    exact Nat.succ_le_succ List.length_erase_le
  cases call with
  | os_error b => exact Nat.le_succ _
  | ok b t l =>
      unfold send_locked
      dsimp only
      split
      · exact hins _
      · exact hins _

/-- The packet a send puts on the network: none if the call failed. -/
def SendCall.packets (seq : ℤ) : SendCall → List DataPayload
  | .ok b _ _ => [⟨seq, b.val, 0⟩]
  | .os_error _ => []

theorem SendCall.mem_packets {seq : ℤ} {call : SendCall} {pkt : DataPayload}
    (h : pkt ∈ call.packets seq) : pkt.seq = seq := by
  cases call with
  | os_error b => exact absurd h List.not_mem_nil
  | ok b t l => rw [List.mem_singleton.mp h]

theorem SendCall.packets_of_sent {call : SendCall} (h : call.sent = true) (seq : ℤ) :
    ∃ pkt ∈ call.packets seq, pkt.seq = seq := by
  cases call with
  | os_error b => cases h
  | ok b t l => exact ⟨_, List.mem_singleton.mpr rfl, rfl⟩

/-- The packets handed to the network: one more if the call went through. -/
theorem send_locked_sock (st : Sender Snap Ctl) (seq : ℤ) (call : SendCall) :
    (send_locked snapshot st seq call).sock = st.sock ++ call.packets seq := by
  cases call with
  | os_error b => exact (List.append_nil _).symm
  | ok b t l =>
      unfold send_locked
      dsimp only
      split <;> rfl

/-- The entry a send makes for a packet that is not in flight, if the call goes
through. -/
def SendCall.entry (snap : Snap) : SendCall → Option (Entry Snap)
  | .ok _ ts _ => some ⟨ts.val, snap, 0⟩
  | .os_error _ => none

theorem SendCall.entry_isSome (snap : Snap) (call : SendCall) :
    (call.entry snap).isSome = call.sent := by
  cases call with
  | ok b t l => rfl
  | os_error b => rfl

/-- `in_flight` after a first send. -/
theorem lookup_send_locked {st : Sender Snap Ctl} {seq : ℤ} (call : SendCall)
    (h : seq ∉ st.in_flight) (k : ℤ) :
    (send_locked snapshot st seq call).in_flight.lookup k
      = if k = seq then call.entry (snapshot st.ctl) else st.in_flight.lookup k := by
  by_cases hk : k = seq
  · rw [if_pos hk, hk]
    cases call with
    | ok b t l => exact lookup_send_locked_new snapshot h
    | os_error b => exact AList.lookup_eq_none.mpr h
  · rw [if_neg hk]
    exact lookup_send_locked_ne snapshot hk

/-- An entry after a first send is the one just made, with the stamp of its call, or an
old one. -/
theorem first_send_entry {st : Sender Snap Ctl} {seq k : ℤ} {call : SendCall} {e : Entry Snap}
    (hnew : seq ∉ st.in_flight)
    (h : (send_locked snapshot st seq call).in_flight.lookup k = some e) :
    (k = seq ∧ ∃ b t l, call = .ok b t l ∧ e = ⟨t.val, snapshot st.ctl, 0⟩) ∨
      (k ≠ seq ∧ st.in_flight.lookup k = some e) := by
  rw [lookup_send_locked snapshot call hnew] at h
  by_cases hk : k = seq
  · rw [if_pos hk] at h
    refine Or.inl ⟨hk, ?_⟩
    cases call with
    | os_error b => cases h
    | ok b t l => exact ⟨b, t, l, rfl, (Option.some.inj h).symm⟩
  · rw [if_neg hk] at h
    exact Or.inr ⟨hk, h⟩

/-! ## The retransmission loop -/

@[simp] theorem resend_all_ctl (calls : ℤ → SendCall) (seqs : List ℤ) (st : Sender Snap Ctl) :
    (resend_all snapshot calls seqs st).ctl = st.ctl := by
  induction seqs generalizing st with
  | nil => rfl
  | cons s seqs ih => rw [resend_all, ih, send_locked_ctl]

@[simp] theorem resend_all_next (calls : ℤ → SendCall) (seqs : List ℤ) (st : Sender Snap Ctl) :
    (resend_all snapshot calls seqs st).next_seq = st.next_seq := by
  induction seqs generalizing st with
  | nil => rfl
  | cons s seqs ih => rw [resend_all, ih, send_locked_next]

@[simp] theorem resend_all_cum (calls : ℤ → SendCall) (seqs : List ℤ) (st : Sender Snap Ctl) :
    (resend_all snapshot calls seqs st).cum_acked_seq = st.cum_acked_seq := by
  induction seqs generalizing st with
  | nil => rfl
  | cons s seqs ih => rw [resend_all, ih, send_locked_cum]

/-- `in_flight` after resending `seqs`, none of which was in flight: each one whose call
went through has a fresh entry. -/
theorem lookup_resend_all (calls : ℤ → SendCall) {seqs : List ℤ} {st : Sender Snap Ctl}
    (hnd : seqs.Nodup) (hnew : ∀ s ∈ seqs, s ∉ st.in_flight) (k : ℤ) :
    (resend_all snapshot calls seqs st).in_flight.lookup k
      = if k ∈ seqs then (calls k).entry (snapshot st.ctl) else st.in_flight.lookup k := by
  induction seqs generalizing st with
  | nil => rw [resend_all, if_neg List.not_mem_nil]
  | cons s seqs ih =>
      obtain ⟨hs, hnd⟩ := List.nodup_cons.mp hnd
      have hsnew : s ∉ st.in_flight := hnew s List.mem_cons_self
      -- the numbers still to come are not in the table yet
      have hrest : ∀ r ∈ seqs, r ∉ (send_locked snapshot st s (calls s)).in_flight := by
        intro r hr hmem
        rcases (mem_send_locked snapshot).mp hmem with h' | ⟨rfl, -⟩
        · exact hnew r (List.mem_cons_of_mem _ hr) h'
        · exact hs hr
      rw [resend_all, ih hnd hrest, send_locked_ctl, lookup_send_locked snapshot _ hsnew]
      by_cases hk : k = s
      · subst hk
        rw [if_neg hs, if_pos rfl, if_pos List.mem_cons_self]
      · rw [if_neg hk]
        by_cases hmem : k ∈ seqs
        · rw [if_pos hmem, if_pos (List.mem_cons_of_mem _ hmem)]
        · rw [if_neg hmem, if_neg (by simp [hk, hmem])]

theorem resend_all_flight_le (calls : ℤ → SendCall) (seqs : List ℤ) (st : Sender Snap Ctl) :
    (resend_all snapshot calls seqs st).flight ≤ st.flight + seqs.length := by
  induction seqs generalizing st with
  | nil => exact le_refl _
  | cons s seqs ih =>
      have h₁ := ih (send_locked snapshot st s (calls s))
      have h₂ := send_locked_flight_le snapshot st s (calls s)
      rw [resend_all, List.length_cons]
      omega

/-- The packets a retransmission hands to the network: those of `seqs`, in this order. -/
theorem resend_all_sock (calls : ℤ → SendCall) (seqs : List ℤ) (st : Sender Snap Ctl) :
    (resend_all snapshot calls seqs st).sock
      = st.sock ++ seqs.flatMap fun s => (calls s).packets s := by
  induction seqs generalizing st with
  | nil => exact (List.append_nil _).symm
  | cons s seqs ih =>
      rw [resend_all, ih, send_locked_sock, List.flatMap_cons, List.append_assoc]

theorem mem_sock_resend_all (calls : ℤ → SendCall) {seqs : List ℤ} {st : Sender Snap Ctl}
    {pkt : DataPayload} (h : pkt ∈ (resend_all snapshot calls seqs st).sock) :
    pkt ∈ st.sock ∨ pkt.seq ∈ seqs := by
  rw [resend_all_sock, List.mem_append, List.mem_flatMap] at h
  rcases h with h | ⟨s, hs, h⟩
  · exact Or.inl h
  · rw [SendCall.mem_packets h]
    exact Or.inr hs

/-- What has been handed to the network stays handed. -/
theorem sock_sub_resend_all (calls : ℤ → SendCall) (seqs : List ℤ) (st : Sender Snap Ctl) :
    st.sock ⊆ (resend_all snapshot calls seqs st).sock := by
  rw [resend_all_sock]
  exact List.subset_append_left _ _

/-! ## The timeout -/

theorem rto_min_le (base_rtt_s : ℚ) : RTO_MIN_S ≤ rto_seconds base_rtt_s := le_max_left _ _

theorem rto_le_max (base_rtt_s : ℚ) : rto_seconds base_rtt_s ≤ RTO_MAX_S := by
  refine max_le ?_ (min_le_left _ _)
  norm_num [RTO_MIN_S, RTO_MAX_S]

/-- The exact product meets the three laws. -/
theorem exact_min_le (base_rtt_s : ℚ) :
    20000 ≤ py_int (rto_seconds base_rtt_s * 1000000) := by
  have hmin := rto_min_le base_rtt_s
  simp only [RTO_MIN_S] at hmin
  have hle : py_int (20000 : ℤ) ≤ py_int (rto_seconds base_rtt_s * 1000000) := by
    apply py_int_mono
    · norm_num
    · push_cast
      linarith
  rwa [py_int_intCast] at hle

theorem exact_at_max (base_rtt_s : ℚ) (h : 1 ≤ rto_seconds base_rtt_s) :
    py_int (rto_seconds base_rtt_s * 1000000) = 1000000 := by
  have hmax := rto_le_max base_rtt_s
  simp only [RTO_MAX_S] at hmax
  have hone : rto_seconds base_rtt_s * 1000000 = (1000000 : ℤ) := by
    rw [le_antisymm hmax h]
    norm_num
  rw [hone, py_int_intCast]

theorem exact_near (base_rtt_s : ℚ) :
    |(py_int (rto_seconds base_rtt_s * 1000000) : ℚ) - rto_seconds base_rtt_s * 1000000| < 2 := by
  have hmin := rto_min_le base_rtt_s
  simp only [RTO_MIN_S] at hmin
  have hpos : 0 ≤ rto_seconds base_rtt_s * 1000000 := by linarith
  -- truncation drops less than one
  have hlt := lt_py_int_add_one hpos
  have hle : (py_int (rto_seconds base_rtt_s * 1000000) : ℚ) ≤ rto_seconds base_rtt_s * 1000000 := by
    rw [py_int_of_nonneg hpos]
    exact Int.floor_le _
  rw [abs_lt]
  constructor
  · linarith
  · linarith

/-- The value exact arithmetic gives. -/
def exact_rto_us (base_rtt_s : ℚ) : RtoUs (rto_seconds base_rtt_s) where
  val := py_int (rto_seconds base_rtt_s * 1000000)
  min_le := exact_min_le base_rtt_s
  at_max := exact_at_max base_rtt_s
  near := exact_near base_rtt_s

/-- The timeout is at least a base RTT, for base RTTs up to a second. -/
theorem RtoUs.base_rtt_le {base_rtt_s : ℚ} (r : RtoUs (rto_seconds base_rtt_s))
    (h : base_rtt_s ≤ 1) : base_rtt_s * 1000000 ≤ r.val := by
  have hmin : (20000 : ℚ) ≤ r.val := by exact_mod_cast r.min_le
  -- the clamp of `rto_s` decides which of its three arguments counts
  by_cases hsmall : base_rtt_s ≤ RTO_MIN_S
  · simp only [RTO_MIN_S] at hsmall
    linarith
  · simp only [RTO_MIN_S, not_le] at hsmall
    by_cases hbig : 3 * base_rtt_s ≤ 1
    · -- three base RTTs, less the two microseconds that rounding can take
      have hrto : 3 * base_rtt_s ≤ rto_seconds base_rtt_s := by
        unfold rto_seconds RTO_MAX_S
        exact le_max_of_le_right (le_min hbig (le_refl _))
      have hnear := (abs_lt.mp r.near).1
      linarith
    · have hone : (1 : ℚ) ≤ rto_seconds base_rtt_s := by
        unfold rto_seconds RTO_MAX_S
        exact le_max_of_le_right (le_min (le_refl _) (not_le.mp hbig).le)
      rw [r.at_max hone]
      push_cast
      linarith

/-! ## The RTO pass -/

section

variable {snapshot}
variable {cut : Ctl → Ctl} {rto_us : ℤ} {now log_us : Us} {calls : ℤ → SendCall}
  {st : Sender Snap Ctl}

theorem expired_iff {st : Transport Snap} {now rto : ℤ} :
    expired st now rto = true ↔ ∃ s e, st.in_flight.lookup s = some e ∧ rto ≤ now - e.send_ts_us := by
  unfold expired
  rw [List.any_eq_true]
  constructor
  · rintro ⟨⟨s, e⟩, hmem, hd⟩
    exact ⟨s, e, AList.mem_lookup_iff.mpr hmem, of_decide_eq_true hd⟩
  · rintro ⟨s, e, hl, hd⟩
    exact ⟨⟨s, e⟩, AList.mem_lookup_iff.mp hl, decide_eq_true hd⟩

/-- Nothing expired: the pass changes nothing. -/
theorem rto_checker_quiet (h : expired st.toTransport now.val rto_us = false) :
    rto_checker snapshot cut rto_us now log_us calls st = st := by
  unfold rto_checker
  rw [h]
  rfl

variable (h : expired st.toTransport now.val rto_us = true)

include h

/-- Something expired: the cut, and the retransmission loop over an empty map. -/
theorem rto_checker_fired :
    rto_checker snapshot cut rto_us now log_us calls st
      = resend_all snapshot calls (st.in_flight.keys.insertionSort (· ≤ ·))
          { ({ st with ctl := cut st.ctl }.log_event log_us .rto (-1) 0 0) with in_flight := ∅ } := by
  unfold rto_checker
  rw [if_pos h]
  rfl

theorem rto_fired_ctl :
    (rto_checker snapshot cut rto_us now log_us calls st).ctl = cut st.ctl := by
  rw [rto_checker_fired h, resend_all_ctl]
  rfl

theorem rto_fired_lookup (k : ℤ) :
    (rto_checker snapshot cut rto_us now log_us calls st).in_flight.lookup k
      = if k ∈ st.in_flight then (calls k).entry (snapshot (cut st.ctl)) else none := by
  rw [rto_checker_fired h, lookup_resend_all snapshot calls (nodup_sorted st.in_flight)
    (fun s _ => AList.notMem_empty s)]
  by_cases hk : k ∈ st.in_flight
  · rw [if_pos hk, if_pos (mem_sorted.mpr hk)]
    rfl
  · rw [if_neg hk, if_neg (fun h' => hk (mem_sorted.mp h'))]
    exact AList.lookup_empty k

/-- What is in flight after a pass that fires was in flight before, and has been sent again
in the pass. -/
theorem rto_fired_entry {k : ℤ} {e : Entry Snap}
    (he : (rto_checker snapshot cut rto_us now log_us calls st).in_flight.lookup k = some e) :
    k ∈ st.in_flight ∧
      ∃ b t l, calls k = .ok b t l ∧ e = ⟨t.val, snapshot (cut st.ctl), 0⟩ := by
  rw [rto_fired_lookup h] at he
  by_cases hk : k ∈ st.in_flight
  · rw [if_pos hk] at he
    refine ⟨hk, ?_⟩
    cases hc : calls k with
    | os_error b =>
        -- what could not be sent again is forgotten
        rw [hc] at he
        cases he
    | ok b t l =>
        rw [hc, SendCall.entry, Option.some.injEq] at he
        exact ⟨b, t, l, rfl, he.symm⟩
  · rw [if_neg hk] at he
    cases he

theorem mem_of_rto_fired {k : ℤ}
    (hk : k ∈ (rto_checker snapshot cut rto_us now log_us calls st).in_flight) :
    k ∈ st.in_flight := by
  rw [← AList.lookup_isSome] at hk
  obtain ⟨e, he⟩ := Option.isSome_iff_exists.mp hk
  exact (rto_fired_entry h he).1

/-- Every packet in flight is handed to the network once more, if its call goes through. -/
theorem rto_fired_sock :
    (rto_checker snapshot cut rto_us now log_us calls st).sock
      = st.sock ++ (st.in_flight.keys.insertionSort (· ≤ ·)).flatMap
          fun s => (calls s).packets s := by
  rw [rto_checker_fired h, resend_all_sock]
  rfl

theorem rto_fired_flight_le :
    (rto_checker snapshot cut rto_us now log_us calls st).flight ≤ st.flight := by
  rw [rto_checker_fired h]
  refine le_trans (resend_all_flight_le snapshot calls _ _) ?_
  rw [List.length_insertionSort]
  exact (Nat.zero_add _).le

end

end

end IntHpcc.SenderCore
