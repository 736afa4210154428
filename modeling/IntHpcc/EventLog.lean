/-
What each event writes to the event log of a Python sender.

The log is only ever appended to. A send that goes through writes one row, `rtx` if the
packet is in flight and `send` if it is not; an RTO pass that fires writes `rto` and then
one row for each packet it sends; an ACK the listener accepts writes one row, `ack` or,
in `HpccSenderV2`, `ack_stale`, and perhaps an `update`. `accepts` is the listener's
decision, read off the source and not off the log.
-/
import IntHpcc.Network

set_option autoImplicit false

namespace IntHpcc.EventLog

open IntHpcc.Runs IntHpcc.Bytes IntHpcc.Py IntHpcc.PacketFormat IntHpcc.SenderCore
open IntHpcc.SenderWindow IntHpcc.Network

/-- What a row says was done, and to which number. -/
def tag (r : LogEvent) : EventKind × ℤ := (r.event, r.seq)

/-! ## Sending -/

section

variable {Snap Ctl : Type} (snapshot : Ctl → Snap)

/-- The name a send is logged under. -/
def send_name (st : Transport Snap) (seq : ℤ) : EventKind :=
  if seq ∈ st.in_flight then .rtx else .send

/-- A send writes one row if the call goes through. -/
theorem send_locked_events (st : Sender Snap Ctl) (seq : ℤ) (call : SendCall) :
    ∃ new, (send_locked snapshot st seq call).events = st.events ++ new ∧
      new.map tag = if call.sent then [(send_name st.toTransport seq, seq)] else [] := by
  cases call with
  | os_error b => exact ⟨[], (List.append_nil _).symm, rfl⟩
  | ok b t l =>
      unfold send_locked send_name
      dsimp only
      cases he : st.in_flight.lookup seq with
      | none =>
          rw [if_neg (AList.lookup_eq_none.mp he)]
          exact ⟨_, rfl, rfl⟩
      | some e =>
          rw [if_pos (mem_iff_lookup.mpr ⟨e, he⟩)]
          exact ⟨_, rfl, rfl⟩

/-- The retransmission loop over numbers that are not in flight: each packet that leaves
is logged as sent. -/
theorem resend_all_events (calls : ℤ → SendCall) {seqs : List ℤ} (st : Sender Snap Ctl)
    (hnd : seqs.Nodup) (hnew : ∀ s ∈ seqs, s ∉ st.in_flight) :
    ∃ new, (resend_all snapshot calls seqs st).events = st.events ++ new ∧
      new.map tag = (seqs.filter fun s => (calls s).sent).map fun s => (.send, s) := by
  induction seqs generalizing st with
  | nil => exact ⟨[], (List.append_nil _).symm, rfl⟩
  | cons s seqs ih =>
      obtain ⟨hs, hnd⟩ := List.nodup_cons.mp hnd
      have hrest : ∀ r ∈ seqs, r ∉ (send_locked snapshot st s (calls s)).in_flight := by
        intro r hr hmem
        rcases (mem_send_locked snapshot).mp hmem with hold | ⟨rfl, -⟩
        · exact hnew r (List.mem_cons_of_mem _ hr) hold
        · exact hs hr
      obtain ⟨new, hev, htag⟩ := send_locked_events snapshot st s (calls s)
      obtain ⟨rest, hrestev, hresttag⟩ := ih _ hnd hrest
      -- it is not in flight any more, so its row says `send`
      have hname : send_name st.toTransport s = .send := if_neg (hnew s List.mem_cons_self)
      refine ⟨new ++ rest, ?_, ?_⟩
      · rw [resend_all, hrestev, hev, List.append_assoc]
      · rw [List.map_append, htag, hresttag, hname, List.filter_cons]
        split
        · rfl
        · rfl

variable (cut : Ctl → Ctl) {rto_us : ℤ} {now : Us} (log_us : Us) (calls : ℤ → SendCall)
  {st : Sender Snap Ctl}

/-- The row of an RTO pass that fires. -/
def rto_row (st : Transport Snap) (log_us : Us) : LogEvent :=
  ⟨log_us.val, .rto, -1, 0, 0, st.cum_acked_seq, st.flight⟩

/-- A pass that fires: the `rto` row, then a `send` row for each packet that leaves. -/
theorem rto_fired_events (h : expired st.toTransport now.val rto_us = true) :
    ∃ new, (rto_checker snapshot cut rto_us now log_us calls st).events
        = st.events ++ rto_row st.toTransport log_us :: new ∧
      new.map tag = ((st.in_flight.keys.insertionSort (· ≤ ·)).filter
        fun s => (calls s).sent).map fun s => (.send, s) := by
  obtain ⟨new, hev, htag⟩ := resend_all_events snapshot calls
    { ({ st with ctl := cut st.ctl }.log_event log_us .rto (-1) 0 0) with in_flight := ∅ }
    (nodup_sorted st.in_flight) (fun s _ => AList.notMem_empty s)
  refine ⟨new, ?_, htag⟩
  rw [rto_checker_fired h, hev]
  exact List.append_assoc _ [rto_row st.toTransport log_us] new

end

/-! ## Acknowledging -/

/-- The listener of `DctcpSender` passes the datagram to `_on_ack_locked`. -/
def dctcp_accepts (data : List Byte) (st : Dctcp.Self) : Bool :=
  match Dctcp.read_ack data with
  | .ok (some (_, ack)) =>
    !decide (Dctcp.send_ts st ack.ack_seq = 0 ∧ ack.ack_seq ≤ st.cum_acked_seq)
  | _ => false

/-- So does that of `HpccSender` and `HpccSenderV2`. -/
def hpcc_accepts (data : List Byte) (st : Hpcc.Self) : Bool :=
  match Hpcc.parse_ack (data.take Hpcc.RECV_BUF) with
  | .ok (some (_, _, ack)) =>
    !decide (st.in_flight.lookup ack.ack_seq = none ∧ ack.ack_seq ≤ st.cum_acked_seq)
  | _ => false

/-- The ACK is accepted. -/
def accepts : (k : SenderKind) → List Byte → k.cls.Self → Bool
  | .dctcp => dctcp_accepts
  | .hpcc => hpcc_accepts
  | .hpcc_v2 => hpcc_accepts

theorem dctcp_rejected (cfg : Dctcp.Config) (clk : AckClock) {data : List Byte} {st : Dctcp.Self}
    (h : dctcp_accepts data st = false) : Dctcp.ack_listener cfg clk data st = (st, none) := by
  obtain ⟨r, hr⟩ := Dctcp.read_ack_ok data
  unfold dctcp_accepts at h
  unfold Dctcp.ack_listener
  rw [hr] at h ⊢
  rcases r with _ | ⟨shim, ack⟩
  · rfl
  · dsimp only at h ⊢
    rw [Bool.not_eq_false', decide_eq_true_eq] at h
    rw [if_pos h]

theorem dctcp_accepted (cfg : Dctcp.Config) (clk : AckClock) {data : List Byte} {st : Dctcp.Self}
    (h : dctcp_accepts data st = true) :
    ∃ shim ack rtt_us, Dctcp.read_ack data = .ok (some (shim, ack)) ∧
      Dctcp.ack_listener cfg clk data st =
        Dctcp.on_ack_locked cfg clk ack.ack_seq (if shim.ecn_echo then 1 else 0) rtt_us st := by
  obtain ⟨r, hr⟩ := Dctcp.read_ack_ok data
  unfold dctcp_accepts at h
  unfold Dctcp.ack_listener
  rw [hr] at h ⊢
  rcases r with _ | ⟨shim, ack⟩
  · cases h
  · dsimp only at h ⊢
    rw [Bool.not_eq_true', decide_eq_false_iff_not] at h
    rw [if_neg h]
    exact ⟨shim, ack, _, rfl, rfl⟩

section

variable (locked : AckPayload → List IntHop → Option (Entry Hpcc.Snap) → Hpcc.Self →
  Hpcc.Self × Option PyError) {data : List Byte} {st : Hpcc.Self}

theorem hpcc_rejected (h : hpcc_accepts data st = false) :
    Hpcc.listen locked data st = (st, none) := by
  obtain ⟨r, hr⟩ := Hpcc.parse_ack_ok (data.take Hpcc.RECV_BUF)
  unfold hpcc_accepts at h
  unfold Hpcc.listen
  rw [hr] at h ⊢
  rcases r with _ | ⟨shim, hops, ack⟩
  · rfl
  · dsimp only at h ⊢
    rw [Bool.not_eq_false', decide_eq_true_eq] at h
    rw [if_pos h]

theorem hpcc_accepted (h : hpcc_accepts data st = true) :
    ∃ hops ack, Hpcc.listen locked data st
      = locked ack hops (st.in_flight.lookup ack.ack_seq) st := by
  obtain ⟨r, hr⟩ := Hpcc.parse_ack_ok (data.take Hpcc.RECV_BUF)
  unfold hpcc_accepts at h
  unfold Hpcc.listen
  rw [hr] at h ⊢
  rcases r with _ | ⟨shim, hops, ack⟩
  · cases h
  · dsimp only at h ⊢
    rw [Bool.not_eq_true', decide_eq_false_iff_not] at h
    rw [if_neg h]
    exact ⟨hops, ack, rfl⟩

end

/-- The `ecn_echo` `_on_ack_locked` is called with; the HPCC senders do not pass it on. -/
def ecn_echo : SenderKind → List Byte → ℤ
  | .dctcp, data =>
    match Dctcp.read_ack data with
    | .ok (some (shim, _)) => if shim.ecn_echo then 1 else 0
    | _ => 0
  | .hpcc, _ => 0
  | .hpcc_v2, _ => 0

/-- The row of an accepted ACK. Only `HpccSenderV2` knows stale ones, and only the log of
`DctcpSender` has a column for the mark. -/
structure AckRow (k : SenderKind) (data : List Byte) (r : LogEvent) : Prop where
  name : r.event = .ack ∨ (k = .hpcc_v2 ∧ r.event = .ack_stale)
  echo : k = .dctcp → r.echo = ecn_echo k data

theorem dctcp_update_events (cfg : Dctcp.Config) (log_us : Us) (st : Dctcp.Self) :
    ∃ upd, (Dctcp.maybe_update_window_locked cfg log_us st).1.events = st.events ++ upd ∧
      ∀ r ∈ upd, r.event = .update := by
  rw [Dctcp.maybe_update_eq]
  dsimp only
  split
  · refine ⟨_, rfl, ?_⟩
    intro r hr
    rw [List.mem_singleton.mp hr]
  · exact ⟨[], (List.append_nil _).symm, fun r hr => absurd hr List.not_mem_nil⟩

theorem hpcc_update_events (cfg : Hpcc.Config) (clk : AckClock) (gate_w : ℚ) (st : Hpcc.Self) :
    ∃ upd, (Hpcc.update_from cfg clk gate_w st).1.events = st.events ++ upd ∧
      ∀ r ∈ upd, r.event = .update := by
  by_cases heta : cfg.eta = 0
  · rw [Hpcc.update_from_eta_zero heta]
    exact ⟨[], (List.append_nil _).symm, fun r hr => absurd hr List.not_mem_nil⟩
  · rw [Hpcc.update_from_eq heta]
    dsimp only
    split
    · refine ⟨_, rfl, ?_⟩
      intro r hr
      rw [List.mem_singleton.mp hr]
    · exact ⟨[], (List.append_nil _).symm, fun r hr => absurd hr List.not_mem_nil⟩

/-- The row of an ACK and the rows of the update behind it, for both HPCC senders. -/
theorem hpcc_gate_events (cfg : Hpcc.Config) (clk : AckClock) (gate_w : ℚ) (ack_seq : ℤ)
    (hops : List IntHop) (rtt_us : ℤ) (fresh : Bool) (st : Hpcc.Self) :
    ∃ row upd, (Hpcc.update_from cfg clk gate_w
        (Hpcc.before_gate cfg clk ack_seq hops rtt_us fresh st)).1.events
        = st.events ++ row :: upd ∧
      row.event = (if fresh then .ack else .ack_stale) ∧ ∀ r ∈ upd, r.event = .update := by
  obtain ⟨upd, hev, hupd⟩ := hpcc_update_events cfg clk gate_w
    (Hpcc.before_gate cfg clk ack_seq hops rtt_us fresh st)
  refine ⟨⟨clk.log_us.val, if fresh then .ack else .ack_stale, ack_seq, rtt_us, hops.length,
    (st.toTransport.acked ack_seq).cum_acked_seq, (st.toTransport.acked ack_seq).flight⟩,
    upd, ?_, rfl, hupd⟩
  rw [hev]
  exact List.append_assoc _ [_] upd

/-- From `st` to `st'` the log grows by the row of an accepted ACK and what the window
update writes. -/
def LogsAck (k : SenderKind) (data : List Byte) (st st' : k.cls.Self) : Prop :=
  ∃ row upd, st'.events = st.events ++ row :: upd ∧ AckRow k data row ∧
    ∀ r ∈ upd, r.event = .update

theorem dctcp_logs_ack (cfg : Dctcp.Config) (clk : AckClock) {data : List Byte} {st : Dctcp.Self}
    (h : dctcp_accepts data st = true) :
    LogsAck .dctcp data st (Dctcp.ack_listener cfg clk data st).1 := by
  obtain ⟨shim, ack, rtt_us, hread, heq⟩ := dctcp_accepted cfg clk h
  obtain ⟨upd, hev, hupd⟩ := dctcp_update_events cfg clk.update_log_us
    (Dctcp.before_gate clk ack.ack_seq (if shim.ecn_echo then 1 else 0) rtt_us st)
  refine ⟨⟨clk.log_us.val, .ack, ack.ack_seq, rtt_us, if shim.ecn_echo then 1 else 0,
    (st.toTransport.acked ack.ack_seq).cum_acked_seq, (st.toTransport.acked ack.ack_seq).flight⟩,
    upd, ?_, ⟨Or.inl rfl, fun _ => ?_⟩, hupd⟩
  · rw [heq, Dctcp.on_ack_eq, hev]
    exact List.append_assoc _ [_] upd
  · simp only [ecn_echo, hread]

theorem hpcc_logs_ack (cfg : Hpcc.Config) (clk : AckClock) {data : List Byte} {st : Hpcc.Self}
    (h : hpcc_accepts data st = true) :
    LogsAck .hpcc data st (Hpcc.ack_listener cfg clk data st).1 := by
  obtain ⟨hops, ack, heq⟩ := hpcc_accepted (fun ack hops entry st =>
    Hpcc.on_ack_locked cfg clk ack.ack_seq hops (Hpcc.ack_rtt clk.now_us entry) st) h
  let rtt_us := Hpcc.ack_rtt clk.now_us (st.in_flight.lookup ack.ack_seq)
  obtain ⟨row, upd, hev, hname, hupd⟩ := hpcc_gate_events cfg clk
    (Hpcc.before_gate cfg clk ack.ack_seq hops rtt_us true st).ctl.w_ref ack.ack_seq hops rtt_us
    true st
  refine ⟨row, upd, ?_, ⟨Or.inl hname, fun h => by cases h⟩, hupd⟩
  rw [Hpcc.ack_listener, heq, Hpcc.on_ack_eq]
  exact hev

theorem hpcc_v2_logs_ack (cfg : Hpcc.Config) (clk : AckClock) {data : List Byte} {st : Hpcc.Self}
    (h : hpcc_accepts data st = true) :
    LogsAck .hpcc_v2 data st (HpccV2.ack_listener cfg clk data st).1 := by
  obtain ⟨hops, ack, heq⟩ := hpcc_accepted (fun ack hops entry st =>
    HpccV2.on_ack_locked cfg clk ack.ack_seq hops (Hpcc.ack_rtt clk.now_us entry)
      (HpccV2.inc_snap entry st) st) h
  -- a packet sent under another incarnation makes the ACK stale
  let fresh := decide
    (HpccV2.inc_snap (st.in_flight.lookup ack.ack_seq) st = st.ctl.incarnation)
  let rtt_us := Hpcc.ack_rtt clk.now_us (st.in_flight.lookup ack.ack_seq)
  obtain ⟨row, upd, hev, hname, hupd⟩ := hpcc_gate_events cfg clk
    (HpccV2.earliest_unacked_w_ref (Hpcc.before_gate cfg clk ack.ack_seq hops rtt_us fresh st))
    ack.ack_seq hops rtt_us fresh st
  refine ⟨row, upd, ?_, ⟨?_, fun h => by cases h⟩, hupd⟩
  · rw [HpccV2.ack_listener, heq, HpccV2.on_ack_eq]
    exact hev
  · cases hf : fresh with
    | true =>
        rw [hf] at hname
        exact Or.inl hname
    | false =>
        rw [hf] at hname
        exact Or.inr ⟨rfl, hname⟩

/-- An accepted ACK is logged once. -/
theorem accepted_events (k : SenderKind) (cfg : k.cls.Config) (clk : AckClock) {data : List Byte}
    {st : k.cls.Self} (h : accepts k data st = true) :
    LogsAck k data st (k.cls.ack_listener cfg clk data st).1 := by
  cases k with
  | dctcp => exact dctcp_logs_ack cfg clk h
  | hpcc => exact hpcc_logs_ack cfg clk h
  | hpcc_v2 => exact hpcc_v2_logs_ack cfg clk h

/-- An ACK that is not accepted changes nothing. -/
theorem rejected_ack (k : SenderKind) (cfg : k.cls.Config) (clk : AckClock) {data : List Byte}
    {st : k.cls.Self} (h : accepts k data st = false) :
    k.cls.ack_listener cfg clk data st = (st, none) := by
  cases k with
  | dctcp => exact dctcp_rejected cfg clk h
  | hpcc =>
      show Hpcc.ack_listener cfg clk data st = (st, none)
      exact hpcc_rejected _ h
  | hpcc_v2 =>
      show HpccV2.ack_listener cfg clk data st = (st, none)
      exact hpcc_rejected _ h

/-! ## One event -/

/-- The rows are of packets that leave. -/
def SendRows (new : List LogEvent) : Prop := ∀ r ∈ new, r.event = .send ∨ r.event = .rtx

theorem sendRows_of_tag {new : List LogEvent} {l : List (EventKind × ℤ)} (htag : new.map tag = l)
    (hl : ∀ x ∈ l, x.1 = .send ∨ x.1 = .rtx) : SendRows new := by
  intro r hr
  apply hl (tag r)
  rw [← htag]
  exact List.mem_map_of_mem hr

section

variable {k : SenderKind} {cfg : k.cls.Config} {mp : Option ℤ} {p p' : k.cls.Proc}

/-- The rows an event of the threads writes: for an ACK that is accepted, its row and the
rows of the update; for an RTO pass that fires, the `rto` row and those of the packets it
sends; otherwise none but of packets that leave. -/
inductive Written (k : SenderKind) (cfg : k.cls.Config) (p : k.cls.Proc) :
    Op → List LogEvent → Prop
  | ack {data : List Byte} {clk : AckClock} {row : LogEvent} {upd : List LogEvent}
      (hacc : accepts k data p.self = true) (hrow : AckRow k data row)
      (hupd : ∀ r ∈ upd, r.event = .update) : Written k cfg p (.datagram data clk) (row :: upd)
  | rto {now log_us : Us} {calls : ℤ → SendCall} {sends : List LogEvent}
      (hfires : rto_fires k.cls cfg p.self now = true) (hsends : SendRows sends) :
      Written k cfg p (.rto now log_us calls) (rto_row p.self.toTransport log_us :: sends)
  | other {op : Op} {new : List LogEvent}
      (hack : ∀ data clk, op = .datagram data clk → accepts k data p.self = false)
      (hrto : ∀ now log_us calls, op = .rto now log_us calls →
        rto_fires k.cls cfg p.self now = false) (hnew : SendRows new) : Written k cfg p op new

/-- An event that leaves the object as it is writes nothing. -/
theorem written_nil {op : Op} (hself : p'.self = p.self)
    (hack : ∀ data clk, op = .datagram data clk → accepts k data p.self = false)
    (hrto : ∀ now log_us calls, op = .rto now log_us calls →
      rto_fires k.cls cfg p.self now = false) :
    ∃ new, p'.self.events = p.self.events ++ new ∧ Written k cfg p op new := by
  refine ⟨[], ?_, .other hack hrto fun r hr => absurd hr List.not_mem_nil⟩
  rw [hself, List.append_nil]

/-- **What one event writes to the log.** -/
theorem written_step {op : Op} (hstep : k.cls.step cfg mp op p = some p') :
    ∃ new, p'.self.events = p.self.events ++ new ∧ Written k cfg p op new := by
  cases op with
  | acquire =>
      obtain ⟨-, rfl⟩ := step_acquire.mp hstep
      exact written_nil rfl (fun _ _ h => by cases h) (fun _ _ _ h => by cases h)
  | release =>
      obtain ⟨-, rfl⟩ := step_release.mp hstep
      exact written_nil rfl (fun _ _ h => by cases h) (fun _ _ _ h => by cases h)
  | send call =>
      obtain ⟨-, rfl⟩ := step_send.mp hstep
      obtain ⟨new, hev, htag⟩ := send_locked_events k.cls.snapshot p.self p.self.next_seq call
      -- outside the RTO pass a number may still be in flight, so both names are possible
      refine ⟨new, hev, .other (fun _ _ h => by cases h) (fun _ _ _ h => by cases h)
        (sendRows_of_tag htag ?_)⟩
      intro x hx
      split at hx
      · rw [List.mem_singleton.mp hx]
        unfold send_name
        split
        · exact Or.inr rfl
        · exact Or.inl rfl
      · cases hx
  | datagram data clk =>
      obtain ⟨-, rfl⟩ := step_datagram.mp hstep
      -- a datagram that is refused leaves the whole state as it was
      cases hacc : accepts k data p.self with
      | true =>
          obtain ⟨row, upd, hev, hrow, hupd⟩ := accepted_events k cfg clk hacc
          exact ⟨_, hev, .ack hacc hrow hupd⟩
      | false =>
          refine written_nil (congrArg Prod.fst (rejected_ack k cfg clk hacc)) ?_
            (fun _ _ _ h => by cases h)
          rintro data' clk' h
          obtain ⟨rfl, -⟩ := Op.datagram.inj h
          exact hacc
  | rto now log_us calls =>
      obtain ⟨-, rfl⟩ := step_rto.mp hstep
      -- a pass that finds nothing expired writes nothing
      cases hx : rto_fires k.cls cfg p.self now with
      | true =>
          obtain ⟨new, hev, htag⟩ :=
            rto_fired_events k.cls.snapshot k.cls.rto_cut log_us calls hx
          refine ⟨_, hev, .rto hx (sendRows_of_tag htag fun x hx => ?_)⟩
          -- the table was cleared first, so every resend goes down as `send`
          obtain ⟨s, -, rfl⟩ := List.mem_map.mp hx
          exact Or.inl rfl
      | false =>
          refine written_nil (rto_checker_quiet hx) (fun _ _ h => by cases h) ?_
          rintro now' log_us' calls' h
          obtain ⟨rfl, -, -⟩ := Op.rto.inj h
          exact hx

end

end IntHpcc.EventLog
