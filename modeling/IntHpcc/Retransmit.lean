/-
How a retransmission is recorded.

`_send_locked` tells a retransmission from a first send by looking the number up in
`in_flight`: a number it finds is logged as `rtx`, its counter goes up and its snapshots
are kept. But the only caller that sends a number again is the RTO pass, and it empties
`in_flight` first. So no retransmission is ever found: each is logged as a `send`, with
its counter back at 0 and with new snapshots.

`Recorded` is the account the log is meant to give, and `retransmissions_recorded_iff` says
on exactly which runs it does: those in which no packet is sent again.
-/
import IntHpcc.RtoSpacing

set_option autoImplicit false

namespace IntHpcc.Retransmit

open IntHpcc.Runs IntHpcc.Bytes IntHpcc.Py IntHpcc.PacketFormat IntHpcc.SenderCore
open IntHpcc.SenderWindow IntHpcc.Network IntHpcc.EventLog IntHpcc.RtoSpacing

/-! ## The account -/

section

variable {Snap Ctl : Type}

/-- How often the number has been transmitted. -/
def copies (st : Transport Snap) (seq : ℤ) : ℕ := st.sock.countP fun pkt => pkt.seq = seq

/-- The row says that `seq` was transmitted. -/
def Transmits (seq : ℤ) (x : EventKind × ℤ) : Prop := x.2 = seq ∧ (x.1 = .send ∨ x.1 = .rtx)

instance (seq : ℤ) (x : EventKind × ℤ) : Decidable (Transmits seq x) :=
  inferInstanceAs (Decidable (_ ∧ (_ ∨ _)))

/-- The names under which the transmissions of `seq` are logged, in order. -/
def names (l : List (EventKind × ℤ)) (seq : ℤ) : List EventKind :=
  (l.filter fun x => Transmits seq x).map Prod.fst

def send_names (st : Sender Snap Ctl) (seq : ℤ) : List EventKind := names (st.events.map tag) seq

/-- One `send`, and `rtx` from then on. -/
def expected : ℕ → List EventKind
  | 0 => []
  | n + 1 => .send :: List.replicate n .rtx

theorem expected_succ {n : ℕ} (h : n ≠ 0) : expected (n + 1) = expected n ++ [.rtx] := by
  obtain ⟨m, rfl⟩ := Nat.exists_eq_succ_of_ne_zero h
  rw [expected, expected, List.replicate_succ', List.cons_append]

theorem names_append (l new : List (EventKind × ℤ)) (seq : ℤ) :
    names (l ++ new) seq = names l seq ++ names new seq := by
  rw [names, List.filter_append, List.map_append]
  rfl

/-- Rows that transmit nothing do not matter. -/
theorem names_of_other {new : List (EventKind × ℤ)} {seq : ℤ}
    (h : ∀ x ∈ new, ¬ Transmits seq x) : names new seq = [] := by
  unfold names
  rw [List.filter_eq_nil_iff.mpr (by simpa using h)]
  rfl

theorem names_single (s seq : ℤ) :
    names [(.send, s)] seq = if s = seq then [.send] else [] := by
  by_cases h : s = seq
  · rw [if_pos h]
    simp [names, Transmits, h]
  · rw [if_neg h]
    simp [names, Transmits, h]

end

variable {k : SenderKind} {cfg : k.cls.Config} {mp : Option ℤ}

/-- The snapshot a number is sent with for the first time. -/
def first_send (C : SenderClass) : Op → C.Proc → List (ℤ × C.Snap)
  | .send call, p =>
    if call.sent ∧ copies p.self.toTransport p.self.next_seq = 0 then
      [(p.self.next_seq, C.snapshot p.self.ctl)]
    else []
  | _, _ => []

/-- A sender, and the snapshots of the first sends so far. -/
abbrev Noted (k : SenderKind) := k.cls.Proc × List (ℤ × k.cls.Snap)

/-- The retransmissions are recorded as retransmissions: each number has one `send` row and
an `rtx` row for every later copy, and while it is in flight its entry counts the later
copies and keeps the snapshot of the first. -/
structure Recorded (q : Noted k) : Prop where
  rows : ∀ seq, send_names q.1.self seq = expected (copies q.1.self.toTransport seq)
  rtx : ∀ seq e, q.1.self.in_flight.lookup seq = some e →
    e.rtx + 1 = copies q.1.self.toTransport seq
  snap : ∀ seq e, q.1.self.in_flight.lookup seq = some e → (seq, e.snap) ∈ q.2

/-- The event sends no packet again. -/
def NoResend (cfg : k.cls.Config) (q : Noted k) (op : Op) (_ : Noted k) : Prop :=
  ∀ now log_us calls, op = .rto now log_us calls → rto_fires k.cls cfg q.1.self now = true →
    ∀ s ∈ q.1.self.in_flight, (calls s).sent = false

/-! ## One event -/

variable {q q' : Noted k}

theorem length_expected (n : ℕ) : (expected n).length = n := by
  cases n with
  | zero => rfl
  | succ n => rw [expected, List.length_cons, List.length_replicate]

/-- Nothing is sent: the account stays, for the packets that are still in flight. -/
theorem Recorded.quiet (h : Recorded q)
    (hnames : ∀ seq, send_names q'.1.self seq = send_names q.1.self seq)
    (hsock : q'.1.self.sock = q.1.self.sock)
    (hold : ∀ seq e, q'.1.self.in_flight.lookup seq = some e →
      q.1.self.in_flight.lookup seq = some e)
    (hnotes : q'.2 = q.2) : Recorded q' := by
  have hcopies : ∀ seq, copies q'.1.self.toTransport seq = copies q.1.self.toTransport seq := by
    intro seq
    unfold copies
    rw [hsock]
  refine ⟨?_, ?_, ?_⟩
  · intro seq
    rw [hnames, hcopies]
    exact h.rows seq
  · intro seq e he
    rw [hcopies]
    exact h.rtx seq e (hold seq e he)
  · intro seq e he
    rw [hnotes]
    exact h.snap seq e (hold seq e he)

/-- The next number has not been transmitted. -/
theorem copies_next {st : k.cls.Self} (hb : Booked st) :
    copies st.toTransport st.next_seq = 0 := by
  refine List.countP_eq_zero.mpr fun pkt hpkt => ?_
  rw [decide_eq_true_eq]
  exact (hb.sent_lt pkt hpkt).2.ne

/-- A packet in flight has been transmitted. -/
theorem copies_pos {st : k.cls.Self} (hb : Booked st) {seq : ℤ} (h : seq ∈ st.in_flight) :
    0 < copies st.toTransport seq := by
  obtain ⟨pkt, hpkt, hseq⟩ := hb.out_sent seq h
  exact List.countP_pos_iff.mpr ⟨pkt, hpkt, decide_eq_true hseq⟩

/-- A number that leaves for the first time: one copy, one `send` row, and an entry of its
own with the snapshot that is noted. -/
theorem Recorded.first (h : Recorded q) (hb : Booked q.1.self) {b : Us} {ent : Entry k.cls.Snap}
    (hrtx : ent.rtx = 0)
    (hsock : q'.1.self.sock = q.1.self.sock ++ [⟨q.1.self.next_seq, b.val, 0⟩])
    (hlog : q'.1.self.events.map tag
      = q.1.self.events.map tag ++ [(.send, q.1.self.next_seq)])
    (hlook : ∀ seq, q'.1.self.in_flight.lookup seq
      = if seq = q.1.self.next_seq then some ent else q.1.self.in_flight.lookup seq)
    (hnotes : q'.2 = q.2 ++ [(q.1.self.next_seq, ent.snap)]) : Recorded q' := by
  -- no copy of this number was sent before, so both sides start from nothing
  have hfresh : copies q.1.self.toTransport q.1.self.next_seq = 0 := copies_next hb
  have hcopies : ∀ seq, copies q'.1.self.toTransport seq
      = copies q.1.self.toTransport seq + if q.1.self.next_seq = seq then 1 else 0 := by
    intro seq
    unfold copies
    rw [hsock, List.countP_append, List.countP_singleton]
    simp only [decide_eq_true_eq]
  have hnames : ∀ seq, send_names q'.1.self seq
      = send_names q.1.self seq ++ if q.1.self.next_seq = seq then [.send] else [] := by
    intro seq
    unfold send_names
    rw [hlog, names_append, names_single]
  refine ⟨?_, ?_, ?_⟩
  · intro seq
    -- the rows: one name more for this number exactly
    rw [hnames, hcopies, h.rows]
    split
    · next heq =>
      rw [← heq, hfresh]
      rfl
    · exact List.append_nil _
  · intro seq e he
    rw [hlook] at he
    rw [hcopies]
    split at he
    · next heq =>
      rw [heq, if_pos rfl, hfresh, ← Option.some.inj he, hrtx]
    · next hne =>
      rw [if_neg fun heq => hne heq.symm]
      exact h.rtx seq e he
  · intro seq e he
    rw [hlook] at he
    rw [hnotes]
    split at he
    · next heq =>
      -- the snapshot noted is the one in the entry
      rw [heq, ← Option.some.inj he]
      exact List.mem_append_right _ (List.mem_singleton.mpr rfl)
    · exact List.mem_append_left _ (h.snap seq e he)

/-- A burst iteration is a first send, and recorded as one. -/
theorem recorded_send (h : Recorded q) (hb : Booked q.1.self) {call : SendCall}
    (hself : q'.1.self = k.cls.burst_iter q.1.self call)
    (hnotes : q'.2 = q.2 ++ first_send k.cls (.send call) q.1) : Recorded q' := by
  cases call with
  | os_error b =>
      -- a refused `sendto` returns before the entry and the row are made
      refine h.quiet ?_ ?_ ?_ ?_
      · intro seq
        rw [hself]
        rfl
      · rw [hself]
        rfl
      · intro seq e he
        rw [hself] at he
        exact he
      · rw [hnotes]
        exact List.append_nil _
  | ok b t l =>
      obtain ⟨new, hev, htag⟩ :=
        send_locked_events k.cls.snapshot q.1.self q.1.self.next_seq (.ok b t l)
      -- `next_seq` is above all that is in flight: the row is a `send`
      rw [send_name, if_neg hb.next_notMem] at htag
      have hsock : q'.1.self.sock = q.1.self.sock ++ [⟨q.1.self.next_seq, b.val, 0⟩] := by
        rw [hself]
        exact send_locked_sock k.cls.snapshot q.1.self q.1.self.next_seq (.ok b t l)
      have hlog : q'.1.self.events.map tag
          = q.1.self.events.map tag ++ [(.send, q.1.self.next_seq)] := by
        rw [hself]
        show (send_locked _ _ _ _).events.map tag = _
        rw [hev, List.map_append, htag]
        rfl
      have hlook : ∀ seq, q'.1.self.in_flight.lookup seq
          = if seq = q.1.self.next_seq then some ⟨t.val, k.cls.snapshot q.1.self.ctl, 0⟩
            else q.1.self.in_flight.lookup seq := by
        intro seq
        rw [hself]
        exact lookup_send_locked k.cls.snapshot (.ok b t l) hb.next_notMem seq
      have hnote : q'.2 = q.2 ++ [(q.1.self.next_seq, k.cls.snapshot q.1.self.ctl)] := by
        rw [hnotes, first_send, if_pos ⟨rfl, copies_next hb⟩]
      exact h.first hb rfl hsock hlog hlook hnote

/-- An ACK transmits nothing, and leaves the entries it does not remove as they are. -/
theorem recorded_datagram (h : Recorded q) {cfg : k.cls.Config} {data : List Byte} {clk : AckClock}
    (hself : q'.1.self = (k.cls.ack_listener cfg clk data q.1.self).1) (hnotes : q'.2 = q.2) :
    Recorded q' := by
  cases hacc : accepts k data q.1.self with
  | false =>
      rw [rejected_ack k cfg clk hacc] at hself
      refine h.quiet ?_ ?_ ?_ hnotes
      · intro seq
        rw [hself]
      · rw [hself]
      · intro seq e he
        rw [hself] at he
        exact he
  | true =>
      obtain ⟨row, upd, hev, hrow, hupd⟩ := accepted_events k cfg clk hacc
      have ht := k.cls.ack_transport cfg clk data q.1.self
      rw [← hself] at ht hev
      -- the rows an ACK writes, its own and the update's, are neither `send` nor `rtx`
      have hother : ∀ x ∈ (row :: upd).map tag, x.1 ≠ .send ∧ x.1 ≠ .rtx := by
        intro x hx
        obtain ⟨r, hr, rfl⟩ := List.mem_map.mp hx
        rcases List.mem_cons.mp hr with rfl | hr
        · rcases hrow.name with hname | ⟨-, hname⟩
          · simp [tag, hname]
          · simp [tag, hname]
        · simp [tag, hupd r hr]
      refine h.quiet ?_ ?_ ?_ hnotes
      · intro seq
        unfold send_names
        rw [hev, List.map_append, names_append]
        have hnone : names ((row :: upd).map tag) seq = [] :=
          names_of_other fun x hx ht => ht.2.elim (hother x hx).1 (hother x hx).2
        rw [hnone, List.append_nil]
      · rw [ht]
        cases k.cls.ack_seq data with
        | none => rfl
        | some a => exact acked_sock _ a
      · intro seq e he
        rw [ht] at he
        -- an entry that is left is one that was there
        cases hk : k.cls.ack_seq data with
        | none =>
            rw [hk] at he
            exact he
        | some a =>
            rw [hk] at he
            exact (lookup_acked_eq_some.mp he).1

/-- What the loop logs for the packets of a flight: each that leaves is a `send`. -/
theorem names_sends {l : List ℤ} (hnd : l.Nodup) {seq : ℤ} (h : seq ∈ l) :
    names (l.map fun s => (.send, s)) seq = [.send] := by
  have hone : l.filter (fun s => decide (Transmits seq (EventKind.send, s))) = [seq] := by
    have heq : (fun s => decide (Transmits seq (EventKind.send, s))) = fun s => decide (s = seq) := by
      funext s
      simp [Transmits]
    rw [heq, List.filter_eq, List.count_eq_one_of_mem hnd h]
    rfl
  unfold names
  rw [List.filter_map, List.map_map]
  change (l.filter (fun s => decide (Transmits seq (EventKind.send, s)))).map _ = _
  rw [hone]
  rfl

section

variable {now log_us : Us} {calls : ℤ → SendCall}

/-- The packets an RTO pass sends, as its loop takes them. -/
theorem names_fired {st : k.cls.Self} (hx : rto_fires k.cls cfg st now = true) (s : ℤ) :
    send_names (rto_checker k.cls.snapshot k.cls.rto_cut (k.cls.rto_us cfg) now log_us calls
        st) s
      = send_names st s ++ names (((st.in_flight.keys.insertionSort (· ≤ ·)).filter
          fun s => (calls s).sent).map fun s => (.send, s)) s := by
  obtain ⟨new, hev, htag⟩ := rto_fired_events k.cls.snapshot k.cls.rto_cut log_us calls hx
  unfold send_names
  rw [hev, List.map_append, List.map_cons, names_append, htag]
  refine congrArg (names (st.events.map tag) s ++ ·) ?_
  -- the `rto` row itself transmits nothing
  rw [← List.singleton_append, names_append, names_of_other, List.nil_append]
  intro x hx
  rw [List.mem_singleton.mp hx]
  simp [Transmits, tag, rto_row]

/-- A packet that is sent again has one more `send` row, where the account wants an `rtx`. -/
theorem not_recorded_resent (h : Recorded q) (hb : Booked q.1.self)
    (hx : rto_fires k.cls cfg q.1.self now = true)
    (hself : q'.1.self = rto_checker k.cls.snapshot k.cls.rto_cut (k.cls.rto_us cfg) now log_us
      calls q.1.self) {s : ℤ} (hs : s ∈ q.1.self.in_flight) (hsent : (calls s).sent = true) :
    ¬ Recorded q' := by
  intro h'
  have hnd := nodup_sorted q.1.self.in_flight
  have hmem : s ∈ q.1.self.in_flight.keys.insertionSort (· ≤ ·) := mem_sorted.mpr hs
  have hone : send_names q'.1.self s = send_names q.1.self s ++ [.send] := by
    rw [hself, names_fired hx, names_sends (hnd.filter _) (List.mem_filter.mpr ⟨hmem, hsent⟩)]
  have hrows := h'.rows s
  rw [hone, h.rows s] at hrows
  have hlen := congrArg List.length hrows
  rw [List.length_append, length_expected, length_expected] at hlen
  rw [← hlen, List.length_singleton, expected_succ (copies_pos hb hs).ne'] at hrows
  have hlast := (List.append_inj' hrows rfl).2
  cases hlast

/-- When every `sendto` of the pass fails, the flight is gone and nothing else has changed. -/
theorem recorded_all_failed (h : Recorded q) (hx : rto_fires k.cls cfg q.1.self now = true)
    (hself : q'.1.self = rto_checker k.cls.snapshot k.cls.rto_cut (k.cls.rto_us cfg) now log_us
      calls q.1.self) (hnotes : q'.2 = q.2)
    (hfail : ∀ s ∈ q.1.self.in_flight, (calls s).sent = false) : Recorded q' := by
  have hx' : expired q.1.self.toTransport now.val (k.cls.rto_us cfg) = true := hx
  have hfail' : ∀ s ∈ q.1.self.in_flight.keys.insertionSort (· ≤ ·), (calls s).sent = false := by
    intro s hs
    exact hfail s (mem_sorted.mp hs)
  refine h.quiet ?_ ?_ ?_ hnotes
  · intro s
    rw [hself, names_fired hx, List.filter_eq_nil_iff.mpr fun s hs => by simp [hfail' s hs]]
    exact List.append_nil _
  · rw [hself, rto_checker_fired hx', resend_all_sock]
    have hempty : ((q.1.self.in_flight.keys.insertionSort (· ≤ ·)).flatMap fun s =>
        (calls s).packets s) = [] := by
      refine List.flatMap_eq_nil_iff.mpr fun s hs => ?_
      have hs' := hfail' s hs
      cases hc : calls s with
      | ok b t l =>
          rw [hc] at hs'
          cases hs'
      | os_error b => rfl
    change q.1.self.sock ++ ((q.1.self.in_flight.keys.insertionSort (· ≤ ·)).flatMap fun s =>
      (calls s).packets s) = _
    rw [hempty, List.append_nil]
  · -- a packet that is not sent again leaves the flight
    intro s e he
    rw [hself, rto_fired_lookup hx'] at he
    split at he
    · next hs =>
      have hsome := SendCall.entry_isSome (k.cls.snapshot (k.cls.rto_cut q.1.self.ctl)) (calls s)
      rw [he, hfail s hs] at hsome
      cases hsome
    · cases he

/-- A pass that fires keeps the account exactly if no packet leaves: a packet that does is
logged as a first send once more. -/
theorem recorded_fired_iff (h : Recorded q) (hb : Booked q.1.self)
    (hx : rto_fires k.cls cfg q.1.self now = true)
    (hself : q'.1.self = rto_checker k.cls.snapshot k.cls.rto_cut (k.cls.rto_us cfg) now log_us
      calls q.1.self) (hnotes : q'.2 = q.2) :
    Recorded q' ↔ ∀ s ∈ q.1.self.in_flight, (calls s).sent = false := by
  constructor
  · intro h' s hs
    by_contra hsent
    rw [Bool.not_eq_false] at hsent
    exact not_recorded_resent h hb hx hself hs hsent h'
  · intro hfail
    exact recorded_all_failed h hx hself hnotes hfail

end

/-- One event keeps the account exactly if it sends no packet again. -/
theorem recorded_step_iff {op : Op} (h : Recorded q) (hb : Booked q.1.self)
    (hstep : recorded (k.cls.step cfg mp) (first_send k.cls) op q = some q') :
    Recorded q' ↔ NoResend cfg q op q' := by
  obtain ⟨hop, hnotes⟩ := recorded_eq_some.mp hstep
  -- an event that is no RTO pass meets the condition
  have hother : (∀ now log_us calls, op ≠ .rto now log_us calls) → Recorded q' →
      (Recorded q' ↔ NoResend cfg q op q') := fun hne hrec =>
    iff_of_true hrec fun now log_us calls heq => absurd heq (hne now log_us calls)
  have hsame : q'.1.self = q.1.self → q'.2 = q.2 → Recorded q' := by
    intro hself hnote
    refine h.quiet (fun seq => by rw [hself]) (by rw [hself]) ?_ hnote
    intro seq e he
    rw [hself] at he
    exact he
  cases op with
  | acquire =>
      obtain ⟨-, hp⟩ := step_acquire.mp hop
      exact hother (fun _ _ _ h => by cases h)
        (hsame (by rw [hp]) (hnotes.trans (List.append_nil _)))
  | send call =>
      obtain ⟨-, hp⟩ := step_send.mp hop
      exact hother (fun _ _ _ h => by cases h) (recorded_send h hb (by rw [hp]) hnotes)
  | release =>
      obtain ⟨-, hp⟩ := step_release.mp hop
      exact hother (fun _ _ _ h => by cases h)
        (hsame (by rw [hp]) (hnotes.trans (List.append_nil _)))
  | datagram data clk =>
      obtain ⟨-, hp⟩ := step_datagram.mp hop
      exact hother (fun _ _ _ h => by cases h)
        (recorded_datagram h (by rw [hp]) (hnotes.trans (List.append_nil _)))
  | rto now log_us calls =>
      obtain ⟨-, hp⟩ := step_rto.mp hop
      have hnote : q'.2 = q.2 := hnotes.trans (List.append_nil _)
      by_cases hx : rto_fires k.cls cfg q.1.self now = true
      · rw [recorded_fired_iff h hb hx (by rw [hp]) hnote]
        constructor
        · rintro hfail _ _ _ heq -
          cases heq
          exact hfail
        · intro hno
          exact hno now log_us calls rfl hx
      · rw [Bool.not_eq_true] at hx
        refine iff_of_true (hsame ?_ hnote) ?_
        · rw [hp]
          exact rto_checker_quiet hx
        · rintro _ _ _ heq hfires
          cases heq
          rw [hx] at hfires
          cases hfires

theorem recorded_start (monotonic : ℚ) : Recorded (k.cls.start cfg monotonic, []) :=
  ⟨fun _ => rfl, fun _ _ he => absurd he (by simp [SenderClass.start]),
    fun _ _ he => absurd he (by simp [SenderClass.start])⟩

/-- **Retransmissions are recorded as such exactly where there are none.** In every run of
the three senders, whatever arrives: the account is right throughout if and only if no RTO
pass that fires sends a packet again. -/
theorem retransmissions_recorded_iff (k : SenderKind) (cfg : k.cls.Config) (mp : Option ℤ)
    (monotonic : ℚ) (ops : List Op) (q : Noted k)
    (hrun : run (recorded (k.cls.step cfg mp) (first_send k.cls)) (k.cls.start cfg monotonic, [])
      ops = some q) :
    AlwaysIn (recorded (k.cls.step cfg mp) (first_send k.cls)) Recorded
        (k.cls.start cfg monotonic, []) ops ↔
      EachStep (recorded (k.cls.step cfg mp) (first_send k.cls)) (NoResend cfg)
        (k.cls.start cfg monotonic, []) ops :=
  always_iff_each (I := fun q => Booked q.1.self)
    (fun _ _ _ hb hstep => booked_step hb (recorded_eq_some.mp hstep).1)
    (fun _ _ _ hb h hstep => recorded_step_iff h hb hstep)
    (booked_start monotonic) (recorded_start monotonic) hrun

def two_packets : List Op :=
  [.acquire, .send (sent_at 1000), .send (sent_at 1000), .release]

/-- One pass finds nothing expired, another one gets neither packet out. -/
def refused_pass : Op := .rto (at_us 40000) (at_us 40000) fun _ => .os_error (at_us 40000)

def quiet_passes : List Op := two_packets ++ [pass_at 15000] ++ [refused_pass]

theorem quiet_passes_fire :
    (run (recorded (Dctcp.cls.step (Dctcp.defaults (1 / 200)) (some 2)) (first_send Dctcp.cls))
      (Dctcp.cls.start (Dctcp.defaults (1 / 200)) 0, []) two_packets).map
        (fun q => rto_fires Dctcp.cls (Dctcp.defaults (1 / 200)) q.1.self (at_us 15000))
      = some false ∧
    (run (recorded (Dctcp.cls.step (Dctcp.defaults (1 / 200)) (some 2)) (first_send Dctcp.cls))
      (Dctcp.cls.start (Dctcp.defaults (1 / 200)) 0, []) (two_packets ++ [pass_at 15000])).map
        (fun q => rto_fires Dctcp.cls (Dctcp.defaults (1 / 200)) q.1.self (at_us 40000))
      = some true ∧
    (run (recorded (Dctcp.cls.step (Dctcp.defaults (1 / 200)) (some 2)) (first_send Dctcp.cls))
      (Dctcp.cls.start (Dctcp.defaults (1 / 200)) 0, []) quiet_passes).map
        (fun q => q.1.self.events.map LogEvent.event) = some [.send, .send, .rto] := by
  decide +kernel

theorem retransmissions_recorded_quiet_passes :
    AlwaysIn (recorded (Dctcp.cls.step (Dctcp.defaults (1 / 200)) (some 2)) (first_send Dctcp.cls))
      (Recorded (k := .dctcp)) (Dctcp.cls.start (Dctcp.defaults (1 / 200)) 0, []) quiet_passes := by
  obtain ⟨hquiet, -, hall⟩ := quiet_passes_fire
  obtain ⟨q, hrun, -⟩ := Option.map_eq_some_iff.mp hall
  refine (retransmissions_recorded_iff .dctcp (Dctcp.defaults (1 / 200)) (some 2) 0 quiet_passes
    q hrun).mpr ?_
  refine ((EachStep.of_forall ?_).snoc ?_).snoc ?_
  · intro op hop _ _ now log_us calls heq
    subst heq
    simp [two_packets] at hop
  · -- after 14 ms nothing is old enough
    intro q₁ q₂ hrun₁ _ now log_us calls heq hfires
    cases heq
    have hno := shown_of_run hquiet hrun₁
    exact absurd (hfires.symm.trans hno) (by decide)
  · -- the second pass fires and sends nothing
    intro q₁ q₂ _ _ now log_us calls heq _ s _
    cases heq
    rfl

/-- Every send of the event succeeds. -/
def Succeeds : Op → Prop
  | .send call => call.sent = true
  | .rto _ _ calls => ∀ s, (calls s).sent = true
  | _ => True

/-- One packet is sent, times out and is sent again. -/
def one_timeout : List Op := [.acquire, .send (sent_at 1000), .release, pass_at 30000]

theorem one_timeout_names :
    (run (recorded (Dctcp.cls.step (Dctcp.defaults (1 / 200)) (some 1)) (first_send Dctcp.cls))
      (Dctcp.cls.start (Dctcp.defaults (1 / 200)) 0, []) one_timeout).map
        (fun q => (send_names q.1.self 0, copies q.1.self.toTransport 0))
      = some ([.send, .send], 2) := by
  decide +kernel

/-- The second copy of a packet is logged as a first send. -/
theorem retransmissions_recorded_fails :
    ¬ ∀ (k : SenderKind) (cfg : k.cls.Config) (mp : Option ℤ) (monotonic : ℚ) (ops : List Op)
      (q : Noted k), (∀ op ∈ ops, Succeeds op) →
      run (recorded (k.cls.step cfg mp) (first_send k.cls)) (k.cls.start cfg monotonic, []) ops
        = some q → Recorded q := by
  intro h
  obtain ⟨q, hrun, hq⟩ := Option.map_eq_some_iff.mp one_timeout_names
  obtain ⟨hnames, hcopies⟩ := Prod.mk.inj hq
  have hsucceeds : ∀ op ∈ one_timeout, Succeeds op := by
    simp [one_timeout, Succeeds, pass_at, sent_at, SendCall.sent]
  have hrows := (h .dctcp (Dctcp.defaults (1 / 200)) (some 1) 0 one_timeout q hsucceeds hrun).rows 0
  change send_names q.1.self 0 = expected (copies q.1.self.toTransport 0) at hrows
  rw [hnames, hcopies] at hrows
  exact absurd hrows (by decide)

end IntHpcc.Retransmit
