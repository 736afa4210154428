/-
A Python sender, of any class, is a cumulative-acknowledgement window.

`view` forgets everything about a sender but its `next_seq`, its `cum_acked_seq` and
the keys of its `in_flight`. What is left is a `CumAck.Window`, and every event of the
threads is one event of that window (`step_refines`): a burst iteration hands out the
next number, an accepted datagram is an acknowledgement, an RTO pass that fires resends
everything outstanding and loses what `sendto` refuses.

The inversion lemmas `step_acquire` … `step_rto` say all that an event can do to a
`Proc`; every later invariant is derived from them. `Booked` is the one every run keeps
whatever arrives on the socket: what is in flight was numbered and handed to `sendto`.
-/
import IntHpcc.SenderCore

set_option autoImplicit false

namespace IntHpcc.SenderWindow

open IntHpcc.Bytes IntHpcc.Py IntHpcc.PacketFormat IntHpcc.SenderCore IntHpcc.CumAck

variable {C : SenderClass} {cfg : C.Config} {mp : Option ℤ} {p p' : C.Proc}

/-! ## What an event does -/

/-- `run` takes the lock. -/
theorem step_acquire : C.step cfg mp .acquire p = some p' ↔
    p.bursting = false ∧ p' = { p with bursting := true } := by
  unfold SenderClass.step
  by_cases hb : p.bursting = true
  · simp [hb]
  · simp [hb, eq_comm]

/-- One burst iteration: the guard held and the packet could be built. -/
theorem step_send {call : SendCall} : C.step cfg mp (.send call) p = some p' ↔
    (p.bursting = true ∧ C.burst_guard mp p.self = true ∧ C.buildable p.self = true) ∧
      p' = { p with self := C.burst_iter p.self call } := by
  unfold SenderClass.step
  dsimp only
  split
  · next h => simp only [Bool.and_eq_true] at h; simp [h, eq_comm]
  · next h => simp only [Bool.and_eq_true, not_and] at h; simp; tauto

/-- The burst is over. -/
theorem step_release : C.step cfg mp .release p = some p' ↔
    (p.bursting = true ∧ ¬ (C.burst_guard mp p.self = true ∧ C.buildable p.self = true)) ∧
      p' = { p with bursting := false } := by
  unfold SenderClass.step
  dsimp only
  split
  · next h =>
    simp only [Bool.and_eq_true, Bool.not_eq_true', Bool.and_eq_false_iff] at h
    -- the loop ends when the window is full, or when the header cannot be built
    have h' : ¬ (C.burst_guard mp p.self = true ∧ C.buildable p.self = true) := by
      rintro ⟨h₁, h₂⟩
      rw [h₁, h₂] at h
      simp at h
    simp only [Option.some.injEq]
    constructor
    · intro heq
      exact ⟨⟨h.1, h'⟩, heq.symm⟩
    · rintro ⟨-, rfl⟩
      rfl
  · next h =>
    constructor
    · intro heq
      cases heq
    · rintro ⟨⟨h₁, h₂⟩, -⟩
      -- no `release` while the burst still goes on
      refine absurd ?_ h
      rw [h₁, Bool.true_and, Bool.not_eq_true', Bool.and_eq_false_iff]
      by_cases hg : C.burst_guard mp p.self = true
      · exact Or.inr (by simpa [hg] using h₂)
      · exact Or.inl (by simpa using hg)

/-- The listener handles a datagram; an exception ends it. -/
theorem step_datagram {data : List Byte} {clk : AckClock} :
    C.step cfg mp (.datagram data clk) p = some p' ↔
      (p.bursting = false ∧ p.listening = true) ∧
        p' = { p with
          self := (C.ack_listener cfg clk data p.self).1
          listening := (C.ack_listener cfg clk data p.self).2.isNone } := by
  unfold SenderClass.step
  dsimp only
  split
  · next h => simp only [Bool.and_eq_true, Bool.not_eq_true'] at h; simp [h, eq_comm]
  · next h => simp only [Bool.and_eq_true, Bool.not_eq_true', not_and] at h; simp; tauto

/-- A pass of the RTO thread. -/
theorem step_rto {now log_us : Us} {calls : ℤ → SendCall} :
    C.step cfg mp (.rto now log_us calls) p = some p' ↔
      p.bursting = false ∧ p' = { p with
        self := rto_checker C.snapshot C.rto_cut (C.rto_us cfg) now log_us calls p.self } := by
  unfold SenderClass.step
  by_cases hb : p.bursting = true
  · simp [hb]
  · simp [hb, eq_comm]

/-- The RTO thread finds an expired packet at `now`. -/
def rto_fires (C : SenderClass) (cfg : C.Config) (st : C.Self) (now : Us) : Bool :=
  expired st.toTransport now.val (C.rto_us cfg)

/-- All that an event can do to the object: nothing, a burst iteration, a datagram, or an
RTO pass that fires. -/
theorem step_self {op : Op} (h : C.step cfg mp op p = some p') :
    p'.self = p.self ∨
    (∃ call, op = .send call ∧ C.burst_guard mp p.self = true ∧
      p'.self = C.burst_iter p.self call) ∨
    (∃ data clk, op = .datagram data clk ∧
      p'.self = (C.ack_listener cfg clk data p.self).1) ∨
    (∃ now log_us calls, op = .rto now log_us calls ∧ rto_fires C cfg p.self now = true ∧
      p'.self = rto_checker C.snapshot C.rto_cut (C.rto_us cfg) now log_us calls p.self) := by
  cases op with
  | acquire =>
      obtain ⟨-, rfl⟩ := step_acquire.mp h
      exact Or.inl rfl
  | send call =>
      obtain ⟨⟨-, hg, -⟩, rfl⟩ := step_send.mp h
      exact Or.inr (Or.inl ⟨call, rfl, hg, rfl⟩)
  | release =>
      obtain ⟨-, rfl⟩ := step_release.mp h
      exact Or.inl rfl
  | datagram data clk =>
      obtain ⟨-, rfl⟩ := step_datagram.mp h
      exact Or.inr (Or.inr (Or.inl ⟨data, clk, rfl, rfl⟩))
  | rto now log_us calls =>
      obtain ⟨-, rfl⟩ := step_rto.mp h
      -- a pass that finds nothing expired returns at once
      by_cases hx : rto_fires C cfg p.self now = true
      · exact Or.inr (Or.inr (Or.inr ⟨now, log_us, calls, rfl, hx, rfl⟩))
      · refine Or.inl ?_
        unfold rto_fires at hx
        exact rto_checker_quiet (by simpa using hx)

/-! ## The abstract window -/

/-- The window of a sender. -/
def view {Snap : Type} (st : Transport Snap) : Window where
  next := st.next_seq
  cum := st.cum_acked_seq
  out := { s | s ∈ st.in_flight }

/-- The packets an RTO pass fails to resend. -/
def lost (calls : ℤ → SendCall) : Set ℤ := { s | (calls s).sent = false }

/-- The window event an event of the threads is. -/
def label (C : SenderClass) (cfg : C.Config) (p : C.Proc) : Op → Label
  | .acquire => .idle
  | .send call => .send call.sent
  | .release => .idle
  | .datagram data _ => (C.ack_seq data).elim .idle .ack
  | .rto now _ calls => if rto_fires C cfg p.self now then .resend (lost calls) else .idle

/-- The cumulative part of `_on_ack_locked` is the window's acknowledgement. -/
theorem view_acked {Snap : Type} (st : Transport Snap) (k : ℤ) :
    view (st.acked k) = (view st).ack k := by
  have hmem : ∀ s, s ∈ (st.acked k).in_flight ↔ s ∈ ((view st).ack k).out := by
    intro s
    rw [mem_ack_out, mem_acked]
    exact Iff.rfl
  apply Window.ext
  · rw [ack_next]
    exact acked_next st k
  · rw [ack_cum]
    exact acked_cum st k
  · ext s
    exact hmem s

theorem burst_iter_next (st : C.Self) (call : SendCall) :
    (C.burst_iter st call).next_seq = st.next_seq + 1 := by
  show (send_locked C.snapshot st st.next_seq call).next_seq + 1 = st.next_seq + 1
  rw [send_locked_next]

/-- A burst iteration hands out the next number. -/
theorem view_burst_iter (st : C.Self) (call : SendCall) :
    view (C.burst_iter st call).toTransport = (view st.toTransport).step (.send call.sent) := by
  have hmem : ∀ s, s ∈ (C.burst_iter st call).in_flight ↔
      s ∈ st.in_flight ∨ (s = st.next_seq ∧ call.sent = true) := fun s => mem_send_locked C.snapshot
  have hnext := burst_iter_next st call
  have hcum : (C.burst_iter st call).cum_acked_seq = st.cum_acked_seq :=
    send_locked_cum C.snapshot st st.next_seq call
  cases hs : call.sent with
  | true =>
      apply Window.ext
      · exact hnext
      · exact hcum
      · ext s
        show s ∈ (C.burst_iter st call).in_flight ↔ s ∈ insert st.next_seq { k | k ∈ st.in_flight }
        rw [hmem, hs, Set.mem_insert_iff]
        simp only [and_true, Set.mem_ofPred_eq]
        exact or_comm
  | false =>
      apply Window.ext
      · exact hnext
      · exact hcum
      · ext s
        show s ∈ (C.burst_iter st call).in_flight ↔ s ∈ st.in_flight
        rw [hmem, hs]
        simp

/-- An RTO pass that fires resends everything outstanding. -/
theorem view_rto_fired {rto_us : ℤ} {now log_us : Us} {calls : ℤ → SendCall} {st : C.Self}
    (h : expired st.toTransport now.val rto_us = true) :
    view (rto_checker C.snapshot C.rto_cut rto_us now log_us calls st).toTransport
      = (view st.toTransport).step (.resend (lost calls)) := by
  -- the table is cleared and refilled: what is missing is what could not be resent
  have hmem : ∀ s, s ∈ (rto_checker C.snapshot C.rto_cut rto_us now log_us calls st).in_flight
      ↔ s ∈ st.in_flight ∧ s ∉ lost calls := by
    intro s
    rw [← AList.lookup_isSome, rto_fired_lookup h]
    by_cases hs : s ∈ st.in_flight
    · rw [if_pos hs, SendCall.entry_isSome]
      simp [hs, lost]
    · rw [if_neg hs]
      simp [hs]
  apply Window.ext
  · show (rto_checker _ _ _ _ _ _ st).next_seq = st.next_seq
    rw [rto_checker_fired h, resend_all_next]
    rfl
  · show (rto_checker _ _ _ _ _ _ st).cum_acked_seq = st.cum_acked_seq
    rw [rto_checker_fired h, resend_all_cum]
    rfl
  · ext s
    exact hmem s

/-- **Refinement.** Every event of a sender's threads is the labelled event of its
window. -/
theorem step_refines {op : Op} (h : C.step cfg mp op p = some p') :
    view p'.self.toTransport = (view p.self.toTransport).step (label C cfg p op) := by
  cases op with
  | acquire =>
      obtain ⟨-, rfl⟩ := step_acquire.mp h
      rfl
  | send call =>
      obtain ⟨-, rfl⟩ := step_send.mp h
      exact view_burst_iter p.self call
  | release =>
      obtain ⟨-, rfl⟩ := step_release.mp h
      rfl
  | datagram data clk =>
      obtain ⟨-, rfl⟩ := step_datagram.mp h
      show view (C.ack_listener cfg clk data p.self).1.toTransport = _
      rw [C.ack_transport, label]
      cases C.ack_seq data with
      | none => rfl
      | some k => exact view_acked _ k
  | rto now log_us calls =>
      obtain ⟨-, rfl⟩ := step_rto.mp h
      show view (rto_checker _ _ _ _ _ _ p.self).toTransport = _
      rw [label, rto_fires]
      -- a pass that finds nothing expired is idle
      by_cases hx : expired p.self.toTransport now.val (C.rto_us cfg) = true
      · rw [if_pos hx]
        exact view_rto_fired hx
      · rw [if_neg hx, rto_checker_quiet (by simpa using hx)]
        rfl

/-- The window of a sender that has not sent anything. -/
theorem view_start (monotonic : ℚ) :
    view (C.start cfg monotonic).self.toTransport = Window.empty := by
  apply Window.ext
  · rfl
  · rfl
  · ext s
    exact iff_of_false (AList.notMem_empty s) (Set.notMem_empty s)

/-! ## What holds whatever arrives -/

/-- The packets in flight have been numbered and handed to `sendto`, and the packets
`sendto` took have been numbered. -/
structure Booked (st : C.Self) : Prop where
  next_nonneg : 0 ≤ st.next_seq
  out_sent : ∀ s ∈ st.in_flight, ∃ pkt ∈ st.sock, pkt.seq = s
  sent_lt : ∀ pkt ∈ st.sock, 0 ≤ pkt.seq ∧ pkt.seq < st.next_seq

theorem Booked.out_lt {st : C.Self} (h : Booked st) {s : ℤ} (hs : s ∈ st.in_flight) :
    0 ≤ s ∧ s < st.next_seq := by
  obtain ⟨pkt, hmem, rfl⟩ := h.out_sent s hs
  exact h.sent_lt pkt hmem

/-- The next packet is not in flight yet. -/
theorem Booked.next_notMem {st : C.Self} (h : Booked st) : st.next_seq ∉ st.in_flight :=
  fun hmem => lt_irrefl _ (h.out_lt hmem).2

theorem booked_burst_iter {st : C.Self} (h : Booked st) (call : SendCall) :
    Booked (C.burst_iter st call) := by
  have hnext := burst_iter_next st call
  have hsock : (C.burst_iter st call).sock = _ := send_locked_sock C.snapshot st st.next_seq call
  refine ⟨?_, ?_, ?_⟩
  · rw [hnext]
    exact Int.add_nonneg h.next_nonneg (by decide)
  · intro s hs
    rcases (mem_send_locked C.snapshot).mp hs with hs | ⟨rfl, hsent⟩
    · obtain ⟨pkt, hmem, hseq⟩ := h.out_sent s hs
      refine ⟨pkt, ?_, hseq⟩
      rw [hsock]
      exact List.mem_append_left _ hmem
    · cases call with
      | os_error b => cases hsent
      -- the packet just handed to `sendto`
      | ok b t l =>
          refine ⟨⟨st.next_seq, b.val, 0⟩, ?_, rfl⟩
          rw [hsock]
          exact List.mem_append_right _ (List.mem_singleton.mpr rfl)
  · intro pkt hpkt
    rw [hsock, List.mem_append] at hpkt
    rw [hnext]
    rcases hpkt with hpkt | hpkt
    · have := h.sent_lt pkt hpkt
      omega
    · cases call with
      | os_error b => exact absurd hpkt List.not_mem_nil
      | ok b t l =>
          obtain rfl := List.mem_singleton.mp hpkt
          exact ⟨h.next_nonneg, Int.lt_add_one_of_le (le_refl _)⟩

theorem booked_acked {st st' : C.Self} {k : ℤ} (h : Booked st)
    (ht : st'.toTransport = st.toTransport.acked k) : Booked st' := by
  have hnext : st'.next_seq = st.next_seq := by rw [ht, acked_next]
  have hsock : st'.sock = st.sock := by rw [ht, acked_sock]
  refine ⟨by rw [hnext]; exact h.next_nonneg, ?_, by rw [hnext, hsock]; exact h.sent_lt⟩
  intro s hs
  rw [hsock]
  rw [ht] at hs
  exact h.out_sent s (mem_acked.mp hs).1

theorem booked_rto {st : C.Self} (h : Booked st) {rto_us : ℤ} {now log_us : Us}
    {calls : ℤ → SendCall} (hx : expired st.toTransport now.val rto_us = true) :
    Booked (rto_checker C.snapshot C.rto_cut rto_us now log_us calls st) := by
  -- every resend is of a number that was in flight
  have hout : ∀ s ∈ (rto_checker C.snapshot C.rto_cut rto_us now log_us calls st).in_flight,
      s ∈ st.in_flight := fun s hs => mem_of_rto_fired hx hs
  have hnext : (rto_checker C.snapshot C.rto_cut rto_us now log_us calls st).next_seq
      = st.next_seq := by
    rw [rto_checker_fired hx, resend_all_next]
    rfl
  refine ⟨by rw [hnext]; exact h.next_nonneg, ?_, ?_⟩
  · intro s hs
    obtain ⟨pkt, hmem, hseq⟩ := h.out_sent s (hout s hs)
    refine ⟨pkt, ?_, hseq⟩
    rw [rto_checker_fired hx]
    exact sock_sub_resend_all C.snapshot calls _ _ hmem
  · intro pkt hpkt
    rw [hnext]
    rw [rto_checker_fired hx] at hpkt
    rcases mem_sock_resend_all C.snapshot calls hpkt with h' | h'
    · exact h.sent_lt pkt h'
    · exact h.out_lt (mem_sorted.mp h')

/-- `Booked` is kept by every event, whatever the datagrams are. -/
theorem booked_step {op : Op} (h : Booked p.self) (hstep : C.step cfg mp op p = some p') :
    Booked p'.self := by
  rcases step_self hstep with heq | ⟨call, -, -, heq⟩ | ⟨data, clk, -, heq⟩ |
    ⟨now, log_us, calls, -, hx, heq⟩
  · rw [heq]
    exact h
  · rw [heq]
    exact booked_burst_iter h call
  · have ht := C.ack_transport cfg clk data p.self
    rw [← heq] at ht
    cases hk : C.ack_seq data with
    | none =>
        rw [hk] at ht
        refine booked_acked (k := p.self.cum_acked_seq) h ?_
        rw [acked_of_le (le_refl _)]
        exact ht
    | some k =>
        rw [hk] at ht
        exact booked_acked h ht
  · rw [heq]
    exact booked_rto h hx

theorem booked_start (monotonic : ℚ) : Booked (C.start cfg monotonic).self := by
  refine ⟨le_refl _, ?_, ?_⟩
  · intro s hs
    exact absurd hs (AList.notMem_empty s)
  · intro pkt hpkt
    exact absurd hpkt List.not_mem_nil

end IntHpcc.SenderWindow
