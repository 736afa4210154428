/-
The time stamps of the packets in flight.

`_now_us()` is read for every row of the log, every packet and every entry of
`in_flight`. When its readings do not go back, the entries that an event makes are
stamped no earlier than the event begins, and those it leaves keep their stamp. So what
is in flight was sent from some moment on as long as every event since was later than it
(`sentFrom_step`), and after an RTO pass that moment is the pass (`sentFrom_rto`).
-/
import IntHpcc.SenderWindow

set_option autoImplicit false

namespace IntHpcc.SendTimes

open IntHpcc.Runs IntHpcc.Bytes IntHpcc.Py IntHpcc.PacketFormat IntHpcc.SenderCore
open IntHpcc.SenderWindow

/-- The clock readings of a `sendto` lie in order between `t` and `t'`. -/
def CallWithin (t t' : ℕ) : SendCall → Prop
  | .ok build_us ts_us log_us => t ≤ build_us ∧ build_us ≤ ts_us ∧ ts_us ≤ log_us ∧ log_us.val ≤ t'
  | .os_error build_us => t ≤ build_us ∧ build_us.val ≤ t'

/-- So does the time stamp the packet is booked with. -/
theorem CallWithin.ts_mem {t t' : ℕ} {build_us ts_us log_us : Us}
    (h : CallWithin t t' (.ok build_us ts_us log_us)) : t ≤ ts_us.val ∧ ts_us.val ≤ t' := by
  have hbuild : build_us.val ≤ ts_us.val := h.2.1
  have hlog : ts_us.val ≤ log_us.val := h.2.2.1
  exact ⟨le_trans h.1 hbuild, le_trans hlog h.2.2.2⟩

/-- `_now_us()` reads no less than `t` and no more than `t'` during the event, and does not
go back. -/
def UsInOrder (t : ℕ) (op : Op) (t' : ℕ) : Prop :=
  t ≤ t' ∧
    match op with
    | .datagram _ clk => t ≤ clk.now_us ∧ clk.now_us ≤ clk.log_us ∧
        clk.log_us ≤ clk.update_log_us ∧ clk.update_log_us.val ≤ t'
    | .send call => CallWithin t t' call
    | .rto now log_us calls => t ≤ now ∧ now ≤ log_us ∧ log_us.val ≤ t' ∧
        ∀ s, CallWithin log_us t' (calls s)
    | _ => True

variable {C : SenderClass} {cfg : C.Config} {mp : Option ℤ} {p p' : C.Proc}

/-- The packets in flight were sent at `lo` or later. -/
def SentFrom (lo : ℕ) (p : C.Proc) : Prop :=
  ∀ s e, p.self.in_flight.lookup s = some e → (lo : ℤ) ≤ e.send_ts_us

theorem SentFrom.mono {lo lo' : ℕ} (h : SentFrom lo' p) (hle : lo ≤ lo') : SentFrom lo p := by
  intro s e he
  have hsent := h s e he
  omega

/-- After an RTO pass that fires, all that is in flight has been sent in the pass. -/
theorem sentFrom_rto {now log_us : Us} {calls : ℤ → SendCall} {t' : ℕ}
    (hx : rto_fires C cfg p.self now = true)
    (hcalls : ∀ s, CallWithin log_us t' (calls s))
    (heq : p'.self = rto_checker C.snapshot C.rto_cut (C.rto_us cfg) now log_us calls p.self) :
    SentFrom log_us.val p' := by
  intro s e he
  rw [heq] at he
  obtain ⟨-, b, ts, l, hc, rfl⟩ := rto_fired_entry hx he
  have hcall := hcalls s
  rw [hc] at hcall
  exact Nat.cast_le.mpr hcall.ts_mem.1

/-- What is in flight after an event was in flight before under the same time stamp, or has
one between the readings of the event. -/
theorem sentFrom_step {op : Op} {lo t t' : ℕ} (hbook : Booked p.self) (h : SentFrom lo p)
    (hlo : lo ≤ t) (hw : UsInOrder t op t') (hstep : C.step cfg mp op p = some p') :
    SentFrom lo p' := by
  rcases step_self hstep with heq | ⟨call, rfl, -, heq⟩ | ⟨data, clk, -, heq⟩ |
    ⟨now, log_us, calls, rfl, hx, heq⟩
  · rw [SentFrom, heq]
    exact h
  · intro s e he
    rw [heq] at he
    -- the packet just sent, and those sent before
    rcases first_send_entry C.snapshot hbook.next_notMem he with
      ⟨-, b, ts, l, rfl, rfl⟩ | ⟨-, hold⟩
    · have hcall : CallWithin t t' (.ok b ts l) := hw.2
      exact Nat.cast_le.mpr (le_trans hlo hcall.ts_mem.1)
    · exact h s e hold
  · have ht : p'.self.toTransport
        = (C.ack_seq data).elim p.self.toTransport p.self.toTransport.acked := by
      rw [heq]
      exact C.ack_transport cfg clk data p.self
    intro s e he
    cases hk : C.ack_seq data with
    | none =>
        rw [hk] at ht
        rw [ht] at he
        exact h s e he
    | some k =>
        rw [hk, Option.elim_some] at ht
        rw [ht] at he
        exact h s e (lookup_acked_eq_some.mp he).1
  · have hnow : t ≤ now.val := hw.2.1
    have hlog : now.val ≤ log_us.val := hw.2.2.1
    exact (sentFrom_rto hx hw.2.2.2.2 heq).mono (le_trans hlo (le_trans hnow hlog))

/-- A pass that fires finds a packet an RTO old, so it is an RTO later than anything before
which nothing in flight was sent. -/
theorem SentFrom.rto_le {lo : ℕ} {now : Us} (h : SentFrom lo p)
    (hx : rto_fires C cfg p.self now = true) :
    (lo : ℤ) + C.rto_us cfg ≤ now.val := by
  obtain ⟨s, e, he, hexp⟩ := expired_iff.mp hx
  have hsent := h s e he
  omega

end IntHpcc.SendTimes
