/-
How far apart the cuts of an HPCC sender are.

Two mechanisms lower `w_ref`: the window update, driven by ACKs and gated by
`last_update_time`, and the halving of an RTO pass, driven by the time stamps of the
packets in flight. Each is spaced on its own. Two updates are `base_rtt_s` apart whatever
RTOs come between them, because an RTO leaves `last_update_time` alone; two halvings are
an RTO apart, because a pass gives everything left in flight a new time stamp. But
neither sees the other, so an update and a halving may follow each other at once.

The same holds of the C sender, with one difference: its pass keeps a packet whose
retransmission failed, under its old time stamp, so halvings are spaced only if the
retransmissions succeed.
-/
import IntHpcc.CInflight
import IntHpcc.ControllerInv
import IntHpcc.SendTimes

set_option autoImplicit false

namespace IntHpcc.HpccCut

open IntHpcc.Runs IntHpcc.Bytes IntHpcc.Py IntHpcc.PacketFormat IntHpcc.SenderCore
open IntHpcc.SenderWindow IntHpcc.SendTimes

/-! ## The timeout -/

/-- Readings that a timeout lies between are a base RTT apart. -/
theorem apart_of_us {base_rtt_s : ℚ} (rto_us : RtoUs (rto_seconds base_rtt_s))
    (h : base_rtt_s ≤ 1) {a b : ℕ} (hgap : (a : ℤ) + rto_us.val ≤ b) :
    (a : ℚ) / 1000000 + base_rtt_s ≤ (b : ℚ) / 1000000 := by
  have hgapq : (a : ℚ) + rto_us.val ≤ b := by exact_mod_cast hgap
  have hrto := rto_us.base_rtt_le h
  rw [div_add' _ _ _ (by norm_num), div_le_div_iff_of_pos_right (by norm_num)]
  linarith

/-! ## The Python sender -/

section Python

open IntHpcc.Hpcc

/-- Both clocks, the monotonic one in seconds and the other in microseconds, read no less
than `t` and no more than `t'` during the event. -/
def InOrder (t : ℚ × ℕ) (op : Op) (t' : ℚ × ℕ) : Prop :=
  t.1 ≤ t'.1 ∧ t.2 ≤ t'.2 ∧
    match op with
    | .datagram _ clk => (t.1 ≤ clk.monotonic ∧ clk.monotonic ≤ t'.1) ∧
        t.2 ≤ clk.now_us ∧ clk.now_us ≤ clk.log_us ∧ clk.log_us ≤ clk.update_log_us ∧
        clk.update_log_us.val ≤ t'.2
    | .send call => CallWithin t.2 t'.2 call
    | .rto now log_us calls => t.2 ≤ now ∧ now ≤ log_us ∧ log_us.val ≤ t'.2 ∧
        ∀ s, CallWithin log_us t'.2 (calls s)
    | _ => True

/-- When a cut is made, in seconds: an update by the monotonic clock, a halving by the
other. -/
def op_time : Op → Option ℚ
  | .datagram _ clk => some clk.monotonic
  | .rto now _ _ => some (now.val / 1000000)
  | _ => none

/-- The second event comes at least `d` seconds after the first. -/
def Apart (d : ℚ) (a b : Op) : Prop :=
  ∀ ta tb, op_time a = some ta → op_time b = some tb → ta + d ≤ tb

/-- The event lowers `w_ref`. -/
def Lowers (p : Hpcc.cls.Proc) (_ : Op) (p' : Hpcc.cls.Proc) : Prop :=
  p'.self.ctl.w_ref < p.self.ctl.w_ref

/-- A window update that lowers `w_ref`; only an update moves `last_update_seq`. -/
def LoweringUpdate (p : Hpcc.cls.Proc) (op : Op) (p' : Hpcc.cls.Proc) : Prop :=
  p'.self.ctl.last_update_seq ≠ p.self.ctl.last_update_seq ∧ Lowers p op p'

/-- An RTO pass that fires. -/
def Halves (cfg : Config) (p : Hpcc.cls.Proc) (op : Op) (_ : Hpcc.cls.Proc) : Prop :=
  ∃ now log_us calls, op = .rto now log_us calls ∧ rto_fires Hpcc.cls cfg p.self now = true

/-- Two consecutive events that lower `w_ref` are at least `base_rtt_s` apart. -/
def OneCutPerBaseRtt (cfg : Config) (mp : Option ℤ) (p : Hpcc.cls.Proc) (es : List Op) : Prop :=
  ∀ s₁ a s₂ mid s₃ b s₄, Segment (Hpcc.cls.step cfg mp) p es s₁ a s₂ mid s₃ b s₄ →
    Lowers s₁ a s₂ → EachStep (Hpcc.cls.step cfg mp) (fun p op p' => ¬ Lowers p op p') s₂ mid →
    Lowers s₃ b s₄ → Apart cfg.base_rtt_s a b

variable {cfg : Config} {mp : Option ℤ} {p p' : Hpcc.cls.Proc}

/-- What an event does to the record of the last update: nothing, or the listener makes an
update, no sooner than `base_rtt_s` after the last. -/
theorem update_step {op : Op} (hstep : Hpcc.cls.step cfg mp op p = some p') :
    (p'.self.ctl.last_update_seq = p.self.ctl.last_update_seq ∧
      p'.self.ctl.last_update_time = p.self.ctl.last_update_time) ∨
    ∃ data clk, op = .datagram data clk ∧ p'.self.ctl.last_update_time = clk.monotonic ∧
      p.self.ctl.last_update_time + cfg.base_rtt_s ≤ clk.monotonic := by
  rcases step_self hstep with heq | ⟨call, -, -, heq⟩ | ⟨data, clk, rfl, heq⟩ |
    ⟨now, log_us, calls, -, hx, heq⟩
  · rw [heq]
    exact Or.inl ⟨rfl, rfl⟩
  · rw [heq, ControllerInv.burst_iter_ctl p.self call]
    exact Or.inl ⟨rfl, rfl⟩
  · rcases ack_listener_cases cfg clk data p.self with hsame | ⟨shim, hops, ack, rtt_us, -, -, hack⟩
    · have hself : p'.self = p.self := by
        rw [heq]
        show (ack_listener cfg clk data p.self).1 = _
        rw [hsame]
      rw [hself]
      exact Or.inl ⟨rfl, rfl⟩
    · have hself : p'.self = (maybe_update_window_locked cfg clk
          (before_gate cfg clk ack.ack_seq hops rtt_us true p.self)).1 := by
        rw [heq]
        show (ack_listener cfg clk data p.self).1 = _
        rw [hack]
      obtain ⟨-, -, -, hseq, htime⟩ :=
        ControllerInv.Hpcc.took_fields cfg hops p.self.ctl
      have hseq' : (before_gate cfg clk ack.ack_seq hops rtt_us true p.self).ctl.last_update_seq
          = p.self.ctl.last_update_seq := hseq
      have htime' : (before_gate cfg clk ack.ack_seq hops rtt_us true p.self).ctl.last_update_time
          = p.self.ctl.last_update_time := htime
      revert hself
      generalize before_gate cfg clk ack.ack_seq hops rtt_us true p.self = st at hseq' htime'
      intro hself
      unfold maybe_update_window_locked at hself
      by_cases heta : cfg.eta = 0
      · rw [update_from_eta_zero heta] at hself
        rw [hself]
        exact Or.inl ⟨hseq', htime'⟩
      · rw [update_from_eq heta] at hself
        -- an update passes the time gate, and notes the time
        by_cases hg : gate_open cfg clk.monotonic st.ctl.w_ref st = true
        · rw [if_pos hg] at hself
          refine Or.inr ⟨data, clk, rfl, ?_, ?_⟩
          · rw [hself]
            rfl
          · unfold gate_open at hg
            rw [Bool.and_eq_true, decide_eq_true_eq, decide_eq_true_eq, htime'] at hg
            linarith [hg.2]
        · rw [if_neg hg] at hself
          rw [hself]
          exact Or.inl ⟨hseq', htime'⟩
  · rw [heq, rto_fired_ctl hx]
    exact Or.inl ⟨rfl, rfl⟩

/-- **Updates are spaced**, lowering or not, whatever comes between them. -/
theorem updates_spaced {monotonic : ℚ} {es : List Op} {t t' : ℚ × ℕ}
    (hc : Clocked InOrder t es t') :
    Spaced (Hpcc.cls.step cfg mp) LoweringUpdate LoweringUpdate (Apart cfg.base_rtt_s)
      (Hpcc.cls.start cfg monotonic) es := by
  -- since the first update `last_update_time` has not gone back
  refine Spaced.of_clocked (I := fun _ => True)
    (P := fun a t p => ∀ ta, op_time a = some ta →
      ta ≤ p.self.ctl.last_update_time ∧ p.self.ctl.last_update_time ≤ t.1)
    (fun _ _ _ _ _ => trivial) ?_ ?_ ?_ trivial hc
  · intro t a t₁ p p' _ hw hstep hA ta hta
    rcases update_step hstep with ⟨hseq, -⟩ | ⟨data, clk, rfl, htime, -⟩
    · exact absurd hseq hA.1
    · rw [op_time, Option.some.injEq] at hta
      rw [htime, ← hta]
      exact ⟨le_refl _, hw.2.2.1.2⟩
  · intro a t e t₁ p p' _ hP hw hstep ta hta
    obtain ⟨hge, hle⟩ := hP ta hta
    rcases update_step hstep with ⟨-, htime⟩ | ⟨data, clk, rfl, htime, -⟩
    · rw [htime]
      exact ⟨hge, le_trans hle hw.1⟩
    · rw [htime]
      exact ⟨le_trans hge (le_trans hle hw.2.2.1.1), hw.2.2.1.2⟩
  · intro a t b t₁ p p' _ hP hw hstep hB ta tb hta htb
    obtain ⟨hge, -⟩ := hP ta hta
    rcases update_step hstep with ⟨hseq, -⟩ | ⟨data, clk, rfl, -, hgate⟩
    · exact absurd hseq hB.1
    · rw [op_time, Option.some.injEq] at htb
      rw [← htb]
      linarith

/-- The wall clock alone. -/
theorem InOrder.us {t t' : ℚ × ℕ} {op : Op} (h : InOrder t op t') : UsInOrder t.2 op t'.2 := by
  refine ⟨h.2.1, ?_⟩
  cases op with
  | acquire => trivial
  | send call => exact h.2.2
  | release => trivial
  | datagram data clk => exact h.2.2.2
  | rto now log_us calls => exact h.2.2

/-- **Halvings are spaced**, whatever sends fail. -/
theorem halvings_spaced {monotonic : ℚ} {es : List Op} {t t' : ℚ × ℕ}
    (hbase : cfg.base_rtt_s ≤ 1) (hc : Clocked InOrder t es t') :
    Spaced (Hpcc.cls.step cfg mp) (Halves cfg) (Halves cfg) (Apart cfg.base_rtt_s)
      (Hpcc.cls.start cfg monotonic) es := by
  -- since the first pass everything in flight was sent after it
  refine Spaced.of_clocked (I := fun p => Booked p.self)
    (P := fun a t p => ∃ now log_us calls, a = .rto now log_us calls ∧
      SentFrom now.val p ∧ now.val ≤ t.2)
    (fun _ _ _ hs hstep => booked_step hs hstep) ?_ ?_ ?_ (booked_start monotonic) hc
  · rintro t a t₁ p p' hbook hw hstep ⟨now, log_us, calls, rfl, hx⟩
    have hlog : now.val ≤ log_us.val := hw.2.2.2.1
    have hend : log_us.val ≤ t₁.2 := hw.2.2.2.2.1
    obtain ⟨-, rfl⟩ := step_rto.mp hstep
    exact ⟨now, log_us, calls, rfl, (sentFrom_rto hx hw.2.2.2.2.2 rfl).mono hlog,
      le_trans hlog hend⟩
  · rintro a t e t₁ p p' hbook ⟨now, log_us, calls, rfl, hfrom, hle⟩ hw hstep
    exact ⟨now, log_us, calls, rfl, sentFrom_step hbook hfrom hle hw.us hstep, le_trans hle hw.2.1⟩
  · rintro a t b t₁ p p' hbook ⟨now, log_us, calls, rfl, hfrom, -⟩ hw hstep
      ⟨now', log', calls', rfl, hx⟩ ta tb hta htb
    have hgap : (now.val : ℤ) + cfg.rto_us.val ≤ now'.val := hfrom.rto_le hx
    rw [op_time, Option.some.injEq] at hta htb
    rw [← hta, ← htb]
    exact apart_of_us cfg.rto_us hbase hgap

end Python

/-! ## The C sender -/

namespace C

open IntHpcc.CSender

/-- Both clocks of the C sender, in microseconds, the monotonic one first. -/
def InOrder (t : ℕ × ℕ) (op : CSender.Op) (t' : ℕ × ℕ) : Prop :=
  t.1 ≤ t'.1 ∧ t.2 ≤ t'.2 ∧
    match op with
    | .datagram _ now_mono => t.1 ≤ now_mono ∧ now_mono.val ≤ t'.1
    | .send call => CallWithin t.2 t'.2 call
    | .rto now calls => t.2 ≤ now ∧ now.val ≤ t'.2 ∧ ∀ s, CallWithin now t'.2 (calls s)
    | _ => True

def op_time : CSender.Op → Option ℚ
  | .datagram _ now_mono => some (now_mono.val / 1000000)
  | .rto now _ => some (now.val / 1000000)
  | _ => none

def Apart (d : ℚ) (a b : CSender.Op) : Prop :=
  ∀ ta tb, op_time a = some ta → op_time b = some tb → ta + d ≤ tb

/-- The event lowers `w_ref`. -/
def Lowers (p : CSender.Proc) (_ : CSender.Op) (p' : CSender.Proc) : Prop :=
  p'.self.w_ref < p.self.w_ref

/-- A window update that lowers `w_ref`; only an update moves `last_update_seq`. -/
def LoweringUpdate (p : CSender.Proc) (op : CSender.Op) (p' : CSender.Proc) : Prop :=
  p'.self.last_update_seq ≠ p.self.last_update_seq ∧ Lowers p op p'

/-- An RTO check that fires. -/
def Halves (cfg : Config) (p : CSender.Proc) (op : CSender.Op) (_ : CSender.Proc) : Prop :=
  ∃ now calls, op = .rto now calls ∧ fired cfg now p.self = true

/-- An RTO check that fires and whose retransmissions all succeed. -/
def HalvesAndResends (cfg : Config) (p : CSender.Proc) (op : CSender.Op) (_ : CSender.Proc) :
    Prop :=
  ∃ now calls, op = .rto now calls ∧ fired cfg now p.self = true ∧
    ∀ i, occupied p.self i → (calls (p.self.inflight i).seq).sent = true

/-- Two consecutive events that lower `w_ref` are at least `base_rtt_s` apart. -/
def OneCutPerBaseRtt (cfg : Config) (mp : ℤ) (p : CSender.Proc) (es : List CSender.Op) : Prop :=
  ∀ s₁ a s₂ mid s₃ b s₄, Segment (CSender.step cfg mp) p es s₁ a s₂ mid s₃ b s₄ →
    Lowers s₁ a s₂ → EachStep (CSender.step cfg mp) (fun p op p' => ¬ Lowers p op p') s₂ mid →
    Lowers s₃ b s₄ → Apart cfg.base_rtt_s a b

variable {cfg : Config} {mp : ℤ} {p p' : CSender.Proc}

/-- What an event does to the record of the last update. -/
theorem update_step {op : CSender.Op} (hplaced : Placed p.self)
    (hstep : CSender.step cfg mp op p = some p') :
    (p'.self.last_update_seq = p.self.last_update_seq ∧
      p'.self.last_update_us = p.self.last_update_us) ∨
    ∃ data now_mono, op = .datagram data now_mono ∧ p'.self.last_update_us = now_mono ∧
      cfg.base_rtt_s ≤ ((now_mono - p.self.last_update_us : Us).val : ℚ) / 1000000 := by
  rcases CSender.step_self hstep with heq | ⟨call, -, heq⟩ | ⟨data, now_mono, rfl, heq⟩ |
    ⟨now, calls, -, hf, heq⟩
  · rw [heq]
    exact Or.inl ⟨rfl, rfl⟩
  · obtain ⟨-, -, -, -, hseq, hus, -⟩ := send_one_fields cfg p.self p.self.next_seq call
    rw [heq]
    exact Or.inl ⟨hseq, hus⟩
  · -- the gate of an update looks at the time of the last one
    have hgate : ∀ (s : SenderState) (hops : List IntHopHost),
        s.last_update_seq = p.self.last_update_seq → s.last_update_us = p.self.last_update_us →
        p'.self = apply_u cfg now_mono hops s →
        (p'.self.last_update_seq = p.self.last_update_seq ∧
          p'.self.last_update_us = p.self.last_update_us) ∨
        ∃ data' now', CSender.Op.datagram data now_mono = .datagram data' now' ∧
          p'.self.last_update_us = now' ∧
          cfg.base_rtt_s ≤ ((now' - p.self.last_update_us : Us).val : ℚ) / 1000000 := by
      intro s hops hseq hus hself
      rw [hself]
      rcases apply_u_update cfg now_mono hops s with ⟨hseq', hus'⟩ | ⟨hus', hg⟩
      · exact Or.inl ⟨hseq'.trans hseq, hus'.trans hus⟩
      · refine Or.inr ⟨data, now_mono, rfl, hus', ?_⟩
        unfold gate_open at hg
        rw [Bool.and_eq_true, decide_eq_true_eq, decide_eq_true_eq, hus] at hg
        exact hg.2
    rcases ack_thread_cases cfg now_mono data p.self with hsame | ⟨ack_seq, hops, -, h | h⟩
    · rw [heq, hsame]
      exact Or.inl ⟨rfl, rfl⟩
    · exact hgate p.self hops rfl rfl (heq.trans h)
    · obtain ⟨-, -, -, -, hseq, hus, -⟩ := clear_range_fields p.self (p.self.cum_acked_seq + 1)
        ((ack_seq : ℤ) - p.self.cum_acked_seq).toNat
      exact hgate (acked p.self ack_seq) hops hseq hus (heq.trans h)
  · obtain ⟨-, hbooks⟩ := rto_check_fired hplaced calls hf
    rw [heq]
    exact Or.inl ⟨hbooks.last_update_seq, hbooks.last_update_us⟩

/-- The readings of a clock that has not gone back are subtracted without wrapping. -/
theorem sub_val {now last : Us} (h : last.val ≤ now.val) :
    (now - last : Us).val = now.val - last.val :=
  Fin.sub_val_of_le h

/-- **Updates are spaced.** -/
theorem updates_spaced {now_mono : Us} {es : List CSender.Op} {t t' : ℕ × ℕ}
    (hc : Clocked InOrder t es t') :
    Spaced (CSender.step cfg mp) LoweringUpdate LoweringUpdate (Apart cfg.base_rtt_s)
      (CSender.start cfg now_mono) es := by
  -- between two updates `last_update_us` is at least the time of the first
  refine Spaced.of_clocked (I := fun p => Placed p.self)
    (P := fun a t p => ∃ data now_mono, a = .datagram data now_mono ∧
      now_mono.val ≤ p.self.last_update_us.val ∧ p.self.last_update_us.val ≤ t.1)
    (fun _ _ _ hs hstep => placed_step hs hstep) ?_ ?_ ?_ (placed_start cfg now_mono) hc
  · intro t a t₁ p p' hplaced hw hstep hA
    rcases update_step hplaced hstep with ⟨hseq, -⟩ | ⟨data, now, rfl, htime, -⟩
    · exact absurd hseq hA.1
    · refine ⟨data, now, rfl, ?_, ?_⟩
      · rw [htime]
      · rw [htime]
        exact hw.2.2.2
  · rintro a t e t₁ p p' hplaced ⟨data, now, rfl, hge, hle⟩ hw hstep
    have htime := hw.1
    refine ⟨data, now, rfl, ?_⟩
    rcases update_step hplaced hstep with ⟨-, hsame⟩ | ⟨data', now', rfl, hnew, -⟩
    · -- not an update: the time stays
      rw [hsame]
      omega
    · have hnow : t.1 ≤ now'.val := hw.2.2.1
      have hend : now'.val ≤ t₁.1 := hw.2.2.2
      rw [hnew]
      omega
  · rintro a t b t₁ p p' hplaced ⟨data, now, rfl, hge, hle⟩ hw hstep hB ta tb hta htb
    rcases update_step hplaced hstep with ⟨hseq, -⟩ | ⟨data', now', rfl, -, hgate⟩
    · exact absurd hseq hB.1
    · have hnow : t.1 ≤ now'.val := hw.2.2.1
      -- the gate of the second update measures from `last_update_us`
      rw [sub_val (by omega), Nat.cast_sub (by omega)] at hgate
      rw [op_time, Option.some.injEq] at hta htb
      rw [← hta, ← htb]
      have hgeq : (now.val : ℚ) ≤ p.self.last_update_us.val := by exact_mod_cast hge
      have hmono : (now.val : ℚ) / 1000000 ≤ p.self.last_update_us.val / 1000000 :=
        div_le_div_of_nonneg_right hgeq (by norm_num)
      rw [sub_div] at hgate
      linarith

/-- The packets in flight were sent between `lo` and `hi`. -/
def SentBetween (lo hi : ℕ) (p : CSender.Proc) : Prop :=
  AllSlots (fun _ ts => lo ≤ ts.val ∧ ts.val ≤ hi) p.self

/-- The slots after a check that fires. -/
theorem allSlots_rto {Q Q' : ℕ → Us → Prop} {s : SenderState} {now : Us} {calls : ℕ → SendCall}
    (hplaced : Placed s) (hf : fired cfg now s = true) (h : AllSlots Q s)
    (hold : ∀ i, occupied s i → (calls (s.inflight i).seq).sent = false →
      ∀ ts, Q (s.inflight i).seq ts → Q' (s.inflight i).seq ts)
    (hnew : ∀ seq b ts l, calls seq = .ok b ts l → Q' seq ts) :
    AllSlots Q' (rto_check cfg now calls s) := by
  obtain ⟨hslots, -⟩ := rto_check_fired hplaced calls hf
  intro i hi
  unfold occupied at hi
  rw [hslots, resent_seq] at hi
  rw [hslots, resent_seq]
  cases hcall : calls (s.inflight i).seq with
  -- the slot takes the time of the new copy
  | ok b ts l =>
      rw [resent_ts hi hcall]
      exact hnew _ b ts l hcall
  | os_error b =>
      -- the send failed: the slot keeps its time
      have hsame : resent calls (s.inflight i) = s.inflight i := by
        unfold resent
        rw [if_neg hi, hcall]
      rw [hsame]
      refine hold i hi ?_ _ (h i hi)
      rw [hcall]
      rfl

theorem sentBetween_step {op : CSender.Op} {lo : ℕ} {t t' : ℕ × ℕ} (hplaced : Placed p.self)
    (h : SentBetween lo t.2 p) (hlo : lo ≤ t.2) (hw : InOrder t op t')
    (hstep : CSender.step cfg mp op p = some p') : SentBetween lo t'.2 p' := by
  -- what was in flight is not older than `lo`, and the clock goes on
  have hlate : AllSlots (fun _ ts => lo ≤ ts.val ∧ ts.val ≤ t'.2) p.self := by
    intro i hi
    exact ⟨(h i hi).1, le_trans (h i hi).2 hw.2.1⟩
  unfold SentBetween
  rcases CSender.step_self hstep with heq | ⟨call, rfl, heq⟩ | ⟨data, now_mono, -, heq⟩ |
    ⟨now, calls, rfl, hf, heq⟩
  · rw [heq]
    exact hlate
  · rw [heq]
    refine allSlots_send_one cfg hlate ?_
    rintro b ts l rfl
    -- a new packet is stamped within the event
    have hcall : CallWithin t.2 t'.2 (.ok b ts l) := hw.2.2
    exact ⟨le_trans hlo hcall.ts_mem.1, hcall.ts_mem.2⟩
  · rw [heq]
    exact (cleared_ack_thread _ now_mono data _).allSlots hlate
  · rw [heq]
    have hnow : t.2 ≤ now.val := hw.2.2.1
    -- so is what the pass sends again
    refine allSlots_rto hplaced hf hlate (fun _ _ _ _ hq => hq) ?_
    intro seq b ts l hcs
    have hcall := hw.2.2.2.2 seq
    rw [hcs] at hcall
    exact ⟨le_trans hlo (le_trans hnow hcall.ts_mem.1), hcall.ts_mem.2⟩

/-- **Halvings are spaced**, if the retransmissions of the first one succeed. -/
theorem halvings_spaced {now_mono : Us} {es : List CSender.Op} {t t' : ℕ × ℕ}
    (hbase : cfg.base_rtt_s ≤ 1) (hc : Clocked InOrder t es t') :
    Spaced (CSender.step cfg mp) (HalvesAndResends cfg) (Halves cfg) (Apart cfg.base_rtt_s)
      (CSender.start cfg now_mono) es := by
  -- between two halvings all that is in flight was sent after the first
  refine Spaced.of_clocked (I := fun p => Placed p.self)
    (P := fun a t p => ∃ now calls, a = .rto now calls ∧ SentBetween now.val t.2 p ∧
      now.val ≤ t.2)
    (fun _ _ _ hs hstep => placed_step hs hstep) ?_ ?_ ?_ (placed_start cfg now_mono) hc
  · rintro t a t₁ p p' hplaced hw hstep ⟨now, calls, rfl, hf, hsent⟩
    have hend : now.val ≤ t₁.2 := hw.2.2.2.1
    obtain ⟨-, hp⟩ := CSender.step_rto.mp hstep
    have hself : p'.self = rto_check cfg now calls p.self := by rw [hp]
    refine ⟨now, calls, rfl, ?_, hend⟩
    unfold SentBetween
    rw [hself]
    refine allSlots_rto (Q := fun _ _ => True) hplaced hf (fun _ _ => trivial) ?_ ?_
    · -- no resend failed, so no slot kept its old time
      intro i hi hfail
      rw [hsent i hi] at hfail
      cases hfail
    · intro seq b ts l hcs
      have hcall := hw.2.2.2.2 seq
      rw [hcs] at hcall
      exact hcall.ts_mem
  · rintro a t e t₁ p p' hplaced ⟨now, calls, rfl, hsent, hle⟩ hw hstep
    exact ⟨now, calls, rfl, sentBetween_step hplaced hsent hle hw hstep, le_trans hle hw.2.1⟩
  · rintro a t b t₁ p p' hplaced ⟨now, calls, rfl, hsent, -⟩ hw hstep
      ⟨now', calls', rfl, hf⟩ ta tb hta htb
    -- the second pass found one of them expired
    obtain ⟨i, hi, hexp⟩ := fired_iff.mp hf
    obtain ⟨hlo, hhi⟩ := hsent i hi
    have hnow : t.2 ≤ now'.val := hw.2.2.1
    rw [sub_val (by omega)] at hexp
    have hrto := rto_us_cast cfg
    rw [op_time, Option.some.injEq] at hta htb
    rw [← hta, ← htb]
    have hgap : (now.val : ℤ) + cfg.rto_us.val ≤ now'.val := by omega
    exact apart_of_us (cfg.rto_us.of_eq (rto_s_eq _)) hbase hgap

/-! ### Two halvings 75 ms apart

The retransmission of the only packet in flight fails, so it times out again at the next
check. -/

def slow_config : Config where
  w_init := 4
  w_max := 64
  eta := 1 / 2
  w_ai := 0
  tau_over_t := 0
  padding := 0
  base_rtt_s := 1 / 10
  rto_us := (exact_rto_us (1 / 10)).of_eq (rto_s_eq _).symm

/-- One packet is sent; there are no more. -/
def one_packet : List CSender.Op := [.acquire, .send (sent_at 0), .release]

def halving (n : ℕ) : CSender.Op := .rto (at_us n) (fun _ => .os_error (at_us n))

theorem one_packet_state :
    (run (CSender.step slow_config 1) (CSender.start slow_config zero_us) one_packet).map
      (fun p => (p.self.w_ref, (p.self.inflight (inflight_idx 0)).seq,
        (p.self.inflight (inflight_idx 0)).send_ts_us, p.w_int)) = some (4, 0, at_us 0, none) := by
  decide +kernel

/-- A check that finds the packet of slot 0 timed out halves the window and sends the
packet again, or tries to. -/
theorem halving_step {m n : ℕ} (hle : m + 300000 ≤ n) (hlt : n < 2 ^ 64) (call : SendCall)
    {p : CSender.Proc} (hplaced : Placed p.self) (hfree : p.w_int = none)
    (hseq : (p.self.inflight (inflight_idx 0)).seq = 0)
    (hts : (p.self.inflight (inflight_idx 0)).send_ts_us = at_us m) :
    ∃ p', CSender.step slow_config 1 (.rto (at_us n) fun _ => call) p = some p' ∧
      fired slow_config (at_us n) p.self = true ∧ Placed p'.self ∧ p'.w_int = none ∧
      p'.self.w_ref = (rto_cut p.self).w_ref ∧
      p'.self.inflight (inflight_idx 0)
        = resent (fun _ => call) (p.self.inflight (inflight_idx 0)) := by
  have hrto : CSender.rto_us slow_config = 300000 := by decide +kernel
  have hn : (at_us n).val = n := Nat.mod_eq_of_lt hlt
  have hm : (at_us m).val = m := Nat.mod_eq_of_lt (by omega)
  -- the slot has waited for 300 ms, the RTO of this configuration
  have hfired : fired slow_config (at_us n) p.self = true := by
    rw [fired_iff]
    refine ⟨inflight_idx 0, ?_, ?_⟩
    · unfold occupied
      rw [hseq]
      decide
    · rw [hts, hrto, sub_val (by omega), hn, hm]
      omega
  obtain ⟨hslots, hbooks⟩ := rto_check_fired hplaced (fun _ => call) hfired
  have hstep : CSender.step slow_config 1 (.rto (at_us n) fun _ => call) p = some { p with
      self := rto_check slow_config (at_us n) (fun _ => call) p.self } :=
    CSender.step_rto.mpr ⟨hfree, rfl⟩
  refine ⟨_, hstep, hfired, placed_step hplaced hstep, hfree, hbooks.w_ref, ?_⟩
  rw [hslots]

/-- A retransmission that fails leaves the slot as it is. -/
theorem resent_failed (e : InflightEntry) (b : Us) : resent (fun _ => .os_error b) e = e := by
  unfold resent
  split
  · rfl
  · rfl

theorem two_halvings_clocked :
    Clocked InOrder (0, 0) (one_packet ++ [halving 300000] ++ [halving 375000]) (0, 375000) := by
  simp only [one_packet, halving, List.cons_append, List.nil_append, clocked_cons]
  refine ⟨(0, 0), ?_, (0, 0), ?_, (0, 0), ?_, (0, 300000), ?_, (0, 375000), ?_, .nil _⟩
  all_goals
    norm_num [InOrder, CallWithin, sent_at, at_us]

theorem two_halvings_break_law :
    ¬ OneCutPerBaseRtt slow_config 1 (CSender.start slow_config zero_us)
      (one_packet ++ [halving 300000] ++ [halving 375000]) := by
  intro h
  obtain ⟨s₁, hrun₁, hs₁⟩ := Option.map_eq_some_iff.mp one_packet_state
  simp only [Prod.mk.injEq] at hs₁
  obtain ⟨hw, hseq, hts, hfree⟩ := hs₁
  have hplaced : Placed s₁.self :=
    run_invariant (P := fun p : CSender.Proc => Placed p.self)
      (fun _ _ _ hs hstep => placed_step hs hstep) (placed_start slow_config zero_us) hrun₁
  obtain ⟨s₂, hstep₁, -, hplaced₂, hfree₂, hw₂, hslot₂⟩ := halving_step (m := 0) (n := 300000)
    (by norm_num) (by norm_num) (.os_error (at_us 300000)) hplaced hfree hseq hts
  -- no retransmission goes through, so the time stamp is the old one
  rw [resent_failed] at hslot₂
  obtain ⟨s₃, hstep₂, -, -, -, hw₃, -⟩ := halving_step (m := 0) (n := 375000)
    (by norm_num) (by norm_num) (.os_error (at_us 375000)) hplaced₂ hfree₂
    (by rw [hslot₂, hseq]) (by rw [hslot₂, hts])
  have hcut : s₂.self.w_ref = 2 := by
    rw [hw₂, rto_cut, hw]
    norm_num [DEFAULT_WMIN]
  have hcut' : s₃.self.w_ref = 1 := by
    rw [hw₃, rto_cut, hcut]
    norm_num [DEFAULT_WMIN]
  have hlow₁ : Lowers s₁ (halving 300000) s₂ := by
    unfold Lowers
    rw [hw, hcut]
    norm_num
  have hlow₂ : Lowers s₂ (halving 375000) s₃ := by
    unfold Lowers
    rw [hcut, hcut']
    norm_num
  have hseg : Segment (CSender.step slow_config 1) (CSender.start slow_config zero_us)
      (one_packet ++ [halving 300000] ++ [halving 375000]) s₁ (halving 300000) s₂ [] s₂
      (halving 375000) s₃ := by
    refine ⟨⟨one_packet, [], ?_, hrun₁⟩, hstep₁, rfl, hstep₂⟩
    rw [List.append_assoc]
    rfl
  -- both cuts lie within one base RTT
  have hgap := h s₁ _ s₂ [] s₂ _ s₃ hseg hlow₁ eachStep_nil hlow₂ _ _ rfl rfl
  norm_num [at_us, slow_config] at hgap

end C

/-! ## Both senders -/

/-- **The cuts of either kind are spaced.** In every run of the Python sender and of the C
sender whose clocks do not go back: two window updates that lower `w_ref` are at least
`base_rtt_s` apart, and, for base RTTs up to a second, so are two RTO halvings; in the C
sender if the retransmissions of the first succeed. -/
theorem cuts_spaced :
    (∀ (cfg : Hpcc.Config) (mp : Option ℤ) (monotonic : ℚ) (es : List Op) (t t' : ℚ × ℕ),
      Clocked InOrder t es t' →
        Spaced (Hpcc.cls.step cfg mp) LoweringUpdate LoweringUpdate (Apart cfg.base_rtt_s)
            (Hpcc.cls.start cfg monotonic) es ∧
          (cfg.base_rtt_s ≤ 1 →
            Spaced (Hpcc.cls.step cfg mp) (Halves cfg) (Halves cfg) (Apart cfg.base_rtt_s)
              (Hpcc.cls.start cfg monotonic) es)) ∧
    (∀ (cfg : CSender.Config) (mp : ℤ) (now_mono : Us) (es : List CSender.Op) (t t' : ℕ × ℕ),
      Clocked C.InOrder t es t' →
        Spaced (CSender.step cfg mp) C.LoweringUpdate C.LoweringUpdate (C.Apart cfg.base_rtt_s)
            (CSender.start cfg now_mono) es ∧
          (cfg.base_rtt_s ≤ 1 →
            Spaced (CSender.step cfg mp) (C.HalvesAndResends cfg) (C.Halves cfg)
              (C.Apart cfg.base_rtt_s) (CSender.start cfg now_mono) es)) := by
  constructor
  · intro cfg mp monotonic es t t' hc
    exact ⟨updates_spaced hc, fun hbase => halvings_spaced hbase hc⟩
  · intro cfg mp now_mono es t t' hc
    exact ⟨C.updates_spaced hc, fun hbase => C.halvings_spaced hbase hc⟩

/-! ## An update and a halving 25 ms apart -/

/-- A base RTT of 100 ms, so a timeout of 300 ms. -/
def slow_config : Hpcc.Config where
  w_init := 4
  w_max := 64
  eta := 1 / 2
  w_ai := 0
  tau_over_T := 0
  padding := 0
  base_rtt_s := 1 / 10
  rto_us := exact_rto_us _

/-- Packets 0 to 3 are sent at once; 0 is acknowledged after 10 ms, and 4 is sent. -/
def before_cuts : List Op :=
  [.acquire, .send (sent_at 0), .send (sent_at 0), .send (sent_at 0), .send (sent_at 0),
    .release, .datagram (bare_ack 0 0) (clock_at 10000), .acquire, .send (sent_at 10000), .release]

/-- The ACK of packet 3 at 290 ms updates the window; at 315 ms packet 4 has timed out. -/
def update : Op := .datagram (bare_ack 0 3) (clock_at 290000)

def halving : Op := .rto (at_us 315000) (at_us 315000) (fun _ => sent_at 315000)

theorem two_cuts_states :
    (run (Hpcc.cls.step slow_config none) (Hpcc.cls.start slow_config 0) before_cuts).map
        (fun p => (p.self.ctl.w_ref, p.self.ctl.last_update_seq)) = some (4, -1) ∧
    (run (Hpcc.cls.step slow_config none) (Hpcc.cls.start slow_config 0)
        (before_cuts ++ [update])).map
        (fun p => (p.self.ctl.w_ref, p.self.ctl.last_update_seq)) = some (2, 3) ∧
    (run (Hpcc.cls.step slow_config none) (Hpcc.cls.start slow_config 0)
        (before_cuts ++ [update] ++ [halving])).map
        (fun p => (p.self.ctl.w_ref, p.self.ctl.last_update_seq)) = some (1, 3) := by
  decide +kernel

theorem two_cuts_clocked :
    Clocked InOrder (0, 0) (before_cuts ++ [update] ++ [halving]) (315 / 1000, 315000) := by
  simp only [before_cuts, update, halving, List.cons_append, List.nil_append, clocked_cons]
  refine ⟨(0, 0), ?_, (0, 0), ?_, (0, 0), ?_, (0, 0), ?_, (0, 0), ?_, (0, 0), ?_,
    (1 / 100, 10000), ?_, (1 / 100, 10000), ?_, (1 / 100, 10000), ?_, (1 / 100, 10000), ?_,
    (29 / 100, 290000), ?_, (315 / 1000, 315000), ?_, .nil _⟩
  all_goals
    norm_num [InOrder, CallWithin, sent_at, clock_at, at_us]

theorem two_cuts_break_law :
    ¬ OneCutPerBaseRtt slow_config none (Hpcc.cls.start slow_config 0)
      (before_cuts ++ [update] ++ [halving]) := by
  intro h
  obtain ⟨h₁, h₂, h₄⟩ := two_cuts_states
  obtain ⟨s₁, hrun₁, hs₁⟩ := Option.map_eq_some_iff.mp h₁
  obtain ⟨s₂, hrun₂, hs₂⟩ := Option.map_eq_some_iff.mp h₂
  obtain ⟨s₄, hrun₄, hs₄⟩ := Option.map_eq_some_iff.mp h₄
  rw [Prod.mk.injEq] at hs₁ hs₂ hs₄
  -- the update lowers the window, and the halving right after it does again
  have hlow₁ : Lowers s₁ update s₂ := by
    unfold Lowers
    rw [hs₁.1, hs₂.1]
    norm_num
  have hlow₂ : Lowers s₂ halving s₄ := by
    unfold Lowers
    rw [hs₂.1, hs₄.1]
    norm_num
  -- the law asks for a base RTT between them
  have hgap := h s₁ update s₂ [] s₂ halving s₄ (Segment.of_runs hrun₁ hrun₂ hrun₄) hlow₁
    eachStep_nil hlow₂ _ _ rfl rfl
  norm_num [clock_at, at_us, slow_config] at hgap

/-- So an update and a halving of the Python sender may be close; and so may two halvings
of the C sender, when the retransmission of the only packet in flight fails. -/
theorem one_cut_per_base_rtt_fails :
    (¬ ∀ (cfg : Hpcc.Config) (mp : Option ℤ) (monotonic : ℚ) (es : List Op) (t t' : ℚ × ℕ),
      Clocked InOrder t es t' →
        OneCutPerBaseRtt cfg mp (Hpcc.cls.start cfg monotonic) es) ∧
    ¬ ∀ (cfg : CSender.Config) (mp : ℤ) (now_mono : Us) (es : List CSender.Op) (t t' : ℕ × ℕ),
      Clocked C.InOrder t es t' →
        C.OneCutPerBaseRtt cfg mp (CSender.start cfg now_mono) es := by
  constructor
  · intro h
    exact two_cuts_break_law (h slow_config none 0 _ _ _ two_cuts_clocked)
  · intro h
    exact C.two_halvings_break_law (h C.slow_config 1 zero_us _ _ _ C.two_halvings_clocked)

/-! ## Two cuts of each kind -/

/-- The run has an event `A` and, later, an event `B`: what `Spaced` speaks of. -/
def Has {S E : Type*} (step : E → S → Option S) (A B : S → E → S → Prop) (s : S)
    (es : List E) : Prop :=
  ∃ s₁ a s₂ mid s₃ b s₄, Segment step s es s₁ a s₂ mid s₃ b s₄ ∧ A s₁ a s₂ ∧ B s₃ b s₄

/-- Two such events, told by what the four states around them show. -/
theorem Has.of_shown {S E α : Type*} {step : E → S → Option S} {A B : S → E → S → Prop}
    (shown : S → α) {s : S} {pre mid : List E} {a b : E} {x₁ x₂ x₃ x₄ : α}
    (h₁ : (run step s pre).map shown = some x₁)
    (h₂ : (run step s (pre ++ [a])).map shown = some x₂)
    (h₃ : (run step s (pre ++ [a] ++ mid)).map shown = some x₃)
    (h₄ : (run step s (pre ++ [a] ++ mid ++ [b])).map shown = some x₄)
    (hA : ∀ s₁ s₂, shown s₁ = x₁ → shown s₂ = x₂ → A s₁ a s₂)
    (hB : ∀ s₃ s₄, shown s₃ = x₃ → shown s₄ = x₄ → B s₃ b s₄) :
    Has step A B s (pre ++ [a] ++ mid ++ [b]) := by
  obtain ⟨s₁, hrun₁, hs₁⟩ := Option.map_eq_some_iff.mp h₁
  obtain ⟨s₂, hrun₂, hs₂⟩ := Option.map_eq_some_iff.mp h₂
  obtain ⟨s₃, hrun₃, hs₃⟩ := Option.map_eq_some_iff.mp h₃
  obtain ⟨s₄, hrun₄, hs₄⟩ := Option.map_eq_some_iff.mp h₄
  exact ⟨s₁, a, s₂, mid, s₃, b, s₄, Segment.of_runs_between hrun₁ hrun₂ hrun₃ hrun₄,
    hA s₁ s₂ hs₁ hs₂, hB s₃ s₄ hs₃ hs₄⟩

/-- Four packets are sent and acknowledged after 200 ms; then two, after as long again. -/
def first_window : List Op :=
  [.acquire, .send (sent_at 0), .send (sent_at 0), .send (sent_at 0), .send (sent_at 0), .release]

def second_window : List Op :=
  [.acquire, .send (sent_at 200000), .send (sent_at 200000), .release]

def ack_at (seq n : ℕ) : Op := .datagram (bare_ack 0 seq) (clock_at n)

def two_updates : List Op :=
  first_window ++ [ack_at 3 200000] ++ second_window ++ [ack_at 5 400000]

theorem two_updates_states :
    (run (Hpcc.cls.step slow_config none) (Hpcc.cls.start slow_config 0) first_window).map
        (fun p => (p.self.ctl.w_ref, p.self.ctl.last_update_seq)) = some (4, -1) ∧
    (run (Hpcc.cls.step slow_config none) (Hpcc.cls.start slow_config 0)
        (first_window ++ [ack_at 3 200000])).map
        (fun p => (p.self.ctl.w_ref, p.self.ctl.last_update_seq)) = some (2, 3) ∧
    (run (Hpcc.cls.step slow_config none) (Hpcc.cls.start slow_config 0)
        (first_window ++ [ack_at 3 200000] ++ second_window)).map
        (fun p => (p.self.ctl.w_ref, p.self.ctl.last_update_seq)) = some (2, 3) ∧
    (run (Hpcc.cls.step slow_config none) (Hpcc.cls.start slow_config 0) two_updates).map
        (fun p => (p.self.ctl.w_ref, p.self.ctl.last_update_seq)) = some (1, 5) := by
  decide +kernel

theorem two_updates_has :
    Has (Hpcc.cls.step slow_config none) LoweringUpdate LoweringUpdate
      (Hpcc.cls.start slow_config 0) two_updates := by
  obtain ⟨h₁, h₂, h₃, h₄⟩ := two_updates_states
  refine Has.of_shown _ h₁ h₂ h₃ h₄ (fun s₁ s₂ hs₁ hs₂ => ?_) (fun s₃ s₄ hs₃ hs₄ => ?_)
  · simp only [Prod.mk.injEq] at hs₁ hs₂
    unfold LoweringUpdate Lowers
    rw [hs₁.1, hs₁.2, hs₂.1, hs₂.2]
    norm_num
  · simp only [Prod.mk.injEq] at hs₃ hs₄
    unfold LoweringUpdate Lowers
    rw [hs₃.1, hs₃.2, hs₄.1, hs₄.2]
    norm_num

theorem two_updates_clocked : Clocked InOrder (0, 0) two_updates (2 / 5, 400000) := by
  simp only [two_updates, first_window, second_window, ack_at, List.cons_append, List.nil_append,
    clocked_cons]
  refine ⟨(0, 0), ?_, (0, 0), ?_, (0, 0), ?_, (0, 0), ?_, (0, 0), ?_, (0, 0), ?_,
    (1 / 5, 200000), ?_, (1 / 5, 200000), ?_, (1 / 5, 200000), ?_, (1 / 5, 200000), ?_,
    (1 / 5, 200000), ?_, (2 / 5, 400000), ?_, .nil _⟩
  all_goals
    norm_num [InOrder, CallWithin, sent_at, clock_at, at_us]

/-- One packet times out twice, 310 ms apart. -/
def one_packet : List Op := [.acquire, .send (sent_at 0), .release]

theorem two_passes_fire :
    (run (Hpcc.cls.step slow_config (some 1)) (Hpcc.cls.start slow_config 0) one_packet).map
        (fun p => rto_fires Hpcc.cls slow_config p.self (at_us 310000)) = some true ∧
    (run (Hpcc.cls.step slow_config (some 1)) (Hpcc.cls.start slow_config 0)
        (one_packet ++ [pass_at 310000])).map
        (fun p => rto_fires Hpcc.cls slow_config p.self (at_us 620000)) = some true ∧
    (run (Hpcc.cls.step slow_config (some 1)) (Hpcc.cls.start slow_config 0)
        (one_packet ++ [pass_at 310000] ++ [pass_at 620000])).map
        (fun p => p.self.ctl.w_ref) = some 1 := by
  decide +kernel

theorem two_passes_has :
    Has (Hpcc.cls.step slow_config (some 1)) (Halves slow_config) (Halves slow_config)
      (Hpcc.cls.start slow_config 0) (one_packet ++ [pass_at 310000] ++ [pass_at 620000]) := by
  obtain ⟨h₁, h₂, h₃⟩ := two_passes_fire
  obtain ⟨s₁, hrun₁, hs₁⟩ := Option.map_eq_some_iff.mp h₁
  obtain ⟨s₂, hrun₂, hs₂⟩ := Option.map_eq_some_iff.mp h₂
  obtain ⟨s₃, hrun₃, -⟩ := Option.map_eq_some_iff.mp h₃
  exact ⟨s₁, _, s₂, [], s₂, _, s₃, Segment.of_runs hrun₁ hrun₂ hrun₃,
    ⟨_, _, _, rfl, hs₁⟩, ⟨_, _, _, rfl, hs₂⟩⟩

theorem two_passes_clocked :
    Clocked InOrder (0, 0) (one_packet ++ [pass_at 310000] ++ [pass_at 620000])
      (31 / 50, 620000) := by
  simp only [one_packet, pass_at, List.cons_append, List.nil_append, clocked_cons]
  refine ⟨(0, 0), ?_, (0, 0), ?_, (0, 0), ?_, (31 / 100, 310000), ?_, (31 / 50, 620000), ?_,
    .nil _⟩
  all_goals
    norm_num [InOrder, CallWithin, sent_at, at_us]

namespace C

open IntHpcc.CSender

/-- The same two runs of the C sender. -/
def first_window : List CSender.Op :=
  [.acquire, .send (sent_at 0), .send (sent_at 0), .send (sent_at 0), .send (sent_at 0), .release]

def second_window : List CSender.Op :=
  [.acquire, .send (sent_at 200000), .send (sent_at 200000), .release]

def ack_at (seq n : ℕ) : CSender.Op := .datagram (bare_ack 0 seq) (at_us n)

def two_updates : List CSender.Op :=
  first_window ++ [ack_at 3 200000] ++ second_window ++ [ack_at 5 400000]

theorem two_updates_states :
    (run (CSender.step slow_config 6) (CSender.start slow_config zero_us) first_window).map
        (fun p => (p.self.w_ref, p.self.last_update_seq)) = some (4, -1) ∧
    (run (CSender.step slow_config 6) (CSender.start slow_config zero_us)
        (first_window ++ [ack_at 3 200000])).map
        (fun p => (p.self.w_ref, p.self.last_update_seq)) = some (2, 3) ∧
    (run (CSender.step slow_config 6) (CSender.start slow_config zero_us)
        (first_window ++ [ack_at 3 200000] ++ second_window)).map
        (fun p => (p.self.w_ref, p.self.last_update_seq)) = some (2, 3) ∧
    (run (CSender.step slow_config 6) (CSender.start slow_config zero_us) two_updates).map
        (fun p => (p.self.w_ref, p.self.last_update_seq)) = some (1, 5) := by
  decide +kernel

theorem two_updates_has :
    Has (CSender.step slow_config 6) LoweringUpdate LoweringUpdate
      (CSender.start slow_config zero_us) two_updates := by
  obtain ⟨h₁, h₂, h₃, h₄⟩ := two_updates_states
  refine Has.of_shown _ h₁ h₂ h₃ h₄ (fun s₁ s₂ hs₁ hs₂ => ?_) (fun s₃ s₄ hs₃ hs₄ => ?_)
  · simp only [Prod.mk.injEq] at hs₁ hs₂
    unfold LoweringUpdate Lowers
    rw [hs₁.1, hs₁.2, hs₂.1, hs₂.2]
    norm_num
  · simp only [Prod.mk.injEq] at hs₃ hs₄
    unfold LoweringUpdate Lowers
    rw [hs₃.1, hs₃.2, hs₄.1, hs₄.2]
    norm_num

theorem two_updates_clocked : Clocked InOrder (0, 0) two_updates (400000, 400000) := by
  simp only [two_updates, first_window, second_window, ack_at, List.cons_append, List.nil_append,
    clocked_cons]
  refine ⟨(0, 0), ?_, (0, 0), ?_, (0, 0), ?_, (0, 0), ?_, (0, 0), ?_, (0, 0), ?_,
    (200000, 200000), ?_, (200000, 200000), ?_, (200000, 200000), ?_, (200000, 200000), ?_,
    (200000, 200000), ?_, (400000, 400000), ?_, .nil _⟩
  all_goals
    norm_num [InOrder, CallWithin, sent_at, at_us]

/-- A check whose retransmission goes through. -/
def check_at (n : ℕ) : CSender.Op := .rto (at_us n) fun _ => sent_at n

theorem two_checks_has :
    Has (CSender.step slow_config 1) (HalvesAndResends slow_config) (Halves slow_config)
      (CSender.start slow_config zero_us)
      (one_packet ++ [check_at 310000] ++ [check_at 620000]) := by
  obtain ⟨s₁, hrun₁, hs₁⟩ := Option.map_eq_some_iff.mp one_packet_state
  simp only [Prod.mk.injEq] at hs₁
  obtain ⟨-, hseq, hts, hfree⟩ := hs₁
  have hplaced : Placed s₁.self :=
    run_invariant (P := fun p : CSender.Proc => Placed p.self)
      (fun _ _ _ hs hstep => placed_step hs hstep) (placed_start slow_config zero_us) hrun₁
  obtain ⟨s₂, hstep₁, hfired₁, hplaced₂, hfree₂, -, hslot₂⟩ :=
    halving_step (m := 0) (n := 310000) (by norm_num) (by norm_num) (sent_at 310000) hplaced hfree
      hseq hts
  have hused : (s₁.self.inflight (inflight_idx 0)).seq ≠ EMPTY := by
    rw [hseq]
    decide
  -- the slot is booked again at the time of the first check
  obtain ⟨s₃, hstep₂, hfired₂, -⟩ :=
    halving_step (m := 310000) (n := 620000) (by norm_num) (by norm_num) (sent_at 620000) hplaced₂
      hfree₂ (by rw [hslot₂, resent_seq, hseq]) (by rw [hslot₂, resent_ts hused rfl])
  refine ⟨s₁, check_at 310000, s₂, [], s₂, check_at 620000, s₃,
    ⟨⟨one_packet, [], ?_, hrun₁⟩, hstep₁, rfl, hstep₂⟩,
    ⟨_, _, rfl, hfired₁, fun _ _ => rfl⟩, ⟨_, _, rfl, hfired₂⟩⟩
  rw [List.append_assoc]
  rfl

theorem two_checks_clocked :
    Clocked InOrder (0, 0) (one_packet ++ [check_at 310000] ++ [check_at 620000])
      (0, 620000) := by
  simp only [one_packet, check_at, List.cons_append, List.nil_append, clocked_cons]
  refine ⟨(0, 0), ?_, (0, 0), ?_, (0, 0), ?_, (0, 310000), ?_, (0, 620000), ?_, .nil _⟩
  all_goals
    norm_num [InOrder, CallWithin, sent_at, at_us]

end C

/-- The four runs have two cuts each, and `cuts_spaced` keeps them apart. -/
theorem cuts_spaced_two_cuts :
    (Spaced (Hpcc.cls.step slow_config none) LoweringUpdate LoweringUpdate
        (Apart slow_config.base_rtt_s) (Hpcc.cls.start slow_config 0) two_updates ∧
      Has (Hpcc.cls.step slow_config none) LoweringUpdate LoweringUpdate
        (Hpcc.cls.start slow_config 0) two_updates) ∧
    (Spaced (Hpcc.cls.step slow_config (some 1)) (Halves slow_config) (Halves slow_config)
        (Apart slow_config.base_rtt_s) (Hpcc.cls.start slow_config 0)
        (one_packet ++ [pass_at 310000] ++ [pass_at 620000]) ∧
      Has (Hpcc.cls.step slow_config (some 1)) (Halves slow_config) (Halves slow_config)
        (Hpcc.cls.start slow_config 0)
        (one_packet ++ [pass_at 310000] ++ [pass_at 620000])) ∧
    (Spaced (CSender.step C.slow_config 6) C.LoweringUpdate C.LoweringUpdate
        (C.Apart C.slow_config.base_rtt_s) (CSender.start C.slow_config zero_us) C.two_updates ∧
      Has (CSender.step C.slow_config 6) C.LoweringUpdate C.LoweringUpdate
        (CSender.start C.slow_config zero_us) C.two_updates) ∧
    (Spaced (CSender.step C.slow_config 1) (C.HalvesAndResends C.slow_config)
        (C.Halves C.slow_config) (C.Apart C.slow_config.base_rtt_s)
        (CSender.start C.slow_config zero_us)
        (C.one_packet ++ [C.check_at 310000] ++ [C.check_at 620000]) ∧
      Has (CSender.step C.slow_config 1) (C.HalvesAndResends C.slow_config)
        (C.Halves C.slow_config) (CSender.start C.slow_config zero_us)
        (C.one_packet ++ [C.check_at 310000] ++ [C.check_at 620000])) := by
  have hbase : slow_config.base_rtt_s ≤ 1 := by norm_num [slow_config]
  have hbase' : C.slow_config.base_rtt_s ≤ 1 := by norm_num [C.slow_config]
  refine ⟨⟨?_, two_updates_has⟩, ⟨?_, two_passes_has⟩, ⟨?_, C.two_updates_has⟩,
    ?_, C.two_checks_has⟩
  · exact (cuts_spaced.1 slow_config none 0 _ _ _ two_updates_clocked).1
  · exact (cuts_spaced.1 slow_config (some 1) 0 _ _ _ two_passes_clocked).2 hbase
  · exact (cuts_spaced.2 C.slow_config 6 zero_us _ _ _ C.two_updates_clocked).1
  · exact (cuts_spaced.2 C.slow_config 1 zero_us _ _ _ C.two_checks_clocked).2 hbase'

end IntHpcc.HpccCut
