/-
DCTCP and the round trip.

A reduction is meant to be per RTT: the marks of one flight should cost one cut. The gate
counts `int(w)` acknowledged packets since the last update, with the window just reduced,
while the flight still out was sized by the window before; so a packet of the old flight
can open it again, and with a mark it makes a second cut.

A packet can be on the wire more than once, and then its number does not say when the copy
was sent whose ACK comes back: after an RTO pass the ACK of a copy from before the cut is
still about the marks of before the cut. So the runs here are recorded, with the copy that
elicited each ACK (`elicits`), and the law and its condition are about copies.
-/
import IntHpcc.ControllerInv
import IntHpcc.LosslessRun

set_option autoImplicit false

namespace IntHpcc.DctcpRound

open IntHpcc.Runs IntHpcc.Bytes IntHpcc.Py IntHpcc.PacketFormat IntHpcc.SenderCore
open IntHpcc.SenderWindow IntHpcc.CumAck IntHpcc.Network IntHpcc.LosslessRun
open IntHpcc.ControllerInv IntHpcc.Dctcp IntHpcc.ControllerInv.Dctcp IntHpcc.Reflector

/-! ## The copies -/

/-- A network with the record of its ACKs: for each one the place in `sock` of the data
packet that elicited it. -/
abbrev Traced := Net Dctcp.cls × List ℕ

/-- What is recorded of an event: the data packet it delivers, for the one ACK that is made
of it (`step_deliver`). -/
def elicits : NetEvent → Net Dctcp.cls → List ℕ
  | .deliver i _ _ _, _ => [i]
  | _, _ => []

def Traced.step (cfg : Config) (mp : Option ℤ) : NetEvent → Traced → Option Traced :=
  recorded (Net.step cfg mp) elicits

def Traced.start (cfg : Config) (monotonic : ℚ) : Traced :=
  (Net.start Dctcp.cls cfg monotonic, [])

/-- Each ACK has a copy on record, and carries its number. -/
structure Answered (q : Traced) : Prop where
  length_eq : q.2.length = q.1.acks.length
  seq : ∀ (j i : ℕ) (data : List Byte), q.2[j]? = some i → q.1.acks[j]? = some data →
    ∃ pkt, q.1.proc.self.sock[i]? = some pkt ∧ ack_seq data = some pkt.seq

section

variable {cfg : Config} {mp : Option ℤ} {q q' : Traced}

theorem answered_start (monotonic : ℚ) : Answered (Traced.start cfg monotonic) := by
  refine ⟨rfl, fun j i data hj => ?_⟩
  change ([] : List ℕ)[j]? = some i at hj
  simp at hj

/-- The threads add copies and leave the ACKs alone. -/
theorem answered_proc (h : Answered q) {p : Dctcp.cls.Proc}
    (hsock : q.1.proc.self.sock <+: p.self.sock) : Answered ({ q.1 with proc := p }, q.2) := by
  refine ⟨h.length_eq, fun j i data hj hd => ?_⟩
  obtain ⟨pkt, hi, hseq⟩ := h.seq j i data hj hd
  obtain ⟨new, hnew⟩ := hsock
  refine ⟨pkt, ?_, hseq⟩
  show p.self.sock[i]? = some pkt
  rw [← hnew, List.getElem?_append_left (List.getElem?_eq_some_iff.mp hi).1]
  exact hi

/-- A delivery records its copy with the answer. -/
theorem answered_deliver (h : Answered q) {i : ℕ} {payload : DataPayload} {ack : List Byte}
    {answered : List ℤ} (hi : q.1.proc.self.sock[i]? = some payload)
    (hack : ack_seq ack = some payload.seq) :
    Answered (⟨q.1.proc, answered, q.1.acks ++ [ack]⟩, q.2 ++ [i]) := by
  refine ⟨by simp [h.length_eq], fun j i' data hj hd => ?_⟩
  dsimp only at hj hd ⊢
  -- an ACK that was there, or the new one
  by_cases hlt : j < q.1.acks.length
  · rw [List.getElem?_append_left (by rwa [h.length_eq])] at hj
    rw [List.getElem?_append_left hlt] at hd
    exact h.seq j i' data hj hd
  · have hj' := (List.getElem?_eq_some_iff.mp hd).1
    simp only [List.length_append, List.length_singleton] at hj'
    have hjeq : j = q.1.acks.length := by omega
    rw [hjeq, ← h.length_eq, List.getElem?_concat_length, Option.some.injEq] at hj
    rw [hjeq, List.getElem?_concat_length, Option.some.injEq] at hd
    subst hj hd
    exact ⟨payload, hi, hack⟩

theorem answered_step {e : NetEvent} (h : Answered q)
    (hstep : Traced.step cfg mp e q = some q') : Answered q' := by
  obtain ⟨hnet, hnotes⟩ := recorded_eq_some.mp hstep
  obtain ⟨n', elicited⟩ := q'
  dsimp only at hnet hnotes
  subst hnotes
  by_cases hdel : ∃ i hops ecn t, e = .deliver i hops ecn t
  · obtain ⟨i, hops, ecn, t, rfl⟩ := hdel
    obtain ⟨payload, ack, hi, hack, rfl⟩ := step_deliver hnet
    exact answered_deliver h hi (Dctcp.cls.reads_ack hack)
  · -- the other events are the threads', and nothing is recorded of them
    have he : ∀ i hops ecn t, e ≠ .deliver i hops ecn t :=
      fun i hops ecn t heq => hdel ⟨i, hops, ecn, t, heq⟩
    obtain ⟨op, p, -, hp, rfl⟩ := step_thread he hnet
    have hnone : elicits e q.1 = [] := by
      unfold elicits
      split
      · exact absurd rfl (he _ _ _ _)
      · rfl
    rw [hnone, List.append_nil]
    exact answered_proc h (sock_prefix_step hp)

end
/-! ## The law -/

/-- The event is an ACK of packet `k` that the listener processes; `mark` is its ECN echo. -/
def AckOf (n : Net Dctcp.cls) (e : NetEvent) (k : ℤ) (mark : Bool) : Prop :=
  ∃ j clk data shim ack, e = .ack j clk ∧ n.acks[j]? = some data ∧
    read_ack data = .ok (some (shim, ack)) ∧ ack.ack_seq = k ∧ shim.ecn_echo = mark ∧
    n.proc.self.cum_acked_seq < k

/-- An update event: it moves `last_update_seq`, which nothing else does. -/
def Updates (n : Net Dctcp.cls) (_ : NetEvent) (n' : Net Dctcp.cls) : Prop :=
  n'.proc.self.ctl.last_update_seq ≠ n.proc.self.ctl.last_update_seq

/-- An update event that reduces `w`. -/
def Cuts (n : Net Dctcp.cls) (e : NetEvent) (n' : Net Dctcp.cls) : Prop :=
  Updates n e n' ∧ n'.proc.self.ctl.w < n.proc.self.ctl.w

/-- The event is the ACK that copy `i` elicited. -/
def Answers (q : Traced) (e : NetEvent) (i : ℕ) : Prop :=
  ∃ j clk, e = .ack j clk ∧ q.2[j]? = some i

/-- If two consecutive updates both reduce `w`, the copy whose ACK makes the second was put
on the wire after the first. -/
def OneCutPerRound (cfg : Config) (mp : Option ℤ) (q : Traced) (es : List NetEvent) : Prop :=
  ∀ s₁ a s₂ mid s₃ b s₄, Segment (Traced.step cfg mp) q es s₁ a s₂ mid s₃ b s₄ →
    Cuts s₁.1 a s₂.1 →
    EachStep (Traced.step cfg mp) (fun q e q' => ¬ Updates q.1 e q'.1) s₂ mid →
    Cuts s₃.1 b s₄.1 → ∃ i, Answers s₃ b i ∧ s₂.1.proc.self.sock.length ≤ i

/-- An ACK of packet `k` is harmless: the gate is shut for it, or no mark is counted with
it, or the window is as small as it gets. -/
def Harmless (cfg : Config) (c : Ctl) (k : ℤ) (mark : Bool) : Prop :=
  k < c.last_update_seq + py_int c.w ∨
    if c.rtt_window_marked = 0 ∧ mark = false then c.w ≤ cfg.w_max else c.w ≤ w_min

/-- The ACKs of the old flight are harmless: between a reduction and the next update, those
that a copy from before the reduction elicited. -/
def OldFlightHarmless (cfg : Config) (mp : Option ℤ) (q : Traced) (es : List NetEvent) : Prop :=
  ∀ s₁ a s₂ mid s₃ b s₄, Segment (Traced.step cfg mp) q es s₁ a s₂ mid s₃ b s₄ →
    Cuts s₁.1 a s₂.1 →
    EachStep (Traced.step cfg mp) (fun q e q' => ¬ Updates q.1 e q'.1) s₂ mid →
    ∀ i k mark, Answers s₃ b i → AckOf s₃.1 b k mark → i < s₂.1.proc.self.sock.length →
      Harmless cfg s₃.1.proc.self.ctl k mark

/-! ## One event -/

section

variable {cfg : Config} {mp : Option ℤ} {n n' : Net Dctcp.cls}

/-- The counters with the ACK that carries `mark`. -/
def taken (c : Ctl) (mark : Bool) : Ctl := c.counted (if mark then 1 else 0)

/-- The window after the update that an ACK carrying `mark` makes. -/
theorem updated_w (c : Ctl) (k : ℤ) (mark : Bool) :
    ((taken c mark).updated cfg k (taken c mark).marked_share).w =
      if c.rtt_window_marked = 0 ∧ mark = false then min (cfg.w_max : ℚ) (c.w + 1)
      else max w_min (c.w * (1 - ((1 - cfg.g) * c.alpha
        + cfg.g * (taken c mark).marked_share) / 2)) := by
  unfold Ctl.updated
  dsimp only
  by_cases h : c.rtt_window_marked = 0 ∧ mark = false
  · obtain ⟨hm, rfl⟩ := h
    -- no mark in the window: one packet more
    have hzero : (taken c false).rtt_window_marked = 0 := by
      show c.rtt_window_marked + 0 = 0
      omega
    rw [if_neg (by omega), if_pos ⟨hm, rfl⟩]
    rfl
  · -- a mark, of this ACK or of an earlier one: the cut by `alpha`
    have hpos : 0 < (taken c mark).rtt_window_marked := by
      cases mark with
      | true => exact Nat.succ_pos _
      | false =>
          have hm : c.rtt_window_marked ≠ 0 := fun hm => h ⟨hm, rfl⟩
          exact Nat.add_pos_left (Nat.pos_of_ne_zero hm) _
    rw [if_pos hpos, if_neg h]
    rfl

/-- A harmless ACK that finds the gate open does not reduce the window. -/
theorem not_cut_of_harmless {c : Ctl} {k : ℤ} {mark : Bool} (h : Harmless cfg c k mark)
    (hopen : c.last_update_seq + py_int c.w ≤ k) :
    c.w ≤ ((taken c mark).updated cfg k (taken c mark).marked_share).w := by
  rw [updated_w]
  rcases h with h | h
  · omega
  · by_cases hm : c.rtt_window_marked = 0 ∧ mark = false
    · rw [if_pos hm] at h ⊢
      exact le_min h (by linarith)
    · rw [if_neg hm] at h ⊢
      exact le_max_of_le_left h

/-- Any other does, once the average of marks is positive. -/
theorem cut_of_not_harmless {c : Ctl} {k : ℤ} {mark : Bool} (hv : Valid cfg)
    (hmax : c.w ≤ cfg.w_max) (halpha : 0 < c.alpha) (h : ¬ Harmless cfg c k mark) :
    c.last_update_seq + py_int c.w ≤ k ∧
      ((taken c mark).updated cfg k (taken c mark).marked_share).w < c.w := by
  unfold Harmless at h
  push Not at h
  obtain ⟨hopen, h⟩ := h
  refine ⟨hopen, ?_⟩
  rw [updated_w]
  by_cases hm : c.rtt_window_marked = 0 ∧ mark = false
  · rw [if_pos hm] at h
    exact absurd hmax h
  · rw [if_neg hm] at h ⊢
    have hw : (1 : ℚ) < c.w := not_le.mp h
    have hmarked : 0 < (taken c mark).rtt_window_marked := by
      cases mark with
      | true => exact Nat.succ_pos _
      | false =>
          have hne : c.rtt_window_marked ≠ 0 := fun hz => hm ⟨hz, rfl⟩
          exact Nat.add_pos_left (Nat.pos_of_ne_zero hne) _
    have hshare : 0 < (taken c mark).marked_share := by
      refine div_pos (by exact_mod_cast hmarked) ?_
      exact_mod_cast Nat.succ_pos c.rtt_window_total
    have hewma := ewma_pos hv.g_nonneg hv.g_le halpha hshare
    refine max_lt hw ?_
    -- the factor of the cut is below one, since something was marked
    have hfactor : c.w * (1 - ((1 - cfg.g) * c.alpha
        + cfg.g * (taken c mark).marked_share) / 2) < c.w * 1 :=
      mul_lt_mul_of_pos_left (by linarith) (by linarith)
    linarith

/-- A processed ACK, seen from the state it acts on. -/
theorem ack_ctl {e : NetEvent} {k : ℤ} {mark : Bool} (hack : AckOf n e k mark)
    (hstep : Net.step cfg mp e n = some n') :
    n'.proc.self.ctl = if n.proc.self.ctl.last_update_seq + py_int n.proc.self.ctl.w ≤ k then
        (taken n.proc.self.ctl mark).updated cfg k (taken n.proc.self.ctl mark).marked_share
      else taken n.proc.self.ctl mark := by
  obtain ⟨j, clk, data, shim, ack, rfl, hj, hread, rfl, rfl, hfresh⟩ := hack
  obtain ⟨rtt_us, heq⟩ := ack_listener_fresh cfg clk hread hfresh
  have hcum : (before_gate clk ack.ack_seq (if shim.ecn_echo then 1 else 0) rtt_us
      n.proc.self).cum_acked_seq = ack.ack_seq := by
    show (n.proc.self.toTransport.acked ack.ack_seq).cum_acked_seq = ack.ack_seq
    rw [acked_cum]
    exact max_eq_right hfresh.le
  -- the ACK itself has been counted, so only the test of its number is left
  have hgate : gate_open (before_gate clk ack.ack_seq (if shim.ecn_echo then 1 else 0) rtt_us
      n.proc.self) = true
      ↔ n.proc.self.ctl.last_update_seq + py_int n.proc.self.ctl.w ≤ ack.ack_seq := by
    unfold gate_open
    rw [Bool.and_eq_true, decide_eq_true_eq, decide_eq_true_eq, hcum]
    exact and_iff_left (Nat.succ_ne_zero _)
  rw [ack_self hj hstep]
  show (ack_listener cfg clk data n.proc.self).1.ctl = _
  rw [heq, on_ack_eq, maybe_update_eq, hcum]
  by_cases hopen : n.proc.self.ctl.last_update_seq + py_int n.proc.self.ctl.w ≤ ack.ack_seq
  · rw [if_pos (hgate.mpr hopen), if_pos hopen]
    rfl
  · rw [if_neg (fun h => hopen (hgate.mp h)), if_neg hopen]
    rfl

/-- Only a processed ACK moves `last_update_seq` or the average of marks. -/
theorem ctl_of_not_ack {e : NetEvent} (hl : Lossless n)
    (hstep : Net.step cfg mp e n = some n') (hno : ∀ k mark, ¬ AckOf n e k mark) :
    n'.proc.self.ctl.last_update_seq = n.proc.self.ctl.last_update_seq ∧
      n'.proc.self.ctl.alpha = n.proc.self.ctl.alpha := by
  rcases net_self hstep with heq | ⟨call, -, -, heq⟩ | ⟨j, clk, data, rfl, hj, heq⟩ |
    ⟨now, log_us, calls, -, hx, heq⟩
  · rw [heq]
    exact ⟨rfl, rfl⟩
  · rw [heq, burst_iter_ctl n.proc.self call]
    exact ⟨rfl, rfl⟩
  · rcases ack_listener_cases cfg clk data n.proc.self with hsame | ⟨shim, ack, rtt_us, hread, hdup, -⟩
    · have hself : n'.proc.self = n.proc.self := by
        rw [heq]
        show (ack_listener cfg clk data n.proc.self).1 = _
        rw [hsame]
      rw [hself]
      exact ⟨rfl, rfl⟩
    · -- an ACK that is taken in is of a packet in flight, so it is above `cum_acked_seq`
      exfalso
      by_cases hfresh : n.proc.self.cum_acked_seq < ack.ack_seq
      · exact hno _ _ ⟨j, clk, data, shim, ack, rfl, hj, hread, rfl, rfl, hfresh⟩
      · apply hdup
        refine ⟨?_, not_lt.mp hfresh⟩
        have hout : ack.ack_seq ∉ n.proc.self.in_flight := by
          rw [hl.contig.mem_iff]
          exact fun h => hfresh h.1
        unfold send_ts
        rw [AList.lookup_eq_none.mpr hout]
        rfl
  · rw [heq, rto_fired_ctl hx]
    exact ⟨rfl, rfl⟩

/-- An update is the work of a processed ACK that finds the gate open. -/
theorem updates_ack {e : NetEvent} (hl : Lossless n) (hstep : Net.step cfg mp e n = some n')
    (hu : Updates n e n') : ∃ k mark, AckOf n e k mark ∧
      n.proc.self.ctl.last_update_seq + py_int n.proc.self.ctl.w ≤ k := by
  by_cases hack : ∃ k mark, AckOf n e k mark
  · obtain ⟨k, mark, hack⟩ := hack
    refine ⟨k, mark, hack, ?_⟩
    by_contra hshut
    apply hu
    rw [ack_ctl hack hstep, if_neg hshut]
    rfl
  · push Not at hack
    exact absurd (ctl_of_not_ack hl hstep hack).1 hu

/-- An ACK that finds the gate open makes an update. -/
theorem updates_of_open {e : NetEvent} {k : ℤ} {mark : Bool}
    (hlast : n.proc.self.ctl.last_update_seq ≤ n.proc.self.cum_acked_seq)
    (hack : AckOf n e k mark) (hstep : Net.step cfg mp e n = some n')
    (hopen : n.proc.self.ctl.last_update_seq + py_int n.proc.self.ctl.w ≤ k) :
    Updates n e n' := by
  have hfresh : n.proc.self.cum_acked_seq < k := by
    obtain ⟨_, _, _, _, _, -, -, -, -, -, h⟩ := hack
    exact h
  unfold Updates
  rw [ack_ctl hack hstep, if_pos hopen]
  show k ≠ _
  omega

/-! ## The average of marks after a cut -/

theorem ok_net_step (hv : Valid cfg) {e : NetEvent} (h : Ok cfg n.proc.self)
    (hstep : Net.step cfg mp e n = some n') : Ok cfg n'.proc.self := by
  rcases step_cases hstep with ⟨op, p, -, hp, rfl⟩ | ⟨_, _, _, _, _, -, -, -, rfl⟩
  · exact ok_step hv h hp
  · exact h

/-- A reduction leaves a positive average behind. -/
theorem alpha_pos_of_cuts {e : NetEvent} (hl : Lossless n) (hok : Ok cfg n.proc.self)
    (hstep : Net.step cfg mp e n = some n') (hcut : Cuts n e n') :
    0 < n'.proc.self.ctl.alpha := by
  obtain ⟨k, mark, hack, hopen⟩ := updates_ack hl hstep hcut.1
  have hctl := ack_ctl hack hstep
  rw [if_pos hopen] at hctl
  have hlower := hcut.2
  have halpha : n'.proc.self.ctl.alpha = (1 - cfg.g) * n.proc.self.ctl.alpha
      + cfg.g * (taken n.proc.self.ctl mark).marked_share := by
    rw [hctl]
    rfl
  rw [hctl, updated_w] at hlower
  have hw : 1 ≤ n.proc.self.ctl.w := hok.one_le_w
  -- an update without marks raises the window, so this one had marks
  by_cases hm : n.proc.self.ctl.rtt_window_marked = 0 ∧ mark = false
  · rw [if_pos hm] at hlower
    have hle : n.proc.self.ctl.w ≤ min (cfg.w_max : ℚ) (n.proc.self.ctl.w + 1) :=
      le_min hok.w_le (by linarith)
    exact absurd hle (not_le.mpr hlower)
  · rw [if_neg hm, ← halpha] at hlower
    have hlt : n.proc.self.ctl.w * (1 - n'.proc.self.ctl.alpha / 2) < n.proc.self.ctl.w :=
      lt_of_le_of_lt (le_max_right _ _) hlower
    -- with `alpha` at most 0 the factor would not lower it
    by_contra hneg
    have hge : n.proc.self.ctl.w * 1 ≤ n.proc.self.ctl.w * (1 - n'.proc.self.ctl.alpha / 2) :=
      mul_le_mul_of_nonneg_left (by linarith) (by linarith)
    linarith

/-- It stays as it is until the next update. -/
theorem alpha_step {e : NetEvent} (hl : Lossless n) (hok : Ok cfg n.proc.self)
    (hstep : Net.step cfg mp e n = some n') (hu : ¬ Updates n e n') :
    n'.proc.self.ctl.alpha = n.proc.self.ctl.alpha := by
  by_cases hack : ∃ k mark, AckOf n e k mark
  · obtain ⟨k, mark, hack⟩ := hack
    have hshut : ¬ n.proc.self.ctl.last_update_seq + py_int n.proc.self.ctl.w ≤ k :=
      fun hopen => hu (updates_of_open hok.last_le hack hstep hopen)
    rw [ack_ctl hack hstep, if_neg hshut]
    rfl
  · push Not at hack
    exact (ctl_of_not_ack hl hstep hack).2

end


/-! ## The condition -/

section

variable {cfg : Config} {mp : Option ℤ} {q q' : Traced} {e : NetEvent}

theorem traced_net (h : Traced.step cfg mp e q = some q') :
    Net.step cfg mp e q.1 = some q'.1 := (recorded_eq_some.mp h).1

/-- A processed ACK answers a copy of its packet, and no other. -/
theorem AckOf.answers {k : ℤ} {mark : Bool} (h : AckOf q.1 e k mark) (ha : Answered q) :
    ∃ i pkt, Answers q e i ∧ q.1.proc.self.sock[i]? = some pkt ∧ pkt.seq = k := by
  obtain ⟨j, clk, data, shim, ack, rfl, hj, hread, rfl, -, -⟩ := h
  have hlt : j < q.2.length := by
    rw [ha.length_eq]
    exact (List.getElem?_eq_some_iff.mp hj).1
  have hi : q.2[j]? = some q.2[j] := List.getElem?_eq_getElem hlt
  obtain ⟨pkt, hsock, hseq⟩ := ha.seq j _ data hi hj
  have hseq' : ack_seq data = some ack.ack_seq := by
    unfold ack_seq
    rw [hread]
  rw [hseq', Option.some.injEq] at hseq
  exact ⟨_, pkt, ⟨j, clk, rfl, hi⟩, hsock, hseq.symm⟩

theorem answers_unique {i i' : ℕ} (h : Answers q e i) (h' : Answers q e i') : i' = i := by
  obtain ⟨j, clk, rfl, hi⟩ := h
  obtain ⟨j', clk', he, hi'⟩ := h'
  obtain ⟨rfl, rfl⟩ := NetEvent.ack.inj he
  rw [hi, Option.some.injEq] at hi'
  exact hi'.symm

/-- What the argument needs of the states on the way. -/
structure Sane (q : Traced) : Prop where
  lossless : Lossless q.1
  answered : Answered q

theorem sane_step (h : Sane q) (hstep : Traced.step cfg mp e q = some q')
    (hsent : AllSent cfg q.1 e) : Sane q' :=
  ⟨lossless_step h.lossless (traced_net hstep) hsent, answered_step h.answered hstep⟩

theorem sane_start (monotonic : ℚ) : Sane (Traced.start cfg monotonic) :=
  ⟨lossless_start monotonic, answered_start monotonic⟩

/-- With a valid configuration, and once the average of marks is positive. -/
structure Marking (cfg : Config) (q : Traced) : Prop where
  sane : Sane q
  ok : Ok cfg q.1.proc.self
  alpha_pos : 0 < q.1.proc.self.ctl.alpha

theorem marking_step (hv : Valid cfg) (h : Marking cfg q)
    (hstep : Traced.step cfg mp e q = some q')
    (hc : AllSent cfg q.1 e ∧ ¬ Updates q.1 e q'.1) : Marking cfg q' := by
  refine ⟨sane_step h.sane hstep hc.1, ok_net_step hv h.ok (traced_net hstep), ?_⟩
  rw [alpha_step h.sane.lossless h.ok (traced_net hstep) hc.2]
  exact h.alpha_pos

end

/-- **One cut per round trip, when the old flight is harmless.** In a run of a DCTCP sender
over the lossy network in which the sends succeed: if the ACKs of the copies that were out
at a reduction are harmless, then of two consecutive updates that both reduce the window
the second is made by a copy put on the wire after the first. Under a valid configuration
the condition is also necessary. -/
theorem one_cut_per_round (cfg : Config) (mp : Option ℤ) (monotonic : ℚ) (es : List NetEvent)
    (hsent : EachStep (Traced.step cfg mp) (fun q e _ => AllSent cfg q.1 e)
      (Traced.start cfg monotonic) es) :
    (OldFlightHarmless cfg mp (Traced.start cfg monotonic) es →
      OneCutPerRound cfg mp (Traced.start cfg monotonic) es) ∧
    (Valid cfg → OneCutPerRound cfg mp (Traced.start cfg monotonic) es →
      OldFlightHarmless cfg mp (Traced.start cfg monotonic) es) := by
  constructor
  · intro h s₁ a s₂ mid s₃ b s₄ hseg hcut₁ hquiet hcut₂
    have h₁ : Sane s₁ := hseg.each_before hsent (sane_start monotonic)
      (fun e s s' hs hstep hc => sane_step hs hstep hc)
    obtain ⟨ha, hmid, -⟩ := hseg.each hsent
    have h₂ := sane_step h₁ hseg.first ha
    have h₃ : Sane s₃ := run_invariant_of_each
      (fun e s s' hs hstep hc => sane_step hs hstep hc) h₂ hmid hseg.between
    have hb := traced_net hseg.second
    -- the second reduction is the work of an ACK, and that of a copy
    obtain ⟨k, mark, hack, hopen⟩ := updates_ack h₃.lossless hb hcut₂.1
    obtain ⟨i, -, hi, -, -⟩ := hack.answers h₃.answered
    refine ⟨i, hi, ?_⟩
    by_contra hold
    have hharm := h s₁ a s₂ mid s₃ b s₄ hseg hcut₁ hquiet i k mark hi hack (not_le.mp hold)
    have hge := not_cut_of_harmless hharm hopen
    have hlower := hcut₂.2
    rw [ack_ctl hack hb, if_pos hopen] at hlower
    exact absurd hge (not_le.mpr hlower)
  · intro hv hlaw s₁ a s₂ mid s₃ b s₄ hseg hcut₁ hquiet i k mark hi hack hold
    have hstep' : ∀ e (s s' : Traced), Sane s ∧ Ok cfg s.1.proc.self →
        Traced.step cfg mp e s = some s' → AllSent cfg s.1 e →
        Sane s' ∧ Ok cfg s'.1.proc.self :=
      fun e s s' hs hstep hc =>
        ⟨sane_step hs.1 hstep hc, ok_net_step hv hs.2 (traced_net hstep)⟩
    have h₁ : Sane s₁ ∧ Ok cfg s₁.1.proc.self :=
      hseg.each_before hsent ⟨sane_start monotonic, ok_start hv monotonic⟩ hstep'
    obtain ⟨ha, hmid, -⟩ := hseg.each hsent
    obtain ⟨h₂, hok₂⟩ := hstep' a s₁ s₂ h₁ hseg.first ha
    have halpha := alpha_pos_of_cuts h₁.1.lossless h₁.2 (traced_net hseg.first) hcut₁
    have h₃ : Marking cfg s₃ := run_invariant_of_each
      (fun e s s' hs hstep hc => marking_step hv hs hstep hc)
      ⟨h₂, hok₂, halpha⟩ (hmid.and hquiet) hseg.between
    have hb := traced_net hseg.second
    by_contra hharm
    -- then the ACK makes a reduction, and the law puts its copy after the first one
    obtain ⟨hopen, hlower⟩ := cut_of_not_harmless hv h₃.ok.w_le h₃.alpha_pos hharm
    have hcut₂ : Cuts s₃.1 b s₄.1 := by
      refine ⟨updates_of_open h₃.ok.last_le hack hb hopen, ?_⟩
      rw [ack_ctl hack hb, if_pos hopen]
      exact hlower
    obtain ⟨i', hi', hnew⟩ := hlaw s₁ a s₂ mid s₃ b s₄ hseg hcut₁ hquiet hcut₂
    obtain rfl := answers_unique hi hi'
    omega

/-! ## A run with two cuts for one flight -/

/-- The default arguments, but no padding. -/
def small_config : Config where
  w_init := 4
  w_max := 64
  g := 1 / 16
  padding := 0
  base_rtt_s := 1 / 1000
  rto_us := exact_rto_us _

/-- Packets 0 to 3 are sent, 2 is acknowledged, 4 to 6 are sent. Packets 3 and 6 arrive
marked. -/
def before_cuts : List NetEvent :=
  [.acquire, .send sent_at_zero, .send sent_at_zero, .send sent_at_zero, .send sent_at_zero,
    .release, .deliver 2 [] 0 zero_us, .ack 0 zero_clock,
    .acquire, .send sent_at_zero, .send sent_at_zero, .send sent_at_zero, .release,
    .deliver 3 [] ECN_CE zero_us, .deliver 6 [] ECN_CE zero_us]

/-- The ACK of packet 3 makes the first reduction, that of packet 6 the second. -/
def first_cut : NetEvent := .ack 1 zero_clock

def second_cut : NetEvent := .ack 2 zero_clock

/-- What a state shows: `w`, `last_update_seq`, how many copies are on the wire, and the
copies that have been answered. -/
def shown (q : Traced) : ℚ × ℤ × ℕ × List ℕ :=
  (q.1.proc.self.ctl.w, q.1.proc.self.ctl.last_update_seq, q.1.proc.self.sock.length, q.2)

theorem two_cuts_states :
    (run (Traced.step small_config none) (Traced.start small_config 0) before_cuts).map shown
      = some (4, -1, 7, [2, 3, 6]) ∧
    (run (Traced.step small_config none) (Traced.start small_config 0)
        (before_cuts ++ [first_cut])).map shown = some (63 / 16, 3, 7, [2, 3, 6]) ∧
    (run (Traced.step small_config none) (Traced.start small_config 0)
        (before_cuts ++ [first_cut] ++ [second_cut])).map shown
      = some (61551 / 16384, 6, 7, [2, 3, 6]) := by
  decide +kernel

/-- In these runs every `sendto` goes through. -/
theorem all_sent {es : List NetEvent} (h : ∀ e ∈ es, NetEvent.Sent e) :
    EachStep (Traced.step small_config none) (fun q e _ => AllSent small_config q.1 e)
      (Traced.start small_config 0) es :=
  EachStep.of_forall fun e he _ _ => allSent_of_sent (h e he)

theorem two_cuts_sent : ∀ e ∈ before_cuts ++ [first_cut] ++ [second_cut], NetEvent.Sent e := by
  simp only [before_cuts, first_cut, second_cut, List.cons_append, List.nil_append,
    List.forall_mem_cons, NetEvent.Sent, sent_at_zero, SendCall.sent, List.not_mem_nil,
    false_imp_iff, implies_true, and_self]

/-- The second reduction is made by copy 6, and there were seven at the first. -/
theorem two_cuts_break_law :
    ¬ OneCutPerRound small_config none (Traced.start small_config 0)
      (before_cuts ++ [first_cut] ++ [second_cut]) := by
  intro h
  obtain ⟨h₁, h₂, h₄⟩ := two_cuts_states
  obtain ⟨s₁, hrun₁, hs₁⟩ := Option.map_eq_some_iff.mp h₁
  obtain ⟨s₂, hrun₂, hs₂⟩ := Option.map_eq_some_iff.mp h₂
  obtain ⟨s₄, hrun₄, hs₄⟩ := Option.map_eq_some_iff.mp h₄
  simp only [shown, Prod.mk.injEq] at hs₁ hs₂ hs₄
  have hcut₁ : Cuts s₁.1 first_cut s₂.1 := by
    unfold Cuts Updates
    rw [hs₁.1, hs₁.2.1, hs₂.1, hs₂.2.1]
    norm_num
  have hcut₂ : Cuts s₂.1 second_cut s₄.1 := by
    unfold Cuts Updates
    rw [hs₂.1, hs₂.2.1, hs₄.1, hs₄.2.1]
    norm_num
  -- the law asks for a packet sent after the first cut
  obtain ⟨i, ⟨j, clk, he, hi⟩, hnew⟩ := h s₁ first_cut s₂ [] s₂ second_cut s₄
    (Segment.of_runs hrun₁ hrun₂ hrun₄) hcut₁ eachStep_nil hcut₂
  obtain ⟨rfl, -⟩ := NetEvent.ack.inj he
  rw [hs₂.2.2.2] at hi
  rw [hs₂.2.2.1] at hnew
  -- the second cut comes from the ACK of packet 6, sent before it
  obtain rfl : 6 = i := Option.some.inj hi
  omega

theorem one_cut_per_round_fails :
    ¬ ∀ (cfg : Config) (mp : Option ℤ) (monotonic : ℚ) (es : List NetEvent),
      EachStep (Traced.step cfg mp) (fun q e _ => AllSent cfg q.1 e)
        (Traced.start cfg monotonic) es →
      OneCutPerRound cfg mp (Traced.start cfg monotonic) es :=
  fun h => two_cuts_break_law (h small_config none 0 _ (all_sent two_cuts_sent))

/-! ## A run with one cut for each flight -/

/-- Packets 0 to 3 are sent and 3 is marked; then 4 to 6 are sent and 6 is marked. -/
def cut_per_flight : List NetEvent :=
  [.acquire, .send sent_at_zero, .send sent_at_zero, .send sent_at_zero, .send sent_at_zero,
    .release, .deliver 3 [] ECN_CE zero_us, .ack 0 zero_clock,
    .acquire, .send sent_at_zero, .send sent_at_zero, .send sent_at_zero, .release,
    .deliver 6 [] ECN_CE zero_us, .ack 1 zero_clock]

/-- Both ACKs make a reduction; four copies are out at the first, and the second answers
copy 6. -/
theorem cut_per_flight_states :
    (run (Traced.step small_config none) (Traced.start small_config 0)
        (cut_per_flight.take 8)).map shown = some (31 / 8, 3, 4, [3]) ∧
    (run (Traced.step small_config none) (Traced.start small_config 0)
        (cut_per_flight.take 14)).map shown = some (31 / 8, 3, 7, [3, 6]) ∧
    (run (Traced.step small_config none) (Traced.start small_config 0) cut_per_flight).map shown
      = some (14911 / 4096, 6, 7, [3, 6]) := by
  decide +kernel

theorem cut_per_flight_sent : ∀ e ∈ cut_per_flight, NetEvent.Sent e := by
  simp only [cut_per_flight, List.forall_mem_cons, NetEvent.Sent, sent_at_zero, SendCall.sent,
    List.not_mem_nil, false_imp_iff, implies_true, and_self]

def is_ack : NetEvent → Bool
  | .ack _ _ => true
  | _ => false

theorem cut_per_flight_acks : ∀ i j : Fin 15, i < j →
    cut_per_flight[i.val]?.all is_ack = true → cut_per_flight[j.val]?.all is_ack = true →
      i = 7 ∧ j = 14 := by
  decide

/-- So no ACK of an old copy comes after the first reduction. -/
theorem cut_per_flight_harmless :
    OldFlightHarmless small_config none (Traced.start small_config 0) cut_per_flight := by
  intro s₁ a s₂ mid s₃ b s₄ hseg hcut₁ hquiet c k mark hc hack hold
  have h₁ : Sane s₁ := hseg.each_before (all_sent cut_per_flight_sent) (sane_start 0)
    (fun e s s' hs hstep hc => sane_step hs hstep hc)
  obtain ⟨-, -, ⟨_, _, _, _, _, rfl, -⟩, -⟩ :=
    updates_ack h₁.lossless (traced_net hseg.first) hcut₁.1
  obtain ⟨l, clk, rfl, hl⟩ := hc
  obtain ⟨i, j, hij, hi, hj, hrun₂, hrun₃⟩ := hseg.indices
  -- the two ACKs are the only ones there are
  have hj15 : j < 15 := (List.getElem?_eq_some_iff.mp hj).1
  obtain ⟨hi7, hj14⟩ := cut_per_flight_acks ⟨i, by omega⟩ ⟨j, hj15⟩ hij
    (by rw [hi]; rfl) (by rw [hj]; rfl)
  obtain rfl : i = 7 := congrArg Fin.val hi7
  obtain rfl : j = 14 := congrArg Fin.val hj14
  obtain ⟨h₂, h₃, -⟩ := cut_per_flight_states
  rw [hrun₂, Option.map_some, Option.some.injEq] at h₂
  rw [hrun₃, Option.map_some, Option.some.injEq] at h₃
  simp only [shown, Prod.mk.injEq] at h₂ h₃
  obtain rfl : 1 = l := by
    have heq : NetEvent.ack 1 zero_clock = NetEvent.ack l clk := Option.some.inj hj
    exact (NetEvent.ack.inj heq).1
  rw [h₃.2.2.2] at hl
  rw [h₂.2.2.1] at hold
  obtain rfl : 6 = c := Option.some.inj hl
  omega

/-! ## An old copy after a retransmission -/

/-- A pass that finds packets 4 to 6 expired and sends them again. -/
def resend : NetEvent :=
  .rto (at_us 30000) (at_us 30000) fun _ => sent_at_zero

theorem resent_states :
    (run (Traced.step small_config none) (Traced.start small_config 0)
        (before_cuts ++ [first_cut] ++ [resend])).map shown = some (63 / 32, 3, 10, [2, 3, 6]) ∧
    (run (Traced.step small_config none) (Traced.start small_config 0)
        (before_cuts ++ [first_cut] ++ [resend] ++ [second_cut])).map shown
      = some (61551 / 32768, 6, 10, [2, 3, 6]) := by
  decide +kernel

/-- Packet 6 is on the wire again when its ACK makes the second reduction, but the ACK is
that of copy 6, with the mark of before the first. -/
theorem resent_breaks_law :
    ¬ OneCutPerRound small_config none (Traced.start small_config 0)
      (before_cuts ++ [first_cut] ++ [resend] ++ [second_cut]) := by
  intro h
  obtain ⟨h₁, h₂, -⟩ := two_cuts_states
  obtain ⟨h₃, h₄⟩ := resent_states
  obtain ⟨s₁, hrun₁, hs₁⟩ := Option.map_eq_some_iff.mp h₁
  obtain ⟨s₂, hrun₂, hs₂⟩ := Option.map_eq_some_iff.mp h₂
  obtain ⟨s₃, hrun₃, hs₃⟩ := Option.map_eq_some_iff.mp h₃
  obtain ⟨s₄, hrun₄, hs₄⟩ := Option.map_eq_some_iff.mp h₄
  simp only [shown, Prod.mk.injEq] at hs₁ hs₂ hs₃ hs₄
  have hcut₁ : Cuts s₁.1 first_cut s₂.1 := by
    unfold Cuts Updates
    rw [hs₁.1, hs₁.2.1, hs₂.1, hs₂.2.1]
    norm_num
  have hcut₂ : Cuts s₃.1 second_cut s₄.1 := by
    unfold Cuts Updates
    rw [hs₃.1, hs₃.2.1, hs₄.1, hs₄.2.1]
    norm_num
  -- the pass halves the window, but it is no update
  have hquiet : EachStep (Traced.step small_config none)
      (fun q e q' => ¬ Updates q.1 e q'.1) s₂ [resend] := by
    refine (eachStep_cons (step_of_runs hrun₂ hrun₃)).mpr ⟨fun hu => hu ?_, eachStep_nil⟩
    rw [hs₂.2.1, hs₃.2.1]
  obtain ⟨i, ⟨j, clk, he, hi⟩, hnew⟩ := h s₁ first_cut s₂ [resend] s₃ second_cut s₄
    (Segment.of_runs_between hrun₁ hrun₂ hrun₃ hrun₄) hcut₁ hquiet hcut₂
  obtain ⟨rfl, -⟩ := NetEvent.ack.inj he
  rw [hs₃.2.2.2] at hi
  rw [hs₂.2.2.1] at hnew
  obtain rfl : 6 = i := Option.some.inj hi
  omega

theorem resent_sent :
    ∀ e ∈ before_cuts ++ [first_cut] ++ [resend] ++ [second_cut], NetEvent.Sent e := by
  simp only [before_cuts, first_cut, resend, second_cut, List.cons_append, List.nil_append,
    List.forall_mem_cons, NetEvent.Sent, sent_at_zero, SendCall.sent, List.not_mem_nil,
    false_imp_iff, implies_true, and_self]

/-- In the first and the last run an ACK of an old copy does harm; in the one between them
none does, and of its two reductions the second is made by a copy sent after the first. -/
theorem one_cut_per_round_two_cuts :
    ¬ OldFlightHarmless small_config none (Traced.start small_config 0)
        (before_cuts ++ [first_cut] ++ [second_cut]) ∧
      OneCutPerRound small_config none (Traced.start small_config 0) cut_per_flight ∧
      ¬ OldFlightHarmless small_config none (Traced.start small_config 0)
        (before_cuts ++ [first_cut] ++ [resend] ++ [second_cut]) := by
  refine ⟨fun h => two_cuts_break_law ?_, ?_, fun h => resent_breaks_law ?_⟩
  · exact (one_cut_per_round small_config none 0 _ (all_sent two_cuts_sent)).1 h
  · exact (one_cut_per_round small_config none 0 _ (all_sent cut_per_flight_sent)).1
      cut_per_flight_harmless
  · exact (one_cut_per_round small_config none 0 _ (all_sent resent_sent)).1 h

end IntHpcc.DctcpRound
