/-
RTO events are an RTO apart.

The checker polls four times per RTO and keeps no record of its last pass. What spaces
the passes that fire is the flight itself: a pass empties `in_flight` and whatever is in
it later has been sent since, so the next pass has to wait until a packet is an RTO old
again. The invariant is `SpacedUpTo`: the `rto` rows of the log are that far apart, and
nothing in flight is older than the last of them.
-/
import IntHpcc.EventLog
import IntHpcc.HpccCut
import IntHpcc.Journal
import IntHpcc.SendTimes

set_option autoImplicit false

namespace IntHpcc.RtoSpacing

open IntHpcc.Runs IntHpcc.Bytes IntHpcc.Py IntHpcc.PacketFormat IntHpcc.SenderCore
open IntHpcc.SenderWindow IntHpcc.Network IntHpcc.EventLog IntHpcc.SendTimes IntHpcc.Journal

/-- The time stamps of the `rto` rows. -/
def rto_times {Snap Ctl : Type} (st : Sender Snap Ctl) : List ℤ :=
  (st.events.filter fun r => r.event = .rto).map LogEvent.ts_us

/-- Rows that are not of an RTO do not matter. -/
theorem rto_rows_nil {new : List LogEvent} (h : ∀ r ∈ new, r.event ≠ .rto) :
    new.filter (fun r => r.event = .rto) = [] := by
  apply List.filter_eq_nil_iff.mpr
  intro r hr
  simpa using h r hr

theorem rto_times_append {Snap Ctl : Type} {st st' : Sender Snap Ctl} {new : List LogEvent}
    (hev : st'.events = st.events ++ new) (hnew : ∀ r ∈ new, r.event ≠ .rto) :
    rto_times st' = rto_times st := by
  unfold rto_times
  rw [hev, List.filter_append, rto_rows_nil hnew, List.append_nil]

theorem ne_rto_of_sends {new : List LogEvent} (h : SendRows new) : ∀ r ∈ new, r.event ≠ .rto := by
  intro r hr heq
  rcases h r hr with hname | hname
  · rw [heq] at hname
    cases hname
  · rw [heq] at hname
    cases hname

/-- Neither the row of an ACK nor that of an update is of an RTO. -/
theorem ne_rto_of_ack {k : SenderKind} {data : List Byte} {row : LogEvent} {upd : List LogEvent}
    (hrow : AckRow k data row) (hupd : ∀ r ∈ upd, r.event = .update) :
    ∀ r ∈ row :: upd, r.event ≠ .rto := by
  intro r hr heq
  rcases List.mem_cons.mp hr with rfl | hr
  · rcases hrow.name with hname | ⟨-, hname⟩
    · rw [hname] at heq
      cases heq
    · rw [hname] at heq
      cases heq
  · rw [hupd r hr] at heq
    cases heq

/-- The event is an RTO pass that fires and is logged at `log_us`. -/
def FiresAt {C : SenderClass} (cfg : C.Config) (p : C.Proc) (op : Op) (log_us : Us) : Prop :=
  ∃ now calls, op = .rto now log_us calls ∧ rto_fires C cfg p.self now = true

variable {k : SenderKind} {cfg : k.cls.Config} {mp : Option ℤ} {p p' : k.cls.Proc}

/-- What an event does to the times of the RTOs: a pass that fires adds its own. -/
theorem rto_times_step {op : Op} (hstep : k.cls.step cfg mp op p = some p') :
    (∃ log_us, FiresAt cfg p op log_us ∧
        rto_times p'.self = rto_times p.self ++ [(log_us.val : ℤ)]) ∨
      (¬ ∃ log_us, FiresAt cfg p op log_us) ∧ rto_times p'.self = rto_times p.self := by
  obtain ⟨new, hev, hwritten⟩ := written_step hstep
  cases hwritten with
  | ack hacc hrow hupd =>
      refine Or.inr ⟨?_, rto_times_append hev (ne_rto_of_ack hrow hupd)⟩
      rintro ⟨_, _, _, hop, -⟩
      cases hop
  | @rto now log_us calls sends hfires hsends =>
      -- one `rto` row, and the resends add none
      refine Or.inl ⟨log_us, ⟨now, calls, rfl, hfires⟩, ?_⟩
      unfold rto_times
      rw [hev, List.filter_append, List.filter_cons_of_pos (by rfl),
        rto_rows_nil (ne_rto_of_sends hsends), List.map_append]
      rfl
  | other hack hrto hnew =>
      refine Or.inr ⟨?_, rto_times_append hev (ne_rto_of_sends hnew)⟩
      rintro ⟨log_us, now, calls, hop, hfires⟩
      rw [hrto now log_us calls hop] at hfires
      cases hfires

/-- Up to the time `t` the RTOs are an RTO apart, and what is in flight was sent since. -/
structure SpacedUpTo (cfg : k.cls.Config) (t : ℕ) (p : k.cls.Proc) : Prop where
  booked : Booked p.self
  apart : Apart (k.cls.rto_us cfg) (rto_times p.self)
  past : ∀ x ∈ rto_times p.self, ∃ u : ℕ, x = u ∧ u ≤ t ∧ SentFrom u p

theorem spacedUpTo_start (monotonic : ℚ) (t : ℕ) :
    SpacedUpTo cfg t (k.cls.start cfg monotonic) :=
  ⟨booked_start monotonic, List.Pairwise.nil, fun _ hx => absurd hx List.not_mem_nil⟩

theorem spacedUpTo_step {op : Op} {t t' : ℕ} (h : SpacedUpTo cfg t p) (hw : UsInOrder t op t')
    (hstep : k.cls.step cfg mp op p = some p') : SpacedUpTo cfg t' p' := by
  have hbook : Booked p'.self := booked_step h.booked hstep
  have hkeep : ∀ x ∈ rto_times p.self, ∃ u : ℕ, x = u ∧ u ≤ t' ∧ SentFrom u p' := by
    intro x hx
    obtain ⟨u, rfl, hut, hsent⟩ := h.past x hx
    exact ⟨u, rfl, le_trans hut hw.1, sentFrom_step h.booked hsent hut hw hstep⟩
  rcases rto_times_step hstep with ⟨log_us, ⟨now, calls, rfl, hx⟩, htimes⟩ | ⟨-, htimes⟩
  · obtain ⟨-, hp⟩ := step_rto.mp hstep
    have hlog : now.val ≤ log_us.val := hw.2.2.1
    refine ⟨hbook, ?_, ?_⟩
    · -- the packet that timed out was sent after every RTO before this one
      rw [htimes]
      refine h.apart.snoc fun x hx' => ?_
      obtain ⟨u, rfl, -, hsent⟩ := h.past x hx'
      have hle := hsent.rto_le hx
      omega
    · intro x hx'
      rw [htimes, List.mem_append] at hx'
      rcases hx' with hold | hnew
      · exact hkeep x hold
      · exact ⟨log_us.val, List.mem_singleton.mp hnew, hw.2.2.2.1,
          sentFrom_rto hx hw.2.2.2.2 (by rw [hp])⟩
  · refine ⟨hbook, ?_, ?_⟩
    · rw [htimes]
      exact h.apart
    · rw [htimes]
      exact hkeep

/-- All that an event does to the RTOs: a pass that fires writes its time, and leaves
nothing in flight that was sent earlier; any other event writes none. -/
def RtoStep (cfg : k.cls.Config) (p : k.cls.Proc) (op : Op) (p' : k.cls.Proc) : Prop :=
  (∃ log_us, FiresAt cfg p op log_us ∧ rto_times p'.self = rto_times p.self ++ [(log_us.val : ℤ)] ∧
      SentFrom log_us.val p') ∨
    (¬ ∃ log_us, FiresAt cfg p op log_us) ∧ rto_times p'.self = rto_times p.self

theorem rtoStep {op : Op} {t t' : ℕ} (hw : UsInOrder t op t')
    (hstep : k.cls.step cfg mp op p = some p') : RtoStep cfg p op p' := by
  rcases rto_times_step hstep with ⟨log_us, ⟨now, calls, rfl, hx⟩, htimes⟩ | hquiet
  · obtain ⟨-, hp⟩ := step_rto.mp hstep
    exact Or.inl ⟨log_us, ⟨now, calls, rfl, hx⟩, htimes, sentFrom_rto hx hw.2.2.2.2 (by rw [hp])⟩
  · exact Or.inr hquiet

/-- How many RTOs an interval of `L` microseconds holds. -/
theorem rto_count_le {rto : ℤ} (hrto : 0 < rto) {times : List ℤ} (h : Apart rto times) (lo : ℤ)
    {L : ℤ} (hL : 0 ≤ L) :
    (((times.filter fun x => lo ≤ x ∧ x ≤ lo + L).length : ℕ) : ℚ) ≤ 1 + L / rto := by
  have hpos : (0 : ℚ) < rto := by exact_mod_cast hrto
  have hcount := Apart.count_le (h.filter fun x => decide (lo ≤ x ∧ x ≤ lo + L))
    (show lo ≤ lo + L by omega) fun x hx => of_decide_eq_true (List.mem_filter.mp hx).2
  generalize (times.filter fun x => decide (lo ≤ x ∧ x ≤ lo + L)).length = n at hcount ⊢
  -- one more RTO than there are gaps
  rw [add_sub_cancel_left, nsmul_eq_mul] at hcount
  have hgaps : (((n - 1 : ℕ) : ℚ)) ≤ L / rto := by
    rw [le_div_iff₀ hpos]
    exact_mod_cast hcount
  have hn : (n : ℚ) ≤ ((n - 1 : ℕ) : ℚ) + 1 := by exact_mod_cast (by omega : n ≤ n - 1 + 1)
  linarith

/-- **RTO events are spaced.** In every run of the three senders in which `_now_us()` does
not go back, whatever arrives and whichever sends fail: the `rto` rows of the log are an
RTO apart, so that an interval of `L` microseconds holds at most `1 + L / rto` of them;
there is one for each pass that fires, and after it all that is in flight was sent no
earlier. -/
theorem rto_events_spaced (k : SenderKind) (cfg : k.cls.Config) (mp : Option ℤ) (monotonic : ℚ)
    {es : List Op} {t t' : ℕ} {p : k.cls.Proc} (hc : Clocked UsInOrder t es t')
    (hrun : run (k.cls.step cfg mp) (k.cls.start cfg monotonic) es = some p) :
    Apart (k.cls.rto_us cfg) (rto_times p.self) ∧
      (∀ lo L : ℤ, 0 ≤ L →
        ((((rto_times p.self).filter fun x => lo ≤ x ∧ x ≤ lo + L).length : ℕ) : ℚ)
          ≤ 1 + L / k.cls.rto_us cfg) ∧
      EachStep (k.cls.step cfg mp) (RtoStep cfg) (k.cls.start cfg monotonic) es := by
  have hkeep : ∀ t op t₁ q q', SpacedUpTo cfg t q → UsInOrder t op t₁ →
      k.cls.step cfg mp op q = some q' → SpacedUpTo cfg t₁ q' :=
    fun _ _ _ _ _ h hw hstep => spacedUpTo_step h hw hstep
  have hspaced : SpacedUpTo cfg t' p :=
    run_invariant_clocked hkeep (spacedUpTo_start monotonic t) hc hrun
  have hrto : 0 < k.cls.rto_us cfg := by
    have hge := k.cls.le_rto_us cfg
    omega
  refine ⟨hspaced.apart, fun lo L hL => rto_count_le hrto hspaced.apart lo hL, ?_⟩
  rintro pre op post p₁ p₂ rfl - hstep
  obtain ⟨t₁, -, hrest⟩ := clocked_append.mp hc
  obtain ⟨t₂, hw, -⟩ := clocked_cons.mp hrest
  exact rtoStep hw hstep

/-! ## Two RTOs of one packet -/

/-- One packet is sent and never answered; the checker passes every 15 ms. -/
def unanswered : List Op :=
  [.acquire, .send (sent_at 1000), .release, pass_at 15000, pass_at 30000, pass_at 45000,
    pass_at 60000]

theorem unanswered_times :
    (run (Dctcp.cls.step (Dctcp.defaults (1 / 200)) (some 1))
      (Dctcp.cls.start (Dctcp.defaults (1 / 200)) 0) unanswered).map (fun p => rto_times p.self)
      = some [30000, 60000] := by
  decide +kernel

theorem unanswered_clocked : Clocked UsInOrder 0 unanswered 60000 := by
  simp only [unanswered, clocked_cons]
  refine ⟨0, ?_, 1000, ?_, 1000, ?_, 15000, ?_, 30000, ?_, 45000, ?_, 60000, ?_, .nil _⟩
  all_goals
    norm_num [UsInOrder, CallWithin, at_us, sent_at, pass_at]

/-- Their RTO is the least one, 20 ms. -/
theorem unanswered_rto : Dctcp.cls.rto_us (Dctcp.defaults (1 / 200)) = 20000 := by decide +kernel

theorem rto_events_spaced_unanswered :
    Apart (20000 : ℤ) [30000, 60000] ∧
      ((([30000, 60000].filter fun x : ℤ => 30000 ≤ x ∧ x ≤ 30000 + 30000).length : ℕ) : ℚ)
        ≤ 1 + (30000 : ℤ) / (20000 : ℤ) := by
  obtain ⟨p, hrun, htimes⟩ := Option.map_eq_some_iff.mp unanswered_times
  obtain ⟨h₁, h₂, -⟩ :=
    rto_events_spaced .dctcp (Dctcp.defaults (1 / 200)) (some 1) 0 unanswered_clocked hrun
  have happart : Apart (Dctcp.cls.rto_us (Dctcp.defaults (1 / 200))) (rto_times p.self) := h₁
  have hcount : (((rto_times p.self).filter _).length : ℚ)
      ≤ 1 + (30000 : ℤ) / (Dctcp.cls.rto_us (Dctcp.defaults (1 / 200)) : ℚ) :=
    h₂ 30000 30000 (by norm_num)
  rw [htimes, unanswered_rto] at happart hcount
  exact ⟨happart, hcount⟩

end IntHpcc.RtoSpacing
