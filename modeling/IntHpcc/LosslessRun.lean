/-
Runs in which every `sendto` succeeds.

In such a run nothing is ever lost from the books: each number handed out is
acknowledged or in flight. Together with the frame that every network run keeps, the
packets in flight are then exactly the numbers between `cum_acked_seq` and `next_seq`
(`Contig`), and an accepted ACK is always of a packet in flight. The HPCC v2 and DCTCP
results start from here.
-/
import IntHpcc.Network
import Mathlib.Order.Interval.Finset.Defs
import Mathlib.Data.Int.Interval

set_option autoImplicit false

namespace IntHpcc.LosslessRun

open IntHpcc.Runs IntHpcc.Bytes IntHpcc.Py IntHpcc.PacketFormat IntHpcc.SenderCore
open IntHpcc.SenderWindow IntHpcc.CumAck IntHpcc.Network

variable {C : SenderClass} {cfg : C.Config} {mp : Option ℤ} {n n' : Net C}

/-- Every number handed out is acknowledged or in flight. -/
def NothingLost (n : Net C) : Prop :=
  ∀ s, 0 ≤ s → s < n.proc.self.next_seq →
    s ≤ n.proc.self.cum_acked_seq ∨ s ∈ n.proc.self.in_flight

/-- Every `sendto` of the event succeeds. -/
def AllSent (cfg : C.Config) (n : Net C) (e : NetEvent) : Prop :=
  (∀ call, e = .send call → call.sent = true) ∧
    ∀ now log_us calls, e = .rto now log_us calls → rto_fires C cfg n.proc.self now = true →
      ∀ s, s ∈ n.proc.self.in_flight → (calls s).sent = true

theorem idle_lossless (w : Window) : Label.idle.Lossless w := by
  constructor
  · intro h
    cases h
  · intro l h
    cases h

theorem ack_lossless (w : Window) (k : ℤ) : (Label.ack k).Lossless w := by
  constructor
  · intro h
    cases h
  · intro l h
    cases h

theorem send_lossless (w : Window) {sent : Bool} :
    (Label.send sent).Lossless w ↔ sent = true := by
  constructor
  · rintro ⟨h, -⟩
    by_contra hs
    exact h (by rw [Bool.eq_false_iff.mpr hs])
  · intro hs
    rw [hs]
    constructor
    · intro h
      cases h
    · intro l h
      cases h

theorem resend_lossless (w : Window) {lost : Set ℤ} :
    (Label.resend lost).Lossless w ↔ ∀ s ∈ w.out, s ∉ lost := by
  constructor
  · rintro ⟨-, h⟩
    exact h lost rfl
  · intro h
    constructor
    · intro h'
      cases h'
    · intro l hl
      rw [← Label.resend.inj hl]
      exact h

theorem allSent_send {call : SendCall} : AllSent cfg n (.send call) ↔ call.sent = true := by
  constructor
  · rintro ⟨h, -⟩
    exact h call rfl
  · intro hs
    constructor
    · intro call' heq
      rw [← NetEvent.send.inj heq]
      exact hs
    · intro now log_us calls h'
      cases h'

theorem allSent_rto {now log_us : Us} {calls : ℤ → SendCall} :
    AllSent cfg n (.rto now log_us calls) ↔
      (rto_fires C cfg n.proc.self now = true →
        ∀ s, s ∈ n.proc.self.in_flight → (calls s).sent = true) := by
  constructor
  · rintro ⟨-, h⟩
    exact h now log_us calls rfl
  · intro h
    constructor
    · intro call h'
      cases h'
    · intro now' log' calls' heq
      obtain ⟨hnow, -, hcalls⟩ := NetEvent.rto.inj heq
      rw [← hnow, ← hcalls]
      exact h

/-- `AllSent` is losslessness of the event's label. -/
theorem allSent_iff (e : NetEvent) :
    AllSent cfg n e ↔ (net_label cfg n e).Lossless n.window := by
  -- an event without a `sendto`
  have hquiet : (∀ call, e ≠ .send call) → (∀ now log_us calls, e ≠ .rto now log_us calls) →
      (net_label cfg n e).Lossless n.window →
      (AllSent cfg n e ↔ (net_label cfg n e).Lossless n.window) := by
    intro hsend hrto hl
    refine iff_of_true ⟨?_, ?_⟩ hl
    · intro call heq
      exact absurd heq (hsend call)
    · intro now log_us calls heq
      exact absurd heq (hrto now log_us calls)
  cases e with
  | acquire => exact hquiet (by simp) (by simp) (idle_lossless _)
  | release => exact hquiet (by simp) (by simp) (idle_lossless _)
  | deliver i hops ecn t => exact hquiet (by simp) (by simp) (idle_lossless _)
  | send call =>
      show _ ↔ (Label.send call.sent).Lossless n.window
      rw [allSent_send, send_lossless]
  | rto now log_us calls =>
      have hlabel : net_label cfg n (.rto now log_us calls) =
          if rto_fires C cfg n.proc.self now then .resend (lost calls) else .idle := rfl
      rw [hlabel, allSent_rto]
      -- a pass that does not fire sends nothing
      by_cases hf : rto_fires C cfg n.proc.self now = true
      · rw [if_pos hf, resend_lossless]
        constructor
        · intro h s hmem hin
          exact absurd (h hf s hmem) (Bool.eq_false_iff.mp hin)
        · intro h _ s hmem
          by_contra hs
          exact h s hmem (Bool.eq_false_iff.mpr hs)
      · rw [if_neg hf]
        exact iff_of_true (fun hf' => absurd hf' hf) (idle_lossless _)
  | ack j clk =>
      refine hquiet (by simp) (by simp) ?_
      rcases net_label_ack_event j clk with hl | ⟨k, hl⟩
      · rw [hl]
        exact idle_lossless _
      · rw [hl]
        exact ack_lossless _ k

/-- Every `sendto` in the event succeeds, whatever the state. -/
def NetEvent.Sent : NetEvent → Prop
  | .send call => call.sent = true
  | .rto _ _ calls => ∀ s, (calls s).sent = true
  | _ => True

theorem allSent_of_sent {e : NetEvent} (h : NetEvent.Sent e) : AllSent cfg n e := by
  refine ⟨?_, ?_⟩
  · rintro call rfl
    exact h
  · rintro now log_us calls rfl - s -
    exact h s

/-- A run of events in which every `sendto` succeeds. -/
theorem eachStep_allSent {es : List NetEvent} (h : ∀ e ∈ es, NetEvent.Sent e) :
    EachStep (Net.step cfg mp) (fun n e _ => AllSent cfg n e) n es :=
  EachStep.of_forall fun e he _ _ => allSent_of_sent (h e he)

/-- One step, from a state where nothing is lost. -/
theorem nothingLost_step_iff {e : NetEvent} (hs : Sound n) (h : NothingLost n)
    (hstep : Net.step cfg mp e n = some n') : NothingLost n' ↔ AllSent cfg n e := by
  rw [allSent_iff, ← covered_step_iff hs.framed hs.rooted h, ← net_refines hstep]
  exact Iff.rfl

theorem nothingLost_start (monotonic : ℚ) : NothingLost (Net.start C cfg monotonic) := by
  have hw : (Net.start C cfg monotonic).window = Window.empty := view_start monotonic
  show Covered (Net.start C cfg monotonic).window
  rw [hw]
  exact covered_empty

/-! ## The packets in flight -/

/-- The packets in flight are the numbers between the two ends. -/
structure Contig {Snap : Type} (st : Transport Snap) : Prop where
  cum_ge : -1 ≤ st.cum_acked_seq
  cum_lt : st.cum_acked_seq < st.next_seq
  mem_iff : ∀ s, s ∈ st.in_flight ↔ st.cum_acked_seq < s ∧ s < st.next_seq

theorem contig_of_nothingLost (hs : Sound n) (h : NothingLost n) :
    Contig n.proc.self.toTransport := by
  have hroot : -1 ≤ n.proc.self.cum_acked_seq := hs.rooted.cum_ge
  refine ⟨hroot, hs.framed.cum_lt, fun s => ?_⟩
  constructor
  · intro hmem
    exact hs.framed.out_lt s hmem
  · rintro ⟨h₁, h₂⟩
    rcases h s (by omega) h₂ with h' | h'
    · omega
    · exact h'

theorem Contig.nonneg_of_mem {Snap : Type} {st : Transport Snap} (h : Contig st) {k : ℤ}
    (hk : k ∈ st.in_flight) : 0 ≤ k := by
  have hlo := ((h.mem_iff k).mp hk).1
  have hroot := h.cum_ge
  omega

/-- `len(in_flight)` is the distance between the two ends. -/
theorem Contig.flight_eq {Snap : Type} {st : Transport Snap} (h : Contig st) :
    (st.flight : ℤ) = st.next_seq - 1 - st.cum_acked_seq := by
  have hset : st.in_flight.keys.toFinset = Finset.Ioo st.cum_acked_seq st.next_seq := by
    ext s
    rw [List.mem_toFinset, ← AList.mem_keys, h.mem_iff, Finset.mem_Ioo]
  have hcard : st.flight = (Finset.Ioo st.cum_acked_seq st.next_seq).card := by
    rw [← hset, List.toFinset_card_of_nodup st.in_flight.keys_nodup]
    rfl
  have hlt := h.cum_lt
  rw [hcard, Int.card_Ioo, Int.toNat_of_nonneg (by omega)]
  ring

/-- An acknowledgement of a packet in flight leaves the flight contiguous. -/
theorem Contig.acked {Snap : Type} {st : Transport Snap} (h : Contig st) {k : ℤ}
    (hk : k ∈ st.in_flight) : Contig (st.acked k) := by
  obtain ⟨h₁, h₂⟩ := (h.mem_iff k).mp hk
  have hroot := h.cum_ge
  have hcum : (st.acked k).cum_acked_seq = k := by
    rw [acked_cum]
    exact max_eq_right h₁.le
  refine ⟨by rw [hcum]; omega, by rw [hcum, acked_next]; exact h₂, fun s => ?_⟩
  rw [mem_acked, h.mem_iff, hcum, acked_next]
  omega

/-- The lossless states of a network run. -/
structure Lossless (n : Net C) : Prop where
  sound : Sound n
  nothing_lost : NothingLost n

theorem lossless_start (monotonic : ℚ) : Lossless (Net.start C cfg monotonic) :=
  ⟨sound_start monotonic, nothingLost_start monotonic⟩

theorem lossless_step {e : NetEvent} (h : Lossless n) (hstep : Net.step cfg mp e n = some n')
    (hsent : AllSent cfg n e) : Lossless n' :=
  ⟨sound_step h.sound hstep, (nothingLost_step_iff h.sound h.nothing_lost hstep).mpr hsent⟩

theorem Lossless.contig (h : Lossless n) : Contig n.proc.self.toTransport :=
  contig_of_nothingLost h.sound h.nothing_lost

/-- In a lossless state an ACK that is not a late duplicate is of a packet in flight. -/
theorem Lossless.mem_of_fresh (h : Lossless n) {data : List Byte} {k : ℤ} (hd : data ∈ n.acks)
    (hk : C.ack_seq data = some k) (hfresh : n.proc.self.cum_acked_seq < k) :
    k ∈ n.proc.self.in_flight := by
  obtain ⟨k', -, hk', -, hlt⟩ := h.sound.reflected.ack_seq hd
  rw [hk, Option.some.injEq] at hk'
  subst hk'
  exact (h.contig.mem_iff k).mpr ⟨hfresh, hlt⟩

/-- A packet in flight has not been acknowledged. -/
theorem Lossless.cum_lt_of_mem (h : Lossless n) {k : ℤ} (hk : k ∈ n.proc.self.in_flight) :
    n.proc.self.cum_acked_seq < k :=
  ((h.contig.mem_iff k).mp hk).1

end IntHpcc.LosslessRun
