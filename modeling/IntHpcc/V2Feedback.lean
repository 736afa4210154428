/-
HPCC v2 and the age of its feedback.

A packet's incarnation is stored with its number, not with the copy on the wire. An RTO
pass clears the flight and sends every packet again, and what it stores is the
incarnation it has just begun; an ACK of an older copy that arrives after that counts as
feedback of the new epoch.

`Hist` is the network with a record of which copy was sent under which incarnation and
which copy each ACK answers. Of the copies of a packet the last one is the one whose
incarnation is stored (`Recorded.latest`), and every retransmission has a later
incarnation than the copies before it, so what counts is whether an ACK answers the last
copy (`Journal.Growing.stamp_eq_iff`).
-/
import IntHpcc.Journal
import IntHpcc.Utilisation
import IntHpcc.V2Epoch

set_option autoImplicit false

namespace IntHpcc.V2Feedback

open IntHpcc.Runs IntHpcc.Bytes IntHpcc.Py IntHpcc.PacketFormat IntHpcc.SenderCore
open IntHpcc.SenderWindow IntHpcc.CumAck IntHpcc.Network IntHpcc.LosslessRun
open IntHpcc.Hpcc IntHpcc.ControllerInv IntHpcc.V2Epoch IntHpcc.Journal

/-! ## The record -/

/-- The network with its record: for each data packet put on the wire its number and the
incarnation it was sent under, and for each ACK the data packet that elicited it. -/
structure Hist where
  net : Net HpccV2.cls
  copies : List (ℤ × ℕ)
  elicited : List ℕ

/-- What an event that leads to `n'` adds. An RTO pass sends after it has advanced the
incarnation, and nothing else both sends and advances it. -/
def Hist.record (h : Hist) (e : NetEvent) (n' : Net HpccV2.cls) : Hist where
  net := n'
  copies := h.copies ++ (n'.proc.self.sock.drop h.net.proc.self.sock.length).map
    fun pkt => (pkt.seq, n'.proc.self.ctl.incarnation)
  elicited :=
    match e with
    | .deliver i _ _ _ => h.elicited ++ List.replicate (n'.acks.length - h.net.acks.length) i
    | _ => h.elicited

def Hist.step (cfg : Config) (mp : Option ℤ) (e : NetEvent) (h : Hist) : Option Hist :=
  (Net.step cfg mp e h.net).map (h.record e)

def Hist.start (cfg : Config) (monotonic : ℚ) : Hist where
  net := Net.start HpccV2.cls cfg monotonic
  copies := []
  elicited := []

/-! ## The law -/

/-- Whenever an ACK changes `u_smoothed` or `hop_last`, the copy that elicited it was sent
under the incarnation of the moment. -/
def CurrentFeedback (h : Hist) (e : NetEvent) (h' : Hist) : Prop :=
  ∀ j clk, e = .ack j clk →
    (h'.net.proc.self.ctl.u_smoothed ≠ h.net.proc.self.ctl.u_smoothed ∨
      h'.net.proc.self.ctl.hop_last ≠ h.net.proc.self.ctl.hop_last) →
    ∃ i k, h.elicited[j]? = some i ∧
      h.copies[i]? = some (k, h.net.proc.self.ctl.incarnation)

/-- The event is an ACK, elicited by copy `i` of packet `k`, whose hops are counted: the
packet is in flight with the current incarnation, and some hop has a link speed. -/
def Counted (h : Hist) (e : NetEvent) (i : ℕ) (k : ℤ) : Prop :=
  ∃ j clk data entry, e = .ack j clk ∧ h.elicited[j]? = some i ∧ h.net.acks[j]? = some data ∧
    HpccV2.cls.ack_seq data = some k ∧ h.net.proc.self.in_flight.lookup k = some entry ∧
    entry.snap.incarnation = h.net.proc.self.ctl.incarnation ∧
    ∃ hop ∈ acked_hops data, hop.link_bps ≠ 0

/-- The hops of an ACK are counted only if its copy was sent under the incarnation of the
moment. -/
def CountsCurrent (h : Hist) (e : NetEvent) (_ : Hist) : Prop :=
  ∀ i k, Counted h e i k → h.copies[i]? = some (k, h.net.proc.self.ctl.incarnation)

/-- An ACK whose hops are counted answers the last copy of its packet. -/
def AnswersLast (h : Hist) (e : NetEvent) (_ : Hist) : Prop :=
  ∀ i k, Counted h e i k → ¬ Superseded h.copies i k

/-! ## The invariant -/

/-- Each ACK is of the number of the copy that is recorded for it. -/
structure Answers (h : Hist) : Prop where
  length : h.elicited.length = h.net.acks.length
  seq : ∀ (j i : ℕ) (data : List Byte), h.elicited[j]? = some i → h.net.acks[j]? = some data →
    ∃ c : ℤ × ℕ, h.copies[i]? = some c ∧ HpccV2.cls.ack_seq data = some c.1

/-- The record is kept well, and of each packet in flight the last copy's incarnation is
stored. -/
structure Recorded (h : Hist) : Prop where
  seqs : h.copies.map Prod.fst = h.net.proc.self.sock.map DataPayload.seq
  answers : Answers h
  latest : ∀ k e, h.net.proc.self.in_flight.lookup k = some e →
    last_stamp k h.copies = some e.snap.incarnation
  growing : Growing h.copies
  bounded : ∀ c ∈ h.copies, c.2 ≤ h.net.proc.self.ctl.incarnation

section

variable {cfg : Config} {mp : Option ℤ} {h h' : Hist} {e : NetEvent} {n' : Net HpccV2.cls}

theorem hist_step_iff : Hist.step cfg mp e h = some h' ↔
    ∃ n', Net.step cfg mp e h.net = some n' ∧ h' = h.record e n' := by
  unfold Hist.step
  rw [Option.map_eq_some_iff]
  simp only [eq_comm]

/-- What the record gains is what `sock` gains. -/
theorem record_copies (pkts : List DataPayload)
    (hsock : n'.proc.self.sock = h.net.proc.self.sock ++ pkts) :
    (h.record e n').copies
      = h.copies ++ pkts.map fun pkt => (pkt.seq, n'.proc.self.ctl.incarnation) := by
  unfold Hist.record
  rw [hsock, List.drop_left]

/-! ## The ACKs -/

/-- Only a delivery adds to the ACKs. -/
theorem acks_same (he : ∀ i hops ecn t, e ≠ .deliver i hops ecn t)
    (hstep : Net.step cfg mp e h.net = some n') :
    n'.acks = h.net.acks ∧ (h.record e n').elicited = h.elicited := by
  constructor
  · obtain ⟨op, p, -, -, rfl⟩ := step_thread he hstep
    rfl
  · cases e with
    | deliver i hops ecn t => exact absurd rfl (he i hops ecn t)
    | _ => rfl

theorem getElem?_append_of_some {α : Type} {l new : List α} {i : ℕ} {a : α}
    (h : l[i]? = some a) : (l ++ new)[i]? = some a := by
  rw [List.getElem?_append_left (List.getElem?_eq_some_iff.mp h).1]
  exact h

/-- The answers there were stay the answers. -/
theorem Answers.seq_append (ha : Answers h) {new : List (ℤ × ℕ)} {j i : ℕ} {data : List Byte}
    (hj : h.elicited[j]? = some i) (hd : h.net.acks[j]? = some data) :
    ∃ c : ℤ × ℕ, (h.copies ++ new)[i]? = some c ∧ HpccV2.cls.ack_seq data = some c.1 := by
  obtain ⟨c, hc, hseq⟩ := ha.seq j i data hj hd
  exact ⟨c, getElem?_append_of_some hc, hseq⟩

theorem answers_record (hr : Recorded h) (hstep : Net.step cfg mp e h.net = some n')
    {new : List (ℤ × ℕ)} (hnew : (h.record e n').copies = h.copies ++ new) :
    Answers (h.record e n') := by
  by_cases hdel : ∃ i hops ecn t, e = .deliver i hops ecn t
  · obtain ⟨i, hops, ecn, t, rfl⟩ := hdel
    obtain ⟨payload, ack, hi, hack, rfl⟩ := step_deliver hstep
    have hone : (h.net.acks ++ [ack]).length - h.net.acks.length = 1 := by simp
    have helic : (h.record (.deliver i hops ecn t) { h.net with
        answered := h.net.answered ++ [payload.seq], acks := h.net.acks ++ [ack] }).elicited
        = h.elicited ++ [i] := by
      unfold Hist.record
      dsimp only
      rw [hone]
      rfl
    constructor
    · rw [helic]
      simp [hr.answers.length, Hist.record]
    · intro j i' data hj hd
      rw [helic] at hj
      rw [hnew]
      have hd : (h.net.acks ++ [ack])[j]? = some data := hd
      -- an ACK there was, or the new one
      by_cases hlt : j < h.net.acks.length
      · rw [List.getElem?_append_left (by rwa [hr.answers.length])] at hj
        rw [List.getElem?_append_left hlt] at hd
        exact hr.answers.seq_append hj hd
      · -- the ACK that has just been made
        have hjeq : j = h.net.acks.length := by
          have hj' := (List.getElem?_eq_some_iff.mp hd).1
          simp only [List.length_append, List.length_singleton] at hj'
          omega
        rw [hjeq, ← hr.answers.length, List.getElem?_concat_length, Option.some.injEq] at hj
        rw [hjeq, List.getElem?_concat_length, Option.some.injEq] at hd
        subst hj hd
        have hcopy : (h.copies.map Prod.fst)[i]? = some payload.seq := by
          rw [hr.seqs, List.getElem?_map, hi]
          rfl
        rw [List.getElem?_map] at hcopy
        obtain ⟨c, hc, hfst⟩ := Option.map_eq_some_iff.mp hcopy
        refine ⟨c, getElem?_append_of_some hc, ?_⟩
        rw [hfst]
        exact HpccV2.cls.reads_ack hack
  · obtain ⟨hacks, helic⟩ := acks_same (fun i hops ecn t heq => hdel ⟨i, hops, ecn, t, heq⟩) hstep
    constructor
    · rw [helic, hr.answers.length]
      exact congrArg List.length hacks.symm
    · intro j i data hj hd
      rw [helic] at hj
      rw [hnew]
      exact hr.answers.seq_append hj (hacks ▸ hd)

/-! ## The copies -/

/-- What an event must do for the record to stay right: the packets it sends are of
different numbers and later than the copies there are, and an entry of `in_flight` is either
one that it made for a packet it sent, or one that was there, of a packet it did not send. -/
theorem recorded_record (hr : Recorded h) (hstep : Net.step cfg mp e h.net = some n')
    (pkts : List DataPayload) (hsock : n'.proc.self.sock = h.net.proc.self.sock ++ pkts)
    (hnd : (pkts.map DataPayload.seq).Nodup)
    (hinc : h.net.proc.self.ctl.incarnation ≤ n'.proc.self.ctl.incarnation)
    (hlater : ∀ c ∈ h.copies, ∀ pkt ∈ pkts, c.1 = pkt.seq →
      c.2 < n'.proc.self.ctl.incarnation)
    (hlatest : ∀ k f, n'.proc.self.in_flight.lookup k = some f →
      ((∃ pkt ∈ pkts, pkt.seq = k) ∧ f.snap.incarnation = n'.proc.self.ctl.incarnation) ∨
      ((∀ pkt ∈ pkts, pkt.seq ≠ k) ∧ h.net.proc.self.in_flight.lookup k = some f)) :
    Recorded (h.record e n') := by
  have hcopies := record_copies (e := e) pkts hsock
  refine ⟨?_, answers_record hr hstep hcopies, ?_, ?_, ?_⟩
  · show (h.record e n').copies.map Prod.fst = n'.proc.self.sock.map DataPayload.seq
    rw [hcopies, hsock, List.map_append, List.map_append, hr.seqs, List.map_map]
    rfl
  · intro k f hf
    rw [hcopies]
    -- an entry made by the event is stamped with its copy, an old one keeps its own
    rcases hlatest k f hf with ⟨⟨pkt, hpkt, hseq⟩, hf'⟩ | ⟨hother, hold⟩
    · rw [hf']
      apply last_stamp_append_same (List.mem_map_of_mem hpkt) hseq
      intro d hd
      obtain ⟨pkt', -, rfl⟩ := List.mem_map.mp hd
      rfl
    · rw [last_stamp_append_other]
      · exact hr.latest k f hold
      · intro d hd
        obtain ⟨pkt', hpkt', rfl⟩ := List.mem_map.mp hd
        exact hother pkt' hpkt'
  · rw [hcopies]
    apply hr.growing.append
    · rw [List.map_map]
      exact hnd
    · intro a ha b hb hab
      obtain ⟨pkt, hpkt, rfl⟩ := List.mem_map.mp hb
      exact hlater a ha pkt hpkt hab
  · intro c hc
    rw [hcopies] at hc
    rcases List.mem_append.mp hc with hc | hc
    · exact le_trans (hr.bounded c hc) hinc
    · obtain ⟨pkt, -, rfl⟩ := List.mem_map.mp hc
      exact le_refl _

/-- An event that sends nothing and adds nothing to `in_flight`. -/
theorem recorded_quiet (hr : Recorded h) (hstep : Net.step cfg mp e h.net = some n')
    (hsock : n'.proc.self.sock = h.net.proc.self.sock)
    (hinc : h.net.proc.self.ctl.incarnation ≤ n'.proc.self.ctl.incarnation)
    (hsub : ∀ k f, n'.proc.self.in_flight.lookup k = some f →
      h.net.proc.self.in_flight.lookup k = some f) : Recorded (h.record e n') := by
  apply recorded_record hr hstep [] (by rw [hsock, List.append_nil])
  · exact List.nodup_nil
  · exact hinc
  · simp
  · exact fun k f hf => Or.inr ⟨by simp, hsub k f hf⟩

/-- The numbers of the packets a retransmission sends are among those it goes through. -/
theorem resent_seqs (calls : ℤ → SendCall) (seqs : List ℤ) :
    ((seqs.flatMap fun s => (calls s).packets s).map DataPayload.seq).Sublist seqs := by
  induction seqs with
  | nil => exact List.Sublist.refl _
  | cons s seqs ih =>
      rw [List.flatMap_cons, List.map_append]
      cases calls s with
      | ok b t l => exact ih.cons_cons s
      | os_error b => exact ih.cons s

/-- A burst iteration sends a first copy: no packet of that number has been sent. -/
theorem recorded_send (hr : Recorded h) (hbooked : Booked h.net.proc.self)
    (hstep : Net.step cfg mp e h.net = some n') {call : SendCall}
    (heq : n'.proc.self = HpccV2.cls.burst_iter h.net.proc.self call) :
    Recorded (h.record e n') := by
  have hctl : n'.proc.self.ctl = h.net.proc.self.ctl := by
    rw [heq]
    exact burst_iter_ctl h.net.proc.self call
  have hnew : h.net.proc.self.next_seq ∉ h.net.proc.self.in_flight := hbooked.next_notMem
  -- one copy at most, and no number with two
  apply recorded_record hr hstep (call.packets h.net.proc.self.next_seq)
  · rw [heq]
    exact send_locked_sock HpccV2.cls.snapshot h.net.proc.self _ call
  · cases call with
    | ok b t l => exact List.nodup_singleton _
    | os_error b => exact List.nodup_nil
  · rw [hctl]
  · intro c hc pkt hpkt hseq
    -- a copy of this number would have been sent below `next_seq`
    have hmem : c.1 ∈ h.net.proc.self.sock.map DataPayload.seq := by
      rw [← hr.seqs]
      exact List.mem_map_of_mem hc
    obtain ⟨old, hold, hold'⟩ := List.mem_map.mp hmem
    have hlt := (hbooked.sent_lt old hold).2
    rw [hold', hseq, SendCall.mem_packets hpkt] at hlt
    exact absurd hlt (lt_irrefl _)
  · intro k f hf
    rw [heq] at hf
    -- the new entry has the incarnation of the copy just sent; the others are as they were
    rcases first_send_entry HpccV2.cls.snapshot hnew hf with
      ⟨hk, b, t, l, rfl, rfl⟩ | ⟨hk, hold⟩
    · refine Or.inl ⟨⟨_, List.mem_singleton_self _, hk.symm⟩, ?_⟩
      rw [hctl]
      rfl
    · refine Or.inr ⟨fun pkt hpkt hseq => hk ?_, hold⟩
      rw [← hseq, SendCall.mem_packets hpkt]

/-- An RTO pass that fires sends copies under the incarnation that it begins, which is later
than that of any copy there is. -/
theorem recorded_rto (hr : Recorded h) (hstep : Net.step cfg mp e h.net = some n')
    {now log_us : Us} {calls : ℤ → SendCall}
    (hx : rto_fires HpccV2.cls cfg h.net.proc.self now = true)
    (heq : n'.proc.self = rto_checker HpccV2.cls.snapshot HpccV2.cls.rto_cut
      (HpccV2.cls.rto_us cfg) now log_us calls h.net.proc.self) :
    Recorded (h.record e n') := by
  have hctl : n'.proc.self.ctl = rto_cut h.net.proc.self.ctl := by
    rw [heq]
    exact rto_fired_ctl hx
  have hinc : n'.proc.self.ctl.incarnation = h.net.proc.self.ctl.incarnation + 1 := by
    rw [hctl]
    rfl
  apply recorded_record hr hstep _ (by rw [heq]; exact rto_fired_sock hx)
  · apply List.Nodup.sublist (resent_seqs calls _)
    exact nodup_sorted h.net.proc.self.in_flight
  · rw [hinc]
    exact Nat.le_succ _
  · intro c hc pkt _ _
    rw [hinc]
    exact Nat.lt_succ_of_le (hr.bounded c hc)
  · -- what is in flight after the pass has been sent again in it
    intro k f hf
    rw [heq] at hf
    obtain ⟨hmem, b, t, l, hc, rfl⟩ := rto_fired_entry hx hf
    have hk : k ∈ h.net.proc.self.in_flight.keys.insertionSort (· ≤ ·) := mem_sorted.mpr hmem
    have hsent : (calls k).sent = true := by rw [hc]; rfl
    obtain ⟨pkt, hpkt, hseq⟩ := SendCall.packets_of_sent hsent k
    refine Or.inl ⟨⟨pkt, List.mem_flatMap.mpr ⟨k, hk, hpkt⟩, hseq⟩, ?_⟩
    rw [hctl]
    rfl

/-- Every event keeps the record. -/
theorem recorded_step (hr : Recorded h) (hb : Base h.net)
    (hstep : Net.step cfg mp e h.net = some n') : Recorded (h.record e n') := by
  -- only sends and RTO passes add copies; an ACK only takes entries out
  rcases net_self hstep with heq | ⟨call, -, -, heq⟩ | ⟨j, clk, data, -, hj, heq⟩ |
    ⟨now, log_us, calls, -, hx, heq⟩
  · apply recorded_quiet hr hstep
    · rw [heq]
    · rw [heq]
    · intro k f hf
      rwa [heq] at hf
  · exact recorded_send hr hb.lossless.sound.reflected.booked hstep heq
  · rcases ack_fields hb hj heq with hsame | ⟨k, -, -, hinc, ht⟩
    · apply recorded_quiet hr hstep
      · rw [hsame]
      · rw [hsame]
      · intro k f hf
        rwa [hsame] at hf
    · apply recorded_quiet hr hstep
      · rw [ht, acked_sock]
      · exact hinc
      · exact fun s f hf => lookup_of_acked ht hf
  · exact recorded_rto hr hstep hx heq

/-! ## One ACK -/

/-- An ACK leaves the feedback alone, or it is of a packet in flight with the current
incarnation and has a hop with a link speed. -/
theorem feedback_ack (cfg : Config) {n : Net HpccV2.cls} (hl : Lossless n) {data : List Byte}
    (hd : data ∈ n.acks) (clk : AckClock) :
    ((HpccV2.ack_listener cfg clk data n.proc.self).1.ctl.u_smoothed
        = n.proc.self.ctl.u_smoothed ∧
      (HpccV2.ack_listener cfg clk data n.proc.self).1.ctl.hop_last
        = n.proc.self.ctl.hop_last) ∨
    ∃ k entry, HpccV2.cls.ack_seq data = some k ∧
      n.proc.self.in_flight.lookup k = some entry ∧
      entry.snap.incarnation = n.proc.self.ctl.incarnation ∧
      ∃ hop ∈ acked_hops data, hop.link_bps ≠ 0 := by
  rcases HpccV2.ack_listener_cases cfg clk data n.proc.self with
    heq | ⟨shim, hops, ack, rtt_us, hparse, hstale, heq⟩
  · rw [heq]
    exact Or.inl ⟨rfl, rfl⟩
  · have hseq : HpccV2.cls.ack_seq data = some ack.ack_seq := by
      show ack_seq data = some ack.ack_seq
      unfold ack_seq
      rw [hparse]
    have hhops : acked_hops data = hops := by
      unfold acked_hops
      rw [hparse]
    -- an ACK that is taken in is of a packet in flight
    have hmem : ack.ack_seq ∈ n.proc.self.in_flight := by
      by_contra hnot
      rw [AList.lookup_eq_none.mpr hnot] at hstale
      exact hnot (hl.mem_of_fresh hd hseq (not_le.mp fun hle => hstale ⟨rfl, hle⟩))
    obtain ⟨entry, hentry⟩ := mem_iff_lookup.mp hmem
    rw [hentry] at heq
    have hinc : HpccV2.inc_snap (some entry) n.proc.self = entry.snap.incarnation := rfl
    rw [hinc] at heq
    obtain ⟨hlast, hu⟩ := update_from_feedback cfg clk
      (HpccV2.earliest_unacked_w_ref (before_gate cfg clk ack.ack_seq hops rtt_us
        (decide (entry.snap.incarnation = n.proc.self.ctl.incarnation)) n.proc.self))
      (before_gate cfg clk ack.ack_seq hops rtt_us
        (decide (entry.snap.incarnation = n.proc.self.ctl.incarnation)) n.proc.self)
    rw [heq, HpccV2.maybe_update_window_locked, hlast, hu]
    -- the hops are taken in only if the packet went out in this incarnation
    by_cases hcur : entry.snap.incarnation = n.proc.self.ctl.incarnation
    · by_cases hlink : ∃ hop ∈ hops, hop.link_bps ≠ 0
      · exact Or.inr ⟨ack.ack_seq, entry, hseq, hentry, hcur, hhops ▸ hlink⟩
      · -- no hop counts
        push Not at hlink
        rw [decide_eq_true hcur]
        refine Or.inl ⟨?_, ?_⟩
        · show (n.proc.self.ctl.took cfg hops).u_smoothed = _
          unfold Ctl.took
          rw [compute_u_no_links cfg.base_rtt_s hlink]
          rfl
        · show (n.proc.self.ctl.took cfg hops).hop_last = _
          rw [took_hop_last, compute_u_no_links cfg.base_rtt_s hlink]
    · rw [decide_eq_false hcur]
      exact Or.inl ⟨rfl, rfl⟩

/-- Counting only what is current is counting only what answers the last copy. -/
theorem counts_current_iff (hr : Recorded h) :
    CountsCurrent h e h' ↔ AnswersLast h e h' := by
  refine forall_congr' fun i => forall_congr' fun k => forall_congr' fun hc => ?_
  obtain ⟨j, clk, data, entry, -, hj, hd, hseq, hentry, hcur, -⟩ := hc
  obtain ⟨⟨k', s⟩, hcopy, hk⟩ := hr.answers.seq j i data hj hd
  rw [hseq, Option.some.injEq] at hk
  dsimp only at hk
  subst hk
  have hlast := hr.latest k entry hentry
  rw [← hr.growing.stamp_eq_iff hcopy hlast, hcopy, Option.some.injEq, Prod.mk.injEq, hcur]
  exact and_iff_right rfl

theorem current_feedback_step (hr : Recorded h) (hb : Base h.net)
    (hstep : Hist.step cfg mp e h = some h') (hc : CountsCurrent h e h') :
    CurrentFeedback h e h' := by
  obtain ⟨n', hnet, rfl⟩ := hist_step_iff.mp hstep
  rintro j clk rfl hchange
  -- the event took place, so there is such an ACK
  obtain ⟨data, hj⟩ : ∃ data, h.net.acks[j]? = some data := by
    by_contra hnone
    push Not at hnone
    have hop : (NetEvent.ack j clk).op h.net = none := by
      rw [NetEvent.op, Option.eq_none_iff_forall_ne_some.mpr hnone]
      rfl
    unfold Net.step at hnet
    dsimp only at hnet
    rw [hop] at hnet
    cases hnet
  have hself := ack_self hj hnet
  obtain ⟨i, hi⟩ : ∃ i, h.elicited[j]? = some i := by
    have hlt := (List.getElem?_eq_some_iff.mp hj).1
    rw [← hr.answers.length] at hlt
    exact ⟨_, List.getElem?_eq_getElem hlt⟩
  rcases feedback_ack cfg hb.lossless (List.mem_of_getElem? hj) clk with
    ⟨hu, hlast⟩ | ⟨k, entry, hseq, hentry, hcur, hlink⟩
  · have hself' : (h.record (.ack j clk) n').net.proc.self
        = (HpccV2.ack_listener cfg clk data h.net.proc.self).1 := hself
    rw [hself', hu, hlast] at hchange
    rcases hchange with hne | hne
    · exact absurd rfl hne
    · exact absurd rfl hne
  · exact ⟨i, k, hi, hc i k ⟨j, clk, data, entry, rfl, hi, hj, hseq, hentry, hcur, hlink⟩⟩

/-! ## A run -/

/-- The sends of the event succeed. -/
def Sent (cfg : Config) (h : Hist) (e : NetEvent) (_ : Hist) : Prop :=
  AllSent (C := HpccV2.cls) cfg h.net e

theorem recorded_start (cfg : Config) (monotonic : ℚ) : Recorded (Hist.start cfg monotonic) := by
  refine ⟨rfl, ⟨rfl, ?_⟩, ?_, List.Pairwise.nil, ?_⟩
  · intro j i data hj
    cases hj
  · intro k f hf
    exact absurd (mem_iff_lookup.mpr ⟨f, hf⟩) (AList.notMem_empty k)
  · intro c hc
    cases hc

theorem inv_step {h h' : Hist} (hi : Recorded h ∧ Base h.net)
    (hstep : Hist.step cfg mp e h = some h') (hsent : Sent cfg h e h') :
    Recorded h' ∧ Base h'.net := by
  obtain ⟨n', hnet, rfl⟩ := hist_step_iff.mp hstep
  exact ⟨recorded_step hi.1 hi.2 hnet, base_step hi.2 hnet hsent⟩

/-- **Current feedback.** In a run whose sends succeed the hops of ACKs are counted only
when they are current exactly if all ACKs whose hops are counted answer the last copy of
their packet; and then all feedback is current. -/
theorem current_feedback (cfg : Config) (mp : Option ℤ) (monotonic : ℚ) {es : List NetEvent}
    (hsent : EachStep (Hist.step cfg mp) (Sent cfg) (Hist.start cfg monotonic) es) :
    (EachStep (Hist.step cfg mp) CountsCurrent (Hist.start cfg monotonic) es ↔
      EachStep (Hist.step cfg mp) AnswersLast (Hist.start cfg monotonic) es) ∧
    (EachStep (Hist.step cfg mp) AnswersLast (Hist.start cfg monotonic) es →
      EachStep (Hist.step cfg mp) CurrentFeedback (Hist.start cfg monotonic) es) := by
  -- every state of the run has its record
  have hinv : ∀ pre e post h₁ h₂, es = pre ++ e :: post →
      run (Hist.step cfg mp) (Hist.start cfg monotonic) pre = some h₁ →
      Hist.step cfg mp e h₁ = some h₂ → Recorded h₁ ∧ Base h₁.net := by
    intro pre e post h₁ h₂ heq hpre _
    refine run_invariant_of_each (fun _ _ _ hi hstep hs => inv_step hi hstep hs)
      ⟨recorded_start cfg monotonic, base_start cfg monotonic⟩ ?_ hpre
    rw [heq] at hsent
    exact hsent.left
  have hiff : EachStep (Hist.step cfg mp) CountsCurrent (Hist.start cfg monotonic) es ↔
      EachStep (Hist.step cfg mp) AnswersLast (Hist.start cfg monotonic) es := by
    constructor
    · intro hc pre e post h₁ h₂ heq hpre hstep
      exact (counts_current_iff (hinv pre e post h₁ h₂ heq hpre hstep).1).mp
        (hc pre e post h₁ h₂ heq hpre hstep)
    · intro hc pre e post h₁ h₂ heq hpre hstep
      exact (counts_current_iff (hinv pre e post h₁ h₂ heq hpre hstep).1).mpr
        (hc pre e post h₁ h₂ heq hpre hstep)
  refine ⟨hiff, fun hlast => ?_⟩
  intro pre e post h₁ h₂ heq hpre hstep
  obtain ⟨hr, hb⟩ := hinv pre e post h₁ h₂ heq hpre hstep
  exact current_feedback_step hr hb hstep (hiff.mpr hlast pre e post h₁ h₂ heq hpre hstep)

end

/-! ## An ACK of an old copy -/

/-- The first copy of packet 0 is answered, with one hop, after the packet has been sent
again. -/
def late_answer : List NetEvent :=
  [.acquire, .send sent_at_zero, .release, .rto (at_us 20000) zero_us fun _ => sent_at_zero,
    .deliver 0 [busy_hop 5] 0 zero_us]

def late_ack : NetEvent := .ack 0 zero_clock

/-- What a state shows: the incarnation, what is remembered of the hop, and the record. -/
def shown (h : Hist) : (ℕ × Option (ℤ × ℤ)) × List (ℤ × ℕ) × List ℕ :=
  ((h.net.proc.self.ctl.incarnation, h.net.proc.self.ctl.hop_last (1, 2)), h.copies, h.elicited)

theorem late_states :
    (run (Hist.step two_cuts_config (some 1)) (Hist.start two_cuts_config 0) late_answer).map
      shown = some ((1, none), [(0, 0), (0, 1)], [0]) ∧
    (run (Hist.step two_cuts_config (some 1)) (Hist.start two_cuts_config 0)
      (late_answer ++ [late_ack])).map shown = some ((1, some (5, 5)), [(0, 0), (0, 1)], [0]) := by
  constructor
  · decide +kernel
  · decide +kernel

theorem sent_of_succeeds {es : List NetEvent} (h : ∀ e ∈ es, NetEvent.Sent e) :
    EachStep (Hist.step two_cuts_config (some 1)) (Sent two_cuts_config)
      (Hist.start two_cuts_config 0) es :=
  EachStep.of_forall fun e he _ _ => allSent_of_sent (h e he)

theorem late_sent : EachStep (Hist.step two_cuts_config (some 1)) (Sent two_cuts_config)
    (Hist.start two_cuts_config 0) (late_answer ++ [late_ack]) := by
  apply sent_of_succeeds
  simp [late_answer, late_ack, NetEvent.Sent, sent_at_zero, SendCall.sent]

/-- The ACK fills in `hop_last` under incarnation 1; its copy was sent under 0. -/
theorem late_ack_breaks_law :
    ¬ EachStep (Hist.step two_cuts_config (some 1)) CurrentFeedback
      (Hist.start two_cuts_config 0) (late_answer ++ [late_ack]) := by
  intro hlaw
  obtain ⟨h₁, h₂⟩ := late_states
  obtain ⟨s₁, hrun₁, hs₁⟩ := Option.map_eq_some_iff.mp h₁
  obtain ⟨s₂, hrun₂, hs₂⟩ := Option.map_eq_some_iff.mp h₂
  simp only [shown, Prod.mk.injEq] at hs₁ hs₂
  have hstep : Hist.step two_cuts_config (some 1) late_ack s₁ = some s₂ := by
    rw [run_append, hrun₁, Option.bind_some, run_cons] at hrun₂
    obtain ⟨s, hstep, hnil⟩ := Option.bind_eq_some_iff.mp hrun₂
    rw [run_nil, Option.some.injEq] at hnil
    rwa [← hnil]
  -- the hop entry of the late answer went into the table
  have hchange : s₂.net.proc.self.ctl.hop_last ≠ s₁.net.proc.self.ctl.hop_last := by
    intro heq
    have hat := congrFun heq (1, 2)
    rw [hs₁.1.2, hs₂.1.2] at hat
    cases hat
  -- but its copy was sent under incarnation 0, and 1 is in force
  obtain ⟨i, k, hi, hk⟩ := hlaw late_answer late_ack [] s₁ s₂ rfl hrun₁ hstep 0 zero_clock rfl
    (Or.inr hchange)
  rw [hs₁.2.2, List.getElem?_cons_zero, Option.some.injEq] at hi
  rw [hs₁.2.1, ← hi, hs₁.1.1, List.getElem?_cons_zero, Option.some.injEq, Prod.mk.injEq] at hk
  exact absurd hk.2 (by decide)

theorem current_feedback_fails :
    ¬ ∀ (cfg : Config) (mp : Option ℤ) (monotonic : ℚ) (es : List NetEvent),
      EachStep (Hist.step cfg mp) (Sent cfg) (Hist.start cfg monotonic) es →
      EachStep (Hist.step cfg mp) CurrentFeedback (Hist.start cfg monotonic) es :=
  fun h => late_ack_breaks_law (h two_cuts_config (some 1) 0 _ late_sent)

/-- Here it is the second copy that is answered. -/
def timely_answer : List NetEvent :=
  [.acquire, .send sent_at_zero, .release, .rto (at_us 20000) zero_us fun _ => sent_at_zero,
    .deliver 1 [busy_hop 5] 0 zero_us]

theorem timely_states :
    (run (Hist.step two_cuts_config (some 1)) (Hist.start two_cuts_config 0) timely_answer).map
      shown = some ((1, none), [(0, 0), (0, 1)], [1]) ∧
    (run (Hist.step two_cuts_config (some 1)) (Hist.start two_cuts_config 0)
      (timely_answer ++ [late_ack])).map shown = some ((1, some (5, 5)), [(0, 0), (0, 1)], [1]) := by
  constructor
  · decide +kernel
  · decide +kernel

/-- The ACK of the second copy is counted, and that was sent under the incarnation of the
moment; the ACK of the first copy does not answer the last one. -/
theorem current_feedback_two_runs :
    ((run (Hist.step two_cuts_config (some 1)) (Hist.start two_cuts_config 0)
        (timely_answer ++ [late_ack])).map shown
          = some ((1, some (5, 5)), [(0, 0), (0, 1)], [1]) ∧
      EachStep (Hist.step two_cuts_config (some 1)) CurrentFeedback (Hist.start two_cuts_config 0)
        (timely_answer ++ [late_ack])) ∧
    ¬ EachStep (Hist.step two_cuts_config (some 1)) AnswersLast (Hist.start two_cuts_config 0)
      (late_answer ++ [late_ack]) := by
  refine ⟨⟨timely_states.2, ?_⟩,
    fun h => late_ack_breaks_law ((current_feedback two_cuts_config (some 1) 0 late_sent).2 h)⟩
  have hsent : EachStep (Hist.step two_cuts_config (some 1)) (Sent two_cuts_config)
      (Hist.start two_cuts_config 0) (timely_answer ++ [late_ack]) := by
    apply sent_of_succeeds
    simp [timely_answer, late_ack, NetEvent.Sent, sent_at_zero, SendCall.sent]
  apply (current_feedback two_cuts_config (some 1) 0 hsent).2
  refine (EachStep.of_forall ?_).snoc ?_
  · -- no ACK comes before the last event
    rintro e he h₁ h₂ i k ⟨j, clk, data, entry, rfl, -⟩
    simp [timely_answer] at he
  · rintro h₁ h₂ hrun - i k ⟨j, clk, data, entry, hack, hi, -⟩ hsup
    cases hack
    have hshown := shown_of_run timely_states.1 hrun
    simp only [shown, Prod.mk.injEq] at hshown
    obtain ⟨-, hcopies, helicited⟩ := hshown
    rw [helicited, List.getElem?_cons_zero, Option.some.injEq] at hi
    -- no copy comes after copy 1
    rw [hcopies, ← hi] at hsup
    obtain ⟨j', s, hlt, hj'⟩ := hsup
    obtain ⟨hlen, -⟩ := List.getElem?_eq_some_iff.mp hj'
    simp only [List.length_cons, List.length_nil] at hlen
    omega

end IntHpcc.V2Feedback
