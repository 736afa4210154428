/-
What an RTO sends again, and in which order.

All four senders send everything that is in flight once more, the C sender's comment calls
it go-back-N. The Python senders sort the numbers first. The C sender walks its 4096 slots
from the first to the last, and number `seq` is in slot `seq % 4096`: the order is that of
the numbers only as long as the flight does not run over a multiple of 4096.
-/
import IntHpcc.InflightTable
import IntHpcc.Network

set_option autoImplicit false

namespace IntHpcc.GoBackN

open IntHpcc.Runs IntHpcc.Bytes IntHpcc.Py IntHpcc.PacketFormat IntHpcc.SenderCore

/-! ## Going back -/

section

variable {α : Type*} [LinearOrder α]

/-- From `old` to `new` every number of `out` has been transmitted once more, in
increasing order from the oldest, and the same numbers are outstanding as before. -/
def GoesBack (old new : List α) (out out' : Set α) : Prop :=
  ∃ l, new = old ++ l ∧ (∀ q, q ∈ l ↔ q ∈ out) ∧ l.Pairwise (· < ·) ∧
    (∀ q ∈ l.head?, IsLeast out q) ∧ out' = out

/-- If the right numbers are transmitted, the order decides. -/
theorem goesBack_iff {old l : List α} {out : Set α} (hall : ∀ q, q ∈ l ↔ q ∈ out) :
    GoesBack old (old ++ l) out out ↔ l.Pairwise (· < ·) := by
  constructor
  · rintro ⟨l', heq, -, hsorted, -⟩
    rw [List.append_cancel_left heq]
    exact hsorted
  · intro hsorted
    refine ⟨l, rfl, hall, hsorted, ?_, rfl⟩
    intro q hq
    obtain ⟨rest, rfl⟩ := List.head?_eq_some_iff.mp hq
    refine ⟨(hall q).mp List.mem_cons_self, fun r hr => ?_⟩
    rcases List.mem_cons.mp ((hall r).mpr hr) with rfl | hr
    · exact le_refl _
    · exact (List.rel_of_pairwise_cons hsorted hr).le

end

/-! ## Python -/

section Python

open IntHpcc.SenderWindow

variable {C : SenderClass} {cfg : C.Config} {mp : Option ℤ} {p p' : C.Proc}

/-- The numbers handed to `sendto`, oldest first. -/
def numbers (st : C.Self) : List ℤ := st.sock.map DataPayload.seq

def outstanding (st : C.Self) : Set ℤ := { s | s ∈ st.in_flight }

theorem packets_seq {call : SendCall} (h : call.sent = true) (s : ℤ) :
    (call.packets s).map DataPayload.seq = [s] := by
  cases call with
  | ok b t l => rfl
  | os_error b => cases h

/-- The loop transmits the numbers in the order it is given them. -/
theorem flatMap_packets_seq {calls : ℤ → SendCall} (hsent : ∀ s, (calls s).sent = true)
    (seqs : List ℤ) :
    (seqs.flatMap fun s => (calls s).packets s).map DataPayload.seq = seqs := by
  induction seqs with
  | nil => rfl
  | cons s seqs ih =>
      rw [List.flatMap_cons, List.map_append, packets_seq (hsent s), ih]
      rfl

/-- `sorted(self.in_flight.keys())` is increasing. -/
theorem sorted_flight (d : InFlight C.Snap) :
    (d.keys.insertionSort (· ≤ ·)).Pairwise (· < ·) := by
  have hle := List.pairwise_insertionSort (· ≤ ·) d.keys
  exact (hle.and (nodup_sorted d)).imp fun h => lt_of_le_of_ne h.1 h.2

/-- **An RTO of a Python sender goes back.** -/
theorem rto_goes_back {now log_us : Us} {calls : ℤ → SendCall}
    (hx : rto_fires C cfg p.self now = true) (hsent : ∀ s, (calls s).sent = true)
    (hstep : C.step cfg mp (.rto now log_us calls) p = some p') :
    GoesBack (numbers p.self) (numbers p'.self) (outstanding p.self) (outstanding p'.self) := by
  have hx' : expired p.self.toTransport now.val (C.rto_us cfg) = true := hx
  obtain ⟨-, hp⟩ := step_rto.mp hstep
  have hself : p'.self = rto_checker C.snapshot C.rto_cut (C.rto_us cfg) now log_us calls
    p.self := by rw [hp]
  -- the table is sorted by number before the loop
  have hnumbers : numbers p'.self
      = numbers p.self ++ p.self.in_flight.keys.insertionSort (· ≤ ·) := by
    unfold numbers
    rw [hself, rto_checker_fired hx', resend_all_sock, List.map_append,
      flatMap_packets_seq hsent]
    rfl
  -- every resend goes through, so all that was cleared comes back
  have hout : outstanding p'.self = outstanding p.self := by
    ext s
    show s ∈ p'.self.in_flight ↔ s ∈ p.self.in_flight
    rw [hself, ← AList.lookup_isSome, rto_fired_lookup hx']
    by_cases hs : s ∈ p.self.in_flight
    · rw [if_pos hs, SendCall.entry_isSome, hsent s]
      exact iff_of_true rfl hs
    · rw [if_neg hs]
      exact iff_of_false Bool.false_ne_true hs
  rw [hnumbers, hout]
  exact (goesBack_iff fun q => mem_sorted).mpr (sorted_flight p.self.in_flight)

end Python

/-! ## C -/

namespace C

open IntHpcc.CSender

variable {cfg : CSender.Config} {mp : ℤ} {s : SenderState} {p p' : CSender.Proc}

/-- The sequence number of a data packet. -/
def seq_of (data : List Byte) : ℕ := of_be (slice data 4 4)

theorem seq_of_pack {seq : ℕ} (h : seq < 2 ^ 32) (t : Us) (padding : ℕ) :
    seq_of (data_packet_pack seq t padding) = seq := by
  have hslice : slice (data_packet_pack seq t padding) 4 4 = be 4 seq := by
    have hshim : (be 1 0 ++ be 1 0 ++ be 1 MAX_HOPS ++ be 1 0).length = 4 := rfl
    unfold data_packet_pack slice
    rw [List.append_assoc, List.drop_left' hshim, List.append_assoc, List.append_assoc,
      List.take_left' (be_length 4 seq)]
  rw [seq_of, hslice]
  exact of_be_be_of_lt (lt_of_lt_of_eq h (by norm_num))

/-- The numbers handed to `sendto`, oldest first. -/
def numbers (s : SenderState) : List ℕ := s.sent.map seq_of

/-- The numbers in the slots. -/
def outstanding (s : SenderState) : Set ℕ := { q | ∃ i, occupied s i ∧ (s.inflight i).seq = q }

/-- The numbers of the slots `l` that are in use. -/
def slot_numbers (s : SenderState) (l : List (Fin INFLIGHT_MAX)) : List ℕ :=
  (l.filter fun i => (s.inflight i).seq ≠ EMPTY).map fun i => (s.inflight i).seq

/-- Where two numbers are outstanding, the smaller one is in the earlier slot. -/
def InSlotOrder (s : SenderState) : Prop :=
  ∀ a ∈ outstanding s, ∀ b ∈ outstanding s, a < b → a % INFLIGHT_MAX < b % INFLIGHT_MAX

theorem slot_numbers_congr {s' : SenderState}
    (h : ∀ i, (s'.inflight i).seq = (s.inflight i).seq) (l : List (Fin INFLIGHT_MAX)) :
    slot_numbers s' l = slot_numbers s l := by
  unfold slot_numbers
  simp only [h]

/-- One round of the retransmission loop: the number of the slot, if it is in use. -/
theorem resend_slot_numbers (cfg : CSender.Config) (h : Words s) {calls : ℕ → SendCall}
    (hsent : ∀ q, (calls q).sent = true) (i : Fin INFLIGHT_MAX) :
    numbers (resend_slot cfg calls s i) = numbers s ++ slot_numbers s [i] := by
  unfold resend_slot slot_numbers
  by_cases hi : (s.inflight i).seq = EMPTY
  · rw [if_pos hi, List.filter_cons_of_neg (by simpa using hi)]
    exact (List.append_nil _).symm
  · rw [if_neg hi, List.filter_cons_of_pos (by simpa using hi)]
    cases hc : calls (s.inflight i).seq with
    | os_error b =>
        have hcall := hsent (s.inflight i).seq
        rw [hc] at hcall
        cases hcall
    | ok b t l =>
        unfold numbers
        rw [send_one_sent, List.map_append, List.map_singleton, seq_of_pack (h.slots_lt i)]
        rfl

/-- The retransmission loop transmits the numbers in the order of their slots. -/
theorem resend_loop_numbers (cfg : CSender.Config) (h : Words s) {calls : ℕ → SendCall}
    (hsent : ∀ q, (calls q).sent = true) (l : List (Fin INFLIGHT_MAX)) :
    numbers (l.foldl (resend_slot cfg calls) s) = numbers s ++ slot_numbers s l := by
  induction l generalizing s with
  | nil => exact (List.append_nil _).symm
  | cons i l ih =>
      obtain ⟨hslot, hbooks⟩ := resend_slot_spec cfg h.placed calls i
      -- a resend changes no slot's number, so the rest of the loop sees the same table
      have hseq : ∀ j, ((resend_slot cfg calls s i).inflight j).seq = (s.inflight j).seq := by
        intro j
        rw [hslot]
        by_cases hj : j = i
        · rw [hj, Function.update_self, resent_seq]
        · rw [Function.update_of_ne hj]
      have hwords : Words (resend_slot cfg calls s i) :=
        ⟨placed_of_resent h.placed hslot, by rw [hbooks.next_seq]; exact h.next_lt,
          fun j => by rw [hseq]; exact h.slots_lt j⟩
      rw [List.foldl_cons, ih hwords, resend_slot_numbers cfg h hsent, slot_numbers_congr hseq,
        List.append_assoc]
      refine congrArg (numbers s ++ ·) ?_
      unfold slot_numbers
      rw [← List.map_append, ← List.filter_append]
      rfl

/-- The numbers of all slots increase exactly if the slots are in the numbers' order. -/
theorem slot_numbers_sorted_iff (h : Placed s) :
    (slot_numbers s (List.finRange INFLIGHT_MAX)).Pairwise (· < ·) ↔ InSlotOrder s := by
  have hpairs : (slot_numbers s (List.finRange INFLIGHT_MAX)).Pairwise (· < ·) ↔
      ∀ i j, i < j → occupied s i → occupied s j → (s.inflight i).seq < (s.inflight j).seq := by
    unfold slot_numbers
    rw [List.pairwise_map, List.pairwise_filter, ← List.ofFn_id, List.pairwise_ofFn]
    simp [occupied]
  have hmod : ∀ i, occupied s i → (s.inflight i).seq % INFLIGHT_MAX = i := placed_iff.mp h
  rw [hpairs]
  constructor
  · rintro hlt a ⟨i, hi, rfl⟩ b ⟨j, hj, rfl⟩ hab
    rw [hmod i hi, hmod j hj]
    by_contra hji
    rcases lt_or_eq_of_le (not_lt.mp hji) with hji | hji
    · exact absurd (hlt j i hji hj hi) (not_lt.mpr hab.le)
    · rw [Fin.ext hji] at hab
      exact lt_irrefl _ hab
  · intro horder i j hij hi hj
    by_contra hle
    rcases lt_or_eq_of_le (not_lt.mp hle) with hlt | heq
    · have hmods := horder _ ⟨j, hj, rfl⟩ _ ⟨i, hi, rfl⟩ hlt
      rw [hmod i hi, hmod j hj] at hmods
      exact absurd hij (not_lt.mpr hmods.le)
    · -- two slots do not hold one number
      have hsame := hmod i hi
      rw [← heq, hmod j hj] at hsame
      exact absurd hij (not_lt.mpr hsame.le)

/-- **An RTO of the C sender goes back** exactly if the outstanding numbers are in slot
order. -/
theorem rto_goes_back_iff (h : Words p.self) {now : Us} {calls : ℕ → SendCall}
    (hf : fired cfg now p.self = true) (hsent : ∀ q, (calls q).sent = true)
    (hstep : CSender.step cfg mp (.rto now calls) p = some p') :
    GoesBack (numbers p.self) (numbers p'.self) (outstanding p.self) (outstanding p'.self) ↔
      InSlotOrder p.self := by
  obtain ⟨-, hp⟩ := step_rto.mp hstep
  have hself : p'.self = rto_check cfg now calls p.self := by rw [hp]
  obtain ⟨hslots, -⟩ := rto_check_fired h.placed calls hf
  -- the loop goes over the slots in their order
  have hnumbers : numbers p'.self
      = numbers p.self ++ slot_numbers p.self (List.finRange INFLIGHT_MAX) := by
    have hcut : Words (rto_cut p.self) := ⟨h.placed, h.next_lt, h.slots_lt⟩
    rw [hself, rto_check, if_pos hf, resend_loop_numbers cfg hcut hsent]
    rfl
  have hout : outstanding p'.self = outstanding p.self := by
    ext q
    unfold outstanding occupied
    simp only [hself, hslots, resent_seq]
  -- so it goes back in order exactly if the slots are sorted by number
  rw [hnumbers, hout, ← slot_numbers_sorted_iff h.placed]
  refine goesBack_iff fun q => ?_
  unfold slot_numbers
  rw [List.mem_map]
  simp only [List.mem_filter, List.mem_finRange, true_and, decide_eq_true_eq]
  rfl

/-! ## A flight without gaps -/

/-- The numbers from `a` to `n`, `n` excluded, are in flight, and no other. -/
structure Flight (s : SenderState) (a n : ℕ) : Prop where
  tracked : Tracked s
  cum : s.cum_acked_seq + 1 = a
  next : s.next_seq = n
  count : s.in_flight_count = n - a
  le : a ≤ n
  lt : n ≤ EMPTY
  holds : ∀ q, a ≤ q → q < n → (s.inflight (inflight_idx q)).seq = q

variable {a n : ℕ} {b t l : Us}

theorem Flight.mem (h : Flight s a n) {i : Fin INFLIGHT_MAX} (hi : occupied s i) :
    a ≤ (s.inflight i).seq ∧ (s.inflight i).seq < n := by
  have habove := h.tracked.above i hi
  have hbelow := h.tracked.below i hi
  have hcum := h.cum
  rw [h.next] at hbelow
  omega

theorem Flight.outstanding (h : Flight s a n) : outstanding s = { q | a ≤ q ∧ q < n } := by
  ext q
  constructor
  · rintro ⟨i, hi, rfl⟩
    exact h.mem hi
  · rintro ⟨ha, hn⟩
    have hslot := h.holds q ha hn
    have hlt := h.lt
    refine ⟨inflight_idx q, ?_, hslot⟩
    unfold occupied
    omega

/-- The next packet goes out while there are less than 4096. -/
theorem Flight.burst_iter (h : Flight s a n) (hroom : n < a + INFLIGHT_MAX) (hn : n < EMPTY) :
    Flight (burst_iter cfg s (.ok b t l)) a (n + 1) := by
  obtain rfl := h.next
  have hfree : ¬ occupied s (inflight_idx s.next_seq) := by
    intro hi
    have hmem := h.mem hi
    have hslot : (s.inflight (inflight_idx s.next_seq)).seq % 4096 = s.next_seq % 4096 :=
      h.tracked.slot _ hi
    simp only [INFLIGHT_MAX] at hroom
    omega
  have hcum := h.cum
  have hle := h.le
  refine ⟨tracked_burst_of_room h.tracked hn hfree (by omega), ?_, burst_iter_next hn _, ?_,
    by omega, hn, ?_⟩
  · rw [(burst_iter_books cfg s _).2.2.2]
    exact h.cum
  · rw [h.tracked.burst_count hn, h.count]
    push_cast
    ring
  · intro q hq hlast
    by_cases heq : q = s.next_seq
    · rw [heq]
      exact burst_iter_slot_self
    · have hold := h.holds q hq (by omega)
      rw [burst_iter_slot_of_ne, hold]
      -- another slot, or the next one would be in use
      intro hidx
      apply hfree
      rw [← hidx]
      unfold occupied
      omega

/-- The ACK of the last packet empties the flight. -/
theorem Flight.acked (h : Flight s a (n + 1)) (ha : a ≤ n) :
    Flight (acked s n) (n + 1) (n + 1) := by
  have hcum := h.cum
  have hlt := h.lt
  have hslot := h.holds n ha (Nat.lt_succ_self n)
  have hnum : (((n : ℤ) - s.cum_acked_seq).toNat : ℤ) = n + 1 - a := by omega
  refine ⟨tracked_acked h.tracked (by omega) hslot (by omega), rfl, ?_, ?_, le_refl _, hlt, ?_⟩
  · exact (clear_range_fields s _ _).2.2.2.2.2.2.1.trans h.next
  · have hcount : (clear_range s (s.cum_acked_seq + 1) ((n : ℤ) - s.cum_acked_seq).toNat
        ).in_flight_count = s.in_flight_count - ((n : ℤ) - s.cum_acked_seq).toNat :=
      clear_range_count (by omega) (by omega) fun q hq hq' => h.holds q (by omega) (by omega)
    refine hcount.trans ?_
    rw [h.count, hnum]
    push_cast
    ring
  · intro q hq hq'
    omega

/-- A flight without gaps is in slot order exactly if it is within one round of the
table. -/
theorem Flight.inSlotOrder_iff (h : Flight s a n) (hn : n ≤ a + INFLIGHT_MAX) (hlt : a < n) :
    InSlotOrder s ↔ a / INFLIGHT_MAX = (n - 1) / INFLIGHT_MAX := by
  unfold InSlotOrder
  rw [h.outstanding]
  simp only [INFLIGHT_MAX, Set.mem_ofPred_eq] at hn ⊢
  constructor
  · intro horder
    by_contra hne
    -- the last of one round and the first of the next
    have hpair := horder (4096 * ((n - 1) / 4096) - 1) ⟨by omega, by omega⟩
      (4096 * ((n - 1) / 4096)) ⟨by omega, by omega⟩ (by omega)
    omega
  · intro hround x hx y hy hxy
    omega

/-! ## A flight over the end of the table -/

/-- A window of 4095 packets. -/
def wrap_config : CSender.Config := { table_config with w_init := 4095, w_max := 4096 }

/-- The ACK of packet 4094, without hops. -/
def wrap_ack : List Byte :=
  [0, 0, 4, 0] ++ be 4 4094 ++ List.replicate (ACK_PAYLOAD_SIZE - 4) 0

theorem decode_wrap_ack : decode_ack wrap_ack = some (4094, []) := rfl

/-- The first 4095 packets are sent and acknowledged, then the next two are sent. -/
def wrap_run : List CSender.Op :=
  .acquire :: (round_events (fun _ => sent_at_zero) .send 4095 ++
    [.release, .datagram wrap_ack zero_us, .acquire, .send sent_at_zero, .send sent_at_zero, .release])

/-- What the threads look at besides the flight. -/
structure Steady (s : SenderState) : Prop where
  w : s.w = 4095
  updated : s.last_update_us = 0

theorem Steady.burst_iter (h : Steady s) (cfg : CSender.Config) (call : SendCall) :
    Steady (burst_iter cfg s call) := by
  obtain ⟨hw, -, -, -, -, hus, -⟩ := send_one_fields cfg s s.next_seq call
  exact ⟨hw.trans h.w, hus.trans h.updated⟩

/-- The ACK comes too early for an update of the window. -/
theorem Steady.ack (h : Steady s) :
    apply_u wrap_config zero_us [] (CSender.acked s 4094) = CSender.acked s 4094 := by
  have hus : (CSender.acked s 4094).last_update_us = 0 :=
    (clear_range_fields s _ _).2.2.2.2.2.1.trans h.updated
  have hgate : ∀ s' : SenderState, s'.last_update_us = 0 → gate_open wrap_config zero_us s' = false := by
    intro s' hus'
    unfold gate_open
    rw [hus']
    exact Bool.and_eq_false_iff.mpr (Or.inr (by decide +kernel))
  unfold apply_u compute_u maybe_update_window
  dsimp only
  rw [if_neg (lt_irrefl _), hgate _ hus]
  rfl

theorem wrap_guard (h : Flight s a n) :
    burst_guard 4097 4095 s = true ↔ n < a + 4095 ∧ n < 4097 := by
  unfold burst_guard
  rw [h.next, h.count]
  simp only [Bool.and_eq_true, Bool.or_eq_true, decide_eq_true_eq]
  omega

/-- One packet of a burst. -/
theorem wrap_send (h : Flight s a n) (hs : Steady s) (hc : n < a + 4095) (hn : n < 4097) :
    ∃ s', CSender.step wrap_config 4097 (.send sent_at_zero) ⟨s, some 4095⟩ = some ⟨s', some 4095⟩ ∧
      Flight s' a (n + 1) ∧ Steady s' ∧ (s'.inflight (inflight_idx n)).send_ts_us = 0 := by
  refine ⟨burst_iter wrap_config s sent_at_zero,
    step_send.mpr ⟨_, rfl, (wrap_guard h).mpr ⟨hc, hn⟩, rfl⟩,
    h.burst_iter (by simp only [INFLIGHT_MAX]; omega) (by simp only [EMPTY]; omega),
    hs.burst_iter wrap_config sent_at_zero, ?_⟩
  rw [(burst_iter_books wrap_config s sent_at_zero).1, h.next]
  exact (send_one_slot_self zero_us zero_us zero_us).2

/-- The first burst. -/
theorem wrap_fill (h : Flight s 0 0) (hs : Steady s) (hn : n ≤ 4095) :
    ∃ s', run (CSender.step wrap_config 4097) ⟨s, some 4095⟩
        (round_events (fun _ => sent_at_zero) .send n) = some ⟨s', some 4095⟩ ∧
      Flight s' 0 n ∧ Steady s' := by
  induction n with
  | zero => exact ⟨s, rfl, h, hs⟩
  | succ n ih =>
      obtain ⟨s₁, hrun, hf, hs₁⟩ := ih (by omega)
      obtain ⟨s₂, hsend, hf₂, hs₂, -⟩ := wrap_send hf hs₁ (by omega) (by omega)
      have hevents : round_events (fun _ => sent_at_zero) CSender.Op.send (n + 1)
          = round_events (fun _ => sent_at_zero) .send n ++ [.send sent_at_zero] := by
        rw [round_events, List.range_succ, List.map_append]
        rfl
      refine ⟨s₂, ?_, hf₂, hs₂⟩
      rw [hevents, run_append, hrun, Option.bind_some, run_cons, hsend]
      rfl

/-- Packets 4095 and 4096 are left in flight, and 4096 was sent at 0. -/
theorem wrap_reached : ∃ p, run (CSender.step wrap_config 4097) (CSender.start wrap_config 0)
      wrap_run = some p ∧ p.w_int = none ∧ Flight p.self 4095 4097 ∧
    (p.self.inflight (inflight_idx 4096)).send_ts_us = 0 := by
  have hw : py_int 4095 = 4095 := by decide
  have hstart : Flight (CSender.start wrap_config 0).self 0 0 :=
    ⟨tracked_start wrap_config 0, rfl, rfl, rfl, le_refl _, Nat.zero_le _,
      fun q _ hq => absurd hq (Nat.not_lt_zero q)⟩
  have hacquire : ∀ s, Steady s → CSender.step wrap_config 4097 .acquire ⟨s, none⟩
      = some ⟨s, some 4095⟩ := by
    intro s hs
    rw [step_acquire.mpr ⟨rfl, rfl⟩]
    show some (CSender.Proc.mk s (some (py_int s.w))) = _
    rw [hs.w, hw]
  have hrelease : ∀ s a n, Flight s a n → ¬ (n < a + 4095 ∧ n < 4097) →
      CSender.step wrap_config 4097 .release ⟨s, some 4095⟩ = some ⟨s, none⟩ := by
    intro s a n hf hend
    exact step_release.mpr ⟨_, rfl, fun hg => hend ((wrap_guard hf).mp hg), rfl⟩
  obtain ⟨s₁, hfill, hf₁, hs₁⟩ := wrap_fill hstart ⟨rfl, rfl⟩ (le_refl 4095)
  -- the ACK of the last packet clears the flight and nothing else
  have hack : CSender.step wrap_config 4097 (.datagram wrap_ack zero_us) ⟨s₁, none⟩
      = some ⟨CSender.acked s₁ 4094, none⟩ := by
    refine step_datagram.mpr ⟨rfl, ?_⟩
    rw [ack_thread_eq zero_us decode_wrap_ack,
      on_ack_held zero_us [] (hf₁.holds 4094 (by omega) (by omega)),
      hs₁.ack]
  have hf₂ : Flight (CSender.acked s₁ 4094) 4095 4095 := hf₁.acked (by omega)
  have hs₂ : Steady (CSender.acked s₁ 4094) :=
    ⟨(clear_range_fields s₁ _ _).1.trans hs₁.w,
      (clear_range_fields s₁ _ _).2.2.2.2.2.1.trans hs₁.updated⟩
  obtain ⟨s₃, hsend₃, hf₃, hs₃, -⟩ := wrap_send hf₂ hs₂ (by omega) (by omega)
  obtain ⟨s₄, hsend₄, hf₄, -, hts⟩ := wrap_send hf₃ hs₃ (by omega) (by omega)
  have hrest : run (CSender.step wrap_config 4097) ⟨s₁, some 4095⟩ [.release,
      .datagram wrap_ack zero_us, .acquire, .send sent_at_zero, .send sent_at_zero, .release]
      = some ⟨s₄, none⟩ := by
    simp only [run_cons, run_nil, Option.bind_some, hrelease s₁ 0 4095 hf₁ (by omega), hack,
      hacquire _ hs₂, hsend₃, hsend₄, hrelease s₄ 4095 4097 hf₄ (by omega)]
  exact ⟨⟨s₄, none⟩, (run_cons_eq_some _).mpr ⟨_, hacquire _ ⟨rfl, rfl⟩,
    (run_append_eq_some _).mpr ⟨_, hfill, hrest⟩⟩, rfl, hf₄, hts⟩

end C

/-! ## The four senders -/

section

open IntHpcc.SenderWindow IntHpcc.Network

/-- **Go-back-N.** When an RTO fires and its sends succeed, a Python sender transmits the
outstanding numbers in increasing order and leaves the same numbers outstanding, from every
reachable state; the C sender does so exactly if the outstanding numbers are in slot
order. -/
theorem go_back_n_iff (k : SenderKind) (cfg : k.cls.Config) (mp : Option ℤ) (monotonic : ℚ)
    (c_cfg : CSender.Config) (c_mp : ℤ) (now_mono : Us) :
    (∀ (ops : List Op) (p p' : k.cls.Proc) (now log_us : Us) (calls : ℤ → SendCall),
      run (k.cls.step cfg mp) (k.cls.start cfg monotonic) ops = some p →
      rto_fires k.cls cfg p.self now = true → (∀ s, (calls s).sent = true) →
      k.cls.step cfg mp (.rto now log_us calls) p = some p' →
        GoesBack (numbers p.self) (numbers p'.self) (outstanding p.self)
          (outstanding p'.self)) ∧
    (∀ (ops : List CSender.Op) (p p' : CSender.Proc) (now : Us) (calls : ℕ → SendCall),
      run (CSender.step c_cfg c_mp) (CSender.start c_cfg now_mono) ops = some p →
      CSender.fired c_cfg now p.self = true → (∀ q, (calls q).sent = true) →
      CSender.step c_cfg c_mp (.rto now calls) p = some p' →
        (GoesBack (C.numbers p.self) (C.numbers p'.self) (C.outstanding p.self)
            (C.outstanding p'.self) ↔ C.InSlotOrder p.self)) := by
  constructor
  · intro ops p p' now log_us calls _ hx hsent hstep
    exact rto_goes_back hx hsent hstep
  · intro ops p p' now calls hrun hf hsent hstep
    exact C.rto_goes_back_iff (CSender.words_run hrun) hf hsent hstep

def late : Us := at_us 1000000

def two_sends : List Op := [.acquire, .send sent_at_zero, .send sent_at_zero, .release]

theorem two_sends_fires :
    (run (Dctcp.cls.step (Dctcp.defaults (1 / 200)) (some 2))
      (Dctcp.cls.start (Dctcp.defaults (1 / 200)) 0) two_sends).map
        (fun p => (rto_fires Dctcp.cls (Dctcp.defaults (1 / 200)) p.self late, p.bursting))
      = some (true, false) := by
  decide +kernel

/-- Three packets of the C sender, in flight since 0. -/
theorem C.three_waiting : ∃ p, run (CSender.step CSender.table_config 4)
      (CSender.start CSender.table_config 0) CSender.three_waiting = some p ∧
    p.w_int = none ∧ C.Flight p.self 1 4 := by
  obtain ⟨p, hrun, hstate⟩ := Option.map_eq_some_iff.mp CSender.three_waiting_state
  simp only [Prod.mk.injEq, List.map_cons, List.map_nil, List.cons.injEq, and_true] at hstate
  obtain ⟨⟨hfree, hnext, hcum, hcount⟩, ⟨h₁, h₂, h₃⟩, -⟩ := hstate
  refine ⟨p, hrun, hfree, CSender.three_waiting_tracked hrun, ?_, hnext, ?_, by decide, by decide,
    ?_⟩
  · rw [hcum]
    rfl
  · rw [hcount]
    rfl
  · intro q hq hq'
    obtain rfl | rfl | rfl : q = 1 ∨ q = 2 ∨ q = 3 := by omega
    exacts [h₁, h₂, h₃]

/-- Two packets of a `DctcpSender`, and three of the C sender. -/
theorem go_back_n_first :
    (∃ p p' : Dctcp.cls.Proc, run (Dctcp.cls.step (Dctcp.defaults (1 / 200)) (some 2))
        (Dctcp.cls.start (Dctcp.defaults (1 / 200)) 0) two_sends = some p ∧
      GoesBack (numbers p.self) (numbers p'.self) (outstanding p.self) (outstanding p'.self)) ∧
    ∃ p p' : CSender.Proc, run (CSender.step CSender.table_config 4)
        (CSender.start CSender.table_config 0) CSender.three_waiting = some p ∧
      C.outstanding p.self = {q | 1 ≤ q ∧ q < 4} ∧
      GoesBack (C.numbers p.self) (C.numbers p'.self) (C.outstanding p.self)
        (C.outstanding p'.self) := by
  obtain ⟨hpython, hc⟩ := go_back_n_iff .dctcp (Dctcp.defaults (1 / 200)) (some 2) 0
    CSender.table_config 4 0
  constructor
  · obtain ⟨p, hrun, hp⟩ := Option.map_eq_some_iff.mp two_sends_fires
    obtain ⟨hx, hfree⟩ := Prod.mk.inj hp
    exact ⟨p, _, hrun, hpython two_sends p _ late late (fun _ => sent_at_zero) hrun hx
      (fun _ => rfl) (step_rto.mpr ⟨hfree, rfl⟩)⟩
  · obtain ⟨p, hrun, hfree, hflight⟩ := C.three_waiting
    -- packets 1, 2 and 3 have not wrapped around: slot order is number order
    refine ⟨p, _, hrun, hflight.outstanding, (hc _ p _ late (fun _ => sent_at_zero) hrun
      (CSender.three_waiting_fires hrun) (fun _ => rfl)
      (CSender.step_rto.mpr ⟨hfree, rfl⟩)).mpr ?_⟩
    exact (hflight.inSlotOrder_iff (by decide) (by decide)).mpr rfl

/-- Every send of the event succeeds. -/
def C.Succeeds : CSender.Op → Prop
  | .send call => call.sent = true
  | .rto _ calls => ∀ q, (calls q).sent = true
  | _ => True

/-- With packets 4095 and 4096 in flight, the C sender sends the younger one first. -/
theorem go_back_n_fails :
    ¬ ∀ (cfg : CSender.Config) (mp : ℤ) (now_mono : Us) (ops : List CSender.Op)
      (p p' : CSender.Proc) (now : Us) (calls : ℕ → SendCall), (∀ op ∈ ops, C.Succeeds op) →
      run (CSender.step cfg mp) (CSender.start cfg now_mono) ops = some p →
      CSender.fired cfg now p.self = true → (∀ q, (calls q).sent = true) →
      CSender.step cfg mp (.rto now calls) p = some p' →
        GoesBack (C.numbers p.self) (C.numbers p'.self) (C.outstanding p.self)
          (C.outstanding p'.self) := by
  intro h
  obtain ⟨p, hrun, hfree, hflight, hts⟩ := C.wrap_reached
  -- no send on the way fails: the order alone breaks the law
  have hsucceeds : ∀ op ∈ C.wrap_run, C.Succeeds op := by
    intro op hop
    rcases List.mem_cons.mp hop with rfl | hop
    · trivial
    rcases List.mem_append.mp hop with hop | hop
    · obtain ⟨i, -, rfl⟩ := List.mem_map.mp hop
      rfl
    · simp only [List.mem_cons, List.not_mem_nil, or_false] at hop
      rcases hop with rfl | rfl | rfl | rfl | rfl | rfl
      exacts [True.intro, True.intro, True.intro, rfl, rfl, True.intro]
  -- packet 4096 has timed out, in slot 0
  have hf : CSender.fired C.wrap_config late p.self = true := by
    refine CSender.fired_iff.mpr ⟨CSender.inflight_idx 4096, ?_, ?_⟩
    · have hslot := hflight.holds 4096 (by norm_num) (by norm_num)
      unfold CSender.occupied
      rw [hslot]
      decide
    · rw [hts]
      decide +kernel
  have hstep : CSender.step C.wrap_config 4097 (.rto late fun _ => sent_at_zero) p = some _ :=
    CSender.step_rto.mpr ⟨hfree, rfl⟩
  have hback := h C.wrap_config 4097 0 C.wrap_run p _ late (fun _ => sent_at_zero) hsucceeds hrun hf
    (fun _ => rfl) hstep
  -- slot order is number order only if the flight does not wrap
  have horder := (C.rto_goes_back_iff (CSender.words_run hrun) hf (fun _ => rfl) hstep).mp hback
  exact absurd ((hflight.inSlotOrder_iff (by decide) (by norm_num)).mp horder) (by decide)

end

end IntHpcc.GoBackN
