/-
The counter and the slots of the C sender's in-flight table.

`in_flight_count` is kept beside the slots it counts, and a slot is found again by its
number alone. Both work as long as a number finds its slot free when it is sent and no
ACK carries `0xFFFFFFFF`, the number that marks an empty slot: an ACK of that number
finds the empty last slot, takes it for a packet in flight, and the counter goes down
for nothing. Failed sends advance `next_seq` all the same, so the slots can also come
round to a packet that is still there.
-/
import IntHpcc.CInflight
import Mathlib.Data.Fintype.Basic
import Mathlib.Data.Finset.Card

set_option autoImplicit false

namespace IntHpcc.CSender

open IntHpcc.Runs IntHpcc.Bytes IntHpcc.Py IntHpcc.PacketFormat IntHpcc.SenderCore

/-- The slots whose number is not `0xFFFFFFFF`. -/
def slots_in_use (s : SenderState) : Finset (Fin INFLIGHT_MAX) :=
  Finset.univ.filter fun i => (s.inflight i).seq ≠ EMPTY

/-- The table is in order: the counter counts the slots in use, and each of them holds a
number that belongs there and that is sent and not acknowledged. -/
structure Tracked (s : SenderState) : Prop where
  count : s.in_flight_count = (slots_in_use s).card
  slot : ∀ i, occupied s i → (s.inflight i).seq % INFLIGHT_MAX = i
  above : ∀ i, occupied s i → s.cum_acked_seq < (s.inflight i).seq
  below : ∀ i, occupied s i → (s.inflight i).seq < s.next_seq

/-- The number about to be sent has a slot to go to. At the sentinel, after which the
numbers start again, nothing may be in flight. -/
def Room (s : SenderState) (call : SendCall) : Prop :=
  if s.next_seq = EMPTY then ∀ i, ¬ occupied s i
  else call.sent = true →
    ¬ occupied s (inflight_idx s.next_seq) ∧ s.cum_acked_seq < s.next_seq

/-- The datagram does not acknowledge the sentinel while its slot is empty. -/
def NoSentinel (s : SenderState) (data : List Byte) : Prop :=
  ∀ hops, decode_ack data = some (EMPTY, hops) → occupied s (inflight_idx EMPTY)

/-- What an event must be like for the table to stay in order. -/
def Keeps (p : Proc) : Op → Proc → Prop
  | .send call, _ => Room p.self call
  | .datagram data _, _ => NoSentinel p.self data
  | _, _ => True

section

variable {cfg : Config} {s : SenderState}

theorem mem_slots_in_use (i : Fin INFLIGHT_MAX) : i ∈ slots_in_use s ↔ occupied s i := by
  simp [slots_in_use, occupied]

/-- Only the numbers in the slots matter, not what is stored with them. -/
theorem tracked_congr {s' : SenderState}
    (hslots : ∀ i, (s'.inflight i).seq = (s.inflight i).seq)
    (hcount : s'.in_flight_count = s.in_flight_count) (hnext : s'.next_seq = s.next_seq)
    (hcum : s'.cum_acked_seq = s.cum_acked_seq) : Tracked s' ↔ Tracked s := by
  -- a table is tracked by its numbers, its count and the two ends alone
  have hocc : ∀ i, occupied s' i ↔ occupied s i := by
    intro i
    unfold occupied
    rw [hslots]
  have huse : slots_in_use s' = slots_in_use s := by
    unfold slots_in_use
    simp only [hslots]
  constructor
  · rintro ⟨h₁, h₂, h₃, h₄⟩
    rw [hcount, huse] at h₁
    rw [hcum] at h₃
    rw [hnext] at h₄
    simp only [hocc, hslots] at h₂ h₃ h₄
    exact ⟨h₁, h₂, h₃, h₄⟩
  · rintro ⟨h₁, h₂, h₃, h₄⟩
    rw [← hcount, ← huse] at h₁
    rw [← hcum] at h₃
    rw [← hnext] at h₄
    simp only [← hocc, ← hslots] at h₂ h₃ h₄
    exact ⟨h₁, h₂, h₃, h₄⟩

/-- A slot that is found belongs to its number. -/
theorem placed_iff : Placed s ↔ ∀ i, occupied s i → (s.inflight i).seq % INFLIGHT_MAX = i := by
  refine forall_congr' fun i => forall_congr' fun _ => ?_
  unfold inflight_idx
  exact Fin.ext_iff

theorem Tracked.placed (h : Tracked s) : Placed s := placed_iff.mpr h.slot

/-! ## One slot changes -/

/-- A slot is taken. -/
theorem card_of_taken {s' : SenderState} {j : Fin INFLIGHT_MAX} (hfree : ¬ occupied s j)
    (hocc : ∀ i, occupied s' i ↔ i = j ∨ occupied s i) :
    (slots_in_use s').card = (slots_in_use s).card + 1 := by
  have hinsert : slots_in_use s' = insert j (slots_in_use s) := by
    ext i
    rw [mem_slots_in_use, hocc, Finset.mem_insert, mem_slots_in_use]
  rw [hinsert, Finset.card_insert_of_notMem]
  rwa [mem_slots_in_use]

/-- A slot is given back. -/
theorem card_of_freed {s' : SenderState} {j : Fin INFLIGHT_MAX} (hused : occupied s j)
    (hocc : ∀ i, occupied s' i ↔ i ≠ j ∧ occupied s i) :
    (slots_in_use s').card + 1 = (slots_in_use s).card := by
  have herase : slots_in_use s' = (slots_in_use s).erase j := by
    ext i
    rw [mem_slots_in_use, hocc, Finset.mem_erase, mem_slots_in_use]
  rw [herase, Finset.card_erase_add_one]
  rwa [mem_slots_in_use]

theorem card_of_same {s' : SenderState} (hocc : ∀ i, occupied s' i ↔ occupied s i) :
    (slots_in_use s').card = (slots_in_use s).card := by
  have hsame : slots_in_use s' = slots_in_use s := by
    ext i
    rw [mem_slots_in_use, hocc, mem_slots_in_use]
  rw [hsame]

/-! ## Sending -/

variable {seq : ℕ} {b t l : Us}

/-- A send that goes through is counted unless the packet's slot holds its number. -/
theorem send_one_count : (send_one cfg s seq (.ok b t l)).in_flight_count
    = s.in_flight_count + if (s.inflight (inflight_idx seq)).seq = seq then 0 else 1 := by
  unfold send_one inflight_get
  dsimp only
  by_cases h : (s.inflight (inflight_idx seq)).seq = seq
  · rw [if_pos h, if_pos h, add_zero]
    rfl
  · rw [if_neg h, if_neg h]
    rfl

/-- The slots in use after it. -/
theorem send_one_occupied (i : Fin INFLIGHT_MAX) :
    occupied (send_one cfg s seq (.ok b t l)) i ↔
      if i = inflight_idx seq then seq ≠ EMPTY else occupied s i := by
  unfold occupied
  by_cases hi : i = inflight_idx seq
  · rw [if_pos hi, hi, (send_one_slot_self b t l).1]
  · rw [if_neg hi, send_one_slot_of_ne cfg s _ hi]

/-- The books of the transport after one iteration of the burst loop. -/
theorem burst_iter_books (cfg : Config) (s : SenderState) (call : SendCall) :
    (burst_iter cfg s call).inflight = (send_one cfg s s.next_seq call).inflight ∧
      (burst_iter cfg s call).in_flight_count = (send_one cfg s s.next_seq call).in_flight_count ∧
      (burst_iter cfg s call).next_seq = (s.next_seq + 1) % 2 ^ 32 ∧
      (burst_iter cfg s call).cum_acked_seq = s.cum_acked_seq := by
  obtain ⟨-, -, -, -, -, -, hnext, hcum, -⟩ := send_one_fields cfg s s.next_seq call
  refine ⟨rfl, rfl, ?_, hcum⟩
  unfold burst_iter
  dsimp only
  rw [hnext]

theorem card_eq_zero_iff : (slots_in_use s).card = 0 ↔ ∀ i, ¬ occupied s i := by
  rw [Finset.card_eq_zero, Finset.eq_empty_iff_forall_notMem]
  simp only [mem_slots_in_use]

/-- Sending the sentinel puts nothing in flight, and it is counted only if its slot was in
use. -/
theorem send_sentinel (cfg : Config) (s : SenderState) (call : SendCall) :
    (∀ i, occupied (send_one cfg s EMPTY call) i → occupied s i) ∧
      s.in_flight_count ≤ (send_one cfg s EMPTY call).in_flight_count ∧
      (¬ occupied s (inflight_idx EMPTY) →
        (send_one cfg s EMPTY call).in_flight_count = s.in_flight_count) := by
  cases call with
  | os_error b => exact ⟨fun _ h => h, le_refl _, fun _ => rfl⟩
  | ok b t l =>
      refine ⟨?_, ?_, ?_⟩
      · intro i hi
        rw [send_one_occupied] at hi
        -- the slot now holds the sentinel: it counts as free
        by_cases hlast : i = inflight_idx EMPTY
        · rw [if_pos hlast] at hi
          exact absurd rfl hi
        · rwa [if_neg hlast] at hi
      · rw [send_one_count]
        split
        · omega
        · omega
      · -- it was free before, and still is
        intro hfree
        rw [send_one_count, if_pos (not_not.mp hfree), add_zero]

/-- The sentinel as a sequence number: the numbers start again at 0, so no slot may be in
use. -/
theorem tracked_burst_sentinel (h : Tracked s) (hseq : s.next_seq = EMPTY) (call : SendCall) :
    Tracked (burst_iter cfg s call) ↔ ∀ i, ¬ occupied s i := by
  obtain ⟨hslots, hcount, hnext, -⟩ := burst_iter_books cfg s call
  obtain ⟨hsub, hle, hsame⟩ := send_sentinel cfg s call
  rw [hseq] at hslots hcount hnext
  have hzero : (burst_iter cfg s call).next_seq = 0 := hnext
  have hocc : ∀ i, occupied (burst_iter cfg s call) i → occupied s i := by
    intro i hi
    apply hsub i
    unfold occupied at hi ⊢
    rwa [hslots] at hi
  constructor
  · intro h'
    -- nothing is below 0, so the counter is at 0 and has been there before
    have hnone : ∀ i, ¬ occupied (burst_iter cfg s call) i := by
      intro i hi
      have hbelow := h'.below i hi
      omega
    have hcount' := h'.count
    rw [card_eq_zero_iff.mpr hnone, hcount] at hcount'
    apply card_eq_zero_iff.mp
    have hcard := h.count
    omega
  · intro hfree
    have hnone : ∀ i, ¬ occupied (burst_iter cfg s call) i := fun i hi => hfree i (hocc i hi)
    refine ⟨?_, fun i hi => absurd hi (hnone i), fun i hi => absurd hi (hnone i),
      fun i hi => absurd hi (hnone i)⟩
    rw [card_eq_zero_iff.mpr hnone, hcount, hsame (hfree _), h.count, card_eq_zero_iff.mpr hfree]

/-- After any other number the next one follows. -/
theorem burst_iter_next (hnext : s.next_seq < EMPTY) (call : SendCall) :
    (burst_iter cfg s call).next_seq = s.next_seq + 1 := by
  rw [(burst_iter_books cfg s call).2.2.1]
  apply Nat.mod_eq_of_lt
  simp only [EMPTY] at hnext
  omega

/-- A packet that leaves takes its slot, whoever was there. -/
theorem burst_iter_occupied (hnext : s.next_seq < EMPTY) (i : Fin INFLIGHT_MAX) :
    occupied (burst_iter cfg s (.ok b t l)) i ↔ i = inflight_idx s.next_seq ∨ occupied s i := by
  have hslots := (burst_iter_books cfg s (.ok b t l)).1
  have hocc : occupied (burst_iter cfg s (.ok b t l)) i
      ↔ occupied (send_one cfg s s.next_seq (.ok b t l)) i := by
    unfold occupied
    rw [hslots]
  rw [hocc, send_one_occupied]
  by_cases hi : i = inflight_idx s.next_seq
  · simp [hi, hnext.ne]
  · simp [hi]

theorem burst_iter_slot_self : ((burst_iter cfg s (.ok b t l)).inflight
    (inflight_idx s.next_seq)).seq = s.next_seq := by
  rw [(burst_iter_books cfg s (.ok b t l)).1]
  exact (send_one_slot_self b t l).1

theorem burst_iter_slot_of_ne {i : Fin INFLIGHT_MAX} (hi : i ≠ inflight_idx s.next_seq) :
    (burst_iter cfg s (.ok b t l)).inflight i = s.inflight i := by
  rw [(burst_iter_books cfg s (.ok b t l)).1]
  exact send_one_slot_of_ne cfg s _ hi

/-- The packet that leaves is counted. -/
theorem Tracked.burst_count (h : Tracked s) (hnext : s.next_seq < EMPTY) :
    (burst_iter cfg s (.ok b t l)).in_flight_count = s.in_flight_count + 1 := by
  have hown : (s.inflight (inflight_idx s.next_seq)).seq ≠ s.next_seq := by
    intro heq
    have hbelow := h.below (inflight_idx s.next_seq) (by unfold occupied; omega)
    omega
  rw [(burst_iter_books cfg s (.ok b t l)).2.1, send_one_count, if_neg hown]

/-- A `sendto` that fails only uses a number up. -/
theorem tracked_burst_failed (h : Tracked s) (hnext : s.next_seq < EMPTY) :
    Tracked (burst_iter cfg s (.os_error b)) := by
  obtain ⟨-, -, -, hcum⟩ := burst_iter_books cfg s (.os_error b)
  refine ⟨?_, h.slot, ?_, ?_⟩
  · have hcard : (slots_in_use (burst_iter cfg s (.os_error b))).card = (slots_in_use s).card :=
      card_of_same fun _ => Iff.rfl
    rw [hcard]
    exact h.count
  · intro i hi
    rw [hcum]
    exact h.above i hi
  · intro i hi
    rw [burst_iter_next hnext]
    exact lt_trans (h.below i hi) (Nat.lt_succ_self _)

/-- With room for it a packet that leaves goes into the table. -/
theorem tracked_burst_of_room (h : Tracked s) (hnext : s.next_seq < EMPTY)
    (hfree : ¬ occupied s (inflight_idx s.next_seq)) (hgt : s.cum_acked_seq < s.next_seq) :
    Tracked (burst_iter cfg s (.ok b t l)) := by
  have hocc : ∀ i, occupied (burst_iter cfg s (.ok b t l)) i ↔ _ := burst_iter_occupied hnext
  refine ⟨?_, ?_, ?_, ?_⟩
  · -- one slot more is in use, one more is counted
    rw [h.burst_count hnext, h.count, card_of_taken hfree hocc]
    push_cast
    rfl
  · intro i hi
    by_cases heq : i = inflight_idx s.next_seq
    · rw [heq, burst_iter_slot_self]
      rfl
    · rw [burst_iter_slot_of_ne heq]
      exact h.slot i (((hocc i).mp hi).resolve_left heq)
  · intro i hi
    -- the acknowledged number stays; the new one is above it
    rw [(burst_iter_books cfg s _).2.2.2]
    by_cases heq : i = inflight_idx s.next_seq
    · rwa [heq, burst_iter_slot_self]
    · rw [burst_iter_slot_of_ne heq]
      exact h.above i (((hocc i).mp hi).resolve_left heq)
  · intro i hi
    rw [burst_iter_next hnext]
    by_cases heq : i = inflight_idx s.next_seq
    · rw [heq, burst_iter_slot_self]
      exact Nat.lt_succ_self _
    · rw [burst_iter_slot_of_ne heq]
      exact lt_trans (h.below i (((hocc i).mp hi).resolve_left heq)) (Nat.lt_succ_self _)

/-- Without a free slot the packet that was there is written over, and is still counted. -/
theorem room_of_tracked_burst (h : Tracked s) (hnext : s.next_seq < EMPTY)
    (h' : Tracked (burst_iter cfg s (.ok b t l))) :
    ¬ occupied s (inflight_idx s.next_seq) ∧ s.cum_acked_seq < s.next_seq := by
  have hocc : ∀ i, occupied (burst_iter cfg s (.ok b t l)) i ↔ _ := burst_iter_occupied hnext
  constructor
  · intro hused
    have hcard : (slots_in_use (burst_iter cfg s (.ok b t l))).card
        = (slots_in_use s).card := by
      apply card_of_same
      intro i
      rw [hocc]
      refine or_iff_right_of_imp ?_
      rintro rfl
      exact hused
    have hcount := h'.count
    rw [hcard, h.burst_count hnext, h.count] at hcount
    omega
  · have habove := h'.above _ ((hocc _).mpr (Or.inl rfl))
    rwa [(burst_iter_books cfg s _).2.2.2, burst_iter_slot_self] at habove

/-- Any other sequence number: a packet that leaves needs a slot, and a number above the
acknowledged ones. -/
theorem tracked_burst (h : Tracked s) (hnext : s.next_seq < EMPTY) (call : SendCall) :
    Tracked (burst_iter cfg s call) ↔
      (call.sent = true →
        ¬ occupied s (inflight_idx s.next_seq) ∧ s.cum_acked_seq < s.next_seq) := by
  cases call with
  | os_error b => exact iff_of_true (tracked_burst_failed h hnext) fun hs => by cases hs
  | ok b t l =>
      constructor
      · rintro h' -
        exact room_of_tracked_burst h hnext h'
      · intro hroom
        obtain ⟨hfree, hgt⟩ := hroom rfl
        exact tracked_burst_of_room h hnext hfree hgt

/-! ## Acknowledging -/

/-- Clearing takes one off the counter for each slot it empties. -/
theorem clear_range_balance {k : ℤ} {n : ℕ} (hk : 0 ≤ k) (hlt : k + n ≤ EMPTY) :
    (clear_range s k n).in_flight_count + (slots_in_use s).card
      = s.in_flight_count + (slots_in_use (clear_range s k n)).card := by
  induction n generalizing s k with
  | zero => rfl
  | succ n ih =>
      push_cast at hlt
      rw [clear_range_succ hk (by omega)]
      by_cases hfirst : (s.inflight (inflight_idx k.toNat)).seq = k.toNat
      · rw [if_pos hfirst]
        have hrest := ih (s := empty_slot s (inflight_idx k.toNat)) (k := k + 1) (by omega)
          (by omega)
        have hused : occupied s (inflight_idx k.toNat) := by
          unfold occupied
          omega
        -- one slot is emptied and one is taken off the counter
        have hcard : (slots_in_use (empty_slot s (inflight_idx k.toNat))).card + 1
            = (slots_in_use s).card := by
          apply card_of_freed hused
          intro i
          unfold occupied
          by_cases hi : i = inflight_idx k.toNat
          · rw [hi, empty_slot_self]
            simp
          · rw [empty_slot_of_ne s hi]
            simp [hi]
        have hcount : (empty_slot s (inflight_idx k.toNat)).in_flight_count
            = s.in_flight_count - 1 := rfl
        rw [hcount] at hrest
        omega
      · rw [if_neg hfirst]
        exact ih (by omega) (by omega)

/-- The last round of the clearing loop. -/
theorem clear_range_add_one (s : SenderState) (k : ℤ) (n : ℕ) :
    clear_range s k (n + 1) = clear_range (clear_range s k n) (k + n) 1 := by
  induction n generalizing s k with
  | zero =>
      rw [Nat.cast_zero, add_zero]
      rfl
  | succ n ih =>
      refine (ih _ (k + 1)).trans ?_
      rw [show k + 1 + (n : ℤ) = k + (n + 1 : ℕ) by push_cast; ring]
      rfl

/-- The ACK of a packet in flight. -/
theorem tracked_acked (h : Tracked s) (hcum : -1 ≤ s.cum_acked_seq)
    (hused : (s.inflight (inflight_idx seq)).seq = seq) (hseq : seq < EMPTY) :
    Tracked (acked s seq) := by
  have hocc : occupied s (inflight_idx seq) := by
    unfold occupied
    omega
  have hle : s.cum_acked_seq < seq := by
    have habove := h.above _ hocc
    rwa [hused] at habove
  have hn : (((seq : ℤ) - s.cum_acked_seq).toNat : ℤ) = seq - s.cum_acked_seq :=
    Int.toNat_of_nonneg (by omega)
  have hslots : ∀ i, occupied (acked s seq) i ↔ occupied s i ∧ ¬ (s.cum_acked_seq + 1 ≤
      (s.inflight i).seq ∧ ((s.inflight i).seq : ℤ) < s.cum_acked_seq + 1 + _) :=
    clear_range_occupied h.placed (by omega) (by omega)
  -- the counter has gone down by the slots emptied, whatever they held
  have hbalance := clear_range_balance (s := s) (k := s.cum_acked_seq + 1)
    (n := ((seq : ℤ) - s.cum_acked_seq).toNat) (by omega) (by omega)
  have hsame : ∀ i, occupied (acked s seq) i → (acked s seq).inflight i = s.inflight i :=
    fun i hi => (clear_range_slot s _ _ i).resolve_right hi
  refine ⟨?_, ?_, ?_, ?_⟩
  · have hcount := h.count
    show (clear_range s _ _).in_flight_count = ((slots_in_use (clear_range s _ _)).card : ℤ)
    omega
  · intro i hi
    rw [hsame i hi]
    exact h.slot i ((hslots i).mp hi).1
  · -- what is left is above the acknowledged number
    intro i hi
    obtain ⟨hi', hout⟩ := (hslots i).mp hi
    have habove := h.above i hi'
    rw [hsame i hi]
    show (seq : ℤ) < _
    omega
  · intro i hi
    have hnext : (acked s seq).next_seq = s.next_seq := (clear_range_fields s _ _).2.2.2.2.2.2.1
    rw [hsame i hi, hnext]
    exact h.below i ((hslots i).mp hi).1

/-- An ACK of the sentinel whose slot is empty: the counter goes down once too often. -/
theorem not_tracked_acked_sentinel (h : Tracked s) (hcum : -1 ≤ s.cum_acked_seq)
    (hlt : s.cum_acked_seq < EMPTY) (hfree : ¬ occupied s (inflight_idx EMPTY)) :
    ¬ Tracked (acked s EMPTY) := by
  intro h'
  -- everything below the sentinel is cleared in order
  obtain ⟨n, hn⟩ : ∃ n : ℕ, ((EMPTY : ℤ) - s.cum_acked_seq).toNat = n + 1 :=
    ⟨((EMPTY : ℤ) - s.cum_acked_seq).toNat - 1, by omega⟩
  have hend : s.cum_acked_seq + 1 + n = EMPTY := by omega
  have hbalance := clear_range_balance (s := s) (k := s.cum_acked_seq + 1) (n := n) (by omega)
    (by omega)
  -- then its slot is emptied once more
  have hlast : inflight_clear_up_to s EMPTY
      = empty_slot (clear_range s (s.cum_acked_seq + 1) n) (inflight_idx EMPTY) := by
    have hslot : ((clear_range s (s.cum_acked_seq + 1) n).inflight (inflight_idx EMPTY)).seq
        = EMPTY := by
      rcases clear_range_slot s (s.cum_acked_seq + 1) n (inflight_idx EMPTY) with heq | heq
      · rw [heq]
        exact not_not.mp hfree
      · exact heq
    have hmod : ((EMPTY : ℤ) % 2 ^ 32).toNat = EMPTY := by decide
    unfold inflight_clear_up_to
    rw [hn, clear_range_add_one, hend, clear_range, hmod, if_pos hslot]
    rfl
  have hcard : (slots_in_use (acked s EMPTY)).card
      = (slots_in_use (clear_range s (s.cum_acked_seq + 1) n)).card := by
    apply card_of_same
    intro i
    show occupied (inflight_clear_up_to s EMPTY) i ↔ _
    rw [hlast]
    unfold occupied
    by_cases hi : i = inflight_idx EMPTY
    · rw [hi, empty_slot_self]
      refine iff_of_false (fun hne => hne rfl) fun hne => ?_
      rcases clear_range_slot s (s.cum_acked_seq + 1) n (inflight_idx EMPTY) with heq | heq
      · exact hfree (by rwa [heq] at hne)
      · exact hne heq
    · rw [empty_slot_of_ne _ hi]
  have hcount : (acked s EMPTY).in_flight_count
      = (clear_range s (s.cum_acked_seq + 1) n).in_flight_count - 1 := by
    show (inflight_clear_up_to s EMPTY).in_flight_count = _
    rw [hlast]
    rfl
  have hbefore := h.count
  have hafter := h'.count
  rw [hcount, hcard] at hafter
  omega

/-- Where the two ends of the flight are. -/
structure Ends (s : SenderState) : Prop where
  cum_ge : -1 ≤ s.cum_acked_seq
  cum_lt : s.cum_acked_seq < EMPTY
  next_le : s.next_seq ≤ EMPTY

/-- The update of the window does not touch the table. -/
theorem tracked_apply_u (now_mono : Us) (hops : List IntHopHost) :
    Tracked (apply_u cfg now_mono hops s) ↔ Tracked s := by
  obtain ⟨hslots, hcount, hnext, hcum, -⟩ := apply_u_fields cfg now_mono hops s
  exact tracked_congr (fun i => by rw [hslots]) hcount hnext hcum

theorem tracked_ack_thread (h : Tracked s) (he : Ends s) (now_mono : Us) (data : List Byte) :
    Tracked (ack_thread cfg now_mono data s) ↔ NoSentinel s data := by
  cases hd : decode_ack data with
  | none =>
      rw [ack_thread_quiet now_mono hd]
      refine iff_of_true h fun hops hsome => ?_
      rw [hd] at hsome
      cases hsome
  | some r =>
      obtain ⟨seq, hops⟩ := r
      rw [ack_thread_eq now_mono hd]
      by_cases hslot : (s.inflight (inflight_idx seq)).seq = seq
      · rw [on_ack_held now_mono hops hslot, tracked_apply_u]
        -- an empty slot answers to the sentinel
        by_cases hseq : seq = EMPTY
        · subst hseq
          have hfree : ¬ occupied s (inflight_idx EMPTY) := fun hne => hne hslot
          apply iff_of_false
          · exact not_tracked_acked_sentinel h he.cum_ge he.cum_lt hfree
          · exact fun hno => hfree (hno hops hd)
        · have hused : occupied s (inflight_idx seq) := by
            unfold occupied
            rwa [hslot]
          have hbelow := h.below _ hused
          rw [hslot] at hbelow
          refine iff_of_true (tracked_acked h he.cum_ge hslot (lt_of_lt_of_le hbelow he.next_le)) ?_
          intro hops' hsome
          rw [hd, Option.some.injEq, Prod.mk.injEq] at hsome
          exact absurd hsome.1 hseq
      · -- the number is not in its slot: at most the hops are taken in
        rw [on_ack_other now_mono hops hslot]
        apply iff_of_true
        · split
          · exact h
          · exact (tracked_apply_u now_mono hops).mpr h
        · intro hops' hsome
          rw [hd, Option.some.injEq, Prod.mk.injEq] at hsome
          rw [hsome.1] at hslot
          exact hslot

/-- An ACK that is not of the sentinel acknowledges a packet in flight, if any. -/
theorem ends_ack_thread (h : Tracked s) (he : Ends s) {data : List Byte} (hno : NoSentinel s data)
    (now_mono : Us) : Ends (ack_thread cfg now_mono data s) := by
  -- the update touches the window, not the numbers
  have hbooks : ∀ s' hops, Ends s' → Ends (apply_u cfg now_mono hops s') := by
    intro s' hops he'
    obtain ⟨-, -, hnext, hcum, -⟩ := apply_u_fields cfg now_mono hops s'
    exact ⟨by rw [hcum]; exact he'.cum_ge, by rw [hcum]; exact he'.cum_lt,
      by rw [hnext]; exact he'.next_le⟩
  cases hd : decode_ack data with
  | none =>
      rw [ack_thread_quiet now_mono hd]
      exact he
  | some r =>
      obtain ⟨seq, hops⟩ := r
      rw [ack_thread_eq now_mono hd]
      by_cases hslot : (s.inflight (inflight_idx seq)).seq = seq
      · rw [on_ack_held now_mono hops hslot]
        apply hbooks
        -- a slot that holds the number is occupied, unless the number is the sentinel itself
        have hseq : seq ≠ EMPTY := by
          rintro rfl
          exact hno hops hd hslot
        have hbelow := h.below (inflight_idx seq) (by unfold occupied; rwa [hslot])
        have hnext : (acked s seq).next_seq = s.next_seq := (clear_range_fields s _ _).2.2.2.2.2.2.1
        have hle := he.next_le
        refine ⟨?_, ?_, ?_⟩
        · show (-1 : ℤ) ≤ seq
          omega
        · show (seq : ℤ) < EMPTY
          omega
        · rwa [hnext]
      · rw [on_ack_other now_mono hops hslot]
        split
        · exact he
        · exact hbooks s hops he

/-! ## Retransmitting -/

/-- A pass of the RTO check leaves every slot its number. -/
theorem tracked_rto_check (h : Tracked s) {now : Us} (calls : ℕ → SendCall)
    (hf : fired cfg now s = true) : Tracked (rto_check cfg now calls s) := by
  obtain ⟨hslots, hbooks⟩ := rto_check_fired h.placed calls hf
  have hcut : Tracked (rto_cut s) ↔ Tracked s := tracked_congr (fun _ => rfl) rfl rfl rfl
  refine (tracked_congr (fun i => ?_) hbooks.in_flight_count hbooks.next_seq
    hbooks.cum_acked_seq).mpr (hcut.mpr h)
  rw [hslots, resent_seq]
  rfl

/-! ## A run -/

variable {mp : ℤ} {p p' : Proc}

/-- The sequence numbers are `uint32_t`s. -/
structure Words (s : SenderState) : Prop where
  placed : Placed s
  next_lt : s.next_seq < 2 ^ 32
  slots_lt : ∀ i, (s.inflight i).seq < 2 ^ 32

theorem Words.cleared {s' : SenderState} (h : Words s) (hc : Cleared s s')
    (hnext : s'.next_seq = s.next_seq) : Words s' := by
  refine ⟨hc.placed h.placed, by rw [hnext]; exact h.next_lt, fun i => ?_⟩
  rcases hc i with hsame | hempty
  · rw [hsame]
    exact h.slots_lt i
  · rw [not_not.mp hempty]
    decide

theorem words_burst_iter (cfg : Config) (h : Words s) (call : SendCall) :
    Words (burst_iter cfg s call) := by
  obtain ⟨hslots, -, hnext, -⟩ := burst_iter_books cfg s call
  refine ⟨placed_send_one cfg h.placed call, ?_, fun i => ?_⟩
  · rw [hnext]
    exact Nat.mod_lt _ (by norm_num)
  · rw [hslots]
    by_cases hi : i = inflight_idx s.next_seq
    · cases call with
      | os_error b => exact h.slots_lt i
      | ok b t l =>
          rw [hi, (send_one_slot_self b t l).1]
          exact h.next_lt
    · rw [send_one_slot_of_ne cfg s call hi]
      exact h.slots_lt i

theorem words_step {op : Op} (h : Words p.self) (hstep : step cfg mp op p = some p') :
    Words p'.self := by
  rcases step_self hstep with heq | ⟨call, -, heq⟩ | ⟨data, now_mono, -, heq⟩ |
    ⟨now, calls, -, hf, heq⟩
  · rw [heq]
    exact h
  · rw [heq]
    exact words_burst_iter cfg h call
  · rw [heq]
    -- an ACK empties slots and changes no number in the others
    refine h.cleared (cleared_ack_thread cfg now_mono data p.self) ?_
    rcases ack_thread_cases cfg now_mono data p.self with hq | ⟨seq, hops, -, hq | hq⟩
    · rw [hq]
    · rw [hq, (apply_u_fields cfg now_mono hops _).2.2.1]
    · rw [hq, (apply_u_fields cfg now_mono hops _).2.2.1]
      exact (clear_range_fields p.self _ _).2.2.2.2.2.2.1
  · obtain ⟨hslots, hbooks⟩ := rto_check_fired h.placed calls hf
    rw [heq]
    -- a resend leaves a slot its number
    refine ⟨placed_rto_check h.placed now calls, ?_, fun i => ?_⟩
    · rw [hbooks.next_seq]
      exact h.next_lt
    · rw [hslots, resent_seq]
      exact h.slots_lt i

theorem words_run {now_mono : Us} {ops : List Op}
    (hrun : run (step cfg mp) (start cfg now_mono) ops = some p) : Words p.self :=
  run_invariant (P := fun q => Words q.self) (fun _ _ _ h hstep => words_step h hstep)
    ⟨placed_start cfg now_mono, show 0 < 2 ^ 32 by decide, fun _ => show EMPTY < 2 ^ 32 by decide⟩
    hrun

/-- What one event does to a table in order: it stays in order exactly if the event is as
`Keeps` says. -/
theorem tracked_step (h : Tracked p.self) (he : Ends p.self) {op : Op}
    (hstep : step cfg mp op p = some p') : Tracked p'.self ↔ Keeps p op p' := by
  cases op with
  | acquire =>
      obtain ⟨-, rfl⟩ := step_acquire.mp hstep
      exact iff_of_true h trivial
  | send call =>
      obtain ⟨w, -, -, rfl⟩ := step_send.mp hstep
      show Tracked (burst_iter cfg p.self call) ↔ Room p.self call
      unfold Room
      -- the sentinel as a number would leave its slot looking free
      by_cases hseq : p.self.next_seq = EMPTY
      · rw [if_pos hseq]
        exact tracked_burst_sentinel h hseq call
      · rw [if_neg hseq]
        exact tracked_burst h (lt_of_le_of_ne he.next_le hseq) call
  | release =>
      obtain ⟨w, -, -, rfl⟩ := step_release.mp hstep
      exact iff_of_true h trivial
  | datagram data now_mono =>
      obtain ⟨-, rfl⟩ := step_datagram.mp hstep
      exact tracked_ack_thread h he now_mono data
  | rto now calls =>
      obtain ⟨-, hp⟩ := step_rto.mp hstep
      have hself : p'.self = rto_check cfg now calls p.self := by rw [hp]
      refine iff_of_true ?_ trivial
      rw [hself]
      -- only a pass that fires touches the table
      by_cases hf : fired cfg now p.self = true
      · exact tracked_rto_check h calls hf
      · rw [rto_check_quiet calls hf]
        exact h

/-- As long as the table is in order, its ends are where they should be. -/
theorem ends_step (h : Tracked p.self) (he : Ends p.self) (h' : Tracked p'.self) {op : Op}
    (hstep : step cfg mp op p = some p') : Ends p'.self := by
  rcases step_self hstep with heq | ⟨call, -, heq⟩ | ⟨data, now_mono, rfl, heq⟩ |
    ⟨now, calls, -, hf, heq⟩
  · rw [heq]
    exact he
  · obtain ⟨-, -, hnext, hcum⟩ := burst_iter_books cfg p.self call
    rw [heq]
    refine ⟨by rw [hcum]; exact he.cum_ge, by rw [hcum]; exact he.cum_lt, ?_⟩
    have hlt := Nat.mod_lt (p.self.next_seq + 1) (show 0 < 2 ^ 32 by norm_num)
    rw [hnext]
    exact Nat.le_pred_of_lt hlt
  · have hno : NoSentinel p.self data := (tracked_step h he hstep).mp h'
    rw [heq]
    exact ends_ack_thread h he hno now_mono
  · obtain ⟨-, hbooks⟩ := rto_check_fired h.placed calls hf
    rw [heq]
    exact ⟨by rw [hbooks.cum_acked_seq]; exact he.cum_ge,
      by rw [hbooks.cum_acked_seq]; exact he.cum_lt, by rw [hbooks.next_seq]; exact he.next_le⟩

theorem tracked_start (cfg : Config) (now_mono : Us) : Tracked (start cfg now_mono).self := by
  have hnone : ∀ i, ¬ occupied (start cfg now_mono).self i := fun i hi => hi rfl
  refine ⟨?_, fun i hi => absurd hi (hnone i), fun i hi => absurd hi (hnone i),
    fun i hi => absurd hi (hnone i)⟩
  rw [card_eq_zero_iff.mpr hnone]
  rfl

theorem ends_start (cfg : Config) (now_mono : Us) : Ends (start cfg now_mono).self :=
  ⟨le_refl _, by show (-1 : ℤ) < EMPTY; decide, Nat.zero_le _⟩

/-- **The in-flight table.** It is in order in every state of a run exactly if every
packet that leaves finds its slot free and its number above the acknowledged ones, no ACK of the
sentinel finds the sentinel's slot empty, and nothing is in flight when the numbers
start again. -/
theorem in_flight_table (cfg : Config) (mp : ℤ) (now_mono : Us) {ops : List Op} {p : Proc}
    (hrun : run (step cfg mp) (start cfg now_mono) ops = some p) :
    AlwaysIn (step cfg mp) (fun q => Tracked q.self) (start cfg now_mono) ops ↔
      EachStep (step cfg mp) Keeps (start cfg now_mono) ops :=
  always_iff_each_while (I := fun q => Ends q.self)
    (fun _ _ _ he h h' hstep => ends_step h he h' hstep)
    (fun _ _ _ he h hstep => tracked_step h he hstep)
    (ends_start cfg now_mono) (tracked_start cfg now_mono) hrun

end

/-! ## Two runs -/

def table_config : Config where
  w_init := 8
  w_max := 64
  eta := 99 / 100
  w_ai := 3
  tau_over_t := 1 / 20
  padding := 0
  base_rtt_s := 1 / 200
  rto_us := (exact_rto_us (1 / 200)).of_eq (rto_s_eq _).symm

/-- An ACK packet without hops that acknowledges `0xFFFFFFFF`. -/
def sentinel_ack : List Byte :=
  [0, 0, 4, 0] ++ be 4 EMPTY ++ List.replicate (ACK_PAYLOAD_SIZE - 4) 0

theorem decode_sentinel_ack : decode_ack sentinel_ack = some (EMPTY, []) := rfl

/-- Before anything is sent, such an ACK takes the counter below 0. -/
theorem in_flight_table_fails :
    ¬ ∀ (cfg : Config) (mp : ℤ) (now_mono : Us) (ops : List Op) (p : Proc),
      cfg.w_init ≤ INFLIGHT_MAX → cfg.w_max ≤ INFLIGHT_MAX →
      run (step cfg mp) (start cfg now_mono) ops = some p → Tracked p.self := by
  intro h
  have hstep : step table_config (-1) (.datagram sentinel_ack 0) (start table_config 0) = some _ :=
    step_datagram.mpr ⟨rfl, rfl⟩
  have htracked := h table_config (-1) 0 [.datagram sentinel_ack 0] _
    (by norm_num [table_config, INFLIGHT_MAX]) (by norm_num [table_config, INFLIGHT_MAX])
    ((run_cons_eq_some _).mpr ⟨_, hstep, rfl⟩)
  have hkeeps := (tracked_step (tracked_start table_config 0) (ends_start table_config 0)
    hstep).mp htracked
  exact hkeeps [] decode_sentinel_ack rfl

/-- Four packets are sent, and the first is acknowledged. -/
def three_waiting : List Op :=
  [.acquire] ++ [.send sent_at_zero] ++ [.send sent_at_zero] ++ [.send sent_at_zero] ++
    [.send sent_at_zero] ++ [.release] ++ [.datagram (bare_ack 0 0) zero_us]

/-- The next number, the last one acknowledged, and what is in the next number's slot. -/
def room_at (p : Proc) : ℕ × ℤ × ℕ :=
  (p.self.next_seq, p.self.cum_acked_seq, (p.self.inflight (inflight_idx p.self.next_seq)).seq)

theorem three_waiting_room :
    (run (step table_config 4) (start table_config 0) [.acquire]).map room_at
      = some (0, -1, EMPTY) ∧
    (run (step table_config 4) (start table_config 0)
      ([.acquire] ++ [.send sent_at_zero])).map room_at = some (1, -1, EMPTY) ∧
    (run (step table_config 4) (start table_config 0)
      ([.acquire] ++ [.send sent_at_zero] ++ [.send sent_at_zero])).map room_at
        = some (2, -1, EMPTY) ∧
    (run (step table_config 4) (start table_config 0)
      ([.acquire] ++ [.send sent_at_zero] ++ [.send sent_at_zero] ++ [.send sent_at_zero])).map
        room_at = some (3, -1, EMPTY) := by
  decide +kernel

/-- Packets 1 to 3 are left, in their slots since 0. -/
theorem three_waiting_state :
    (run (step table_config 4) (start table_config 0) three_waiting).map (fun p =>
      ((p.w_int, p.self.next_seq, p.self.cum_acked_seq, p.self.in_flight_count),
        [1, 2, 3].map fun q => (p.self.inflight (inflight_idx q)).seq,
        (p.self.inflight (inflight_idx 1)).send_ts_us))
      = some ((none, 4, 0, 3), [1, 2, 3], 0) := by
  decide +kernel

theorem room_of_state {p q : Proc} {n : ℕ} (hn : n < EMPTY)
    (h : room_at p = (n, -1, EMPTY)) : Keeps p (.send sent_at_zero) q := by
  simp only [room_at, Prod.mk.injEq] at h
  obtain ⟨hnext, hcum, hslot⟩ := h
  show Room p.self sent_at_zero
  unfold Room
  rw [if_neg (by omega), hcum]
  exact fun _ => ⟨fun hocc => hocc hslot, by omega⟩

theorem three_waiting_keeps :
    EachStep (step table_config 4) Keeps (start table_config 0) three_waiting := by
  obtain ⟨h₀, h₁, h₂, h₃⟩ := three_waiting_room
  refine ((((((eachStep_nil.snoc ?_).snoc ?_).snoc ?_).snoc ?_).snoc ?_).snoc ?_).snoc ?_
  · exact fun _ _ _ _ => trivial
  · exact fun p q hrun _ => room_of_state (by decide) (shown_of_run h₀ hrun)
  · exact fun p q hrun _ => room_of_state (by decide) (shown_of_run h₁ hrun)
  · exact fun p q hrun _ => room_of_state (by decide) (shown_of_run h₂ hrun)
  · exact fun p q hrun _ => room_of_state (by decide) (shown_of_run h₃ hrun)
  · exact fun _ _ _ _ => trivial
  · -- the ACK is not the sentinel's
    intro p q _ _ hops hdec
    have hseq : decode_ack (bare_ack 0 0) = some (0, []) := rfl
    rw [hseq] at hdec
    cases hdec

theorem three_waiting_tracked {p : Proc}
    (hrun : run (step table_config 4) (start table_config 0) three_waiting = some p) :
    Tracked p.self :=
  (run_invariant_of_each (P := fun q => Tracked q.self ∧ Ends q.self)
    (fun _ _ _ h hstep hk =>
      have htracked := (tracked_step h.1 h.2 hstep).mpr hk
      ⟨htracked, ends_step h.1 h.2 htracked hstep⟩)
    ⟨tracked_start table_config 0, ends_start table_config 0⟩ three_waiting_keeps hrun).1

/-- After a second they have timed out: the pass resends all three. -/
theorem three_waiting_fires {p : Proc}
    (hrun : run (step table_config 4) (start table_config 0) three_waiting = some p) :
    fired table_config (at_us 1000000) p.self = true := by
  have hstate := shown_of_run three_waiting_state hrun
  simp only [Prod.mk.injEq, List.map_cons, List.cons.injEq] at hstate
  obtain ⟨-, ⟨hseq, -⟩, hts⟩ := hstate
  refine fired_iff.mpr ⟨inflight_idx 1, ?_, ?_⟩
  · unfold occupied
    rw [hseq]
    decide
  · rw [hts]
    decide +kernel

/-- The table stays in order through the sends, the ACK and the timeout of what is left. -/
theorem in_flight_table_timeout :
    (∃ p, run (step table_config 4) (start table_config 0) three_waiting = some p ∧
      fired table_config (at_us 1000000) p.self = true) ∧
    AlwaysIn (step table_config 4) (fun q => Tracked q.self) (start table_config 0)
      (three_waiting ++ [.rto (at_us 1000000) fun _ => sent_at 1000000]) := by
  obtain ⟨p, hrun, hstate⟩ := Option.map_eq_some_iff.mp three_waiting_state
  refine ⟨⟨p, hrun, three_waiting_fires hrun⟩, ?_⟩
  have hpass : step table_config 4 (.rto (at_us 1000000) fun _ => sent_at 1000000) p = some _ :=
    step_rto.mpr ⟨congrArg (fun x => x.1.1) hstate, rfl⟩
  refine (in_flight_table table_config 4 0
    ((run_append_eq_some _).mpr ⟨p, hrun, (run_cons_eq_some _).mpr ⟨_, hpass, rfl⟩⟩)).mpr ?_
  exact three_waiting_keeps.snoc fun _ _ _ _ => trivial

end IntHpcc.CSender
