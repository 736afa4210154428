/-
The in-flight slots of the C sender, and what one event can do to it.

A slot that is not empty holds a number that belongs in it (`Placed`). Under that
invariant the retransmission loop is what it looks like: every packet in flight gets a
new time stamp if its `sendto` succeeds, and nothing else changes (`rto_check_fired`).
`AllSlots` is the shape of the other invariants: a property of each packet in flight and
its time stamp.
-/
import IntHpcc.CSender
import IntHpcc.Runs
import Mathlib.Data.List.FinRange

set_option autoImplicit false

namespace IntHpcc.CSender

open IntHpcc.Runs IntHpcc.Bytes IntHpcc.Py IntHpcc.PacketFormat IntHpcc.SenderCore

/-! ## Slots -/

/-- Slot `i` holds a packet in flight. -/
def occupied (s : SenderState) (i : Fin INFLIGHT_MAX) : Prop := (s.inflight i).seq ≠ EMPTY

/-- Every packet in flight is in its slot. -/
def Placed (s : SenderState) : Prop := ∀ i, occupied s i → inflight_idx (s.inflight i).seq = i

/-- Every packet in flight and its time stamp satisfy `Q`. -/
def AllSlots (Q : ℕ → Us → Prop) (s : SenderState) : Prop :=
  ∀ i, occupied s i → Q (s.inflight i).seq (s.inflight i).send_ts_us

@[simp] theorem set_slot_self (s : SenderState) (i : Fin INFLIGHT_MAX) (e : InflightEntry) :
    (set_slot s i e).inflight i = e := Function.update_self _ _ _

theorem set_slot_of_ne (s : SenderState) {i j : Fin INFLIGHT_MAX} (e : InflightEntry)
    (h : j ≠ i) : (set_slot s i e).inflight j = s.inflight j := Function.update_of_ne h _ _

theorem inflight_get_eq_some {s : SenderState} {seq : ℕ} {e : InflightEntry} :
    inflight_get s seq = some e ↔ s.inflight (inflight_idx seq) = e ∧ e.seq = seq := by
  unfold inflight_get
  by_cases h : (s.inflight (inflight_idx seq)).seq = seq
  · rw [if_pos h, Option.some.injEq]
    constructor
    · rintro rfl
      exact ⟨rfl, h⟩
    · rintro ⟨heq, -⟩
      exact heq
  · rw [if_neg h]
    constructor
    · intro h'
      cases h'
    · rintro ⟨rfl, hseq⟩
      exact absurd hseq h

theorem inflight_get_eq_none {s : SenderState} {seq : ℕ} :
    inflight_get s seq = none ↔ (s.inflight (inflight_idx seq)).seq ≠ seq := by
  unfold inflight_get
  by_cases h : (s.inflight (inflight_idx seq)).seq = seq
  · rw [if_pos h]
    exact iff_of_false (fun h' => by cases h') (fun h' => h' h)
  · rw [if_neg h]
    exact iff_of_true rfl h

/-! ## Sending -/

section

variable {cfg : Config} {s : SenderState} {seq : ℕ}

/-- The fields a send leaves alone. -/
theorem send_one_fields (cfg : Config) (s : SenderState) (seq : ℕ) (call : SendCall) :
    (send_one cfg s seq call).w = s.w ∧ (send_one cfg s seq call).w_ref = s.w_ref ∧
      (send_one cfg s seq call).incarnation = s.incarnation ∧
      (send_one cfg s seq call).u_smoothed = s.u_smoothed ∧
      (send_one cfg s seq call).last_update_seq = s.last_update_seq ∧
      (send_one cfg s seq call).last_update_us = s.last_update_us ∧
      (send_one cfg s seq call).next_seq = s.next_seq ∧
      (send_one cfg s seq call).cum_acked_seq = s.cum_acked_seq ∧
      (send_one cfg s seq call).hops = s.hops := by
  cases call with
  | os_error b => exact ⟨rfl, rfl, rfl, rfl, rfl, rfl, rfl, rfl, rfl⟩
  | ok b t l =>
      unfold send_one
      dsimp only
      split
      · exact ⟨rfl, rfl, rfl, rfl, rfl, rfl, rfl, rfl, rfl⟩
      · exact ⟨rfl, rfl, rfl, rfl, rfl, rfl, rfl, rfl, rfl⟩

/-- Another slot is untouched. -/
theorem send_one_slot_of_ne (cfg : Config) (s : SenderState) (call : SendCall)
    {i : Fin INFLIGHT_MAX} (h : i ≠ inflight_idx seq) :
    (send_one cfg s seq call).inflight i = s.inflight i := by
  cases call with
  | os_error b => rfl
  | ok b t l =>
      unfold send_one
      dsimp only
      split
      · exact set_slot_of_ne _ _ h
      · exact set_slot_of_ne _ _ h

/-- The slot of the packet, after a send that went through. -/
theorem send_one_slot_self (b t l : Us) :
    ((send_one cfg s seq (.ok b t l)).inflight (inflight_idx seq)).seq = seq ∧
      ((send_one cfg s seq (.ok b t l)).inflight (inflight_idx seq)).send_ts_us = t := by
  unfold send_one
  dsimp only
  split
  · next e he =>
    have hseq : e.seq = seq := (inflight_get_eq_some.mp he).2
    rw [set_slot_self]
    exact ⟨hseq, rfl⟩
  · unfold inflight_insert
    dsimp only
    rw [set_slot_self]
    exact ⟨rfl, rfl⟩

/-- The datagrams sent, after a send that went through. -/
theorem send_one_sent (cfg : Config) (s : SenderState) (seq : ℕ) (b t l : Us) :
    (send_one cfg s seq (.ok b t l)).sent = s.sent ++ [data_packet_pack seq b cfg.padding] := by
  unfold send_one
  dsimp only
  split
  · rfl
  · rfl

theorem placed_send_one (cfg : Config) (h : Placed s) (call : SendCall) :
    Placed (send_one cfg s seq call) := by
  intro i hi
  cases call with
  | os_error b => exact h i hi
  | ok b t l =>
      by_cases heq : i = inflight_idx seq
      · rw [heq, (send_one_slot_self b t l).1]
      · have hsame := send_one_slot_of_ne cfg s (.ok b t l) heq
        unfold occupied at hi
        rw [hsame] at hi ⊢
        exact h i hi

theorem allSlots_send_one (cfg : Config) {Q : ℕ → Us → Prop} (h : AllSlots Q s) {call : SendCall}
    (hnew : ∀ b t l, call = .ok b t l → Q seq t) : AllSlots Q (send_one cfg s seq call) := by
  intro i hi
  cases call with
  | os_error b => exact h i hi
  | ok b t l =>
      by_cases heq : i = inflight_idx seq
      · rw [heq, (send_one_slot_self b t l).1, (send_one_slot_self b t l).2]
        exact hnew b t l rfl
      · have hsame := send_one_slot_of_ne cfg s (.ok b t l) heq
        unfold occupied at hi
        rw [hsame] at hi ⊢
        exact h i hi

/-! ## Clearing -/

theorem clear_range_fields (s : SenderState) (k : ℤ) (n : ℕ) :
    (clear_range s k n).w = s.w ∧ (clear_range s k n).w_ref = s.w_ref ∧
      (clear_range s k n).incarnation = s.incarnation ∧
      (clear_range s k n).u_smoothed = s.u_smoothed ∧
      (clear_range s k n).last_update_seq = s.last_update_seq ∧
      (clear_range s k n).last_update_us = s.last_update_us ∧
      (clear_range s k n).next_seq = s.next_seq ∧
      (clear_range s k n).hops = s.hops ∧ (clear_range s k n).sent = s.sent := by
  induction n generalizing s k with
  | zero => exact ⟨rfl, rfl, rfl, rfl, rfl, rfl, rfl, rfl, rfl⟩
  | succ n ih =>
      unfold clear_range
      dsimp only
      split
      · exact ih _ _
      · exact ih _ _

theorem empty_slot_self (s : SenderState) (i : Fin INFLIGHT_MAX) :
    ((empty_slot s i).inflight i).seq = EMPTY := by
  show ((set_slot s i _).inflight i).seq = EMPTY
  rw [set_slot_self]

theorem empty_slot_of_ne (s : SenderState) {i j : Fin INFLIGHT_MAX} (h : j ≠ i) :
    (empty_slot s i).inflight j = s.inflight j := set_slot_of_ne s _ h

/-- Clearing leaves a slot as it is or empties it. -/
theorem clear_range_slot (s : SenderState) (k : ℤ) (n : ℕ) (i : Fin INFLIGHT_MAX) :
    (clear_range s k n).inflight i = s.inflight i ∨
      ((clear_range s k n).inflight i).seq = EMPTY := by
  induction n generalizing s k with
  | zero => exact Or.inl rfl
  | succ n ih =>
      unfold clear_range
      dsimp only
      split
      · rcases ih (empty_slot s (inflight_idx (k % 2 ^ 32).toNat)) (k + 1) with h | h
        · rw [h]
          by_cases heq : i = inflight_idx (k % 2 ^ 32).toNat
          · rw [heq]
            exact Or.inr (empty_slot_self s _)
          · exact Or.inl (empty_slot_of_ne s heq)
        · exact Or.inr h
      · exact ih s (k + 1)

/-- Every slot is as it was, or empty: all that acknowledging does to the slots. -/
def Cleared (s s' : SenderState) : Prop :=
  ∀ i, s'.inflight i = s.inflight i ∨ ¬ occupied s' i

theorem cleared_clear_range (s : SenderState) (k : ℤ) (n : ℕ) : Cleared s (clear_range s k n) :=
  fun i => (clear_range_slot s k n i).imp_right not_not.mpr

theorem Cleared.placed {s' : SenderState} (hc : Cleared s s') (h : Placed s) : Placed s' := by
  intro i hi
  have hsame := (hc i).resolve_right (not_not.mpr hi)
  unfold occupied at hi
  rw [hsame] at hi ⊢
  exact h i hi

theorem Cleared.allSlots {s' : SenderState} {Q : ℕ → Us → Prop} (hc : Cleared s s')
    (h : AllSlots Q s) : AllSlots Q s' := by
  intro i hi
  have hsame := (hc i).resolve_right (not_not.mpr hi)
  unfold occupied at hi
  rw [hsame] at hi ⊢
  exact h i hi

/-- What one round of the clearing loop looks at, for a number that is not the sentinel. -/
theorem clear_range_succ {k : ℤ} (hk : 0 ≤ k) (hlt : k < EMPTY) (s : SenderState) (n : ℕ) :
    clear_range s k (n + 1) =
      clear_range (if (s.inflight (inflight_idx k.toNat)).seq = k.toNat
        then empty_slot s (inflight_idx k.toNat) else s) (k + 1) n := by
  have hmod : (k % 2 ^ 32).toNat = k.toNat := by
    rw [Int.emod_eq_of_lt hk (by simp only [EMPTY] at hlt; omega)]
  rw [clear_range, hmod]

/-- **Clearing**: the packets of the range leave their slots, the others stay. -/
theorem clear_range_occupied (h : Placed s) {k : ℤ} {n : ℕ} (hk : 0 ≤ k) (hlt : k + n ≤ EMPTY)
    (i : Fin INFLIGHT_MAX) : occupied (clear_range s k n) i ↔
      occupied s i ∧ ¬ (k ≤ (s.inflight i).seq ∧ ((s.inflight i).seq : ℤ) < k + n) := by
  induction n generalizing s k with
  | zero =>
      rw [clear_range, and_iff_left]
      push_cast
      omega
  | succ n ih =>
      push_cast at hlt
      rw [clear_range_succ hk (by omega)]
      by_cases hfirst : (s.inflight (inflight_idx k.toNat)).seq = k.toNat
      · rw [if_pos hfirst]
        have hplaced : Placed (empty_slot s (inflight_idx k.toNat)) := by
          have hclear := (cleared_clear_range s k 1).placed h
          rwa [clear_range_succ hk (by omega), clear_range, if_pos hfirst] at hclear
        rw [ih hplaced (by omega) (by omega)]
        by_cases hi : i = inflight_idx k.toNat
        · -- the slot that has just been emptied
          rw [hi]
          apply iff_of_false
          · rintro ⟨hne, -⟩
            exact hne (empty_slot_self s _)
          · rintro ⟨-, hout⟩
            rw [hfirst] at hout
            push_cast at hout
            omega
        · unfold occupied
          rw [empty_slot_of_ne s hi]
          apply and_congr_right
          intro hne
          -- no other slot holds the first number
          have hother : (s.inflight i).seq ≠ k.toNat := by
            intro heq
            exact hi (by rw [← h i hne, heq])
          push_cast
          omega
      · rw [if_neg hfirst, ih h (by omega) (by omega)]
        apply and_congr_right
        intro hne
        have hother : (s.inflight i).seq ≠ k.toNat := by
          intro heq
          apply hfirst
          rw [← heq, h i hne]
        push_cast
        omega

/-- Clearing packets that are all in flight takes one off the counter for each. -/
theorem clear_range_count {k : ℤ} {n : ℕ} (hk : 0 ≤ k) (hlt : k + n ≤ EMPTY)
    (hin : ∀ q : ℕ, k ≤ q → (q : ℤ) < k + n → (s.inflight (inflight_idx q)).seq = q) :
    (clear_range s k n).in_flight_count = s.in_flight_count - n := by
  induction n generalizing s k with
  | zero => simp [clear_range]
  | succ n ih =>
      push_cast at hlt hin
      -- the first slot holds its number, so emptying it counts
      have hfirst : (s.inflight (inflight_idx k.toNat)).seq = k.toNat :=
        hin k.toNat (by omega) (by omega)
      -- the others are in other slots and are left for the rest of the loop
      have hrest : ∀ q : ℕ, k + 1 ≤ q → (q : ℤ) < k + 1 + n →
          ((empty_slot s (inflight_idx k.toNat)).inflight (inflight_idx q)).seq = q := by
        intro q hq hq'
        have hqin := hin q (by omega) (by omega)
        rw [empty_slot_of_ne s ?_, hqin]
        intro heq
        rw [heq, hfirst] at hqin
        omega
      rw [clear_range_succ hk (by omega), if_pos hfirst, ih (by omega) (by omega) hrest]
      show s.in_flight_count - 1 - (n : ℤ) = _
      push_cast
      ring

/-! ## The RTO check -/

/-- A slot after its packet has been sent again. -/
def resent (calls : ℕ → SendCall) (e : InflightEntry) : InflightEntry :=
  if e.seq = EMPTY then e
  else
    match calls e.seq with
    | .ok _ t _ => { e with send_ts_us := t, rtx := e.rtx + 1 }
    | .os_error _ => e

@[simp] theorem resent_seq (calls : ℕ → SendCall) (e : InflightEntry) :
    (resent calls e).seq = e.seq := by
  unfold resent
  by_cases h : e.seq = EMPTY
  · rw [if_pos h]
  · rw [if_neg h]
    cases calls e.seq with
    | ok b t l => rfl
    | os_error b => rfl

theorem resent_ts {calls : ℕ → SendCall} {e : InflightEntry} {b t l : Us}
    (hne : e.seq ≠ EMPTY) (h : calls e.seq = .ok b t l) : (resent calls e).send_ts_us = t := by
  unfold resent
  rw [if_neg hne, h]

/-- Everything but the slots and the datagrams sent is as in `s`. -/
structure SameBooks (s s' : SenderState) : Prop where
  w : s'.w = s.w
  w_ref : s'.w_ref = s.w_ref
  incarnation : s'.incarnation = s.incarnation
  u_smoothed : s'.u_smoothed = s.u_smoothed
  last_update_seq : s'.last_update_seq = s.last_update_seq
  last_update_us : s'.last_update_us = s.last_update_us
  in_flight_count : s'.in_flight_count = s.in_flight_count
  next_seq : s'.next_seq = s.next_seq
  cum_acked_seq : s'.cum_acked_seq = s.cum_acked_seq
  hops : s'.hops = s.hops

theorem SameBooks.refl (s : SenderState) : SameBooks s s :=
  ⟨rfl, rfl, rfl, rfl, rfl, rfl, rfl, rfl, rfl, rfl⟩

theorem SameBooks.trans {s₁ s₂ s₃ : SenderState} (h : SameBooks s₁ s₂) (h' : SameBooks s₂ s₃) :
    SameBooks s₁ s₃ :=
  ⟨h'.w.trans h.w, h'.w_ref.trans h.w_ref, h'.incarnation.trans h.incarnation,
    h'.u_smoothed.trans h.u_smoothed, h'.last_update_seq.trans h.last_update_seq,
    h'.last_update_us.trans h.last_update_us, h'.in_flight_count.trans h.in_flight_count,
    h'.next_seq.trans h.next_seq, h'.cum_acked_seq.trans h.cum_acked_seq, h'.hops.trans h.hops⟩

/-- One round of the retransmission loop: the packet of the slot, if there is one, is
found in the slot. -/
theorem resend_slot_spec (cfg : Config) (h : Placed s) (calls : ℕ → SendCall)
    (i : Fin INFLIGHT_MAX) :
    (resend_slot cfg calls s i).inflight
        = Function.update s.inflight i (resent calls (s.inflight i)) ∧
      SameBooks s (resend_slot cfg calls s i) := by
  unfold resend_slot resent
  by_cases he : (s.inflight i).seq = EMPTY
  · rw [if_pos he, if_pos he]
    exact ⟨(Function.update_eq_self i s.inflight).symm, SameBooks.refl s⟩
  · rw [if_neg he, if_neg he]
    cases hc : calls (s.inflight i).seq with
    | os_error b => exact ⟨(Function.update_eq_self i s.inflight).symm, SameBooks.refl s⟩
    | ok b t l =>
        -- `send_one` finds the slot by its number, which is its own
        have hidx : inflight_idx (s.inflight i).seq = i := h i he
        have hget : ∀ snt, inflight_get { s with sent := snt } (s.inflight i).seq
            = some (s.inflight i) := by
          intro snt
          rw [inflight_get_eq_some]
          exact ⟨congrArg s.inflight hidx, rfl⟩
        unfold send_one
        dsimp only
        rw [hget]
        dsimp only
        rw [hidx]
        exact ⟨rfl, ⟨rfl, rfl, rfl, rfl, rfl, rfl, rfl, rfl, rfl, rfl⟩⟩

theorem placed_of_resent (h : Placed s) {s' : SenderState} {calls : ℕ → SendCall}
    {i : Fin INFLIGHT_MAX}
    (hs : s'.inflight = Function.update s.inflight i (resent calls (s.inflight i))) :
    Placed s' := by
  intro j hj
  unfold occupied at hj
  rw [hs] at hj ⊢
  by_cases hji : j = i
  · rw [hji, Function.update_self, resent_seq] at hj ⊢
    exact h i hj
  · rw [Function.update_of_ne hji] at hj ⊢
    exact h j hj

/-- The loop over the slots of `l`. -/
theorem resend_loop_spec (cfg : Config) (calls : ℕ → SendCall)
    {l : List (Fin INFLIGHT_MAX)} (hl : l.Nodup) (h : Placed s) :
    (∀ i, (l.foldl (resend_slot cfg calls) s).inflight i
        = if i ∈ l then resent calls (s.inflight i) else s.inflight i) ∧
      SameBooks s (l.foldl (resend_slot cfg calls) s) := by
  induction l generalizing s with
  | nil =>
      refine ⟨fun i => ?_, SameBooks.refl s⟩
      rw [if_neg List.not_mem_nil]
      rfl
  | cons j l ih =>
      obtain ⟨hj, hl⟩ := List.nodup_cons.mp hl
      obtain ⟨hslot, hbooks⟩ := resend_slot_spec cfg h calls j
      obtain ⟨hrest, hbooks'⟩ := ih hl (placed_of_resent h hslot)
      refine ⟨fun i => ?_, hbooks.trans hbooks'⟩
      rw [List.foldl_cons, hrest, hslot]
      by_cases hij : i = j
      · -- each slot is visited once: what the visit left stays
        rw [hij, if_neg hj, Function.update_self, if_pos List.mem_cons_self]
      · rw [Function.update_of_ne hij]
        by_cases hi : i ∈ l
        · rw [if_pos hi, if_pos (List.mem_cons_of_mem _ hi)]
        · rw [if_neg hi, if_neg (by simp [hij, hi])]

/-- An RTO check that fires: the cut, and a new time stamp for every packet whose `sendto`
succeeds. -/
theorem rto_check_fired (h : Placed s) {now : Us} (calls : ℕ → SendCall)
    (hf : fired cfg now s = true) :
    (∀ i, (rto_check cfg now calls s).inflight i = resent calls (s.inflight i)) ∧
      SameBooks (rto_cut s) (rto_check cfg now calls s) := by
  have hcut : Placed (rto_cut s) := h
  obtain ⟨hslots, hbooks⟩ :=
    resend_loop_spec cfg calls (List.nodup_finRange INFLIGHT_MAX) hcut
  unfold rto_check
  rw [if_pos hf]
  refine ⟨fun i => ?_, hbooks⟩
  rw [hslots i, if_pos (List.mem_finRange i)]
  rfl

/-- A datagram that goes out for slot `i` when its packet is sent again. -/
def Resends (cfg : Config) (calls : ℕ → SendCall) (s : SenderState) (data : List Byte)
    (i : Fin INFLIGHT_MAX) : Prop :=
  occupied s i ∧ ∃ b t l, calls (s.inflight i).seq = .ok b t l ∧
    data = data_packet_pack (s.inflight i).seq b cfg.padding

theorem resends_congr {s' : SenderState} {calls : ℕ → SendCall}
    (h : ∀ i, (s'.inflight i).seq = (s.inflight i).seq) (data : List Byte) (i : Fin INFLIGHT_MAX) :
    Resends cfg calls s' data i ↔ Resends cfg calls s data i := by
  unfold Resends occupied
  rw [h]

theorem resend_slot_sent (cfg : Config) (s : SenderState) (calls : ℕ → SendCall)
    (i : Fin INFLIGHT_MAX) (data : List Byte) :
    data ∈ (resend_slot cfg calls s i).sent ↔ data ∈ s.sent ∨ Resends cfg calls s data i := by
  unfold resend_slot Resends occupied
  by_cases he : (s.inflight i).seq = EMPTY
  · rw [if_pos he]
    exact (or_iff_left fun h => h.1 he).symm
  · rw [if_neg he]
    cases hc : calls (s.inflight i).seq with
    | os_error b => simp [send_one]
    | ok b t l =>
        rw [send_one_sent, List.mem_append, List.mem_singleton]
        simp [he]

/-- The datagrams sent by the retransmission loop: one for each packet in flight whose
`sendto` succeeds. -/
theorem resend_loop_sent (cfg : Config) (calls : ℕ → SendCall) (l : List (Fin INFLIGHT_MAX))
    (h : Placed s) (data : List Byte) :
    data ∈ (l.foldl (resend_slot cfg calls) s).sent ↔
      data ∈ s.sent ∨ ∃ i ∈ l, Resends cfg calls s data i := by
  induction l generalizing s with
  | nil => simp
  | cons j l ih =>
      obtain ⟨hslot, -⟩ := resend_slot_spec cfg h calls j
      -- the slots keep their numbers, so the later ones resend what they would have
      have hseq : ∀ i, ((resend_slot cfg calls s j).inflight i).seq = (s.inflight i).seq := by
        intro i
        rw [hslot]
        by_cases hij : i = j
        · rw [hij, Function.update_self, resent_seq]
        · rw [Function.update_of_ne hij]
      rw [List.foldl_cons, ih (placed_of_resent h hslot), resend_slot_sent, or_assoc]
      simp only [resends_congr hseq, List.mem_cons, exists_eq_or_imp]

theorem rto_check_sent (h : Placed s) {now : Us} {calls : ℕ → SendCall}
    (hf : fired cfg now s = true) (data : List Byte) :
    data ∈ (rto_check cfg now calls s).sent ↔
      data ∈ s.sent ∨ ∃ i, Resends cfg calls s data i := by
  have hcut : Placed (rto_cut s) := h
  unfold rto_check
  rw [if_pos hf, resend_loop_sent cfg calls _ hcut]
  simp only [List.mem_finRange, true_and]
  rfl

theorem rto_check_quiet {now : Us} (calls : ℕ → SendCall) (hf : fired cfg now s ≠ true) :
    rto_check cfg now calls s = s := by
  unfold rto_check
  rw [if_neg hf]

theorem fired_iff {now : Us} : fired cfg now s = true ↔
    ∃ i, occupied s i ∧ rto_us cfg ≤ (now - (s.inflight i).send_ts_us : Us).val := by
  unfold fired occupied
  simp only [List.any_eq_true, List.mem_finRange, true_and, Bool.and_eq_true, decide_eq_true_eq,
    Bool.not_eq_true', decide_eq_false_iff_not, not_lt]

theorem placed_rto_check (h : Placed s) (now : Us) (calls : ℕ → SendCall) :
    Placed (rto_check cfg now calls s) := by
  by_cases hf : fired cfg now s = true
  · obtain ⟨hslots, -⟩ := rto_check_fired h calls hf
    intro i hi
    unfold occupied at hi
    rw [hslots, resent_seq] at hi ⊢
    exact h i hi
  · rw [rto_check_quiet calls hf]
    exact h

/-! ## An ACK -/

/-- The window update leaves the books of the transport alone. -/
theorem apply_u_fields (cfg : Config) (now_mono : Us) (hops : List IntHopHost)
    (s : SenderState) :
    (apply_u cfg now_mono hops s).inflight = s.inflight ∧
      (apply_u cfg now_mono hops s).in_flight_count = s.in_flight_count ∧
      (apply_u cfg now_mono hops s).next_seq = s.next_seq ∧
      (apply_u cfg now_mono hops s).cum_acked_seq = s.cum_acked_seq ∧
      (apply_u cfg now_mono hops s).sent = s.sent := by
  unfold apply_u maybe_update_window
  dsimp only
  split
  · split
    · exact ⟨rfl, rfl, rfl, rfl, rfl⟩
    · exact ⟨rfl, rfl, rfl, rfl, rfl⟩
  · split
    · exact ⟨rfl, rfl, rfl, rfl, rfl⟩
    · exact ⟨rfl, rfl, rfl, rfl, rfl⟩

/-- Taking in hops does not touch what the gate looks at. -/
theorem apply_u_update (cfg : Config) (now_mono : Us) (hops : List IntHopHost)
    (s : SenderState) :
    ((apply_u cfg now_mono hops s).last_update_seq = s.last_update_seq ∧
      (apply_u cfg now_mono hops s).last_update_us = s.last_update_us) ∨
    ((apply_u cfg now_mono hops s).last_update_us = now_mono ∧ gate_open cfg now_mono s = true) := by
  -- the two branches of `apply_u` differ in `u` alone, which the gate does not read
  have hupdate : ∀ s' : SenderState, s'.last_update_seq = s.last_update_seq →
      s'.last_update_us = s.last_update_us → gate_open cfg now_mono s' = gate_open cfg now_mono s →
      ((maybe_update_window cfg now_mono s').last_update_seq = s.last_update_seq ∧
        (maybe_update_window cfg now_mono s').last_update_us = s.last_update_us) ∨
      ((maybe_update_window cfg now_mono s').last_update_us = now_mono ∧
        gate_open cfg now_mono s = true) := by
    intro s' hseq hus hgate
    unfold maybe_update_window
    by_cases hg : gate_open cfg now_mono s' = true
    · rw [if_pos hg]
      exact Or.inr ⟨rfl, hgate ▸ hg⟩
    · rw [if_neg hg]
      exact Or.inl ⟨hseq, hus⟩
  unfold apply_u
  dsimp only
  split
  · exact hupdate _ rfl rfl rfl
  · exact hupdate _ rfl rfl rfl

theorem ack_thread_eq {data : List Byte} {hops : List IntHopHost} (now_mono : Us)
    (hd : decode_ack data = some (seq, hops)) :
    ack_thread cfg now_mono data s = on_ack cfg now_mono seq hops s := by
  unfold ack_thread
  rw [hd]

theorem ack_thread_quiet {data : List Byte} (now_mono : Us) (hd : decode_ack data = none) :
    ack_thread cfg now_mono data s = s := by
  unfold ack_thread
  rw [hd]

/-- The ACK of a number that is in its slot clears up to it and takes in the hops. -/
theorem on_ack_held (now_mono : Us) (hops : List IntHopHost)
    (hslot : (s.inflight (inflight_idx seq)).seq = seq) :
    on_ack cfg now_mono seq hops s = apply_u cfg now_mono hops (acked s seq) := by
  unfold on_ack
  rw [inflight_get_eq_some.mpr ⟨rfl, hslot⟩]

/-- Any other ACK has its hops taken in at most. -/
theorem on_ack_other (now_mono : Us) (hops : List IntHopHost)
    (hslot : (s.inflight (inflight_idx seq)).seq ≠ seq) :
    on_ack cfg now_mono seq hops s
      = if (seq : ℤ) ≤ s.cum_acked_seq then s else apply_u cfg now_mono hops s := by
  unfold on_ack
  rw [inflight_get_eq_none.mpr hslot]

/-- A datagram changes nothing, or its hops are taken in, after the packets up to its
number have been cleared if it is in flight. -/
theorem ack_thread_cases (cfg : Config) (now_mono : Us) (data : List Byte) (s : SenderState) :
    ack_thread cfg now_mono data s = s ∨
    ∃ ack_seq hops, decode_ack data = some (ack_seq, hops) ∧
      (ack_thread cfg now_mono data s = apply_u cfg now_mono hops s ∨
        ack_thread cfg now_mono data s = apply_u cfg now_mono hops (acked s ack_seq)) := by
  cases hd : decode_ack data with
  | none => exact Or.inl (ack_thread_quiet now_mono hd)
  | some r =>
      obtain ⟨seq, hops⟩ := r
      rw [ack_thread_eq now_mono hd]
      by_cases hslot : (s.inflight (inflight_idx seq)).seq = seq
      · exact Or.inr ⟨seq, hops, rfl, Or.inr (on_ack_held now_mono hops hslot)⟩
      · rw [on_ack_other now_mono hops hslot]
        by_cases hle : (seq : ℤ) ≤ s.cum_acked_seq
        · exact Or.inl (if_pos hle)
        · exact Or.inr ⟨seq, hops, rfl, Or.inl (if_neg hle)⟩

/-- Slots are only ever cleared by a datagram. -/
theorem cleared_ack_thread (cfg : Config) (now_mono : Us) (data : List Byte) (s : SenderState) :
    Cleared s (ack_thread cfg now_mono data s) := by
  intro i
  unfold occupied
  rcases ack_thread_cases cfg now_mono data s with h | ⟨ack_seq, hops, -, h | h⟩
  · rw [h]
    exact Or.inl rfl
  · rw [h, (apply_u_fields cfg now_mono hops s).1]
    exact Or.inl rfl
  · rw [h, (apply_u_fields cfg now_mono hops _).1]
    exact cleared_clear_range s _ _ i

/-! ## The slots as a map

What the slots say, whichever slot a packet is in: packet `k` was last sent at `ts`. -/

/-- Packet `k` is in flight, and `ts` is its time stamp. -/
def Holds (s : SenderState) (k ts : ℤ) : Prop :=
  ∃ i, occupied s i ∧ ((s.inflight i).seq : ℤ) = k ∧ ((s.inflight i).send_ts_us.val : ℤ) = ts

theorem holds_congr {s s' : SenderState} (h : s'.inflight = s.inflight) (k ts : ℤ) :
    Holds s' k ts ↔ Holds s k ts := by
  unfold Holds occupied
  rw [h]

/-- Where a packet in flight is. -/
theorem holds_iff (h : Placed s) {k : ℕ} (hk : k ≠ EMPTY) (ts : ℤ) :
    Holds s k ts ↔ (s.inflight (inflight_idx k)).seq = k ∧
      ((s.inflight (inflight_idx k)).send_ts_us.val : ℤ) = ts := by
  constructor
  · rintro ⟨i, hi, hseq, hts⟩
    have hplace := h i hi
    rw [Nat.cast_inj] at hseq
    rw [hseq] at hplace
    rw [hplace]
    exact ⟨hseq, hts⟩
  · rintro ⟨hseq, hts⟩
    refine ⟨inflight_idx k, ?_, by rw [hseq], hts⟩
    unfold occupied
    rw [hseq]
    exact hk

/-- A packet sent for the first time, into a slot that is free. -/
theorem send_one_new (h : Placed s) {b t l : Us} (hseq : seq ≠ EMPTY)
    (hfree : ¬ occupied s (inflight_idx seq)) :
    (∀ k ts, Holds (send_one cfg s seq (.ok b t l)) k ts ↔
      if k = seq then ts = t.val else Holds s k ts) ∧
      (send_one cfg s seq (.ok b t l)).in_flight_count = s.in_flight_count + 1 := by
  obtain ⟨hnew, hnewts⟩ :
      ((send_one cfg s seq (.ok b t l)).inflight (inflight_idx seq)).seq = seq ∧
        ((send_one cfg s seq (.ok b t l)).inflight (inflight_idx seq)).send_ts_us = t :=
    send_one_slot_self b t l
  have hempty : (s.inflight (inflight_idx seq)).seq = EMPTY := not_not.mp hfree
  constructor
  · intro k ts
    by_cases hk : k = seq
    · rw [if_pos hk, hk, holds_iff (placed_send_one cfg h _) hseq, hnew, hnewts]
      exact (and_iff_right rfl).trans eq_comm
    · rw [if_neg hk]
      -- the slots of the other packets are the same
      apply exists_congr
      intro i
      by_cases hi : i = inflight_idx seq
      · unfold occupied
        rw [hi, hnew, hempty]
        apply iff_of_false
        · rintro ⟨-, heq, -⟩
          exact hk heq.symm
        · rintro ⟨hne, -⟩
          exact hne rfl
      · unfold occupied
        rw [send_one_slot_of_ne cfg s _ hi]
  · have hget : ∀ snt, inflight_get { s with sent := snt } seq = none := by
      intro snt
      rw [inflight_get_eq_none]
      show (s.inflight (inflight_idx seq)).seq ≠ seq
      rw [hempty]
      exact hseq.symm
    unfold send_one
    dsimp only
    rw [hget]
    rfl

/-- An ACK whose packets are all in flight. -/
theorem acked_spec (h : Placed s) (hcum : -1 ≤ s.cum_acked_seq) (hseq : seq < EMPTY)
    (hle : s.cum_acked_seq ≤ seq)
    (hin : ∀ q : ℕ, s.cum_acked_seq < q → q ≤ seq → ∃ ts, Holds s q ts) :
    (∀ k ts, Holds (acked s seq) k ts ↔
      if s.cum_acked_seq < k ∧ k ≤ seq then False else Holds s k ts) ∧
      (acked s seq).in_flight_count = s.in_flight_count - (seq - s.cum_acked_seq) := by
  have hn : (((seq : ℤ) - s.cum_acked_seq).toNat : ℤ) = seq - s.cum_acked_seq :=
    Int.toNat_of_nonneg (by omega)
  have hslot : ∀ q : ℕ, s.cum_acked_seq + 1 ≤ q →
      (q : ℤ) < s.cum_acked_seq + 1 + ((seq : ℤ) - s.cum_acked_seq).toNat →
      (s.inflight (inflight_idx q)).seq = q := by
    intro q hq hq'
    obtain ⟨ts, hts⟩ := hin q (by omega) (by omega)
    exact ((holds_iff h (by omega) ts).mp hts).1
  -- each number of the range is in its slot, so the loop clears them all
  have hslots := clear_range_occupied h (k := s.cum_acked_seq + 1)
    (n := ((seq : ℤ) - s.cum_acked_seq).toNat) (by omega) (by omega)
  have hcount := clear_range_count (s := s) (by omega) (by omega) hslot
  refine ⟨fun k ts => ?_, hcount.trans (by rw [hn])⟩
  rw [hn] at hslots
  have hocc : ∀ i, occupied (acked s seq) i ↔ occupied s i ∧
      ¬ (s.cum_acked_seq < (s.inflight i).seq ∧ ((s.inflight i).seq : ℤ) ≤ seq) := by
    intro i
    refine (hslots i).trans (and_congr_right fun _ => ?_)
    omega
  have hsame : ∀ i, occupied (acked s seq) i → (acked s seq).inflight i = s.inflight i := by
    intro i hi
    exact (clear_range_slot s _ _ i).resolve_right hi
  unfold Holds
  by_cases hk : s.cum_acked_seq < k ∧ k ≤ seq
  · rw [if_pos hk, iff_false]
    rintro ⟨i, hi, hik, -⟩
    rw [hsame i hi] at hik
    apply ((hocc i).mp hi).2
    rwa [hik]
  · rw [if_neg hk]
    constructor
    · rintro ⟨i, hi, hik, hts⟩
      rw [hsame i hi] at hik hts
      exact ⟨i, ((hocc i).mp hi).1, hik, hts⟩
    · rintro ⟨i, hi, hik, hts⟩
      have hi' : occupied (acked s seq) i := (hocc i).mpr ⟨hi, by rwa [hik]⟩
      refine ⟨i, hi', ?_⟩
      rw [hsame i hi']
      exact ⟨hik, hts⟩

/-- A check that fires and whose retransmissions, all at `t`, succeed. -/
theorem holds_rto (h : Placed s) {now : Us} {calls : ℕ → SendCall} (hf : fired cfg now s = true)
    {b t l : Us} (hcalls : ∀ i, occupied s i → calls (s.inflight i).seq = .ok b t l) (k ts : ℤ) :
    Holds (rto_check cfg now calls s) k ts ↔ (∃ ts', Holds s k ts') ∧ ts = t.val := by
  obtain ⟨hslots, -⟩ := rto_check_fired h calls hf
  have hocc : ∀ i, occupied (rto_check cfg now calls s) i ↔ occupied s i := by
    intro i
    unfold occupied
    rw [hslots, resent_seq]
  constructor
  · rintro ⟨i, hi, hik, hts⟩
    have hi' := (hocc i).mp hi
    rw [hslots, resent_seq] at hik
    rw [hslots, resent_ts hi' (hcalls i hi')] at hts
    exact ⟨⟨_, i, hi', hik, rfl⟩, hts.symm⟩
  · rintro ⟨⟨ts', i, hi, hik, -⟩, rfl⟩
    refine ⟨i, (hocc i).mpr hi, ?_⟩
    rw [hslots, resent_seq, resent_ts hi (hcalls i hi)]
    exact ⟨hik, rfl⟩

theorem rto_us_cast (cfg : Config) : (rto_us cfg : ℤ) = cfg.rto_us.val :=
  Int.toNat_of_nonneg (le_trans (by norm_num) cfg.rto_us.min_le)

/-- A check fires when a time stamp is an RTO old, for readings that have not gone back. -/
theorem fired_iff_holds {now : Us} (hts : AllSlots (fun _ ts => ts.val ≤ now.val) s) :
    fired cfg now s = true ↔ ∃ k ts, Holds s k ts ∧ cfg.rto_us.val ≤ (now.val : ℤ) - ts := by
  have hage : ∀ i, occupied s i → ((now - (s.inflight i).send_ts_us : Us).val : ℤ)
      = (now.val : ℤ) - (s.inflight i).send_ts_us.val := by
    intro i hi
    rw [Fin.sub_val_of_le (hts i hi), Nat.cast_sub (hts i hi)]
  rw [fired_iff]
  constructor
  · rintro ⟨i, hi, hold⟩
    refine ⟨_, _, ⟨i, hi, rfl, rfl⟩, ?_⟩
    rw [← hage i hi, ← rto_us_cast]
    exact_mod_cast hold
  · rintro ⟨k, ts, ⟨i, hi, -, rfl⟩, hold⟩
    rw [← hage i hi, ← rto_us_cast] at hold
    exact ⟨i, hi, by exact_mod_cast hold⟩

/-! ## One event -/

variable {mp : ℤ} {p p' : Proc}

/-- The main loop takes the lock. -/
theorem step_acquire : step cfg mp .acquire p = some p' ↔
    p.w_int = none ∧ p' = { p with w_int := some (py_int p.self.w) } := by
  show (if p.w_int.isNone then some { p with w_int := some (py_int p.self.w) } else none)
    = some p' ↔ _
  cases hw : p.w_int with
  | none => simp [eq_comm]
  | some w => simp

/-- One iteration of the burst loop. -/
theorem step_send {call : SendCall} : step cfg mp (.send call) p = some p' ↔
    ∃ w, p.w_int = some w ∧ burst_guard mp w p.self = true ∧
      p' = { p with self := burst_iter cfg p.self call } := by
  have hstep : step cfg mp (.send call) p = p.w_int.bind fun w =>
      if burst_guard mp w p.self then some { p with self := burst_iter cfg p.self call }
      else none := rfl
  rw [hstep, Option.bind_eq_some_iff]
  refine exists_congr fun w => and_congr_right fun _ => ?_
  by_cases hg : burst_guard mp w p.self = true
  · rw [if_pos hg, Option.some.injEq, eq_comm]
    exact (and_iff_right hg).symm
  · rw [if_neg hg]
    exact iff_of_false (fun h => by cases h) (fun h => hg h.1)

/-- The burst loop is over. -/
theorem step_release : step cfg mp .release p = some p' ↔
    ∃ w, p.w_int = some w ∧ burst_guard mp w p.self ≠ true ∧ p' = { p with w_int := none } := by
  have hstep : step cfg mp .release p = p.w_int.bind fun w =>
      if burst_guard mp w p.self then none else some { p with w_int := none } := rfl
  rw [hstep, Option.bind_eq_some_iff]
  refine exists_congr fun w => and_congr_right fun _ => ?_
  by_cases hg : burst_guard mp w p.self = true
  · rw [if_pos hg]
    exact iff_of_false (fun h => by cases h) (fun h => h.1 hg)
  · rw [if_neg hg, Option.some.injEq, eq_comm]
    exact (and_iff_right hg).symm

/-- The listener handles a datagram. -/
theorem step_datagram {data : List Byte} {now_mono : Us} :
    step cfg mp (.datagram data now_mono) p = some p' ↔
      p.w_int = none ∧ p' = { p with self := ack_thread cfg now_mono data p.self } := by
  show (if p.w_int.isNone then some { p with self := ack_thread cfg now_mono data p.self }
    else none) = some p' ↔ _
  cases hw : p.w_int with
  | none => simp [eq_comm]
  | some w => simp

/-- The main loop checks for timeouts. -/
theorem step_rto {now : Us} {calls : ℕ → SendCall} :
    step cfg mp (.rto now calls) p = some p' ↔
      p.w_int = none ∧ p' = { p with self := rto_check cfg now calls p.self } := by
  show (if p.w_int.isNone then some { p with self := rto_check cfg now calls p.self }
    else none) = some p' ↔ _
  cases hw : p.w_int with
  | none => simp [eq_comm]
  | some w => simp

/-- All that an event can do to the state: nothing, a burst iteration, a datagram, or an
RTO check that fires. -/
theorem step_self {op : Op} (h : step cfg mp op p = some p') :
    p'.self = p.self ∨
    (∃ call, op = .send call ∧ p'.self = burst_iter cfg p.self call) ∨
    (∃ data now_mono, op = .datagram data now_mono ∧
      p'.self = ack_thread cfg now_mono data p.self) ∨
    (∃ now calls, op = .rto now calls ∧ fired cfg now p.self = true ∧
      p'.self = rto_check cfg now calls p.self) := by
  cases op with
  | acquire =>
      obtain ⟨-, rfl⟩ := step_acquire.mp h
      exact Or.inl rfl
  | send call =>
      obtain ⟨w, -, -, rfl⟩ := step_send.mp h
      exact Or.inr (Or.inl ⟨call, rfl, rfl⟩)
  | release =>
      obtain ⟨w, -, -, rfl⟩ := step_release.mp h
      exact Or.inl rfl
  | datagram data now_mono =>
      obtain ⟨-, rfl⟩ := step_datagram.mp h
      exact Or.inr (Or.inr (Or.inl ⟨data, now_mono, rfl, rfl⟩))
  | rto now calls =>
      obtain ⟨-, hp⟩ := step_rto.mp h
      have hself : p'.self = rto_check cfg now calls p.self := by rw [hp]
      -- a check that does not fire is not seen
      by_cases hf : fired cfg now p.self = true
      · exact Or.inr (Or.inr (Or.inr ⟨now, calls, rfl, hf, hself⟩))
      · rw [rto_check_quiet calls hf] at hself
        exact Or.inl hself

/-- Every packet in flight is in its slot, in every state of a run. -/
theorem placed_step {op : Op} (h : Placed p.self) (hstep : step cfg mp op p = some p') :
    Placed p'.self := by
  rcases step_self hstep with heq | ⟨call, -, heq⟩ | ⟨data, now_mono, -, heq⟩ |
    ⟨now, calls, -, -, heq⟩
  · rw [heq]
    exact h
  · rw [heq]
    exact placed_send_one cfg h call
  · rw [heq]
    exact (cleared_ack_thread _ now_mono data _).placed h
  · rw [heq]
    exact placed_rto_check h now calls

theorem placed_start (cfg : Config) (now_mono : Us) : Placed (start cfg now_mono).self := by
  intro i hi
  exact (hi rfl).elim

end

end IntHpcc.CSender
