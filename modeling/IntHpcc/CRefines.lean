/-
The C sender and the Python `HpccSender` hold the same state, kept differently.

`Controls` relates the controller's fields, `Books` what is in flight and what has been
sent. The dict `in_flight` is the array of slots, the dict `hop_last` the hash table. Each
operation of the one is matched by the operation of the other that models the same lines,
under its own name: sending, acknowledging, taking in hops, updating the window, the RTO
cut. `CLockstep.lean` puts them together into runs.

The incarnation is a `uint32_t` on the C side, so it is related modulo `2 ^ 32`.
-/
import IntHpcc.AckFormat
import IntHpcc.HpccCut
import IntHpcc.InflightTable
import IntHpcc.LosslessRun

set_option autoImplicit false

namespace IntHpcc.CRefines

open IntHpcc.Bytes IntHpcc.Py IntHpcc.PacketFormat IntHpcc.SenderCore IntHpcc.LosslessRun
open IntHpcc.CSender IntHpcc.AckFormat

/-! ## The relation -/

/-- The configuration of the C sender that a Python one stands for. -/
def c_config (cfg : Hpcc.Config) : CSender.Config where
  w_init := cfg.w_init
  w_max := cfg.w_max
  eta := cfg.eta
  w_ai := cfg.w_ai
  tau_over_t := cfg.tau_over_T
  padding := cfg.padding
  base_rtt_s := cfg.base_rtt_s
  rto_us := cfg.rto_us.of_eq (rto_s_eq _).symm

/-- A reading of the monotonic clock, as `time.monotonic()` gives it. -/
def seconds (t : Us) : ℚ := (t.val : ℚ) / 1000000

/-- The controllers agree. -/
structure Controls (c : Hpcc.Ctl) (s : SenderState) : Prop where
  w : s.w = c.w
  w_ref : s.w_ref = c.w_ref
  incarnation : s.incarnation = c.incarnation % 2 ^ 32
  u_smoothed : s.u_smoothed = c.u_smoothed
  last_update_seq : s.last_update_seq = c.last_update_seq
  last_update_time : seconds s.last_update_us = c.last_update_time
  hops : Agrees s.hops c.hop_last

/-- The datagram of a data packet. -/
def Carries (padding : ℕ) (pkt : DataPayload) (data : List Byte) : Prop :=
  Network.arriving padding pkt [] = .ok data

/-- The books agree: the same packets are in flight since the same times, each in its own
slot, and the same datagrams have been sent. -/
structure Books (padding : ℕ) (st : Transport Hpcc.Snap) (s : SenderState) : Prop where
  cum_acked_seq : s.cum_acked_seq = st.cum_acked_seq
  next_seq : (s.next_seq : ℤ) = st.next_seq
  in_flight : ∀ k ts, Holds s k ts ↔ (st.in_flight.lookup k).map Entry.send_ts_us = some ts
  count : s.in_flight_count = st.next_seq - 1 - st.cum_acked_seq
  placed : Placed s
  sent : ∀ data, data ∈ s.sent ↔ ∃ pkt ∈ st.sock, Carries padding pkt data

variable {cfg : Hpcc.Config} {st : Hpcc.Self} {s : SenderState} {c : Hpcc.Ctl}

/-! ## The controller -/

/-- What the controller reads and writes, and the only fields it does. -/
structure SameControls (s s' : SenderState) : Prop where
  w : s'.w = s.w
  w_ref : s'.w_ref = s.w_ref
  incarnation : s'.incarnation = s.incarnation
  u_smoothed : s'.u_smoothed = s.u_smoothed
  last_update_seq : s'.last_update_seq = s.last_update_seq
  last_update_us : s'.last_update_us = s.last_update_us
  hops : s'.hops = s.hops

theorem Controls.congr {s' : SenderState} (h : Controls c s) (hsame : SameControls s s') :
    Controls c s' := by
  refine ⟨?_, ?_, ?_, ?_, ?_, ?_, ?_⟩
  · rw [hsame.w, h.w]
  · rw [hsame.w_ref, h.w_ref]
  · rw [hsame.incarnation, h.incarnation]
  · rw [hsame.u_smoothed, h.u_smoothed]
  · rw [hsame.last_update_seq, h.last_update_seq]
  · rw [hsame.last_update_us, h.last_update_time]
  · rw [hsame.hops]
    exact h.hops

/-- The hop half of `ack_thread`: the table and the smoothed utilisation. -/
def c_took (cfg : CSender.Config) (hops : List IntHopHost) (s : SenderState) : SenderState :=
  let r := compute_u cfg.base_rtt_s hops s.hops 0
  let s := { s with hops := r.1 }
  if r.2 > 0 then
    { s with u_smoothed := (1 - cfg.tau_over_t) * s.u_smoothed + cfg.tau_over_t * r.2 }
  else s

theorem apply_u_took (cfg : CSender.Config) (now_mono : Us) (hops : List IntHopHost)
    (s : SenderState) :
    apply_u cfg now_mono hops s = maybe_update_window cfg now_mono (c_took cfg hops s) := rfl

/-- Taking in hops leaves the rest alone. -/
theorem c_took_fields (cfg : CSender.Config) (hops : List IntHopHost) (s : SenderState) :
    (c_took cfg hops s).w = s.w ∧ (c_took cfg hops s).w_ref = s.w_ref ∧
      (c_took cfg hops s).incarnation = s.incarnation ∧
      (c_took cfg hops s).last_update_seq = s.last_update_seq ∧
      (c_took cfg hops s).last_update_us = s.last_update_us ∧
      (c_took cfg hops s).cum_acked_seq = s.cum_acked_seq ∧
      (c_took cfg hops s).hops = (compute_u cfg.base_rtt_s hops s.hops 0).1 := by
  unfold c_took
  dsimp only
  split
  · exact ⟨rfl, rfl, rfl, rfl, rfl, rfl, rfl⟩
  · exact ⟨rfl, rfl, rfl, rfl, rfl, rfl, rfl⟩

/-- **Hops.** Both controllers take in the same hops alike, as long as the ports fit the
table. -/
theorem Controls.took (h : Controls c s) {K : Finset (ℕ × ℕ)} (hK : K.card ≤ HOP_TABLE_SZ)
    (hkeys : KeysIn s.hops K) {hops : List IntHopHost}
    (hin : ∀ hop ∈ hops, hop.link_bps ≠ 0 → (hop.switch_id, hop.egress_port) ∈ K) :
    Controls (c.took cfg (hops.map IntHopHost.hop)) (c_took (c_config cfg) hops s) ∧
      KeysIn (c_took (c_config cfg) hops s).hops K := by
  obtain ⟨hu, hagrees, hkeys'⟩ := compute_u_agrees cfg.base_rtt_s hK hin h.hops hkeys 0
  obtain ⟨hw, hwref, hinc, hseq, hus, -, hhops⟩ := c_took_fields (c_config cfg) hops s
  obtain ⟨pw, pwref, pinc, pseq, ptime⟩ :=
    ControllerInv.Hpcc.took_fields cfg (hops.map IntHopHost.hop) c
  have htable : (c_took (c_config cfg) hops s).hops = (compute_u cfg.base_rtt_s hops s.hops 0).1 :=
    hhops
  -- the hop tables are what the two `compute_u`s leave
  have hlast : (c.took cfg (hops.map IntHopHost.hop)).hop_last
      = (Hpcc.compute_u cfg.base_rtt_s (hops.map IntHopHost.hop) c.hop_last 0).1 := by
    unfold Hpcc.Ctl.took Hpcc.Ctl.smoothed
    dsimp only
    split
    · rfl
    · rfl
  refine ⟨⟨?_, ?_, ?_, ?_, ?_, ?_, ?_⟩, by rw [htable]; exact hkeys'⟩
  · rw [hw, pw, h.w]
  · rw [hwref, pwref, h.w_ref]
  · rw [hinc, pinc, h.incarnation]
  · -- one smoothing step, if the ACK gave a sample
    unfold Hpcc.Ctl.took Hpcc.Ctl.smoothed c_took
    dsimp only
    rw [hu]
    show (if (compute_u cfg.base_rtt_s hops s.hops 0).2 > 0 then _ else _ : SenderState).u_smoothed
      = (if (compute_u cfg.base_rtt_s hops s.hops 0).2 > 0 then _ else _ : Hpcc.Ctl).u_smoothed
    by_cases hpos : (compute_u cfg.base_rtt_s hops s.hops 0).2 > 0
    · rw [if_pos hpos, if_pos hpos, ← h.u_smoothed]
      rfl
    · rw [if_neg hpos, if_neg hpos]
      exact h.u_smoothed
  · rw [hseq, pseq, h.last_update_seq]
  · rw [hus, ptime, h.last_update_time]
  · rw [htable, hlast]
    exact hagrees

/-- `clampd` is the Python clamp. -/
theorem clampd_eq {v lo hi : ℚ} (h : lo ≤ hi) : clampd v lo hi = max lo (min hi v) := by
  unfold clampd
  by_cases hlo : v < lo
  · rw [if_pos hlo, min_eq_right (hlo.le.trans h), max_eq_left hlo.le]
  · rw [if_neg hlo]
    by_cases hhi : v > hi
    · rw [if_pos hhi, min_eq_left hhi.le, max_eq_right h]
    · rw [if_neg hhi, min_eq_right (not_lt.mp hhi), max_eq_right (not_lt.mp hlo)]

theorem seconds_sub {now last : Us} (h : last.val ≤ now.val) :
    (((now - last : Us).val : ℕ) : ℚ) / 1000000 = seconds now - seconds last := by
  rw [Fin.sub_val_of_le h, Nat.cast_sub h, sub_div]
  rfl

/-- The new window is the same. -/
theorem Controls.w_new_eq (h : Controls c s) (hmax : 1 ≤ cfg.w_max) :
    w_new (c_config cfg) s = c.target cfg c.w_ref := by
  have hone : DEFAULT_WMIN ≤ (cfg.w_max : ℚ) := by
    rw [DEFAULT_WMIN]
    exact_mod_cast hmax
  have heff : (if s.u_smoothed < 1 / 1000 then 1 / 1000 else s.u_smoothed) = c.u_eff := by
    rw [h.u_smoothed, Hpcc.Ctl.u_eff, max_def]
    by_cases hu : c.u_smoothed < 1 / 1000
    · rw [if_pos hu, if_pos hu.le]
    · rw [if_neg hu]
      split
      · next hle => exact le_antisymm hle (not_lt.mp hu)
      · rfl
  unfold w_new Hpcc.Ctl.target
  dsimp only
  rw [heff, h.w_ref]
  exact clampd_eq hone

/-- The gates open together. -/
theorem Controls.gate_eq {ctl : Hpcc.Self} (h : Controls ctl.ctl s)
    (hcum : s.cum_acked_seq = ctl.cum_acked_seq) {now_mono : Us}
    (hmono : s.last_update_us.val ≤ now_mono.val) :
    gate_open (c_config cfg) now_mono s
      = Hpcc.gate_open cfg (seconds now_mono) ctl.ctl.w_ref ctl := by
  unfold gate_open Hpcc.gate_open
  rw [h.last_update_seq, h.w_ref, hcum, seconds_sub hmono, h.last_update_time]
  rfl

/-- **The update.** -/
theorem Controls.update (h : Controls st.ctl s) (hcum : s.cum_acked_seq = st.cum_acked_seq)
    (hmax : 1 ≤ cfg.w_max) (heta : cfg.eta ≠ 0) {clk : AckClock} {now_mono : Us}
    (hclk : clk.monotonic = seconds now_mono) (hmono : s.last_update_us.val ≤ now_mono.val) :
    Controls (Hpcc.maybe_update_window_locked cfg clk st).1.ctl
      (maybe_update_window (c_config cfg) now_mono s) := by
  -- both gates open together, since the clocks agree
  have hgate : gate_open (c_config cfg) now_mono s
      = Hpcc.gate_open cfg (seconds now_mono) st.ctl.w_ref st := h.gate_eq hcum hmono
  unfold Hpcc.maybe_update_window_locked maybe_update_window
  rw [Hpcc.update_from_eq heta, hclk]
  by_cases hg : gate_open (c_config cfg) now_mono s = true
  · have hg' : Hpcc.gate_open cfg (seconds now_mono) st.ctl.w_ref st = true := by rw [← hgate, hg]
    have hw := h.w_new_eq hmax
    rw [if_pos hg, if_pos hg']
    refine ⟨hw, hw, ?_, h.u_smoothed, hcum, rfl, h.hops⟩
    -- the incarnation goes up on the same comparison, in C modulo 2 ^ 32
    show (if w_new (c_config cfg) s < s.w_ref then (s.incarnation + 1) % 2 ^ 32 else s.incarnation)
      = (if st.ctl.target cfg st.ctl.w_ref < st.ctl.w_ref then st.ctl.incarnation + 1
          else st.ctl.incarnation) % 2 ^ 32
    rw [hw, h.w_ref, h.incarnation]
    split
    · rw [Nat.mod_add_mod]
    · rfl
  · have hg' : ¬ Hpcc.gate_open cfg (seconds now_mono) st.ctl.w_ref st = true := by
      rwa [← hgate]
    rw [if_neg hg, if_neg hg']
    exact h

/-- **The RTO cut.** -/
theorem Controls.cut (h : Controls c s) : Controls (Hpcc.rto_cut c) (rto_cut s) := by
  have hhalf : (if s.w_ref / 2 < DEFAULT_WMIN then DEFAULT_WMIN else s.w_ref / 2)
      = max Hpcc.w_min (c.w_ref / 2) := by
    rw [h.w_ref, max_def, DEFAULT_WMIN, Hpcc.w_min]
    by_cases hlt : c.w_ref / 2 < 1
    · rw [if_pos hlt, if_neg (not_le.mpr hlt)]
    · rw [if_neg hlt, if_pos (not_lt.mp hlt)]
  refine ⟨hhalf, hhalf, ?_, h.u_smoothed, h.last_update_seq, h.last_update_time, h.hops⟩
  show (s.incarnation + 1) % 2 ^ 32 = (c.incarnation + 1) % 2 ^ 32
  rw [h.incarnation, Nat.mod_add_mod]

/-! ## The books -/

theorem Books.congr {padding : ℕ} {t : Transport Hpcc.Snap} {s' : SenderState}
    (h : Books padding t s) (hslots : s'.inflight = s.inflight)
    (hcount : s'.in_flight_count = s.in_flight_count) (hnext : s'.next_seq = s.next_seq)
    (hcum : s'.cum_acked_seq = s.cum_acked_seq) (hsent : s'.sent = s.sent) :
    Books padding t s' := by
  refine ⟨?_, ?_, ?_, ?_, ?_, ?_⟩
  · rw [hcum, h.cum_acked_seq]
  · rw [hnext, h.next_seq]
  · intro k ts
    rw [holds_congr hslots, h.in_flight]
  · rw [hcount, h.count]
  · intro i hi
    unfold occupied at hi
    rw [hslots] at hi ⊢
    exact h.placed i hi
  · rw [hsent]
    exact h.sent

/-- A packet is in flight on one side exactly if it is on the other. -/
theorem Books.mem_iff {padding : ℕ} {t : Transport Hpcc.Snap} (h : Books padding t s) (k : ℤ) :
    k ∈ t.in_flight ↔ ∃ ts, Holds s k ts := by
  rw [← AList.lookup_isSome, Option.isSome_iff_exists]
  constructor
  · rintro ⟨e, he⟩
    exact ⟨e.send_ts_us, (h.in_flight k _).mpr (by rw [he, Option.map_some])⟩
  · rintro ⟨ts, hts⟩
    obtain ⟨e, he, -⟩ := Option.map_eq_some_iff.mp ((h.in_flight k ts).mp hts)
    exact ⟨e, he⟩

/-- What a slot in use holds is in flight. -/
theorem Books.mem_of_occupied {padding : ℕ} {t : Transport Hpcc.Snap} (h : Books padding t s)
    {i : Fin INFLIGHT_MAX} (hi : occupied s i) : ((s.inflight i).seq : ℤ) ∈ t.in_flight :=
  (h.mem_iff _).mpr ⟨_, i, hi, rfl, rfl⟩

/-- A packet in flight is found in its slot. -/
theorem Books.inflight_get_isSome {padding : ℕ} {t : Transport Hpcc.Snap} (h : Books padding t s)
    {k : ℕ} (hk : k ≠ EMPTY) : (inflight_get s k).isSome ↔ (k : ℤ) ∈ t.in_flight := by
  rw [h.mem_iff, Option.isSome_iff_exists]
  constructor
  · rintro ⟨e, he⟩
    obtain ⟨rfl, hseq⟩ := inflight_get_eq_some.mp he
    exact ⟨_, (holds_iff h.placed hk _).mpr ⟨hseq, rfl⟩⟩
  · rintro ⟨ts, hts⟩
    exact ⟨_, inflight_get_eq_some.mpr ⟨rfl, ((holds_iff h.placed hk ts).mp hts).1⟩⟩

/-- The packets in flight are consecutive numbers and fewer than the slots, so the slot of
the next one is free. -/
theorem Books.slot_free {padding : ℕ} {t : Transport Hpcc.Snap} (h : Books padding t s)
    (hc : Contig t) (hroom : s.in_flight_count < INFLIGHT_MAX) :
    ¬ occupied s (inflight_idx s.next_seq) := by
  intro hocc
  obtain ⟨hlo, hhi⟩ := (hc.mem_iff _).mp (h.mem_of_occupied hocc)
  have hslot : (s.inflight (inflight_idx s.next_seq)).seq % INFLIGHT_MAX
      = s.next_seq % INFLIGHT_MAX := congrArg Fin.val (h.placed _ hocc)
  have hcount := h.count
  have hnext := h.next_seq
  simp only [INFLIGHT_MAX] at hslot hroom
  omega

/-- The datagram of a packet is the one both senders build. -/
theorem carries_iff {padding seq : ℕ} (h : seq < 2 ^ 32) (t : Us) (data : List Byte) :
    Carries padding ⟨seq, t.val, 0⟩ data ↔ data = data_packet_pack seq t padding := by
  have hpack : Network.arriving padding ⟨seq, t.val, 0⟩ []
      = .ok (data_packet_pack seq t padding) := data_packet_pack_eq padding h t
  unfold Carries
  rw [hpack, Except.ok.injEq, eq_comm]

/-- **Sending** the next packet. -/
theorem Books.send (h : Books cfg.padding st.toTransport s) (hc : Contig st.toTransport)
    (hnext : s.next_seq < EMPTY) (hroom : s.in_flight_count < INFLIGHT_MAX) (t : Us) :
    Books cfg.padding (Hpcc.cls.burst_iter st (.ok t t t)).toTransport
      (burst_iter (c_config cfg) s (.ok t t t)) := by
  obtain ⟨hslots, hcount, hseq, hcum⟩ := burst_iter_books (c_config cfg) s (.ok t t t)
  obtain ⟨hholds, hmore⟩ :
      (∀ k ts, Holds (send_one (c_config cfg) s s.next_seq (.ok t t t)) k ts ↔
        if k = s.next_seq then ts = t.val else Holds s k ts) ∧
      (send_one (c_config cfg) s s.next_seq (.ok t t t)).in_flight_count = s.in_flight_count + 1 :=
    send_one_new h.placed hnext.ne (h.slot_free hc hroom)
  have hnew : st.next_seq ∉ st.in_flight := fun hin => lt_irrefl _ ((hc.mem_iff _).mp hin).2
  have hsucc : (s.next_seq + 1) % 2 ^ 32 = s.next_seq + 1 := by
    apply Nat.mod_eq_of_lt
    simp only [EMPTY] at hnext
    omega
  have hlt : s.next_seq < 2 ^ 32 := hnext.trans (by decide)
  refine ⟨?_, ?_, ?_, ?_, ?_, ?_⟩
  · rw [hcum, h.cum_acked_seq]
    exact (send_locked_cum Hpcc.snapshot st st.next_seq _).symm
  · rw [hseq, hsucc, SenderWindow.burst_iter_next, ← h.next_seq]
    push_cast
    rfl
  · intro k ts
    rw [holds_congr hslots, hholds]
    show _ ↔ ((send_locked Hpcc.snapshot st st.next_seq (.ok t t t)).in_flight.lookup k).map _ = _
    rw [lookup_send_locked Hpcc.snapshot _ hnew, h.next_seq]
    -- the new entry, and the old ones
    by_cases hk : k = st.next_seq
    · rw [if_pos hk, if_pos hk]
      simp [SendCall.entry, eq_comm]
    · rw [if_neg hk, if_neg hk]
      exact h.in_flight k ts
  · rw [hcount, hmore, h.count, SenderWindow.burst_iter_next]
    show _ = st.next_seq + 1 - 1 - (send_locked Hpcc.snapshot st st.next_seq _).cum_acked_seq
    rw [send_locked_cum]
    ring
  · intro i hi
    have hplaced : occupied (send_one (c_config cfg) s s.next_seq (.ok t t t)) i → _ :=
      placed_send_one (c_config cfg) h.placed (.ok t t t) i
    unfold occupied at hi hplaced
    rw [hslots] at hi ⊢
    exact hplaced hi
  · intro data
    have hsent : (burst_iter (c_config cfg) s (.ok t t t)).sent
        = s.sent ++ [data_packet_pack s.next_seq t cfg.padding] :=
      send_one_sent (c_config cfg) _ _ _ _ _
    have hsock : (Hpcc.cls.burst_iter st (.ok t t t)).sock
        = st.sock ++ [(⟨s.next_seq, t.val, 0⟩ : DataPayload)] := by
      rw [h.next_seq]
      exact send_locked_sock Hpcc.snapshot st st.next_seq _
    rw [hsent, hsock, List.mem_append, List.mem_singleton, h.sent]
    simp only [List.mem_append, List.mem_singleton, or_and_right, exists_or, exists_eq_left,
      carries_iff hlt]

/-- **Acknowledging** a packet in flight. -/
theorem Books.acked (h : Books cfg.padding st.toTransport s) (hc : Contig st.toTransport)
    (hend : s.next_seq ≤ EMPTY) {k : ℕ} (hk : (k : ℤ) ∈ st.in_flight) :
    Books cfg.padding (st.toTransport.acked k) (acked s k) := by
  obtain ⟨hlo, hhi⟩ := (hc.mem_iff _).mp hk
  have hcum := h.cum_acked_seq
  have hnext := h.next_seq
  have hroot := hc.cum_ge
  have hin : ∀ q : ℕ, s.cum_acked_seq < q → q ≤ k → ∃ ts, Holds s q ts := by
    intro q hq hqk
    exact (h.mem_iff q).mp ((hc.mem_iff q).mpr ⟨by omega, by omega⟩)
  obtain ⟨hholds, hcount⟩ := acked_spec h.placed (by omega) (by omega) (by omega) hin
  obtain ⟨-, -, -, -, -, -, hseq, -, hsent⟩ :=
    clear_range_fields s (s.cum_acked_seq + 1) ((k : ℤ) - s.cum_acked_seq).toNat
  have hmax : (st.toTransport.acked k).cum_acked_seq = k := by
    rw [acked_cum, max_eq_right hlo.le]
  refine ⟨hmax.symm, ?_, ?_, ?_, ?_, ?_⟩
  · rw [acked_next, ← hnext]
    exact congrArg Nat.cast hseq
  · intro q ts
    rw [hholds, lookup_acked, hcum]
    -- both drop the numbers up to `k`, and only these
    by_cases hq : st.cum_acked_seq < q ∧ q ≤ k
    · rw [if_pos hq, if_pos hq]
      simp
    · rw [if_neg hq, if_neg hq]
      exact h.in_flight q ts
  · rw [hcount, hmax, acked_next, h.count, hcum]
    ring
  · exact (cleared_clear_range s _ _).placed h.placed
  · intro data
    rw [acked_sock, ← h.sent]
    show data ∈ (clear_range s _ _).sent ↔ _
    rw [hsent]

/-- Both notice the same timeouts. -/
theorem Books.fired_iff (h : Books cfg.padding st.toTransport s) {now : Us}
    (hts : AllSlots (fun _ ts => ts.val ≤ now.val) s) :
    fired (c_config cfg) now s = true ↔
      expired st.toTransport now.val cfg.rto_us.val = true := by
  have hrto : (c_config cfg).rto_us.val = cfg.rto_us.val := rfl
  rw [fired_iff_holds hts, expired_iff, hrto]
  simp only [h.in_flight, Option.map_eq_some_iff]
  constructor
  · rintro ⟨k, ts, ⟨e, he, rfl⟩, hold⟩
    exact ⟨k, e, he, hold⟩
  · rintro ⟨k, e, he, hold⟩
    exact ⟨k, _, ⟨e, he, rfl⟩, hold⟩

/-- **Retransmitting** everything in flight. -/
theorem Books.rto (h : Books cfg.padding st.toTransport s) (hend : s.next_seq ≤ EMPTY)
    (hc : Contig st.toTransport) {now log_us t : Us}
    (hf : fired (c_config cfg) now s = true)
    (hx : expired st.toTransport now.val cfg.rto_us.val = true)
    {calls : ℤ → SendCall} {ccalls : ℕ → SendCall}
    (hcalls : ∀ k ∈ st.in_flight, calls k = .ok t t t)
    (hccalls : ∀ k : ℕ, (k : ℤ) ∈ st.in_flight → ccalls k = .ok t t t) :
    Books cfg.padding
      (rto_checker Hpcc.snapshot Hpcc.rto_cut cfg.rto_us.val now log_us calls st).toTransport
      (rto_check (c_config cfg) now ccalls s) := by
  have hslotcalls : ∀ i, occupied s i → ccalls (s.inflight i).seq = .ok t t t :=
    fun i hi => hccalls _ (h.mem_of_occupied hi)
  obtain ⟨-, hbooks⟩ := rto_check_fired h.placed ccalls hf
  have hnext : (rto_checker Hpcc.snapshot Hpcc.rto_cut cfg.rto_us.val now log_us calls st).next_seq
      = st.next_seq := by
    rw [rto_checker_fired hx, resend_all_next]
    rfl
  have hcum : (rto_checker Hpcc.snapshot Hpcc.rto_cut cfg.rto_us.val now log_us calls
      st).cum_acked_seq = st.cum_acked_seq := by
    rw [rto_checker_fired hx, resend_all_cum]
    rfl
  refine ⟨?_, ?_, ?_, ?_, placed_rto_check h.placed now ccalls, ?_⟩
  · exact hbooks.cum_acked_seq.trans (h.cum_acked_seq.trans hcum.symm)
  · rw [hnext, hbooks.next_seq]
    exact h.next_seq
  · intro k ts
    rw [holds_rto h.placed hf hslotcalls, rto_fired_lookup hx, ← h.mem_iff]
    by_cases hk : k ∈ st.in_flight
    · rw [if_pos hk, hcalls k hk]
      simp [SendCall.entry, hk, eq_comm]
    · rw [if_neg hk]
      simp [hk]
  · rw [hbooks.in_flight_count, hnext, hcum]
    exact h.count
  · intro data
    rw [rto_check_sent h.placed hf, rto_fired_sock hx, h.sent]
    simp only [List.mem_append, or_and_right, exists_or]
    refine or_congr_right ?_
    -- the slots in use and the keys are the same numbers
    constructor
    · rintro ⟨i, hi, b, t', l, hcall, rfl⟩
      rw [hslotcalls i hi, SendCall.ok.injEq] at hcall
      obtain ⟨rfl, -, -⟩ := hcall
      have hmem := h.mem_of_occupied hi
      have hlt := (hc.mem_iff _).mp hmem
      have hnextseq := h.next_seq
      refine ⟨⟨(s.inflight i).seq, t.val, 0⟩, ?_, (carries_iff ?_ t _).mpr rfl⟩
      · rw [List.mem_flatMap]
        refine ⟨_, mem_sorted.mpr hmem, ?_⟩
        rw [hcalls _ hmem]
        exact List.mem_singleton.mpr rfl
      · simp only [EMPTY] at hend
        omega
    · rintro ⟨pkt, hpkt, hdata⟩
      obtain ⟨k, hk, hpkt⟩ := List.mem_flatMap.mp hpkt
      have hmem : k ∈ st.in_flight := mem_sorted.mp hk
      obtain ⟨ts, i, hi, rfl, -⟩ := (h.mem_iff k).mp hmem
      have hlt := (hc.mem_iff _).mp hmem
      have hnextseq := h.next_seq
      rw [hcalls _ hmem] at hpkt
      rw [List.mem_singleton.mp hpkt] at hdata
      refine ⟨i, hi, t, t, t, hslotcalls i hi, (carries_iff ?_ t data).mp hdata⟩
      simp only [EMPTY] at hend
      omega

/-! ## Both halves together -/

/-- A reading of both clocks. -/
structure Reading where
  wall : Us
  mono : Us
  deriving DecidableEq

/-- One reading is not before another. -/
def Reading.NotAfter (r r' : Reading) : Prop :=
  r.wall.val ≤ r'.wall.val ∧ r.mono.val ≤ r'.mono.val

/-- A `sendto` that succeeds. -/
def Reading.sent (r : Reading) : SendCall := .ok r.wall r.wall r.wall

/-- The retransmission of packet `k`. -/
def Reading.resent (r : Reading) (refused : ℕ → Bool) (k : ℕ) : SendCall :=
  if refused k then .os_error r.wall else r.sent

/-- The window of the Python sender keeps to its bounds. -/
structure Sized (cfg : Hpcc.Config) (c : Hpcc.Ctl) : Prop where
  w_eq : c.w = c.w_ref
  one_le : 1 ≤ c.w_ref
  w_le : c.w_ref ≤ cfg.w_max

/-- The two senders agree, at a moment when no clock has been read later than `now`; `K`
are the ports seen so far. -/
structure Matched (cfg : Hpcc.Config) (K : Finset (ℕ × ℕ)) (now : Reading) (st : Hpcc.Self)
    (s : SenderState) : Prop where
  controls : Controls st.ctl s
  books : Books cfg.padding st.toTransport s
  keys : KeysIn s.hops K
  sized : Sized cfg st.ctl
  stamps : AllSlots (fun _ ts => ts.val ≤ now.wall.val) s
  updated : s.last_update_us.val ≤ now.mono.val
  next_le : s.next_seq ≤ EMPTY

/-- What the theorem needs of a configuration. Python packs into a `bytes` of any length,
the C sender into a buffer on its stack. -/
structure Shared (cfg : Hpcc.Config) : Prop where
  w_init : 1 ≤ cfg.w_init
  w_init_le : cfg.w_init ≤ cfg.w_max
  w_max_le : cfg.w_max ≤ INFLIGHT_MAX
  eta_pos : 0 < cfg.eta
  fits : FitsBuf cfg.padding

theorem Shared.one_le_w_max {cfg : Hpcc.Config} (h : Shared cfg) : 1 ≤ cfg.w_max :=
  h.w_init.trans h.w_init_le

section

variable {cfg : Hpcc.Config} {K : Finset (ℕ × ℕ)} {now now' : Reading} {st : Hpcc.Self}
  {s : SenderState}

theorem Matched.later (h : Matched cfg K now st s) (hle : now.NotAfter now') :
    Matched cfg K now' st s := by
  refine ⟨h.controls, h.books, h.keys, h.sized, ?_, h.updated.trans hle.2, h.next_le⟩
  intro i hi
  exact (h.stamps i hi).trans hle.1

/-! ## A burst iteration -/

theorem Matched.send (h : Matched cfg K now st s) (hc : Contig st.toTransport)
    (hnext : s.next_seq < EMPTY) (hroom : s.in_flight_count < INFLIGHT_MAX) :
    Matched cfg K now (Hpcc.cls.burst_iter st now.sent)
      (burst_iter (c_config cfg) s now.sent) := by
  obtain ⟨hslots, -, hseq, -⟩ :=
    burst_iter_books (c_config cfg) s now.sent
  obtain ⟨fw, fwref, finc, fu, fseq, fus, -, -, fhops⟩ :=
    send_one_fields (c_config cfg) s s.next_seq now.sent
  have hctl : (Hpcc.cls.burst_iter st now.sent).ctl = st.ctl :=
    ControllerInv.burst_iter_ctl (C := Hpcc.cls) st _
  refine ⟨?_, h.books.send hc hnext hroom _, ?_, by rw [hctl]; exact h.sized, ?_, ?_, ?_⟩
  · rw [hctl]
    exact h.controls.congr ⟨fw, fwref, finc, fu, fseq, fus, fhops⟩
  · show KeysIn (send_one (c_config cfg) s s.next_seq _).hops K
    rw [fhops]
    exact h.keys
  · -- the new time stamp is the reading itself, and the old ones are earlier
    have hstamps : AllSlots (fun _ ts => ts.val ≤ now.wall.val)
        (send_one (c_config cfg) s s.next_seq now.sent) := by
      refine allSlots_send_one (c_config cfg) h.stamps fun b t l heq => ?_
      rw [Reading.sent, SendCall.ok.injEq] at heq
      rw [heq.2.1]
    intro i hi
    unfold occupied at hi
    rw [hslots] at hi ⊢
    exact hstamps i hi
  · show (send_one (c_config cfg) s s.next_seq _).last_update_us.val ≤ _
    rw [fus]
    exact h.updated
  · rw [hseq]
    have hmod := Nat.mod_lt (s.next_seq + 1) (show 0 < 2 ^ 32 by norm_num)
    exact Nat.le_pred_of_lt hmod

/-! ## An RTO pass -/

theorem Matched.rto (h : Matched cfg K now st s) (hc : Contig st.toTransport)
    {calls : ℤ → SendCall} {ccalls : ℕ → SendCall} {log_us : Us}
    (hcalls : expired st.toTransport now.wall.val cfg.rto_us.val = true →
      (∀ k ∈ st.in_flight, calls k = now.sent) ∧
        ∀ k : ℕ, (k : ℤ) ∈ st.in_flight → ccalls k = now.sent) :
    Matched cfg K now
      (rto_checker Hpcc.snapshot Hpcc.rto_cut cfg.rto_us.val now.wall log_us calls st)
      (rto_check (c_config cfg) now.wall ccalls s) := by
  have hiff := h.books.fired_iff h.stamps
  -- both threads look at the same time stamps, so they fire together
  by_cases hx : expired st.toTransport now.wall.val cfg.rto_us.val = true
  · have hf := hiff.mpr hx
    obtain ⟨hpy, hcc⟩ := hcalls hx
    obtain ⟨-, hbooks⟩ := rto_check_fired h.books.placed ccalls hf
    have hsame : SameControls (rto_cut s) (rto_check (c_config cfg) now.wall ccalls s) :=
      ⟨hbooks.w, hbooks.w_ref, hbooks.incarnation, hbooks.u_smoothed, hbooks.last_update_seq,
        hbooks.last_update_us, hbooks.hops⟩
    have hctl : (rto_checker Hpcc.snapshot Hpcc.rto_cut cfg.rto_us.val now.wall log_us calls
        st).ctl = Hpcc.rto_cut st.ctl := rto_fired_ctl hx
    refine ⟨?_, h.books.rto h.next_le hc hf hx hpy hcc, ?_, ?_, ?_, ?_, ?_⟩
    · rw [hctl]
      exact h.controls.cut.congr hsame
    · rw [hbooks.hops]
      exact h.keys
    · obtain ⟨hlo, hhi⟩ := ControllerInv.halved_mem h.sized.one_le h.sized.w_le
      rw [hctl]
      exact ⟨rfl, hlo, hhi⟩
    · -- every packet in flight has just been sent again
      intro i hi
      have hcalls' : ∀ j, occupied s j → ccalls (s.inflight j).seq
          = now.sent := fun j hj => hcc _ (h.books.mem_of_occupied hj)
      obtain ⟨-, hts⟩ := (holds_rto h.books.placed hf hcalls' _ _).mp ⟨i, hi, rfl, rfl⟩
      exact (Nat.cast_inj.mp hts).le
    · rw [hbooks.last_update_us]
      exact h.updated
    · rw [hbooks.next_seq]
      exact h.next_le
  · rw [rto_checker_quiet (by simpa using hx), rto_check_quiet ccalls fun hf => hx (hiff.mp hf)]
    exact h

/-! ## An ACK -/

/-- Both listeners read a packed ACK alike. -/
theorem read_packed {a : AckPacket} {data : List Byte} (hpack : a.pack = .ok data) :
    (∃ shim, Hpcc.parse_ack (data.take Hpcc.RECV_BUF) = .ok (some (shim, a.hops, a.payload))) ∧
      decode_ack data = some (a.payload.ack_seq.toNat, wire_hops data) ∧
      (wire_hops data).map IntHopHost.hop = a.hops ∧ hops_of data = a.hops := by
  have hparse := Hpcc.parse_ack_pack hpack
  have htake : data.take RECV_BUF = data := Hpcc.take_pack hpack
  have heq := parse_ack_eq data
  rw [hparse, Except.ok.injEq] at heq
  by_cases hcond : LongEnough data ∧ hop_count data ≤ 8
  · rw [if_pos hcond, Option.some.injEq, Prod.mk.injEq, Prod.mk.injEq] at heq
    obtain ⟨-, hhops, hpay⟩ := heq
    -- a packed ACK has at most `MAX_HOPS` entries, so the C limit lets it through
    have hcount : hop_count data ≤ MAX_HOPS := by
      have hlen : (hops_of data).length = hop_count data := by simp [hops_of, hops_at]
      rw [← hlen, ← hhops]
      exact (AckPacket.pack_layout hpack).1
    refine ⟨⟨_, by rw [Hpcc.take_pack hpack]; exact hparse⟩, ?_, ?_, hhops.symm⟩
    · rw [decode_ack_eq, htake, if_pos ⟨hcond.1, hcount⟩, hpay]
    · rw [wire_hops_eq hcond.1, hhops]
  · rw [if_neg hcond] at heq
    cases heq

/-- The ports of an ACK's hops are in `K`. -/
def PortsIn (K : Finset (ℕ × ℕ)) (data : List Byte) : Prop :=
  ∀ hop ∈ hops_of data, hop.link_bps ≠ 0 → ∃ key ∈ K, Hpcc.hop_key hop = dict_key key

/-- The update of the Python sender keeps the window to its bounds. -/
theorem Sized.update (hv : Shared cfg) (h : Sized cfg st.ctl) (clk : AckClock) :
    Sized cfg (Hpcc.maybe_update_window_locked cfg clk st).1.ctl := by
  unfold Hpcc.maybe_update_window_locked
  rw [Hpcc.update_from_eq hv.eta_pos.ne']
  dsimp only
  split
  · have hmax : (1 : ℚ) ≤ cfg.w_max := by exact_mod_cast hv.one_le_w_max
    obtain ⟨hlo, hhi⟩ := ControllerInv.clamp_mem
      (x := st.ctl.w_ref / (st.ctl.u_eff / cfg.eta) + cfg.w_ai) hmax
    exact ⟨rfl, hlo, hhi⟩
  · exact h

theorem maybe_update_window_hops (cfg : CSender.Config) (now_mono : Us) (s : SenderState) :
    (maybe_update_window cfg now_mono s).hops = s.hops := by
  unfold maybe_update_window
  split
  · rfl
  · rfl

/-- The ACK of a packet in flight: the packets up to it are cleared, its hops are taken in,
and the window may be updated. -/
theorem Matched.fresh_ack (hv : Shared cfg) (hK : K.card ≤ HOP_TABLE_SZ) (h : Matched cfg K now st s)
    (hc : Contig st.toTransport) {k : ℕ} (hmem : (k : ℤ) ∈ st.in_flight)
    {hops : List IntHopHost}
    (hin : ∀ hop ∈ hops, hop.link_bps ≠ 0 → (hop.switch_id, hop.egress_port) ∈ K)
    {clk : AckClock} (hclk : clk.monotonic = seconds now.mono) (rtt_us : ℤ) :
    Matched cfg K now (Hpcc.on_ack_locked cfg clk k (hops.map IntHopHost.hop) rtt_us st).1
        (apply_u (c_config cfg) now.mono hops (acked s k)) ∧
      (Hpcc.on_ack_locked cfg clk k (hops.map IntHopHost.hop) rtt_us st).2 = none := by
  have hbooks := h.books.acked hc h.next_le hmem
  obtain ⟨fw, fwref, finc, fu, fseq, fus, fnext, fhops, -⟩ :=
    clear_range_fields s (s.cum_acked_seq + 1) ((k : ℤ) - s.cum_acked_seq).toNat
  have hcleared : Controls st.ctl (acked s k) :=
    h.controls.congr ⟨fw, fwref, finc, fu, fseq, fus, fhops⟩
  have hkeys : KeysIn (acked s k).hops K := by
    show KeysIn (clear_range s _ _).hops K
    rw [fhops]
    exact h.keys
  have hus : (acked s k).last_update_us.val ≤ now.mono.val := by
    show (clear_range s _ _).last_update_us.val ≤ _
    rw [fus]
    exact h.updated
  obtain ⟨htook, hkeys'⟩ : Controls (st.ctl.took cfg (hops.map IntHopHost.hop))
      (c_took (c_config cfg) hops (acked s k)) ∧
        KeysIn (c_took (c_config cfg) hops (acked s k)).hops K := hcleared.took hK hkeys hin
  obtain ⟨-, -, -, -, htus, htcum, -⟩ := c_took_fields (c_config cfg) hops (acked s k)
  obtain ⟨hslots, hcount, hnext, hcum, hsent⟩ :=
    apply_u_fields (c_config cfg) now.mono hops (acked s k)
  obtain ⟨hw, hwref, -⟩ := ControllerInv.Hpcc.took_fields cfg (hops.map IntHopHost.hop) st.ctl
  have hsized : Sized cfg (st.ctl.took cfg (hops.map IntHopHost.hop)) := by
    refine ⟨?_, ?_, ?_⟩
    · rw [hw, hwref, h.sized.w_eq]
    · rw [hwref]
      exact h.sized.one_le
    · rw [hwref]
      exact h.sized.w_le
  -- from here both sides are: clear, take in the hops, update the window
  rw [Hpcc.on_ack_eq]
  refine ⟨⟨?_, ?_, ?_, hsized.update hv clk, ?_, ?_, ?_⟩, ?_⟩
  · rw [apply_u_took]
    refine Controls.update htook ?_ hv.one_le_w_max hv.eta_pos.ne' hclk (by rw [htus]; exact hus)
    rw [htcum, hbooks.cum_acked_seq]
    rfl
  · unfold Hpcc.maybe_update_window_locked
    rw [Hpcc.update_from_toTransport]
    exact hbooks.congr hslots hcount hnext hcum hsent
  · rw [apply_u_took, maybe_update_window_hops]
    exact hkeys'
  · have hstamps : AllSlots (fun _ ts => ts.val ≤ now.wall.val) (acked s k) :=
      (cleared_clear_range s _ _).allSlots h.stamps
    intro i hi
    unfold occupied at hi
    rw [hslots] at hi ⊢
    exact hstamps i hi
  · rcases apply_u_update (c_config cfg) now.mono hops (acked s k) with ⟨-, heq⟩ | ⟨heq, -⟩
    · rw [heq]
      exact hus
    · rw [heq]
  · rw [hnext]
    show (clear_range s _ _).next_seq ≤ _
    rw [fnext]
    exact h.next_le
  · unfold Hpcc.maybe_update_window_locked
    rw [Hpcc.update_from_eq hv.eta_pos.ne']

/-- An ACK of the reflector: of a packet that has been sent, with hops whose ports fit the
table. -/
theorem Matched.ack (hv : Shared cfg) (hK : K.card ≤ HOP_TABLE_SZ) (h : Matched cfg K now st s)
    (hc : Contig st.toTransport) {a : AckPacket} {data : List Byte} (hpack : a.pack = .ok data)
    (hseq : 0 ≤ a.payload.ack_seq) (hlt : a.payload.ack_seq < st.next_seq)
    (hports : PortsIn K data) {clk : AckClock} (hclk : clk.monotonic = seconds now.mono) :
    Matched cfg K now (Hpcc.ack_listener cfg clk data st).1
        (ack_thread (c_config cfg) now.mono data s) ∧
      (Hpcc.ack_listener cfg clk data st).2 = none := by
  obtain ⟨⟨shim, hparse⟩, hdecode, hhops, hhops'⟩ := read_packed hpack
  obtain ⟨k, hk⟩ := Int.eq_ofNat_of_zero_le hseq
  rw [hk, Int.toNat_natCast] at hdecode
  rw [hk] at hlt
  have hnext := h.books.next_seq
  have hend := h.next_le
  have hkempty : k ≠ EMPTY := by omega
  have hget := h.books.inflight_get_isSome hkempty
  have hthread : ack_thread (c_config cfg) now.mono data s
      = on_ack (c_config cfg) now.mono k (wire_hops data) s := ack_thread_eq now.mono hdecode
  -- the Python listener looks the number up before it does anything
  have hlisten : Hpcc.ack_listener cfg clk data st =
      if st.in_flight.lookup (k : ℤ) = none ∧ (k : ℤ) ≤ st.cum_acked_seq then (st, none)
      else Hpcc.on_ack_locked cfg clk k a.hops
        (Hpcc.ack_rtt clk.now_us (st.in_flight.lookup (k : ℤ))) st := by
    unfold Hpcc.ack_listener Hpcc.listen
    rw [hparse]
    dsimp only
    rw [hk]
  rw [hthread, hlisten]
  unfold on_ack
  by_cases hmem : (k : ℤ) ∈ st.in_flight
  · obtain ⟨e, he⟩ := Option.isSome_iff_exists.mp (hget.mpr hmem)
    have hlookup : st.in_flight.lookup (k : ℤ) ≠ none := by
      rw [Ne, AList.lookup_eq_none, not_not]
      exact hmem
    have hin : ∀ hop ∈ wire_hops data, hop.link_bps ≠ 0 →
        (hop.switch_id, hop.egress_port) ∈ K := by
      intro hop hhop hlink
      have hwire : hop.hop ∈ hops_of data := by
        rw [hhops', ← hhops]
        exact List.mem_map_of_mem hhop
      obtain ⟨key, hkey, heq⟩ := hports _ hwire (by
        rw [IntHopHost.hop_link_bps]
        exact_mod_cast hlink)
      rw [IntHopHost.hop_key] at heq
      rwa [dict_key_injective heq]
    rw [if_neg fun hlate => hlookup hlate.1, he, ← hhops]
    exact h.fresh_ack hv hK hc hmem hin hclk _
  · -- what is not in flight any more has been acknowledged
    have hle : (k : ℤ) ≤ st.cum_acked_seq := by
      rw [hc.mem_iff, not_and, not_lt] at hmem
      by_contra hgt
      have := hmem (not_le.mp hgt)
      omega
    have hnone : inflight_get s k = none := by
      rw [← Option.not_isSome_iff_eq_none, hget]
      exact hmem
    rw [if_pos ⟨AList.lookup_eq_none.mpr hmem, hle⟩, hnone]
    dsimp only
    rw [h.books.cum_acked_seq, if_pos hle]
    exact ⟨h, rfl⟩

end

end IntHpcc.CRefines
