/-
`extensions/qsnap/hpcc_qsnap.p4`: `hpcc.p4` with a ring of queue depths.

The program is a copy of `hpcc.p4` that also writes the queue depth of every packet it
stamps into a register of 1024 cells, at the packet's 8 ms bucket. Nothing reads the ring
in the data plane, so the copy cannot be told from the original by what it sends
(`egress_simulates`); and the index is always in range, so the ring holds, for each of its
slots, what the last packet of a bucket of that slot met (`snapshot_run`).
-/
import IntHpcc.Mealy
import IntHpcc.PortMeter

set_option autoImplicit false

namespace IntHpcc.P4

open IntHpcc.Bytes IntHpcc.HeaderLayout IntHpcc.Mealy

/-! ## The program -/

namespace QsnapSwitch

def QSNAP_SLOTS : ℕ := 1024
def QSNAP_SHIFT : ℕ := 13

/-- The registers of `HpccQsnapEgress`. -/
structure QsnapRegisters where
  tx_byte_count_reg : Register 48 BMV2_MAX_PORTS
  link_bps_reg : Register 32 BMV2_MAX_PORTS
  switch_id_reg : Register 16 1
  qdepth_history : Register 32 QSNAP_SLOTS

/-- `HpccQsnapIngress`, the same text as `HpccIngress`. -/
def HpccQsnapIngress : List LpmEntry → headers_t → standard_metadata_t →
    headers_t × standard_metadata_t := ingress_apply

/-- `(bit<32>)(std_meta.egress_global_timestamp >> QSNAP_SHIFT) & 32w0x000003FF`. -/
def bucket (std_meta : standard_metadata_t) : BitVec 32 :=
  (std_meta.egress_global_timestamp >>> QSNAP_SHIFT).setWidth 32 &&& 0x000003FF#32

/-- `HpccQsnapEgress`. -/
def HpccQsnapEgress (r : QsnapRegisters) (hdr : headers_t) (metadata : metadata_t)
    (std_meta : standard_metadata_t) : QsnapRegisters × headers_t :=
  if hdr.ipv4 = none ∨ metadata.is_data ≠ 1#1 then (r, hdr)
  else
    match hdr.shim with
    -- not reached: `is_data` is set once the shim has been extracted
    | none => (r, hdr)
    | some shim =>
      if MAX_HOPS ≤ shim.hop_count.toNat then (r, hdr)
      else
        let egport : BitVec 32 := std_meta.egress_port.setWidth 32
        let bytes_so_far := r.tx_byte_count_reg.read egport
        let bytes_so_far := bytes_so_far + std_meta.packet_length.setWidth 48 + 26#48
        let tx_byte_count_reg := r.tx_byte_count_reg.write egport bytes_so_far
        let bps := r.link_bps_reg.read egport
        let swid := r.switch_id_reg.read 0#32
        let hop : int_hop_t := {
          switch_id := swid
          ingress_port := std_meta.ingress_port.setWidth 16
          egress_port := std_meta.egress_port.setWidth 16
          qdepth := std_meta.enq_qdepth.setWidth 32
          egress_tstamp_us := std_meta.egress_global_timestamp
          tx_byte_count := bytes_so_far
          link_bps := bps }
        let hdr := { hdr with
          hops := hdr.hops.push_front.set 0 hop
          shim := some { shim with hop_count := shim.hop_count + 1#8 }
          udp := hdr.udp.map fun u => { u with
            length := u.length + 26#16
            checksum := 0#16 }
          ipv4 := hdr.ipv4.map fun ip => { ip with total_len := ip.total_len + 26#16 } }
        let qdepth_history :=
          r.qdepth_history.write (bucket std_meta) (std_meta.enq_qdepth.setWidth 32)
        ({ r with
            tx_byte_count_reg := tx_byte_count_reg
            qdepth_history := qdepth_history }, hdr)

end QsnapSwitch

/-- A switch that runs `hpcc_qsnap.p4`. -/
structure QsnapSwitch where
  table : List LpmEntry
  registers : QsnapSwitch.QsnapRegisters

namespace QsnapSwitch

/-- One packet through a switch. -/
def process (sw : QsnapSwitch) (std_meta : standard_metadata_t) (frame : List Byte) :
    QsnapRegisters × Option (List Byte) :=
  V1Switch (HpccQsnapIngress sw.table) HpccQsnapEgress sw.registers std_meta frame

/-- The egress port ingress chooses. -/
def egress_port (a : Arrival) : BitVec 9 :=
  let p := CommonParser a.frame
  let std_meta := CommonVerifyChecksum p.hdr
    { a.std_meta with
      egress_spec := 0#9
      checksum_error := 0#1 }
  (HpccQsnapIngress a.table p.hdr std_meta).2.egress_spec

/-- One packet through the switch, and what leaves. -/
def transmit (r : QsnapRegisters) (a : Arrival) : QsnapRegisters × Option Departure :=
  let out := process ⟨a.table, r⟩ a.std_meta a.frame
  (out.1, out.2.map fun sent => ⟨egress_port a, a.frame, sent⟩)

/-! ## The packets -/

/-- The registers both programs have are equal. -/
structure SameRegisters (r : QsnapRegisters) (s : HpccRegisters) : Prop where
  tx_byte_count_reg : r.tx_byte_count_reg = s.tx_byte_count_reg
  link_bps_reg : r.link_bps_reg = s.link_bps_reg
  switch_id_reg : r.switch_id_reg = s.switch_id_reg

variable {r : QsnapRegisters} {s : HpccRegisters}

/-- Egress does the same to the headers and to the registers both programs have. -/
theorem egress_simulates (h : SameRegisters r s) (hdr : headers_t) (metadata : metadata_t)
    (std_meta : standard_metadata_t) :
    (HpccQsnapEgress r hdr metadata std_meta).2 = (HpccEgress s hdr metadata std_meta).2 ∧
      SameRegisters (HpccQsnapEgress r hdr metadata std_meta).1
        (HpccEgress s hdr metadata std_meta).1 := by
  obtain ⟨tx_byte_count_reg, link_bps_reg, switch_id_reg⟩ := s
  obtain ⟨rfl, rfl, rfl⟩ := h
  unfold HpccQsnapEgress HpccEgress
  by_cases hguard : hdr.ipv4 = none ∨ metadata.is_data ≠ 1#1
  · rw [if_pos hguard, if_pos hguard]
    exact ⟨rfl, rfl, rfl, rfl⟩
  · rw [if_neg hguard, if_neg hguard]
    cases hdr.shim with
    | none => exact ⟨rfl, rfl, rfl, rfl⟩
    | some shim =>
        dsimp only
        by_cases hfull : MAX_HOPS ≤ shim.hop_count.toNat
        · rw [if_pos hfull, if_pos hfull]
          exact ⟨rfl, rfl, rfl, rfl⟩
        · rw [if_neg hfull, if_neg hfull]
          exact ⟨rfl, rfl, rfl, rfl⟩

/-- A switch sends the same packet. -/
theorem transmit_simulates (h : SameRegisters r s) (a : Arrival) :
    (transmit r a).2 = (P4.transmit s a).2 ∧
      SameRegisters (transmit r a).1 (P4.transmit s a).1 := by
  have hport : egress_port a = a.egress_port := rfl
  have hegress := fun hdr std_meta =>
    egress_simulates h hdr (CommonParser a.frame).metadata std_meta
  unfold transmit P4.transmit process HpccSwitch.process HpccQsnapIngress HpccIngress V1Switch
  rw [hport]
  dsimp only
  by_cases hdrop : (ingress_apply a.table (CommonParser a.frame).hdr
      (CommonVerifyChecksum (CommonParser a.frame).hdr
        { a.std_meta with
          egress_spec := 0#9
          checksum_error := 0#1 })).2.egress_spec = DROP_PORT
  · rw [if_pos hdrop, if_pos hdrop]
    exact ⟨rfl, h⟩
  · rw [if_neg hdrop, if_neg hdrop]
    obtain ⟨hhdr, hregs⟩ := hegress _ _
    exact ⟨by rw [hhdr], hregs⟩

/-! ## The ring -/

/-- The index is in range, and it is the bucket modulo the size of the ring. -/
theorem bucket_toNat (std_meta : standard_metadata_t) :
    (bucket std_meta).toNat
      = std_meta.egress_global_timestamp.toNat / 2 ^ QSNAP_SHIFT % QSNAP_SLOTS := by
  have hmask : (0x000003FF#32).toNat = 2 ^ 10 - 1 := rfl
  have hslots : QSNAP_SLOTS = 2 ^ 10 := rfl
  unfold bucket
  rw [BitVec.toNat_and, BitVec.toNat_setWidth, BitVec.toNat_ushiftRight, hmask,
    Nat.and_two_pow_sub_one_eq_mod, Nat.mod_mod_of_dvd _ (Nat.pow_dvd_pow 2 (by decide)), hslots,
    Nat.shiftRight_eq_div_pow]

theorem bucket_lt (std_meta : standard_metadata_t) : (bucket std_meta).toNat < QSNAP_SLOTS := by
  rw [bucket_toNat]
  exact Nat.mod_lt _ (by decide)

end QsnapSwitch

instance (a : Arrival) : Decidable a.IntStamped := inferInstanceAs (Decidable (_ ∧ _))

/-- The 8 ms bucket of a packet. -/
def Arrival.time_bucket (a : Arrival) : ℕ :=
  a.std_meta.egress_global_timestamp.toNat / 2 ^ QsnapSwitch.QSNAP_SHIFT

namespace QsnapSwitch

/-- A packet that is stamped is written into the ring. -/
theorem egress_history (r : QsnapRegisters) {hdr : headers_t} {metadata : metadata_t}
    (std_meta : standard_metadata_t) {shim : shim_t} (hip : hdr.ipv4 ≠ none)
    (hdata : metadata.is_data = 1#1) (hshim : hdr.shim = some shim)
    (hroom : shim.hop_count.toNat < MAX_HOPS) :
    (HpccQsnapEgress r hdr metadata std_meta).1.qdepth_history
      = r.qdepth_history.write (bucket std_meta) (std_meta.enq_qdepth.setWidth 32) := by
  have hguard : ¬ (hdr.ipv4 = none ∨ metadata.is_data ≠ 1#1) := by
    rintro (h | h)
    · exact hip h
    · exact h hdata
  unfold HpccQsnapEgress
  rw [if_neg hguard, hshim]
  dsimp only
  rw [if_neg (not_le.mpr hroom)]

/-- Another is left alone, and the registers with it. -/
theorem egress_quiet (r : QsnapRegisters) {hdr : headers_t} {metadata : metadata_t}
    (std_meta : standard_metadata_t) (h : ¬ (hdr.ipv4 ≠ none ∧ metadata.is_data = 1#1 ∧
      ∃ shim, hdr.shim = some shim ∧ shim.hop_count.toNat < MAX_HOPS)) :
    HpccQsnapEgress r hdr metadata std_meta = (r, hdr) := by
  unfold HpccQsnapEgress
  by_cases hguard : hdr.ipv4 = none ∨ metadata.is_data ≠ 1#1
  · rw [if_pos hguard]
  · rw [if_neg hguard]
    push Not at hguard
    cases hshim : hdr.shim with
    | none => rfl
    | some shim =>
        dsimp only
        have hfull : MAX_HOPS ≤ shim.hop_count.toNat := by
          by_contra hlt
          exact h ⟨hguard.1, hguard.2, shim, hshim, not_le.mp hlt⟩
        rw [if_pos hfull]

/-- Egress leaves a frame that is not stamped alone. -/
theorem egress_of_not_stamped {frame : List Byte} (h : ¬ Stamped frame) (r : QsnapRegisters)
    (a : LpmAction) (std_meta : standard_metadata_t) :
    HpccQsnapEgress r (forwarded a (CommonParser frame).hdr) (CommonParser frame).metadata std_meta
      = (r, forwarded a (CommonParser frame).hdr) :=
  egress_quiet r std_meta fun h' => h h'.2

/-- What a packet does to the ring. -/
theorem transmit_history (r : QsnapRegisters) (a : Arrival) :
    (transmit r a).1.qdepth_history = if a.IntStamped then
      r.qdepth_history.write (bucket a.std_meta) (a.std_meta.enq_qdepth.setWidth 32)
    else r.qdepth_history := by
  unfold transmit process HpccQsnapIngress
  cases hip : (CommonParser a.frame).hdr.ipv4 with
  | none =>
      have hnot : ¬ a.IntStamped := by
        rintro ⟨-, ip, hmem, -⟩
        rw [hip] at hmem
        cases hmem
      have hquiet : ∀ std_meta, HpccQsnapEgress r (CommonParser a.frame).hdr
          (CommonParser a.frame).metadata std_meta = (r, (CommonParser a.frame).hdr) :=
        fun std_meta => egress_quiet r std_meta fun h => h.1 hip
      rw [V1Switch_of_no_ipv4 hip hquiet, if_neg hnot]
  | some ip =>
      by_cases hpass : Passes a.table ip
      · rw [V1Switch_of_passes rfl hip hpass]
        dsimp only
        have hip' : (forwarded (ipv4_lpm a.table ip.dst_addr) (CommonParser a.frame).hdr).ipv4
            ≠ none := by
          rw [forwarded, hip]
          exact Option.some_ne_none _
        by_cases hs : Stamped a.frame
        · obtain ⟨hdata, shim, hshim, hroom⟩ := hs
          have hstamped : a.IntStamped := ⟨⟨hdata, shim, hshim, hroom⟩, ip, hip, hpass⟩
          -- the time and the queue depth are those the packet came with
          obtain ⟨checksum_error, heq⟩ := at_egress_eq (CommonParser a.frame).hdr
            (ipv4_lpm a.table ip.dst_addr) a.std_meta
          rw [if_pos hstamped, egress_history r _ hip' hdata hshim hroom, heq]
          rfl
        · have hnot : ¬ a.IntStamped := fun h => hs h.1
          rw [if_neg hnot, egress_of_not_stamped hs]
      · have hnot : ¬ a.IntStamped := by
          rintro ⟨-, ip', hmem, h⟩
          rw [hip] at hmem
          exact hpass (Option.some.inj hmem ▸ h)
        rw [V1Switch_of_not_passes rfl hip hpass, if_neg hnot]

/-- The packet is written into the slot `i`. -/
def Fills (i : Fin QSNAP_SLOTS) (a : Arrival) : Prop :=
  a.IntStamped ∧ a.time_bucket % QSNAP_SLOTS = i

instance (i : Fin QSNAP_SLOTS) : DecidablePred (Fills i) := fun _ =>
  inferInstanceAs (Decidable (_ ∧ _))

/-- One slot and one packet. -/
theorem transmit_cells (r : QsnapRegisters) (a : Arrival) (i : Fin QSNAP_SLOTS) :
    (transmit r a).1.qdepth_history.cells i = if Fills i a then a.std_meta.enq_qdepth.setWidth 32
      else r.qdepth_history.cells i := by
  rw [transmit_history]
  by_cases hs : a.IntStamped
  · have hindex : (bucket a.std_meta).toNat = i ↔ Fills i a := by
      rw [bucket_toNat]
      exact (and_iff_right hs).symm
    rw [if_pos hs, Register.cells_write]
    exact if_congr hindex rfl rfl
  · have hf : ¬ Fills i a := fun h => hs h.1
    rw [if_neg hs, if_neg hf]

/-- A slot of the ring after a run: what the last packet of its buckets met. -/
theorem snapshot_run (r : QsnapRegisters) (arrivals : List Arrival) (i : Fin QSNAP_SLOTS) :
    (after transmit r arrivals).qdepth_history.cells i
      = ((arrivals.filter (Fills i)).getLast?.map fun a => a.std_meta.enq_qdepth.setWidth 32).getD
          (r.qdepth_history.cells i) := by
  have hwrite : ∀ (r : QsnapRegisters) (a : Arrival), Fills i a →
      (transmit r a).1.qdepth_history.cells i = a.std_meta.enq_qdepth.setWidth 32 := by
    intro r a hf
    rw [transmit_cells, if_pos hf]
  have hkeep : ∀ (r : QsnapRegisters) (a : Arrival), ¬ Fills i a →
      (transmit r a).1.qdepth_history.cells i = r.qdepth_history.cells i := by
    intro r a hf
    rw [transmit_cells, if_neg hf]
  exact foldl_last_write (fun r : QsnapRegisters => r.qdepth_history.cells i) _ hwrite hkeep r
    arrivals

/-! ## A run -/

/-- **The snapshot program is `hpcc.p4` with a ring.** From equal registers, whatever the
packets, their metadata and the tables: both programs send the same packets and keep the
registers equal; the index into the ring is in range; and each slot holds the queue depth of
the last packet stamped in one of its 8 ms buckets, or what it held before if there was
none. -/
theorem qsnap_refines_hpcc {r : QsnapRegisters} {s : HpccRegisters} (h : SameRegisters r s)
    (arrivals : List Arrival) :
    answers transmit r arrivals = answers P4.transmit s arrivals ∧
      SameRegisters (after transmit r arrivals) (after P4.transmit s arrivals) ∧
      (∀ std_meta, (bucket std_meta).toNat < QSNAP_SLOTS) ∧
      ∀ i : Fin QSNAP_SLOTS, ((after transmit r arrivals).qdepth_history.cells i).toNat
        = match (arrivals.filter (Fills i)).getLast? with
          | some a => a.std_meta.enq_qdepth.toNat
          | none => (r.qdepth_history.cells i).toNat := by
  obtain ⟨hsent, hsame⟩ :=
    answers_eq_of_simulation (R := SameRegisters) (fun _ _ a h => transmit_simulates h a) h arrivals
  refine ⟨hsent, hsame, bucket_lt, ?_⟩
  intro i
  rw [snapshot_run]
  cases (arrivals.filter (Fills i)).getLast? with
  | none => rfl
  | some a =>
      -- 19 bits fit in 32
      exact BitVec.toNat_setWidth_of_le (by decide)

/-! ## A ring that wraps around -/

/-- A packet of the host that meets a queue of `depth` packets at the time `ts`. -/
def queued (frame : List Byte) (depth : BitVec 19) (ts : BitVec 48) : Arrival where
  table := (one_way_switch 1#16).table
  std_meta := { idle_meta with
    enq_qdepth := depth
    egress_global_timestamp := ts }
  frame := frame

/-- A data packet in bucket 1025, one in bucket 1 and an ACK in the same bucket. -/
def wrapping : List Arrival :=
  [queued frame_seven.bytes 5#19 8396800#48, queued frame_seven.bytes 7#19 8192#48,
    queued ack_seven 9#19 8193#48]

/-- The switch, with a ring of threes. -/
def ring_of_threes : QsnapRegisters where
  tx_byte_count_reg := (one_way_switch 1#16).registers.tx_byte_count_reg
  link_bps_reg := (one_way_switch 1#16).registers.link_bps_reg
  switch_id_reg := (one_way_switch 1#16).registers.switch_id_reg
  qdepth_history :=
    { cells := fun _ => 3#32
      past_end := 0#32 }

theorem queued_stamped_iff {frame : List Byte}
    (hip : (CommonParser frame).hdr.ipv4 = some frame_seven.ipv4) (depth : BitVec 19)
    (ts : BitVec 48) : (queued frame depth ts).IntStamped ↔ Stamped frame :=
  ⟨fun h => h.1, fun hs => ⟨hs, _, hip, frame_seven_passes.1⟩⟩

theorem wrapping_last (i : Fin QSNAP_SLOTS) : (wrapping.filter (Fills i)).getLast?
    = if i.val = 1 then some (queued frame_seven.bytes 7#19 8192#48) else none := by
  have hack : ∀ depth ts, ¬ Fills i (queued ack_seven depth ts) := fun depth ts h =>
    ack_seven_parse.2.1 ((queued_stamped_iff ack_seven_parse.1 depth ts).mp h.1)
  have hdata : ∀ depth ts, Fills i (queued frame_seven.bytes depth ts) ↔
      ts.toNat / 2 ^ QSNAP_SHIFT % QSNAP_SLOTS = i.val := fun depth ts =>
    and_iff_right ((queued_stamped_iff frame_seven_parse.1 depth ts).mpr frame_seven_parse.2.1)
  -- both data packets are in the bucket 1 of the ring
  have hwrapped : (8396800#48).toNat / 2 ^ QSNAP_SHIFT % QSNAP_SLOTS = 1 := by decide
  have hfirst : (8192#48).toNat / 2 ^ QSNAP_SHIFT % QSNAP_SLOTS = 1 := by decide
  unfold wrapping
  simp only [List.filter_cons, decide_eq_true_eq, hdata, hack, hwrapped, hfirst, List.filter_nil,
    if_false]
  by_cases hi : i.val = 1
  · rw [if_pos hi.symm, if_pos hi.symm, if_pos hi]
    rfl
  · rw [if_neg (Ne.symm hi), if_neg (Ne.symm hi), if_neg hi]
    rfl

/-- The slot of both buckets holds what the packet that came last met, although it is
the older one by its time stamp; the next slot holds what it held. -/
theorem qsnap_refines_hpcc_wrapping :
    answers transmit ring_of_threes wrapping
        = answers P4.transmit (one_way_switch 1#16).registers wrapping ∧
      ((after transmit ring_of_threes wrapping).qdepth_history.cells ⟨1, by decide⟩).toNat = 7 ∧
      ((after transmit ring_of_threes wrapping).qdepth_history.cells ⟨2, by decide⟩).toNat = 3 := by
  obtain ⟨hsent, -, -, hslots⟩ := qsnap_refines_hpcc
    (r := ring_of_threes) (s := (one_way_switch 1#16).registers) ⟨rfl, rfl, rfl⟩ wrapping
  refine ⟨hsent, ?_, ?_⟩
  · rw [hslots, wrapping_last]
    rfl
  · rw [hslots, wrapping_last]
    rfl

end QsnapSwitch

end IntHpcc.P4
