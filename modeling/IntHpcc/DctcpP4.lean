/-
`p4src/dctcp.p4`: the data plane that marks data packets with CE when the egress queue is
over a threshold, and counts what it sees and what it marks.

The ingress is `hpcc.p4`'s. One packet through the switch is a rewrite of the ECN field of
a data frame and nothing else (`process_data`); an ACK goes through uncounted
(`process_ack_port`). Over any run the two counters are the number of data packets and the
number of marks modulo 2^64 (`counters_run`).
-/
import IntHpcc.PortMeter

set_option autoImplicit false

namespace IntHpcc.P4

open IntHpcc.Bytes IntHpcc.HeaderLayout

/-! ## The program -/

namespace DctcpSwitch

def ECN_NOT_ECT : BitVec 2 := 0#2
def ECN_ECT_0 : BitVec 2 := 2#2
def ECN_CE : BitVec 2 := 3#2

/-- The registers of `DctcpEgress`. -/
structure DctcpRegisters where
  ecn_threshold : Register 32 1
  data_pkt_count : Register 64 1
  marked_pkt_count : Register 64 1

/-- `DctcpIngress`, the same text as `HpccIngress`. -/
def DctcpIngress : List LpmEntry → headers_t → standard_metadata_t →
    headers_t × standard_metadata_t := ingress_apply

/-- `count.read(n, 0); count.write(0, n + 1)`. -/
def increment (count : Register 64 1) : Register 64 1 := count.write 0#32 (count.read 0#32 + 1#64)

/-- `DctcpEgress`. -/
def DctcpEgress (r : DctcpRegisters) (hdr : headers_t) (metadata : metadata_t)
    (std_meta : standard_metadata_t) : DctcpRegisters × headers_t :=
  match hdr.ipv4 with
  | none => (r, hdr)
  | some ip =>
    if metadata.is_data ≠ 1#1 then (r, hdr)
    else
      let r := { r with data_pkt_count := increment r.data_pkt_count }
      -- only packets the sender has opted into ECN for
      if ip.ecn = ECN_NOT_ECT then (r, hdr)
      else
        let K := r.ecn_threshold.read 0#32
        if K < std_meta.enq_qdepth.setWidth 32 then
          ({ r with marked_pkt_count := increment r.marked_pkt_count },
            { hdr with ipv4 := some { ip with ecn := ECN_CE } })
        else (r, hdr)

end DctcpSwitch

/-- A switch that runs `dctcp.p4`. -/
structure DctcpSwitch where
  table : List LpmEntry
  registers : DctcpSwitch.DctcpRegisters

namespace DctcpSwitch

/-- One packet through a switch. -/
def process (sw : DctcpSwitch) (std_meta : standard_metadata_t) (frame : List Byte) :
    DctcpRegisters × Option (List Byte) :=
  V1Switch (DctcpIngress sw.table) DctcpEgress sw.registers std_meta frame

/-! ## One packet -/

/-- The queue the packet meets is over the switch's threshold. -/
def Over (r : DctcpRegisters) (std_meta : standard_metadata_t) : Prop :=
  (r.ecn_threshold.read 0#32).toNat < std_meta.enq_qdepth.toNat

instance (r : DctcpRegisters) (std_meta : standard_metadata_t) : Decidable (Over r std_meta) :=
  inferInstanceAs (Decidable ((r.ecn_threshold.read 0#32).toNat < std_meta.enq_qdepth.toNat))

theorem over_iff (r : DctcpRegisters) (std_meta : standard_metadata_t) :
    r.ecn_threshold.read 0#32 < std_meta.enq_qdepth.setWidth 32 ↔ Over r std_meta := by
  have hwidth : (std_meta.enq_qdepth.setWidth 32).toNat = std_meta.enq_qdepth.toNat :=
    BitVec.toNat_setWidth_of_le (by decide)
  rw [BitVec.lt_def, hwidth]
  exact Iff.rfl

/-- The registers after a data packet that is marked or not. -/
def DctcpRegisters.counted (r : DctcpRegisters) (marked : Bool) : DctcpRegisters :=
  { r with
    data_pkt_count := increment r.data_pkt_count
    marked_pkt_count := if marked then increment r.marked_pkt_count else r.marked_pkt_count }

theorem at_egress_enq_qdepth (hdr : headers_t) (a : LpmAction) (std_meta : standard_metadata_t) :
    (at_egress hdr a std_meta).enq_qdepth = std_meta.enq_qdepth := by
  obtain ⟨checksum_error, heq⟩ := at_egress_eq hdr a std_meta
  rw [heq]

/-- The ECN field a switch leaves. -/
def ecn_after (r : DctcpRegisters) (std_meta : standard_metadata_t) (ecn : BitVec 2) : BitVec 2 :=
  if Over r std_meta then ECN_CE else ecn

/-- Egress, for a data packet of a sender that has opted in … -/
theorem egress_data {r : DctcpRegisters} (hdr : headers_t) (metadata : metadata_t) {ip : ipv4_t}
    (std_meta : standard_metadata_t) (hip : hdr.ipv4 = some ip) (hdata : metadata.is_data = 1#1)
    (hect : ip.ecn ≠ ECN_NOT_ECT) :
    DctcpEgress r hdr metadata std_meta = (r.counted (decide (Over r std_meta)),
      { hdr with ipv4 := some { ip with ecn := ecn_after r std_meta ip.ecn } }) := by
  have hother : ¬ metadata.is_data ≠ 1#1 := not_not.mpr hdata
  have hsame : ({ hdr with ipv4 := some ip } : headers_t) = hdr := by rw [← hip]
  unfold DctcpEgress
  rw [hip]
  dsimp only
  rw [if_neg hother, if_neg hect]
  by_cases hover : Over r std_meta
  · rw [if_pos ((over_iff r std_meta).mpr hover), DctcpRegisters.counted, ecn_after, if_pos hover,
      decide_eq_true hover]
    rfl
  · rw [if_neg fun h => hover ((over_iff r std_meta).mp h), DctcpRegisters.counted, ecn_after,
      if_neg hover, decide_eq_false hover]
    exact Prod.ext rfl hsame.symm

/-- … for one whose sender has not … -/
theorem egress_not_ect {r : DctcpRegisters} {hdr : headers_t} {metadata : metadata_t} {ip : ipv4_t}
    (std_meta : standard_metadata_t) (hip : hdr.ipv4 = some ip) (hdata : metadata.is_data = 1#1)
    (hect : ip.ecn = ECN_NOT_ECT) :
    DctcpEgress r hdr metadata std_meta = (r.counted false, hdr) := by
  have hother : ¬ metadata.is_data ≠ 1#1 := not_not.mpr hdata
  unfold DctcpEgress
  rw [hip]
  dsimp only
  rw [if_neg hother, if_pos hect]
  rfl

/-- … and for any other packet. -/
theorem egress_other {r : DctcpRegisters} {hdr : headers_t} {metadata : metadata_t}
    (std_meta : standard_metadata_t) (hother : metadata.is_data ≠ 1#1) :
    DctcpEgress r hdr metadata std_meta = (r, hdr) := by
  unfold DctcpEgress
  cases hdr.ipv4 with
  | none => rfl
  | some ip => exact if_pos hother

end DctcpSwitch

/-- The frame with another ECN field. -/
def UdpFrame.with_ecn (f : UdpFrame) (ecn : BitVec 2) : UdpFrame where
  ethernet := f.ethernet
  ipv4 := { f.ipv4 with ecn := ecn }
  udp := f.udp
  payload := f.payload
  is_ipv4 := f.is_ipv4
  version_eq := f.version_eq
  no_options := f.no_options
  unfragmented := f.unfragmented
  is_udp := f.is_udp
  total_len_eq := f.total_len_eq
  length_eq := f.length_eq

theorem UdpFrame.with_ecn_bytes (f : UdpFrame) (ecn : BitVec 2) (a : LpmAction) :
    ((f.with_ecn ecn).relayed a).bytes = ethernet_t.layout.emit (a.ethernet f.ethernet) ++
      (ipv4_t.layout.emit ({ f.ipv4 with ecn := ecn }.sent a f.ipv4.total_len) ++
        (udp_t.layout.emit f.udp ++ f.payload)) := rfl

namespace DctcpSwitch

variable {sw : DctcpSwitch} {f : UdpFrame} {shim : shim_t} {hops : List int_hop_t}
  {tail : List Byte}

/-- A switch counts a data packet, marks it if the queue is over the threshold, and sends
it on with the payload as it was. -/
theorem process_data (std_meta : standard_metadata_t) {data : data_payload_t}
    (hport : f.udp.dst_port = DATA_PORT) (h : Counted shim hops)
    (hpay : f.payload = data_bytes shim hops data tail) (hect : f.ipv4.ecn ≠ ECN_NOT_ECT)
    (hpass : Passes sw.table f.ipv4) :
    sw.process std_meta f.bytes = (sw.registers.counted (decide (Over sw.registers std_meta)),
      some ((f.with_ecn (ecn_after sw.registers std_meta f.ipv4.ecn)).relayed
        (ipv4_lpm sw.table f.ipv4.dst_addr)).bytes) := by
  have hq := at_egress_enq_qdepth (data_headers f shim hops h.le_max data)
    (ipv4_lpm sw.table f.ipv4.dst_addr) std_meta
  generalize hm : at_egress (data_headers f shim hops h.le_max data)
    (ipv4_lpm sw.table f.ipv4.dst_addr) std_meta = m at hq
  -- the queue depth of the egress pipeline is the arriving packet's
  have hover : Over sw.registers m ↔ Over sw.registers std_meta := by
    rw [Over, Over, hq]
  have hcounted : decide (Over sw.registers m) = decide (Over sw.registers std_meta) :=
    decide_eq_decide.mpr hover
  have hafter : ecn_after sw.registers m f.ipv4.ecn = ecn_after sw.registers std_meta f.ipv4.ecn :=
    if_congr hover rfl rfl
  have hegress := egress_data (r := sw.registers)
    (forwarded (ipv4_lpm sw.table f.ipv4.dst_addr) (data_headers f shim hops h.le_max data))
    { is_data := 1#1 } m rfl rfl hect
  unfold process DctcpIngress
  rw [V1Switch_of_passes (parse_data hport h hpay) rfl hpass]
  dsimp only
  rw [hm, hegress, deparse_frame h.le_max rfl rfl rfl rfl rfl, hcounted, ← hafter,
    UdpFrame.with_ecn_bytes, hpay]
  rfl

/-- A switch drops an ACK or forwards it as it is, and does not count it. -/
theorem process_ack (sw : DctcpSwitch) (std_meta : standard_metadata_t) {ack : ack_payload_t}
    (hport : f.udp.dst_port = ACK_PORT) (h : Counted shim hops)
    (hpay : f.payload = ack_bytes shim hops ack tail) :
    sw.process std_meta f.bytes = (sw.registers, none) ∨ sw.process std_meta f.bytes
      = (sw.registers, some (f.relayed (ipv4_lpm sw.table f.ipv4.dst_addr)).bytes) := by
  unfold process DctcpIngress
  by_cases hpass : Passes sw.table f.ipv4
  · right
    rw [V1Switch_of_passes (parse_ack hport h hpay) rfl hpass]
    dsimp only
    have hother : (0#1 : BitVec 1) ≠ 1#1 := by decide
    rw [egress_other _ hother, deparse_frame h.le_max rfl rfl rfl rfl rfl]
    rw [UdpFrame.bytes, UdpFrame.relayed_payload, hpay]
    rfl
  · left
    rw [V1Switch_of_not_passes (parse_ack hport h hpay) rfl hpass]

/-! ## The counters -/

/-- Ingress lets the packet through and egress takes it for a data packet. -/
def Counts (a : Arrival) : Prop :=
  (CommonParser a.frame).metadata.is_data = 1#1 ∧
    ∃ ip, ip ∈ (CommonParser a.frame).hdr.ipv4 ∧ Passes a.table ip

instance (a : Arrival) : Decidable (Counts a) := inferInstanceAs (Decidable (_ ∧ _))

/-- … and marks it. -/
def Marks (r : DctcpRegisters) (a : Arrival) : Prop :=
  Counts a ∧ (∃ ip, ip ∈ (CommonParser a.frame).hdr.ipv4 ∧ ip.ecn ≠ ECN_NOT_ECT) ∧
    Over r a.std_meta

instance (r : DctcpRegisters) (a : Arrival) : Decidable (Marks r a) :=
  inferInstanceAs (Decidable (_ ∧ _))

/-- What any packet does to the registers. -/
theorem process_registers (r : DctcpRegisters) (a : Arrival) :
    (process ⟨a.table, r⟩ a.std_meta a.frame).1
      = if Counts a then r.counted (decide (Marks r a)) else r := by
  unfold process DctcpIngress
  cases hip : (CommonParser a.frame).hdr.ipv4 with
  | none =>
      have hnot : ¬ Counts a := by
        rintro ⟨-, ip, hmem, -⟩
        rw [hip] at hmem
        cases hmem
      have hegress : ∀ std_meta, DctcpEgress r (CommonParser a.frame).hdr
          (CommonParser a.frame).metadata std_meta = (r, (CommonParser a.frame).hdr) := by
        intro std_meta
        unfold DctcpEgress
        rw [hip]
      rw [V1Switch_of_no_ipv4 hip hegress, if_neg hnot]
  | some ip =>
      by_cases hpass : Passes a.table ip
      · rw [V1Switch_of_passes rfl hip hpass]
        dsimp only
        by_cases hdata : (CommonParser a.frame).metadata.is_data = 1#1
        · have hcounts : Counts a := ⟨hdata, ip, hip, hpass⟩
          have hip' : (forwarded (ipv4_lpm a.table ip.dst_addr) (CommonParser a.frame).hdr).ipv4
              = some { ip with ttl := (ipv4_lpm a.table ip.dst_addr).ttl ip.ttl } := by
            rw [forwarded, hip]
            rfl
          rw [if_pos hcounts]
          -- a packet of a sender that has not opted in is counted but not marked
          by_cases hect : ip.ecn = ECN_NOT_ECT
          · have hmarks : ¬ Marks r a := by
              rintro ⟨-, ⟨ip', hmem, hne⟩, -⟩
              rw [hip] at hmem
              exact hne (Option.some.inj hmem ▸ hect)
            rw [egress_not_ect _ hip' hdata hect, decide_eq_false hmarks]
          · have hq := at_egress_enq_qdepth (CommonParser a.frame).hdr
              (ipv4_lpm a.table ip.dst_addr) a.std_meta
            have hmarks : Marks r a ↔ Over r (at_egress (CommonParser a.frame).hdr
                (ipv4_lpm a.table ip.dst_addr) a.std_meta) := by
              rw [Over, hq]
              exact ⟨fun h => h.2.2, fun h => ⟨hcounts, ⟨ip, hip, hect⟩, h⟩⟩
            rw [egress_data _ _ _ hip' hdata hect, decide_eq_decide.mpr hmarks]
        · have hnot : ¬ Counts a := fun h => hdata h.1
          rw [egress_other _ hdata, if_neg hnot]
      · have hnot : ¬ Counts a := by
          rintro ⟨-, ip', hmem, h⟩
          rw [hip] at hmem
          exact hpass (Option.some.inj hmem ▸ h)
        rw [V1Switch_of_not_passes rfl hip hpass, if_neg hnot]

/-- The registers after a sequence of packets. -/
def run (r : DctcpRegisters) (arrivals : List Arrival) : DctcpRegisters :=
  arrivals.foldl (fun r a => (process ⟨a.table, r⟩ a.std_meta a.frame).1) r

theorem increment_read (count : Register 64 1) :
    (increment count).read 0#32 = count.read 0#32 + 1#64 := by
  simp [increment, Register.read, Register.write]

theorem counted_read (r : DctcpRegisters) (marked : Bool) :
    (r.counted marked).data_pkt_count.read 0#32 = r.data_pkt_count.read 0#32 + 1#64 ∧
      (r.counted marked).marked_pkt_count.read 0#32
        = r.marked_pkt_count.read 0#32 + if marked then 1#64 else 0#64 := by
  refine ⟨increment_read _, ?_⟩
  cases marked with
  | true => exact increment_read _
  | false => exact (add_zero (r.marked_pkt_count.read 0#32)).symm

/-- **The counters over a run**: the data packets and those of them that were marked, as
far as 64 bits go. -/
theorem counters_run (r : DctcpRegisters) (arrivals : List Arrival) :
    ∃ marks ≤ arrivals.countP fun a => Counts a,
      (run r arrivals).data_pkt_count.read 0#32 = r.data_pkt_count.read 0#32
        + BitVec.ofNat 64 (arrivals.countP fun a => Counts a) ∧
      (run r arrivals).marked_pkt_count.read 0#32
        = r.marked_pkt_count.read 0#32 + BitVec.ofNat 64 marks := by
  induction arrivals generalizing r with
  | nil => exact ⟨0, le_rfl, (add_zero _).symm, (add_zero _).symm⟩
  | cons a as ih =>
      obtain ⟨marks, hle, hdata, hmarks⟩ := ih (process ⟨a.table, r⟩ a.std_meta a.frame).1
      have hstep := process_registers r a
      have hrun : run r (a :: as) = run (process ⟨a.table, r⟩ a.std_meta a.frame).1 as := rfl
      -- the first packet adds one to the first counter, and at most one to the second
      by_cases hc : Counts a
      · obtain ⟨hd, hm⟩ := counted_read r (decide (Marks r a))
        rw [if_pos hc] at hstep
        rw [hstep, hd] at hdata
        rw [hstep, hm] at hmarks
        have hcount : (a :: as).countP (fun a => decide (Counts a))
            = as.countP (fun a => decide (Counts a)) + 1 := by simp [hc]
        rw [hcount, hrun, hstep]
        refine ⟨marks + (if Marks r a then 1 else 0), ?_, ?_, ?_⟩
        · by_cases hmark : Marks r a
          · simp [hmark, hle]
          · simp only [hmark, if_false]
            omega
        · rw [BitVec.ofNat_add, add_comm (BitVec.ofNat 64 _), ← add_assoc]
          exact hdata
        · refine hmarks.trans ?_
          by_cases hmark : Marks r a
          · simp only [hmark, decide_true, if_true, BitVec.ofNat_add]
            rw [add_comm (BitVec.ofNat 64 marks), ← add_assoc]
          · simp [hmark]
      · rw [if_neg hc] at hstep
        rw [hstep] at hdata hmarks
        have hcount : (a :: as).countP (fun a => decide (Counts a))
            = as.countP (fun a => decide (Counts a)) := by simp [hc]
        rw [hcount, hrun, hstep]
        exact ⟨marks, hle, hdata, hmarks⟩

/-- From zero on, and as long as the data packets can be counted, no more packets have been
marked than counted. -/
theorem marked_le_data {r : DctcpRegisters} {arrivals : List Arrival}
    (hd : r.data_pkt_count.read 0#32 = 0#64) (hm : r.marked_pkt_count.read 0#32 = 0#64)
    (h : arrivals.countP (fun a => Counts a) < 2 ^ 64) :
    ((run r arrivals).marked_pkt_count.read 0#32).toNat
      ≤ ((run r arrivals).data_pkt_count.read 0#32).toNat := by
  obtain ⟨marks, hle, hdata, hmarks⟩ := counters_run r arrivals
  rw [hdata, hmarks, hd, hm, BitVec.zero_add, BitVec.zero_add, BitVec.toNat_ofNat,
    BitVec.toNat_ofNat, Nat.mod_eq_of_lt h, Nat.mod_eq_of_lt (by omega)]
  exact hle

end DctcpSwitch

end IntHpcc.P4
