/-
`p4src/hpcc.p4`: the data plane that stamps every data packet with one INT entry per
switch.
-/
import IntHpcc.P4Common

set_option autoImplicit false

namespace IntHpcc.P4

open IntHpcc.Bytes

def BMV2_MAX_PORTS : ℕ := 16

/-- The registers of `HpccEgress`. -/
structure HpccRegisters where
  tx_byte_count_reg : Register 48 BMV2_MAX_PORTS
  link_bps_reg : Register 32 BMV2_MAX_PORTS
  switch_id_reg : Register 16 1

/-- The size of an entry, as the counter and the two length fields grow by it. -/
def HOP_SIZE : ℕ := 26

namespace HpccRegisters

/-- `(bit<32>)std_meta.egress_port`. -/
def egport (std_meta : standard_metadata_t) : BitVec 32 := std_meta.egress_port.setWidth 32

/-- `bytes_so_far`: the port's counter with this packet in it, as it leaves. -/
def bytes_so_far (r : HpccRegisters) (std_meta : standard_metadata_t) : BitVec 48 :=
  r.tx_byte_count_reg.read (egport std_meta) + std_meta.packet_length.setWidth 48 +
    BitVec.ofNat 48 HOP_SIZE

/-- The entry pushed for a packet. -/
def new_hop (r : HpccRegisters) (std_meta : standard_metadata_t) : int_hop_t where
  switch_id := r.switch_id_reg.read 0#32
  ingress_port := std_meta.ingress_port.setWidth 16
  egress_port := std_meta.egress_port.setWidth 16
  qdepth := std_meta.enq_qdepth.setWidth 32
  egress_tstamp_us := std_meta.egress_global_timestamp
  tx_byte_count := r.bytes_so_far std_meta
  link_bps := r.link_bps_reg.read (egport std_meta)

end HpccRegisters

/-- `HpccIngress`. -/
def HpccIngress : List LpmEntry → headers_t → standard_metadata_t →
    headers_t × standard_metadata_t := ingress_apply

/-- The packet with one more entry in front and the lengths to match. -/
def push_hop (hdr : headers_t) (shim : shim_t) (hop : int_hop_t) : headers_t :=
  { hdr with
    hops := hdr.hops.push_front.set 0 hop
    shim := some { shim with hop_count := shim.hop_count + 1#8 }
    udp := hdr.udp.map fun u => { u with
      length := u.length + BitVec.ofNat 16 HOP_SIZE
      checksum := 0#16 }
    ipv4 := hdr.ipv4.map fun ip => { ip with
      total_len := ip.total_len + BitVec.ofNat 16 HOP_SIZE } }

/-- `HpccEgress`. -/
def HpccEgress (r : HpccRegisters) (hdr : headers_t) (metadata : metadata_t)
    (std_meta : standard_metadata_t) : HpccRegisters × headers_t :=
  if hdr.ipv4 = none ∨ metadata.is_data ≠ 1#1 then (r, hdr)
  else
    match hdr.shim with
    -- not reached: `is_data` is set once the shim has been extracted
    | none => (r, hdr)
    | some shim =>
      -- stack full: pass through unmodified
      if MAX_HOPS ≤ shim.hop_count.toNat then (r, hdr)
      else
        let egport := HpccRegisters.egport std_meta
        let tx_byte_count_reg := r.tx_byte_count_reg.write egport (r.bytes_so_far std_meta)
        ({ r with tx_byte_count_reg := tx_byte_count_reg },
          push_hop hdr shim (r.new_hop std_meta))

/-- A switch that runs `hpcc.p4`: its table and its registers. -/
structure HpccSwitch where
  table : List LpmEntry
  registers : HpccRegisters

/-- One packet through a switch. -/
def HpccSwitch.process (sw : HpccSwitch) (std_meta : standard_metadata_t) (frame : List Byte) :
    HpccRegisters × Option (List Byte) :=
  V1Switch (HpccIngress sw.table) HpccEgress sw.registers std_meta frame

end IntHpcc.P4
