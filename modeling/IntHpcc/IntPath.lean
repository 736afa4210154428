/-
INT from one end of the path to the other.

A data packet leaves with no entry, every `hpcc.p4` switch stamps it until the stack is
full, the reflector copies the entries into the ACK, no switch touches the ACK, and the
sender reads them. Three codecs meet here: the data plane's headers, the reflector's
slices and the sender's structs. The `view` of a header is what the Python side reads in
its bytes (`shim_t.pack_view` and the like), so a packet in the network is described once,
by its headers.

What a switch does to a data packet is `process_push` while there is room and
`process_full` after that; the induction over the path is on these two alone.
-/
import IntHpcc.P4Frame
import IntHpcc.Reflector
import IntHpcc.Hpcc

set_option autoImplicit false

namespace IntHpcc.P4

open IntHpcc.Bytes IntHpcc.HeaderLayout IntHpcc.Py

/-! ## The headers, as the Python side reads them -/

/-- A field of the data plane, packed by `struct`. -/
theorem pack_uint_field (n : ℕ) {w : ℕ} (hw : w = 8 * n) (v : BitVec w) :
    pack_uint n (v.toNat : ℤ) = .ok ((field n hw).emit v) := by
  have hpow : 2 ^ w = 256 ^ n := by
    rw [hw, pow_mul]
    norm_num
  have hlt : v.toNat < 256 ^ n := hpow ▸ v.isLt
  rw [pack_uint_of_range (Int.natCast_nonneg _) (by exact_mod_cast hlt), Int.toNat_natCast]
  rfl

/-- A value that a field can hold. -/
theorem exists_field {n w : ℕ} (hw : w = 8 * n) {v : ℤ} {bs : List Byte}
    (h : pack_uint n v = .ok bs) : ∃ b : BitVec w, (b.toNat : ℤ) = v := by
  obtain ⟨-, -, h₀, h₁⟩ := pack_uint_spec h
  have hpow : (2 : ℤ) ^ w = 256 ^ n := by
    rw [hw, pow_mul]
    norm_num
  refine ⟨BitVec.ofNat w v.toNat, ?_⟩
  have hlt : v.toNat < 2 ^ w := by
    zify
    rw [Int.toNat_of_nonneg h₀, hpow]
    exact h₁
  rw [BitVec.toNat_ofNat, Nat.mod_eq_of_lt hlt, Int.toNat_of_nonneg h₀]

def shim_t.view (h : shim_t) : PacketFormat.Shim where
  flags := h.flags.toNat
  hop_count := h.hop_count.toNat
  max_hops := h.max_hops.toNat
  reserved := h.reserved.toNat

def int_hop_t.view (h : int_hop_t) : PacketFormat.IntHop where
  switch_id := h.switch_id.toNat
  ingress_port := h.ingress_port.toNat
  egress_port := h.egress_port.toNat
  qdepth := h.qdepth.toNat
  egress_tstamp_us := h.egress_tstamp_us.toNat
  tx_byte_count := h.tx_byte_count.toNat
  link_bps := h.link_bps.toNat

def data_payload_t.view (h : data_payload_t) : PacketFormat.DataPayload where
  seq := h.seq.toNat
  send_ts_us := h.send_ts_us.toNat
  reserved := h.reserved.toNat

def ack_payload_t.view (h : ack_payload_t) : PacketFormat.AckPayload where
  ack_seq := h.ack_seq.toNat
  recv_ts_us := h.recv_ts_us.toNat
  reserved := h.reserved.toNat

theorem shim_t.pack_view (h : shim_t) : h.view.pack = .ok (shim_t.layout.emit h) := by
  simp only [PacketFormat.Shim.pack, shim_t.view, pack_uint_field 1 rfl, ok_bind,
    List.append_assoc]
  rfl

theorem pack_u48_field (v : BitVec 48) :
    PacketFormat.pack_u48 (v.toNat : ℤ) = .ok ((field 6 rfl).emit v) := by
  have hlt : (v.toNat : ℤ) < 2 ^ 48 := by exact_mod_cast v.isLt
  rw [PacketFormat.pack_u48, if_pos ⟨Int.natCast_nonneg _, hlt⟩, Int.toNat_natCast]
  rfl

theorem int_hop_t.pack_view (h : int_hop_t) : h.view.pack = .ok (int_hop_t.layout.emit h) := by
  simp only [PacketFormat.IntHop.pack, int_hop_t.view, pack_u48_field, pack_uint_field 2 rfl,
    pack_uint_field 4 rfl, ok_bind, List.append_assoc]
  rfl

theorem data_payload_t.pack_view (h : data_payload_t) :
    h.view.pack = .ok (data_payload_t.layout.emit h) := by
  simp only [PacketFormat.DataPayload.pack, PacketFormat.pack_iqi, data_payload_t.view,
    pack_uint_field 4 rfl, pack_uint_field 8 rfl, ok_bind, List.append_assoc]
  rfl

theorem ack_payload_t.pack_view (h : ack_payload_t) :
    h.view.pack = .ok (ack_payload_t.layout.emit h) := by
  simp only [PacketFormat.AckPayload.pack, PacketFormat.pack_iqi, ack_payload_t.view,
    pack_uint_field 4 rfl, pack_uint_field 8 rfl, ok_bind, List.append_assoc]
  rfl

theorem pack_hops_view (hops : List int_hop_t) :
    PacketFormat.pack_hops (hops.map int_hop_t.view) = .ok (emit_hops hops) := by
  induction hops with
  | nil => rfl
  | cons h hops ih =>
      rw [List.map_cons, PacketFormat.pack_hops, int_hop_t.pack_view, ih, emit_hops_cons]
      rfl

/-- A shim that packs is the view of a header. -/
theorem exists_shim {s : PacketFormat.Shim} {bs : List Byte} (h : s.pack = .ok bs) :
    ∃ shim : shim_t, shim.view = s := by
  unfold PacketFormat.Shim.pack at h
  obtain ⟨f, hf, h⟩ := bind_eq_ok.mp h
  obtain ⟨c, hc, h⟩ := bind_eq_ok.mp h
  obtain ⟨m, hm, h⟩ := bind_eq_ok.mp h
  obtain ⟨r, hr, -⟩ := bind_eq_ok.mp h
  obtain ⟨flags, hflags⟩ := exists_field (w := 8) rfl hf
  obtain ⟨count, hcount⟩ := exists_field (w := 8) rfl hc
  obtain ⟨max_hops, hmax⟩ := exists_field (w := 8) rfl hm
  obtain ⟨reserved, hres⟩ := exists_field (w := 8) rfl hr
  exact ⟨⟨flags, count, max_hops, reserved⟩, by rw [shim_t.view, hflags, hcount, hmax, hres]⟩

/-- The three fields of an `"!IQI"` payload that packs. -/
theorem exists_iqi {a b c : ℤ} {bs : List Byte} (h : PacketFormat.pack_iqi a b c = .ok bs) :
    ∃ (x : BitVec 32) (y : BitVec 64) (z : BitVec 32),
      (x.toNat : ℤ) = a ∧ (y.toNat : ℤ) = b ∧ (z.toNat : ℤ) = c := by
  unfold PacketFormat.pack_iqi at h
  obtain ⟨x, hx, h⟩ := bind_eq_ok.mp h
  obtain ⟨y, hy, h⟩ := bind_eq_ok.mp h
  obtain ⟨z, hz, -⟩ := bind_eq_ok.mp h
  obtain ⟨x', hx'⟩ := exists_field (w := 32) rfl hx
  obtain ⟨y', hy'⟩ := exists_field (w := 64) rfl hy
  obtain ⟨z', hz'⟩ := exists_field (w := 32) rfl hz
  exact ⟨x', y', z', hx', hy', hz'⟩

/-- A packed data packet is the view of its headers. -/
theorem exists_data_packet {p : PacketFormat.DataPacket} {bs : List Byte}
    (hpack : p.pack = .ok bs) (hempty : p.hops = []) :
    ∃ (shim : shim_t) (data : data_payload_t),
      shim.view = { p.shim with hop_count := 0, max_hops := PacketFormat.MAX_HOPS } ∧
        data.view = p.payload ∧ bs = data_bytes shim [] data [] := by
  obtain ⟨-, s, b, d, hs, hb, hd, rfl⟩ := PacketFormat.packet_pack_spec hpack
  rw [hempty] at hs hb
  obtain ⟨shim, hshim⟩ := exists_shim hs
  obtain ⟨x, y, z, hx, hy, hz⟩ := exists_iqi hd
  have hdata : (⟨x, y, z⟩ : data_payload_t).view = p.payload := by
    rw [data_payload_t.view, hx, hy, hz]
  -- both sides of the network write the same bytes
  rw [← hshim, shim_t.pack_view, Except.ok.injEq] at hs
  rw [← hdata, data_payload_t.pack_view, Except.ok.injEq] at hd
  rw [PacketFormat.pack_hops, Except.ok.injEq] at hb
  refine ⟨shim, ⟨x, y, z⟩, hshim, hdata, ?_⟩
  rw [← hs, ← hb, ← hd, data_bytes, List.append_nil, List.append_nil]
  rfl

/-! ## A data packet at one switch -/

/-- The entry a switch pushes for a packet to `dst_addr`. -/
def HpccSwitch.entry (sw : HpccSwitch) (std_meta : standard_metadata_t)
    (dst_addr : BitVec 32) : int_hop_t :=
  sw.registers.new_hop
    { std_meta with egress_port := (ipv4_lpm sw.table dst_addr).egress_spec }

/-- The fields of the entry are not those the checksum control and ingress set. -/
theorem new_hop_at_egress (r : HpccRegisters) (hdr : headers_t) (a : LpmAction)
    (std_meta : standard_metadata_t) :
    r.new_hop (at_egress hdr a std_meta)
      = r.new_hop { std_meta with egress_port := a.egress_spec } := by
  obtain ⟨checksum_error, heq⟩ := at_egress_eq hdr a std_meta
  rw [heq]
  rfl

section

variable {sw : HpccSwitch} {std_meta : standard_metadata_t} {f : UdpFrame} {shim : shim_t}
  {hops : List int_hop_t} {data : data_payload_t} {tail : List Byte}

/-- The addresses and the destination port stay, the TTL goes down by one at most and the
packet grows by `d` bytes. -/
structure Onward (f g : UdpFrame) (d : ℕ) : Prop where
  dst_addr_eq : g.ipv4.dst_addr = f.ipv4.dst_addr
  dst_port_eq : g.udp.dst_port = f.udp.dst_port
  ttl_le : f.ipv4.ttl.toNat ≤ g.ipv4.ttl.toNat + 1
  total_len_eq : g.ipv4.total_len.toNat = f.ipv4.total_len.toNat + d

/-- The IPv4 header as a switch sends it. -/
def ipv4_t.sent (ip : ipv4_t) (a : LpmAction) (total_len : BitVec 16) : ipv4_t :=
  let ip := { ip with
    ttl := a.ttl ip.ttl
    total_len := total_len }
  { ip with hdr_checksum := csum16 ip.checksum_data }

/-- The frame as a switch sends it that leaves the payload alone. -/
def UdpFrame.relayed (f : UdpFrame) (a : LpmAction) : UdpFrame where
  ethernet := a.ethernet f.ethernet
  ipv4 := f.ipv4.sent a f.ipv4.total_len
  udp := f.udp
  payload := f.payload
  is_ipv4 := by rw [LpmAction.ethernet_ethertype, f.is_ipv4]
  version_eq := f.version_eq
  no_options := f.no_options
  unfragmented := f.unfragmented
  is_udp := f.is_udp
  total_len_eq := f.total_len_eq
  length_eq := f.length_eq

theorem UdpFrame.relayed_payload (f : UdpFrame) (a : LpmAction) :
    (f.relayed a).payload = f.payload := rfl

theorem UdpFrame.relayed_onward (f : UdpFrame) {a : LpmAction} (h : 1#8 < f.ipv4.ttl) :
    Onward f (f.relayed a) 0 := ⟨rfl, rfl, a.ttl_ge h, rfl⟩

/-- What a switch sends: the headers, the hops on the stack, the payload. -/
theorem deparse_frame {hdr : headers_t} {e : ethernet_t} {ip : ipv4_t} {u : udp_t}
    (hlen : hops.length ≤ MAX_HOPS) (he : hdr.ethernet = some e) (hip : hdr.ipv4 = some ip)
    (hu : hdr.udp = some u) (hs : hdr.shim = some shim) (hh : hdr.hops = .holding hops hlen) :
    CommonDeparser hdr ++ tail
      = ethernet_t.layout.emit e ++
          (ipv4_t.layout.emit ip ++
            (udp_t.layout.emit u ++
              (shim_t.layout.emit shim ++
                (emit_hops hops ++
                  (emit_valid data_payload_t.layout hdr.data ++
                    (emit_valid ack_payload_t.layout hdr.ack ++ tail)))))) := by
  rw [CommonDeparser, he, hip, hu, hs, hh, emit_holding]
  simp only [emit_valid, Option.map_some, Option.getD_some, List.append_assoc]

/-- Egress, for a data packet with room in the stack … -/
theorem egress_push {r : HpccRegisters} {hdr : headers_t} {metadata : metadata_t}
    (hip : hdr.ipv4 ≠ none) (hdata : metadata.is_data = 1#1) (hshim : hdr.shim = some shim)
    (hroom : ¬ MAX_HOPS ≤ shim.hop_count.toNat) :
    (HpccEgress r hdr metadata std_meta).2 = push_hop hdr shim (r.new_hop std_meta) := by
  have hguard : ¬ (hdr.ipv4 = none ∨ metadata.is_data ≠ 1#1) := by
    rintro (h | h)
    · exact hip h
    · exact h hdata
  unfold HpccEgress
  rw [if_neg hguard, hshim]
  dsimp only
  rw [if_neg hroom]

/-- … for one whose stack is full … -/
theorem egress_full {r : HpccRegisters} {hdr : headers_t} {metadata : metadata_t}
    (hshim : hdr.shim = some shim) (hfull : MAX_HOPS ≤ shim.hop_count.toNat) :
    HpccEgress r hdr metadata std_meta = (r, hdr) := by
  unfold HpccEgress
  by_cases hguard : hdr.ipv4 = none ∨ metadata.is_data ≠ 1#1
  · rw [if_pos hguard]
  · rw [if_neg hguard, hshim]
    dsimp only
    rw [if_pos hfull]

/-- … and for a packet that is not a data packet. -/
theorem egress_other {r : HpccRegisters} {hdr : headers_t} {metadata : metadata_t}
    (hother : metadata.is_data ≠ 1#1) : HpccEgress r hdr metadata std_meta = (r, hdr) := by
  unfold HpccEgress
  rw [if_pos (Or.inr hother)]

/-- A switch with room in the stack puts its entry in front. -/
theorem process_push (std_meta : standard_metadata_t) (hport : f.udp.dst_port = DATA_PORT)
    (h : Counted shim hops)
    (hpay : f.payload = data_bytes shim hops data tail) (hroom : hops.length < MAX_HOPS)
    (hlen : f.ipv4.total_len.toNat + HOP_SIZE < 2 ^ 16) (hpass : Passes sw.table f.ipv4) :
    ∃ g : UdpFrame, (sw.process std_meta f.bytes).2 = some g.bytes ∧ Onward f g HOP_SIZE ∧
      g.payload = data_bytes { shim with hop_count := shim.hop_count + 1#8 }
        (sw.entry std_meta f.ipv4.dst_addr :: hops) data tail := by
  have hparse := parse_data hport h hpay
  have hnotfull : ¬ MAX_HOPS ≤ shim.hop_count.toNat := by
    rw [h.toNat_eq]
    omega
  have hone : (sw.entry std_meta f.ipv4.dst_addr :: hops).length ≤ MAX_HOPS := hroom
  -- the two lengths grow with the payload, and neither wraps
  have hpaylen : f.payload.length + HOP_SIZE = (data_bytes
      { shim with hop_count := shim.hop_count + 1#8 }
      (sw.entry std_meta f.ipv4.dst_addr :: hops) data tail).length := by
    rw [hpay]
    have hsize : int_hop_t.layout.size = HOP_SIZE := rfl
    simp only [data_bytes, emit_hops_cons, List.length_append, Layout.emit_length, hsize]
    omega
  have htotal : (f.ipv4.total_len + BitVec.ofNat 16 HOP_SIZE).toNat
      = f.ipv4.total_len.toNat + HOP_SIZE := by
    simp only [BitVec.toNat_add, BitVec.toNat_ofNat]
    omega
  have hudp : (f.udp.length + BitVec.ofNat 16 HOP_SIZE).toNat = f.udp.length.toNat + HOP_SIZE := by
    have h₁ := f.total_len_eq
    have h₂ := f.length_eq
    simp only [BitVec.toNat_add, BitVec.toNat_ofNat]
    omega
  refine ⟨
    { ethernet := (ipv4_lpm sw.table f.ipv4.dst_addr).ethernet f.ethernet
      ipv4 := f.ipv4.sent (ipv4_lpm sw.table f.ipv4.dst_addr)
        (f.ipv4.total_len + BitVec.ofNat 16 HOP_SIZE)
      udp := { f.udp with
        length := f.udp.length + BitVec.ofNat 16 HOP_SIZE
        checksum := 0#16 }
      payload := data_bytes { shim with hop_count := shim.hop_count + 1#8 }
        (sw.entry std_meta f.ipv4.dst_addr :: hops) data tail
      is_ipv4 := by rw [LpmAction.ethernet_ethertype, f.is_ipv4]
      version_eq := f.version_eq
      no_options := f.no_options
      unfragmented := f.unfragmented
      is_udp := f.is_udp
      total_len_eq := by
        rw [← hpaylen, ← Nat.add_assoc, ← f.total_len_eq]
        exact htotal
      length_eq := by
        rw [← hpaylen, ← Nat.add_assoc, ← f.length_eq]
        exact hudp }, ?_, ?_, rfl⟩
  · unfold HpccSwitch.process HpccIngress
    rw [V1Switch_of_passes hparse rfl hpass]
    dsimp only
    rw [egress_push (by simp [forwarded, data_headers]) rfl rfl hnotfull, new_hop_at_egress]
    -- the entry goes in front of those already there
    have hstack := HopStack.push_front_holding (sw.entry std_meta f.ipv4.dst_addr) hone h.le_max
    rw [deparse_frame hone rfl rfl rfl rfl hstack]
    rfl
  · exact ⟨rfl, rfl, LpmAction.ttl_ge _ hpass.1, htotal⟩

/-- A switch that finds the stack full only forwards. -/
theorem process_full (std_meta : standard_metadata_t) (hport : f.udp.dst_port = DATA_PORT)
    (h : Counted shim hops)
    (hpay : f.payload = data_bytes shim hops data tail) (hfull : MAX_HOPS ≤ hops.length)
    (hpass : Passes sw.table f.ipv4) :
    (sw.process std_meta f.bytes).2
      = some (f.relayed (ipv4_lpm sw.table f.ipv4.dst_addr)).bytes := by
  have hcount : MAX_HOPS ≤ shim.hop_count.toNat := by rwa [h.toNat_eq]
  unfold HpccSwitch.process HpccIngress
  rw [V1Switch_of_passes (parse_data hport h hpay) rfl hpass]
  dsimp only
  rw [egress_full rfl hcount, deparse_frame h.le_max rfl rfl rfl rfl rfl]
  rw [UdpFrame.bytes, UdpFrame.relayed_payload, hpay]
  rfl

/-! ## An ACK at one switch -/

/-- A switch drops an ACK or forwards it; the payload is the same. -/
theorem process_ack (sw : HpccSwitch) (std_meta : standard_metadata_t)
    {ack : ack_payload_t} (hport : f.udp.dst_port = ACK_PORT)
    (h : Counted shim hops) (hpay : f.payload = ack_bytes shim hops ack tail) :
    (sw.process std_meta f.bytes).2 = none ∨ (sw.process std_meta f.bytes).2
      = some (f.relayed (ipv4_lpm sw.table f.ipv4.dst_addr)).bytes := by
  unfold HpccSwitch.process HpccIngress
  by_cases hpass : Passes sw.table f.ipv4
  · right
    rw [V1Switch_of_passes (parse_ack hport h hpay) rfl hpass]
    dsimp only
    have hother : (0#1 : BitVec 1) ≠ 1#1 := by decide
    rw [egress_other hother, deparse_frame h.le_max rfl rfl rfl rfl rfl]
    rw [UdpFrame.bytes, UdpFrame.relayed_payload, hpay]
    rfl
  · left
    rw [V1Switch_of_not_passes (parse_ack hport h hpay) rfl hpass]

end

/-! ## The path -/

/-- One frame through a list of switches, each with the metadata the frame meets there. -/
def through : List (HpccSwitch × standard_metadata_t) → List Byte → Option (List Byte)
  | [], frame => some frame
  | (sw, std_meta) :: path, frame => (sw.process std_meta frame).2.bind (through path)

/-- Every switch of the path has a way out for `dst_addr`. -/
def Routed (path : List (HpccSwitch × standard_metadata_t)) (dst_addr : BitVec 32) : Prop :=
  ∀ sw ∈ path, (ipv4_lpm sw.1.table dst_addr).egress_spec ≠ DROP_PORT

/-- The entries of the first `room` switches, the last one in front. -/
def stamps (path : List (HpccSwitch × standard_metadata_t)) (dst_addr : BitVec 32)
    (room : ℕ) : List int_hop_t :=
  ((path.take room).map fun sw => sw.1.entry sw.2 dst_addr).reverse

theorem stamps_length (path : List (HpccSwitch × standard_metadata_t)) (dst_addr : BitVec 32)
    (room : ℕ) : (stamps path dst_addr room).length = min path.length room := by
  rw [stamps, List.length_reverse, List.length_map, List.length_take, Nat.min_comm]

/-- **A data packet on the path.** Whatever is on the stack already, it comes out with the
entries of the switches that still found room, and nothing else of the payload changed. -/
theorem through_data {data : data_payload_t} {tail : List Byte}
    (path : List (HpccSwitch × standard_metadata_t)) {f : UdpFrame} {shim : shim_t}
    {hops : List int_hop_t} (hport : f.udp.dst_port = DATA_PORT) (h : Counted shim hops)
    (hpay : f.payload = data_bytes shim hops data tail)
    (httl : path.length < f.ipv4.ttl.toNat) (hroute : Routed path f.ipv4.dst_addr)
    (hlen : f.ipv4.total_len.toNat + HOP_SIZE * min path.length (MAX_HOPS - hops.length)
      < 2 ^ 16) :
    ∃ g : UdpFrame, through path f.bytes = some g.bytes ∧
      g.payload = data_bytes
        (shim.counting (stamps path f.ipv4.dst_addr (MAX_HOPS - hops.length) ++ hops))
        (stamps path f.ipv4.dst_addr (MAX_HOPS - hops.length) ++ hops) data tail := by
  induction path generalizing f shim hops with
  | nil =>
      refine ⟨f, rfl, ?_⟩
      have hnil : stamps [] f.ipv4.dst_addr (MAX_HOPS - hops.length) = [] := by simp [stamps]
      rw [hnil, List.nil_append, h.counting_eq]
      exact hpay
  | cons sw path ih =>
      obtain ⟨sw, std_meta⟩ := sw
      rw [List.length_cons] at httl hlen
      have hpass : Passes sw.table f.ipv4 := by
        refine ⟨?_, hroute _ List.mem_cons_self⟩
        rw [BitVec.lt_def, BitVec.toNat_ofNat]
        omega
      have hroute' : Routed path f.ipv4.dst_addr := fun s hs => hroute s (List.mem_cons_of_mem _ hs)
      -- while there is room the switch adds an entry; after that it only forwards
      by_cases hroom : hops.length < MAX_HOPS
      · obtain ⟨k, hk⟩ : ∃ k, MAX_HOPS - hops.length = k + 1 :=
          ⟨MAX_HOPS - hops.length - 1, by omega⟩
        rw [hk, Nat.add_min_add_right, Nat.mul_add] at hlen
        obtain ⟨g, hg, ⟨hdst, hport', httl', htotal⟩, hgpay⟩ :=
          process_push std_meta hport h hpay hroom (by omega) hpass
        have hk' : MAX_HOPS - (sw.entry std_meta f.ipv4.dst_addr :: hops).length = k := by
          rw [List.length_cons]
          omega
        obtain ⟨out, hout, houtpay⟩ := ih (hport'.trans hport) (h.push hroom _) hgpay
          (by omega) (hdst ▸ hroute') (by rw [htotal, hk']; omega)
        -- the entry just pushed is behind those of the rest of the path
        have hsplit : stamps ((sw, std_meta) :: path) f.ipv4.dst_addr (k + 1) ++ hops
            = stamps path f.ipv4.dst_addr k ++ sw.entry std_meta f.ipv4.dst_addr :: hops := by
          simp only [stamps, List.take_succ_cons, List.map_cons, List.reverse_cons,
            List.append_assoc, List.singleton_append]
        refine ⟨out, ?_, ?_⟩
        · rw [through, hg, Option.bind_some, hout]
        · rw [hk, hsplit]
          rw [hk', hdst] at houtpay
          exact houtpay
      · have hfull : MAX_HOPS ≤ hops.length := Nat.le_of_not_lt hroom
        have hzero : MAX_HOPS - hops.length = 0 := Nat.sub_eq_zero_of_le hfull
        have hnone : ∀ path, stamps path f.ipv4.dst_addr (MAX_HOPS - hops.length) = [] := by
          intro path
          simp [stamps, hzero]
        have hg := process_full std_meta hport h hpay hfull hpass
        obtain ⟨hdst, hport', httl', htotal⟩ := f.relayed_onward hpass.1
          (a := ipv4_lpm sw.table f.ipv4.dst_addr)
        obtain ⟨out, hout, houtpay⟩ := ih (hport'.trans hport) h hpay
          (by omega) (hdst ▸ hroute') (by rw [htotal, hzero, Nat.min_zero]; omega)
        refine ⟨out, ?_, ?_⟩
        · rw [through, hg, Option.bind_some, hout]
        · rw [hdst, hnone] at houtpay
          rw [hnone]
          exact houtpay

/-- **An ACK on the path** is dropped or comes out with the same payload. -/
theorem through_ack {ack : ack_payload_t} {shim : shim_t} {hops : List int_hop_t}
    {tail : List Byte} (path : List (HpccSwitch × standard_metadata_t)) {f : UdpFrame}
    (hport : f.udp.dst_port = ACK_PORT) (h : Counted shim hops)
    (hpay : f.payload = ack_bytes shim hops ack tail) {frame : List Byte}
    (hout : through path f.bytes = some frame) :
    ∃ g : UdpFrame, frame = g.bytes ∧ g.payload = f.payload := by
  induction path generalizing f with
  | nil => exact ⟨f, (Option.some.inj hout).symm, rfl⟩
  | cons sw path ih =>
      obtain ⟨sw, std_meta⟩ := sw
      rw [through] at hout
      -- a switch drops an ACK or relays it with its payload as it is
      rcases process_ack sw std_meta hport h hpay with hg | hg
      · rw [hg] at hout
        cases hout
      · rw [hg, Option.bind_some] at hout
        obtain ⟨g, hbytes, hsame⟩ :=
          ih (f := f.relayed (ipv4_lpm sw.table f.ipv4.dst_addr)) hport hpay hout
        exact ⟨g, hbytes, hsame⟩

/-! ## From the sender to the reflector and back -/

theorem counted_of_view {shim : shim_t} {hops : List int_hop_t} (hle : hops.length ≤ MAX_HOPS)
    (h : shim.view.hop_count = hops.length) : Counted shim hops := by
  refine ⟨hle, ?_⟩
  apply BitVec.eq_of_toNat_eq
  have hview : (shim.hop_count.toNat : ℤ) = hops.length := h
  have hcount : shim.hop_count.toNat = hops.length := by exact_mod_cast hview
  have hlt := shim.hop_count.isLt
  rw [BitVec.toNat_ofNat, hcount, Nat.mod_eq_of_lt (hcount ▸ hlt)]

/-- A packed ACK with the entries of the data plane is the view of its headers. -/
theorem exists_ack_packet {a : PacketFormat.AckPacket} {hops : List int_hop_t}
    {bs : List Byte} (hpack : a.pack = .ok bs) (hhops : a.hops = hops.map int_hop_t.view) :
    ∃ (shim : shim_t) (ack : ack_payload_t), Counted shim hops ∧
      bs = ack_bytes shim hops ack [] := by
  obtain ⟨hmax, s, b, p, hs, hb, hp, rfl⟩ := PacketFormat.packet_pack_spec hpack
  obtain ⟨shim, hshim⟩ := exists_shim hs
  obtain ⟨x, y, z, hx, hy, hz⟩ := exists_iqi hp
  have hack : (⟨x, y, z⟩ : ack_payload_t).view = a.payload := by
    rw [ack_payload_t.view, hx, hy, hz]
  have hlen : a.hops.length = hops.length := by rw [hhops, List.length_map]
  have hcount : shim.view.hop_count = hops.length := by rw [hshim, ← hlen]
  rw [← hshim, shim_t.pack_view, Except.ok.injEq] at hs
  rw [← hack, ack_payload_t.pack_view, Except.ok.injEq] at hp
  rw [hhops, pack_hops_view, Except.ok.injEq] at hb
  refine ⟨shim, ⟨x, y, z⟩, counted_of_view (hlen ▸ hmax) hcount, ?_⟩
  rw [← hs, ← hb, ← hp, ack_bytes, List.append_nil, List.append_assoc]

/-- What the reflector's host gets for the packet `p`, sent in the frame `f`, when the
switches have written `hops`. -/
structure Delivered (p : PacketFormat.DataPacket) (hops : List int_hop_t) (f out : UdpFrame) :
    Prop where
  /-- The shim counts the entries, and the stack is these entries. -/
  unpack_eq : PacketFormat.DataPacket.unpack out.payload = .ok
    { shim := { p.shim with
        hop_count := hops.length
        max_hops := PacketFormat.MAX_HOPS }
      hops := hops.map int_hop_t.view
      payload := p.payload }
  /-- Behind the stack every byte is the sender's. -/
  rest_eq : out.payload.drop (PacketFormat.SHIM_SIZE + hops.length * PacketFormat.INT_HOP_SIZE)
    = f.payload.drop PacketFormat.SHIM_SIZE
  udp_length_eq : out.udp.length.toNat = 8 + out.payload.length
  total_len_eq : out.ipv4.total_len.toNat = 28 + out.payload.length

theorem emit_hops_length (hops : List int_hop_t) :
    (emit_hops hops).length = hops.length * PacketFormat.INT_HOP_SIZE := by
  obtain ⟨hlen, -⟩ := PacketFormat.unpack_hops_pack (pack_hops_view hops)
  rw [hlen, List.length_map]

/-- The payload behind the stack. -/
theorem drop_data_bytes (shim : shim_t) (hops : List int_hop_t) (data : data_payload_t)
    (tail : List Byte) :
    (data_bytes shim hops data tail).drop
        (PacketFormat.SHIM_SIZE + hops.length * PacketFormat.INT_HOP_SIZE)
      = data_payload_t.layout.emit data ++ tail := by
  have hfront : (shim_t.layout.emit shim ++ emit_hops hops).length
      = PacketFormat.SHIM_SIZE + hops.length * PacketFormat.INT_HOP_SIZE := by
    rw [List.length_append, Layout.emit_length, emit_hops_length]
    rfl
  rw [data_bytes, ← List.append_assoc, ← hfront, List.drop_left]

/-- The bytes of a packet whose shim counts its hops are what `pack` writes. -/
theorem pack_data_bytes {shim : shim_t} {hops : List int_hop_t} {s : PacketFormat.Shim}
    (data : data_payload_t) (hle : hops.length ≤ MAX_HOPS)
    (hs : { s with hop_count := hops.length, max_hops := PacketFormat.MAX_HOPS }
      = shim.view) :
    PacketFormat.DataPacket.pack
      { shim := s, hops := hops.map int_hop_t.view, payload := data.view }
      = .ok (data_bytes shim hops data []) := by
  have hlen : (hops.map int_hop_t.view).length = hops.length := List.length_map _
  have hshim : PacketFormat.Shim.pack { s with
      hop_count := (hops.map int_hop_t.view).length
      max_hops := PacketFormat.MAX_HOPS } = .ok (shim_t.layout.emit shim) := by
    rw [hlen, hs, shim_t.pack_view]
  have hpacked := PacketFormat.packet_pack_of_parts (hlen ▸ hle) hshim (pack_hops_view hops)
    data.pack_view
  rw [PacketFormat.DataPacket.pack, hpacked, data_bytes, List.append_nil, List.append_assoc]

theorem data_bytes_append (shim : shim_t) (hops : List int_hop_t) (data : data_payload_t)
    (tail : List Byte) : data_bytes shim hops data [] ++ tail = data_bytes shim hops data tail := by
  simp only [data_bytes, List.append_nil, List.append_assoc]

/-- The count of a list that fits the stack, read by the Python side. -/
theorem counting_view {shim : shim_t} {hops : List int_hop_t} (hle : hops.length ≤ MAX_HOPS) :
    (shim.counting hops).view = { shim.view with hop_count := hops.length } := by
  have hlt : hops.length < 2 ^ 8 := by
    simp only [MAX_HOPS] at hle
    omega
  simp only [shim_t.view, shim_t.counting, BitVec.toNat_ofNat, Nat.mod_eq_of_lt hlt]

/-- **INT is correct end to end.** For every path of `hpcc.p4` switches with any registers
and any metadata, and every data packet sent with no entry on it and zero padding: it
comes out with the entries of the first `MAX_HOPS` switches, the last one first, counted
by the shim, everything else of the payload as sent and both length fields right; the
reflector answers it; no switch changes the answer on the way back; and the sender reads
these entries and this packet's number in it. -/
theorem int_end_to_end (path : List (HpccSwitch × standard_metadata_t))
    {p : PacketFormat.DataPacket} {bs : List Byte} (hempty : p.hops = [])
    (hpack : p.pack = .ok bs) (padding : ℕ) (f : UdpFrame) (hport : f.udp.dst_port = DATA_PORT)
    (hpay : f.payload = bs ++ List.replicate padding 0#8)
    (httl : path.length < f.ipv4.ttl.toNat) (hroute : Routed path f.ipv4.dst_addr)
    (hlen : f.ipv4.total_len.toNat + HOP_SIZE * min path.length MAX_HOPS < 2 ^ 16) :
    ∃ out : UdpFrame, ∃ hops : List int_hop_t,
      through path f.bytes = some out.bytes ∧
      hops = ((path.take MAX_HOPS).map fun sw => sw.1.entry sw.2 f.ipv4.dst_addr).reverse ∧
      hops.length = min path.length MAX_HOPS ∧
      Delivered p hops f out ∧
      ∀ (ecn_codepoint : ℕ) (recv_ts_us : Us), ∃ ack shim payload,
        Reflector.build_ack out.payload ecn_codepoint recv_ts_us = .ok (some ack) ∧
        (∀ (back : List (HpccSwitch × standard_metadata_t)) (g : UdpFrame) (frame : List Byte),
          g.udp.dst_port = ACK_PORT → g.payload = ack → through back g.bytes = some frame →
          ∃ g' : UdpFrame, frame = g'.bytes ∧ g'.payload = ack) ∧
        Hpcc.parse_ack ack = .ok (some (shim, hops.map int_hop_t.view, payload)) ∧
        payload.ack_seq = p.payload.seq := by
  obtain ⟨shim, data, hshim, hdata, rfl⟩ := exists_data_packet hpack hempty
  have hcounted : Counted shim [] := counted_of_view (Nat.zero_le _) (by rw [hshim]; rfl)
  rw [data_bytes_append] at hpay
  obtain ⟨out, hout, houtpay⟩ :=
    through_data path hport hcounted hpay httl hroute hlen
  rw [List.append_nil, List.length_nil, Nat.sub_zero] at houtpay
  have hlength : (stamps path f.ipv4.dst_addr MAX_HOPS).length = min path.length MAX_HOPS :=
    stamps_length _ _ _
  generalize hhops : stamps path f.ipv4.dst_addr MAX_HOPS = hops at houtpay hlength
  have hle : hops.length ≤ MAX_HOPS := hlength ▸ Nat.min_le_right _ _
  -- on the Python side it is a packed packet with these hops
  have hview : { p.shim with hop_count := hops.length, max_hops := PacketFormat.MAX_HOPS }
      = (shim.counting hops).view := by
    rw [counting_view hle, hshim]
  have hpacked := pack_data_bytes data hle hview
  have hpadded : out.payload = data_bytes (shim.counting hops) hops data [] ++
      List.replicate padding 0#8 := by rw [houtpay, data_bytes_append]
  have hdelivered : Delivered p hops f out := by
    refine ⟨?_, ?_, out.length_eq, out.total_len_eq⟩
    · rw [hpadded, PacketFormat.DataPacket.unpack_pack hpacked, List.length_map, hdata]
    · rw [houtpay, drop_data_bytes, hpay]
      exact (drop_data_bytes shim [] data _).symm
  refine ⟨out, hops, hout, hhops.symm, hlength, hdelivered, fun ecn_codepoint recv_ts_us => ?_⟩
  obtain ⟨ack, hack, hbuild⟩ := Reflector.build_ack_pack hpacked (List.replicate padding 0#8)
    ecn_codepoint recv_ts_us
  obtain ⟨ackshim, ackpay, hackcount, hackbytes⟩ := exists_ack_packet hack rfl
  refine ⟨ack, _, _, hpadded ▸ hbuild, ?_, Hpcc.parse_ack_pack hack, ?_⟩
  · intro back g frame hgport hgpay hback
    obtain ⟨g', hbytes, hsame⟩ :=
      through_ack back hgport hackcount (hgpay.trans hackbytes) hback
    exact ⟨g', hbytes, hsame.trans hgpay⟩
  · exact congrArg PacketFormat.DataPayload.seq hdata

/-- A switch that sends everything out of port 2. -/
def one_way_switch (switch_id : BitVec 16) : HpccSwitch where
  table := [{ addr := 0#32, len := 0, action := .ipv4_forward 0xAABBCCDDEEFF#48 2#9 }]
  registers :=
    { tx_byte_count_reg := { cells := fun _ => 5000#48, past_end := 0#48 }
      link_bps_reg := { cells := fun _ => 10000000#32, past_end := 0#32 }
      switch_id_reg := { cells := fun _ => switch_id, past_end := 0#16 } }

/-- Five switches in a row, one more than there is room for. -/
def five_switches : List (HpccSwitch × standard_metadata_t) :=
  [1#16, 2#16, 3#16, 4#16, 5#16].map fun switch_id =>
    (one_way_switch switch_id,
      { ingress_port := 1#9
        egress_spec := 0#9
        egress_port := 0#9
        packet_length := 64#32
        enq_qdepth := 3#19
        egress_global_timestamp := 123456#48
        checksum_error := 0#1 })

/-- Packet 7. -/
def packet_seven : PacketFormat.DataPacket := { payload := { seq := 7, send_ts_us := 1000 } }

/-- Packet 7 with two bytes of padding, from 10.0.1.1 to 10.0.2.2. -/
def frame_seven : UdpFrame where
  ethernet := ⟨1#48, 2#48, ETHERTYPE_IPV4⟩
  ipv4 := ⟨4#4, 5#4, 0#6, 0#2, 50#16, 1#16, 2#3, 0#13, 64#8, IP_PROTO_UDP, 0#16, 0x0A000101#32,
    0x0A000202#32⟩
  udp := ⟨40000#16, DATA_PORT, 30#16, 0#16⟩
  payload := be 4 0x00000400 ++ (be 4 7 ++ be 8 1000 ++ be 4 0) ++ List.replicate 2 0#8
  is_ipv4 := rfl
  version_eq := rfl
  no_options := rfl
  unfragmented := ⟨rfl, rfl⟩
  is_udp := rfl
  total_len_eq := rfl
  length_eq := rfl

theorem packet_seven_pack :
    packet_seven.pack = .ok (be 4 0x00000400 ++ (be 4 7 ++ be 8 1000 ++ be 4 0)) := by
  decide +kernel

/-- An entry of length zero covers every address. -/
theorem one_way_switch_lpm (switch_id : BitVec 16) (dst_addr : BitVec 32) :
    ipv4_lpm (one_way_switch switch_id).table dst_addr
      = .ipv4_forward 0xAABBCCDDEEFF#48 2#9 := by
  have hcovers : dst_addr >>> (32 - 0) = 0#32 >>> (32 - 0) := by
    apply BitVec.eq_of_toNat_eq
    have hlt : dst_addr.toNat < 2 ^ (32 - 0) := dst_addr.isLt
    rw [BitVec.toNat_ushiftRight, BitVec.toNat_ushiftRight, Nat.shiftRight_eq_div_pow,
      Nat.div_eq_of_lt hlt]
    rfl
  rw [ipv4_lpm, one_way_switch, longest, longest]
  simp only [LpmEntry.covers, hcovers, if_true, Option.map_some, Option.getD_some]

theorem five_switches_routed : Routed five_switches frame_seven.ipv4.dst_addr := by
  simp only [Routed, five_switches, List.forall_mem_map]
  intro switch_id _
  rw [one_way_switch_lpm]
  decide

/-- The fifth switch finds the stack full. -/
theorem int_end_to_end_five_switches : ∃ (out : UdpFrame) (hops : List int_hop_t),
    through five_switches frame_seven.bytes = some out.bytes ∧ hops.length = 4 ∧
      Delivered packet_seven hops frame_seven out := by
  have httl : five_switches.length < frame_seven.ipv4.ttl.toNat := by decide
  have hlen : frame_seven.ipv4.total_len.toNat + HOP_SIZE * min five_switches.length MAX_HOPS
      < 2 ^ 16 := by decide
  obtain ⟨out, hops, hout, -, hlength, hdelivered, -⟩ := int_end_to_end five_switches rfl
    packet_seven_pack 2 frame_seven rfl rfl httl five_switches_routed hlen
  have hfour : min five_switches.length MAX_HOPS = 4 := by decide
  exact ⟨out, hops, hout, hlength.trans hfour, hdelivered⟩

end IntHpcc.P4
