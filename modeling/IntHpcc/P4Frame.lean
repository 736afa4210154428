/-
Well-formed frames in the data plane.

A `UdpFrame` is an IPv4/UDP packet without options and not a fragment, whose two length
fields are the real ones; the last is part of the type, so a switch that is shown to send
a `UdpFrame` has kept them right. What the parser makes of a data packet and of an ACK in
such a frame, and what ingress does with it, is the same for every program here.
-/
import IntHpcc.HpccP4

set_option autoImplicit false

namespace IntHpcc.P4

open IntHpcc.Bytes IntHpcc.HeaderLayout

/-- `MF`, the low bit of the three flags, is not set and the offset is zero. -/
def ipv4_t.Unfragmented (ip : ipv4_t) : Prop := ip.flags &&& 1#3 = 0#3 ∧ ip.frag_offset = 0#13

/-- A frame with an IPv4/UDP packet. -/
structure UdpFrame where
  ethernet : ethernet_t
  ipv4 : ipv4_t
  udp : udp_t
  payload : List Byte
  is_ipv4 : ethernet.ethertype = ETHERTYPE_IPV4
  version_eq : ipv4.version = 4#4
  no_options : ipv4.ihl = 5#4
  unfragmented : ipv4.Unfragmented
  is_udp : ipv4.protocol = IP_PROTO_UDP
  total_len_eq : ipv4.total_len.toNat = 28 + payload.length
  length_eq : udp.length.toNat = 8 + payload.length

def UdpFrame.bytes (f : UdpFrame) : List Byte :=
  ethernet_t.layout.emit f.ethernet ++
    (ipv4_t.layout.emit f.ipv4 ++ (udp_t.layout.emit f.udp ++ f.payload))

/-- The UDP payload of a data packet. -/
def data_bytes (shim : shim_t) (hops : List int_hop_t) (data : data_payload_t)
    (tail : List Byte) : List Byte :=
  shim_t.layout.emit shim ++ (emit_hops hops ++ (data_payload_t.layout.emit data ++ tail))

/-- The UDP payload of an ACK. -/
def ack_bytes (shim : shim_t) (hops : List int_hop_t) (ack : ack_payload_t)
    (tail : List Byte) : List Byte :=
  shim_t.layout.emit shim ++ (emit_hops hops ++ (ack_payload_t.layout.emit ack ++ tail))

/-- The shim counts the hops, and there are at most `MAX_HOPS`. -/
structure Counted (shim : shim_t) (hops : List int_hop_t) : Prop where
  le_max : hops.length ≤ MAX_HOPS
  count_eq : shim.hop_count = BitVec.ofNat 8 hops.length

theorem Counted.toNat_eq {shim : shim_t} {hops : List int_hop_t} (h : Counted shim hops) :
    shim.hop_count.toNat = hops.length := by
  have hle := h.le_max
  simp only [MAX_HOPS] at hle
  rw [h.count_eq, BitVec.toNat_ofNat]
  omega

/-- The shim with the count of `hops`. -/
def shim_t.counting (shim : shim_t) (hops : List int_hop_t) : shim_t :=
  { shim with hop_count := BitVec.ofNat 8 hops.length }

theorem Counted.counting_eq {shim : shim_t} {hops : List int_hop_t} (h : Counted shim hops) :
    shim.counting hops = shim := by
  rw [shim_t.counting, ← h.count_eq]

/-- One more entry, counted. -/
theorem Counted.push {shim : shim_t} {hops : List int_hop_t} (h : Counted shim hops)
    (hroom : hops.length < MAX_HOPS) (hop : int_hop_t) :
    Counted { shim with hop_count := shim.hop_count + 1#8 } (hop :: hops) := by
  refine ⟨hroom, ?_⟩
  rw [h.count_eq, List.length_cons]
  apply BitVec.eq_of_toNat_eq
  simp only [BitVec.toNat_add, BitVec.toNat_ofNat]
  omega

section

variable {f : UdpFrame} {shim : shim_t} {hops : List int_hop_t} {tail : List Byte}

/-! ## Parsing -/

/-- The headers of a data packet. -/
def data_headers (f : UdpFrame) (shim : shim_t) (hops : List int_hop_t)
    (hlen : hops.length ≤ MAX_HOPS) (data : data_payload_t) : headers_t where
  ethernet := some f.ethernet
  ipv4 := some f.ipv4
  udp := some f.udp
  shim := some shim
  hops := .holding hops hlen
  data := some data

theorem parse_data {data : data_payload_t} (hport : f.udp.dst_port = DATA_PORT)
    (h : Counted shim hops) (hpay : f.payload = data_bytes shim hops data tail) :
    CommonParser f.bytes =
      { state := .accept
        pkt := tail
        hdr := data_headers f shim hops h.le_max data
        metadata := { is_data := 1#1 } } := by
  apply CommonParser_eq
  · refine (Parse.reaches_udp f.is_ipv4 f.is_udp f.payload).trans ?_
    rw [if_pos hport, hpay]
    exact Parse.reaches_data h.le_max h.count_eq rfl tail
  · exact Or.inl rfl

theorem parse_ack {ack : ack_payload_t} (hport : f.udp.dst_port = ACK_PORT)
    (h : Counted shim hops) (hpay : f.payload = ack_bytes shim hops ack tail) :
    CommonParser f.bytes =
      { state := .accept
        pkt := tail
        hdr :=
          { ethernet := some f.ethernet
            ipv4 := some f.ipv4
            udp := some f.udp
            shim := some shim
            hops := .holding hops h.le_max
            ack := some ack }
        metadata := { is_ack := 1#1 } } := by
  -- the two ports differ, so the data states are not entered
  have hother : f.udp.dst_port ≠ DATA_PORT := by
    rw [hport]
    decide
  apply CommonParser_eq
  · refine (Parse.reaches_udp f.is_ipv4 f.is_udp f.payload).trans ?_
    rw [if_neg hother, if_pos hport, hpay]
    exact Parse.reaches_ack h.le_max h.count_eq rfl tail
  · exact Or.inl rfl

/-! ## Deparsing -/

/-- Only the entries a stack holds are written. -/
theorem emit_holding (hlen : hops.length ≤ MAX_HOPS) :
    (HopStack.holding hops hlen).slots.flatMap (emit_valid int_hop_t.layout)
      = emit_hops hops := by
  have hsome : (hops.map some).flatMap (emit_valid int_hop_t.layout) = emit_hops hops := by
    rw [List.flatMap_map]
    rfl
  have hnone : ∀ k, (List.replicate k none).flatMap (emit_valid int_hop_t.layout) = [] := by
    intro k
    induction k with
    | zero => rfl
    | succ k ih => rw [List.replicate_succ, List.flatMap_cons, ih]; rfl
  rw [HopStack.holding, List.flatMap_append, hsome, hnone, List.append_nil]

/-! ## Ingress -/

/-- Where an action sends the packet. -/
def LpmAction.egress_spec : LpmAction → BitVec 9
  | .ipv4_forward _ port => port
  | .drop => DROP_PORT
  | .NoAction => 0#9

/-- The Ethernet header an action leaves. -/
def LpmAction.ethernet (a : LpmAction) (e : ethernet_t) : ethernet_t :=
  match a with
  | .ipv4_forward dst_mac _ =>
    { e with
      src_mac := e.dst_mac
      dst_mac := dst_mac }
  | _ => e

/-- The TTL an action leaves. -/
def LpmAction.ttl (a : LpmAction) (ttl : BitVec 8) : BitVec 8 :=
  match a with
  | .ipv4_forward _ _ => ttl - 1#8
  | _ => ttl

@[simp] theorem LpmAction.ethernet_ethertype (a : LpmAction) (e : ethernet_t) :
    (a.ethernet e).ethertype = e.ethertype := by
  cases a <;> rfl

/-- A hop costs one unit of TTL at most. -/
theorem LpmAction.ttl_ge (a : LpmAction) {ttl : BitVec 8} (h : 1#8 < ttl) :
    ttl.toNat ≤ (a.ttl ttl).toNat + 1 := by
  have hlt := BitVec.lt_def.mp h
  simp only [BitVec.toNat_ofNat] at hlt
  cases a with
  | ipv4_forward dst_mac port =>
      simp only [LpmAction.ttl, BitVec.toNat_sub, BitVec.toNat_ofNat]
      omega
  | drop => exact Nat.le_succ _
  | NoAction => exact Nat.le_succ _

/-- Ingress lets the packet through. -/
def Passes (table : List LpmEntry) (ip : ipv4_t) : Prop :=
  1#8 < ip.ttl ∧ (ipv4_lpm table ip.dst_addr).egress_spec ≠ DROP_PORT

instance (table : List LpmEntry) (ip : ipv4_t) : Decidable (Passes table ip) :=
  inferInstanceAs (Decidable (_ ∧ _))

/-- The headers as they reach egress. -/
def forwarded (a : LpmAction) (hdr : headers_t) : headers_t :=
  { hdr with
    ethernet := hdr.ethernet.map a.ethernet
    ipv4 := hdr.ipv4.map fun ip => { ip with ttl := a.ttl ip.ttl } }

theorem ingress_of_passes {table : List LpmEntry} {hdr : headers_t} {ip : ipv4_t}
    (hip : hdr.ipv4 = some ip) (h : Passes table ip) {std_meta : standard_metadata_t}
    (hspec : std_meta.egress_spec = 0#9) :
    ingress_apply table hdr std_meta
      = (forwarded (ipv4_lpm table ip.dst_addr) hdr,
          { std_meta with egress_spec := (ipv4_lpm table ip.dst_addr).egress_spec }) := by
  obtain ⟨httl, hroute⟩ := h
  unfold ingress_apply
  rw [hip]
  dsimp only
  rw [if_pos httl]
  generalize ipv4_lpm table ip.dst_addr = a at hroute
  unfold forwarded
  rw [hip]
  cases a with
  | ipv4_forward dst_mac port => rfl
  -- a frame that passes was not dropped by the table
  | drop => exact absurd rfl hroute
  | NoAction =>
      have hmap : hdr.ethernet.map LpmAction.NoAction.ethernet = hdr.ethernet := Option.map_id'
      -- `NoAction` writes neither the port nor the MAC address
      have hstd : ({ std_meta with egress_spec := 0#9 } : standard_metadata_t) = std_meta := by
        rw [← hspec]
      have hhdr : ({ hdr with
          ethernet := hdr.ethernet.map LpmAction.NoAction.ethernet
          ipv4 := some ip } : headers_t) = hdr := by rw [hmap, ← hip]
      exact Prod.ext hhdr.symm hstd.symm

theorem ingress_of_not_passes {table : List LpmEntry} {hdr : headers_t} {ip : ipv4_t}
    (hip : hdr.ipv4 = some ip) (h : ¬ Passes table ip) (std_meta : standard_metadata_t) :
    (ingress_apply table hdr std_meta).2.egress_spec = DROP_PORT := by
  unfold ingress_apply
  rw [hip]
  dsimp only
  by_cases httl : 1#8 < ip.ttl
  · rw [if_pos httl]
    have hdrop : (ipv4_lpm table ip.dst_addr).egress_spec = DROP_PORT := by
      by_contra hne
      exact h ⟨httl, hne⟩
    generalize ipv4_lpm table ip.dst_addr = a at hdrop
    cases a with
    | ipv4_forward dst_mac port => exact hdrop
    | drop => rfl
    | NoAction => exact absurd hdrop (by decide)
  · rw [if_neg httl]
    rfl

/-! ## The whole switch -/

/-- The metadata as egress sees it. -/
def at_egress (hdr : headers_t) (a : LpmAction) (std_meta : standard_metadata_t) :
    standard_metadata_t :=
  { CommonVerifyChecksum hdr { std_meta with
      egress_spec := 0#9
      checksum_error := 0#1 } with
    egress_spec := a.egress_spec
    egress_port := a.egress_spec }

theorem verify_egress_spec (hdr : headers_t) (std_meta : standard_metadata_t) :
    (CommonVerifyChecksum hdr std_meta).egress_spec = std_meta.egress_spec := by
  unfold CommonVerifyChecksum
  cases hdr.ipv4 with
  | none => rfl
  | some ip =>
      dsimp only
      by_cases hc : csum16 ip.checksum_data = ip.hdr_checksum
      · rw [if_pos hc]
      · rw [if_neg hc]

/-- Egress sees the metadata the packet came with, the port and the checksum flag apart. -/
theorem at_egress_eq (hdr : headers_t) (a : LpmAction) (std_meta : standard_metadata_t) :
    ∃ checksum_error, at_egress hdr a std_meta = { std_meta with
      egress_spec := a.egress_spec
      egress_port := a.egress_spec
      checksum_error := checksum_error } := by
  unfold at_egress CommonVerifyChecksum
  cases hdr.ipv4 with
  | none => exact ⟨0#1, rfl⟩
  | some ip =>
      dsimp only
      by_cases hc : csum16 ip.checksum_data = ip.hdr_checksum
      · rw [if_pos hc]
        exact ⟨0#1, rfl⟩
      · rw [if_neg hc]
        exact ⟨1#1, rfl⟩

variable {σ : Type} {egress : σ → headers_t → metadata_t → standard_metadata_t → σ × headers_t}
  {table : List LpmEntry} {frame : List Byte} {p : Parse} {ip : ipv4_t}

/-- A packet that ingress lets through. -/
theorem V1Switch_of_passes (hp : CommonParser frame = p) (hip : p.hdr.ipv4 = some ip)
    (h : Passes table ip) (r : σ) (std_meta : standard_metadata_t) :
    V1Switch (ingress_apply table) egress r std_meta frame
      = ((egress r (forwarded (ipv4_lpm table ip.dst_addr) p.hdr) p.metadata
            (at_egress p.hdr (ipv4_lpm table ip.dst_addr) std_meta)).1,
          some (CommonDeparser (CommonComputeChecksum
            (egress r (forwarded (ipv4_lpm table ip.dst_addr) p.hdr) p.metadata
              (at_egress p.hdr (ipv4_lpm table ip.dst_addr) std_meta)).2) ++ p.pkt)) := by
  have hspec := verify_egress_spec p.hdr { std_meta with
    egress_spec := 0#9
    checksum_error := 0#1 }
  unfold V1Switch
  simp only [hp, ingress_of_passes hip h hspec, if_neg h.2]
  rfl

/-- A packet that ingress drops. -/
theorem V1Switch_of_not_passes (hp : CommonParser frame = p) (hip : p.hdr.ipv4 = some ip)
    (h : ¬ Passes table ip) (r : σ) (std_meta : standard_metadata_t) :
    V1Switch (ingress_apply table) egress r std_meta frame = (r, none) := by
  unfold V1Switch
  simp only [hp, ingress_of_not_passes hip h, if_true]

end

end IntHpcc.P4
