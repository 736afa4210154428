/-
What the data planes cannot forge.

A host hands a datagram to a socket by its protocol and its destination port, and the
reflector answers to the source address. The switches rewrite both headers in front, and one
of the programs the UDP length, so it takes an argument that a frame which is taken for one of
the transport's has been one from the start. Nothing is assumed of the frame. An ACK comes out
with the payload it has gone in with, if it comes out. Both programs are such carriers
(`Carrier`).
-/
import IntHpcc.Relay

set_option autoImplicit false

namespace IntHpcc.P4

open IntHpcc.Bytes IntHpcc.HeaderLayout

/-- Two frames with the same bytes begin with the same header. -/
theorem emit_append_inj {α : Type} {L : Layout α} {a b : α} {s t : List Byte}
    (h : L.emit a ++ s = L.emit b ++ t) : a = b ∧ s = t := by
  have ha := L.extract_emit a s
  rw [h, L.extract_emit, Option.some.injEq, Prod.mk.injEq] at ha
  exact ⟨ha.1.symm, ha.2.symm⟩

/-- The bytes of a frame determine it. -/
theorem UdpFrame.bytes_inj {f g : UdpFrame} (h : f.bytes = g.bytes) :
    f.ipv4 = g.ipv4 ∧ f.udp = g.udp ∧ f.payload = g.payload := by
  obtain ⟨-, h⟩ := emit_append_inj h
  obtain ⟨hip, h⟩ := emit_append_inj h
  obtain ⟨hudp, hpay⟩ := emit_append_inj h
  exact ⟨hip, hudp, hpay⟩

theorem UdpFrame.reads (f : UdpFrame) : Reads f.bytes f.ethernet f.ipv4 :=
  parse_front f.is_ipv4 _

/-- The frame is a datagram to one of the two ports of the transport, from or to `addr`. -/
def Talks (addr : BitVec 32) (frame : List Byte) : Prop :=
  ∃ (e : ethernet_t) (ip : ipv4_t) (u : udp_t) (rest : List Byte),
    frame = ethernet_t.layout.emit e ++
      (ipv4_t.layout.emit ip ++ (udp_t.layout.emit u ++ rest)) ∧
    e.ethertype = ETHERTYPE_IPV4 ∧ ip.protocol = IP_PROTO_UDP ∧
    (u.dst_port = DATA_PORT ∨ u.dst_port = ACK_PORT) ∧ (ip.src_addr = addr ∨ ip.dst_addr = addr)

theorem UdpFrame.talks_iff (f : UdpFrame) (addr : BitVec 32) :
    Talks addr f.bytes ↔ (f.udp.dst_port = DATA_PORT ∨ f.udp.dst_port = ACK_PORT) ∧
      (f.ipv4.src_addr = addr ∨ f.ipv4.dst_addr = addr) := by
  constructor
  · rintro ⟨e, ip, u, rest, hsplit, -, -, hport, haddr⟩
    obtain ⟨-, hsplit⟩ := emit_append_inj hsplit
    obtain ⟨hip, hsplit⟩ := emit_append_inj hsplit
    obtain ⟨hu, -⟩ := emit_append_inj hsplit
    rw [hip, hu]
    exact ⟨hport, haddr⟩
  · rintro ⟨hport, haddr⟩
    exact ⟨f.ethernet, f.ipv4, f.udp, f.payload, rfl, f.is_ipv4, f.is_udp, hport, haddr⟩

/-- A packet of another protocol is none. -/
theorem not_talks {frame : List Byte} {ip : ipv4_t} (h : (CommonParser frame).hdr.ipv4 = some ip)
    (hproto : ip.protocol ≠ IP_PROTO_UDP) (addr : BitVec 32) : ¬ Talks addr frame := by
  rintro ⟨e, ip', u, rest, rfl, htype, hproto', -⟩
  rw [(parse_front htype _).2, Option.some.injEq] at h
  exact hproto (h ▸ hproto')

/-- What a program does for the transport. -/
structure Carrier {σ : Type}
    (egress : σ → headers_t → metadata_t → standard_metadata_t → σ × headers_t) : Prop where
  /-- No frame becomes one of the transport's. -/
  talks : ∀ {table : List LpmEntry} {r : σ} {std_meta : standard_metadata_t}
    {frame out : List Byte} {addr : BitVec 32},
    (V1Switch (ingress_apply table) egress r std_meta frame).2 = some out → Talks addr out →
    Talks addr frame
  /-- An ACK stays the ACK it is. -/
  ack : ∀ {table : List LpmEntry} {r : σ} {std_meta : standard_metadata_t} {f : UdpFrame}
    {shim : shim_t} {hops : List int_hop_t} {a : ack_payload_t} {tail out : List Byte},
    f.udp.dst_port = ACK_PORT → Counted shim hops → f.payload = ack_bytes shim hops a tail →
    (V1Switch (ingress_apply table) egress r std_meta f.bytes).2 = some out →
    ∃ g : UdpFrame, out = g.bytes ∧ g.udp = f.udp ∧ g.payload = f.payload

section

variable {frame out : List Byte} {addr : BitVec 32}

/-- The two headers in front may change, the protocol and the addresses apart. -/
theorem talks_front {e : ethernet_t} {ip ip' : ipv4_t} {rest : List Byte} (a : LpmAction)
    (h : Talks addr (ethernet_t.layout.emit (a.ethernet e) ++ (ipv4_t.layout.emit ip' ++ rest)))
    (hproto : ip'.protocol = ip.protocol) (hsrc : ip'.src_addr = ip.src_addr)
    (hdst : ip'.dst_addr = ip.dst_addr) :
    Talks addr (ethernet_t.layout.emit e ++ (ipv4_t.layout.emit ip ++ rest)) := by
  -- the UDP header is among the bytes that are passed on
  obtain ⟨e', ip₁, u, rest', hsplit, htype, hudp, hport, haddr⟩ := h
  obtain ⟨he, hsplit⟩ := emit_append_inj hsplit
  obtain ⟨rfl, rfl⟩ := emit_append_inj hsplit
  refine ⟨e, ip, u, rest', rfl, ?_, hproto ▸ hudp, hport, hsrc ▸ hdst ▸ haddr⟩
  rw [← LpmAction.ethernet_ethertype a, he]
  exact htype

theorem hpcc_talks (sw : HpccSwitch) (std_meta : standard_metadata_t)
    (hout : (sw.process std_meta frame).2 = some out) (h : Talks addr out) :
    Talks addr frame := by
  rcases process_cases hout with ⟨-, rfl⟩ | ⟨e, ip, rest, -, -, -, hframe, rfl⟩ |
    ⟨e, ip, u, shim, rest, hip, hpass, hstamped, -, rfl⟩
  · exact h
  · rw [hframe]
    exact talks_front (ipv4_lpm sw.table ip.dst_addr) h rfl rfl rfl
  · -- a frame that gets an entry is a data packet
    obtain ⟨e', ip', u', rest', hsplit, -, -, -, haddr⟩ := h
    obtain ⟨-, hsplit⟩ := emit_append_inj hsplit
    obtain ⟨hsent, -⟩ := emit_append_inj hsplit
    rw [← hsent] at haddr
    obtain ⟨e, u, shim, rest, hproto, hport, -, hframe, -⟩ :=
      process_stamped sw std_meta hip hpass hstamped
    obtain ⟨e', -, htype, hframe'⟩ := split_ipv4 hip
    obtain ⟨he, -⟩ := emit_append_inj (hframe.symm.trans hframe')
    exact ⟨e, ip, u, _, hframe, he ▸ htype, hproto, Or.inl hport, haddr⟩

theorem hpcc_carrier : Carrier HpccEgress where
  talks {table r std_meta frame out addr} hout h :=
    hpcc_talks ⟨table, r⟩ std_meta hout h
  ack {table r std_meta f shim hops a tail out} hport hcount hpay hout := by
    have hprocess : (HpccSwitch.process ⟨table, r⟩ std_meta f.bytes).2 = some out := hout
    rcases process_ack ⟨table, r⟩ std_meta hport hcount hpay with hdrop | hsent
    · rw [hdrop] at hprocess
      cases hprocess
    · rw [hsent] at hprocess
      exact ⟨_, (Option.some.inj hprocess).symm, rfl, rfl⟩

namespace DctcpSwitch

/-- Egress touches the ECN field only. -/
theorem egress_ecn (r : DctcpRegisters) {hdr : headers_t} (metadata : metadata_t)
    (std_meta : standard_metadata_t) {ip : ipv4_t} (hip : hdr.ipv4 = some ip) :
    ∃ ip' : ipv4_t, (DctcpEgress r hdr metadata std_meta).2.ipv4 = some ip' ∧
      behind (DctcpEgress r hdr metadata std_meta).2 = behind hdr ∧
      ip'.protocol = ip.protocol ∧ ip'.src_addr = ip.src_addr ∧ ip'.dst_addr = ip.dst_addr := by
  unfold DctcpEgress
  rw [hip]
  dsimp only
  split
  · exact ⟨ip, hip, rfl, rfl, rfl, rfl⟩
  · split
    · exact ⟨ip, hip, rfl, rfl, rfl, rfl⟩
    · split
      · exact ⟨_, rfl, rfl, rfl, rfl, rfl⟩
      · exact ⟨ip, hip, rfl, rfl, rfl, rfl⟩

theorem dctcp_talks (sw : DctcpSwitch) (std_meta : standard_metadata_t)
    (hout : (sw.process std_meta frame).2 = some out) (h : Talks addr out) :
    Talks addr frame := by
  unfold process DctcpIngress at hout
  cases hip : (CommonParser frame).hdr.ipv4 with
  | none =>
      rw [V1Switch_of_no_ipv4 hip (fun m => dctcp_transparent.no_ipv4 _ _ _ m hip)] at hout
      exact Option.some.inj hout ▸ h
  | some ip =>
      -- what came out was not dropped by the ingress
      have hpass : Passes sw.table ip := by
        by_contra hdrop
        rw [V1Switch_of_not_passes rfl hip hdrop] at hout
        cases hout
      obtain ⟨e, he, -, hframe⟩ := split_ipv4 hip
      rw [V1Switch_of_passes rfl hip hpass] at hout
      generalize ipv4_lpm sw.table ip.dst_addr = a at hout
      have hin : (forwarded a (CommonParser frame).hdr).ipv4
          = some { ip with ttl := a.ttl ip.ttl } := by
        rw [forwarded, hip]
        rfl
      have hein : (forwarded a (CommonParser frame).hdr).ethernet = some (a.ethernet e) := by
        rw [forwarded, he]
        rfl
      -- the egress writes the ECN bits, neither the protocol nor an address
      obtain ⟨ip', hip', hbehind, hproto, hsrc, hdst⟩ := egress_ecn sw.registers
        (CommonParser frame).metadata (at_egress (CommonParser frame).hdr a std_meta) hin
      have he' := dctcp_transparent.ethernet sw.registers (forwarded a (CommonParser frame).hdr)
        (CommonParser frame).metadata (at_egress (CommonParser frame).hdr a std_meta)
      rw [deparse_sent (he'.trans hein) hip', hbehind, Option.some.injEq, List.append_assoc,
        List.append_assoc] at hout
      rw [← hout] at h
      rw [hframe]
      exact talks_front a h hproto hsrc hdst

theorem dctcp_carrier : Carrier DctcpEgress where
  talks {table r std_meta frame out addr} hout h :=
    dctcp_talks ⟨table, r⟩ std_meta hout h
  ack {table r std_meta f shim hops a tail out} hport hcount hpay hout := by
    have hprocess : (process ⟨table, r⟩ std_meta f.bytes).2 = some out := hout
    rcases process_ack ⟨table, r⟩ std_meta hport hcount hpay with hdrop | hsent
    · rw [hdrop] at hprocess
      cases hprocess
    · rw [hsent] at hprocess
      exact ⟨_, (Option.some.inj hprocess).symm, rfl, rfl⟩

end DctcpSwitch

end

end IntHpcc.P4

namespace IntHpcc.LoadTables

theorem Algo.carrier (algo : Algo) : P4.Carrier algo.program.egress := by
  cases algo with
  | dctcp ecn_k => exact P4.DctcpSwitch.dctcp_carrier
  | hpcc => exact P4.hpcc_carrier

end IntHpcc.LoadTables
