/-
`hpcc.p4` on any frame at all.

Nothing is assumed of the frame here: it may be cut off anywhere, carry IP options, be a
fragment or no IPv4 at all. Two cases are left (`process_cases`): the switch rewrites the
Ethernet and the IPv4 header and passes on every byte behind them, or it takes the frame
for a data packet with room for one more entry (`Stamped`) and puts the entry behind the
shim. The parser looks for the UDP header and the shim at fixed offsets, so `Stamped` says
nothing about `ihl` or the fragment fields.
-/
import IntHpcc.ParserLossless

set_option autoImplicit false

namespace IntHpcc.P4

open IntHpcc.Bytes IntHpcc.HeaderLayout

/-! ## The bytes behind IPv4 -/

/-- What the deparser writes behind the IPv4 header. -/
def behind (hdr : headers_t) : List Byte :=
  emit_valid udp_t.layout hdr.udp ++
    (emit_valid shim_t.layout hdr.shim ++
      (hdr.hops.slots.flatMap (emit_valid int_hop_t.layout) ++
        (emit_valid data_payload_t.layout hdr.data ++
          emit_valid ack_payload_t.layout hdr.ack)))

theorem deparse_behind {hdr : headers_t} {e : ethernet_t} {ip : ipv4_t}
    (he : hdr.ethernet = some e) (hip : hdr.ipv4 = some ip) :
    CommonDeparser hdr = ethernet_t.layout.emit e ++ (ipv4_t.layout.emit ip ++ behind hdr) := by
  rw [CommonDeparser, he, hip]
  rfl

/-- The sizes of the two headers in front. -/
def ETHERNET_SIZE : ℕ := 14
def IPV4_SIZE : ℕ := 20

theorem drop_headers (e : ethernet_t) (ip : ipv4_t) (rest : List Byte) (n : ℕ) :
    (ethernet_t.layout.emit e ++ (ipv4_t.layout.emit ip ++ rest)).drop
      (ETHERNET_SIZE + IPV4_SIZE + n) = rest.drop n := by
  have hsize : (ethernet_t.layout.emit e ++ ipv4_t.layout.emit ip).length
      = ETHERNET_SIZE + IPV4_SIZE := by
    rw [List.length_append, Layout.emit_length, Layout.emit_length]
    rfl
  rw [← List.append_assoc, ← List.drop_drop, ← hsize, List.drop_left]

variable {hdr : headers_t} {metadata : metadata_t} {ip : ipv4_t}

/-- In front of an IPv4 header is an Ethernet header that says so. -/
theorem Extracted.ethernet_of_ipv4 (h : Extracted hdr metadata) (hip : hdr.ipv4 = some ip) :
    ∃ e : ethernet_t, hdr.ethernet = some e ∧ e.ethertype = ETHERTYPE_IPV4 := by
  cases h with
  | nothing | ethernet e => cases hip
  | ipv4 e ip he => exact ⟨e, rfl, he⟩
  | udp o => exact ⟨o.ethernet, rfl, o.is_ipv4⟩
  | stack k o shim hops hle n hport hcount => exact ⟨o.ethernet, rfl, o.is_ipv4⟩
  | data o shim hops hle d hport hcount => exact ⟨o.ethernet, rfl, o.is_ipv4⟩
  | ack o shim hops hle a hport hcount => exact ⟨o.ethernet, rfl, o.is_ipv4⟩

/-- A frame the parser found an IPv4 header in. -/
theorem split_ipv4 {frame : List Byte} (h : (CommonParser frame).hdr.ipv4 = some ip) :
    ∃ e : ethernet_t, (CommonParser frame).hdr.ethernet = some e ∧
      e.ethertype = ETHERTYPE_IPV4 ∧
      frame = ethernet_t.layout.emit e ++
        (ipv4_t.layout.emit ip ++
          (behind (CommonParser frame).hdr ++ (CommonParser frame).pkt)) := by
  obtain ⟨e, he, htype⟩ := (extracted_parse frame).ethernet_of_ipv4 h
  refine ⟨e, he, htype, ?_⟩
  have hsame := deparse_parse frame
  rw [deparse_behind he h, List.append_assoc, List.append_assoc] at hsame
  exact hsame.symm

/-! ## What egress does -/

/-- The switch takes the frame for a data packet, and there is room in its stack. -/
def Stamped (frame : List Byte) : Prop :=
  (CommonParser frame).metadata.is_data = 1#1 ∧
    ∃ shim, (CommonParser frame).hdr.shim = some shim ∧ shim.hop_count.toNat < MAX_HOPS

/-- A packet that is taken for a data packet has the headers up to the shim, and as many
hops as the shim says or fewer. -/
theorem Extracted.data_headers {shim : shim_t} (h : Extracted hdr metadata)
    (hdata : metadata.is_data = 1#1) (hshim : hdr.shim = some shim) :
    ∃ (o : Outer) (hops : List int_hop_t) (hle : hops.length ≤ MAX_HOPS),
      o.udp.dst_port = DATA_PORT ∧ hops.length ≤ shim.hop_count.toNat ∧
        hdr.ethernet = some o.ethernet ∧ hdr.ipv4 = some o.ipv4 ∧ hdr.udp = some o.udp ∧
        hdr.hops = .holding hops hle := by
  cases h with
  | nothing | ethernet e | ipv4 e ip he | udp o => cases hshim
  | stack k o shim' hops hle n hport hcount =>
      rw [← Option.some.inj hshim]
      cases k with
      | data => exact ⟨o, hops, hle, hport, by omega, rfl, rfl, rfl, rfl⟩
      | ack => exact absurd (show (0#1 : BitVec 1) = 1#1 from hdata) (by decide)
  | data o shim' hops hle d hport hcount =>
      rw [← Option.some.inj hshim]
      exact ⟨o, hops, hle, hport, hcount.le, rfl, rfl, rfl, rfl⟩
  | ack o shim' hops hle a hport hcount => exact absurd hdata (by decide)

/-- Egress leaves every other frame alone, and the registers with it. -/
theorem egress_of_not_stamped {frame : List Byte} (h : ¬ Stamped frame) (r : HpccRegisters)
    (a : LpmAction) (std_meta : standard_metadata_t) :
    HpccEgress r (forwarded a (CommonParser frame).hdr) (CommonParser frame).metadata std_meta
      = (r, forwarded a (CommonParser frame).hdr) := by
  by_cases hdata : (CommonParser frame).metadata.is_data = 1#1
  · cases hs : (CommonParser frame).hdr.shim with
    | none =>
        unfold HpccEgress
        split
        · rfl
        · have hshim : (forwarded a (CommonParser frame).hdr).shim = none := hs
          rw [hshim]
    | some shim =>
        have hfull : MAX_HOPS ≤ shim.hop_count.toNat := by
          by_contra hlt
          exact h ⟨hdata, shim, hs, not_le.mp hlt⟩
        exact egress_full hs hfull
  · exact egress_other hdata

/-- Egress counts a packet it stamps, with the entry in it. -/
theorem egress_stamped {r : HpccRegisters} (hdr : headers_t) {metadata : metadata_t}
    {shim : shim_t} (std_meta : standard_metadata_t) (hip : hdr.ipv4 ≠ none)
    (hdata : metadata.is_data = 1#1) (hshim : hdr.shim = some shim)
    (hroom : shim.hop_count.toNat < MAX_HOPS) :
    HpccEgress r hdr metadata std_meta =
      ({ r with
          tx_byte_count_reg := r.tx_byte_count_reg.write (HpccRegisters.egport std_meta)
            (r.new_hop std_meta).tx_byte_count },
        push_hop hdr shim (r.new_hop std_meta)) := by
  have hguard : ¬ (hdr.ipv4 = none ∨ metadata.is_data ≠ 1#1) := by
    rintro (h | h)
    · exact hip h
    · exact h hdata
  unfold HpccEgress
  rw [if_neg hguard, hshim]
  dsimp only
  rw [if_neg (not_le.mpr hroom)]
  rfl

/-! ## The whole switch -/

/-- A frame without an IPv4 header goes through a switch whose egress leaves it alone as it
is. -/
theorem V1Switch_of_no_ipv4 {σ : Type}
    {egress : σ → headers_t → metadata_t → standard_metadata_t → σ × headers_t} {r : σ}
    {frame : List Byte} (h : (CommonParser frame).hdr.ipv4 = none)
    (hegress : ∀ std_meta, egress r (CommonParser frame).hdr (CommonParser frame).metadata std_meta
      = (r, (CommonParser frame).hdr)) (table : List LpmEntry) (std_meta : standard_metadata_t) :
    V1Switch (ingress_apply table) egress r std_meta frame = (r, some frame) := by
  have hspec := verify_egress_spec (CommonParser frame).hdr { std_meta with
    egress_spec := 0#9
    checksum_error := 0#1 }
  have hport : ¬ (0#9 : BitVec 9) = DROP_PORT := by decide
  have hsum : CommonComputeChecksum (CommonParser frame).hdr = (CommonParser frame).hdr := by
    have hnone : (CommonParser frame).hdr.ipv4.map (fun ip =>
        { ip with hdr_checksum := csum16 ip.checksum_data }) = (CommonParser frame).hdr.ipv4 := by
      rw [h]
      rfl
    rw [CommonComputeChecksum, hnone]
  unfold V1Switch ingress_apply
  simp only [h, hspec, if_neg hport, hegress, hsum, deparse_parse]

theorem process_no_ipv4 (sw : HpccSwitch) (std_meta : standard_metadata_t) {frame : List Byte}
    (h : (CommonParser frame).hdr.ipv4 = none) :
    sw.process std_meta frame = (sw.registers, some frame) := by
  refine V1Switch_of_no_ipv4 h ?_ sw.table std_meta
  intro std_meta
  unfold HpccEgress
  rw [if_pos (Or.inl h)]

/-- What the switch sends, in terms of what egress hands to the deparser. -/
theorem deparse_sent {hdr : headers_t} {e : ethernet_t} {ip : ipv4_t}
    (he : hdr.ethernet = some e) (hip : hdr.ipv4 = some ip) :
    CommonDeparser (CommonComputeChecksum hdr) = ethernet_t.layout.emit e ++
      (ipv4_t.layout.emit { ip with hdr_checksum := csum16 ip.checksum_data } ++ behind hdr) := by
  have hip' : (CommonComputeChecksum hdr).ipv4
      = some { ip with hdr_checksum := csum16 ip.checksum_data } := by
    rw [CommonComputeChecksum, hip]
    rfl
  exact deparse_behind he hip'

section

variable {sw : HpccSwitch} {std_meta : standard_metadata_t} {frame : List Byte} {e : ethernet_t}
  {ip : ipv4_t}

variable (sw std_meta) in
/-- A frame that is not stamped: the two headers in front are rewritten. -/
theorem process_plain (he : (CommonParser frame).hdr.ethernet = some e)
    (hip : (CommonParser frame).hdr.ipv4 = some ip) (hpass : Passes sw.table ip)
    (h : ¬ Stamped frame) :
    sw.process std_meta frame = (sw.registers,
      some (ethernet_t.layout.emit ((ipv4_lpm sw.table ip.dst_addr).ethernet e) ++
        (ipv4_t.layout.emit (ip.sent (ipv4_lpm sw.table ip.dst_addr) ip.total_len) ++
          (behind (CommonParser frame).hdr ++ (CommonParser frame).pkt)))) := by
  unfold HpccSwitch.process HpccIngress
  rw [V1Switch_of_passes rfl hip hpass, egress_of_not_stamped h]
  have he' : (forwarded (ipv4_lpm sw.table ip.dst_addr) (CommonParser frame).hdr).ethernet
      = some ((ipv4_lpm sw.table ip.dst_addr).ethernet e) := by
    rw [forwarded, he]
    rfl
  have hip' : (forwarded (ipv4_lpm sw.table ip.dst_addr) (CommonParser frame).hdr).ipv4
      = some { ip with ttl := (ipv4_lpm sw.table ip.dst_addr).ttl ip.ttl } := by
    rw [forwarded, hip]
    rfl
  rw [deparse_sent he' hip', List.append_assoc, List.append_assoc]
  rfl

/-- The bytes behind IPv4 when an entry has been pushed. -/
def stamped_behind (u : udp_t) (shim : shim_t) (hop : int_hop_t) (rest : List Byte) :
    List Byte :=
  udp_t.layout.emit { u with
      length := u.length + BitVec.ofNat 16 HOP_SIZE
      checksum := 0#16 } ++
    (shim_t.layout.emit { shim with hop_count := shim.hop_count + 1#8 } ++
      (int_hop_t.layout.emit hop ++ rest))

theorem pushed_fields {hdr : headers_t} {u : udp_t} (a : LpmAction) (shim : shim_t)
    (hop : int_hop_t) (he : hdr.ethernet = some e) (hip : hdr.ipv4 = some ip)
    (hu : hdr.udp = some u) :
    (CommonComputeChecksum (push_hop (forwarded a hdr) shim hop)).ethernet = some (a.ethernet e) ∧
      (CommonComputeChecksum (push_hop (forwarded a hdr) shim hop)).ipv4
        = some (ip.sent a (ip.total_len + BitVec.ofNat 16 HOP_SIZE)) ∧
      (CommonComputeChecksum (push_hop (forwarded a hdr) shim hop)).udp
        = some { u with
            length := u.length + BitVec.ofNat 16 HOP_SIZE
            checksum := 0#16 } := by
  refine ⟨?_, ?_, ?_⟩
  · show hdr.ethernet.map a.ethernet = _
    rw [he]
    rfl
  · show ((hdr.ipv4.map _).map _).map _ = _
    rw [hip]
    rfl
  · show hdr.udp.map _ = _
    rw [hu]
    rfl

variable (sw std_meta) in
/-- A frame that is stamped: the entry stands behind the shim, and behind the entry is
what stood behind the shim. -/
theorem process_stamped (hip : (CommonParser frame).hdr.ipv4 = some ip)
    (hpass : Passes sw.table ip) (h : Stamped frame) :
    ∃ (e : ethernet_t) (u : udp_t) (shim : shim_t) (rest : List Byte),
      ip.protocol = IP_PROTO_UDP ∧ u.dst_port = DATA_PORT ∧ shim.hop_count.toNat < MAX_HOPS ∧
      frame = ethernet_t.layout.emit e ++ (ipv4_t.layout.emit ip ++
        (udp_t.layout.emit u ++ (shim_t.layout.emit shim ++ rest))) ∧
      sw.process std_meta frame =
        ({ sw.registers with
            tx_byte_count_reg := sw.registers.tx_byte_count_reg.write
              ((ipv4_lpm sw.table ip.dst_addr).egress_spec.setWidth 32)
              (sw.entry std_meta ip.dst_addr).tx_byte_count },
          some (ethernet_t.layout.emit ((ipv4_lpm sw.table ip.dst_addr).ethernet e) ++
            (ipv4_t.layout.emit (ip.sent (ipv4_lpm sw.table ip.dst_addr)
                (ip.total_len + BitVec.ofNat 16 HOP_SIZE)) ++
              stamped_behind u shim (sw.entry std_meta ip.dst_addr) rest))) := by
  obtain ⟨hdata, shim, hshim, hroom⟩ := h
  obtain ⟨o, hops, hle, hport, hcount, he, hip', hu, hstack⟩ :=
    (extracted_parse frame).data_headers hdata hshim
  have hroom' : (sw.entry std_meta ip.dst_addr :: hops).length ≤ MAX_HOPS := by
    rw [List.length_cons]
    omega
  have hsame : o.ipv4 = ip := Option.some.inj (hip'.symm.trans hip)
  -- the packet as it came …
  have hframe := deparse_parse frame
  rw [deparse_frame hle he hip hu hshim hstack] at hframe
  refine ⟨o.ethernet, o.udp, shim, _, hsame ▸ o.is_udp, hport, hroom, hframe.symm, ?_⟩
  -- … and as it leaves
  have hpush := HopStack.push_front_holding (sw.entry std_meta ip.dst_addr) hroom' hle
  have hentry : sw.registers.new_hop (at_egress (CommonParser frame).hdr
      (ipv4_lpm sw.table ip.dst_addr) std_meta) = sw.entry std_meta ip.dst_addr :=
    new_hop_at_egress _ _ _ _
  unfold HpccSwitch.process HpccIngress
  rw [V1Switch_of_passes rfl hip hpass,
    egress_stamped (forwarded (ipv4_lpm sw.table ip.dst_addr) (CommonParser frame).hdr) _
      (by simp [forwarded, hip]) hdata hshim hroom, hentry]
  dsimp only
  obtain ⟨he', hip'', hu'⟩ := pushed_fields (ipv4_lpm sw.table ip.dst_addr) shim
    (sw.entry std_meta ip.dst_addr) he hip hu
  have hpushed : (CommonComputeChecksum (push_hop (forwarded (ipv4_lpm sw.table ip.dst_addr)
      (CommonParser frame).hdr) shim (sw.entry std_meta ip.dst_addr))).hops
      = HopStack.holding (sw.entry std_meta ip.dst_addr :: hops) hroom' := by
    rw [← hpush, ← hstack]
    rfl
  rw [deparse_frame hroom' he' hip'' hu' rfl hpushed, emit_hops_cons, List.append_assoc]
  rfl

/-- What the switch sends of an IPv4 frame it does not stamp. -/
def plain (a : LpmAction) (e : ethernet_t) (ip : ipv4_t) (rest : List Byte) : List Byte :=
  ethernet_t.layout.emit (a.ethernet e) ++ (ipv4_t.layout.emit (ip.sent a ip.total_len) ++ rest)

/-- All that can come out of the switch. -/
theorem process_cases {out : List Byte} (h : (sw.process std_meta frame).2 = some out) :
    ((CommonParser frame).hdr.ipv4 = none ∧ out = frame) ∨
    (∃ e ip rest, (CommonParser frame).hdr.ipv4 = some ip ∧ Passes sw.table ip ∧
      ¬ Stamped frame ∧
      frame = ethernet_t.layout.emit e ++ (ipv4_t.layout.emit ip ++ rest) ∧
      out = plain (ipv4_lpm sw.table ip.dst_addr) e ip rest) ∨
    (∃ e ip u shim rest, (CommonParser frame).hdr.ipv4 = some ip ∧ Passes sw.table ip ∧
      Stamped frame ∧
      frame = ethernet_t.layout.emit e ++ (ipv4_t.layout.emit ip ++
        (udp_t.layout.emit u ++ (shim_t.layout.emit shim ++ rest))) ∧
      out = ethernet_t.layout.emit ((ipv4_lpm sw.table ip.dst_addr).ethernet e) ++
        (ipv4_t.layout.emit (ip.sent (ipv4_lpm sw.table ip.dst_addr)
            (ip.total_len + BitVec.ofNat 16 HOP_SIZE)) ++
          stamped_behind u shim (sw.entry std_meta ip.dst_addr) rest)) := by
  cases hip : (CommonParser frame).hdr.ipv4 with
  | none =>
      rw [process_no_ipv4 sw std_meta hip, Option.some.injEq] at h
      exact Or.inl ⟨rfl, h.symm⟩
  | some ip =>
      -- something came out, so the packet was not dropped
      have hpass : Passes sw.table ip := by
        by_contra hdrop
        unfold HpccSwitch.process HpccIngress at h
        rw [V1Switch_of_not_passes rfl hip hdrop] at h
        cases h
      by_cases hs : Stamped frame
      · obtain ⟨e, u, shim, rest, -, -, -, hframe, hout⟩ :=
          process_stamped sw std_meta hip hpass hs
        rw [hout, Option.some.injEq] at h
        exact Or.inr (Or.inr ⟨e, ip, u, shim, rest, rfl, hpass, hs, hframe, h.symm⟩)
      · obtain ⟨e, he, -, hframe⟩ := split_ipv4 hip
        rw [process_plain sw std_meta he hip hpass hs, Option.some.injEq] at h
        exact Or.inr (Or.inl ⟨e, ip, _, rfl, hpass, hs, hframe, h.symm⟩)

end

/-- **The parser and the deparser lose nothing.** Whatever the frame, the parser stops, and
what it took, emitted in order and followed by what it left, is the frame again; and a
data packet whose stack is full goes through with every byte behind the two headers in
front as it came. -/
theorem parser_deparser_lossless :
    (∀ frame : List Byte, (CommonParser frame).Stopped ∧
      CommonDeparser (CommonParser frame).hdr ++ (CommonParser frame).pkt = frame) ∧
    ∀ (sw : HpccSwitch) (std_meta : standard_metadata_t) (frame out : List Byte) (shim : shim_t),
      (CommonParser frame).metadata.is_data = 1#1 → (CommonParser frame).hdr.shim = some shim →
      MAX_HOPS ≤ shim.hop_count.toNat → (sw.process std_meta frame).2 = some out →
      out.length = frame.length ∧
        out.drop (ETHERNET_SIZE + IPV4_SIZE) = frame.drop (ETHERNET_SIZE + IPV4_SIZE) := by
  refine ⟨fun frame => ⟨parser_stops frame, deparse_parse frame⟩, ?_⟩
  intro sw std_meta frame out shim hdata hshim hfull hout
  rcases process_cases hout with ⟨-, rfl⟩ | ⟨e, ip, rest, -, -, -, hframe, rfl⟩ |
    ⟨e, ip, u, shim', rest, -, -, ⟨-, shim'', hshim'', hroom⟩, -, -⟩
  · exact ⟨rfl, rfl⟩
  · rw [hframe]
    refine ⟨by simp [plain], ?_⟩
    have hdrop := drop_headers e ip rest 0
    rw [Nat.add_zero] at hdrop
    rw [hdrop, plain]
    exact drop_headers _ _ rest 0
  · -- a full stack is not stamped
    rw [hshim, Option.some.injEq] at hshim''
    rw [← hshim''] at hroom
    omega

/-- A data packet whose shim announces 200 hops, cut off behind the shim. -/
def overfull_frame : List Byte :=
  ethernet_t.layout.emit frame_seven.ethernet ++ (ipv4_t.layout.emit frame_seven.ipv4 ++
    (udp_t.layout.emit frame_seven.udp ++ shim_t.layout.emit ⟨0#8, 200#8, 4#8, 0#8⟩))

/-- The metadata of a packet that meets an empty queue. -/
def idle_meta : standard_metadata_t where
  ingress_port := 1#9
  egress_spec := 0#9
  egress_port := 0#9
  packet_length := 46#32
  enq_qdepth := 0#19
  egress_global_timestamp := 1000#48
  checksum_error := 0#1

theorem overfull_frame_parse : (CommonParser overfull_frame).metadata.is_data = 1#1 ∧
    (CommonParser overfull_frame).hdr.shim = some ⟨0#8, 200#8, 4#8, 0#8⟩ ∧
    (CommonParser overfull_frame).hdr.ipv4 = some frame_seven.ipv4 := by
  decide +kernel

/-- It goes through, still cut off. -/
theorem parser_deparser_lossless_overfull :
    ∃ out, ((one_way_switch 1#16).process idle_meta overfull_frame).2 = some out ∧
      out.length = overfull_frame.length ∧
      out.drop (ETHERNET_SIZE + IPV4_SIZE) = overfull_frame.drop (ETHERNET_SIZE + IPV4_SIZE) := by
  obtain ⟨hdata, hshim, hip⟩ := overfull_frame_parse
  have hpass : Passes (one_way_switch 1#16).table frame_seven.ipv4 := by
    refine ⟨by decide, ?_⟩
    rw [one_way_switch_lpm]
    decide
  have hout : ∃ out, ((one_way_switch 1#16).process idle_meta overfull_frame).2 = some out := by
    unfold HpccSwitch.process HpccIngress
    rw [V1Switch_of_passes rfl hip hpass]
    exact ⟨_, rfl⟩
  obtain ⟨out, hout⟩ := hout
  exact ⟨out, hout, parser_deparser_lossless.2 _ _ _ out _ hdata hshim (by decide) hout⟩

end IntHpcc.P4
