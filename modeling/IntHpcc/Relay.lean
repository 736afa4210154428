/-
What any of the data plane programs does with the addresses of a frame.

`AnyFrame` follows `hpcc.p4` byte by byte. A network is only interested in where a frame
goes: in the Ethernet header, the destination address and the TTL. Those are ingress's
business in both programs, and egress leaves them alone (`Transparent`); what is behind
them may be anything. So one lemma, `relay`, says for every such program and every frame
what leaves the switch and on which port.
-/
import IntHpcc.LoadTables

set_option autoImplicit false

namespace IntHpcc.P4

open IntHpcc.Bytes IntHpcc.HeaderLayout

/-! ## The two headers in front -/

namespace Parse

/-- The parser is past the two headers in front and has found these. -/
structure Front (e : ethernet_t) (ip : ipv4_t) (p : Parse) : Prop where
  ethernet : p.hdr.ethernet = some e
  ipv4 : p.hdr.ipv4 = some ip
  past : p.state ≠ .start ∧ p.state ≠ .parse_ethernet ∧ p.state ≠ .parse_ipv4

variable {e : ethernet_t} {ip : ipv4_t} {p : Parse}

theorem front_fail (h : Front e ip p) (err : ParserError) : Front e ip (p.fail err) :=
  ⟨h.ethernet, h.ipv4, by simp [fail]⟩

/-- An `extract` of a later header. -/
theorem front_extract {α : Type} {L : Layout α} {k : α → Parse → Parse} (h : Front e ip p)
    (hk : ∀ a rest, Front e ip (k a { p with pkt := rest })) : Front e ip (p.extract L k) := by
  unfold extract
  cases L.extract p.pkt with
  | none => exact front_fail h _
  | some v => exact hk v.1 v.2

/-- No later state touches them. -/
theorem front_step (h : Front e ip p) : Front e ip p.step := by
  obtain ⟨he, hip, hstart, heth, hipv4⟩ := h
  have h : Front e ip p := ⟨he, hip, hstart, heth, hipv4⟩
  cases hs : p.state with
  -- the three states that write the headers are behind
  | start => exact absurd hs hstart
  | parse_ethernet => exact absurd hs heth
  | parse_ipv4 => exact absurd hs hipv4
  | parse_udp =>
      simp only [step, hs]
      -- what comes after a failed extract is `reject`, which keeps the headers too
      refine front_extract h fun a rest => ⟨he, hip, ?_⟩
      dsimp only
      split
      · simp
      · split <;> simp
  | parse_shim_data | parse_shim_ack | parse_data_payload | parse_ack_payload =>
      simp only [step, hs]
      exact front_extract h fun a rest => ⟨he, hip, by simp⟩
  | parse_hops =>
      simp only [step, hs]
      refine ⟨he, hip, ?_⟩
      dsimp only
      split <;> simp
  | parse_one_hop =>
      simp only [step, hs]
      split
      · exact front_fail h _
      · exact front_extract h fun a rest => ⟨he, hip, by simp⟩
  | parse_payload =>
      simp only [step, hs]
      refine ⟨he, hip, ?_⟩
      dsimp only
      split
      · simp
      · split <;> simp
  | accept | reject =>
      simp only [step, hs]
      exact h

theorem front_iterate (n : ℕ) (h : Front e ip p) : Front e ip (step^[n] p) :=
  Function.Iterate.rec (Front e ip) h (fun _ hq => front_step hq) n

/-- Three steps into a frame that begins with an Ethernet and an IPv4 header. -/
theorem front_start (he : e.ethertype = ETHERTYPE_IPV4) (rest : List Byte) :
    Front e ip (step^[3]
      { pkt := ethernet_t.layout.emit e ++ (ipv4_t.layout.emit ip ++ rest) }) := by
  have hthree : step^[3] { pkt := ethernet_t.layout.emit e ++ (ipv4_t.layout.emit ip ++ rest) } =
      { state := if ip.protocol = IP_PROTO_UDP then .parse_udp else .accept
        pkt := rest
        hdr := { ethernet := some e, ipv4 := some ip } } := by
    rw [Function.iterate_succ_apply, Function.iterate_succ_apply, Function.iterate_one]
    simp only [step, extract, Layout.extract_emit, he, if_true]
  rw [hthree]
  refine ⟨rfl, rfl, ?_⟩
  dsimp only
  split <;> simp

end Parse

/-- Whatever is behind them, the parser finds the two headers in front. -/
theorem parse_front {e : ethernet_t} {ip : ipv4_t} (he : e.ethertype = ETHERTYPE_IPV4)
    (rest : List Byte) :
    (CommonParser (ethernet_t.layout.emit e ++ (ipv4_t.layout.emit ip ++ rest))).hdr.ethernet
        = some e ∧
      (CommonParser (ethernet_t.layout.emit e ++ (ipv4_t.layout.emit ip ++ rest))).hdr.ipv4
        = some ip := by
  have hfront : Parse.Front e ip
      (CommonParser (ethernet_t.layout.emit e ++ (ipv4_t.layout.emit ip ++ rest))) := by
    have hsteps : Parse.STEPS = 15 + 3 := rfl
    rw [CommonParser, hsteps, Function.iterate_add_apply]
    exact Parse.front_iterate 15 (Parse.front_start he rest)
  exact ⟨hfront.ethernet, hfront.ipv4⟩

/-- The Ethernet and the IPv4 header of a frame, as a switch reads them. -/
def Reads (frame : List Byte) (e : ethernet_t) (ip : ipv4_t) : Prop :=
  (CommonParser frame).hdr.ethernet = some e ∧ (CommonParser frame).hdr.ipv4 = some ip

theorem exists_reads {frame : List Byte} {ip : ipv4_t} (h : (CommonParser frame).hdr.ipv4 = some ip) :
    ∃ e, Reads frame e ip := by
  obtain ⟨e, he, -, -⟩ := split_ipv4 h
  exact ⟨e, he, h⟩

/-! ## One switch -/

/-- Egress leaves the way of the packet alone. -/
structure Transparent {σ : Type}
    (egress : σ → headers_t → metadata_t → standard_metadata_t → σ × headers_t) : Prop where
  no_ipv4 : ∀ r hdr metadata std_meta, hdr.ipv4 = none →
    egress r hdr metadata std_meta = (r, hdr)
  ethernet : ∀ r hdr metadata std_meta, (egress r hdr metadata std_meta).2.ethernet = hdr.ethernet
  ipv4 : ∀ r hdr metadata std_meta ip, hdr.ipv4 = some ip →
    ∃ ip', (egress r hdr metadata std_meta).2.ipv4 = some ip' ∧
      ip'.src_addr = ip.src_addr ∧ ip'.dst_addr = ip.dst_addr ∧ ip'.ttl = ip.ttl

theorem hpcc_transparent : Transparent HpccEgress := by
  refine ⟨?_, ?_, ?_⟩
  · intro r hdr metadata std_meta hip
    unfold HpccEgress
    rw [if_pos (Or.inl hip)]
  · intro r hdr metadata std_meta
    unfold HpccEgress
    split
    · rfl
    · split
      · rfl
      · split <;> rfl
  · intro r hdr metadata std_meta ip hip
    unfold HpccEgress
    split
    · exact ⟨ip, hip, rfl, rfl, rfl⟩
    · split
      · exact ⟨ip, hip, rfl, rfl, rfl⟩
      · split
        · exact ⟨ip, hip, rfl, rfl, rfl⟩
        · refine ⟨{ ip with total_len := ip.total_len + BitVec.ofNat 16 HOP_SIZE }, ?_, rfl, rfl, rfl⟩
          show hdr.ipv4.map _ = _
          rw [hip]
          rfl

theorem dctcp_transparent : Transparent DctcpSwitch.DctcpEgress := by
  refine ⟨?_, ?_, ?_⟩
  · intro r hdr metadata std_meta hip
    unfold DctcpSwitch.DctcpEgress
    rw [hip]
  · intro r hdr metadata std_meta
    unfold DctcpSwitch.DctcpEgress
    split
    · rfl
    · split
      · rfl
      · dsimp only
        split
        · rfl
        · split <;> rfl
  · intro r hdr metadata std_meta ip hip
    unfold DctcpSwitch.DctcpEgress
    rw [hip]
    dsimp only
    split
    · exact ⟨ip, hip, rfl, rfl, rfl⟩
    · split
      · exact ⟨ip, hip, rfl, rfl, rfl⟩
      · split
        · exact ⟨_, rfl, rfl, rfl, rfl⟩
        · exact ⟨ip, hip, rfl, rfl, rfl⟩

section

variable {σ : Type} {egress : σ → headers_t → metadata_t → standard_metadata_t → σ × headers_t}
  {table : List LpmEntry} {frame : List Byte} {e : ethernet_t} {ip : ipv4_t}

/-- **One switch, any frame.** What ingress lets through leaves on the port of its route,
with the MAC of the route, the same addresses, the TTL the action leaves and a checksum
made for it. -/
theorem relay (htrans : Transparent egress) (h : Reads frame e ip) (hpass : Passes table ip)
    (r : σ) (std_meta : standard_metadata_t) :
    Arrival.egress_port ⟨table, std_meta, frame⟩ = (ipv4_lpm table ip.dst_addr).egress_spec ∧
      ∃ out ip', (V1Switch (ingress_apply table) egress r std_meta frame).2 = some out ∧
        Reads out ((ipv4_lpm table ip.dst_addr).ethernet e) ip' ∧
        ip'.src_addr = ip.src_addr ∧ ip'.dst_addr = ip.dst_addr ∧
        ip'.ttl = (ipv4_lpm table ip.dst_addr).ttl ip.ttl ∧
        ip'.hdr_checksum = csum16 ip'.checksum_data := by
  obtain ⟨he, hip⟩ := h
  refine ⟨egress_port_of_passes hip hpass, ?_⟩
  obtain ⟨e', he', htype, -⟩ := split_ipv4 hip
  obtain rfl : e' = e := Option.some.inj (he'.symm.trans he)
  generalize ha : ipv4_lpm table ip.dst_addr = a
  rw [V1Switch_of_passes rfl hip hpass, ha]
  generalize at_egress _ a std_meta = m
  have hin : (forwarded a (CommonParser frame).hdr).ipv4
      = some { ip with ttl := a.ttl ip.ttl } := by
    rw [forwarded, hip]
    rfl
  have hein : (forwarded a (CommonParser frame).hdr).ethernet = some (a.ethernet e') := by
    rw [forwarded, he]
    rfl
  obtain ⟨ip', hout, hsrc, hdst, httl⟩ := htrans.ipv4 r _ (CommonParser frame).metadata m _ hin
  have heout := htrans.ethernet r (forwarded a (CommonParser frame).hdr)
    (CommonParser frame).metadata m
  rw [hein] at heout
  generalize (egress r (forwarded a (CommonParser frame).hdr) (CommonParser frame).metadata m).2
    = hdr at hout heout
  -- the deparser writes the two headers first, so the next parser finds them
  have htype' : (a.ethernet e').ethertype = ETHERTYPE_IPV4 := by
    rw [LpmAction.ethernet_ethertype, htype]
  refine ⟨_, { ip' with hdr_checksum := csum16 ip'.checksum_data }, rfl, ?_, hsrc, hdst, httl, rfl⟩
  rw [deparse_sent heout hout, List.append_assoc, List.append_assoc]
  exact parse_front htype' _

/-- A frame without an IPv4 header leaves on port 0. -/
theorem relay_no_ipv4 (table : List LpmEntry) (htrans : Transparent egress)
    (h : (CommonParser frame).hdr.ipv4 = none) (r : σ) (std_meta : standard_metadata_t) :
    Arrival.egress_port ⟨table, std_meta, frame⟩ = 0#9 ∧
      V1Switch (ingress_apply table) egress r std_meta frame = (r, some frame) := by
  refine ⟨?_, V1Switch_of_no_ipv4 h (fun m => htrans.no_ipv4 r _ _ m h) table std_meta⟩
  unfold Arrival.egress_port HpccIngress ingress_apply
  simp only [h]
  exact verify_egress_spec _ _

end

end IntHpcc.P4
