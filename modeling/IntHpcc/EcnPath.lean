/-
ECN end to end: from the queue a data packet meets to the `ecn` of the sender.

Four stages in a row, each by itself: the switches write the ECN field
(`through_data`), the kernel hands the TOS byte to the reflector, the reflector turns
CE into the echo flag, and the DCTCP listener reads the flag. The data packet carries no
INT entries, and no switch changes its payload or the ACK's.
-/
import IntHpcc.DctcpP4
import IntHpcc.AckFormat

set_option autoImplicit false

namespace IntHpcc.P4.DctcpSwitch

open IntHpcc.Bytes IntHpcc.HeaderLayout IntHpcc.Py

/-! ## The path -/

/-- One frame through a list of switches: the registers of each afterwards, and what comes
out. -/
def through : List (DctcpSwitch × standard_metadata_t) → List Byte →
    List DctcpRegisters × Option (List Byte)
  | [], frame => ([], some frame)
  | (sw, std_meta) :: path, frame =>
    let out := sw.process std_meta frame
    let rest := out.2.map (through path)
    (out.1 :: (rest.map Prod.fst).getD (path.map fun sw => sw.1.registers), rest.bind Prod.snd)

theorem through_drop {sw : DctcpSwitch} {std_meta : standard_metadata_t} {frame : List Byte}
    {r : DctcpRegisters} (h : sw.process std_meta frame = (r, none))
    (path : List (DctcpSwitch × standard_metadata_t)) :
    through ((sw, std_meta) :: path) frame
      = (r :: path.map fun sw => sw.1.registers, none) := by
  rw [through, h]
  rfl

theorem through_send {sw : DctcpSwitch} {std_meta : standard_metadata_t}
    {frame frame' : List Byte} {r : DctcpRegisters}
    (h : sw.process std_meta frame = (r, some frame'))
    (path : List (DctcpSwitch × standard_metadata_t)) :
    through ((sw, std_meta) :: path) frame
      = (r :: (through path frame').1, (through path frame').2) := by
  rw [through, h]
  rfl

/-- Every switch of the path has a way out for `dst_addr`. -/
def Routed (path : List (DctcpSwitch × standard_metadata_t)) (dst_addr : BitVec 32) : Prop :=
  ∀ sw ∈ path, (ipv4_lpm sw.1.table dst_addr).egress_spec ≠ DROP_PORT

/-- Some switch of the path has its queue over the threshold. -/
def Congested (path : List (DctcpSwitch × standard_metadata_t)) : Prop :=
  ∃ sw ∈ path, Over sw.1.registers sw.2

instance (path : List (DctcpSwitch × standard_metadata_t)) : Decidable (Congested path) :=
  inferInstanceAs (Decidable (∃ sw ∈ path, Over sw.1.registers sw.2))

/-- **A data packet on the path** comes out with its payload, and marked if some switch was
over its threshold. The induction is on the path; a packet once marked stays marked, and
opted in. -/
theorem through_data {data : data_payload_t} {tail : List Byte} {shim : shim_t}
    {hops : List int_hop_t} (h : Counted shim hops)
    (path : List (DctcpSwitch × standard_metadata_t)) {f : UdpFrame}
    (hport : f.udp.dst_port = DATA_PORT) (hpay : f.payload = data_bytes shim hops data tail)
    (hect : f.ipv4.ecn ≠ ECN_NOT_ECT) (httl : path.length < f.ipv4.ttl.toNat)
    (hroute : Routed path f.ipv4.dst_addr) :
    ∃ g : UdpFrame, (through path f.bytes).2 = some g.bytes ∧ g.payload = f.payload ∧
      g.ipv4.ecn = if Congested path then ECN_CE else f.ipv4.ecn := by
  induction path generalizing f with
  | nil => exact ⟨f, rfl, rfl, (if_neg (by simp [Congested])).symm⟩
  | cons sw path ih =>
      obtain ⟨sw, std_meta⟩ := sw
      rw [List.length_cons] at httl
      have hpass : Passes sw.table f.ipv4 := by
        refine ⟨?_, hroute _ List.mem_cons_self⟩
        rw [BitVec.lt_def, BitVec.toNat_ofNat]
        omega
      have hsent := process_data std_meta hport h hpay hect hpass
      generalize hg : (f.with_ecn (ecn_after sw.registers std_meta f.ipv4.ecn)).relayed
        (ipv4_lpm sw.table f.ipv4.dst_addr) = g at hsent
      have hgecn : g.ipv4.ecn = ecn_after sw.registers std_meta f.ipv4.ecn := by
        rw [← hg]
        rfl
      have hgttl : f.ipv4.ttl.toNat ≤ g.ipv4.ttl.toNat + 1 := by
        rw [← hg]
        exact LpmAction.ttl_ge _ hpass.1
      -- marked or not, the packet stays opted in
      have hgect : g.ipv4.ecn ≠ ECN_NOT_ECT := by
        rw [hgecn, ecn_after]
        by_cases hover : Over sw.registers std_meta
        · rw [if_pos hover]
          decide
        · rw [if_neg hover]
          exact hect
      have hgsame : g.udp = f.udp ∧ g.payload = f.payload ∧
          g.ipv4.dst_addr = f.ipv4.dst_addr := by
        rw [← hg]
        exact ⟨rfl, rfl, rfl⟩
      obtain ⟨hudp, hgpay, hdst⟩ := hgsame
      obtain ⟨out, hout, houtpay, houtecn⟩ := ih (hudp ▸ hport) (hgpay.trans hpay) hgect
        (by omega) (hdst ▸ fun s hs => hroute s (List.mem_cons_of_mem _ hs))
      refine ⟨out, ?_, houtpay.trans hgpay, houtecn.trans ?_⟩
      · rw [through_send hsent]
        exact hout
      · -- over the threshold here, or further on
        have hsplit : Congested ((sw, std_meta) :: path) ↔
            Over sw.registers std_meta ∨ Congested path := by simp [Congested]
        rw [hgecn, ecn_after]
        by_cases hover : Over sw.registers std_meta
        · rw [if_pos hover, if_pos (hsplit.mpr (Or.inl hover)), ite_self]
        · rw [if_neg hover]
          exact if_congr (by rw [hsplit, or_iff_right hover]) rfl rfl

/-- **An ACK on the path** is counted by no switch, and dropped or comes out with the same
payload and the same ECN field. -/
theorem through_ack {ack : ack_payload_t} {shim : shim_t} {hops : List int_hop_t}
    {tail : List Byte} (h : Counted shim hops) (path : List (DctcpSwitch × standard_metadata_t))
    {f : UdpFrame} (hport : f.udp.dst_port = ACK_PORT)
    (hpay : f.payload = ack_bytes shim hops ack tail) :
    (through path f.bytes).1 = path.map (fun sw => sw.1.registers) ∧
      ∀ frame, (through path f.bytes).2 = some frame →
        ∃ g : UdpFrame, frame = g.bytes ∧ g.payload = f.payload ∧ g.ipv4.ecn = f.ipv4.ecn := by
  induction path generalizing f with
  | nil => exact ⟨rfl, fun frame hout => ⟨f, (Option.some.inj hout).symm, rfl, rfl⟩⟩
  | cons sw path ih =>
      obtain ⟨sw, std_meta⟩ := sw
      -- no switch touches an ACK's ECN bits, whatever its queue
      rcases process_ack sw std_meta hport h hpay with hg | hg
      · rw [through_drop hg]
        exact ⟨rfl, nofun⟩
      · rw [through_send hg]
        obtain ⟨hregs, hout⟩ :=
          ih (f := f.relayed (ipv4_lpm sw.table f.ipv4.dst_addr)) hport hpay
        refine ⟨?_, fun frame hframe => ?_⟩
        · rw [List.map_cons, ← hregs]
        · obtain ⟨g, hbytes, hsame, hecn⟩ := hout frame hframe
          exact ⟨g, hbytes, hsame, hecn⟩

end IntHpcc.P4.DctcpSwitch

namespace IntHpcc.P4

open IntHpcc.Bytes IntHpcc.HeaderLayout IntHpcc.Py

/-! ## The receiver -/

/-- The TOS byte of an IPv4 header. -/
def ipv4_t.tos (ip : ipv4_t) : Byte := halves 6 2 (ip.dscp, ip.ecn)

/-- What the kernel hands over with a datagram when `IP_RECVTOS` is on: an item with the
TOS byte of its header. -/
structure TosDelivered (ip_tos : ℕ) (ip : ipv4_t) (ancdata : List Reflector.Cmsg) : Prop where
  some_item : ∃ c ∈ ancdata, c.level = Reflector.IPPROTO_IP ∧ c.type_ = ip_tos
  data_eq : ∀ c ∈ ancdata, c.level = Reflector.IPPROTO_IP → c.type_ = ip_tos → c.data = [ip.tos]

/-- The low two bits of the TOS byte are the ECN field. -/
theorem tos_and (ip : ipv4_t) : ip.tos.toNat &&& 3 = ip.ecn.toNat := by
  have hlt := ip.ecn.isLt
  have htos : ip.tos.toNat = ip.dscp.toNat * 4 + ip.ecn.toNat := by
    show (ip.dscp ++ ip.ecn).toNat = _
    rw [BitVec.toNat_append, ← Nat.shiftLeft_add_eq_or_of_lt hlt, Nat.shiftLeft_eq]
  have hmask : ip.tos.toNat &&& (2 ^ 2 - 1) = ip.tos.toNat % 2 ^ 2 := Nat.and_two_pow_sub_one_eq_mod _ _
  rw [show (3 : ℕ) = 2 ^ 2 - 1 from rfl, hmask, htos]
  omega

theorem read_ecn_delivered {ip_tos : ℕ} {ip : ipv4_t} {ancdata : List Reflector.Cmsg}
    (h : TosDelivered ip_tos ip ancdata) :
    Reflector.read_ecn (some ip_tos) ancdata = ip.ecn.toNat := by
  unfold Reflector.read_ecn
  dsimp only
  cases hf : ancdata.find? fun c =>
      c.level = Reflector.IPPROTO_IP ∧ c.type_ = ip_tos ∧ c.data ≠ [] with
  | none =>
      -- the item is there
      obtain ⟨c, hc, hlevel, htype⟩ := h.some_item
      have hnot := List.find?_eq_none.mp hf c hc
      simp [hlevel, htype, h.data_eq c hc hlevel htype] at hnot
  | some c =>
      have hc := List.find?_some hf
      simp only [decide_eq_true_eq] at hc
      have hdata := h.data_eq c (List.mem_of_find?_eq_some hf) hc.1 hc.2.1
      dsimp only
      rw [hdata]
      exact tos_and ip

/-- The answer to a data packet without entries, as the switches see it. -/
theorem reflect_data {shim : shim_t} (data : data_payload_t) (tail : List Byte)
    (hzero : shim.hop_count = 0#8) (ip_tos : Option ℕ) (ancdata : List Reflector.Cmsg)
    (recv_ts_us : Us) :
    ∃ (flags : Byte) (ack : ack_payload_t),
      flags = (if Reflector.read_ecn ip_tos ancdata = Reflector.ECN_CE then 1#8 else 0#8) ∧
      ack.ack_seq = data.seq ∧
      Reflector.reflect ip_tos (data_bytes shim [] data tail) ancdata recv_ts_us
        = .ok (some (ack_bytes { shim with flags := flags } [] ack [])) ∧
      Dctcp.read_ack (ack_bytes { shim with flags := flags } [] ack [])
        = .ok (some (shim_t.view { shim with flags := flags }, ack.view)) := by
  generalize hecn : Reflector.read_ecn ip_tos ancdata = ecn
  -- the echo is the only flag the reflector sets
  have hview : (shim_t.view { shim with
      flags := if ecn = Reflector.ECN_CE then 1#8 else 0#8 }) = Reflector.out_shim shim.view ecn := by
    by_cases hce : ecn = Reflector.ECN_CE
    · simp [shim_t.view, Reflector.out_shim, hce]
      rfl
    · simp [shim_t.view, Reflector.out_shim, hce]
  have hack : (⟨data.seq, BitVec.ofNat 64 recv_ts_us.val, 0#32⟩ : ack_payload_t).view
      = { ack_seq := data.view.seq, recv_ts_us := recv_ts_us.val } := by
    have hlt : recv_ts_us.val < 2 ^ 64 := recv_ts_us.isLt
    simp only [ack_payload_t.view, data_payload_t.view, BitVec.toNat_ofNat, Nat.mod_eq_of_lt hlt]
    rfl
  have hs := shim_t.pack_view { shim with flags := if ecn = Reflector.ECN_CE then 1#8 else 0#8 }
  have hp := ack_payload_t.pack_view ⟨data.seq, BitVec.ofNat 64 recv_ts_us.val, 0#32⟩
  have hbytes : ∀ (shim : shim_t) (ack : ack_payload_t), shim_t.layout.emit shim ++ [] ++
      ack_payload_t.layout.emit ack = ack_bytes shim [] ack [] := by
    intro shim ack
    simp [ack_bytes, emit_hops]
  refine ⟨_, ⟨data.seq, BitVec.ofNat 64 recv_ts_us.val, 0#32⟩, rfl, rfl, ?_, ?_⟩
  · have hnone : PacketFormat.pack_hops [] = .ok [] := rfl
    obtain ⟨s', p', hs', hp', hbuild⟩ := Reflector.build_ack_spec shim.pack_view hnone
      data.pack_view (by simp [shim_t.view, hzero]) (Nat.zero_le _)
      (tail.take (Reflector.RECV_BUF - 20)) ecn recv_ts_us
    rw [← hview, hs, Except.ok.injEq] at hs'
    rw [← hack, hp, Except.ok.injEq] at hp'
    -- the buffer cuts off some of the tail at most
    have hcut : (data_bytes shim [] data tail).take Reflector.RECV_BUF
        = shim_t.layout.emit shim ++ [] ++ data_payload_t.layout.emit data ++
          tail.take (Reflector.RECV_BUF - 20) := by
      have hlen : (shim_t.layout.emit shim ++ data_payload_t.layout.emit data).length = 20 := by
        rw [List.length_append, Layout.emit_length, Layout.emit_length]
        rfl
      have hfront : data_bytes shim [] data tail
          = shim_t.layout.emit shim ++ data_payload_t.layout.emit data ++ tail := by
        simp [data_bytes, emit_hops]
      rw [hfront, List.take_append, hlen, List.take_of_length_le (hlen.trans_le (by decide)),
        List.append_nil]
    rw [Reflector.reflect, hecn, hcut, hbuild, ← hs', ← hp', hbytes]
  · rw [← hbytes]
    exact Dctcp.read_ack_parts (n := 0) hs rfl hp (by simp [shim_t.view, hzero]) (Nat.zero_le _)

/-- The listener's `ecn`, for an ACK with the echo flag or without any flag. -/
theorem ecn_echo_iff (shim : shim_t) (marked : Prop) [Decidable marked] :
    (if (shim_t.view { shim with flags := if marked then 1#8 else 0#8 }).ecn_echo
      then (1 : ℤ) else 0) = 1 ↔ marked := by
  by_cases h : marked
  · simp only [h, if_true, iff_true]
    show (if decide ((1 : ℤ).toNat &&& 1 ≠ 0) then (1 : ℤ) else 0) = 1
    decide
  · simp only [h, if_false, iff_false]
    show ¬ ((if decide ((0 : ℤ).toNat &&& 1 ≠ 0) then (1 : ℤ) else 0) = 1)
    decide

/-! ## All four stages -/

open DctcpSwitch in
/-- **The congestion signal is exact.** A data packet without entries, sent with ECT(0),
comes out of the path with its payload; the sender's `ecn` for it is 1 exactly if some
switch was over its threshold; on the way back no switch counts the ACK or changes its
payload or its ECN field; and over any run of a switch no more packets have been marked
than counted. -/
theorem ecn_end_to_end (path : List (DctcpSwitch × standard_metadata_t)) {shim : shim_t}
    {data : data_payload_t} {tail : List Byte} (f : UdpFrame)
    (hport : f.udp.dst_port = DATA_PORT) (hzero : shim.hop_count = 0#8)
    (hpay : f.payload = data_bytes shim [] data tail) (hect : f.ipv4.ecn = ECN_ECT_0)
    (httl : path.length < f.ipv4.ttl.toNat) (hroute : DctcpSwitch.Routed path f.ipv4.dst_addr) :
    (∃ out : UdpFrame, (DctcpSwitch.through path f.bytes).2 = some out.bytes ∧
      out.payload = f.payload ∧
      (∃ s, PacketFormat.Shim.unpack out.payload = .ok s ∧ s.hop_count = 0) ∧
      ∀ (ip_tos : ℕ) (ancdata : List Reflector.Cmsg) (recv_ts_us : Us),
        TosDelivered ip_tos out.ipv4 ancdata → ∃ ack shim' payload,
          Reflector.reflect (some ip_tos) out.payload ancdata recv_ts_us = .ok (some ack) ∧
          Dctcp.read_ack ack = .ok (some (shim', payload)) ∧
          ((if shim'.ecn_echo then (1 : ℤ) else 0) = 1 ↔ Congested path) ∧
          payload.ack_seq = data.seq.toNat ∧
          ∀ (back : List (DctcpSwitch × standard_metadata_t)) (g : UdpFrame),
            g.udp.dst_port = ACK_PORT → g.payload = ack →
            (DctcpSwitch.through back g.bytes).1 = back.map (fun sw => sw.1.registers) ∧
            ∀ frame, (DctcpSwitch.through back g.bytes).2 = some frame →
              ∃ g' : UdpFrame, frame = g'.bytes ∧ g'.payload = ack ∧
                g'.ipv4.ecn = g.ipv4.ecn) ∧
    ∀ (r : DctcpRegisters) (arrivals : List Arrival),
      r.data_pkt_count.read 0#32 = 0#64 → r.marked_pkt_count.read 0#32 = 0#64 →
      arrivals.countP (fun a => Counts a) < 2 ^ 64 →
      ((run r arrivals).marked_pkt_count.read 0#32).toNat
        ≤ ((run r arrivals).data_pkt_count.read 0#32).toNat := by
  refine ⟨?_, fun r arrivals hd hm h => marked_le_data hd hm h⟩
  have hcounted : Counted shim [] := ⟨Nat.zero_le _, hzero⟩
  have hopted : f.ipv4.ecn ≠ ECN_NOT_ECT := by
    rw [hect]
    decide
  obtain ⟨out, hout, houtpay, houtecn⟩ :=
    DctcpSwitch.through_data hcounted path hport hpay hopted httl hroute
  refine ⟨out, hout, houtpay, ?_, ?_⟩
  · obtain ⟨-, hus⟩ := PacketFormat.Shim.unpack_pack shim.pack_view
    refine ⟨shim.view, ?_, by simp [shim_t.view, hzero]⟩
    rw [houtpay, hpay, data_bytes]
    exact hus _
  · intro ip_tos ancdata recv_ts_us htos
    obtain ⟨flags, ack, hflags, hseq, hreflect, hread⟩ :=
      reflect_data data tail hzero (some ip_tos) ancdata recv_ts_us
    -- what the reflector sees is what the switches wrote
    have hce : Reflector.read_ecn (some ip_tos) ancdata = Reflector.ECN_CE ↔ Congested path := by
      rw [read_ecn_delivered htos, houtecn, hect]
      by_cases hc : Congested path
      · simp only [hc, if_true, iff_true]
        rfl
      · simp only [hc, if_false, iff_false]
        decide
    have hback : Counted { shim with flags := flags } [] := ⟨Nat.zero_le _, hzero⟩
    refine ⟨_, _, _, houtpay ▸ hpay ▸ hreflect, hread, ?_, ?_, ?_⟩
    · rw [hflags, ecn_echo_iff, hce]
    · rw [ack_payload_t.view, hseq]
    · intro back g hgport hgpay
      obtain ⟨hregs, hgout⟩ := DctcpSwitch.through_ack hback back hgport hgpay
      refine ⟨hregs, fun frame hframe => ?_⟩
      obtain ⟨g', hbytes, hsame, hecn⟩ := hgout frame hframe
      exact ⟨g', hbytes, hsame.trans hgpay, hecn⟩

/-- A switch with the threshold `K` that sends everything out of port 2. -/
def marking_switch (K : BitVec 32) : DctcpSwitch where
  table := (one_way_switch 1#16).table
  registers :=
    { ecn_threshold := { cells := fun _ => K, past_end := 0#32 }
      data_pkt_count := { cells := fun _ => 0#64, past_end := 0#64 }
      marked_pkt_count := { cells := fun _ => 0#64, past_end := 0#64 } }

/-- The second of three switches has nine packets in its queue and a threshold of eight. -/
def three_switches : List (DctcpSwitch × standard_metadata_t) :=
  [(marking_switch 20#32, { idle_meta with enq_qdepth := 20#19 }),
    (marking_switch 8#32, { idle_meta with enq_qdepth := 9#19 }),
    (marking_switch 8#32, idle_meta)]

/-- Packet 7 is marked on the way, and the sender is told. -/
theorem ecn_end_to_end_three_switches : ∃ out : UdpFrame,
    (DctcpSwitch.through three_switches
      (frame_seven.with_ecn DctcpSwitch.ECN_ECT_0).bytes).2 = some out.bytes ∧
    ∃ ack shim' payload,
      Reflector.reflect (some 1) out.payload [⟨Reflector.IPPROTO_IP, 1, [out.ipv4.tos]⟩] zero_us
        = .ok (some ack) ∧
      Dctcp.read_ack ack = .ok (some (shim', payload)) ∧
      (if shim'.ecn_echo then (1 : ℤ) else 0) = 1 ∧ payload.ack_seq = 7 := by
  have hroute : DctcpSwitch.Routed three_switches frame_seven.ipv4.dst_addr := by
    intro sw hsw
    have htable : sw.1.table = (one_way_switch 1#16).table := by
      simp only [three_switches, List.mem_cons, List.not_mem_nil, or_false] at hsw
      rcases hsw with rfl | rfl | rfl
      · rfl
      · rfl
      · rfl
    rw [htable, one_way_switch_lpm]
    decide
  have hcongested : DctcpSwitch.Congested three_switches := by decide
  have hpay : (frame_seven.with_ecn DctcpSwitch.ECN_ECT_0).payload
      = data_bytes ⟨0#8, 0#8, 4#8, 0#8⟩ [] ⟨7#32, 1000#64, 0#32⟩ (List.replicate 2 0#8) := rfl
  obtain ⟨out, hout, -, -, hback⟩ := (ecn_end_to_end three_switches
    (frame_seven.with_ecn DctcpSwitch.ECN_ECT_0) rfl rfl hpay rfl (by decide) hroute).1
  -- the host hands the TOS byte over with the datagram
  have htos : TosDelivered 1 out.ipv4 [⟨Reflector.IPPROTO_IP, 1, [out.ipv4.tos]⟩] :=
    ⟨⟨_, List.mem_singleton_self _, rfl, rfl⟩, fun c hc _ _ => by rw [List.mem_singleton.mp hc]⟩
  obtain ⟨ack, shim', payload, hreflect, hread, hecn, hseq, -⟩ := hback 1 _ zero_us htos
  exact ⟨out, hout, ack, shim', payload, hreflect, hread, hecn.mpr hcongested, hseq⟩

end IntHpcc.P4
