/-
Which frames `hpcc.p4` changes behind the IPv4 header.

The headers file says that everything but data datagrams is forwarded without
modification. The parser does not look at `ihl` or at the fragment fields, so it may find
a "UDP header" with the data port where there is none: in IP options, or in the middle of
a fragment. `RealData` is what the file means; `Stamped` is what the parser tests.
`scope_of_ipv4` says exactly when a frame comes out with the bytes behind its full IPv4
header changed.
-/
import IntHpcc.AnyFrame

set_option autoImplicit false

namespace IntHpcc.P4

open IntHpcc.Bytes IntHpcc.HeaderLayout

/-! ## The law -/

/-- Where the IPv4 header ends, options included. -/
def ipv4_end (ip : ipv4_t) : ℕ := ETHERNET_SIZE + 4 * ip.ihl.toNat

/-- The frame carries an unfragmented IPv4/UDP datagram whose UDP header, behind the whole
IPv4 header, has the data port. -/
structure RealData (frame : List Byte) (ip : ipv4_t) : Prop where
  version_eq : ip.version = 4#4
  ihl_ge : 5 ≤ ip.ihl.toNat
  unfragmented : ip.Unfragmented
  is_udp : ip.protocol = IP_PROTO_UDP
  udp_header : ∃ (u : udp_t) (payload : List Byte),
    frame.drop (ipv4_end ip) = udp_t.layout.emit u ++ payload ∧ u.dst_port = DATA_PORT

/-- Whatever comes out of the switch has the bytes behind the IPv4 header changed only if
the frame is a data datagram; a frame that is not IPv4 comes out as it is. -/
def TouchesOnlyData (sw : HpccSwitch) (std_meta : standard_metadata_t) (frame : List Byte) :
    Prop :=
  ∀ out, (sw.process std_meta frame).2 = some out →
    ((CommonParser frame).hdr.ipv4 = none → out = frame) ∧
      ∀ ip, (CommonParser frame).hdr.ipv4 = some ip →
        out.drop (ipv4_end ip) ≠ frame.drop (ipv4_end ip) → RealData frame ip

/-! ## The IPv4 header -/

/-- The two addresses stand behind everything a switch rewrites. -/
theorem drop_sent (ip : ipv4_t) (a : LpmAction) (total_len : BitVec 16) {n : ℕ} (h : 12 ≤ n) :
    (ipv4_t.layout.emit (ip.sent a total_len)).drop n = (ipv4_t.layout.emit ip).drop n := by
  obtain ⟨k, rfl⟩ := Nat.exists_eq_add_of_le h
  have haddr : ∀ ip : ipv4_t, (ipv4_t.layout.emit ip).drop 12
      = (field 4 rfl).emit ip.src_addr ++ (field 4 rfl).emit ip.dst_addr := fun _ => rfl
  rw [← List.drop_drop, ← List.drop_drop, haddr, haddr]
  rfl

/-- The TTL and the checksum stand behind the first eight bytes. -/
theorem take_sent (ip : ipv4_t) (a : LpmAction) :
    (ipv4_t.layout.emit (ip.sent a ip.total_len)).take 8 = (ipv4_t.layout.emit ip).take 8 := rfl

/-- A switch that lets a packet through leaves its IPv4 header alone only if no action
takes one off the TTL and the checksum was right. -/
theorem sent_eq_iff {ip : ipv4_t} {a : LpmAction} (h : a.egress_spec ≠ DROP_PORT) :
    ip.sent a ip.total_len = ip ↔ a = .NoAction ∧ csum16 ip.checksum_data = ip.hdr_checksum := by
  cases a with
  | drop => exact absurd rfl h
  | NoAction =>
      constructor
      · intro heq
        exact ⟨rfl, congrArg ipv4_t.hdr_checksum heq⟩
      · rintro ⟨-, hsum⟩
        show { ip with hdr_checksum := csum16 ip.checksum_data } = ip
        rw [hsum]
  | ipv4_forward dst_mac port =>
      -- forwarding takes one off the TTL, which never leaves it as it was
      refine iff_of_false (fun heq => ?_) (fun h' => by cases h'.1)
      have httl : ip.ttl - 1#8 = ip.ttl := congrArg ipv4_t.ttl heq
      have hlt := ip.ttl.isLt
      have hval := congrArg BitVec.toNat httl
      simp only [BitVec.toNat_sub, BitVec.toNat_ofNat] at hval
      omega

/-- The same bytes behind a header of `m` bytes: if `m` reaches past the checksum, always;
else, if the header is the same. -/
theorem drop_plain_iff (ip : ipv4_t) (a : LpmAction) (rest : List Byte) (n : ℕ) :
    (ipv4_t.layout.emit (ip.sent a ip.total_len) ++ rest).drop (4 * n)
        = (ipv4_t.layout.emit ip ++ rest).drop (4 * n) ↔
      (n < 3 → ip.sent a ip.total_len = ip) := by
  have hlen : (ipv4_t.layout.emit (ip.sent a ip.total_len)).length
      = (ipv4_t.layout.emit ip).length := by
    rw [Layout.emit_length, Layout.emit_length]
  by_cases hn : n < 3
  · constructor
    · intro hdrop _
      -- the first bytes are the same anyway
      have htake : ∀ ip : ipv4_t, (ipv4_t.layout.emit ip ++ rest).take (4 * n)
          = ((ipv4_t.layout.emit ip).take 8).take (4 * n) := by
        intro ip
        have hsize : (ipv4_t.layout.emit ip).length = 20 := Layout.emit_length _ _
        rw [List.take_append_of_le_length (by omega), List.take_take, Nat.min_eq_left (by omega)]
      have hwhole : ipv4_t.layout.emit (ip.sent a ip.total_len) ++ rest
          = ipv4_t.layout.emit ip ++ rest := by
        rw [← List.take_append_drop (4 * n) (_ ++ rest), hdrop, htake, take_sent, ← htake,
          List.take_append_drop]
      have hemit := List.append_cancel_right hwhole
      rw [← ipv4_t.layout.read_emit (ip.sent a ip.total_len), hemit, Layout.read_emit]
    · intro heq
      rw [heq hn]
  · refine iff_of_true ?_ (fun h => absurd h hn)
    rw [List.drop_append, List.drop_append, hlen, drop_sent _ _ _ (by omega)]

/-! ## When the law holds -/

/-- An entry more is a change, unless the frame ends before the IPv4 header does. -/
theorem drop_longer_iff {out frame : List Byte} (h : out.length = frame.length + HOP_SIZE)
    (k : ℕ) : out.drop k = frame.drop k ↔ frame.length + HOP_SIZE ≤ k := by
  simp only [HOP_SIZE] at h ⊢
  constructor
  · intro heq
    have hlen := congrArg List.length heq
    rw [List.length_drop, List.length_drop] at hlen
    omega
  · intro hle
    rw [List.drop_eq_nil_of_le (by omega), List.drop_eq_nil_of_le (by omega)]

/-- The condition, for a frame with the IPv4 header `ip`: a frame that is stamped is a data
datagram (or is over before its IPv4 header is), and the TTL and the checksum, if `ihl` is
so small that they count as behind the header, come out as they went in. -/
structure InScope (sw : HpccSwitch) (frame : List Byte) (ip : ipv4_t) : Prop where
  stamped : Stamped frame → RealData frame ip ∨ frame.length + HOP_SIZE ≤ ipv4_end ip
  short_header : ip.ihl.toNat < 3 → ipv4_lpm sw.table ip.dst_addr = .NoAction ∧
    csum16 ip.checksum_data = ip.hdr_checksum

theorem drop_ethernet (e : ethernet_t) (l : List Byte) (n : ℕ) :
    (ethernet_t.layout.emit e ++ l).drop (ETHERNET_SIZE + n) = l.drop n := by
  have hsize : (ethernet_t.layout.emit e).length = ETHERNET_SIZE := Layout.emit_length _ _
  rw [← List.drop_drop, ← hsize, List.drop_left]

variable {sw : HpccSwitch} {std_meta : standard_metadata_t} {frame : List Byte} {ip : ipv4_t}

/-- A frame with an IPv4 header that ingress lets through. -/
theorem scope_of_ipv4 (hip : (CommonParser frame).hdr.ipv4 = some ip)
    (hpass : Passes sw.table ip) : TouchesOnlyData sw std_meta frame ↔ InScope sw frame ip := by
  have hone : ∀ out, (sw.process std_meta frame).2 = some out →
      (TouchesOnlyData sw std_meta frame ↔
        (out.drop (ipv4_end ip) ≠ frame.drop (ipv4_end ip) → RealData frame ip)) := by
    intro out hout
    unfold TouchesOnlyData
    rw [hout, hip]
    simp
  by_cases hs : Stamped frame
  · obtain ⟨e, u, shim, rest, -, -, -, hframe, hout⟩ :=
      process_stamped sw std_meta hip hpass hs
    have hlen : (ethernet_t.layout.emit ((ipv4_lpm sw.table ip.dst_addr).ethernet e) ++
        (ipv4_t.layout.emit (ip.sent (ipv4_lpm sw.table ip.dst_addr)
          (ip.total_len + BitVec.ofNat 16 HOP_SIZE)) ++
          stamped_behind u shim (sw.entry std_meta ip.dst_addr) rest)).length
        = frame.length + HOP_SIZE := by
      have hsize : int_hop_t.layout.size = HOP_SIZE := rfl
      rw [hframe]
      simp only [stamped_behind, List.length_append, Layout.emit_length, hsize]
      omega
    have hlong : ETHERNET_SIZE + IPV4_SIZE ≤ frame.length := by
      have h₁ : ethernet_t.layout.size = ETHERNET_SIZE := rfl
      have h₂ : ipv4_t.layout.size = IPV4_SIZE := rfl
      rw [hframe]
      simp only [List.length_append, Layout.emit_length, h₁, h₂]
      omega
    rw [hone _ (congrArg Prod.snd hout), ne_eq, drop_longer_iff hlen]
    constructor
    · intro h
      have hor : RealData frame ip ∨ frame.length + HOP_SIZE ≤ ipv4_end ip := by
        by_cases hle : frame.length + HOP_SIZE ≤ ipv4_end ip
        · exact Or.inr hle
        · exact Or.inl (h hle)
      refine ⟨fun _ => hor, fun hihl => ?_⟩
      -- a header that short is over before the frame is, and is no data datagram's
      rcases hor with hreal | hle
      · have := hreal.ihl_ge
        omega
      · simp only [ipv4_end, HOP_SIZE, ETHERNET_SIZE, IPV4_SIZE] at hle hlong
        omega
    · intro h hgt
      exact (h.stamped hs).resolve_right hgt
  · obtain ⟨e, he, -, hframe⟩ := split_ipv4 hip
    have hout := process_plain sw std_meta he hip hpass hs
    rw [hone _ (congrArg Prod.snd hout)]
    generalize behind (CommonParser frame).hdr ++ (CommonParser frame).pkt = rest at hframe ⊢
    rw [ne_eq, ipv4_end, drop_ethernet]
    have hfdrop : frame.drop (ETHERNET_SIZE + 4 * ip.ihl.toNat)
        = (ipv4_t.layout.emit ip ++ rest).drop (4 * ip.ihl.toNat) := by
      rw [congrArg (List.drop _) hframe, drop_ethernet]
    rw [hfdrop, drop_plain_iff, sent_eq_iff hpass.2]
    constructor
    · intro h
      refine ⟨fun h' => absurd h' hs, fun hihl => ?_⟩
      by_contra hne
      have := (h (fun h' => hne (h' hihl))).ihl_ge
      omega
    · intro h hne
      exact absurd h.short_header hne

/-- **Switches touch only data datagrams, exactly when** what the parser takes for a data
packet with room is one. For every frame, whatever the tables, the registers and the
metadata. -/
theorem touches_only_data_iff (sw : HpccSwitch) (std_meta : standard_metadata_t)
    (frame : List Byte) : TouchesOnlyData sw std_meta frame ↔
      ∀ ip, (CommonParser frame).hdr.ipv4 = some ip → Passes sw.table ip →
        InScope sw frame ip := by
  cases hip : (CommonParser frame).hdr.ipv4 with
  | none =>
      refine iff_of_true ?_ (fun ip h => by cases h)
      intro out hout
      rw [process_no_ipv4 sw std_meta hip, Option.some.injEq] at hout
      refine ⟨fun _ => hout.symm, fun ip h => ?_⟩
      rw [hip] at h
      cases h
  | some ip =>
      -- a packet that is forwarded is in scope or not, a dropped one has no output
      by_cases hpass : Passes sw.table ip
      · rw [scope_of_ipv4 hip hpass]
        constructor
        · intro h ip' heq _
          exact Option.some.inj heq ▸ h
        · intro h
          exact h ip rfl hpass
      · -- nothing comes out
        refine iff_of_true ?_ (fun ip' heq h => absurd (Option.some.inj heq ▸ h) hpass)
        intro out hout
        unfold HpccSwitch.process HpccIngress at hout
        rw [V1Switch_of_not_passes rfl hip hpass] at hout
        cases hout

/-- The last fragment of a datagram, with 12 bytes in it. -/
def fragment_header : ipv4_t :=
  { frame_seven.ipv4 with
    total_len := 32#16
    flags := 0#3
    frag_offset := 185#13 }

/-- The second fragment of a datagram whose payload happens to hold the data port and a
shim where the first fragment has its UDP header. -/
def second_fragment : List Byte :=
  ethernet_t.layout.emit frame_seven.ethernet ++
    (ipv4_t.layout.emit fragment_header ++
      (udp_t.layout.emit frame_seven.udp ++ shim_t.layout.emit ⟨0#8, 0#8, 4#8, 0#8⟩))

theorem second_fragment_parse :
    (CommonParser second_fragment).hdr.ipv4 = some fragment_header ∧
      (CommonParser second_fragment).metadata.is_data = 1#1 ∧
      (CommonParser second_fragment).hdr.shim = some ⟨0#8, 0#8, 4#8, 0#8⟩ := by
  decide +kernel

/-- It is stamped. -/
theorem touches_only_data_fragment :
    ¬ TouchesOnlyData (one_way_switch 1#16) idle_meta second_fragment := by
  obtain ⟨hip, hdata, hshim⟩ := second_fragment_parse
  have hpass : Passes (one_way_switch 1#16).table fragment_header := by
    refine ⟨by decide, ?_⟩
    rw [one_way_switch_lpm]
    decide
  rw [scope_of_ipv4 hip hpass]
  intro h
  rcases h.stamped ⟨hdata, _, hshim, by decide⟩ with hreal | hle
  · exact absurd hreal.unfragmented.2 (by decide)
  · exact absurd hle (by decide)

end IntHpcc.P4
