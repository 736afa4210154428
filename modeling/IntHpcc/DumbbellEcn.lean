/-
ECN on the dumbbell.

`EcnPath` says what a path of `dctcp.p4` switches does to the ECN field of a data packet, for
any switches and any queues. Here the switches are the two of the dumbbell with the threshold
of the controller, and the queues are those the packet itself has met, as the notes of the
network tell (`visits`). So in every run, whatever else is on the links, the echo a sender
reads for a packet is about the queues of this packet and of no other
(`ecn_on_the_dumbbell`).
-/
import IntHpcc.DumbbellNotes
import IntHpcc.EcnPath

set_option autoImplicit false

namespace IntHpcc.DumbbellEcn

open IntHpcc.Runs IntHpcc.Bytes IntHpcc.Py IntHpcc.P4 IntHpcc.P4.DctcpSwitch
open IntHpcc.LoadTables IntHpcc.Dumbbell IntHpcc.DumbbellNotes

/-! ## What the controller has written -/

/-- The threshold is the one of `--ecn-k`. -/
def Threshold (ecn_k : ℕ) (r : DctcpRegisters) : Prop :=
  r.ecn_threshold.read 0#32 = BitVec.ofNat 32 ecn_k

theorem threshold_push (ecn_k bottleneck_pps bottleneck_depth : ℕ) (sw : Switch) :
    Threshold ecn_k
      (push ((Algo.dctcp ecn_k).commands bottleneck_pps bottleneck_depth sw)).registers := by
  have hwrites : writes ((Algo.dctcp ecn_k).commands bottleneck_pps bottleneck_depth sw)
      = [(.ecn_threshold, 0, ecn_k), (.data_pkt_count, 0, 0), (.marked_pkt_count, 0, 0)] := by
    cases sw <;> rfl
  unfold Threshold
  rw [push, foldl_exec_registers, hwrites]
  rfl

/-- Egress writes counters only. -/
theorem egress_threshold {ecn_k : ℕ} {r : DctcpRegisters} (h : Threshold ecn_k r) (hdr : headers_t)
    (metadata : metadata_t) (std_meta : standard_metadata_t) :
    Threshold ecn_k (DctcpEgress r hdr metadata std_meta).1 := by
  unfold DctcpEgress
  split
  · exact h
  · split
    · exact h
    · dsimp only
      split
      · exact h
      · split <;> exact h

theorem work_threshold {ecn_k : ℕ} {r : DctcpRegisters} (h : Threshold ecn_k r) (t : Taken) :
    Threshold ecn_k (t.work dctcp r).1 := by
  unfold Taken.work V1Switch
  dsimp only
  split
  · exact h
  · exact egress_threshold h _ _ _

/-- The notes need not say anything: no frame changes the threshold. -/
def dctcp_ledger (ecn_k : ℕ) : Ledger dctcp where
  Holds _ _ r := Threshold ecn_k r
  own h := work_threshold h _
  other _ h := h

theorem dctcp_ledger_opens (ecn_k : ℕ) : @Ledger.Opens (.dctcp ecn_k) (dctcp_ledger ecn_k) :=
  fun bottleneck_pps bottleneck_depth sw => threshold_push ecn_k bottleneck_pps bottleneck_depth sw

/-! ## The ECN field -/

/-- One of the queues was over the threshold. -/
def Jammed (ecn_k : ℕ) (ts : List Taken) : Prop := ∃ t ∈ ts, ecn_k < t.std_meta.enq_qdepth.toNat

instance (ecn_k : ℕ) (ts : List Taken) : Decidable (Jammed ecn_k ts) :=
  inferInstanceAs (Decidable (∃ t ∈ ts, ecn_k < t.std_meta.enq_qdepth.toNat))

/-- A visit, as a path of `EcnPath` has it. -/
structure Visit (ecn_k : ℕ) (t : Taken) (v : DctcpSwitch × standard_metadata_t) : Prop where
  table : v.1.table = routes t.switch
  threshold : Threshold ecn_k v.1.registers
  std_meta : v.2 = t.arrival.std_meta

section

variable {ecn_k n i : ℕ} {notes ts : List Taken} {frame out : List Byte}

/-- The visits of a frame are a path. -/
theorem worked_through (h : Worked (dctcp_ledger ecn_k) notes ts frame out) :
    ∃ path, List.Forall₂ (Visit ecn_k) ts path ∧
      (DctcpSwitch.through path frame).2 = some out := by
  induction h with
  | nil frame => exact ⟨[], List.Forall₂.nil, rfl⟩
  | @cons before t r ts mid out noted holds passed rest ih =>
      obtain ⟨path, hpath, hthrough⟩ := ih
      have hsent : (⟨routes t.switch, r⟩ : DctcpSwitch).process t.arrival.std_meta t.frame
          = ((t.work dctcp r).1, some mid) := Prod.ext rfl passed
      refine ⟨(⟨routes t.switch, r⟩, t.arrival.std_meta) :: path, .cons ⟨rfl, holds, rfl⟩ hpath, ?_⟩
      rw [through_send hsent]
      exact hthrough

/-- It is congested where a queue was over the threshold, which has 32 bits. -/
theorem congested_iff {path : List (DctcpSwitch × standard_metadata_t)}
    (hpath : List.Forall₂ (Visit ecn_k) ts path) :
    Congested path ↔ Jammed (ecn_k % 2 ^ 32) ts := by
  have hover : ∀ t v, Visit ecn_k t v →
      (Over v.1.registers v.2 ↔ ecn_k % 2 ^ 32 < t.std_meta.enq_qdepth.toNat) := by
    intro t v h
    rw [Over, h.threshold, h.std_meta, BitVec.toNat_ofNat]
    rfl
  unfold Congested Jammed
  induction hpath with
  | nil => simp
  | cons h _ ih =>
      rw [List.exists_mem_cons_iff, List.exists_mem_cons_iff]
      exact or_congr (hover _ _ h) ih

/-- Every switch knows the way. -/
theorem routed_of_visits {path : List (DctcpSwitch × standard_metadata_t)}
    (hpath : List.Forall₂ (Visit ecn_k) ts path) (b : Host) : DctcpSwitch.Routed path b.ip := by
  induction hpath with
  | nil => exact fun v hv => absurd hv List.not_mem_nil
  | cons h _ ih =>
      intro v hv
      rcases List.mem_cons.mp hv with rfl | hv
      · rw [h.table, route_to]
        exact next_hop_egress _ b
      · exact ih v hv

/-- A data packet of a sender that has opted in, at `r1`. -/
theorem marked {q : Fabric dctcp × List Taken} (h : Noted (dctcp_ledger ecn_k) n q) {pk : Packet}
    (hi : q.1.packets[i]? = some pk) (hplace : pk.place = .received .r1) {k : Fin MAX_SENDERS}
    (hsource : pk.source = .h k) {g : UdpFrame} (horiginal : pk.original = g.bytes)
    (hport : g.udp.dst_port = DATA_PORT) {shim : shim_t} {data : data_payload_t}
    {tail : List Byte} (hfresh : shim.hop_count = 0#8)
    (hpay : g.payload = data_bytes shim [] data tail) (hect : g.ipv4.ecn = ECN_ECT_0) :
    (visits q.2 i).map Taken.stop = [(.s1, k.val + 1), (.s2, 1)] ∧
      ∃ out : UdpFrame, pk.frame = out.bytes ∧ out.payload = g.payload ∧
        out.ipv4.ecn = if Jammed (ecn_k % 2 ^ 32) (visits q.2 i) then ECN_CE else ECN_ECT_0 := by
  obtain ⟨hdst, httl, t₁, t₂, hvisits, hstop₁, hstop₂, hworked⟩ :=
    h.at_receiver hi hplace hsource horiginal
  -- the two visits are a path of two switches
  obtain ⟨path, hpath, hthrough⟩ := worked_through hworked
  have hopted : g.ipv4.ecn ≠ ECN_NOT_ECT := by
    rw [hect]
    decide
  have hlen : path.length = 2 := hpath.length_eq.symm
  obtain ⟨out, hout, houtpay, houtecn⟩ := DctcpSwitch.through_data ⟨Nat.zero_le _, hfresh⟩ path
    hport hpay hopted (by omega) (hdst ▸ routed_of_visits hpath .r1)
  rw [hout, Option.some.injEq] at hthrough
  refine ⟨?_, out, hthrough.symm, houtpay, ?_⟩
  · rw [hvisits, List.map_cons, List.map_singleton, hstop₁, hstop₂]
  · rw [houtecn, hect, hvisits]
    exact if_congr (congested_iff hpath) rfl rfl

end

/-- **The echo is about the packet's own queues.** In every state of the loaded network, with
the work of the switches noted: a data packet that `h{k + 1}` sent with ECT(0) and that has
reached `r1` has been taken by the two switches of its way, and is marked exactly if one of
the two queues it has met there was over the threshold of the controller; and an ACK with what
the reflector makes of it, wherever it is delivered, tells the DCTCP sender just that. -/
theorem ecn_on_the_dumbbell (ecn_k bottleneck_pps bottleneck_depth : ℕ) (hk : ecn_k < 2 ^ 32)
    (n_senders : ℤ) (ls : List Link) (hbuild : build n_senders = .ok ls) (evs : List Event)
    (f : Fabric dctcp) (notes : List Taken)
    (hrun : run (recorded (step ls) note)
      (loaded (.dctcp ecn_k) bottleneck_pps bottleneck_depth, []) evs = some (f, notes))
    (i : ℕ) (pk : Packet) (hi : f.packets[i]? = some pk) (hplace : pk.place = .received .r1)
    (k : Fin MAX_SENDERS) (hsource : pk.source = .h k) (g : UdpFrame)
    (horiginal : pk.original = g.bytes) (hport : g.udp.dst_port = DATA_PORT) (shim : shim_t)
    (data : data_payload_t) (tail : List Byte) (hfresh : shim.hop_count = 0#8)
    (hpay : g.payload = data_bytes shim [] data tail) (hect : g.ipv4.ecn = ECN_ECT_0) :
    (visits notes i).map Taken.stop = [(.s1, k.val + 1), (.s2, 1)] ∧
      ∃ out : UdpFrame, pk.frame = out.bytes ∧ out.payload = g.payload ∧
      (out.ipv4.ecn = if Jammed ecn_k (visits notes i) then ECN_CE else ECN_ECT_0) ∧
      ∀ (ip_tos : ℕ) (ancdata : List Reflector.Cmsg) (recv_ts_us : Us),
        TosDelivered ip_tos out.ipv4 ancdata → ∃ ack,
          Reflector.reflect (some ip_tos) out.payload ancdata recv_ts_us = .ok (some ack) ∧
          ∀ (j : ℕ) (pk' : Packet) (b : Host) (g' : UdpFrame), f.packets[j]? = some pk' →
            pk'.place = .received b → pk'.original = g'.bytes → g'.udp.dst_port = ACK_PORT →
            g'.payload = ack → ∃ (out' : UdpFrame) (shim' : PacketFormat.Shim)
              (payload : PacketFormat.AckPayload), pk'.frame = out'.bytes ∧
              Dctcp.read_ack out'.payload = .ok (some (shim', payload)) ∧
              payload.ack_seq = data.seq.toNat ∧
              (shim'.ecn_echo = true ↔ Jammed ecn_k (visits notes i)) := by
  obtain ⟨hn, rfl⟩ := links_of_build hbuild
  have h : Noted (dctcp_ledger ecn_k) n_senders.toNat (f, notes) :=
    noted_run (dctcp_ledger_opens ecn_k) hn hrun
  obtain ⟨hvisits, out, hout, houtpay, houtecn⟩ :=
    marked h hi hplace hsource horiginal hport hfresh hpay hect
  rw [Nat.mod_eq_of_lt hk] at houtecn
  refine ⟨hvisits, out, hout, houtpay, houtecn, ?_⟩
  intro ip_tos ancdata recv_ts_us htos
  obtain ⟨flags, ack, hflags, hseq, hreflect, hread⟩ :=
    reflect_data data tail hfresh (some ip_tos) ancdata recv_ts_us
  -- the reflector sees what the switches wrote
  have hce : Reflector.read_ecn (some ip_tos) ancdata = Reflector.ECN_CE ↔
      Jammed ecn_k (visits notes i) := by
    rw [read_ecn_delivered htos, houtecn]
    by_cases hj : Jammed ecn_k (visits notes i)
    · simp only [hj, if_true, iff_true]
      rfl
    · simp only [hj, if_false, iff_false]
      decide
  refine ⟨_, houtpay ▸ hpay ▸ hreflect, ?_⟩
  intro j pk' b g' hj hplace' horiginal' hport' hpay'
  have hback : Counted { shim with flags := flags } [] := ⟨Nat.zero_le _, hfresh⟩
  have hworked := h.followed j pk' hj (by rw [hplace']; simp)
  obtain ⟨out', hout', houtpay'⟩ := hworked.ack dctcp_carrier horiginal' hport' hback hpay'
  refine ⟨out', shim_t.view { shim with flags := flags }, ack.view, hout', ?_, ?_, ?_⟩
  · rw [houtpay', hpay']
    exact hread
  · rw [ack_payload_t.view, hseq]
  · have hecho := ecn_echo_iff shim
      (Reflector.read_ecn (some ip_tos) ancdata = Reflector.ECN_CE)
    rw [← hflags] at hecho
    rw [← hce, ← hecho]
    cases (shim_t.view { shim with flags := flags }).ecn_echo <;> simp

/-- The answer to the packet of `h3`, with the echo. -/
def echo_to_h3 : UdpFrame where
  ethernet := ⟨host_mac 3, Host.r1.mac, ETHERTYPE_IPV4⟩
  ipv4 := ⟨4#4, 5#4, 0#6, 0#2, 48#16, 1#16, 2#3, 0#13, 64#8, IP_PROTO_UDP, 0#16, Host.r1.ip,
    ip_addr 3⟩
  udp := ⟨DATA_PORT, ACK_PORT, 28#16, 0#16⟩
  payload := ack_bytes ⟨1#8, 0#8, 4#8, 0#8⟩ [] ⟨7#32, 0#64, 0#32⟩ []
  is_ipv4 := rfl
  version_eq := rfl
  no_options := rfl
  unfragmented := ⟨rfl, rfl⟩
  is_udp := rfl
  total_len_eq := rfl
  length_eq := rfl

/-- Sixteen packets in the queue of the bottleneck. -/
def jammed_meta : standard_metadata_t := { idle_meta with enq_qdepth := 16#19 }

theorem three_senders : 2 < MAX_SENDERS := by decide

def h3 : Fin MAX_SENDERS := ⟨2, three_senders⟩

def echo_events : List Event :=
  [.inject (.h h3) frame_of_h3.bytes, .forward 0 jammed_meta, .inject h1 ping_frame,
    .forward 0 idle_meta, .inject .r1 echo_to_h3.bytes, .forward 2 idle_meta,
    .forward 2 idle_meta]

theorem echo_state :
    (run (recorded (step (links 8)) note) (loaded (.dctcp 15) 833 40, []) echo_events).map
      (fun q => (q.1.packets[0]?.map fun pk => (pk.source, pk.original, pk.place),
        q.1.packets[2]?.map fun pk => (pk.original, pk.place)))
      = some (some (.h h3, frame_of_h3.bytes, .received .r1),
        some (echo_to_h3.bytes, .received (.h h3))) := by
  decide +kernel

theorem echo_jammed :
    (run (recorded (step (links 8)) note) (loaded (.dctcp 15) 833 40, []) echo_events).map
      (fun q => decide (Jammed 15 (visits q.2 0))) = some true := by
  decide +kernel

/-- The packet is marked at the bottleneck, and `h3` is told. -/
theorem ecn_on_the_dumbbell_h3 : ∃ out : UdpFrame, out.ipv4.ecn = ECN_CE ∧
    ∃ (out' : UdpFrame) (shim' : PacketFormat.Shim) (payload : PacketFormat.AckPayload),
      Dctcp.read_ack out'.payload = .ok (some (shim', payload)) ∧ payload.ack_seq = 7 ∧
        shim'.ecn_echo = true := by
  obtain ⟨⟨f, notes⟩, hrun, hstate⟩ := Option.map_eq_some_iff.mp echo_state
  obtain ⟨hdata, hecho⟩ := Prod.mk.inj hstate
  have hjammed := echo_jammed
  rw [hrun, Option.map_some, Option.some.injEq, decide_eq_true_eq] at hjammed
  obtain ⟨pk, hi, hfacts⟩ := Option.map_eq_some_iff.mp hdata
  obtain ⟨pk', hj, hfacts'⟩ := Option.map_eq_some_iff.mp hecho
  rw [Prod.mk.injEq, Prod.mk.injEq] at hfacts
  rw [Prod.mk.injEq] at hfacts'
  obtain ⟨hsource, horiginal, hplace⟩ := hfacts
  obtain ⟨-, out, -, hpay, hecn, hreflect⟩ := ecn_on_the_dumbbell 15 833 40 (by norm_num) 8
    (links 8) rfl echo_events f notes hrun 0 pk hi hplace h3 hsource frame_of_h3 horiginal rfl
    ⟨0#8, 0#8, 4#8, 0#8⟩ ⟨7#32, 1000#64, 0#32⟩ [] rfl rfl rfl
  -- the queue was over the threshold at the first switch, so the packet arrives CE
  rw [if_pos hjammed] at hecn
  have htos : TosDelivered 1 out.ipv4 [⟨Reflector.IPPROTO_IP, 1, [out.ipv4.tos]⟩] :=
    ⟨⟨_, List.mem_singleton_self _, rfl, rfl⟩, fun c hc _ _ => by rw [List.mem_singleton.mp hc]⟩
  obtain ⟨ack, hack, hback⟩ := hreflect 1 _ zero_us htos
  -- the frame put on the wire at `r1` is what the reflector answers
  have hbytes : echo_to_h3.payload = ack := by
    rw [Reflector.reflect, read_ecn_delivered htos, hecn, hpay] at hack
    have hanswer : (.ok (some echo_to_h3.payload) : Except PyError (Option (List Byte)))
        = .ok (some ack) := by
      rw [← hack]
      decide +kernel
    exact Option.some.inj (Except.ok.inj hanswer)
  obtain ⟨out', shim', payload, -, hread, hseq, hiff⟩ :=
    hback 2 pk' (.h h3) echo_to_h3 hj hfacts'.2 hfacts'.1 rfl hbytes
  exact ⟨out, hecn, out', shim', payload, hread, hseq, hiff.mpr hjammed⟩

end IntHpcc.DumbbellEcn
