/-
What the entries on the dumbbell tell.

`IntPath` says what comes out of a path of `hpcc.p4` switches, for any registers and
metadata. Here the path is the real one: `load_tables.py` has numbered the switches and set
the rates of their links, and the data plane never touches either again (`Marked`); a frame
meets the two switches in the order of the topology, whatever traffic is in between.

What is different from packet to packet is a function of what the switches have seen. An
entry is what the notes of their work tell (`told`): the queue depth and the time of this
very packet, and the bytes of all data packets that the switch has put on the port since it
was loaded, this one with its new entry included. The register behind it is the meter of
`PortMeter`, which here starts from the zero of the controller (`Counts`).
-/
import IntHpcc.DumbbellNotes
import IntHpcc.QsnapP4

set_option autoImplicit false

namespace IntHpcc.DumbbellTelemetry

open IntHpcc.Runs IntHpcc.Bytes IntHpcc.Py IntHpcc.P4 IntHpcc.LoadTables IntHpcc.Dumbbell
open IntHpcc.DumbbellNotes

/-! ## What the controller has written -/

/-- The number of a switch. -/
def switch_id : Switch → BitVec 16
  | .s1 => 1#16
  | .s2 => 2#16

/-- The port of a switch toward `r1`. -/
def r1_port (sw : Switch) : BitVec 9 := (next_hop sw .r1).egress_spec

/-- The rate of the link behind it. -/
def link_bps : Switch → BitVec 32
  | .s1 => 10000000#32
  | .s2 => 100000000#32

theorem r1_port_hasCell (sw : Switch) : HasCell (r1_port sw) := by
  cases sw <;> decide

/-- The registers the controller sets and the data plane only reads. -/
structure Marked (sw : Switch) (r : HpccRegisters) : Prop where
  switch_id : r.switch_id_reg.read 0#32 = switch_id sw
  link_bps : r.link_bps_reg.read ((r1_port sw).setWidth 32) = link_bps sw

/-- The registers after the writes of a command list. -/
def written (ws : List (HpccName × ℕ × ℕ)) : HpccRegisters :=
  ws.foldl (fun r w => hpcc.write w.1 w.2.1 w.2.2 r) hpcc.zero

/-- What `push` leaves in the registers does not depend on the queue commands. -/
theorem push_registers (bottleneck_pps bottleneck_depth : ℕ) (sw : Switch) :
    (push (Algo.hpcc.commands bottleneck_pps bottleneck_depth sw)).registers
      = written (writes (Algo.hpcc.commands 0 0 sw)) := by
  rw [push, foldl_exec_registers]
  cases sw <;> rfl

theorem marked_push (bottleneck_pps bottleneck_depth : ℕ) (sw : Switch) :
    Marked sw (push (Algo.hpcc.commands bottleneck_pps bottleneck_depth sw)).registers := by
  rw [push_registers]
  cases sw with
  | s1 => exact ⟨by decide +kernel, by decide +kernel⟩
  | s2 => exact ⟨by decide +kernel, by decide +kernel⟩

/-- Egress writes byte counters only. -/
theorem egress_marked {sw : Switch} {r : HpccRegisters} (h : Marked sw r) (hdr : headers_t)
    (metadata : metadata_t) (std_meta : standard_metadata_t) :
    Marked sw (HpccEgress r hdr metadata std_meta).1 := by
  unfold HpccEgress
  split
  · exact h
  · split
    · exact h
    · split
      · exact h
      · exact ⟨h.switch_id, h.link_bps⟩

theorem work_marked {sw : Switch} {r : HpccRegisters} (h : Marked sw r) (t : Taken) :
    Marked sw (t.work hpcc r).1 := by
  unfold Taken.work V1Switch
  dsimp only
  split
  · exact h
  · exact egress_marked h _ _ _

/-! ## What the notes tell -/

/-- The bytes that the frame is on the link with its entry, by BMv2's `packet_length`. -/
def link_bytes (t : Taken) : ℕ := t.frame.length % 2 ^ 32 + HOP_SIZE

/-- It is stamped, for a port. -/
def Stamps (sw : Switch) (port : BitVec 9) (t : Taken) : Prop :=
  t.switch = sw ∧ t.arrival.IntStamped ∧ t.arrival.egress_port = port

instance (sw : Switch) (port : BitVec 9) : DecidablePred (Stamps sw port) := fun _ =>
  inferInstanceAs (Decidable (_ ∧ _))

/-- The bytes of all the frames a switch has stamped for a port. -/
def bytes_stamped (sw : Switch) (port : BitVec 9) (notes : List Taken) : ℕ :=
  ((notes.filter (Stamps sw port)).map link_bytes).sum

@[simp] theorem bytes_stamped_append (sw : Switch) (port : BitVec 9) (notes more : List Taken) :
    bytes_stamped sw port (notes ++ more)
      = bytes_stamped sw port notes + bytes_stamped sw port more := by
  simp [bytes_stamped]

theorem bytes_stamped_singleton (sw : Switch) (port : BitVec 9) (t : Taken) :
    bytes_stamped sw port [t] = if Stamps sw port t then link_bytes t else 0 := by
  unfold bytes_stamped
  by_cases h : Stamps sw port t
  · simp [h]
  · simp [h]

/-- The entry of a frame to `r1`, when `before` has been noted already. -/
def told (before : List Taken) (t : Taken) : int_hop_t where
  switch_id := switch_id t.switch
  ingress_port := BitVec.ofNat 16 t.port
  egress_port := (r1_port t.switch).setWidth 16
  qdepth := t.std_meta.enq_qdepth.setWidth 32
  egress_tstamp_us := t.std_meta.egress_global_timestamp
  tx_byte_count := BitVec.ofNat 48 (bytes_stamped t.switch (r1_port t.switch) (before ++ [t]))
  link_bps := link_bps t.switch

/-- The entry `hop` is what the notes tell of a data packet, the frame `index` of the network,
that the switch has stamped on its way to `r1`. -/
def Tells (notes : List Taken) (index : ℕ) (stop : Switch × ℕ) (hop : int_hop_t) : Prop :=
  ∃ before t, before ++ [t] <+: notes ∧ t.index = index ∧ (t.switch, t.port) = stop ∧
    Stamps t.switch (r1_port t.switch) t ∧ hop = told before t

theorem Tells.mono {notes notes' : List Taken} {index : ℕ} {stop : Switch × ℕ} {hop : int_hop_t}
    (h : Tells notes index stop hop) (hnotes : notes <+: notes') :
    Tells notes' index stop hop := by
  obtain ⟨before, t, hbefore, hrest⟩ := h
  exact ⟨before, t, hbefore.trans hnotes, hrest⟩

/-! ## The counters -/

/-- The counters of a switch have counted what it has stamped. -/
def Counts (sw : Switch) (notes : List Taken) (r : HpccRegisters) : Prop :=
  ∀ port, HasCell port → r.counter port = BitVec.ofNat 48 (bytes_stamped sw port notes)

theorem counts_push (bottleneck_pps bottleneck_depth : ℕ) (sw : Switch) :
    Counts sw [] (push (Algo.hpcc.commands bottleneck_pps bottleneck_depth sw)).registers := by
  have hcells : ∀ i : Fin BMV2_MAX_PORTS,
      (written (writes (Algo.hpcc.commands 0 0 sw))).tx_byte_count_reg.cells i = 0#48 := by
    cases sw with
    | s1 => decide +kernel
    | s2 => decide +kernel
  intro port hport
  have hindex : (port.setWidth 32).toNat < BMV2_MAX_PORTS := by
    rw [BitVec.toNat_setWidth_of_le (by decide)]
    exact hport
  rw [push_registers, HpccRegisters.counter, Register.read, dif_pos hindex, hcells]
  rfl

/-- The count in the entry of a frame. -/
theorem entry_count (t : Taken) (r : HpccRegisters) (dst_addr : BitVec 32) :
    ((⟨t.arrival.table, r⟩ : HpccSwitch).entry t.arrival.std_meta dst_addr).tx_byte_count
      = r.counter (ipv4_lpm t.arrival.table dst_addr).egress_spec
        + BitVec.ofNat 48 (link_bytes t) := by
  have hlen : t.arrival.std_meta.packet_length.setWidth 48
      = BitVec.ofNat 48 (t.frame.length % 2 ^ 32) := by
    apply BitVec.eq_of_toNat_eq
    rw [BitVec.toNat_setWidth, BitVec.toNat_ofNat]
    rfl
  show r.counter _ + t.arrival.std_meta.packet_length.setWidth 48 + BitVec.ofNat 48 HOP_SIZE = _
  rw [hlen, add_assoc, ← BitVec.ofNat_add]
  rfl

/-- A frame through the switch. -/
theorem counts_work {notes : List Taken} {r : HpccRegisters} {t : Taken}
    (h : Counts t.switch notes r) :
    Counts t.switch (notes ++ [t]) (t.work hpcc r).1 := by
  intro port hport
  rw [show (t.work hpcc r).1 = (transmit r t.arrival).1 from rfl]
  rw [bytes_stamped_append, bytes_stamped_singleton]
  by_cases hs : t.arrival.IntStamped
  · obtain ⟨hstamped, ip, hip, hpass⟩ := hs
    obtain ⟨d, hd, -, hegress, -, -, hcounter⟩ := transmit_stamped r hip hpass hstamped
    have hdport : t.arrival.egress_port = d.egress_port :=
      (egress_port_of_passes hip hpass).trans hegress.symm
    have hcount := entry_count t r ip.dst_addr
    rw [← hegress] at hcount
    rw [hcounter, hcount]
    by_cases heq : d.egress_port = port
    · -- the port of the frame
      have hst : Stamps t.switch port t := ⟨rfl, ⟨hstamped, ip, hip, hpass⟩, hdport.trans heq⟩
      rw [heq, if_pos hport, Function.update_self, if_pos hst, h port hport, BitVec.ofNat_add]
    · have hnot : ¬ Stamps t.switch port t := fun hst => heq (hdport.symm.trans hst.2.2)
      rw [if_neg hnot, add_zero, ← h port hport]
      split
      · rw [Function.update_of_ne (Ne.symm heq)]
      · rfl
  · have hnot : ¬ Stamps t.switch port t := fun hst => hs hst.2.1
    rw [(transmit_plain r hs).1, if_neg hnot, add_zero]
    exact h port hport

/-- Another switch has not moved. -/
theorem counts_other {sw : Switch} {notes : List Taken} {r : HpccRegisters} {t : Taken}
    (hsw : t.switch ≠ sw) (h : Counts sw notes r) : Counts sw (notes ++ [t]) r := by
  intro port hport
  have hnot : ¬ Stamps sw port t := fun hst => hsw hst.1
  rw [bytes_stamped_append, bytes_stamped_singleton, if_neg hnot, add_zero]
  exact h port hport

/-- What the notes say of the registers of `hpcc.p4`. -/
def hpcc_ledger : Ledger hpcc where
  Holds sw notes r := Marked sw r ∧ Counts sw notes r
  own h := ⟨work_marked h.1 _, counts_work h.2⟩
  other hsw h := ⟨h.1, counts_other hsw h.2⟩

theorem hpcc_ledger_opens : @Ledger.Opens .hpcc hpcc_ledger :=
  fun bottleneck_pps bottleneck_depth sw =>
    ⟨marked_push bottleneck_pps bottleneck_depth sw, counts_push bottleneck_pps bottleneck_depth sw⟩

/-! ## A data packet -/

section

variable {before : List Taken} {t : Taken} {r : HpccRegisters}

/-- The entry is what the notes tell. -/
theorem entry_told (hmarked : Marked t.switch r) (hcounts : Counts t.switch before r)
    (hport : t.port < 2 ^ 9) (hs : Stamps t.switch (r1_port t.switch) t) :
    (⟨t.arrival.table, r⟩ : HpccSwitch).entry t.arrival.std_meta Host.r1.ip = told before t := by
  have hroute : ipv4_lpm t.arrival.table Host.r1.ip = next_hop t.switch .r1 := route_to _ _
  -- the cell holds the bytes stamped so far, and the entry counts this packet in
  have hcount : ((⟨t.arrival.table, r⟩ : HpccSwitch).entry t.arrival.std_meta
      Host.r1.ip).tx_byte_count
        = BitVec.ofNat 48 (bytes_stamped t.switch (r1_port t.switch) (before ++ [t])) := by
    rw [entry_count, hroute, bytes_stamped_append, bytes_stamped_singleton, if_pos hs,
      BitVec.ofNat_add, ← hcounts _ (r1_port_hasCell t.switch)]
    rfl
  have hport' : (BitVec.ofNat 9 t.port).setWidth 16 = BitVec.ofNat 16 t.port := by
    apply BitVec.eq_of_toNat_eq
    rw [BitVec.toNat_setWidth, BitVec.toNat_ofNat, BitVec.toNat_ofNat,
      Nat.mod_eq_of_lt hport]
  unfold HpccSwitch.entry at hcount ⊢
  rw [hroute] at hcount ⊢
  unfold told
  rw [← hcount, ← hport', ← hmarked.switch_id, ← hmarked.link_bps]
  rfl

/-- One switch: a data packet to `r1` with room leaves with the entry that is told. -/
theorem data_worked (hholds : hpcc_ledger.Holds t.switch before r)
    (hport : t.port < 2 ^ 9) {g : UdpFrame} (hframe : t.frame = g.bytes)
    (hdata : g.udp.dst_port = DATA_PORT) {shim : shim_t} {hops : List int_hop_t}
    {data : data_payload_t} {tail : List Byte} (hcounted : Counted shim hops)
    (hpay : g.payload = data_bytes shim hops data tail) (hfree : hops.length < MAX_HOPS)
    (hdst : g.ipv4.dst_addr = Host.r1.ip) (httl : 1#8 < g.ipv4.ttl)
    (hroom : g.ipv4.total_len.toNat + HOP_SIZE < 2 ^ 16) :
    ∃ out : UdpFrame, (t.work hpcc r).2 = some out.bytes ∧ Onward g out HOP_SIZE ∧
      out.payload = data_bytes { shim with hop_count := shim.hop_count + 1#8 }
        (told before t :: hops) data tail ∧
      Stamps t.switch (r1_port t.switch) t := by
  have hparse := parse_data hdata hcounted hpay
  have hroute : ipv4_lpm t.arrival.table g.ipv4.dst_addr = next_hop t.switch .r1 := by
    rw [hdst]
    exact route_to _ _
  -- both switches have an entry for `r1`
  have hpass : Passes (⟨t.arrival.table, r⟩ : HpccSwitch).table g.ipv4 := by
    refine ⟨httl, ?_⟩
    rw [hroute]
    exact next_hop_egress _ _
  have hip : (CommonParser t.arrival.frame).hdr.ipv4 = some g.ipv4 := by
    show (CommonParser t.frame).hdr.ipv4 = _
    rw [hframe]
    exact (parse_front g.is_ipv4 _).2
  -- a data packet with room in the stack is one the egress stamps and counts
  have hs : Stamps t.switch (r1_port t.switch) t := by
    refine ⟨rfl, ⟨?_, g.ipv4, hip, hpass⟩, ?_⟩
    · show Stamped t.frame
      rw [hframe, Stamped, hparse]
      exact ⟨rfl, shim, rfl, by rw [hcounted.toNat_eq]; exact hfree⟩
    · rw [egress_port_of_passes hip hpass, hroute]
      rfl
  -- what it pushes is the entry told by the ledger
  obtain ⟨out, hout, honward, houtpay⟩ :=
    process_push t.arrival.std_meta hdata hcounted hpay hfree hroom hpass
  rw [hdst, entry_told hholds.1 hholds.2 hport hs] at houtpay
  rw [← hframe] at hout
  exact ⟨out, hout, honward, houtpay, hs⟩

end

/-- A data packet of a sender at `r1`. -/
theorem entries {n : ℕ} {q : Fabric hpcc × List Taken} (h : Noted hpcc_ledger n q) {i : ℕ}
    {pk : Packet} (hi : q.1.packets[i]? = some pk) (hplace : pk.place = .received .r1)
    {k : Fin MAX_SENDERS} (hsource : pk.source = .h k) {g : UdpFrame}
    (horiginal : pk.original = g.bytes) (hport : g.udp.dst_port = DATA_PORT) {shim : shim_t}
    {data : data_payload_t} {tail : List Byte} (hfresh : shim.hop_count = 0#8)
    (hpay : g.payload = data_bytes shim [] data tail)
    (hroom : g.ipv4.total_len.toNat + 2 * HOP_SIZE < 2 ^ 16) :
    ∃ (out : UdpFrame) (hop₁ hop₂ : int_hop_t), pk.frame = out.bytes ∧
      out.payload = data_bytes { shim with hop_count := 2#8 } [hop₂, hop₁] data tail ∧
      Tells q.2 i (.s1, k.val + 1) hop₁ ∧ Tells q.2 i (.s2, 1) hop₂ := by
  obtain ⟨hdst, httl, t₁, t₂, hvisits, hstop₁, hstop₂, hworked⟩ :=
    h.at_receiver hi hplace hsource horiginal
  have hindex : ∀ t ∈ [t₁, t₂], t.index = i := fun t ht => (mem_visits.mp (hvisits ▸ ht)).2
  -- the two stops
  obtain ⟨before₁, r₁, mid₁, hnoted₁, hframe₁, hholds₁, hpass₁, hworked₂⟩ := hworked.cons_inv
  obtain ⟨before₂, r₂, mid₂, hnoted₂, hframe₂, hholds₂, hpass₂, hworked₃⟩ := hworked₂.cons_inv
  have hport₁ : t₁.port < 2 ^ 9 := by
    have heq : t₁.port = k.val + 1 := congrArg Prod.snd hstop₁
    rw [heq]
    exact sender_port_lt k
  have hport₂ : t₂.port < 2 ^ 9 := by
    have heq : t₂.port = 1 := congrArg Prod.snd hstop₂
    rw [heq]
    decide
  have httl₁ : 1#8 < g.ipv4.ttl := by
    rw [BitVec.lt_def, BitVec.toNat_ofNat]
    omega
  obtain ⟨g₁, hg₁, ⟨hdst₁, hdata₁, httl_le, htotal₁⟩, hpay₁, hs₁⟩ := data_worked hholds₁ hport₁
    hframe₁ hport ⟨Nat.zero_le _, hfresh⟩ hpay (show 0 < MAX_HOPS by decide) hdst httl₁ (by omega)
  obtain rfl : mid₁ = g₁.bytes := Option.some.inj (hpass₁.symm.trans hg₁)
  have hcounted₁ : Counted { shim with hop_count := shim.hop_count + 1#8 } [told before₁ t₁] := by
    refine ⟨show 1 ≤ MAX_HOPS by decide, ?_⟩
    rw [hfresh]
    rfl
  have httl₂ : 1#8 < g₁.ipv4.ttl := by
    rw [BitVec.lt_def, BitVec.toNat_ofNat]
    omega
  obtain ⟨g₂, hg₂, -, hpay₂, hs₂⟩ := data_worked hholds₂ hport₂ hframe₂ (hdata₁.trans hport)
    hcounted₁ hpay₁ (show 1 < MAX_HOPS by decide) (hdst₁.trans hdst) httl₂ (by omega)
  obtain rfl : mid₂ = g₂.bytes := Option.some.inj (hpass₂.symm.trans hg₂)
  refine ⟨g₂, told before₁ t₁, told before₂ t₂, hworked₃.nil_inv, ?_,
    ⟨before₁, t₁, hnoted₁, hindex t₁ (by simp), hstop₁, hs₁, rfl⟩,
    ⟨before₂, t₂, hnoted₂, hindex t₂ (by simp), hstop₂, hs₂, rfl⟩⟩
  rw [hpay₂, hfresh]
  rfl

/-- **The entries tell the truth.** In every state of the loaded network, with the work of the
switches noted: what a data packet of `h{k + 1}` carries at `r1` is what the notes tell of
its two visits. The queue depths and the times are those the switches have seen of this
very packet, and the byte counts are all that the bottleneck, and the link to `r1`, have
carried of stamped packets up to this one. -/
theorem telemetry_on_the_dumbbell (bottleneck_pps bottleneck_depth : ℕ) (n_senders : ℤ)
    (ls : List Link) (hbuild : build n_senders = .ok ls) (evs : List Event)
    (f : Fabric hpcc) (notes : List Taken)
    (hrun : run (recorded (step ls) note) (loaded .hpcc bottleneck_pps bottleneck_depth, []) evs
      = some (f, notes))
    (i : ℕ) (pk : Packet) (hi : f.packets[i]? = some pk) (hplace : pk.place = .received .r1)
    (k : Fin MAX_SENDERS) (hsource : pk.source = .h k) (g : UdpFrame)
    (horiginal : pk.original = g.bytes) (hport : g.udp.dst_port = DATA_PORT) (shim : shim_t)
    (data : data_payload_t) (tail : List Byte) (hfresh : shim.hop_count = 0#8)
    (hpay : g.payload = data_bytes shim [] data tail)
    (hroom : g.ipv4.total_len.toNat + 2 * HOP_SIZE < 2 ^ 16) :
    ∃ (out : UdpFrame) (hop₁ hop₂ : int_hop_t), pk.frame = out.bytes ∧
      out.payload = data_bytes { shim with hop_count := 2#8 } [hop₂, hop₁] data tail ∧
      Tells notes i (.s1, k.val + 1) hop₁ ∧ Tells notes i (.s2, 1) hop₂ := by
  obtain ⟨hn, rfl⟩ := links_of_build hbuild
  exact entries (noted_run hpcc_ledger_opens hn hrun) hi hplace hsource horiginal hport hfresh
    hpay hroom

/-- The packet of `h3` goes to `r1`, behind a ping of `h1`. -/
def data_events : List Event :=
  [.inject h1 ping_frame, .inject (.h ⟨2, by decide⟩) frame_of_h3.bytes,
    .forward 0 idle_meta, .forward 1 idle_meta, .forward 1 idle_meta]

theorem data_state :
    (run (step (links 8)) (loaded .hpcc 833 40) data_events).map
      (fun f => f.packets[1]?.map fun pk => (pk.source, pk.original, pk.place))
      = some (some (.h ⟨2, by decide⟩, frame_of_h3.bytes, .received .r1)) := by
  decide +kernel

theorem telemetry_on_the_dumbbell_h3 : ∃ (out : UdpFrame) (notes : List Taken)
    (hop₁ hop₂ : int_hop_t), out.payload = data_bytes ⟨0#8, 2#8, 4#8, 0#8⟩ [hop₂, hop₁]
        ⟨7#32, 1000#64, 0#32⟩ [] ∧
      Tells notes 1 (.s1, 3) hop₁ ∧ Tells notes 1 (.s2, 1) hop₂ := by
  obtain ⟨f, hrun, hstate⟩ := Option.map_eq_some_iff.mp data_state
  obtain ⟨pk, hi, hfacts⟩ := Option.map_eq_some_iff.mp hstate
  rw [Prod.mk.injEq, Prod.mk.injEq] at hfacts
  obtain ⟨hsource, horiginal, hplace⟩ := hfacts
  obtain ⟨notes, hnotes⟩ : ∃ notes, run (recorded (step (links 8)) note)
      (loaded .hpcc 833 40, []) data_events = some (f, notes) := exists_recorded hrun []
  obtain ⟨out, hop₁, hop₂, -, hpay, h₁, h₂⟩ := telemetry_on_the_dumbbell 833 40 8 (links 8) rfl
    data_events f notes hnotes 1 pk hi hplace ⟨2, by decide⟩ hsource frame_of_h3 horiginal rfl
    ⟨0#8, 0#8, 4#8, 0#8⟩ ⟨7#32, 1000#64, 0#32⟩ [] rfl rfl (by decide)
  exact ⟨out, notes, hop₁, hop₂, hpay, h₁, h₂⟩

end IntHpcc.DumbbellTelemetry
