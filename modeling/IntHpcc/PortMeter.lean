/-
What the byte counter of `hpcc.p4` measures.

Packets of every kind leave the switch one after the other; a packet that is stamped
carries the counter of its egress port away. The counter is a meter that only the stamped
packets are told of, so two entries of a port differ by what left the port in between
exactly when nothing left it unstamped (`counter_measures_port_iff`). The register has 16
cells: a port past the end has no meter of its own.
-/
import IntHpcc.AnyFrame
import IntHpcc.Metering
import Mathlib.Data.BitVec

set_option autoImplicit false

namespace IntHpcc.P4

open IntHpcc.Bytes IntHpcc.HeaderLayout IntHpcc.Metering

/-! ## What leaves -/

/-- A packet at the switch, with the table the control plane has installed by then. -/
structure Arrival where
  table : List LpmEntry
  std_meta : standard_metadata_t
  frame : List Byte

/-- BMv2's promise: `packet_length` is the length of the packet. -/
def Arrival.Measured (a : Arrival) : Prop := a.std_meta.packet_length.toNat = a.frame.length

/-- The egress port ingress chooses. -/
def Arrival.egress_port (a : Arrival) : BitVec 9 :=
  let p := CommonParser a.frame
  let std_meta := CommonVerifyChecksum p.hdr
    { a.std_meta with
      egress_spec := 0#9
      checksum_error := 0#1 }
  (HpccIngress a.table p.hdr std_meta).2.egress_spec

/-- A packet that left: the port, the packet as it came and as it was transmitted. -/
structure Departure where
  egress_port : BitVec 9
  frame : List Byte
  sent : List Byte

/-- Where the first entry stands. -/
def HOPS_OFFSET : ℕ := 46

/-- The entry pushed for a packet: the packet has grown by one, and it is the first. -/
def Departure.entry (d : Departure) : Option int_hop_t :=
  if d.sent.length = d.frame.length + HOP_SIZE then
    (int_hop_t.layout.extract (d.sent.drop HOPS_OFFSET)).map Prod.fst
  else none

/-- One packet through the switch. -/
def transmit (r : HpccRegisters) (a : Arrival) : HpccRegisters × Option Departure :=
  let out := HpccSwitch.process ⟨a.table, r⟩ a.std_meta a.frame
  (out.1, out.2.map fun sent => ⟨a.egress_port, a.frame, sent⟩)

/-- All that leaves, in order. -/
def departures : HpccRegisters → List Arrival → List Departure
  | _, [] => []
  | r, a :: as => (transmit r a).2.toList ++ departures (transmit r a).1 as

/-- The bytes transmitted on a port. -/
def bytes_sent (port : BitVec 9) (l : List Departure) : ℕ :=
  ((l.filter fun d => d.egress_port = port).map fun d => d.sent.length).sum

/-! ## One packet -/

variable {a : Arrival} {r : HpccRegisters} {ip : ipv4_t}

theorem egress_port_of_passes (hip : (CommonParser a.frame).hdr.ipv4 = some ip)
    (h : Passes a.table ip) : a.egress_port = (ipv4_lpm a.table ip.dst_addr).egress_spec := by
  have hspec := verify_egress_spec (CommonParser a.frame).hdr
    { a.std_meta with
      egress_spec := 0#9
      checksum_error := 0#1 }
  have hingress := ingress_of_passes hip h hspec
  exact congrArg (fun x => x.2.egress_spec) hingress

/-- The counter of a port. -/
def HpccRegisters.counter (r : HpccRegisters) (port : BitVec 9) : BitVec 48 :=
  r.tx_byte_count_reg.read (port.setWidth 32)

/-- The ports that have a cell. -/
def HasCell (port : BitVec 9) : Prop := port.toNat < BMV2_MAX_PORTS

instance (port : BitVec 9) : Decidable (HasCell port) :=
  inferInstanceAs (Decidable (port.toNat < BMV2_MAX_PORTS))

theorem counter_write (r : HpccRegisters) (port : BitVec 9) (v : BitVec 48) :
    HpccRegisters.counter
        { r with tx_byte_count_reg := r.tx_byte_count_reg.write (port.setWidth 32) v }
      = if HasCell port then Function.update r.counter port v else r.counter := by
  have hindex : ∀ q : BitVec 9, (q.setWidth 32).toNat = q.toNat := fun q =>
    BitVec.toNat_setWidth_of_le (by decide)
  funext q
  unfold HpccRegisters.counter Register.read Register.write
  -- a write beyond the register's cells is ignored by the switch
  by_cases hp : HasCell port
  · have hp' : port.toNat < BMV2_MAX_PORTS := hp
    simp only [hindex, hp', dif_pos, if_pos hp]
    -- and such a port reads zero, before and after
    by_cases hq : q.toNat < BMV2_MAX_PORTS
    · by_cases heq : q = port
      · subst heq
        simp [hq]
      · have hne : q.toNat ≠ port.toNat := fun h => heq (BitVec.eq_of_toNat_eq h)
        simp [hq, heq, hne]
    · have hne : q ≠ port := fun heq => hq (heq ▸ hp')
      simp [hq, Function.update_of_ne hne]
  · have hp' : ¬ port.toNat < BMV2_MAX_PORTS := hp
    simp only [hindex, hp', dif_neg, not_false_eq_true, if_neg hp]

/-- The entry's count, for a packet of known length. -/
theorem entry_count (hm : a.Measured) (dst_addr : BitVec 32) :
    ((⟨a.table, r⟩ : HpccSwitch).entry a.std_meta dst_addr).tx_byte_count
      = r.counter (ipv4_lpm a.table dst_addr).egress_spec
        + BitVec.ofNat 48 (a.frame.length + HOP_SIZE) := by
  have hlen : a.std_meta.packet_length.setWidth 48 = BitVec.ofNat 48 a.frame.length := by
    apply BitVec.eq_of_toNat_eq
    have hlt := a.std_meta.packet_length.isLt
    rw [BitVec.toNat_setWidth, BitVec.toNat_ofNat, hm]
  show r.counter _ + a.std_meta.packet_length.setWidth 48 + BitVec.ofNat 48 HOP_SIZE = _
  rw [hlen, add_assoc, ← BitVec.ofNat_add]

theorem length_headers (e : ethernet_t) (ip : ipv4_t) (l : List Byte) :
    (ethernet_t.layout.emit e ++ (ipv4_t.layout.emit ip ++ l)).length
      = ETHERNET_SIZE + IPV4_SIZE + l.length := by
  have hether : ethernet_t.layout.size = ETHERNET_SIZE := rfl
  have hipv4 : ipv4_t.layout.size = IPV4_SIZE := rfl
  simp only [List.length_append, Layout.emit_length, hether, hipv4, add_assoc]

/-- The entry of a packet that has been stamped. -/
theorem entry_stamped {e e' : ethernet_t} {ip ip' : ipv4_t} {u : udp_t} {shim : shim_t}
    {rest : List Byte} (port : BitVec 9) (hop : int_hop_t)
    (hframe : a.frame = ethernet_t.layout.emit e ++ (ipv4_t.layout.emit ip ++
      (udp_t.layout.emit u ++ (shim_t.layout.emit shim ++ rest)))) :
    (ethernet_t.layout.emit e' ++ (ipv4_t.layout.emit ip' ++
        stamped_behind u shim hop rest)).length = a.frame.length + HOP_SIZE ∧
      Departure.entry ⟨port, a.frame, ethernet_t.layout.emit e' ++ (ipv4_t.layout.emit ip' ++
        stamped_behind u shim hop rest)⟩ = some hop := by
  have hudp : udp_t.layout.size = 8 := rfl
  have hshim : shim_t.layout.size = 4 := rfl
  have hhop : int_hop_t.layout.size = HOP_SIZE := rfl
  have hlen : (ethernet_t.layout.emit e' ++ (ipv4_t.layout.emit ip' ++
      stamped_behind u shim hop rest)).length = a.frame.length + HOP_SIZE := by
    rw [hframe, length_headers, length_headers]
    simp only [stamped_behind, List.length_append, Layout.emit_length, hhop]
    omega
  refine ⟨hlen, ?_⟩
  -- behind the shim the newest entry comes first
  have hdrop : (ethernet_t.layout.emit e' ++ (ipv4_t.layout.emit ip' ++
      stamped_behind u shim hop rest)).drop HOPS_OFFSET = int_hop_t.layout.emit hop ++ rest := by
    have h := drop_headers e' ip' (stamped_behind u shim hop rest) 12
    rw [show HOPS_OFFSET = ETHERNET_SIZE + IPV4_SIZE + 12 from rfl, h, stamped_behind,
      ← List.append_assoc, List.drop_left' (by simp [Layout.emit_length, hudp, hshim])]
  rw [Departure.entry, if_pos hlen, hdrop, Layout.extract_emit]
  rfl

/-- A packet that has not grown carries no entry of this switch. -/
theorem entry_plain {d : Departure} (h : d.sent.length = d.frame.length) : d.entry = none := by
  have hne : ¬ d.sent.length = d.frame.length + HOP_SIZE := by
    simp only [HOP_SIZE]
    omega
  exact if_neg hne

theorem transmit_eq {r' : HpccRegisters} {sent : List Byte}
    (h : HpccSwitch.process ⟨a.table, r⟩ a.std_meta a.frame = (r', some sent)) :
    transmit r a = (r', some ⟨a.egress_port, a.frame, sent⟩) := by
  rw [transmit, h]
  rfl

/-- The packet is stamped: ingress lets it through, and egress takes it for a data packet
with room. -/
def Arrival.IntStamped (a : Arrival) : Prop :=
  Stamped a.frame ∧ ∃ ip, ip ∈ (CommonParser a.frame).hdr.ipv4 ∧ Passes a.table ip

/-- A packet that is stamped leaves 26 bytes longer, with the entry, and its port's counter is
told. -/
theorem transmit_stamped (r : HpccRegisters) (hip : (CommonParser a.frame).hdr.ipv4 = some ip)
    (hpass : Passes a.table ip) (hs : Stamped a.frame) :
    ∃ d : Departure, (transmit r a).2 = some d ∧ d.frame = a.frame ∧
      d.egress_port = (ipv4_lpm a.table ip.dst_addr).egress_spec ∧
      d.sent.length = a.frame.length + HOP_SIZE ∧
      d.entry = some (HpccSwitch.entry ⟨a.table, r⟩ a.std_meta ip.dst_addr) ∧
      (transmit r a).1.counter = if HasCell d.egress_port
        then Function.update r.counter d.egress_port
          (HpccSwitch.entry ⟨a.table, r⟩ a.std_meta ip.dst_addr).tx_byte_count
        else r.counter := by
  obtain ⟨e, u, shim, rest, -, -, -, hframe, hout⟩ :=
    process_stamped ⟨a.table, r⟩ a.std_meta hip hpass hs
  have hport := egress_port_of_passes hip hpass
  obtain ⟨hlen, hentry⟩ := entry_stamped (a := a) a.egress_port
    (HpccSwitch.entry ⟨a.table, r⟩ a.std_meta ip.dst_addr) hframe
  refine ⟨⟨a.egress_port, a.frame, _⟩, congrArg Prod.snd (transmit_eq hout), rfl, hport, hlen,
    hentry, ?_⟩
  have hregs := congrArg (fun x => x.1.counter) (transmit_eq hout)
  exact hregs.trans (hport ▸ counter_write _ _ _)

/-- Any other is dropped, or leaves as long as it came; the registers stay. -/
theorem transmit_plain (r : HpccRegisters) (h : ¬ a.IntStamped) :
    (transmit r a).1 = r ∧ ∀ d, (transmit r a).2 = some d →
      d.frame = a.frame ∧ ¬ Stamped a.frame ∧ d.sent.length = a.frame.length ∧ d.entry = none := by
  cases hip : (CommonParser a.frame).hdr.ipv4 with
  | none =>
      -- a data packet has an IPv4 header
      have hns : ¬ Stamped a.frame := by
        rintro ⟨hdata, shim, hshim, -⟩
        obtain ⟨o, hops, hle, -, -, -, hip', -⟩ :=
          (extracted_parse a.frame).data_headers hdata hshim
        rw [hip] at hip'
        cases hip'
      have hout := transmit_eq (process_no_ipv4 ⟨a.table, r⟩ a.std_meta hip)
      refine ⟨congrArg Prod.fst hout, ?_⟩
      intro d hd
      rw [hout] at hd
      cases hd
      exact ⟨rfl, hns, rfl, entry_plain rfl⟩
  | some ip =>
      by_cases hpass : Passes a.table ip
      · have hns : ¬ Stamped a.frame := fun hs => h ⟨hs, ip, hip, hpass⟩
        obtain ⟨e, he, -, hframe⟩ := split_ipv4 hip
        have hout := transmit_eq (process_plain ⟨a.table, r⟩ a.std_meta he hip hpass hns)
        have hlen : (plain (ipv4_lpm a.table ip.dst_addr) e ip
            (behind (CommonParser a.frame).hdr ++ (CommonParser a.frame).pkt)).length
            = a.frame.length := by
          rw [plain, length_headers, congrArg List.length hframe, length_headers]
        refine ⟨congrArg Prod.fst hout, ?_⟩
        intro d hd
        rw [hout] at hd
        cases hd
        exact ⟨rfl, hns, hlen, entry_plain hlen⟩
      · have hout : transmit r a = (r, none) := by
          unfold transmit HpccSwitch.process HpccIngress
          rw [V1Switch_of_not_passes rfl hip hpass]
          rfl
        rw [hout]
        refine ⟨rfl, ?_⟩
        intro d hd
        cases hd

/-- What becomes of a packet: dropped; or gone as long as it came, and the counters stay; or
stamped, 26 bytes longer, and its port's counter is told. -/
theorem transmit_cases (r : HpccRegisters) (hm : a.Measured) :
    ((transmit r a).2 = none ∧ (transmit r a).1 = r) ∨
    (∃ d : Departure, (transmit r a).2 = some d ∧ (transmit r a).1 = r ∧ d.frame = a.frame ∧
      ¬ Stamped a.frame ∧ d.sent.length = a.frame.length ∧ d.entry = none) ∨
    ∃ (d : Departure) (hop : int_hop_t), (transmit r a).2 = some d ∧ d.frame = a.frame ∧
      Stamped a.frame ∧ d.sent.length = a.frame.length + HOP_SIZE ∧ d.entry = some hop ∧
      hop.tx_byte_count = r.counter d.egress_port + BitVec.ofNat 48 d.sent.length ∧
      (transmit r a).1.counter = if HasCell d.egress_port
        then Function.update r.counter d.egress_port hop.tx_byte_count else r.counter := by
  by_cases h : a.IntStamped
  · obtain ⟨hs, ip, hip, hpass⟩ := h
    obtain ⟨d, hd, hframe, hport, hlen, hentry, hcounter⟩ := transmit_stamped r hip hpass hs
    -- the entry carries the counter, the packet itself included
    have hcount := entry_count (r := r) hm ip.dst_addr
    rw [← hport, ← hlen] at hcount
    exact Or.inr (Or.inr ⟨d, _, hd, hframe, hs, hlen, hentry, hcount, hcounter⟩)
  · obtain ⟨hr, hgone⟩ := transmit_plain r h
    cases hd : (transmit r a).2 with
    | none => exact Or.inl ⟨rfl, hr⟩
    | some d => exact Or.inr (Or.inl ⟨d, rfl, hr, hgone d hd⟩)

/-! ## A run -/

/-- A departure, as the meters see it. -/
def Departure.passing (d : Departure) : Passing (BitVec 9) (BitVec 48) where
  key := d.egress_port
  size := BitVec.ofNat 48 d.sent.length
  shown := d.entry.map int_hop_t.tx_byte_count

/-- The switch is a bank of meters, one for each port that has a cell. -/
theorem metered_departures (r : HpccRegisters) (arrivals : List Arrival)
    (hm : ∀ a ∈ arrivals, a.Measured) :
    Metered HasCell r.counter ((departures r arrivals).map Departure.passing) := by
  induction arrivals generalizing r with
  | nil => trivial
  | cons a as ih =>
      have hrest := fun r => ih r fun b hb => hm b (List.mem_cons_of_mem a hb)
      have ha := hm a List.mem_cons_self
      rw [departures]
      rcases transmit_cases r ha with ⟨hd, hr⟩ | ⟨d, hd, hr, -, -, -, hnone⟩ |
        ⟨d, hop, hd, -, -, -, hsome, hcount, hr⟩
      · -- no packet leaves: the meter does not move
        rw [hd, hr]
        exact hrest r
      · rw [hd, hr]
        -- one leaves without an entry: nothing is shown and the cell keeps its count
        refine ⟨fun v hv => ?_, ?_⟩
        · simp [Departure.passing, hnone] at hv
        · have hkeep : advance HasCell r.counter d.passing = r.counter := by
            simp [advance, Departure.passing, hnone]
          rw [hkeep]
          exact hrest r
      · rw [hd]
        refine ⟨fun v hv => ?_, ?_⟩
        · rw [Departure.passing, hsome, Option.map_some, Option.some.injEq] at hv
          exact hv.symm.trans hcount
        · -- one leaves with an entry: it is counted first, and shows the count with itself in
          have htold : advance HasCell r.counter d.passing = (transmit r a).1.counter := by
            rw [hr]
            simp only [advance, Departure.passing, hsome, Option.map_some]
          rw [htold]
          exact hrest _

/-- What leaves carries an entry exactly if it is stamped. -/
theorem entry_iff_stamped {r : HpccRegisters} {arrivals : List Arrival}
    (hm : ∀ a ∈ arrivals, a.Measured) {d : Departure} (h : d ∈ departures r arrivals) :
    (¬ Stamped d.frame → d.entry = none ∧ d.sent.length = d.frame.length) ∧
      (Stamped d.frame → d.entry ≠ none ∧ d.sent.length = d.frame.length + HOP_SIZE) := by
  induction arrivals generalizing r with
  | nil => cases h
  | cons a as ih =>
      have ha := hm a List.mem_cons_self
      rw [departures, List.mem_append] at h
      rcases h with h | h
      · -- this arrival's departure, if it has one, or one of a later arrival
        rcases transmit_cases r ha with ⟨hd, -⟩ | ⟨d', hd, -, hframe, hs, hlen, hnone⟩ |
          ⟨d', hop, hd, hframe, hs, hlen, hsome, -⟩
        · rw [hd] at h
          cases h
        · rw [hd, Option.toList_some, List.mem_singleton] at h
          subst h
          rw [hframe]
          exact ⟨fun _ => ⟨hnone, hlen⟩, fun h' => absurd h' hs⟩
        · rw [hd, Option.toList_some, List.mem_singleton] at h
          subst h
          rw [hframe, hsome]
          exact ⟨fun h' => absurd hs h', fun _ => ⟨nofun, hlen⟩⟩
      · exact ih (fun b hb => hm b (List.mem_cons_of_mem a hb)) h

/-! ## What two entries differ by -/

instance (frame : List Byte) : Decidable (Stamped frame) :=
  inferInstanceAs (Decidable ((CommonParser frame).metadata.is_data = 1#1 ∧
    ∃ shim, shim ∈ (CommonParser frame).hdr.shim ∧ shim.hop_count.toNat < MAX_HOPS))

/-- The bytes of the packets on a port that are not stamped. -/
def bytes_not_stamped (port : BitVec 9) (l : List Departure) : ℕ :=
  ((l.filter fun d => d.egress_port = port ∧ ¬ Stamped d.frame).map fun d => d.frame.length).sum

theorem ofNat_sum (l : List ℕ) : (l.map (BitVec.ofNat 48)).sum = BitVec.ofNat 48 l.sum := by
  induction l with
  | nil => rfl
  | cons n l ih => rw [List.map_cons, List.sum_cons, List.sum_cons, ih, BitVec.ofNat_add]

theorem total_passing (port : BitVec 9) (l : List Departure) :
    total port (l.map Departure.passing) = BitVec.ofNat 48 (bytes_sent port l) := by
  rw [total, bytes_sent, ← ofNat_sum, List.filter_map, List.map_map, List.map_map]
  rfl

theorem unread_passing (port : BitVec 9) {l : List Departure}
    (h : ∀ d ∈ l, (¬ Stamped d.frame → d.entry = none ∧ d.sent.length = d.frame.length) ∧
      (Stamped d.frame → d.entry ≠ none ∧ d.sent.length = d.frame.length + HOP_SIZE)) :
    unread port (l.map Departure.passing) = BitVec.ofNat 48 (bytes_not_stamped port l) := by
  induction l with
  | nil => rfl
  | cons d l ih =>
      have hd := h d List.mem_cons_self
      rw [List.map_cons, unread_cons, ih fun d' hd' => h d' (List.mem_cons_of_mem d hd')]
      by_cases hs : Stamped d.frame
      · -- the meter has been told
        have hread : ¬ (d.passing.key = port ∧ d.passing.shown = none) := by
          rintro ⟨-, hnone⟩
          exact (hd.2 hs).1 (Option.map_eq_none_iff.mp hnone)
        rw [if_neg hread, zero_add, bytes_not_stamped, bytes_not_stamped,
          List.filter_cons_of_neg (by simp [hs])]
      · obtain ⟨hnone, hlen⟩ := hd.1 hs
        by_cases hport : d.egress_port = port
        · have hunread : d.passing.key = port ∧ d.passing.shown = none :=
            ⟨hport, Option.map_eq_none_iff.mpr hnone⟩
          rw [if_pos hunread, bytes_not_stamped, bytes_not_stamped,
            List.filter_cons_of_pos (by simp [hs, hport]), List.map_cons, List.sum_cons,
            BitVec.ofNat_add, ← hlen]
          rfl
        · have hread : ¬ (d.passing.key = port ∧ d.passing.shown = none) := fun h => hport h.1
          rw [if_neg hread, zero_add, bytes_not_stamped, bytes_not_stamped,
            List.filter_cons_of_neg (by simp [hport])]

theorem ofNat_eq_zero_iff (n : ℕ) : BitVec.ofNat 48 n = 0 ↔ 2 ^ 48 ∣ n := by
  rw [← BitVec.toNat_inj, BitVec.toNat_ofNat, Nat.dvd_iff_mod_eq_zero]
  rfl

/-- Nothing left the port uncounted behind the first entry. For a port without a cell
nothing is ever counted, the first packet included. -/
def AllCounted (d : Departure) (between : List Departure) : Prop :=
  if HasCell d.egress_port then 2 ^ 48 ∣ bytes_not_stamped d.egress_port between
  else 2 ^ 48 ∣ d.frame.length + HOP_SIZE + bytes_sent d.egress_port between

/-- **What two entries of a port differ by** is what the port transmitted from the one
packet to the other, exactly when nothing left it uncounted. For every run, whatever the
tables, the registers, the ports and the kinds of packets. -/
theorem counter_measures_port_iff (r : HpccRegisters) (arrivals : List Arrival)
    (hm : ∀ a ∈ arrivals, a.Measured) {l₁ l₂ l₃ : List Departure} {d₁ d₂ : Departure}
    {hop₁ hop₂ : int_hop_t} (hlog : departures r arrivals = l₁ ++ d₁ :: (l₂ ++ d₂ :: l₃))
    (he₁ : d₁.entry = some hop₁) (he₂ : d₂.entry = some hop₂)
    (hport : d₁.egress_port = d₂.egress_port) :
    (hop₂.tx_byte_count - hop₁.tx_byte_count).toNat
        = bytes_sent d₁.egress_port (l₂ ++ [d₂]) % 2 ^ 48 ↔ AllCounted d₁ l₂ := by
  have hmeter := metered_departures r arrivals hm
  have hall : ∀ d ∈ departures r arrivals, _ := fun d hd => entry_iff_stamped hm hd
  rw [hlog] at hmeter hall
  simp only [List.map_append, List.map_cons] at hmeter
  have hshown₁ : d₁.passing.shown = some hop₁.tx_byte_count := by
    simp [Departure.passing, he₁]
  have hshown₂ : d₂.passing.shown = some hop₂.tx_byte_count := by
    simp [Departure.passing, he₂]
  -- both sides count bytes modulo `2 ^ 48`, the width of the counter
  have htotal : ∀ v : BitVec 48, v.toNat = bytes_sent d₁.egress_port (l₂ ++ [d₂]) % 2 ^ 48 ↔
      v = total d₂.passing.key (l₂.map Departure.passing ++ [d₂.passing]) := by
    intro v
    have hmap : l₂.map Departure.passing ++ [d₂.passing]
        = (l₂ ++ [d₂]).map Departure.passing := by simp
    rw [hmap, total_passing, ← BitVec.toNat_inj, BitVec.toNat_ofNat, hport]
    rfl
  have hkey : d₁.egress_port = d₂.passing.key := hport
  rw [htotal, AllCounted]
  -- a register without the cell drops the write, so the next entry starts from zero
  by_cases hcell : HasCell d₁.egress_port
  · have hbetween : ∀ d ∈ l₂, _ := fun d hd => hall d (by simp [hd])
    rw [if_pos hcell, kept_measures_iff hmeter hshown₁ hshown₂ hport (hkey ▸ hcell),
      unread_passing _ hbetween, ofNat_eq_zero_iff, hport]
    rfl
  · have hstamped : d₁.sent.length = d₁.frame.length + HOP_SIZE := by
      have h₁ := hall d₁ (by simp)
      by_cases hs : Stamped d₁.frame
      · exact (h₁.2 hs).2
      · rw [(h₁.1 hs).1] at he₁
        cases he₁
    rw [if_neg hcell, not_kept_measures_iff hmeter hshown₁ hshown₂ hport (hkey ▸ hcell),
      total_passing, ← hstamped, hport, ← ofNat_eq_zero_iff, BitVec.ofNat_add]
    rfl

/-! ## Two data packets, with and without an ACK in between -/

/-- A frame of a host, with the right length in its metadata. -/
def host_arrival (frame : List Byte) : Arrival where
  table := (one_way_switch 1#16).table
  std_meta := { idle_meta with packet_length := BitVec.ofNat 32 frame.length }
  frame := frame

/-- The ACK of packet 7, for a host behind the same port. -/
def ack_seven : List Byte :=
  ethernet_t.layout.emit frame_seven.ethernet ++ (ipv4_t.layout.emit frame_seven.ipv4 ++
    (udp_t.layout.emit { frame_seven.udp with dst_port := ACK_PORT } ++
      (shim_t.layout.emit ⟨0#8, 0#8, 4#8, 0#8⟩ ++
        ack_payload_t.layout.emit ⟨7#32, 2000#64, 0#32⟩)))

theorem frame_seven_parse :
    (CommonParser frame_seven.bytes).hdr.ipv4 = some frame_seven.ipv4 ∧
      Stamped frame_seven.bytes ∧
      (host_arrival frame_seven.bytes).Measured ∧ frame_seven.bytes.length = 64 := by
  have hmeasured : (host_arrival frame_seven.bytes).Measured := by
    unfold Arrival.Measured
    decide
  refine ⟨?_, ?_, hmeasured, ?_⟩
  · decide +kernel
  · decide +kernel
  · decide

theorem ack_seven_parse :
    (CommonParser ack_seven).hdr.ipv4 = some frame_seven.ipv4 ∧ ¬ Stamped ack_seven ∧
      (host_arrival ack_seven).Measured ∧ ack_seven.length = 62 := by
  have hmeasured : (host_arrival ack_seven).Measured := by
    unfold Arrival.Measured
    decide
  refine ⟨?_, ?_, hmeasured, ?_⟩
  · decide +kernel
  · decide +kernel
  · decide

theorem frame_seven_passes :
    Passes (one_way_switch 1#16).table frame_seven.ipv4 ∧
      (ipv4_lpm (one_way_switch 1#16).table frame_seven.ipv4.dst_addr).egress_spec = 2#9 := by
  rw [Passes, one_way_switch_lpm]
  exact ⟨⟨by decide, by decide⟩, rfl⟩

/-- Whatever the host sends to that address leaves by port 2. -/
theorem host_leaves {frame : List Byte} (r : HpccRegisters)
    (hip : (CommonParser frame).hdr.ipv4 = some frame_seven.ipv4) :
    (transmit r (host_arrival frame)).2 ≠ none ∧
      ∀ d, (transmit r (host_arrival frame)).2 = some d → d.egress_port = 2#9 := by
  obtain ⟨hpass, hspec⟩ := frame_seven_passes
  have hpass' : Passes (host_arrival frame).table frame_seven.ipv4 := hpass
  constructor
  · have hout : (HpccSwitch.process ⟨(one_way_switch 1#16).table, r⟩
        (host_arrival frame).std_meta frame).2 ≠ none := by
      unfold HpccSwitch.process HpccIngress
      rw [V1Switch_of_passes rfl hip hpass]
      nofun
    exact fun hnone => hout (Option.map_eq_none_iff.mp hnone)
  · intro d hd
    obtain ⟨sent, -, hsent⟩ := Option.map_eq_some_iff.mp hd
    rw [← hsent]
    exact (egress_port_of_passes (a := host_arrival frame) hip hpass').trans hspec

theorem host_data (r : HpccRegisters) :
    ∃ (d : Departure) (hop : int_hop_t),
      (transmit r (host_arrival frame_seven.bytes)).2 = some d ∧ d.egress_port = 2#9 ∧
      d.frame = frame_seven.bytes ∧ d.sent.length = 90 ∧ d.entry = some hop ∧
      hop.tx_byte_count = r.counter 2#9 + 90#48 ∧
      (transmit r (host_arrival frame_seven.bytes)).1.counter 2#9 = hop.tx_byte_count := by
  obtain ⟨hip, hs, hm, hlen⟩ := frame_seven_parse
  obtain ⟨hsome, hport⟩ := host_leaves r hip
  rcases transmit_cases r hm with ⟨hd, -⟩ | ⟨d, -, -, -, hns, -⟩ |
    ⟨d, hop, hd, hframe, -, hsent, hentry, hcount, hr⟩
  · exact absurd hd hsome
  · exact absurd hs hns
  · have hsent' : d.sent.length = 90 := hsent.trans (congrArg (· + HOP_SIZE) hlen)
    rw [hport d hd, hsent'] at hcount
    rw [hport d hd] at hr
    refine ⟨d, hop, hd, hport d hd, hframe, hsent', hentry, hcount, ?_⟩
    rw [hr, if_pos (by decide), Function.update_self]

theorem host_ack (r : HpccRegisters) :
    ∃ d : Departure, (transmit r (host_arrival ack_seven)).2 = some d ∧
      (transmit r (host_arrival ack_seven)).1 = r ∧ d.egress_port = 2#9 ∧
      d.sent.length = 62 := by
  obtain ⟨hip, hns, hm, hlen⟩ := ack_seven_parse
  obtain ⟨hsome, hport⟩ := host_leaves r hip
  rcases transmit_cases r hm with ⟨hd, -⟩ | ⟨d, hd, hr, -, -, hsent, -⟩ | ⟨d, hop, -, -, hs, -⟩
  · exact absurd hd hsome
  · exact ⟨d, hd, hr, hport d hd, hsent.trans hlen⟩
  · exact absurd hs hns

/-- Two data packets in a row: the entries differ by the second. -/
theorem counter_measures_two_data :
    ∃ (d₁ d₂ : Departure) (hop₁ hop₂ : int_hop_t),
      departures (one_way_switch 1#16).registers
        [host_arrival frame_seven.bytes, host_arrival frame_seven.bytes] = [d₁, d₂] ∧
      d₁.entry = some hop₁ ∧ d₂.entry = some hop₂ ∧
      (hop₂.tx_byte_count - hop₁.tx_byte_count).toNat
        = bytes_sent d₁.egress_port ([] ++ [d₂]) % 2 ^ 48 := by
  obtain ⟨d₁, hop₁, hd₁, hport₁, -, -, hentry₁, -⟩ := host_data (one_way_switch 1#16).registers
  obtain ⟨d₂, hop₂, hd₂, hport₂, -, -, hentry₂, -⟩ :=
    host_data (transmit (one_way_switch 1#16).registers (host_arrival frame_seven.bytes)).1
  have hlog : departures (one_way_switch 1#16).registers
      [host_arrival frame_seven.bytes, host_arrival frame_seven.bytes] = [d₁, d₂] := by
    simp only [departures, hd₁, hd₂]
    rfl
  have hm : ∀ a ∈ [host_arrival frame_seven.bytes, host_arrival frame_seven.bytes],
      a.Measured := by
    simp [frame_seven_parse.2.2.1]
  have hall : AllCounted d₁ [] := by
    rw [AllCounted, hport₁, if_pos (by decide)]
    exact dvd_zero _
  have hsplit : departures (one_way_switch 1#16).registers
      [host_arrival frame_seven.bytes, host_arrival frame_seven.bytes]
      = [] ++ d₁ :: ([] ++ d₂ :: []) := hlog
  exact ⟨d₁, d₂, hop₁, hop₂, hlog, hentry₁, hentry₂,
    (counter_measures_port_iff _ _ hm hsplit hentry₁ hentry₂
      (hport₁.trans hport₂.symm)).mpr hall⟩

/-- An ACK in between is in what the port transmitted and not in the counter. -/
theorem counter_misses_ack :
    ∃ (d₁ d₂ d₃ : Departure) (hop₁ hop₃ : int_hop_t),
      departures (one_way_switch 1#16).registers [host_arrival frame_seven.bytes,
        host_arrival ack_seven, host_arrival frame_seven.bytes] = [d₁, d₂, d₃] ∧
      d₁.entry = some hop₁ ∧ d₃.entry = some hop₃ ∧ d₁.egress_port = d₃.egress_port ∧
      (hop₃.tx_byte_count - hop₁.tx_byte_count).toNat
        ≠ bytes_sent d₁.egress_port ([d₂] ++ [d₃]) % 2 ^ 48 := by
  obtain ⟨d₁, hop₁, hd₁, hport₁, -, -, hentry₁, -, hcounter⟩ :=
    host_data (one_way_switch 1#16).registers
  obtain ⟨d₂, hd₂, hr, hport₂, hlen₂⟩ :=
    host_ack (transmit (one_way_switch 1#16).registers (host_arrival frame_seven.bytes)).1
  obtain ⟨d₃, hop₃, hd₃, hport₃, -, hlen₃, hentry₃, hcount₃, -⟩ :=
    host_data (transmit (one_way_switch 1#16).registers (host_arrival frame_seven.bytes)).1
  refine ⟨d₁, d₂, d₃, hop₁, hop₃, ?_, hentry₁, hentry₃, hport₁.trans hport₃.symm, ?_⟩
  · simp only [departures, hd₁, hd₂, hr, hd₃]
    rfl
  · -- the ACK's 62 bytes left by the port too, but the counter went up by 90 only
    have hsent : bytes_sent d₁.egress_port ([d₂] ++ [d₃]) = 152 := by
      simp [bytes_sent, hport₁, hport₂, hport₃, hlen₂, hlen₃]
    rw [hsent, hcount₃, hcounter, add_sub_cancel_left]
    decide

end IntHpcc.P4
