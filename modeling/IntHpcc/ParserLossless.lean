/-
`p4src/common/parsers.p4`: the parser and the deparser lose nothing.

`Stage` says, state by state, which headers the parser has by then and what its metadata
are: each `extract` fills the header behind the ones already valid, so emitting the valid
headers in order gives back what was taken (`stage_step`). The hop loop is the one place
with an untrusted count; its stage carries the entries so far and how many the shim still
announces.

`Extracted` is what is left of that once the parser has stopped, wherever it stopped:
truncated in any header, out of bytes among the hops, or with a count the stack has no
room for.
-/
import IntHpcc.IntPath

set_option autoImplicit false

namespace IntHpcc.P4

open IntHpcc.Bytes IntHpcc.HeaderLayout

/-! ## Which headers a parse can leave -/

/-- The two kinds of packets with a shim. -/
inductive Kind
  | data
  | ack
  deriving DecidableEq

def Kind.port : Kind → BitVec 16
  | .data => DATA_PORT
  | .ack => ACK_PORT

/-- The metadata while `n` entries are still announced. -/
def Kind.metadata (k : Kind) (n : BitVec 8) : metadata_t :=
  match k with
  | .data =>
    { parsed_hop_count := n
      is_data := 1#1 }
  | .ack =>
    { parsed_hop_count := n
      is_ack := 1#1 }

/-- The headers up to UDP. -/
structure Outer where
  ethernet : ethernet_t
  ipv4 : ipv4_t
  udp : udp_t
  is_ipv4 : ethernet.ethertype = ETHERTYPE_IPV4
  is_udp : ipv4.protocol = IP_PROTO_UDP

def Outer.headers (o : Outer) : headers_t where
  ethernet := some o.ethernet
  ipv4 := some o.ipv4
  udp := some o.udp

/-- The headers up to the hop stack. -/
def Outer.stacked (o : Outer) (shim : shim_t) (hops : List int_hop_t)
    (hle : hops.length ≤ MAX_HOPS) : headers_t :=
  { o.headers with
    shim := some shim
    hops := .holding hops hle }

/-- The headers and the metadata a parse can end with. -/
inductive Extracted : headers_t → metadata_t → Prop
  | nothing : Extracted {} {}
  | ethernet (e : ethernet_t) : Extracted { ethernet := some e } {}
  | ipv4 (e : ethernet_t) (ip : ipv4_t) (he : e.ethertype = ETHERTYPE_IPV4) :
      Extracted { ethernet := some e, ipv4 := some ip } {}
  | udp (o : Outer) : Extracted o.headers {}
  | stack (k : Kind) (o : Outer) (shim : shim_t) (hops : List int_hop_t)
      (hle : hops.length ≤ MAX_HOPS) (n : BitVec 8) (hport : o.udp.dst_port = k.port)
      (hcount : hops.length + n.toNat = shim.hop_count.toNat) :
      Extracted (o.stacked shim hops hle) (k.metadata n)
  | data (o : Outer) (shim : shim_t) (hops : List int_hop_t) (hle : hops.length ≤ MAX_HOPS)
      (d : data_payload_t) (hport : o.udp.dst_port = DATA_PORT)
      (hcount : hops.length = shim.hop_count.toNat) :
      Extracted { o.stacked shim hops hle with data := some d } (Kind.data.metadata 0#8)
  | ack (o : Outer) (shim : shim_t) (hops : List int_hop_t) (hle : hops.length ≤ MAX_HOPS)
      (a : ack_payload_t) (hport : o.udp.dst_port = ACK_PORT)
      (hcount : hops.length = shim.hop_count.toNat) :
      Extracted { o.stacked shim hops hle with ack := some a } (Kind.ack.metadata 0#8)

/-- What the parser has in each of its states. -/
inductive Stage : ParserState → headers_t → metadata_t → Prop
  | start : Stage .start {} {}
  | ethernet : Stage .parse_ethernet {} {}
  | ipv4 (e : ethernet_t) (he : e.ethertype = ETHERTYPE_IPV4) :
      Stage .parse_ipv4 { ethernet := some e } {}
  | udp (e : ethernet_t) (ip : ipv4_t) (he : e.ethertype = ETHERTYPE_IPV4)
      (hip : ip.protocol = IP_PROTO_UDP) :
      Stage .parse_udp { ethernet := some e, ipv4 := some ip } {}
  | shim_data (o : Outer) (hport : o.udp.dst_port = DATA_PORT) :
      Stage .parse_shim_data o.headers {}
  | shim_ack (o : Outer) (hport : o.udp.dst_port = ACK_PORT) :
      Stage .parse_shim_ack o.headers {}
  | hops (k : Kind) (o : Outer) (shim : shim_t) (hops : List int_hop_t)
      (hle : hops.length ≤ MAX_HOPS) (n : BitVec 8) (hport : o.udp.dst_port = k.port)
      (hcount : hops.length + n.toNat = shim.hop_count.toNat) :
      Stage .parse_hops (o.stacked shim hops hle) (k.metadata n)
  | one_hop (k : Kind) (o : Outer) (shim : shim_t) (hops : List int_hop_t)
      (hle : hops.length ≤ MAX_HOPS) (n : BitVec 8) (hport : o.udp.dst_port = k.port)
      (hcount : hops.length + n.toNat = shim.hop_count.toNat) (hpos : n ≠ 0#8) :
      Stage .parse_one_hop (o.stacked shim hops hle) (k.metadata n)
  | payload (k : Kind) (o : Outer) (shim : shim_t) (hops : List int_hop_t)
      (hle : hops.length ≤ MAX_HOPS) (hport : o.udp.dst_port = k.port)
      (hcount : hops.length = shim.hop_count.toNat) :
      Stage .parse_payload (o.stacked shim hops hle) (k.metadata 0#8)
  | data_payload (o : Outer) (shim : shim_t) (hops : List int_hop_t)
      (hle : hops.length ≤ MAX_HOPS) (hport : o.udp.dst_port = DATA_PORT)
      (hcount : hops.length = shim.hop_count.toNat) :
      Stage .parse_data_payload (o.stacked shim hops hle) (Kind.data.metadata 0#8)
  | ack_payload (o : Outer) (shim : shim_t) (hops : List int_hop_t)
      (hle : hops.length ≤ MAX_HOPS) (hport : o.udp.dst_port = ACK_PORT)
      (hcount : hops.length = shim.hop_count.toNat) :
      Stage .parse_ack_payload (o.stacked shim hops hle) (Kind.ack.metadata 0#8)
  | accept {hdr : headers_t} {metadata : metadata_t} (h : Extracted hdr metadata) :
      Stage .accept hdr metadata
  | reject {hdr : headers_t} {metadata : metadata_t} (h : Extracted hdr metadata) :
      Stage .reject hdr metadata

/-- A parse that ends in any stage leaves what `Extracted` says. -/
theorem Stage.extracted {s : ParserState} {hdr : headers_t} {metadata : metadata_t}
    (h : Stage s hdr metadata) : Extracted hdr metadata := by
  cases h with
  | start => exact .nothing
  | ethernet => exact .nothing
  | ipv4 e he => exact .ethernet e
  | udp e ip he hip => exact .ipv4 e ip he
  | shim_data o hport => exact .udp o
  | shim_ack o hport => exact .udp o
  | hops k o shim hops hle n hport hcount => exact .stack k o shim hops hle n hport hcount
  | one_hop k o shim hops hle n hport hcount hpos => exact .stack k o shim hops hle n hport hcount
  | payload k o shim hops hle hport hcount =>
      exact .stack k o shim hops hle 0#8 hport hcount
  | data_payload o shim hops hle hport hcount =>
      exact .stack .data o shim hops hle 0#8 hport hcount
  | ack_payload o shim hops hle hport hcount =>
      exact .stack .ack o shim hops hle 0#8 hport hcount
  | accept h => exact h
  | reject h => exact h

/-! ## One state -/

/-- The step keeps the stage and, read as bytes, the packet. -/
def StepOk (p q : Parse) : Prop :=
  Stage q.state q.hdr q.metadata ∧
    CommonDeparser q.hdr ++ q.pkt = CommonDeparser p.hdr ++ p.pkt

section

variable {p : Parse}

theorem stepOk_fail (h : Stage p.state p.hdr p.metadata) (e : ParserError) :
    StepOk p (p.fail e) := ⟨.reject h.extracted, rfl⟩

/-- An `extract`: it fails, or the header it fills is emitted behind the others. -/
theorem stepOk_extract {α : Type} {L : Layout α} {k : α → Parse → Parse}
    (h : Stage p.state p.hdr p.metadata)
    (hk : ∀ a rest, Stage (k a { p with pkt := rest }).state (k a { p with pkt := rest }).hdr
        (k a { p with pkt := rest }).metadata ∧
      CommonDeparser (k a { p with pkt := rest }).hdr = CommonDeparser p.hdr ++ L.emit a ∧
      (k a { p with pkt := rest }).pkt = rest) :
    StepOk p (p.extract L k) := by
  unfold Parse.extract
  cases hx : L.extract p.pkt with
  | none => exact stepOk_fail h _
  | some v =>
      obtain ⟨a, rest⟩ := v
      obtain ⟨hstage, hemit, hrest⟩ := hk a rest
      refine ⟨hstage, ?_⟩
      rw [hemit, hrest, List.append_assoc, Layout.emit_of_extract hx]

end

/-! ### What the stages emit -/

theorem emit_empty : HopStack.empty.slots.flatMap (emit_valid int_hop_t.layout) = [] := by
  have hnone : ([] : List int_hop_t).length ≤ MAX_HOPS := Nat.zero_le _
  exact emit_holding hnone

theorem deparse_headers (o : Outer) : CommonDeparser o.headers =
    ethernet_t.layout.emit o.ethernet ++
      (ipv4_t.layout.emit o.ipv4 ++ udp_t.layout.emit o.udp) := by
  simp [CommonDeparser, Outer.headers, emit_valid, emit_empty]

theorem deparse_stacked (o : Outer) (shim : shim_t) (hops : List int_hop_t)
    (hle : hops.length ≤ MAX_HOPS) : CommonDeparser (o.stacked shim hops hle) =
      CommonDeparser o.headers ++ (shim_t.layout.emit shim ++ emit_hops hops) := by
  rw [deparse_headers, CommonDeparser, Outer.stacked, emit_holding]
  simp [Outer.headers, emit_valid]

theorem emit_hops_concat (hops : List int_hop_t) (h : int_hop_t) :
    emit_hops (hops ++ [h]) = emit_hops hops ++ int_hop_t.layout.emit h := by
  simp [emit_hops]

/-- One more entry is one less announced. -/
theorem count_pred {m : ℕ} {n c : BitVec 8} (h : m + n.toNat = c.toNat) (hpos : n ≠ 0#8) :
    m + 1 + (n - 1#8).toNat = c.toNat := by
  have hn : n.toNat ≠ 0 := by
    intro h0
    exact hpos (BitVec.eq_of_toNat_eq h0)
  have hlt := n.isLt
  simp only [BitVec.toNat_sub, BitVec.toNat_ofNat]
  omega

/-- One hop: the stack takes it, or is full. -/
theorem stage_one_hop (k : Kind) (o : Outer) (shim : shim_t) (hops : List int_hop_t)
    (hle : hops.length ≤ MAX_HOPS) (n : BitVec 8) (hport : o.udp.dst_port = k.port)
    (hcount : hops.length + n.toNat = shim.hop_count.toNat) (hpos : n ≠ 0#8)
    (pkt : List Byte) (err : ParserError) :
    StepOk ⟨.parse_one_hop, pkt, o.stacked shim hops hle, k.metadata n, err⟩
      (Parse.step ⟨.parse_one_hop, pkt, o.stacked shim hops hle, k.metadata n, err⟩) := by
  -- the stage the state is in, whether or not there is a hop to read
  have hstage := Stage.one_hop k o shim hops hle n hport hcount hpos
  simp only [Parse.step]
  by_cases hfull : (o.stacked shim hops hle).hops.full
  · rw [if_pos hfull]
    exact stepOk_fail hstage _
  · rw [if_neg hfull]
    apply stepOk_extract hstage
    intro h rest
    have hroom : (hops ++ [h]).length ≤ MAX_HOPS := by
      simp only [HopStack.full, Outer.stacked, HopStack.holding] at hfull
      rw [List.length_append, List.length_singleton]
      omega
    have hput : (HopStack.holding hops hle).put_next h = .holding (hops ++ [h]) hroom :=
      HopStack.put_next_holding hroom hle
    have hless : ({ k.metadata n with
        parsed_hop_count := (k.metadata n).parsed_hop_count - 1#8 } : metadata_t)
        = k.metadata (n - 1#8) := by
      cases k <;> rfl
    have hdr_eq : ({ o.stacked shim hops hle with
        hops := (HopStack.holding hops hle).put_next h } : headers_t)
        = o.stacked shim (hops ++ [h]) hroom := by
      rw [hput]
      rfl
    refine ⟨?_, ?_, rfl⟩
    · show Stage .parse_hops { o.stacked shim hops hle with
        hops := (HopStack.holding hops hle).put_next h } _
      rw [hdr_eq, hless]
      refine .hops k o shim _ hroom _ hport ?_
      rw [List.length_append, List.length_singleton]
      exact count_pred hcount hpos
    · show CommonDeparser { o.stacked shim hops hle with
        hops := (HopStack.holding hops hle).put_next h } = _
      rw [hdr_eq, deparse_stacked, deparse_stacked, emit_hops_concat]
      simp only [List.append_assoc]

/-- **One state of the parser** keeps the stage, and what it takes from the packet it can
emit again. -/
theorem stage_step (p : Parse) (h : Stage p.state p.hdr p.metadata) : StepOk p p.step := by
  obtain ⟨state, pkt, hdr, metadata, err⟩ := p
  dsimp only at h
  -- one case per state; each `extract` emits what it has read
  cases h with
  | start => exact ⟨.ethernet, rfl⟩
  | ethernet =>
      apply stepOk_extract .ethernet
      intro e rest
      refine ⟨?_, by simp [CommonDeparser, emit_valid, emit_empty], rfl⟩
      by_cases he : e.ethertype = ETHERTYPE_IPV4
      · simp only [he, if_true]
        exact .ipv4 e he
      · simp only [he, if_false]
        exact .accept (.ethernet e)
  | ipv4 e he =>
      apply stepOk_extract (.ipv4 e he)
      intro ip rest
      refine ⟨?_, by simp [CommonDeparser, emit_valid, emit_empty], rfl⟩
      by_cases hip : ip.protocol = IP_PROTO_UDP
      · simp only [hip, if_true]
        exact .udp e ip he hip
      · simp only [hip, if_false]
        exact .accept (.ipv4 e ip he)
  | udp e ip he hip =>
      apply stepOk_extract (.udp e ip he hip)
      intro u rest
      refine ⟨?_, by simp [CommonDeparser, emit_valid, emit_empty], rfl⟩
      by_cases hdata : u.dst_port = DATA_PORT
      · simp only [hdata, if_true]
        exact .shim_data ⟨e, ip, u, he, hip⟩ hdata
      · by_cases hack : u.dst_port = ACK_PORT
        · simp only [hack, if_true]
          exact .shim_ack ⟨e, ip, u, he, hip⟩ hack
        · simp only [if_neg hdata, if_neg hack]
          exact .accept (.udp ⟨e, ip, u, he, hip⟩)
  | shim_data o hport =>
      apply stepOk_extract (.shim_data o hport)
      intro shim rest
      refine ⟨?_, ?_, rfl⟩
      · exact .hops .data o shim [] (Nat.zero_le _) shim.hop_count hport (Nat.zero_add _)
      · exact (deparse_stacked o shim [] (Nat.zero_le _)).trans (by simp [emit_hops])
  | shim_ack o hport =>
      apply stepOk_extract (.shim_ack o hport)
      intro shim rest
      refine ⟨?_, ?_, rfl⟩
      · exact .hops .ack o shim [] (Nat.zero_le _) shim.hop_count hport (Nat.zero_add _)
      · exact (deparse_stacked o shim [] (Nat.zero_le _)).trans (by simp [emit_hops])
  | hops k o shim hops hle n hport hcount =>
      refine ⟨?_, rfl⟩
      have hn : (k.metadata n).parsed_hop_count = n := by
        cases k <;> rfl
      simp only [Parse.step, hn]
      by_cases hz : n = 0#8
      · rw [if_pos hz, hz]
        rw [hz] at hcount
        exact .payload k o shim hops hle hport hcount
      · rw [if_neg hz]
        exact .one_hop k o shim hops hle n hport hcount hz
  | one_hop k o shim hops hle n hport hcount hpos =>
      exact stage_one_hop k o shim hops hle n hport hcount hpos pkt err
  | payload k o shim hops hle hport hcount =>
      refine ⟨?_, rfl⟩
      cases k with
      | data => exact .data_payload o shim hops hle hport hcount
      | ack => exact .ack_payload o shim hops hle hport hcount
  | data_payload o shim hops hle hport hcount =>
      apply stepOk_extract (.data_payload o shim hops hle hport hcount)
      intro d rest
      refine ⟨.accept (.data o shim hops hle d hport hcount), ?_, rfl⟩
      simp [CommonDeparser, Outer.stacked, Outer.headers, emit_valid]
  | ack_payload o shim hops hle hport hcount =>
      apply stepOk_extract (.ack_payload o shim hops hle hport hcount)
      intro a rest
      refine ⟨.accept (.ack o shim hops hle a hport hcount), ?_, rfl⟩
      simp [CommonDeparser, Outer.stacked, Outer.headers, emit_valid]
  | accept h => exact ⟨.accept h, rfl⟩
  | reject h => exact ⟨.reject h, rfl⟩

/-! ## The whole parse -/

theorem stage_iterate (n : ℕ) {p : Parse} (h : Stage p.state p.hdr p.metadata) :
    StepOk p (Parse.step^[n] p) := by
  induction n with
  | zero => exact ⟨h, rfl⟩
  | succ n ih =>
      rw [Function.iterate_succ_apply']
      obtain ⟨hstage, hsame⟩ := stage_step _ ih.1
      exact ⟨hstage, hsame.trans ih.2⟩

/-- What the parser leaves, whatever the frame. -/
theorem extracted_parse (frame : List Byte) :
    Extracted (CommonParser frame).hdr (CommonParser frame).metadata :=
  (stage_iterate Parse.STEPS (p := { pkt := frame }) .start).1.extracted

/-- **The deparser undoes the parser**, wherever the parser stopped. -/
theorem deparse_parse (frame : List Byte) :
    CommonDeparser (CommonParser frame).hdr ++ (CommonParser frame).pkt = frame := by
  have hnothing : CommonDeparser {} = [] := by
    simp [CommonDeparser, emit_valid, emit_empty]
  have hrun := (stage_iterate Parse.STEPS (p := { pkt := frame }) .start).2
  rw [hnothing, List.nil_append] at hrun
  exact hrun

end IntHpcc.P4
