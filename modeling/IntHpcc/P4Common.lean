/-
`p4src/common/headers.p4` and `p4src/common/parsers.p4`: the headers, the parser and the
deparser the two data planes share, and what of v1model they rest on.

A header is an `Option`: `none` is a header that is not valid. A frame is a byte string;
the parser is the state machine of the source, one state at a time, on what it has not
extracted yet. An `extract` that fails takes nothing, records its error and ends the
parse, and the packet goes on with the headers parsed so far, as BMv2 does.

Two results are used everywhere: the parser always stops (`parser_stops`), so a parse can
be followed step by step with no step counted (`CommonParser_eq`); and what it makes of a
well-formed data or ACK frame (`parse_data_frame`, `parse_ack_frame`).
-/
import IntHpcc.HeaderLayout
import Mathlib.Logic.Function.Iterate

set_option autoImplicit false

namespace IntHpcc.P4

open IntHpcc.Bytes IntHpcc.HeaderLayout

/-! ## Constants -/

def ETHERTYPE_IPV4 : BitVec 16 := 0x0800#16
def IP_PROTO_UDP : BitVec 8 := 17#8
def DATA_PORT : BitVec 16 := 50000#16
def ACK_PORT : BitVec 16 := 50001#16
def MAX_HOPS : ℕ := 4

/-! ## Headers -/

structure ethernet_t where
  dst_mac : BitVec 48
  src_mac : BitVec 48
  ethertype : BitVec 16
  deriving DecidableEq

def ethernet_t.layout : Layout ethernet_t :=
  ((field 6 rfl).prod ((field 6 rfl).prod (field 2 rfl))).via
    { toFun h := (h.dst_mac, h.src_mac, h.ethertype)
      invFun v := ⟨v.1, v.2.1, v.2.2⟩
      left_inv _ := rfl
      right_inv _ := rfl }

structure ipv4_t where
  version : BitVec 4
  ihl : BitVec 4
  dscp : BitVec 6
  ecn : BitVec 2
  total_len : BitVec 16
  identification : BitVec 16
  flags : BitVec 3
  frag_offset : BitVec 13
  ttl : BitVec 8
  protocol : BitVec 8
  hdr_checksum : BitVec 16
  src_addr : BitVec 32
  dst_addr : BitVec 32
  deriving DecidableEq

def ipv4_t.layout : Layout ipv4_t :=
  (((field 1 rfl).via (halves 4 4)).prod <|
    ((field 1 rfl).via (halves 6 2)).prod <|
    (field 2 rfl).prod <|
    (field 2 rfl).prod <|
    ((field 2 rfl).via (halves 3 13)).prod <|
    (field 1 rfl).prod <|
    (field 1 rfl).prod <|
    (field 2 rfl).prod <|
    (field 4 rfl).prod (field 4 rfl)).via
    { toFun h := ((h.version, h.ihl), (h.dscp, h.ecn), h.total_len, h.identification,
        (h.flags, h.frag_offset), h.ttl, h.protocol, h.hdr_checksum, h.src_addr, h.dst_addr)
      invFun := fun ((version, ihl), (dscp, ecn), total_len, identification,
        (flags, frag_offset), ttl, protocol, hdr_checksum, src_addr, dst_addr) =>
          ⟨version, ihl, dscp, ecn, total_len, identification, flags, frag_offset, ttl,
            protocol, hdr_checksum, src_addr, dst_addr⟩
      left_inv _ := rfl
      right_inv _ := rfl }

structure udp_t where
  src_port : BitVec 16
  dst_port : BitVec 16
  length : BitVec 16
  checksum : BitVec 16
  deriving DecidableEq

def udp_t.layout : Layout udp_t :=
  ((field 2 rfl).prod ((field 2 rfl).prod ((field 2 rfl).prod (field 2 rfl)))).via
    { toFun h := (h.src_port, h.dst_port, h.length, h.checksum)
      invFun v := ⟨v.1, v.2.1, v.2.2.1, v.2.2.2⟩
      left_inv _ := rfl
      right_inv _ := rfl }

structure shim_t where
  flags : BitVec 8
  hop_count : BitVec 8
  max_hops : BitVec 8
  reserved : BitVec 8
  deriving DecidableEq

def shim_t.layout : Layout shim_t :=
  ((field 1 rfl).prod ((field 1 rfl).prod ((field 1 rfl).prod (field 1 rfl)))).via
    { toFun h := (h.flags, h.hop_count, h.max_hops, h.reserved)
      invFun v := ⟨v.1, v.2.1, v.2.2.1, v.2.2.2⟩
      left_inv _ := rfl
      right_inv _ := rfl }

structure int_hop_t where
  switch_id : BitVec 16
  ingress_port : BitVec 16
  egress_port : BitVec 16
  qdepth : BitVec 32
  egress_tstamp_us : BitVec 48
  tx_byte_count : BitVec 48
  link_bps : BitVec 32
  deriving DecidableEq

def int_hop_t.layout : Layout int_hop_t :=
  ((field 2 rfl).prod <|
    (field 2 rfl).prod <|
    (field 2 rfl).prod <|
    (field 4 rfl).prod <|
    (field 6 rfl).prod <|
    (field 6 rfl).prod (field 4 rfl)).via
    { toFun h := (h.switch_id, h.ingress_port, h.egress_port, h.qdepth, h.egress_tstamp_us,
        h.tx_byte_count, h.link_bps)
      invFun := fun (switch_id, ingress_port, egress_port, qdepth, egress_tstamp_us,
        tx_byte_count, link_bps) =>
          ⟨switch_id, ingress_port, egress_port, qdepth, egress_tstamp_us, tx_byte_count,
            link_bps⟩
      left_inv _ := rfl
      right_inv _ := rfl }

structure data_payload_t where
  seq : BitVec 32
  send_ts_us : BitVec 64
  reserved : BitVec 32
  deriving DecidableEq

def data_payload_t.layout : Layout data_payload_t :=
  ((field 4 rfl).prod ((field 8 rfl).prod (field 4 rfl))).via
    { toFun h := (h.seq, h.send_ts_us, h.reserved)
      invFun v := ⟨v.1, v.2.1, v.2.2⟩
      left_inv _ := rfl
      right_inv _ := rfl }

structure ack_payload_t where
  ack_seq : BitVec 32
  recv_ts_us : BitVec 64
  reserved : BitVec 32
  deriving DecidableEq

def ack_payload_t.layout : Layout ack_payload_t :=
  ((field 4 rfl).prod ((field 8 rfl).prod (field 4 rfl))).via
    { toFun h := (h.ack_seq, h.recv_ts_us, h.reserved)
      invFun v := ⟨v.1, v.2.1, v.2.2⟩
      left_inv _ := rfl
      right_inv _ := rfl }

/-! ## The hop stack -/

/-- `int_hop_t[MAX_HOPS]`: the entries that are not valid are `none`. -/
structure HopStack where
  slots : List (Option int_hop_t)
  nextIndex : ℕ
  size_eq : slots.length = MAX_HOPS

namespace HopStack

/-- The stack a packet starts with. -/
def empty : HopStack where
  slots := List.replicate MAX_HOPS none
  nextIndex := 0
  size_eq := List.length_replicate

/-- `hops.next` is past the last entry. -/
def full (s : HopStack) : Prop := MAX_HOPS ≤ s.nextIndex

instance (s : HopStack) : Decidable s.full := inferInstanceAs (Decidable (MAX_HOPS ≤ s.nextIndex))

/-- What `pkt.extract(hdr.hops.next)` does to a stack that is not full. -/
def put_next (s : HopStack) (h : int_hop_t) : HopStack where
  slots := s.slots.set s.nextIndex (some h)
  nextIndex := s.nextIndex + 1
  size_eq := by rw [List.length_set, s.size_eq]

/-- `push_front(1)`. -/
def push_front (s : HopStack) : HopStack where
  slots := none :: s.slots.dropLast
  nextIndex := min (s.nextIndex + 1) MAX_HOPS
  size_eq := by
    rw [List.length_cons, List.length_dropLast, s.size_eq]
    rfl

/-- `hops[i].setValid()` and the assignment of all its fields. -/
def set (s : HopStack) (i : ℕ) (h : int_hop_t) : HopStack where
  slots := s.slots.set i (some h)
  nextIndex := s.nextIndex
  size_eq := by rw [List.length_set, s.size_eq]

/-- The stack that holds `hops`, from index 0 on. -/
def holding (hops : List int_hop_t) (h : hops.length ≤ MAX_HOPS) : HopStack where
  slots := hops.map some ++ List.replicate (MAX_HOPS - hops.length) none
  nextIndex := hops.length
  size_eq := by
    rw [List.length_append, List.length_map, List.length_replicate]
    omega

end HopStack

/-! ## The aggregate and the metadata -/

structure headers_t where
  ethernet : Option ethernet_t := none
  ipv4 : Option ipv4_t := none
  udp : Option udp_t := none
  shim : Option shim_t := none
  hops : HopStack := .empty
  data : Option data_payload_t := none
  ack : Option ack_payload_t := none

structure metadata_t where
  parsed_hop_count : BitVec 8 := 0#8
  is_data : BitVec 1 := 0#1
  is_ack : BitVec 1 := 0#1

/-- The fields of v1model's `standard_metadata_t` the programs read or write. -/
structure standard_metadata_t where
  ingress_port : BitVec 9
  egress_spec : BitVec 9
  egress_port : BitVec 9
  packet_length : BitVec 32
  enq_qdepth : BitVec 19
  egress_global_timestamp : BitVec 48
  checksum_error : BitVec 1

/-- The port `mark_to_drop` sends a packet to. -/
def DROP_PORT : BitVec 9 := 511#9

def mark_to_drop (std_meta : standard_metadata_t) : standard_metadata_t :=
  { std_meta with egress_spec := DROP_PORT }

/-- `register<bit<w>>(n)`. What a read past the end gives is left open by v1model; here it
is a value of the register's own. -/
structure Register (w n : ℕ) where
  cells : Fin n → BitVec w
  past_end : BitVec w

namespace Register

variable {w n : ℕ}

def read (r : Register w n) (i : BitVec 32) : BitVec w :=
  if h : i.toNat < n then r.cells ⟨i.toNat, h⟩ else r.past_end

def write (r : Register w n) (i : BitVec 32) (v : BitVec w) : Register w n :=
  if h : i.toNat < n then { r with cells := Function.update r.cells ⟨i.toNat, h⟩ v } else r

theorem cells_write (r : Register w n) (i : BitVec 32) (v : BitVec w) (j : Fin n) :
    (r.write i v).cells j = if i.toNat = j then v else r.cells j := by
  unfold write
  by_cases hi : i.toNat < n
  · rw [dif_pos hi]
    by_cases hj : i.toNat = j
    · have heq : j = ⟨i.toNat, hi⟩ := Fin.ext hj.symm
      rw [if_pos hj, heq]
      exact Function.update_self _ _ _
    · have hne : j ≠ ⟨i.toNat, hi⟩ := fun heq => hj (congrArg Fin.val heq).symm
      rw [if_neg hj]
      exact Function.update_of_ne hne _ _
  · -- nothing is written past the end
    have hj : ¬ i.toNat = j := fun heq => hi (heq ▸ j.isLt)
    rw [dif_neg hi, if_neg hj]

end Register

/-! ## The parser -/

inductive ParserState
  | start
  | parse_ethernet
  | parse_ipv4
  | parse_udp
  | parse_shim_data
  | parse_shim_ack
  | parse_hops
  | parse_one_hop
  | parse_payload
  | parse_data_payload
  | parse_ack_payload
  | accept
  | reject
  deriving DecidableEq, Repr

inductive ParserError
  | NoError
  | PacketTooShort
  | StackOutOfBounds
  deriving DecidableEq, Repr

/-- The parser between two states; `pkt` is what has not been extracted. -/
structure Parse where
  state : ParserState := .start
  pkt : List Byte
  hdr : headers_t := {}
  metadata : metadata_t := {}
  parser_error : ParserError := .NoError

namespace Parse

/-- A failed `extract`. -/
def fail (p : Parse) (e : ParserError) : Parse :=
  { p with
    state := .reject
    parser_error := e }

/-- `pkt.extract` of a fixed-size header, and what the state does with it. -/
def extract {α : Type} (L : Layout α) (p : Parse) (k : α → Parse → Parse) : Parse :=
  match L.extract p.pkt with
  | none => p.fail .PacketTooShort
  | some (h, rest) => k h { p with pkt := rest }

/-- One state of `CommonParser`. -/
def step (p : Parse) : Parse :=
  match p.state with
  | .start => { p with state := .parse_ethernet }
  | .parse_ethernet =>
    p.extract ethernet_t.layout fun h p =>
      { p with
        hdr := { p.hdr with ethernet := some h }
        state := if h.ethertype = ETHERTYPE_IPV4 then .parse_ipv4 else .accept }
  | .parse_ipv4 =>
    p.extract ipv4_t.layout fun h p =>
      { p with
        hdr := { p.hdr with ipv4 := some h }
        state := if h.protocol = IP_PROTO_UDP then .parse_udp else .accept }
  | .parse_udp =>
    p.extract udp_t.layout fun h p =>
      { p with
        hdr := { p.hdr with udp := some h }
        state :=
          if h.dst_port = DATA_PORT then .parse_shim_data
          else if h.dst_port = ACK_PORT then .parse_shim_ack
          else .accept }
  | .parse_shim_data =>
    p.extract shim_t.layout fun h p =>
      { p with
        hdr := { p.hdr with shim := some h }
        metadata := { p.metadata with
          is_data := 1#1
          parsed_hop_count := h.hop_count }
        state := .parse_hops }
  | .parse_shim_ack =>
    p.extract shim_t.layout fun h p =>
      { p with
        hdr := { p.hdr with shim := some h }
        metadata := { p.metadata with
          is_ack := 1#1
          parsed_hop_count := h.hop_count }
        state := .parse_hops }
  | .parse_hops =>
    { p with
      state := if p.metadata.parsed_hop_count = 0#8 then .parse_payload else .parse_one_hop }
  | .parse_one_hop =>
    -- a full stack fails before a short packet does
    if p.hdr.hops.full then p.fail .StackOutOfBounds
    else
      p.extract int_hop_t.layout fun h p =>
        { p with
          hdr := { p.hdr with hops := p.hdr.hops.put_next h }
          metadata := { p.metadata with
            parsed_hop_count := p.metadata.parsed_hop_count - 1#8 }
          state := .parse_hops }
  | .parse_payload =>
    { p with
      state :=
        if p.metadata.is_data = 1#1 ∧ p.metadata.is_ack = 0#1 then .parse_data_payload
        else if p.metadata.is_data = 0#1 ∧ p.metadata.is_ack = 1#1 then .parse_ack_payload
        else .accept }
  | .parse_data_payload =>
    p.extract data_payload_t.layout fun h p =>
      { p with
        hdr := { p.hdr with data := some h }
        state := .accept }
  | .parse_ack_payload =>
    p.extract ack_payload_t.layout fun h p =>
      { p with
        hdr := { p.hdr with ack := some h }
        state := .accept }
  | .accept => p
  | .reject => p

/-- The parser has stopped. -/
def Stopped (p : Parse) : Prop := p.state = .accept ∨ p.state = .reject

/-- More steps than a parse can take: one for each state before the hop loop, two for
each of the five rounds of the loop, and the rest. -/
def STEPS : ℕ := 18

/-- How many steps are left at most. The loop is bounded by the stack, not by the hop
count. -/
def left (p : Parse) : ℕ :=
  match p.state with
  | .start => 18
  | .parse_ethernet => 17
  | .parse_ipv4 => 16
  | .parse_udp => 15
  | .parse_shim_data => 14
  | .parse_shim_ack => 14
  | .parse_hops => 3 + 2 * (5 - p.hdr.hops.nextIndex)
  | .parse_one_hop => 2 + 2 * (5 - p.hdr.hops.nextIndex)
  | .parse_payload => 2
  | .parse_data_payload => 1
  | .parse_ack_payload => 1
  | .accept => 0
  | .reject => 0

end Parse

/-- `CommonParser` on a frame. -/
def CommonParser (frame : List Byte) : Parse := Parse.step^[Parse.STEPS] { pkt := frame }

/-! ## The hop stack, as a list -/

namespace HopStack

@[ext] theorem ext {s t : HopStack} (hs : s.slots = t.slots) (hn : s.nextIndex = t.nextIndex) :
    s = t := by
  obtain ⟨_, _, _⟩ := s
  obtain ⟨_, _, _⟩ := t
  subst hs hn
  rfl

theorem empty_eq : empty = holding [] (by simp) := rfl

/-- Extracting into a stack puts the entry behind the others. -/
theorem put_next_holding {hops : List int_hop_t} {h : int_hop_t}
    (hroom : (hops ++ [h]).length ≤ MAX_HOPS) (hle : hops.length ≤ MAX_HOPS) :
    (holding hops hle).put_next h = holding (hops ++ [h]) hroom := by
  rw [List.length_append, List.length_singleton] at hroom
  obtain ⟨k, hk⟩ : ∃ k, MAX_HOPS - hops.length = k + 1 := ⟨MAX_HOPS - hops.length - 1, by omega⟩
  have hk' : MAX_HOPS - (hops ++ [h]).length = k := by
    rw [List.length_append, List.length_singleton]
    omega
  apply HopStack.ext
  · have hset : (hops.map some ++ List.replicate (k + 1) none).set hops.length (some h)
        = hops.map some ++ some h :: List.replicate k none := by
      rw [List.set_append_right _ _ (by simp), List.length_map, Nat.sub_self,
        List.replicate_succ, List.set_cons_zero]
    simp only [put_next, holding, hk, hk', hset, List.map_append, List.append_assoc,
      List.map_cons, List.map_nil, List.singleton_append]
  · simp [put_next, holding]

/-- Pushing an entry puts it in front of the others, as long as there is room. -/
theorem push_front_holding {hops : List int_hop_t} (h : int_hop_t)
    (hroom : (h :: hops).length ≤ MAX_HOPS) (hle : hops.length ≤ MAX_HOPS) :
    ((holding hops hle).push_front.set 0 h) = holding (h :: hops) hroom := by
  rw [List.length_cons] at hroom
  obtain ⟨k, hk⟩ : ∃ k, MAX_HOPS - hops.length = k + 1 := ⟨MAX_HOPS - hops.length - 1, by omega⟩
  have hk' : MAX_HOPS - (h :: hops).length = k := by
    rw [List.length_cons]
    omega
  apply HopStack.ext
  · -- the entry that falls off the end is one that is not valid
    have hlast : (hops.map some ++ List.replicate (k + 1) (none : Option int_hop_t)).dropLast
        = hops.map some ++ List.replicate k none := by
      rw [List.replicate_succ', ← List.append_assoc, List.dropLast_concat]
    simp only [set, push_front, holding, hk, hk', hlast, List.set_cons_zero, List.map_cons,
      List.cons_append]
  · simp only [set, push_front, holding, List.length_cons]
    omega

end HopStack

/-! ## The parser stops -/

namespace Parse

variable {p q r : Parse}

theorem left_extract_le {α : Type} {L : Layout α} {k : α → Parse → Parse} {b : ℕ}
    (hk : ∀ h rest, (k h { p with pkt := rest }).left ≤ b) : (p.extract L k).left ≤ b := by
  unfold extract
  cases L.extract p.pkt with
  | none => exact Nat.zero_le b
  | some v => exact hk v.1 v.2

/-- Every step but those of a stopped parser brings the end nearer. -/
theorem left_step (p : Parse) : p.step.left ≤ p.left - 1 := by
  cases hs : p.state with
  | parse_hops =>
      simp only [step, left, hs]
      by_cases hc : p.metadata.parsed_hop_count = 0#8
      · rw [if_pos hc]
        simp only
        omega
      · rw [if_neg hc]
        simp only
        omega
  | parse_one_hop =>
      simp only [step, hs]
      by_cases hf : p.hdr.hops.full
      · rw [if_pos hf]
        exact Nat.zero_le _
      · rw [if_neg hf]
        refine left_extract_le fun h rest => ?_
        -- the round has filled one more entry of the stack
        simp only [HopStack.full, MAX_HOPS] at hf
        simp only [left, hs, HopStack.put_next]
        omega
  | parse_ethernet =>
      simp only [step, hs]
      refine left_extract_le fun h rest => ?_
      by_cases ht : h.ethertype = ETHERTYPE_IPV4 <;> simp [left, hs, ht]
  | parse_ipv4 =>
      simp only [step, hs]
      refine left_extract_le fun h rest => ?_
      by_cases ht : h.protocol = IP_PROTO_UDP <;> simp [left, hs, ht]
  | parse_udp =>
      simp only [step, hs]
      refine left_extract_le fun h rest => ?_
      have hports : ACK_PORT ≠ DATA_PORT := by decide
      by_cases hd : h.dst_port = DATA_PORT
      · simp [left, hs, hd]
      · by_cases ha : h.dst_port = ACK_PORT <;> simp [left, hs, hd, ha, hports]
  | parse_shim_data | parse_shim_ack =>
      simp only [step, hs]
      refine left_extract_le fun h rest => ?_
      simp only [left, hs]
      omega
  | parse_payload =>
      simp only [step, left, hs]
      by_cases hd : p.metadata.is_data = 1#1 ∧ p.metadata.is_ack = 0#1
      · simp [hd]
      · by_cases ha : p.metadata.is_data = 0#1 ∧ p.metadata.is_ack = 1#1
        · simp [ha]
        · simp [hd, ha]
  | parse_data_payload | parse_ack_payload =>
      simp only [step, hs]
      exact left_extract_le fun h rest => Nat.zero_le _
  | start | accept | reject => simp [step, left, hs]

theorem stopped_of_left (h : p.left = 0) : p.Stopped := by
  unfold left at h
  unfold Stopped
  cases hs : p.state <;> simp [hs] at h ⊢

theorem left_iterate (n : ℕ) (p : Parse) : (step^[n] p).left ≤ p.left - n := by
  induction n with
  | zero => exact le_refl _
  | succ n ih =>
      rw [Function.iterate_succ_apply']
      have hstep := left_step (step^[n] p)
      omega

theorem step_of_stopped (h : p.Stopped) : p.step = p := by
  rcases h with h | h <;> simp [step, h]

/-- `q` is what some number of steps make of `p`. -/
def Reaches (p q : Parse) : Prop := ∃ n, step^[n] p = q

theorem Reaches.refl (p : Parse) : Reaches p p := ⟨0, rfl⟩

theorem Reaches.head (h : Reaches p.step q) : Reaches p q := by
  obtain ⟨n, rfl⟩ := h
  exact ⟨n + 1, Function.iterate_succ_apply step n p⟩

theorem Reaches.trans (hpq : Reaches p q) (hqr : Reaches q r) : Reaches p r := by
  obtain ⟨n, rfl⟩ := hpq
  obtain ⟨m, rfl⟩ := hqr
  exact ⟨m + n, Function.iterate_add_apply step m n p⟩

end Parse

/-- **The parser always stops**, whatever the frame. -/
theorem parser_stops (frame : List Byte) : (CommonParser frame).Stopped := by
  apply Parse.stopped_of_left
  have hleft := Parse.left_iterate Parse.STEPS { pkt := frame }
  exact Nat.le_zero.mp hleft

/-- A stopped parser the frame leads to, in however many steps, is the result. -/
theorem CommonParser_eq {frame : List Byte} {q : Parse}
    (h : Parse.Reaches { pkt := frame } q) (hq : q.Stopped) : CommonParser frame = q := by
  obtain ⟨n, rfl⟩ := h
  have hfix : ∀ {p : Parse} (k : ℕ), p.Stopped → Parse.step^[k] p = p :=
    fun k hp => Function.iterate_fixed (Parse.step_of_stopped hp) k
  rcases Nat.le_total n Parse.STEPS with hle | hle
  · obtain ⟨k, hk⟩ := Nat.exists_eq_add_of_le' hle
    rw [CommonParser, hk, Function.iterate_add_apply, hfix k hq]
  · obtain ⟨k, hk⟩ := Nat.exists_eq_add_of_le' hle
    rw [hk, Function.iterate_add_apply]
    exact (hfix k (parser_stops frame)).symm

/-! ## What the parser makes of a well-formed frame -/

/-- The bytes of a list of hop entries. -/
def emit_hops (hops : List int_hop_t) : List Byte := hops.flatMap int_hop_t.layout.emit

theorem emit_hops_cons (h : int_hop_t) (hops : List int_hop_t) :
    emit_hops (h :: hops) = int_hop_t.layout.emit h ++ emit_hops hops := List.flatMap_cons

namespace Parse

variable {p : Parse}

theorem extract_emit {α : Type} {L : Layout α} {a : α} {rest : List Byte} (k : α → Parse → Parse)
    (h : p.pkt = L.emit a ++ rest) : p.extract L k = k a { p with pkt := rest } := by
  unfold extract
  rw [h, Layout.extract_emit]

/-- The hop loop: as many entries as the count says, as long as they fit the stack. -/
theorem reaches_hops {hops : List int_hop_t} (done : List int_hop_t) {rest : List Byte}
    (hroom : (done ++ hops).length ≤ MAX_HOPS) (hdone : done.length ≤ MAX_HOPS)
    (hs : p.state = .parse_hops) (hpkt : p.pkt = emit_hops hops ++ rest)
    (hstack : p.hdr.hops = .holding done hdone)
    (hcount : p.metadata.parsed_hop_count = BitVec.ofNat 8 hops.length) :
    Reaches p
      { p with
        state := .parse_payload
        pkt := rest
        hdr := { p.hdr with hops := .holding (done ++ hops) hroom }
        metadata := { p.metadata with parsed_hop_count := 0#8 } } := by
  induction hops generalizing p done with
  | nil =>
      have hzero : p.metadata.parsed_hop_count = 0#8 := hcount
      have hrest : p.pkt = rest := hpkt
      apply Reaches.head
      simp only [step, hs, hzero, if_true, List.append_nil, ← hstack, ← hrest]
      rw [← hzero]
      exact Reaches.refl _
  | cons h hops ih =>
      have hfull : ¬ p.hdr.hops.full := by
        rw [List.length_append, List.length_cons] at hroom
        rw [hstack]
        simp only [HopStack.full, HopStack.holding]
        omega
      have hone : (done ++ [h]).length ≤ MAX_HOPS := by
        simp only [List.length_append, List.length_cons, List.length_nil] at hroom ⊢
        omega
      have hcons : done ++ [h] ++ hops = done ++ h :: hops := by simp
      have hlen : hops.length < 4 := by
        simp only [List.length_append, List.length_cons, MAX_HOPS] at hroom
        omega
      have hpos : p.metadata.parsed_hop_count ≠ 0#8 := by
        rw [hcount, List.length_cons]
        intro hz
        have := congrArg BitVec.toNat hz
        simp only [BitVec.toNat_ofNat] at this
        omega
      have hless : p.metadata.parsed_hop_count - 1#8 = BitVec.ofNat 8 hops.length := by
        rw [hcount, List.length_cons]
        apply BitVec.eq_of_toNat_eq
        simp only [BitVec.toNat_sub, BitVec.toNat_ofNat]
        omega
      have hfront : p.pkt = int_hop_t.layout.emit h ++ (emit_hops hops ++ rest) := by
        rw [hpkt, emit_hops_cons, List.append_assoc]
      -- the two steps of one round, then the rounds left
      have htest : p.step = { p with state := .parse_one_hop } := by
        simp only [step, hs, if_neg hpos]
      have htake : ({ p with state := .parse_one_hop } : Parse).step = { p with
            pkt := emit_hops hops ++ rest
            hdr := { p.hdr with hops := .holding (done ++ [h]) hone }
            metadata := { p.metadata with parsed_hop_count := BitVec.ofNat 8 hops.length }
            state := .parse_hops } := by
        simp only [step]
        rw [if_neg hfull, extract_emit (p := { p with state := .parse_one_hop }) _ hfront]
        simp only [hstack, HopStack.put_next_holding hone hdone, hless]
      have hroom' : (done ++ [h] ++ hops).length ≤ MAX_HOPS := hcons ▸ hroom
      have hrounds := ih (done ++ [h]) hroom' hone (p := { p with
            pkt := emit_hops hops ++ rest
            hdr := { p.hdr with hops := .holding (done ++ [h]) hone }
            metadata := { p.metadata with parsed_hop_count := BitVec.ofNat 8 hops.length }
            state := .parse_hops }) rfl rfl rfl rfl
      simp only [hcons] at hrounds
      apply Reaches.head
      rw [htest]
      apply Reaches.head
      rw [htake]
      exact hrounds

section

variable {eth : ethernet_t} {ip : ipv4_t} {udp : udp_t} {shim : shim_t} {rest : List Byte}

/-- Ethernet, IPv4 and UDP. -/
theorem reaches_udp (heth : eth.ethertype = ETHERTYPE_IPV4) (hip : ip.protocol = IP_PROTO_UDP)
    (rest : List Byte) :
    Reaches
      { pkt := ethernet_t.layout.emit eth ++
          (ipv4_t.layout.emit ip ++ (udp_t.layout.emit udp ++ rest)) }
      { state :=
          if udp.dst_port = DATA_PORT then .parse_shim_data
          else if udp.dst_port = ACK_PORT then .parse_shim_ack
          else .accept
        pkt := rest
        hdr := { ethernet := some eth, ipv4 := some ip, udp := some udp } } := by
  apply Reaches.head
  simp only [step]
  apply Reaches.head
  simp only [step, extract, Layout.extract_emit, heth, if_true]
  apply Reaches.head
  simp only [step, extract, Layout.extract_emit, hip, if_true]
  apply Reaches.head
  simp only [step, extract, Layout.extract_emit]
  exact Reaches.refl _

variable {hops : List int_hop_t} {hdr : headers_t}

/-- The shim, the hops and the payload of a data packet. -/
theorem reaches_data {data : data_payload_t} (hlen : hops.length ≤ MAX_HOPS)
    (hcount : shim.hop_count = BitVec.ofNat 8 hops.length) (hempty : hdr.hops = .empty)
    (rest : List Byte) :
    Reaches
      { state := .parse_shim_data
        pkt := shim_t.layout.emit shim ++
          (emit_hops hops ++ (data_payload_t.layout.emit data ++ rest))
        hdr := hdr }
      { state := .accept
        pkt := rest
        hdr := { hdr with shim := some shim, hops := .holding hops hlen, data := some data }
        metadata := { is_data := 1#1 } } := by
  apply Reaches.head
  simp only [step, extract, Layout.extract_emit]
  -- the shim is read; then the stack, entry by entry, down to a count of zero
  refine (reaches_hops [] hlen (Nat.zero_le _) rfl rfl
    (hempty.trans HopStack.empty_eq) hcount).trans ?_
  apply Reaches.head
  simp only [step, and_self, if_true]
  apply Reaches.head
  simp only [step, extract, Layout.extract_emit, List.nil_append]
  exact Reaches.refl _

/-- The shim, the hops and the payload of an ACK. -/
theorem reaches_ack {ack : ack_payload_t} (hlen : hops.length ≤ MAX_HOPS)
    (hcount : shim.hop_count = BitVec.ofNat 8 hops.length) (hempty : hdr.hops = .empty)
    (rest : List Byte) :
    Reaches
      { state := .parse_shim_ack
        pkt := shim_t.layout.emit shim ++
          (emit_hops hops ++ (ack_payload_t.layout.emit ack ++ rest))
        hdr := hdr }
      { state := .accept
        pkt := rest
        hdr := { hdr with shim := some shim, hops := .holding hops hlen, ack := some ack }
        metadata := { is_ack := 1#1 } } := by
  apply Reaches.head
  simp only [step, extract, Layout.extract_emit]
  refine (reaches_hops [] hlen (Nat.zero_le _) rfl rfl
    (hempty.trans HopStack.empty_eq) hcount).trans ?_
  apply Reaches.head
  simp only [step]
  rw [if_neg (by decide), if_pos (by decide)]
  apply Reaches.head
  simp only [step, extract, Layout.extract_emit, List.nil_append]
  exact Reaches.refl _

end

end Parse

/-! ## The checksum -/

/-- The sum of the 16-bit words, an odd last byte padded with a zero. -/
def word_sum : List Byte → ℕ
  | [] => 0
  | [b] => b.toNat * 256
  | b :: c :: bs => b.toNat * 256 + c.toNat + word_sum bs

/-- The carries of a sum added back in. -/
def end_around (s : ℕ) : ℕ := s % 2 ^ 16 + s / 2 ^ 16

/-- `HashAlgorithm.csum16`. Two rounds of carries are enough for fewer than `2 ^ 16`
words. -/
def csum16 (bs : List Byte) : BitVec 16 :=
  ~~~ BitVec.ofNat 16 (end_around (end_around (word_sum bs)))

/-- The fields the two checksum controls list: the IPv4 header without its checksum. -/
def ipv4_t.checksum_data (h : ipv4_t) : List Byte :=
  slice (ipv4_t.layout.emit h) 0 10 ++ slice (ipv4_t.layout.emit h) 12 8

/-- `CommonVerifyChecksum`: a wrong checksum sets a flag, which no program reads. -/
def CommonVerifyChecksum (hdr : headers_t) (std_meta : standard_metadata_t) :
    standard_metadata_t :=
  match hdr.ipv4 with
  | none => std_meta
  | some ip =>
    if csum16 ip.checksum_data = ip.hdr_checksum then std_meta
    else { std_meta with checksum_error := 1#1 }

/-- `CommonComputeChecksum`. -/
def CommonComputeChecksum (hdr : headers_t) : headers_t :=
  { hdr with ipv4 := hdr.ipv4.map fun ip => { ip with hdr_checksum := csum16 ip.checksum_data } }

/-! ## The deparser -/

/-- `pkt.emit`: a header that is not valid writes nothing. -/
def emit_valid {α : Type} (L : Layout α) (h : Option α) : List Byte := (h.map L.emit).getD []

/-- `CommonDeparser`. -/
def CommonDeparser (hdr : headers_t) : List Byte :=
  emit_valid ethernet_t.layout hdr.ethernet ++
    (emit_valid ipv4_t.layout hdr.ipv4 ++
      (emit_valid udp_t.layout hdr.udp ++
        (emit_valid shim_t.layout hdr.shim ++
          (hdr.hops.slots.flatMap (emit_valid int_hop_t.layout) ++
            (emit_valid data_payload_t.layout hdr.data ++
              emit_valid ack_payload_t.layout hdr.ack)))))

/-! ## Ingress

`HpccIngress` and `DctcpIngress` have the same body. -/

/-- The actions of `ipv4_lpm`. -/
inductive LpmAction
  | ipv4_forward (dst_mac : BitVec 48) (port : BitVec 9)
  | drop
  | NoAction
  deriving DecidableEq

/-- One entry of `ipv4_lpm`, as the control plane puts it in. -/
structure LpmEntry where
  addr : BitVec 32
  len : ℕ
  action : LpmAction

def LpmEntry.covers (e : LpmEntry) (dst_addr : BitVec 32) : Prop :=
  dst_addr >>> (32 - e.len) = e.addr >>> (32 - e.len)

instance (e : LpmEntry) (dst_addr : BitVec 32) : Decidable (e.covers dst_addr) :=
  inferInstanceAs (Decidable (_ = _))

/-- The entry with the longest match, the first of several. -/
def longest (dst_addr : BitVec 32) : List LpmEntry → Option LpmEntry
  | [] => none
  | e :: table =>
    match longest dst_addr table with
    | none => if e.covers dst_addr then some e else none
    | some best => if e.covers dst_addr ∧ best.len ≤ e.len then some e else some best

/-- The action `ipv4_lpm.apply()` runs; the default is `drop()`. -/
def ipv4_lpm (table : List LpmEntry) (dst_addr : BitVec 32) : LpmAction :=
  ((longest dst_addr table).map LpmEntry.action).getD .drop

/-- `apply` of either ingress control. -/
def ingress_apply (table : List LpmEntry) (hdr : headers_t) (std_meta : standard_metadata_t) :
    headers_t × standard_metadata_t :=
  match hdr.ipv4 with
  | none => (hdr, std_meta)
  | some ip =>
    if 1#8 < ip.ttl then
      match ipv4_lpm table ip.dst_addr with
      | .ipv4_forward dst_mac port =>
        ({ hdr with
            ethernet := hdr.ethernet.map fun e => { e with
              src_mac := e.dst_mac
              dst_mac := dst_mac }
            ipv4 := some { ip with ttl := ip.ttl - 1#8 } },
          { std_meta with egress_spec := port })
      | .drop => (hdr, mark_to_drop std_meta)
      | .NoAction => (hdr, std_meta)
    else (hdr, mark_to_drop std_meta)

/-! ## The switch -/

/-- `V1Switch(…)` on one packet, with what the switch was given as its metadata; `σ` is
the state of its registers. A packet marked to drop does not reach egress. What the
parser did not extract follows the headers. -/
def V1Switch {σ : Type}
    (ingress : headers_t → standard_metadata_t → headers_t × standard_metadata_t)
    (egress : σ → headers_t → metadata_t → standard_metadata_t → σ × headers_t)
    (registers : σ) (std_meta : standard_metadata_t) (frame : List Byte) :
    σ × Option (List Byte) :=
  let p := CommonParser frame
  let std_meta := CommonVerifyChecksum p.hdr
    { std_meta with
      egress_spec := 0#9
      checksum_error := 0#1 }
  let (hdr, std_meta) := ingress p.hdr std_meta
  if std_meta.egress_spec = DROP_PORT then (registers, none)
  else
    let std_meta := { std_meta with egress_port := std_meta.egress_spec }
    let (registers, hdr) := egress registers hdr p.metadata std_meta
    (registers, some (CommonDeparser (CommonComputeChecksum hdr) ++ p.pkt))

end IntHpcc.P4
