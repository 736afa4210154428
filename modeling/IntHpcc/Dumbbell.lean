/-
`topo/dumbbell.py`, loaded by `controller/load_tables.py`: the network as a whole.

      h1 ─┐
          ├── s1 ── s2 ── r1
      h8 ─┘

`build` is the topology: which port of which switch is linked to what. A `Fabric` is the
two switches and every frame that was ever put on the network, each with the place it is
at; the switches take the frames that have arrived at them one at a time, in any order, and
a queue or a link may lose a frame at any moment.

The routes of one file and the links of the other have to fit together ("keep in
lockstep"). That they do is `delivered_where_addressed`: in every reachable state of the
loaded network, a frame that has reached a host is that host's, none that is an attached
host's is dropped by a table, what is no host's ends at its first switch, and no frame
passes more than two switches.
-/
import IntHpcc.Relay
import Mathlib.Data.Fintype.Basic
import Mathlib.Tactic.IntervalCases

set_option autoImplicit false

namespace IntHpcc.Dumbbell

open IntHpcc.Runs IntHpcc.Bytes IntHpcc.Py IntHpcc.P4 IntHpcc.LoadTables

/-! ## The topology -/

/-- The hosts: the senders, `h k` being the source's `h{k + 1}`, and the receiver. -/
inductive Host
  | h (k : Fin MAX_SENDERS)
  | r1
  deriving DecidableEq

/-- The last part of a host's address, in `HOSTS`. -/
def Host.number : Host → ℕ
  | .h k => k.val + 1
  | .r1 => 10

/-- `HOSTS`: the address and the MAC of each. -/
def Host.ip (b : Host) : BitVec 32 := ip_addr b.number
def Host.mac (b : Host) : BitVec 48 := host_mac b.number

def BOTTLENECK_PORT : ℕ := MAX_SENDERS + 1

inductive Node
  | host (b : Host)
  | switch (sw : Switch)
  deriving DecidableEq

/-- A port of a node; a host has port 0 only. -/
abbrev Endpoint := Node × ℕ

/-- The two ends of an `addLink`. -/
abbrev Link := Endpoint × Endpoint

/-- The senders `build` adds. -/
def active_senders (n_senders : ℕ) : List (Fin MAX_SENDERS) :=
  (List.finRange MAX_SENDERS).filter fun k => k.val < n_senders

def links (n_senders : ℕ) : List Link :=
  (active_senders n_senders).map
      (fun k => ((Node.host (.h k), 0), (Node.switch .s1, k.val + 1))) ++
    [((Node.host .r1, 0), (Node.switch .s2, 2)),
      ((Node.switch .s1, BOTTLENECK_PORT), (Node.switch .s2, 1))]

/-- `DumbbellTopo.build`. -/
def build (n_senders : ℤ) : Except PyError (List Link) :=
  if 1 ≤ n_senders ∧ n_senders ≤ MAX_SENDERS then .ok (links n_senders.toNat)
  else .error .value_error

/-- The other end of the link at an endpoint. -/
def far (ls : List Link) (p : Endpoint) : Option Endpoint :=
  ls.findSome? fun l => if l.1 = p then some l.2 else if l.2 = p then some l.1 else none

/-- `build` accepts the numbers its links are made for. -/
theorem links_of_build {n_senders : ℤ} {ls : List Link} (h : build n_senders = .ok ls) :
    n_senders.toNat ≤ MAX_SENDERS ∧ ls = links n_senders.toNat := by
  unfold build at h
  by_cases hn : 1 ≤ n_senders ∧ n_senders ≤ MAX_SENDERS
  · rw [if_pos hn, Except.ok.injEq] at h
    exact ⟨by omega, h.symm⟩
  · rw [if_neg hn] at h
    cases h

/-! ## The network -/

/-- Where a frame is: it has arrived at a switch or at a host, a switch has dropped it or
sent it out of a port that leads nowhere, or a queue or a link has lost it. -/
inductive Place
  | arriving (sw : Switch) (port : ℕ)
  | received (b : Host)
  | dropped
  | overflowed
  deriving DecidableEq

/-- A frame on the network, with the host that sent it, as what, and how many switches it
has passed. -/
structure Packet where
  source : Host
  original : List Byte
  passes : ℕ
  place : Place
  frame : List Byte

/-- The two switches, and all frames in the order they were put on the network. -/
structure Fabric (P : Program) where
  control : Switch → Control P
  packets : List Packet

inductive Event
  /-- a host puts a frame on its link -/
  | inject (b : Host) (frame : List Byte)
  /-- the switch it is at takes the `i`-th frame; what the program cannot choose of the
  metadata is `std_meta` -/
  | forward (i : ℕ) (std_meta : standard_metadata_t)
  /-- a full queue or a link loses the `i`-th frame -/
  | overflow (i : ℕ)

/-- Where a frame gets to that is sent to the other end of a link. -/
def Place.beyond : Option Endpoint → Place
  | some (.switch sw, port) => .arriving sw port
  | some (.host b, _) => .received b
  | none => .dropped

section

variable {P : Program}

/-- The metadata BMv2 gives a frame: the port and the length are the real ones. -/
def metadata_at (port : ℕ) (frame : List Byte) (std_meta : standard_metadata_t) :
    standard_metadata_t :=
  { std_meta with
    ingress_port := BitVec.ofNat 9 port
    packet_length := BitVec.ofNat 32 frame.length }

/-- A frame through a switch: the registers after it and the frame where it is then. -/
def pass (ls : List Link) (c : Control P) (sw : Switch) (port : ℕ)
    (std_meta : standard_metadata_t) (pk : Packet) : P.Registers × Packet :=
  let std_meta := metadata_at port pk.frame std_meta
  let out := V1Switch (ingress_apply c.table) P.egress c.registers std_meta pk.frame
  match out.2 with
  | none => (out.1, { pk with passes := pk.passes + 1, place := .dropped })
  | some frame =>
    let egress_port := Arrival.egress_port ⟨c.table, std_meta, pk.frame⟩
    (out.1, { pk with
      passes := pk.passes + 1
      place := .beyond (far ls (.switch sw, egress_port.toNat))
      frame := frame })

/-- The switch `sw` with other registers. -/
def Fabric.set_registers (f : Fabric P) (sw : Switch) (r : P.Registers) : Fabric P :=
  { f with control := Function.update f.control sw { f.control sw with registers := r } }

def step (ls : List Link) : Event → Fabric P → Option (Fabric P)
  | .inject b frame, f =>
    match far ls (.host b, 0) with
    | some (.switch sw, port) =>
      some { f with packets := f.packets ++ [⟨b, frame, 0, .arriving sw port, frame⟩] }
    | _ => none
  | .forward i std_meta, f =>
    match f.packets[i]? with
    | some pk =>
      match pk.place with
      | .arriving sw port =>
        let out := pass ls (f.control sw) sw port std_meta pk
        some { f.set_registers sw out.1 with packets := f.packets.set i out.2 }
      | _ => none
    | none => none
  | .overflow i, f =>
    match f.packets[i]? with
    | some pk =>
      match pk.place with
      | .arriving _ _ => some { f with packets := f.packets.set i { pk with place := .overflowed } }
      | _ => none
    | none => none

end

/-- The network as `dumbbell.py` brings it up and `load_tables.py` loads it. -/
def loaded (algo : Algo) (bottleneck_pps bottleneck_depth : ℕ) : Fabric algo.program where
  control sw := push (algo.commands bottleneck_pps bottleneck_depth sw)
  packets := []

/-! ## Links and routes -/

/-- The switch a host is at, and the port it is at there. -/
def Host.side : Host → Switch
  | .h _ => .s1
  | .r1 => .s2

def Host.port : Host → ℕ
  | .h k => k.val + 1
  | .r1 => 2

/-- The other switch, the port toward it and the MAC stamped on the way. -/
def other : Switch → Switch
  | .s1 => .s2
  | .s2 => .s1

def trunk : Switch → ℕ
  | .s1 => BOTTLENECK_PORT
  | .s2 => 1

def gateway_mac : Switch → BitVec 48
  | .s1 => S2_GW_MAC
  | .s2 => S1_GW_MAC

/-- The host is part of a topology with `n` senders. -/
def Active (n : ℕ) : Host → Prop
  | .h k => k.val < n
  | .r1 => True

instance (n : ℕ) : DecidablePred (Active n)
  | .h k => inferInstanceAs (Decidable (k.val < n))
  | .r1 => inferInstanceAs (Decidable True)

/-- The switches between two hosts. -/
def distance (a b : Host) : ℕ := if a.side = b.side then 1 else 2

/-- What a switch is to do with a frame for `b`. -/
def next_hop (sw : Switch) (b : Host) : LpmAction :=
  if b.side = sw then .ipv4_forward b.mac (BitVec.ofNat 9 b.port)
  else .ipv4_forward (gateway_mac sw) (BitVec.ofNat 9 (trunk sw))

/-- The routes of `load_tables.py` are those of the topology. -/
theorem route_to (sw : Switch) (b : Host) : ipv4_lpm (routes sw) b.ip = next_hop sw b := by
  have hs : ∀ k : Fin MAX_SENDERS, ipv4_lpm (routes sw) (Host.h k).ip = next_hop sw (.h k) := by
    cases sw with
    | s1 => decide
    | s2 => decide
  cases b with
  | h k => exact hs k
  | r1 => cases sw <;> decide

/-- Every route is for a host. -/
theorem routes_hosts (sw : Switch) : ∀ e ∈ routes sw, e.len = 32 ∧
    (e.addr = Host.r1.ip ∨ ∃ k : Fin MAX_SENDERS, e.addr = (Host.h k).ip) := by
  cases sw with
  | s1 => decide
  | s2 => decide

theorem route_unknown (sw : Switch) {dst_addr : BitVec 32} (h : ∀ b : Host, dst_addr ≠ b.ip) :
    ipv4_lpm (routes sw) dst_addr = .drop := by
  have hnone : (routes sw).find? (fun e => dst_addr = e.addr) = none := by
    rw [List.find?_eq_none]
    intro e he heq
    obtain ⟨-, hr | ⟨k, hk⟩⟩ := routes_hosts sw e he
    · exact h .r1 ((of_decide_eq_true heq).trans hr)
    · exact h (.h k) ((of_decide_eq_true heq).trans hk)
  rw [ipv4_lpm, longest_of_exact (fun e he => (routes_hosts sw e he).1), hnone]
  rfl

/-- No two hosts share an address. -/
theorem ip_injective {a b : Host} (h : a.ip = b.ip) : a = b := by
  have hs : ∀ j k : Fin MAX_SENDERS, (Host.h j).ip = (Host.h k).ip → j = k := by decide
  have hr : ∀ k : Fin MAX_SENDERS, (Host.h k).ip ≠ Host.r1.ip := by decide
  cases a with
  | h j =>
      cases b with
      | h k => rw [hs j k h]
      | r1 => exact absurd h (hr j)
  | r1 =>
      cases b with
      | h k => exact absurd h.symm (hr k)
      | r1 => rfl

section

variable {n : ℕ}

theorem far_host (hn : n ≤ MAX_SENDERS) (b : Host) :
    far (links n) (.host b, 0) = if Active n b then some (.switch b.side, b.port) else none := by
  have hs : ∀ n ≤ MAX_SENDERS, ∀ k : Fin MAX_SENDERS, far (links n) (.host (.h k), 0)
      = if Active n (.h k) then some (.switch (Host.h k).side, (Host.h k).port) else none := by
    decide
  have hr : ∀ n ≤ MAX_SENDERS, far (links n) (.host .r1, 0)
      = if Active n .r1 then some (.switch Host.r1.side, Host.r1.port) else none := by
    decide
  cases b with
  | h k => exact hs n hn k
  | r1 => exact hr n hn

/-- The port a switch has for a host leads there, if the host is there at all. -/
theorem far_port (hn : n ≤ MAX_SENDERS) (b : Host) :
    far (links n) (.switch b.side, b.port) = if Active n b then some (.host b, 0) else none := by
  have hs : ∀ n ≤ MAX_SENDERS, ∀ k : Fin MAX_SENDERS,
      far (links n) (.switch (Host.h k).side, (Host.h k).port)
        = if Active n (.h k) then some (.host (.h k), 0) else none := by
    decide
  have hr : ∀ n ≤ MAX_SENDERS, far (links n) (.switch Host.r1.side, Host.r1.port)
      = if Active n .r1 then some (.host .r1, 0) else none := by
    decide
  cases b with
  | h k => exact hs n hn k
  | r1 => exact hr n hn

/-- The trunk leads to the other switch, and port 0 nowhere. -/
theorem far_trunk (hn : n ≤ MAX_SENDERS) (sw : Switch) :
    far (links n) (.switch sw, trunk sw) = some (.switch (other sw), trunk (other sw)) ∧
      far (links n) (.switch sw, 0) = none := by
  have h : ∀ n ≤ MAX_SENDERS,
      (far (links n) (.switch .s1, trunk .s1) = some (.switch (other .s1), trunk (other .s1)) ∧
        far (links n) (.switch .s1, 0) = none) ∧
      (far (links n) (.switch .s2, trunk .s2) = some (.switch (other .s2), trunk (other .s2)) ∧
        far (links n) (.switch .s2, 0) = none) := by
    decide
  cases sw with
  | s1 => exact (h n hn).1
  | s2 => exact (h n hn).2

end

/-! ## One frame at one switch -/

/-- Where a switch sends a frame for `b`. -/
def toward (n : ℕ) (sw : Switch) (b : Host) : Place :=
  if b.side = sw then
    if Active n b then .received b else .dropped
  else .arriving (other sw) (trunk (other sw))

section

variable {P : Program} {n : ℕ} {c : Control P} {sw : Switch} {port : ℕ}
  {std_meta : standard_metadata_t} {pk : Packet}

/-- The port of a route leads where the topology says. -/
theorem beyond_next_hop (hn : n ≤ MAX_SENDERS) (sw : Switch) (b : Host) :
    Place.beyond (far (links n) (.switch sw, (next_hop sw b).egress_spec.toNat))
      = toward n sw b := by
  have hport : b.port < 2 ^ 9 := by
    cases b with
    | h k =>
        have hk := k.isLt
        simp only [MAX_SENDERS] at hk
        simp only [Host.port]
        omega
    | r1 => decide
  have htrunk : trunk sw < 2 ^ 9 := by cases sw <;> decide
  unfold next_hop toward
  by_cases hs : b.side = sw
  · subst hs
    rw [if_pos rfl, if_pos rfl, LpmAction.egress_spec, BitVec.toNat_ofNat,
      Nat.mod_eq_of_lt hport, far_port hn]
    by_cases ha : Active n b
    · rw [if_pos ha, if_pos ha]
      rfl
    · rw [if_neg ha, if_neg ha]
      rfl
  · rw [if_neg hs, if_neg hs, LpmAction.egress_spec, BitVec.toNat_ofNat,
      Nat.mod_eq_of_lt htrunk, (far_trunk hn sw).1]
    rfl

theorem next_hop_egress (sw : Switch) (b : Host) : (next_hop sw b).egress_spec ≠ DROP_PORT := by
  have hs : ∀ sw, ∀ k : Fin MAX_SENDERS, (next_hop sw (.h k)).egress_spec ≠ DROP_PORT := by
    intro sw
    cases sw <;> decide
  cases b with
  | h k => exact hs sw k
  | r1 => cases sw <;> decide

/-- A frame for a host, with hops to go: it is sent on, with one unit of TTL less. -/
theorem pass_toward (port : ℕ) (std_meta : standard_metadata_t) (hn : n ≤ MAX_SENDERS)
    (htrans : Transparent P.egress)
    (htable : c.table = routes sw) {e : ethernet_t} {ip : ipv4_t} {b : Host}
    (h : Reads pk.frame e ip) (hdst : ip.dst_addr = b.ip) (httl : 1#8 < ip.ttl) :
    ∃ out ip', (pass (links n) c sw port std_meta pk).2 = { pk with
        passes := pk.passes + 1
        place := toward n sw b
        frame := out } ∧
      Reads out ((next_hop sw b).ethernet e) ip' ∧ ip'.dst_addr = b.ip ∧
      ip'.ttl.toNat + 1 = ip.ttl.toNat := by
  have hroute : ipv4_lpm c.table ip.dst_addr = next_hop sw b := by rw [htable, hdst, route_to]
  have hpass : Passes c.table ip := ⟨httl, by rw [hroute]; exact next_hop_egress sw b⟩
  obtain ⟨hport, out, ip', hout, hreads, -, hdst', httl', -⟩ := relay htrans h hpass c.registers
    (metadata_at port pk.frame std_meta)
  rw [hroute] at hport hreads httl'
  refine ⟨out, ip', ?_, hreads, hdst'.trans hdst, ?_⟩
  · unfold pass
    simp only [hout, hport, beyond_next_hop hn]
  · -- both kinds of next hop are `ipv4_forward`
    have hless : (next_hop sw b).ttl ip.ttl = ip.ttl - 1#8 := by
      unfold next_hop
      split <;> rfl
    have hlt := BitVec.lt_def.mp httl
    rw [httl', hless]
    simp only [BitVec.toNat_sub, BitVec.toNat_ofNat] at hlt ⊢
    omega

/-- Any other frame is dropped, or leaves by a port that leads nowhere. -/
theorem pass_dropped (port : ℕ) (std_meta : standard_metadata_t) (pk : Packet)
    (hn : n ≤ MAX_SENDERS) (htrans : Transparent P.egress)
    (htable : c.table = routes sw)
    (h : ∀ ip, (CommonParser pk.frame).hdr.ipv4 = some ip → 1#8 < ip.ttl →
      ∀ b : Host, ip.dst_addr ≠ b.ip) :
    ∃ out, (pass (links n) c sw port std_meta pk).2 = { pk with
      passes := pk.passes + 1
      place := .dropped
      frame := out } := by
  cases hip : (CommonParser pk.frame).hdr.ipv4 with
  | none =>
      -- no table is applied: `egress_spec` stays 0, and no link is at port 0
      obtain ⟨hport, hout⟩ := relay_no_ipv4 c.table htrans hip c.registers
        (metadata_at port pk.frame std_meta)
      have hzero : (0#9 : BitVec 9).toNat = 0 := rfl
      refine ⟨pk.frame, ?_⟩
      unfold pass
      simp only [hout, hport, hzero, (far_trunk hn sw).2]
      rfl
  | some ip =>
      -- the TTL has run out, or the table misses: either way `drop()`
      have hnot : ¬ Passes c.table ip := by
        rintro ⟨httl, hroute⟩
        rw [htable, route_unknown sw (h ip hip httl)] at hroute
        exact hroute rfl
      have hout : V1Switch (ingress_apply c.table) P.egress c.registers
          (metadata_at port pk.frame std_meta) pk.frame = (c.registers, none) :=
        V1Switch_of_not_passes rfl hip hnot _ _
      refine ⟨pk.frame, ?_⟩
      unfold pass
      simp only [hout]

end

/-! ## Every frame, in every run -/

/-- The frame is that host's: the host is there, the address is its own, and the TTL lasts
for the switches in between. -/
def Packet.Addressed (n : ℕ) (pk : Packet) (b : Host) : Prop :=
  Active n b ∧ ∃ ip, (CommonParser pk.original).hdr.ipv4 = some ip ∧ ip.dst_addr = b.ip ∧
    distance pk.source b < ip.ttl.toNat

/-- What the host gets: the frame has its MAC and its address, and has lost one unit of TTL
at each switch. -/
def Packet.Delivered (pk : Packet) (b : Host) : Prop :=
  ∃ e ip₀ ip, (CommonParser pk.original).hdr.ipv4 = some ip₀ ∧ Reads pk.frame e ip ∧
    e.dst_mac = b.mac ∧ ip.dst_addr = b.ip ∧
    ip.ttl.toNat + distance pk.source b = ip₀.ttl.toNat

/-- The frame is no host's: it has no IPv4 header, or an address that none of them has,
whether attached or not. -/
def Packet.Stray (pk : Packet) : Prop :=
  ∀ ip, (CommonParser pk.original).hdr.ipv4 = some ip → ∀ b : Host, ip.dst_addr ≠ b.ip

/-- A frame for a host beyond the trunk, between the two switches. -/
def Packet.Between (pk : Packet) (b : Host) : Prop :=
  b.side ≠ pk.source.side ∧ ∃ e ip₀ ip, (CommonParser pk.original).hdr.ipv4 = some ip₀ ∧
    Reads pk.frame e ip ∧ ip₀.dst_addr = b.ip ∧ ip.dst_addr = b.ip ∧
    ip.ttl.toNat + 1 = ip₀.ttl.toNat

/-- The switches a host's frames can meet, each with the port they come in on. -/
def stops (a : Host) : List (Switch × ℕ) :=
  [(a.side, a.port), (other a.side, trunk (other a.side))]

/-- A frame that has arrived at a switch: it is still as it was sent, or it has crossed the
trunk. -/
structure Packet.OnTheWay (pk : Packet) (sw : Switch) (port : ℕ) : Prop where
  stop : (stops pk.source)[pk.passes]? = some (sw, port)
  state : (pk.passes = 0 ∧ pk.frame = pk.original) ∨ (pk.passes = 1 ∧ ∃ b, pk.Between b)

theorem Packet.OnTheWay.passes_lt {pk : Packet} {sw : Switch} {port : ℕ}
    (h : pk.OnTheWay sw port) : pk.passes < 2 := by
  rcases h.state with ⟨hpasses, -⟩ | ⟨hpasses, -⟩
  · omega
  · omega

/-- The invariant of a frame. -/
def Packet.Ok (n : ℕ) (pk : Packet) : Prop :=
  match pk.place with
  | .arriving sw port => pk.OnTheWay sw port
  | .received b => pk.Addressed n b ∧ pk.Delivered b ∧ pk.passes = distance pk.source b
  | .dropped => (∀ b, ¬ pk.Addressed n b) ∧ pk.passes ≤ 2 ∧ (pk.Stray → pk.passes = 1)
  | .overflowed => pk.passes ≤ 2 ∧ (pk.Stray → pk.passes = 0)

/-- A stray frame does not get beyond its first switch. -/
theorem Packet.OnTheWay.passes_of_stray {pk : Packet} {sw : Switch} {port : ℕ}
    (h : pk.OnTheWay sw port) (hs : pk.Stray) : pk.passes = 0 := by
  rcases h.state with ⟨hpasses, -⟩ | ⟨-, b, -, e, ip₀, ip, hip₀, -, hdst₀, -⟩
  · exact hpasses
  · exact absurd hdst₀ (hs ip₀ hip₀ b)

theorem other_of_ne {a b : Switch} (h : b ≠ a) : b = other a := by
  cases a <;> cases b <;> first | rfl | exact absurd rfl h

section

variable {P : Program} {n : ℕ} {c : Control P} {sw : Switch} {port : ℕ}
  {std_meta : standard_metadata_t} {pk : Packet}

/-- A frame is at most one host's. -/
theorem addressed_unique {a b : Host} {ip : ipv4_t}
    (hip : (CommonParser pk.original).hdr.ipv4 = some ip) (hdst : ip.dst_addr = a.ip)
    (h : pk.Addressed n b) : b = a := by
  obtain ⟨-, ip', hip', hdst', -⟩ := h
  rw [hip, Option.some.injEq] at hip'
  subst hip'
  exact ip_injective (hdst'.symm.trans hdst)

/-- A frame at its first switch. -/
theorem ok_pass_first (hn : n ≤ MAX_SENDERS) (htrans : Transparent P.egress)
    (htable : c.table = routes pk.source.side) (hpasses : pk.passes = 0)
    (hframe : pk.frame = pk.original) :
    (pass (links n) c pk.source.side port std_meta pk).2.Ok n := by
  -- only an IPv4 frame with TTL above 1 to some host is routed at all
  by_cases h : ∃ ip b, (CommonParser pk.frame).hdr.ipv4 = some ip ∧ 1#8 < ip.ttl ∧
      ip.dst_addr = Host.ip b
  · obtain ⟨ip, b, hip, httl, hdst⟩ := h
    obtain ⟨e, hreads⟩ := exists_reads hip
    obtain ⟨out, ip', hout, hreads', hdst', httl'⟩ :=
      pass_toward port std_meta hn htrans htable hreads hdst httl
    have hlt := BitVec.lt_def.mp httl
    rw [hframe] at hip
    rw [hout]
    unfold Packet.Ok toward
    dsimp only
    rw [hpasses]
    -- to this side it leaves for the host, to the other over the trunk
    by_cases hs : b.side = pk.source.side
    · have hdist : distance pk.source b = 1 := if_pos hs.symm
      have hmac : ((next_hop pk.source.side b).ethernet e).dst_mac = b.mac := by
        rw [next_hop, if_pos hs]
        rfl
      rw [if_pos hs]
      by_cases ha : Active n b
      · rw [if_pos ha]
        refine ⟨⟨ha, ip, hip, hdst, ?_⟩, ⟨_, ip, ip', hip, hreads', hmac, hdst', ?_⟩, hdist.symm⟩
        · show distance pk.source b < _
          rw [hdist]
          exact hlt
        · show _ + distance pk.source b = _
          rw [hdist]
          exact httl'
      · -- a sender that was never started has no link: the frame is lost on its port
        rw [if_neg ha]
        refine ⟨fun b' hb' => ha ?_, by omega, fun hs => absurd hdst (hs ip hip b)⟩
        rw [← addressed_unique (a := b) hip hdst hb']
        exact hb'.1
    · rw [if_neg hs]
      -- on the trunk the TTL is one less and the address is the same
      exact ⟨rfl, Or.inr ⟨rfl, b, hs, _, ip, ip', hip, hreads', hdst, hdst', httl'⟩⟩
  · -- dropped: it was addressed to nobody within its TTL
    obtain ⟨out, hout⟩ := pass_dropped port std_meta pk hn htrans
      htable fun ip hip httl b hdst => h ⟨ip, b, hip, httl, hdst⟩
    rw [hout]
    refine ⟨?_, show pk.passes + 1 ≤ 2 by omega, fun _ => by rw [hpasses]⟩
    rintro b ⟨-, ip, hip, hdst, hdist⟩
    rw [← hframe] at hip
    refine h ⟨ip, b, hip, ?_, hdst⟩
    have hpos : 1 ≤ distance pk.source b := by
      unfold distance
      split <;> omega
    rw [BitVec.lt_def]
    exact lt_of_le_of_lt hpos hdist

/-- A frame that has crossed the trunk. -/
theorem ok_pass_second (hn : n ≤ MAX_SENDERS) (htrans : Transparent P.egress)
    (htable : c.table = routes (other pk.source.side)) (hpasses : pk.passes = 1) {b : Host}
    (h : pk.Between b) :
    (pass (links n) c (other pk.source.side) port std_meta pk).2.Ok n := by
  obtain ⟨hs, e, ip₀, ip, hip₀, hreads, hdst₀, hdst, httl⟩ := h
  have hside : b.side = other pk.source.side := other_of_ne hs
  have hdist : distance pk.source b = 2 := if_neg (Ne.symm hs)
  by_cases hgo : 1#8 < ip.ttl
  · obtain ⟨out, ip', hout, hreads', hdst', httl'⟩ :=
      pass_toward port std_meta hn htrans htable hreads hdst hgo
    have hlt := BitVec.lt_def.mp hgo
    simp only [BitVec.toNat_ofNat] at hlt
    have hmac : ((next_hop (other pk.source.side) b).ethernet e).dst_mac = b.mac := by
      rw [next_hop, if_pos hside]
      rfl
    rw [hout]
    unfold Packet.Ok toward
    dsimp only
    rw [if_pos hside, hpasses]
    by_cases ha : Active n b
    · rw [if_pos ha]
      refine ⟨⟨ha, ip₀, hip₀, hdst₀, ?_⟩, ⟨_, ip₀, ip', hip₀, hreads', hmac, hdst', ?_⟩,
        hdist.symm⟩
      · show distance pk.source b < _
        rw [hdist]
        omega
      · show _ + distance pk.source b = _
        rw [hdist]
        omega
    · rw [if_neg ha]
      refine ⟨fun b' hb' => ha ?_, by omega, fun hs => absurd hdst₀ (hs ip₀ hip₀ b)⟩
      rw [← addressed_unique (a := b) hip₀ hdst₀ hb']
      exact hb'.1
  · -- the TTL has run out on the trunk
    obtain ⟨out, hout⟩ := pass_dropped port std_meta pk hn htrans
      htable (by
        intro ip' hip' httl'
        rw [hreads.2, Option.some.injEq] at hip'
        exact absurd (hip' ▸ httl') hgo)
    rw [hout]
    refine ⟨?_, by rw [hpasses], fun hs => absurd hdst₀ (hs ip₀ hip₀ b)⟩
    intro b' hb'
    obtain rfl := addressed_unique (a := b) hip₀ hdst₀ hb'
    obtain ⟨-, ip', hip', -, hlt⟩ := hb'
    change (CommonParser pk.original).hdr.ipv4 = some ip' at hip'
    change distance pk.source b' < _ at hlt
    rw [hip₀, Option.some.injEq] at hip'
    subst hip'
    rw [hdist] at hlt
    refine hgo ?_
    rw [BitVec.lt_def, BitVec.toNat_ofNat]
    omega

/-- A frame at any switch. -/
theorem ok_pass (hn : n ≤ MAX_SENDERS) (htrans : Transparent P.egress)
    (htable : c.table = routes sw) (h : pk.OnTheWay sw port) :
    (pass (links n) c sw port std_meta pk).2.Ok n := by
  obtain ⟨hstop, ⟨hpasses, hframe⟩ | ⟨hpasses, b, hb⟩⟩ := h
  · rw [hpasses] at hstop
    cases hstop
    exact ok_pass_first hn htrans htable hpasses hframe
  · rw [hpasses] at hstop
    cases hstop
    exact ok_pass_second hn htrans htable hpasses hb

end

/-- The invariant of the network: the tables are the loaded ones and every frame is fine. -/
structure Fabric.Ok {P : Program} (n : ℕ) (f : Fabric P) : Prop where
  table : ∀ sw, (f.control sw).table = routes sw
  packets : ∀ pk ∈ f.packets, pk.Ok n

section

variable {P : Program} {n : ℕ} {f f' : Fabric P}

theorem set_registers_table (f : Fabric P) (sw sw' : Switch) (r : P.Registers) :
    ((f.set_registers sw r).control sw').table = (f.control sw').table := by
  unfold Fabric.set_registers
  dsimp only
  by_cases h : sw' = sw
  · subst h
    rw [Function.update_self]
  · rw [Function.update_of_ne h]

/-- The events of the network, each with what it does. -/
theorem step_cases {ls : List Link} {ev : Event} (h : step ls ev f = some f') :
    (∃ b frame sw port, ev = .inject b frame ∧ far ls (.host b, 0) = some (.switch sw, port) ∧
      f' = { f with packets := f.packets ++ [⟨b, frame, 0, .arriving sw port, frame⟩] }) ∨
    (∃ i std_meta pk sw port, ev = .forward i std_meta ∧ f.packets[i]? = some pk ∧
      pk.place = .arriving sw port ∧
      f' = { f.set_registers sw (pass ls (f.control sw) sw port std_meta pk).1 with
        packets := f.packets.set i (pass ls (f.control sw) sw port std_meta pk).2 }) ∨
    (∃ i pk sw port, ev = .overflow i ∧ f.packets[i]? = some pk ∧ pk.place = .arriving sw port ∧
      f' = { f with packets := f.packets.set i { pk with place := .overflowed } }) := by
  cases ev with
  | inject b frame =>
      -- a host with no link sends nothing
      simp only [step] at h
      split at h
      · next sw port hfar =>
        exact Or.inl ⟨b, frame, sw, port, rfl, hfar, (Option.some.inj h).symm⟩
      · cases h
  | forward i std_meta =>
      -- a switch takes only what is arriving at it
      simp only [step] at h
      split at h
      · next pk hi =>
        split at h
        · next sw port hplace =>
          exact Or.inr (Or.inl ⟨i, std_meta, pk, sw, port, rfl, hi, hplace,
            (Option.some.inj h).symm⟩)
        · cases h
      · cases h
  | overflow i =>
      simp only [step] at h
      split at h
      · next pk hi =>
        split at h
        · next sw port hplace =>
          exact Or.inr (Or.inr ⟨i, pk, sw, port, rfl, hi, hplace, (Option.some.inj h).symm⟩)
        · cases h
      · cases h

theorem Packet.Ok.onTheWay {pk : Packet} {sw : Switch} {port : ℕ} (h : pk.Ok n)
    (hplace : pk.place = .arriving sw port) : pk.OnTheWay sw port := by
  unfold Packet.Ok at h
  rw [hplace] at h
  exact h

theorem ok_step (hn : n ≤ MAX_SENDERS) (htrans : Transparent P.egress) {ev : Event}
    (h : f.Ok n) (hstep : step (links n) ev f = some f') : f'.Ok n := by
  rcases step_cases hstep with ⟨b, frame, sw, port, -, hfar, rfl⟩ |
    ⟨i, std_meta, pk, sw, port, -, hi, hplace, rfl⟩ | ⟨i, pk, sw, port, -, hi, hplace, rfl⟩
  · refine ⟨h.table, ?_⟩
    intro pk hpk
    rcases List.mem_append.mp hpk with hpk | hpk
    · exact h.packets pk hpk
    · -- the switch a new frame arrives at is its host's
      obtain rfl := List.mem_singleton.mp hpk
      rw [far_host hn] at hfar
      split at hfar
      · cases hfar
        exact ⟨rfl, Or.inl ⟨rfl, rfl⟩⟩
      · cases hfar
  · refine ⟨fun sw' => (set_registers_table f sw sw' _).trans (h.table sw'), ?_⟩
    intro pk' hpk'
    rcases List.mem_or_eq_of_mem_set hpk' with hold | rfl
    · exact h.packets pk' hold
    · have hway := (h.packets pk (List.mem_of_getElem? hi)).onTheWay hplace
      exact ok_pass hn htrans (h.table sw) hway
  · refine ⟨h.table, ?_⟩
    intro pk' hpk'
    rcases List.mem_or_eq_of_mem_set hpk' with hold | rfl
    · exact h.packets pk' hold
    · have hway := (h.packets pk (List.mem_of_getElem? hi)).onTheWay hplace
      exact ⟨hway.passes_lt.le, fun hs => hway.passes_of_stray hs⟩

end

/-- What there is to say of one frame. -/
structure Packet.Routed (n : ℕ) (pk : Packet) : Prop where
  /-- It does not go round. -/
  passes_le : pk.passes ≤ 2
  on_the_way : ∀ sw port, pk.place = .arriving sw port → pk.passes < 2
  /-- A host that has it is the one it is for, and no switch too many has had it. -/
  received : ∀ b, pk.place = .received b →
    pk.Addressed n b ∧ pk.Delivered b ∧ pk.passes = distance pk.source b
  /-- Only what is for no host is dropped. -/
  dropped : pk.place = .dropped → ∀ b, ¬ pk.Addressed n b
  /-- What is no host's goes no further than the first switch, which drops it. -/
  stray : pk.Stray → (pk.passes = 0 ∧ pk.place ≠ .dropped) ∨ (pk.place = .dropped ∧ pk.passes = 1)

theorem Packet.Ok.routed {n : ℕ} {pk : Packet} (h : pk.Ok n) : pk.Routed n := by
  unfold Packet.Ok at h
  cases hplace : pk.place with
  | arriving sw port =>
      rw [hplace] at h
      refine ⟨h.passes_lt.le, fun _ _ _ => h.passes_lt, by simp [hplace], by simp [hplace], ?_⟩
      exact fun hs => Or.inl ⟨h.passes_of_stray hs, by simp [hplace]⟩
  | received b =>
      rw [hplace] at h
      -- at a host the count of passes is the distance
      have hle : pk.passes ≤ 2 := by
        rw [h.2.2, distance]
        split <;> omega
      refine ⟨hle, by simp [hplace], ?_, by simp [hplace], ?_⟩
      · intro b' hb'
        rw [hplace, Place.received.injEq] at hb'
        rw [← hb']
        exact h
      · intro hs
        -- what a host received was its own, so it is no stray
        obtain ⟨⟨-, ip, hip, hdst, -⟩, -⟩ := h
        exact absurd hdst (hs ip hip b)
  | dropped =>
      rw [hplace] at h
      exact ⟨h.2.1, by simp [hplace], by simp [hplace], fun _ => h.1,
        fun hs => Or.inr ⟨hplace, h.2.2 hs⟩⟩
  | overflowed =>
      rw [hplace] at h
      exact ⟨h.1, by simp [hplace], by simp [hplace], by simp [hplace],
        fun hs => Or.inl ⟨h.2 hs, by simp [hplace]⟩⟩

theorem Algo.transparent (algo : Algo) : Transparent algo.program.egress := by
  cases algo with
  | dctcp ecn_k => exact dctcp_transparent
  | hpcc => exact hpcc_transparent

/-- **Delivered where addressed.** With either program, whatever the arguments of
`load_tables.py` and for every number of senders `build` accepts: in every state the network
reaches, whatever the hosts send and in whatever order the switches work, a frame that has
reached a host is that host's, a frame that was dropped was no attached host's, a frame that
is no host's at all is dropped at its first switch, and no frame passes more than two
switches. -/
theorem delivered_where_addressed (algo : Algo) (bottleneck_pps bottleneck_depth : ℕ)
    (n_senders : ℤ) (ls : List Link) (hbuild : build n_senders = .ok ls) (evs : List Event)
    (f : Fabric algo.program)
    (hrun : run (step ls) (loaded algo bottleneck_pps bottleneck_depth) evs = some f) :
    ∀ pk ∈ f.packets, pk.Routed n_senders.toNat := by
  obtain ⟨hn, rfl⟩ := links_of_build hbuild
  have hstart : (loaded algo bottleneck_pps bottleneck_depth).Ok n_senders.toNat := by
    refine ⟨fun sw => (push_table algo bottleneck_pps bottleneck_depth sw).1, ?_⟩
    intro pk hpk
    exact absurd hpk List.not_mem_nil
  have hok := run_invariant (fun _ _ _ h hstep => ok_step hn (Algo.transparent algo) h hstep)
    hstart hrun
  intro pk hpk
  exact (hok.packets pk hpk).routed

def h1 : Host := .h ⟨0, by decide⟩

/-- `ping` from `h1` to `r1`. -/
def ping_frame : List Byte :=
  ethernet_t.layout.emit ⟨Host.r1.mac, host_mac 1, ETHERTYPE_IPV4⟩ ++
    ipv4_t.layout.emit ⟨4#4, 5#4, 0#6, 0#2, 20#16, 1#16, 2#3, 0#13, 64#8, 1#8, 0#16, ip_addr 1,
      Host.r1.ip⟩

/-- It goes through `s1` and `s2`. -/
def ping_events : List Event :=
  [.inject h1 ping_frame, .forward 0 idle_meta, .forward 0 idle_meta]

/-- An ARP request of `h1`. -/
def arp_frame : List Byte := ethernet_t.layout.emit ⟨Host.r1.mac, host_mac 1, 0x0806#16⟩

def arp_events : List Event := [.inject h1 arp_frame, .forward 1 idle_meta]

theorem ping_state :
    (run (step (links 2)) (loaded .hpcc 833 40) (ping_events ++ arp_events)).map
        (fun f => f.packets.map fun pk => (pk.original, pk.place, pk.passes))
      = some [(ping_frame, .received .r1, 2), (arp_frame, .dropped, 1)] := by
  decide +kernel

/-- The ping gets to `r1`, the ARP request to `s1` only. -/
theorem delivered_ping :
    (∃ pk : Packet, pk.place = .received .r1 ∧ pk.Addressed 2 .r1) ∧
    ∃ pk : Packet, pk.Stray ∧ pk.place = .dropped ∧ pk.passes = 1 := by
  obtain ⟨f, hrun, hstate⟩ := Option.map_eq_some_iff.mp ping_state
  have hrouted := delivered_where_addressed .hpcc 833 40 2 (links 2) rfl _ f hrun
  have hfind : ∀ x ∈ [(ping_frame, Place.received .r1, 2), (arp_frame, Place.dropped, 1)],
      ∃ pk ∈ f.packets, (pk.original, pk.place, pk.passes) = x := by
    rw [← hstate]
    exact fun x hx => List.mem_map.mp hx
  constructor
  · obtain ⟨pk, hpk, heq⟩ := hfind (ping_frame, .received .r1, 2) (by simp)
    simp only [Prod.mk.injEq] at heq
    exact ⟨pk, heq.2.1, ((hrouted pk hpk).received .r1 heq.2.1).1⟩
  · obtain ⟨pk, hpk, heq⟩ := hfind (arp_frame, .dropped, 1) (by simp)
    simp only [Prod.mk.injEq] at heq
    -- there is no IPv4 header to read an address from
    have hstray : pk.Stray := by
      intro ip hip
      have hnone : (CommonParser arp_frame).hdr.ipv4 = none := by decide +kernel
      rw [heq.1, hnone] at hip
      cases hip
    rcases (hrouted pk hpk).stray hstray with h | h
    · exact absurd heq.2.1 h.2
    · exact ⟨pk, hstray, h⟩

/-- Packet 7 of `h3`, as it leaves. -/
def frame_of_h3 : UdpFrame where
  ethernet := ⟨Host.r1.mac, host_mac 3, ETHERTYPE_IPV4⟩
  ipv4 := ⟨4#4, 5#4, 0#6, 2#2, 48#16, 1#16, 2#3, 0#13, 64#8, IP_PROTO_UDP, 0#16, ip_addr 3,
    Host.r1.ip⟩
  udp := ⟨ACK_PORT, DATA_PORT, 28#16, 0#16⟩
  payload := data_bytes ⟨0#8, 0#8, 4#8, 0#8⟩ [] ⟨7#32, 1000#64, 0#32⟩ []
  is_ipv4 := rfl
  version_eq := rfl
  no_options := rfl
  unfragmented := ⟨rfl, rfl⟩
  is_udp := rfl
  total_len_eq := rfl
  length_eq := rfl

end IntHpcc.Dumbbell
