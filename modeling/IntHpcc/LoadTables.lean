/-
`controller/load_tables.py`: what the controller puts into the two switches.

A `Command` is one line for `simple_switch_CLI`; `Control` is what the CLI reaches of a
switch: its table, its registers and the rates and depths of its queues. The data plane
programs differ in their registers only, so a `Program` says which registers there are, how
the CLI writes them and what egress does; `dctcp` and `hpcc` are the two.

Whatever the arguments, both programs get the same routes, one exact entry for each of the
nine hosts (`push_table`).
-/
import IntHpcc.DctcpP4

set_option autoImplicit false

namespace IntHpcc.P4

open IntHpcc.Bytes

/-! ## Exact entries -/

/-- The entry for one address: `addr/32 => dst_mac port`. -/
def host_route (addr : BitVec 32) (dst_mac : BitVec 48) (port : BitVec 9) : LpmEntry where
  addr := addr
  len := 32
  action := .ipv4_forward dst_mac port

theorem covers_of_len {e : LpmEntry} (h : e.len = 32) (dst_addr : BitVec 32) :
    e.covers dst_addr ↔ dst_addr = e.addr := by
  unfold LpmEntry.covers
  rw [h]
  simp

/-- Among exact entries the longest match is the first with the address. -/
theorem longest_of_exact {table : List LpmEntry} (h : ∀ e ∈ table, e.len = 32)
    (dst_addr : BitVec 32) :
    longest dst_addr table = table.find? fun e => dst_addr = e.addr := by
  induction table with
  | nil => rfl
  | cons e table ih =>
      have he : e.len = 32 := h e List.mem_cons_self
      have hrest : ∀ e' ∈ table, e'.len = 32 := fun e' he' => h e' (List.mem_cons_of_mem _ he')
      rw [longest, ih hrest, List.find?_cons]
      simp only [covers_of_len he]
      cases hf : table.find? fun e => dst_addr = e.addr with
      | none =>
          by_cases hd : dst_addr = e.addr
          · simp [hd]
          · simp [hd]
      | some best =>
          -- equal lengths: the earlier entry wins, as in `find?`
          have hlen : best.len ≤ e.len := by
            rw [he, hrest best (List.mem_of_find?_eq_some hf)]
          by_cases hd : dst_addr = e.addr
          · simp [hd, hlen]
          · simp [hd]

end IntHpcc.P4

namespace IntHpcc.LoadTables

open IntHpcc.P4 IntHpcc.P4.DctcpSwitch

/-! ## The programs -/

/-- What a data plane program is to the controller and to the network. -/
structure Program where
  Registers : Type
  /-- the names `register_write` takes -/
  Name : Type
  zero : Registers
  write : Name → ℕ → ℕ → Registers → Registers
  egress : Registers → headers_t → metadata_t → standard_metadata_t → Registers × headers_t

/-- A register as BMv2 makes it. -/
def zero_register (w n : ℕ) : Register w n where
  cells _ := 0#w
  past_end := 0#w

/-- `register_write name index value`. -/
def write_cell {w n : ℕ} (r : Register w n) (index value : ℕ) : Register w n :=
  r.write (BitVec.ofNat 32 index) (BitVec.ofNat w value)

inductive DctcpName
  | ecn_threshold
  | data_pkt_count
  | marked_pkt_count
  deriving DecidableEq

/-- `dctcp.p4`. -/
abbrev dctcp : Program where
  Registers := DctcpRegisters
  Name := DctcpName
  zero := ⟨zero_register 32 1, zero_register 64 1, zero_register 64 1⟩
  write
    | .ecn_threshold, i, v, r => { r with ecn_threshold := write_cell r.ecn_threshold i v }
    | .data_pkt_count, i, v, r => { r with data_pkt_count := write_cell r.data_pkt_count i v }
    | .marked_pkt_count, i, v, r => { r with marked_pkt_count := write_cell r.marked_pkt_count i v }
  egress := DctcpEgress

inductive HpccName
  | tx_byte_count_reg
  | link_bps_reg
  | switch_id_reg
  deriving DecidableEq

/-- `hpcc.p4`. -/
abbrev hpcc : Program where
  Registers := HpccRegisters
  Name := HpccName
  zero := ⟨zero_register 48 BMV2_MAX_PORTS, zero_register 32 BMV2_MAX_PORTS, zero_register 16 1⟩
  write
    | .tx_byte_count_reg, i, v, r =>
      { r with tx_byte_count_reg := write_cell r.tx_byte_count_reg i v }
    | .link_bps_reg, i, v, r => { r with link_bps_reg := write_cell r.link_bps_reg i v }
    | .switch_id_reg, i, v, r => { r with switch_id_reg := write_cell r.switch_id_reg i v }
  egress := HpccEgress

/-! ## The CLI -/

/-- One line for `simple_switch_CLI`; the table is always `ipv4_lpm`. -/
inductive Command (P : Program)
  | table_set_default (action : LpmAction)
  | table_add (entry : LpmEntry)
  | register_write (name : P.Name) (index value : ℕ)
  | set_queue_rate (pps port : ℕ)
  | set_queue_depth (packets port : ℕ)

/-- What the CLI reaches of a switch. -/
structure Control (P : Program) where
  table : List LpmEntry
  default_action : LpmAction
  registers : P.Registers
  queue_rate : List (ℕ × ℕ)
  queue_depth : List (ℕ × ℕ)

variable {P : Program}

/-- A switch as it comes up: the default is the program's `drop()`. -/
def Control.initial (P : Program) : Control P where
  table := []
  default_action := .drop
  registers := P.zero
  queue_rate := []
  queue_depth := []

/-- The two entries are for the same prefix. -/
def SamePrefix (e e' : LpmEntry) : Prop := e.addr = e'.addr ∧ e.len = e'.len

instance (e e' : LpmEntry) : Decidable (SamePrefix e e') := inferInstanceAs (Decidable (_ ∧ _))

/-- `table_add`: a second entry for a prefix that is in the table is refused. -/
def install (table : List LpmEntry) (entry : LpmEntry) : List LpmEntry :=
  if ∃ e ∈ table, SamePrefix e entry then table else table ++ [entry]

/-- One command. -/
def Command.exec (c : Control P) : Command P → Control P
  | .table_set_default action => { c with default_action := action }
  | .table_add entry => { c with table := install c.table entry }
  | .register_write name index value =>
    { c with registers := P.write name index value c.registers }
  | .set_queue_rate pps port => { c with queue_rate := (port, pps) :: c.queue_rate }
  | .set_queue_depth packets port => { c with queue_depth := (port, packets) :: c.queue_depth }

/-- `push`: the commands in order. -/
def push (commands : List (Command P)) : Control P :=
  commands.foldl Command.exec (Control.initial P)

/-! ## The constants -/

def MAX_SENDERS : ℕ := 8

/-- `10.0.0.x`. -/
def ip_addr (x : ℕ) : BitVec 32 := 10#8 ++ 0#8 ++ 0#8 ++ BitVec.ofNat 8 x

/-- `00:00:00:00:01:xx`. -/
def host_mac (x : ℕ) : BitVec 48 := 0#8 ++ 0#8 ++ 0#8 ++ 0#8 ++ 1#8 ++ BitVec.ofNat 8 x

def R1_IP : BitVec 32 := ip_addr 10
def R1_MAC : BitVec 48 := host_mac 0x0a

/-- `_sender`. -/
def sender (i : ℕ) : BitVec 32 × BitVec 48 := (ip_addr i, host_mac i)

def S1_BOTTLENECK_PORT : ℕ := MAX_SENDERS + 1

def S1_GW_MAC : BitVec 48 := 0x000000010001#48
def S2_GW_MAC : BitVec 48 := 0x000000010002#48

/-- `range(1, MAX_SENDERS + 1)`. -/
def senders : List ℕ := List.range' 1 MAX_SENDERS

/-! ## The command lists -/

section

variable (ecn_k bottleneck_pps bottleneck_depth : ℕ)

/-- `_dctcp_s1`. -/
def dctcp_s1 : List (Command dctcp) :=
  [.table_set_default .drop] ++
    senders.map (fun i =>
      .table_add (host_route (sender i).1 (sender i).2 (BitVec.ofNat 9 i))) ++
    [.table_add (host_route R1_IP S2_GW_MAC (BitVec.ofNat 9 S1_BOTTLENECK_PORT)),
      .register_write .ecn_threshold 0 ecn_k,
      .register_write .data_pkt_count 0 0,
      .register_write .marked_pkt_count 0 0,
      .set_queue_rate bottleneck_pps S1_BOTTLENECK_PORT,
      .set_queue_depth bottleneck_depth S1_BOTTLENECK_PORT]

/-- `_dctcp_s2`. -/
def dctcp_s2 : List (Command dctcp) :=
  [.table_set_default .drop] ++
    senders.map (fun i => .table_add (host_route (sender i).1 S1_GW_MAC 1#9)) ++
    [.table_add (host_route R1_IP R1_MAC 2#9),
      .register_write .ecn_threshold 0 ecn_k,
      .register_write .data_pkt_count 0 0,
      .register_write .marked_pkt_count 0 0]

/-- `_hpcc_s1`. -/
def hpcc_s1 : List (Command hpcc) :=
  [.table_set_default .drop] ++
    senders.map (fun i =>
      .table_add (host_route (sender i).1 (sender i).2 (BitVec.ofNat 9 i))) ++
    [.table_add (host_route R1_IP S2_GW_MAC (BitVec.ofNat 9 S1_BOTTLENECK_PORT)),
      .register_write .switch_id_reg 0 1] ++
    senders.flatMap (fun port =>
      [.register_write .link_bps_reg port 100000000,
        .register_write .tx_byte_count_reg port 0]) ++
    [.register_write .link_bps_reg S1_BOTTLENECK_PORT 10000000,
      .register_write .tx_byte_count_reg S1_BOTTLENECK_PORT 0,
      .set_queue_rate bottleneck_pps S1_BOTTLENECK_PORT,
      .set_queue_depth bottleneck_depth S1_BOTTLENECK_PORT]

/-- `_hpcc_s2`. -/
def hpcc_s2 : List (Command hpcc) :=
  [.table_set_default .drop] ++
    senders.map (fun i => .table_add (host_route (sender i).1 S1_GW_MAC 1#9)) ++
    [.table_add (host_route R1_IP R1_MAC 2#9),
      .register_write .switch_id_reg 0 2,
      .register_write .link_bps_reg 1 100000000,
      .register_write .link_bps_reg 2 100000000,
      .register_write .tx_byte_count_reg 1 0,
      .register_write .tx_byte_count_reg 2 0]

end

/-- `main`'s `--algo`, with the argument only DCTCP uses. -/
inductive Algo
  | dctcp (ecn_k : ℕ)
  | hpcc

def Algo.program : Algo → Program
  | .dctcp _ => LoadTables.dctcp
  | .hpcc => LoadTables.hpcc

/-- The two switches of the dumbbell. -/
inductive Switch
  | s1
  | s2
  deriving DecidableEq

/-- What `main` pushes to a switch. -/
def Algo.commands (algo : Algo) (bottleneck_pps bottleneck_depth : ℕ) :
    Switch → List (Command algo.program) :=
  match algo with
  | .dctcp ecn_k => fun
    | .s1 => dctcp_s1 ecn_k bottleneck_pps bottleneck_depth
    | .s2 => dctcp_s2 ecn_k
  | .hpcc => fun
    | .s1 => hpcc_s1 bottleneck_pps bottleneck_depth
    | .s2 => hpcc_s2

/-! ## The table -/

/-- The routes both programs get. -/
def routes : Switch → List LpmEntry
  | .s1 => senders.map (fun i => host_route (sender i).1 (sender i).2 (BitVec.ofNat 9 i)) ++
      [host_route R1_IP S2_GW_MAC (BitVec.ofNat 9 S1_BOTTLENECK_PORT)]
  | .s2 => senders.map (fun i => host_route (sender i).1 S1_GW_MAC 1#9) ++
      [host_route R1_IP R1_MAC 2#9]

/-- The entries a command list adds. -/
def added (commands : List (Command P)) : List LpmEntry :=
  commands.filterMap fun
    | .table_add entry => some entry
    | _ => none

theorem foldl_exec_table (commands : List (Command P)) (c : Control P) :
    (commands.foldl Command.exec c).table = (added commands).foldl install c.table := by
  induction commands generalizing c with
  | nil => rfl
  | cons command commands ih =>
      rw [List.foldl_cons, ih]
      cases command <;> rfl

/-- Entries for different prefixes are all taken, in order. -/
theorem foldl_install {entries table : List LpmEntry}
    (h : (table ++ entries).Pairwise fun e e' => ¬ SamePrefix e e') :
    entries.foldl install table = table ++ entries := by
  induction entries generalizing table with
  | nil => exact (List.append_nil _).symm
  | cons entry entries ih =>
      have hnew : ¬ ∃ e ∈ table, SamePrefix e entry := by
        rintro ⟨e, he, hsame⟩
        exact (List.pairwise_append.mp h).2.2 e he entry List.mem_cons_self hsame
      rw [List.append_cons] at h
      rw [List.foldl_cons, install, if_neg hnew, ih h, ← List.append_cons]

/-- The defaults a command list sets, one after the other. -/
def defaults (commands : List (Command P)) : List LpmAction :=
  commands.filterMap fun
    | .table_set_default action => some action
    | _ => none

theorem foldl_exec_default (commands : List (Command P)) (c : Control P) :
    (commands.foldl Command.exec c).default_action
      = (defaults commands).foldl (fun _ action => action) c.default_action := by
  induction commands generalizing c with
  | nil => rfl
  | cons command commands ih =>
      rw [List.foldl_cons, ih]
      cases command <;> rfl

/-- The register writes of a command list. -/
def writes (commands : List (Command P)) : List (P.Name × ℕ × ℕ) :=
  commands.filterMap fun
    | .register_write name index value => some (name, index, value)
    | _ => none

theorem foldl_exec_registers (commands : List (Command P)) (c : Control P) :
    (commands.foldl Command.exec c).registers
      = (writes commands).foldl (fun r w => P.write w.1 w.2.1 w.2.2 r) c.registers := by
  induction commands generalizing c with
  | nil => rfl
  | cons command commands ih =>
      rw [List.foldl_cons, ih]
      cases command <;> rfl

/-- No two of the routes are for the same prefix. -/
theorem routes_pairwise (sw : Switch) :
    (routes sw).Pairwise fun e e' => ¬ SamePrefix e e' := by
  cases sw with
  | s1 => decide
  | s2 => decide

theorem added_commands (algo : Algo) (bottleneck_pps bottleneck_depth : ℕ) (sw : Switch) :
    added (algo.commands bottleneck_pps bottleneck_depth sw) = routes sw ∧
      defaults (algo.commands bottleneck_pps bottleneck_depth sw) = [.drop] := by
  cases algo with
  | dctcp ecn_k => cases sw <;> exact ⟨rfl, rfl⟩
  | hpcc => cases sw <;> exact ⟨rfl, rfl⟩

/-- Whatever the arguments, the commands leave these routes, and the default the program
comes with. -/
theorem push_table (algo : Algo) (bottleneck_pps bottleneck_depth : ℕ) (sw : Switch) :
    (push (algo.commands bottleneck_pps bottleneck_depth sw)).table = routes sw ∧
      (push (algo.commands bottleneck_pps bottleneck_depth sw)).default_action = .drop := by
  obtain ⟨hadded, hdefaults⟩ := added_commands algo bottleneck_pps bottleneck_depth sw
  constructor
  · rw [push, foldl_exec_table, hadded]
    exact foldl_install (routes_pairwise sw)
  · rw [push, foldl_exec_default, hdefaults]
    rfl

end IntHpcc.LoadTables
