/-
The whole experiment: senders, switches, reflector.

`Network` puts a sender over a network that may do anything with its packets, and lets the
delivery of a packet bring any hops. `Dumbbell` is the real network, with switches that
parse, route and stamp bytes, and with everybody's traffic on the same links. Here the two
meet. Every sender host runs a sender, their kernels put its datagrams into frames, the
fabric moves the frames, the reflector on `r1` answers what reaches its port and the
answers find the listeners. The switches run either of the two programs.

The result is a simulation, `deployment_refines`: seen from one sender, whatever the
others do, the experiment is a run of that sender's own `Network`, and each delivery in it
brings what the two switches of the path have really seen of this very packet. So what holds
of every run of `Network` holds of every sender in the experiment.

Left out are what `measure_base_rtt` sends before `run`, so the base RTT is one given on the
command line; datagrams of other programs from or to the transport's ports of `h{k + 1}`
(`Leaves`); and fragments: a datagram goes out in one frame or not at all.

The invariant says of every frame what it is (`Frame.Data`, `Frame.Answer`, or none of the
transport's); that it stays what it is is `FrameOrigin`.
-/
import IntHpcc.DataPlanes
import IntHpcc.Network

set_option autoImplicit false

namespace IntHpcc.ClosedLoop

open IntHpcc.Runs IntHpcc.Bytes IntHpcc.Py IntHpcc.SenderCore IntHpcc.SenderWindow
open IntHpcc.Reflector IntHpcc.P4 IntHpcc.LoadTables IntHpcc.Dumbbell IntHpcc.DumbbellNotes
open IntHpcc.DataPlanes
open IntHpcc.PacketFormat (DataPayload)
open IntHpcc.Network (Net NetEvent arriving reflect)

/-- `_TOS_ECT0`, the TOS byte all senders set on their socket. -/
def TOS_ECT0 : Byte := 2#8

/-- `_IP_TOS` of the reflector, on Linux. -/
def IP_TOS : ℕ := 1

/-- A sender on each sender host, and the fabric. -/
structure System (C : SenderClass) (algo : Algo) where
  sender : Fin MAX_SENDERS → C.Proc
  fabric : Fabric algo.program

inductive SystemEvent
  /-- the threads of the sender on `h{k + 1}`; the listener's events are `receive` -/
  | thread (k : Fin MAX_SENDERS) (op : Op)
  /-- the kernel of `h{k + 1}` sends the `i`-th datagram of the sender in the frame `f` -/
  | transmit (k : Fin MAX_SENDERS) (i : ℕ) (f : UdpFrame)
  /-- a switch takes the `i`-th frame -/
  | forward (i : ℕ) (std_meta : standard_metadata_t)
  /-- the `i`-th frame is lost -/
  | overflow (i : ℕ)
  /-- another program on a host sends a frame -/
  | other (b : Host) (frame : List Byte)
  /-- the reflector reads the `i`-th frame, which is `f`, and answers in the frame `g` -/
  | reflect (i : ℕ) (f g : UdpFrame) (ancdata : List Cmsg) (recv_ts_us : Us)
  /-- the listener on `h{k + 1}` reads the `i`-th frame, which is `f` -/
  | receive (k : Fin MAX_SENDERS) (i : ℕ) (f : UdpFrame) (clk : AckClock)

/-- What a thread does only when the network hands it something. -/
def FromListener : Op → Prop
  | .datagram _ _ => True
  | _ => False

instance : DecidablePred FromListener
  | .acquire => inferInstanceAs (Decidable False)
  | .send _ => inferInstanceAs (Decidable False)
  | .release => inferInstanceAs (Decidable False)
  | .datagram _ _ => inferInstanceAs (Decidable True)
  | .rto _ _ _ => inferInstanceAs (Decidable False)

/-- The frame `f` carries the datagram `payload` from `src` to the port `port` of `dst`. -/
structure Carries (f : UdpFrame) (src dst : BitVec 32) (port : BitVec 16) (payload : List Byte) :
    Prop where
  src_addr : f.ipv4.src_addr = src
  dst_addr : f.ipv4.dst_addr = dst
  dst_port : f.udp.dst_port = port
  payload : f.payload = payload

instance (f : UdpFrame) (src dst : BitVec 32) (port : BitVec 16) (payload : List Byte) :
    Decidable (Carries f src dst port payload) :=
  decidable_of_iff (f.ipv4.src_addr = src ∧ f.ipv4.dst_addr = dst ∧ f.udp.dst_port = port ∧
    f.payload = payload) ⟨fun ⟨h₁, h₂, h₃, h₄⟩ => ⟨h₁, h₂, h₃, h₄⟩, fun h => ⟨h.1, h.2, h.3, h.4⟩⟩

/-- The `i`-th frame has reached the host and is `f`, a datagram to its port `port`. -/
def Hands {P : Program} (fabric : Fabric P) (i : ℕ) (b : Host) (port : BitVec 16)
    (f : UdpFrame) : Prop :=
  ∃ pk ∈ fabric.packets[i]?, pk.place = .received b ∧ pk.frame = f.bytes ∧ f.udp.dst_port = port

instance {P : Program} (fabric : Fabric P) (i : ℕ) (b : Host) (port : BitVec 16) (f : UdpFrame) :
    Decidable (Hands fabric i b port f) :=
  inferInstanceAs (Decidable (∃ pk ∈ fabric.packets[i]?, _))

instance (ip_tos : ℕ) (ip : ipv4_t) (ancdata : List Cmsg) :
    Decidable (TosDelivered ip_tos ip ancdata) :=
  decidable_of_iff ((∃ c ∈ ancdata, c.level = IPPROTO_IP ∧ c.type_ = ip_tos) ∧
    ∀ c ∈ ancdata, c.level = IPPROTO_IP → c.type_ = ip_tos → c.data = [ip.tos])
    ⟨fun ⟨h₁, h₂⟩ => ⟨h₁, h₂⟩, fun h => ⟨h.1, h.2⟩⟩

section

variable {C : SenderClass} {algo : Algo}

def System.set_sender (s : System C algo) (k : Fin MAX_SENDERS) (p : C.Proc) : System C algo :=
  { s with sender := Function.update s.sender k p }

/-- An event of the fabric. -/
def System.network (ls : List Link) (ev : Dumbbell.Event) (s : System C algo) :
    Option (System C algo) :=
  (Dumbbell.step ls ev s.fabric).map fun f => { s with fabric := f }

/-- One event of the experiment. -/
def System.step (ls : List Link) (cfg : Fin MAX_SENDERS → C.Config)
    (max_packets : Fin MAX_SENDERS → Option ℤ) :
    SystemEvent → System C algo → Option (System C algo)
  | .thread k op, s =>
    if FromListener op then none
    else (C.step (cfg k) (max_packets k) op (s.sender k)).map (s.set_sender k)
  | .transmit k i f, s =>
    match (s.sender k).self.sock[i]? with
    | none => none
    | some payload =>
      match arriving (C.padding (cfg k)) payload [] with
      | .error _ => none
      | .ok data =>
        if Carries f (Host.h k).ip Host.r1.ip DATA_PORT data ∧ f.ipv4.tos = TOS_ECT0 ∧
            f.ipv4.total_len.toNat ≤ MTU then
          s.network ls (.inject (.h k) f.bytes)
        else none
  | .forward i std_meta, s => s.network ls (.forward i std_meta)
  | .overflow i, s => s.network ls (.overflow i)
  | .other b frame, s => s.network ls (.inject b frame)
  | .reflect i f g ancdata recv_ts_us, s =>
    if Hands s.fabric i .r1 DATA_PORT f ∧ TosDelivered IP_TOS f.ipv4 ancdata then
      match reflect f.payload (read_ecn (some IP_TOS) ancdata) recv_ts_us with
      | none => some s
      | some ack =>
        if Carries g Host.r1.ip f.ipv4.src_addr ACK_PORT ack then
          s.network ls (.inject .r1 g.bytes)
        else none
    else none
  | .receive k i f clk, s =>
    if Hands s.fabric i (.h k) ACK_PORT f then
      (C.step (cfg k) (max_packets k) (.datagram f.payload clk) (s.sender k)).map (s.set_sender k)
    else none

/-- The work of the switches is noted. -/
def System.note (ev : SystemEvent) (s : System C algo) : List Taken :=
  match ev with
  | .forward i std_meta => DumbbellNotes.note (.forward i std_meta) s.fabric
  | _ => []

def System.start (C : SenderClass) (algo : Algo) (cfg : Fin MAX_SENDERS → C.Config)
    (monotonic : Fin MAX_SENDERS → ℚ) (bottleneck_pps bottleneck_depth : ℕ) : System C algo where
  sender k := C.start (cfg k) (monotonic k)
  fabric := loaded algo bottleneck_pps bottleneck_depth

end

/-! ## What a frame is -/

/-- A frame of `h{k + 1}` with one of its sender's datagrams. -/
def DataOf (k : Fin MAX_SENDERS) (padding : ℕ) (sock : List DataPayload) (pk : Packet) : Prop :=
  pk.source = .h k ∧ ∃ (g : UdpFrame) (payload : DataPayload) (data : List Byte),
    pk.original = g.bytes ∧ payload ∈ sock ∧ arriving padding payload [] = .ok data ∧
      Carries g (Host.h k).ip Host.r1.ip DATA_PORT data ∧ g.ipv4.tos = TOS_ECT0 ∧
        g.ipv4.total_len.toNat ≤ MTU

/-- A frame of `r1` with one of the reflector's answers to that sender. -/
def AnswerTo (k : Fin MAX_SENDERS) (acks : List (List Byte)) (pk : Packet) : Prop :=
  pk.source = .r1 ∧ ∃ (g : UdpFrame) (shim : shim_t) (hops : List int_hop_t) (ack : ack_payload_t),
    pk.original = g.bytes ∧ Counted shim hops ∧ ack_bytes shim hops ack [] ∈ acks ∧
      Carries g Host.r1.ip (Host.h k).ip ACK_PORT (ack_bytes shim hops ack [])

/-- A frame on the network, as it concerns the sender on `h{k + 1}`. -/
def Known (k : Fin MAX_SENDERS) (padding : ℕ) (sock : List DataPayload) (acks : List (List Byte))
    (pk : Packet) : Prop :=
  DataOf k padding sock pk ∨ AnswerTo k acks pk ∨ ¬ Talks (Host.h k).ip pk.original

/-- A data packet of `h{k + 1}` has come to `r1` with these hops and this ECN codepoint: they
are what the notes tell of the very frame that has brought it. -/
def Reports {algo : Algo} (D : DataPlane algo) (notes : List Taken) (k : Fin MAX_SENDERS)
    (padding : ℕ) (payload : DataPayload) (hops : List PacketFormat.IntHop) (ecn_codepoint : ℕ) :
    Prop :=
  ∃ (i : ℕ) (data : List Byte) (entries : List int_hop_t) (ecn : BitVec 2),
    arriving padding payload [] = .ok data ∧ Brought notes i k data ∧
      D.Brings notes i k entries ecn ∧ hops = entries.map int_hop_t.view ∧
      ecn_codepoint = ecn.toNat

section

variable {algo : Algo} {D : DataPlane algo} {m i : ℕ} {q : Fabric algo.program × List Taken}
  {notes notes' : List Taken} {pk : Packet} {k : Fin MAX_SENDERS} {padding : ℕ}
  {sock sock' : List DataPayload} {acks acks' : List (List Byte)} {f : UdpFrame}

theorem Reports.mono {payload : DataPayload} {hops : List PacketFormat.IntHop} {ecn_codepoint : ℕ}
    (h : Reports D notes k padding payload hops ecn_codepoint) (hnotes : notes <+: notes') :
    Reports D notes' k padding payload hops ecn_codepoint := by
  obtain ⟨i, data, entries, ecn, harr, hbrought, hbrings, hrest⟩ := h
  exact ⟨i, data, entries, ecn, harr, hbrought.mono hnotes, D.mono hbrings hnotes, hrest⟩

theorem Known.mono (h : Known k padding sock acks pk) (hsock : sock ⊆ sock') (hacks : acks ⊆ acks') :
    Known k padding sock' acks' pk := by
  rcases h with ⟨hsource, g, payload, data, horig, hmem, harr⟩ |
    ⟨hsource, g, shim, hops, ack, horig, hcount, hmem, hcarries⟩ | h
  · exact Or.inl ⟨hsource, g, payload, data, horig, hsock hmem, harr⟩
  · exact Or.inr (Or.inl ⟨hsource, g, shim, hops, ack, horig, hcount, hacks hmem, hcarries⟩)
  · exact Or.inr (Or.inr h)

/-- What a host is handed has come through switches. -/
theorem worked_received (h : Noted D.ledger m q) (hi : q.1.packets[i]? = some pk) {b : Host}
    (hplace : pk.place = .received b) (hframe : pk.frame = f.bytes) :
    Worked D.ledger q.2 (visits q.2 i) pk.original f.bytes := by
  have hworked := h.followed i pk hi (by rw [hplace]; simp)
  rwa [hframe] at hworked

/-- It is addressed to this host, and has been from the start. -/
theorem dst_received (h : Noted D.ledger m q) (hi : q.1.packets[i]? = some pk) {b : Host}
    (hplace : pk.place = .received b) (hframe : pk.frame = f.bytes) :
    f.ipv4.dst_addr = b.ip ∧ ∀ g : UdpFrame, pk.original = g.bytes → g.ipv4.dst_addr = b.ip := by
  have hworked := worked_received h hi hplace hframe
  obtain ⟨⟨-, ip₀, hip₀, hdst₀, -⟩, -, -⟩ :=
    (h.ok.packets pk (List.mem_of_getElem? hi)).routed.received b hplace
  obtain ⟨e₀, hreads₀⟩ := exists_reads hip₀
  obtain ⟨e, ip, hreads, -, hdst⟩ :=
    hworked.reads (Algo.transparent algo) ⟨e₀, ip₀, hreads₀, rfl, rfl⟩
  have hip : f.ipv4 = ip := Option.some.inj (f.reads.2.symm.trans hreads.2)
  refine ⟨by rw [hip, hdst, hdst₀], ?_⟩
  intro g horig
  rw [horig, g.reads.2, Option.some.injEq] at hip₀
  rw [hip₀, hdst₀]

/-- A datagram of a sender in the data plane: it leaves without entries, and with the
entries of the switches it is the datagram `arriving` says. -/
theorem arriving_headers {payload : DataPayload} {data : List Byte}
    (h : arriving padding payload [] = .ok data) :
    ∃ (shim : shim_t) (d : data_payload_t) (tail : List Byte),
      shim.hop_count = 0#8 ∧ data = data_bytes shim [] d tail ∧
      ∀ hops : List int_hop_t, hops.length ≤ P4.MAX_HOPS →
        arriving padding payload (hops.map int_hop_t.view)
          = .ok (data_bytes (shim.counting hops) hops d tail) := by
  unfold arriving at h
  obtain ⟨body, hbody, h⟩ := bind_eq_ok.mp h
  obtain rfl := PacketFormat.pure_eq_ok.mp h
  obtain ⟨shim, d, hshim, hd, rfl⟩ := exists_data_packet hbody rfl
  -- a fresh packet has an empty stack
  have hcount : Counted shim [] := counted_of_view (Nat.zero_le _) (by rw [hshim]; rfl)
  refine ⟨shim, d, List.replicate padding 0, hcount.count_eq, data_bytes_append _ _ _ _, ?_⟩
  intro hops hle
  -- with entries pushed only the count in the shim differs
  have hview : { ({} : PacketFormat.Shim) with
      hop_count := hops.length, max_hops := PacketFormat.MAX_HOPS }
      = (shim.counting hops).view := by
    rw [counting_view hle, hshim]
  have hpack := pack_data_bytes d hle hview
  rw [hd] at hpack
  unfold arriving
  rw [hpack, ok_bind]
  exact congrArg Except.ok (data_bytes_append _ _ _ _)

/-- The low two bits of the TOS byte are the ECN field. -/
theorem ecn_of_tos {ip : ipv4_t} (h : ip.tos = TOS_ECT0) : ip.ecn = DctcpSwitch.ECN_ECT_0 := by
  have htos := tos_and ip
  rw [h] at htos
  exact BitVec.eq_of_toNat_eq htos.symm

/-- **What the reflector reads** from the port of the data, from the address of a sender,
is a datagram this sender sent, with what the switches have put in. -/
theorem data_received (h : Noted D.ledger m q) (hi : q.1.packets[i]? = some pk)
    (hplace : pk.place = .received .r1) (hframe : pk.frame = f.bytes)
    (hport : f.udp.dst_port = DATA_PORT) (hsrc : f.ipv4.src_addr = (Host.h k).ip)
    (hknown : Known k padding sock acks pk) :
    ∃ payload ∈ sock, ∃ entries : List int_hop_t, entries.length ≤ P4.MAX_HOPS ∧
      arriving padding payload (entries.map int_hop_t.view) = .ok f.payload ∧
      Reports D q.2 k padding payload (entries.map int_hop_t.view) f.ipv4.ecn.toNat := by
  rcases hknown with ⟨hsource, g, payload, data, horig, hmem, harr, hcarries, htos, hmtu⟩ |
    ⟨hsource, g, shim, hops, ack, horig, -, -, hcarries⟩ | hother
  · obtain ⟨shim, d, tail, hfresh, hdata, hstamped⟩ := arriving_headers harr
    obtain ⟨out, hops, hle, hout, houtpay, hbrings⟩ := D.arrives h hi hplace hsource horig
      ⟨hcarries.dst_port, hfresh, hcarries.payload.trans hdata, ecn_of_tos htos, hmtu⟩
    obtain ⟨hip, -, hpay⟩ := UdpFrame.bytes_inj (hframe.symm.trans hout)
    refine ⟨payload, hmem, hops, hle, ?_, i, data, hops, f.ipv4.ecn, harr, ?_, ?_, rfl, rfl⟩
    · rw [hpay, houtpay]
      exact hstamped hops hle
    · -- the frame came to the first switch as its host sent it
      obtain ⟨-, -, t₁, t₂, hvisits, hstop₁, -, hworked⟩ := h.at_receiver hi hplace hsource horig
      obtain ⟨-, -, -, -, hfirst, -⟩ := hworked.cons_inv
      exact ⟨t₁, hvisits ▸ List.mem_cons_self, hstop₁, g, hfirst, hcarries.payload⟩
    · rw [hip]
      exact hbrings
  · -- an answer is not for `r1`
    have hdst := (dst_received h hi hplace hframe).2 g horig
    rw [hcarries.dst_addr] at hdst
    cases ip_injective hdst
  · refine absurd ((worked_received h hi hplace hframe).talks (Algo.carrier algo) ?_) hother
    exact (f.talks_iff _).mpr ⟨Or.inl hport, Or.inl hsrc⟩

/-- **What a listener reads** is an answer of the reflector to its sender. -/
theorem answer_received (h : Noted D.ledger m q) (hi : q.1.packets[i]? = some pk)
    (hplace : pk.place = .received (.h k)) (hframe : pk.frame = f.bytes)
    (hport : f.udp.dst_port = ACK_PORT) (hknown : Known k padding sock acks pk) :
    f.payload ∈ acks := by
  have hworked := worked_received h hi hplace hframe
  rcases hknown with ⟨hsource, g, payload, data, horig, hmem, harr, hcarries, htos, hmtu⟩ |
    ⟨hsource, g, shim, hops, ack, horig, hcount, hmem, hcarries⟩ | hother
  · -- a datagram of the sender is for `r1`
    have hdst := (dst_received h hi hplace hframe).2 g horig
    rw [hcarries.dst_addr] at hdst
    cases ip_injective hdst
  · obtain ⟨out, hout, hsame⟩ :=
      hworked.ack (Algo.carrier algo) horig hcarries.dst_port hcount hcarries.payload
    obtain ⟨-, -, hpay⟩ := UdpFrame.bytes_inj hout
    rw [hpay, hsame, hcarries.payload]
    exact hmem
  · refine absurd (hworked.talks (Algo.carrier algo) ?_) hother
    exact (f.talks_iff _).mpr ⟨Or.inr hport, Or.inr (dst_received h hi hplace hframe).1⟩

end

/-! ## The experiment, seen from one sender -/

/-- A step of the network of a sender that is one of the experiment: a delivery brings what
the notes tell of the packet that is delivered. -/
def OnDumbbell {algo : Algo} (D : DataPlane algo) {C : SenderClass} (cfg : C.Config)
    (notes : List Taken) (k : Fin MAX_SENDERS) (n : Net C) : NetEvent → Prop
  | .deliver j hops ecn_codepoint _ => ∃ payload, n.proc.self.sock[j]? = some payload ∧
      Reports D notes k (C.padding cfg) payload hops ecn_codepoint
  | _ => True

theorem OnDumbbell.mono {algo : Algo} {D : DataPlane algo} {C : SenderClass} {cfg : C.Config}
    {notes notes' : List Taken} {k : Fin MAX_SENDERS} {n : Net C} {e : NetEvent}
    (h : OnDumbbell D cfg notes k n e) (hnotes : notes <+: notes') :
    OnDumbbell D cfg notes' k n e := by
  cases e with
  | deliver j hops ecn_codepoint recv_ts_us =>
      obtain ⟨payload, hj, hreports⟩ := h
      exact ⟨payload, hj, hreports.mono hnotes⟩
  | _ => trivial

/-- The state of the network of one sender that a state of the experiment is. -/
structure Simulates {algo : Algo} (D : DataPlane algo) {C : SenderClass} (m : ℕ)
    (cfg : Fin MAX_SENDERS → C.Config) (k : Fin MAX_SENDERS) (q : System C algo × List Taken)
    (n : Net C) : Prop where
  proc : n.proc = q.1.sender k
  noted : Noted D.ledger m (q.1.fabric, q.2)
  known : ∀ pk ∈ q.1.fabric.packets, Known k (C.padding (cfg k)) n.proc.self.sock n.acks pk

section

variable {algo : Algo} {D : DataPlane algo} {C : SenderClass} {m : ℕ}
  {cfg : Fin MAX_SENDERS → C.Config} {mp : Fin MAX_SENDERS → Option ℤ} {k : Fin MAX_SENDERS}
  {s s' : System C algo} {notes : List Taken} {n n' : Net C}

/-- An event of the fabric: what is on the network stays what it is, and a new frame is
what its host makes it. -/
theorem simulates_network (hm : m ≤ MAX_SENDERS) (h : Simulates D m cfg k (s, notes) n)
    {ev : Dumbbell.Event}
    (hstep : s.network (links m) ev = some s')
    (hnew : ∀ b frame, ev = .inject b frame → ∀ pk : Packet, pk.source = b → pk.original = frame →
      Known k (C.padding (cfg k)) n.proc.self.sock n.acks pk) :
    Simulates D m cfg k (s', notes ++ DumbbellNotes.note ev s.fabric) n := by
  obtain ⟨fabric, hfabric, rfl⟩ := Option.map_eq_some_iff.mp hstep
  refine ⟨h.proc, noted_step (Algo.transparent algo) hm h.noted
    (recorded_eq_some.mpr ⟨hfabric, rfl⟩), ?_⟩
  intro pk' hpk'
  change pk' ∈ fabric.packets at hpk'
  rcases Dumbbell.step_cases hfabric with ⟨b, frame, sw, port, hev, -, rfl⟩ |
    ⟨i, std_meta, pk, sw, port, -, hi, -, rfl⟩ | ⟨i, pk, sw, port, -, hi, -, rfl⟩
  · rcases List.mem_append.mp hpk' with hold | hadded
    · exact h.known pk' hold
    · obtain rfl := List.mem_singleton.mp hadded
      exact hnew b frame hev _ rfl rfl
  · rcases List.mem_or_eq_of_mem_set hpk' with hold | rfl
    · exact h.known pk' hold
    · -- a switch keeps what a frame was sent as
      have hkept := h.known pk (List.mem_of_getElem? hi)
      unfold Dumbbell.pass
      dsimp only
      split <;> exact hkept
  · rcases List.mem_or_eq_of_mem_set hpk' with hold | rfl
    · exact h.known pk' hold
    · exact h.known pk (List.mem_of_getElem? hi)

/-- An event of the sender itself. -/
theorem simulates_thread (h : Simulates D m cfg k (s, notes) n) {op : Op} {p : C.Proc}
    (hp : C.step (cfg k) (mp k) op (s.sender k) = some p) :
    Simulates D m cfg k (s.set_sender k p, notes) { n with proc := p } := by
  refine ⟨(Function.update_self k p s.sender).symm, h.noted, ?_⟩
  intro pk hpk
  rw [← h.proc] at hp
  exact (h.known pk hpk).mono (Network.sock_sub_step hp) (List.Subset.refl _)

/-- An event of another sender. -/
theorem simulates_other (h : Simulates D m cfg k (s, notes) n) {k' : Fin MAX_SENDERS} (hne : k ≠ k')
    (p : C.Proc) : Simulates D m cfg k (s.set_sender k' p, notes) n := by
  have hsame : (s.set_sender k' p).sender k = s.sender k := by
    simp [System.set_sender, Function.update_of_ne hne]
  exact ⟨h.proc.trans hsame.symm, h.noted, h.known⟩

/-- What the threads do by themselves is an event of the network. -/
theorem exists_event {cfg : C.Config} (n : Net C) {op : Op} (h : ¬ FromListener op) :
    ∃ e : NetEvent, e.op n = some op ∧ OnDumbbell D cfg notes k n e := by
  cases op with
  | acquire => exact ⟨.acquire, rfl, trivial⟩
  | send call => exact ⟨.send call, rfl, trivial⟩
  | release => exact ⟨.release, rfl, trivial⟩
  | datagram data clk => exact absurd trivial h
  | rto now log_us calls => exact ⟨.rto now log_us calls, rfl, trivial⟩

/-- A step of the experiment is none of this sender's network, or one of its events. -/
def Moves (D : DataPlane algo) (cfg : C.Config) (mp : Option ℤ) (notes : List Taken)
    (k : Fin MAX_SENDERS) (n n' : Net C) : Prop :=
  n' = n ∨ ∃ e, Net.step cfg mp e n = some n' ∧ OnDumbbell D cfg notes k n e

/-- The threads of any sender. -/
theorem moves_thread (h : Simulates D m cfg k (s, notes) n) {k' : Fin MAX_SENDERS} {op : Op}
    {p : C.Proc} (hop : k = k' → ∃ e : NetEvent, e.op n = some op ∧ OnDumbbell D (cfg k) notes k n e)
    (hp : C.step (cfg k') (mp k') op (s.sender k') = some p) :
    ∃ n', Moves D (cfg k) (mp k) notes k n n' ∧
      Simulates D m cfg k (s.set_sender k' p, notes) n' := by
  by_cases hk : k = k'
  · subst hk
    obtain ⟨e, he, hon⟩ := hop rfl
    refine ⟨{ n with proc := p }, Or.inr ⟨e, ?_, hon⟩, simulates_thread h hp⟩
    rw [Network.net_step_of_op he, h.proc, hp]
    rfl
  · exact ⟨n, Or.inl rfl, simulates_other h hk p⟩

/-- A frame between other hosts. -/
theorem not_talks_of_ne {f : UdpFrame} (hsrc : f.ipv4.src_addr ≠ (Host.h k).ip)
    (hdst : f.ipv4.dst_addr ≠ (Host.h k).ip) : ¬ Talks (Host.h k).ip f.bytes := by
  rw [f.talks_iff]
  rintro ⟨-, h | h⟩
  · exact hsrc h
  · exact hdst h

theorem r1_ip_ne (k : Fin MAX_SENDERS) : Host.r1.ip ≠ (Host.h k).ip := by
  intro h
  cases ip_injective h

/-- The kernel of any sender's host sends a datagram. -/
theorem simulates_transmit (hm : m ≤ MAX_SENDERS) (h : Simulates D m cfg k (s, notes) n)
    {k' : Fin MAX_SENDERS} {i : ℕ} {f : UdpFrame}
    (hstep : System.step (links m) cfg mp (.transmit k' i f) s = some s') :
    Simulates D m cfg k (s', notes) n := by
  unfold System.step at hstep
  dsimp only at hstep
  split at hstep
  · cases hstep
  next payload hi =>
  split at hstep
  · cases hstep
  next data harr =>
  split at hstep
  case isFalse => cases hstep
  next hguard =>
  obtain ⟨hcarries, htos, hmtu⟩ := hguard
  -- the network only takes a frame in: nothing is noted
  rw [← List.append_nil notes]
  refine simulates_network hm h hstep ?_
  rintro b frame hev pk hsource horig
  cases hev
  -- the sender looked at, or another one on its own access link
  by_cases hk : k = k'
  · subst hk
    rw [← h.proc] at hi
    exact Or.inl ⟨hsource, f, payload, data, horig, List.mem_of_getElem? hi, harr, hcarries, htos,
      hmtu⟩
  · refine Or.inr (Or.inr ?_)
    rw [horig]
    -- its source is another host, and it goes to `r1`: not a frame of this conversation
    refine not_talks_of_ne ?_ ?_
    · rw [hcarries.src_addr]
      intro heq
      cases ip_injective heq
      exact hk rfl
    · rw [hcarries.dst_addr]
      exact r1_ip_ne k

theorem step_of_reflect {cfg : C.Config} (mp : Option ℤ) {j : ℕ} {payload : DataPayload}
    {hops : List PacketFormat.IntHop} {data ack : List Byte} {ecn_codepoint : ℕ} {recv_ts_us : Us}
    (hj : n.proc.self.sock[j]? = some payload)
    (harr : arriving (C.padding cfg) payload hops = .ok data)
    (hreflect : reflect data ecn_codepoint recv_ts_us = some ack) :
    Net.step cfg mp (.deliver j hops ecn_codepoint recv_ts_us) n = some { n with
      answered := n.answered ++ [payload.seq]
      acks := n.acks ++ [ack] } := by
  show n.deliver cfg j hops ecn_codepoint recv_ts_us = _
  unfold Net.deliver
  simp only [hj, harr, hreflect]

/-- The reflector reads a datagram of this sender: a delivery with the hops of the path,
and the answer on the network is the one this delivery puts there. -/
theorem deliver_of_received (max_packets : Option ℤ) (h : Simulates D m cfg k (s, notes) n)
    {i : ℕ} {f : UdpFrame}
    (hands : Hands s.fabric i .r1 DATA_PORT f) (hsrc : f.ipv4.src_addr = (Host.h k).ip)
    {ancdata : List Cmsg} (htos : TosDelivered IP_TOS f.ipv4 ancdata) (recv_ts_us : Us) :
    ∃ (e : NetEvent) (n' : Net C) (shim : shim_t) (hops : List int_hop_t) (ack : ack_payload_t),
      Net.step (cfg k) max_packets e n = some n' ∧ OnDumbbell D (cfg k) notes k n e ∧
      reflect f.payload (read_ecn (some IP_TOS) ancdata) recv_ts_us
        = some (ack_bytes shim hops ack []) ∧
      Counted shim hops ∧ n'.proc = n.proc ∧ n'.acks = n.acks ++ [ack_bytes shim hops ack []] := by
  obtain ⟨pk, hi, hplace, hframe, hport⟩ := hands
  obtain ⟨payload, hmem, hops, hle, harr, hreports⟩ := data_received h.noted hi hplace hframe
    hport hsrc (h.known pk (List.mem_of_getElem? hi))
  rw [← read_ecn_delivered htos] at hreports
  obtain ⟨j, hj⟩ := List.mem_iff_getElem?.mp hmem
  obtain ⟨bytes, hpack, hreflect⟩ :=
    Network.reflect_arriving harr (read_ecn (some IP_TOS) ancdata) recv_ts_us
  -- the answer copies the entries, so the data plane can read it
  have hhops : (answer { hops := hops.map int_hop_t.view, payload := payload }
      (read_ecn (some IP_TOS) ancdata) recv_ts_us).hops = hops.map int_hop_t.view := rfl
  obtain ⟨shim, ack, hcount, hbytes⟩ := exists_ack_packet hpack hhops
  rw [hbytes] at hreflect
  exact ⟨_, _, shim, hops, ack, step_of_reflect max_packets hj harr hreflect,
    ⟨payload, hj, hreports⟩, hreflect, hcount, rfl, rfl⟩

theorem moves_reflect (hm : m ≤ MAX_SENDERS) (h : Simulates D m cfg k (s, notes) n) {i : ℕ}
    {f g : UdpFrame} {ancdata : List Cmsg} {recv_ts_us : Us}
    (hstep : System.step (links m) cfg mp (.reflect i f g ancdata recv_ts_us) s = some s') :
    ∃ n', Moves D (cfg k) (mp k) notes k n n' ∧ Simulates D m cfg k (s', notes) n' := by
  unfold System.step at hstep
  dsimp only at hstep
  split at hstep
  case isFalse => cases hstep
  next hguard =>
  obtain ⟨hands, htos⟩ := hguard
  by_cases hsrc : f.ipv4.src_addr = (Host.h k).ip
  · obtain ⟨e, n', shim, hops, ack, he, hon, hreflect, hcount, hproc, hacks⟩ :=
      deliver_of_received (mp k) h hands hsrc htos recv_ts_us
    rw [hreflect] at hstep
    dsimp only at hstep
    split at hstep
    case isFalse => cases hstep
    next hcarries =>
    refine ⟨n', Or.inr ⟨e, he, hon⟩, ?_⟩
    have hgrown : Simulates D m cfg k (s, notes) n' := by
      refine ⟨hproc.trans h.proc, h.noted, fun pk hpk => ?_⟩
      rw [hproc, hacks]
      exact (h.known pk hpk).mono (List.Subset.refl _) (List.subset_append_left _ _)
    rw [← List.append_nil notes]
    refine simulates_network hm hgrown hstep ?_
    rintro b frame hev pk hsource horig
    cases hev
    refine Or.inr (Or.inl ⟨hsource, g, shim, hops, ack, horig, hcount, ?_, hsrc ▸ hcarries⟩)
    rw [hacks]
    exact List.mem_append_right _ List.mem_cons_self
  · -- an answer to someone else
    refine ⟨n, Or.inl rfl, ?_⟩
    split at hstep
    · cases hstep
      exact h
    next data hreflect =>
    split at hstep
    case isFalse => cases hstep
    next hcarries =>
    rw [← List.append_nil notes]
    refine simulates_network hm h hstep ?_
    rintro b frame hev pk hsource horig
    cases hev
    refine Or.inr (Or.inr ?_)
    rw [horig]
    refine not_talks_of_ne ?_ ?_
    · rw [hcarries.src_addr]
      exact r1_ip_ne k
    · rw [hcarries.dst_addr]
      exact hsrc

/-- A listener is handed an ACK of its network. -/
theorem Simulates.handed (h : Simulates D m cfg k (s, notes) n) {i : ℕ} {f : UdpFrame}
    (hands : Hands s.fabric i (.h k) ACK_PORT f) : f.payload ∈ n.acks := by
  obtain ⟨pk, hi, hplace, hframe, hport⟩ := hands
  exact answer_received h.noted hi hplace hframe hport (h.known pk (List.mem_of_getElem? hi))

/-- A listener reads: an ACK of its network. -/
theorem moves_receive (h : Simulates D m cfg k (s, notes) n) {k' : Fin MAX_SENDERS} {i : ℕ}
    {f : UdpFrame} {clk : AckClock}
    (hstep : System.step (links m) cfg mp (.receive k' i f clk) s = some s') :
    ∃ n', Moves D (cfg k) (mp k) notes k n n' ∧ Simulates D m cfg k (s', notes) n' := by
  unfold System.step at hstep
  dsimp only at hstep
  split at hstep
  case isFalse => cases hstep
  next hands =>
  obtain ⟨p, hp, rfl⟩ := Option.map_eq_some_iff.mp hstep
  refine moves_thread h ?_ hp
  rintro rfl
  obtain ⟨j, hj⟩ := List.mem_iff_getElem?.mp (h.handed hands)
  refine ⟨.ack j clk, ?_, trivial⟩
  rw [NetEvent.op, hj, Option.map_some]

/-- Another program leaves the datagrams of this sender alone. -/
def SystemEvent.Leaves (k : Fin MAX_SENDERS) : SystemEvent → Prop
  | .other _ frame => ¬ Talks (Host.h k).ip frame
  | _ => True

/-- **One step.** -/
theorem simulates_step (hm : m ≤ MAX_SENDERS) (h : Simulates D m cfg k (s, notes) n)
    {ev : SystemEvent} (hleaves : ev.Leaves k)
    (hstep : System.step (links m) cfg mp ev s = some s') :
    ∃ n', Moves D (cfg k) (mp k) notes k n n' ∧
      Simulates D m cfg k (s', notes ++ System.note ev s) n' := by
  cases ev with
  | forward i std_meta => exact ⟨n, Or.inl rfl, simulates_network hm h hstep (by simp)⟩
  -- only the work of a switch is noted
  | thread k' op =>
      simp only [System.note, List.append_nil]
      unfold System.step at hstep
      dsimp only at hstep
      split at hstep
      case isTrue => cases hstep
      next hop =>
      obtain ⟨p, hp, rfl⟩ := Option.map_eq_some_iff.mp hstep
      exact moves_thread h (fun _ => exists_event n hop) hp
  | transmit k' i f =>
      simp only [System.note, List.append_nil]
      exact ⟨n, Or.inl rfl, simulates_transmit hm h hstep⟩
  | overflow i => exact ⟨n, Or.inl rfl, simulates_network hm h hstep (by simp)⟩
  | other b frame =>
      refine ⟨n, Or.inl rfl, simulates_network hm h hstep ?_⟩
      rintro b' frame' hev pk hsource horig
      cases hev
      exact Or.inr (Or.inr (horig ▸ hleaves))
  | reflect i f g ancdata recv_ts_us =>
      simp only [System.note, List.append_nil]
      exact moves_reflect hm h hstep
  | receive k' i f clk =>
      simp only [System.note, List.append_nil]
      exact moves_receive h hstep

theorem simulates_start (monotonic : Fin MAX_SENDERS → ℚ) (bottleneck_pps bottleneck_depth : ℕ) :
    Simulates D m cfg k (System.start C algo cfg monotonic bottleneck_pps bottleneck_depth, [])
      (Net.start C (cfg k) (monotonic k)) := by
  refine ⟨rfl, noted_loaded D.opens bottleneck_pps bottleneck_depth m, ?_⟩
  intro pk hpk
  exact absurd hpk List.not_mem_nil

/-- What `Moves` is as a run. -/
theorem Moves.run {cfg : C.Config} {mp : Option ℤ} (h : Moves D cfg mp notes k n n') :
    ∃ es : List NetEvent, run (Net.step cfg mp) n es = some n' ∧
      EachStep (Net.step cfg mp) (fun n e _ => OnDumbbell D cfg notes k n e) n es := by
  rcases h with rfl | ⟨e, he, hon⟩
  · exact ⟨[], rfl, eachStep_nil⟩
  · refine ⟨[e], ?_, (eachStep_cons he).mpr ⟨hon, eachStep_nil⟩⟩
    rw [run_cons, he]
    rfl

/-- **A run.** -/
theorem simulates_run {monotonic : Fin MAX_SENDERS → ℚ} {bottleneck_pps bottleneck_depth : ℕ}
    (D : DataPlane algo) (hm : m ≤ MAX_SENDERS) {evs : List SystemEvent}
    (hrun : run (recorded (System.step (links m) cfg mp) System.note)
      (System.start C algo cfg monotonic bottleneck_pps bottleneck_depth, []) evs
        = some (s, notes))
    (hleaves : ∀ ev ∈ evs, ev.Leaves k) :
    ∃ es n, run (Net.step (cfg k) (mp k)) (Net.start C (cfg k) (monotonic k)) es = some n ∧
      EachStep (Net.step (cfg k) (mp k)) (fun n e _ => OnDumbbell D (cfg k) notes k n e)
        (Net.start C (cfg k) (monotonic k)) es ∧
      Simulates D m cfg k (s, notes) n := by
  -- what a step relies on is a fact of the notes, and notes are only added
  have hmono : ∀ (ev : SystemEvent) (q q' : System C algo × List Taken) (n : Net C)
      (e : NetEvent) (n' : Net C), OnDumbbell D (cfg k) q.2 k n e →
      recorded (System.step (links m) cfg mp) System.note ev q = some q' →
      OnDumbbell D (cfg k) q'.2 k n e := by
    intro ev q q' n e n' hon hstep
    obtain ⟨-, hnotes⟩ := recorded_eq_some.mp hstep
    exact hon.mono (hnotes ▸ List.prefix_append _ _)
  refine run_simulates hmono
    (fun ev q q' n h hev hstep => ?_) (simulates_start monotonic bottleneck_pps bottleneck_depth)
    hleaves hrun
  obtain ⟨s, notes⟩ := q
  obtain ⟨s', notes'⟩ := q'
  obtain ⟨hsystem, rfl⟩ := recorded_eq_some.mp hstep
  -- an event of the system is a short run of the abstract network
  obtain ⟨n', hmoves, h'⟩ := simulates_step hm h hev hsystem
  obtain ⟨es, hes, hon⟩ := hmoves.run
  exact ⟨es, n', hes, hon, h'⟩

/-! ## What a listener reads -/

/-- An ACK of a packet that the sender on `h{k + 1}` has sent, with what the notes tell. -/
def Answers (D : DataPlane algo) (notes : List Taken) (k : Fin MAX_SENDERS) (padding : ℕ)
    (sock : List DataPayload) (data : List Byte) : Prop :=
  ∃ payload ∈ sock, ∃ (hops : List PacketFormat.IntHop) (ecn_codepoint : ℕ) (recv_ts_us : Us),
    (answer { hops := hops, payload := payload } ecn_codepoint recv_ts_us).pack = .ok data ∧
      Reports D notes k padding payload hops ecn_codepoint

/-- An ACK comes onto the network with a delivery. -/
theorem answers_step {cfg : C.Config} {mp : Option ℤ} {e : NetEvent}
    (h : ∀ data ∈ n.acks, Answers D notes k (C.padding cfg) n.proc.self.sock data)
    (hon : OnDumbbell D cfg notes k n e) (hstep : Net.step cfg mp e n = some n') :
    ∀ data ∈ n'.acks, Answers D notes k (C.padding cfg) n'.proc.self.sock data := by
  intro data hdata
  cases hop : e.op n with
  | some op =>
      -- a thread of the sender: `sock` only grows
      obtain ⟨p, hp, rfl⟩ := Network.step_op hop hstep
      obtain ⟨payload, hmem, hrest⟩ := h data hdata
      exact ⟨payload, Network.sock_sub_step hp hmem, hrest⟩
  | none =>
      cases e with
      | deliver j hops ecn_codepoint recv_ts_us =>
          obtain ⟨payload, ack, hj, hack, rfl⟩ := Network.step_deliver hstep
          -- a delivery: the new ACK carries the entries the dumbbell wrote
          obtain ⟨payload', hj', hreports⟩ := hon
          obtain rfl : payload = payload' := Option.some.inj (hj.symm.trans hj')
          rcases List.mem_append.mp hdata with hold | hnew
          · exact h data hold
          · obtain rfl := List.mem_singleton.mp hnew
            exact ⟨payload, List.mem_of_getElem? hj, hops, ecn_codepoint, recv_ts_us, hack,
              hreports⟩
      | acquire | send | release | rto => cases hop
      | ack j clk => simp [Net.step, hop] at hstep

end

/-- **The deployment refines the model of the network.** For either program, for every number
of sender hosts `build` accepts, in every run of all senders, all kernels, the switches and the
reflector, with any traffic of other programs that leaves the datagrams of `h{k + 1}` alone, and
with the work of the switches noted: the sender on `h{k + 1}` has gone through a run of its own
lossy network, in which every delivery brought what the notes tell of the very frame that
carried the packet through the two switches. The base RTT is given (no probes), nothing else
uses the transport's ports of that host, and a datagram over the MTU is not sent. -/
theorem deployment_refines (algo : Algo) (C : SenderClass) (cfg : Fin MAX_SENDERS → C.Config)
    (max_packets : Fin MAX_SENDERS → Option ℤ) (monotonic : Fin MAX_SENDERS → ℚ)
    (bottleneck_pps bottleneck_depth : ℕ) (n_senders : ℤ) (ls : List Link)
    (hbuild : build n_senders = .ok ls) (evs : List SystemEvent) (s : System C algo)
    (notes : List Taken)
    (hrun : run (recorded (System.step ls cfg max_packets) System.note)
      (System.start C algo cfg monotonic bottleneck_pps bottleneck_depth, []) evs
        = some (s, notes))
    (k : Fin MAX_SENDERS) (hleaves : ∀ ev ∈ evs, ev.Leaves k) :
    ∃ (es : List NetEvent) (n : Net C),
      run (Net.step (cfg k) (max_packets k)) (Net.start C (cfg k) (monotonic k)) es = some n ∧
        EachStep (Net.step (cfg k) (max_packets k))
          (fun n e _ => OnDumbbell (plane algo) (cfg k) notes k n e)
          (Net.start C (cfg k) (monotonic k)) es ∧
        n.proc = s.sender k := by
  obtain ⟨hm, rfl⟩ := links_of_build hbuild
  obtain ⟨es, n, hes, hon, hsim⟩ := simulates_run (plane algo) hm hrun hleaves
  exact ⟨es, n, hes, hon, hsim.proc⟩

/-! ## One packet and its answer -/

/-- A UDP packet of a host. -/
def datagram (dst_mac src_mac : BitVec 48) (ttl : BitVec 8) (hdr_checksum : BitVec 16)
    (src dst : Host) (port : BitVec 16) (payload : List Byte)
    (hlen : payload.length < 2 ^ 15) : UdpFrame where
  ethernet := ⟨dst_mac, src_mac, ETHERTYPE_IPV4⟩
  ipv4 := ⟨4#4, 5#4, 0#6, 2#2, BitVec.ofNat 16 (28 + payload.length), 1#16, 2#3, 0#13, ttl,
    IP_PROTO_UDP, hdr_checksum, src.ip, dst.ip⟩
  udp := ⟨ACK_PORT, port, BitVec.ofNat 16 (8 + payload.length), 0#16⟩
  payload := payload
  is_ipv4 := rfl
  version_eq := rfl
  no_options := rfl
  unfragmented := ⟨show 2#3 &&& 1#3 = 0#3 by decide, rfl⟩
  is_udp := rfl
  total_len_eq := by rw [BitVec.toNat_ofNat, Nat.mod_eq_of_lt (by omega)]
  length_eq := by rw [BitVec.toNat_ofNat, Nat.mod_eq_of_lt (by omega)]

/-- The entries packet 0 of `h1` collects in an idle network, behind a ping. -/
def idle_hops : List int_hop_t :=
  [⟨2#16, 1#16, 2#16, 0#32, 1000#48, 114#48, 100000000#32⟩,
    ⟨1#16, 1#16, 9#16, 0#32, 1000#48, 88#48, 10000000#32⟩]

/-- Packet 0 and its answer, each as it leaves and as it arrives. -/
def data_sent : UdpFrame :=
  datagram Host.r1.mac h1.mac 64#8 0#16 h1 .r1 DATA_PORT
    (data_bytes ⟨0#8, 0#8, 4#8, 0#8⟩ [] ⟨0#32, 0#64, 0#32⟩ []) (by decide)

def data_arrived : UdpFrame :=
  datagram Host.r1.mac S2_GW_MAC 62#8 10364#16 h1 .r1 DATA_PORT
    (data_bytes ⟨0#8, 2#8, 4#8, 0#8⟩ idle_hops ⟨0#32, 0#64, 0#32⟩ []) (by decide)

def answer_sent : UdpFrame :=
  datagram h1.mac Host.r1.mac 64#8 0#16 .r1 h1 ACK_PORT
    (ack_bytes ⟨0#8, 2#8, 4#8, 0#8⟩ idle_hops ⟨0#32, 0#64, 0#32⟩ []) (by decide)

def answer_arrived : UdpFrame :=
  datagram h1.mac S1_GW_MAC 62#8 10364#16 .r1 h1 ACK_PORT
    (ack_bytes ⟨0#8, 2#8, 4#8, 0#8⟩ idle_hops ⟨0#32, 0#64, 0#32⟩ []) (by decide)

def unpadded : Hpcc.Config := { Hpcc.defaults (5 / 1000) with padding := 0 }

theorem max_senders_pos : 0 < MAX_SENDERS := by decide

def first : Fin MAX_SENDERS := ⟨0, max_senders_pos⟩

/-- The kernel of `r1` hands over the TOS byte of an unmarked packet. -/
def tos_item : List Cmsg := [⟨IPPROTO_IP, IP_TOS, [TOS_ECT0]⟩]

def one_packet : List SystemEvent :=
  [.thread first .acquire, .thread first (.send sent_at_zero), .thread first .release,
    .other .r1 ping_frame, .transmit first 0 data_sent, .forward 1 idle_meta,
    .forward 1 idle_meta, .reflect 1 data_arrived answer_sent tos_item zero_us, .forward 2 idle_meta,
    .forward 2 idle_meta, .receive first 2 answer_arrived zero_clock]

theorem one_packet_state :
    (run (@System.step Hpcc.cls .hpcc (links 2) (fun _ => unpadded) (fun _ => some 1))
        (System.start Hpcc.cls .hpcc (fun _ => unpadded) (fun _ => 0) 833 40)
        one_packet).map (fun s => (s.sender first).self.cum_acked_seq) = some 0 := by
  decide +kernel

/-- It is acknowledged, so its network has made a run. -/
theorem deployment_refines_one_packet : ∃ (notes : List Taken) (es : List NetEvent)
    (n : Net Hpcc.cls), run (Net.step unpadded (some 1)) (Net.start Hpcc.cls unpadded 0) es = some n ∧
      EachStep (Net.step unpadded (some 1))
        (fun n e _ => OnDumbbell hpcc_plane unpadded notes first n e)
        (Net.start Hpcc.cls unpadded 0) es ∧
      n.proc.self.cum_acked_seq = 0 := by
  obtain ⟨s, hrun, hstate⟩ := Option.map_eq_some_iff.mp one_packet_state
  obtain ⟨notes, hnotes⟩ : ∃ notes, run (recorded (@System.step Hpcc.cls .hpcc (links 2)
      (fun _ => unpadded) (fun _ => some 1)) System.note)
      (System.start Hpcc.cls .hpcc (fun _ => unpadded) (fun _ => 0) 833 40, []) one_packet
        = some (s, notes) := exists_recorded hrun []
  have hleaves : ∀ ev ∈ one_packet, ev.Leaves first := by
    simp only [one_packet, List.forall_mem_cons, SystemEvent.Leaves, List.not_mem_nil,
      false_imp_iff, implies_true, and_true, true_and]
    exact not_talks (parse_front rfl _).2 (by decide) _
  obtain ⟨es, n, hes, hon, hproc⟩ := deployment_refines .hpcc Hpcc.cls (fun _ => unpadded)
    (fun _ => some 1) (fun _ => 0) 833 40 2 (links 2) rfl one_packet s notes hnotes first hleaves
  exact ⟨notes, es, n, hes, hon, by rw [hproc]; exact hstate⟩

end IntHpcc.ClosedLoop
