/-
A sender and the reflector over a lossy network.

The network keeps everything that was ever put on it: `sock` of the sender holds the
data packets, `acks` the datagrams the reflector sent. A packet or an ACK may be
delivered at any time after it was sent, any number of times and in any order, or
never; that is loss, duplication, delay and reordering in one.

On its way a data packet collects INT hops from the switches. Here the hops are an
argument of the delivery: any hop list that still packs. `IntPath.lean` says which hop
lists the switches write.

The invariant of this file is `Reflected`: every ACK on the network is the reflector's
answer to a packet the sender sent (`reflected_step`).
-/
import IntHpcc.Dctcp
import IntHpcc.HpccV2
import IntHpcc.Reflector
import IntHpcc.SenderWindow

set_option autoImplicit false

namespace IntHpcc.Network

open IntHpcc.Runs IntHpcc.Bytes IntHpcc.Py IntHpcc.PacketFormat IntHpcc.SenderCore
open IntHpcc.SenderWindow IntHpcc.CumAck IntHpcc.Reflector

/-- The three Python senders. -/
inductive SenderKind
  | dctcp
  | hpcc
  | hpcc_v2
  deriving DecidableEq, Repr

/-- The class of each. -/
def SenderKind.cls : SenderKind → SenderClass
  | .dctcp => Dctcp.cls
  | .hpcc => Hpcc.cls
  | .hpcc_v2 => HpccV2.cls

/-- The sender's threads, the numbers of the packets the reflector has answered, and the
ACKs it has put on the network. -/
structure Net (C : SenderClass) where
  proc : C.Proc
  answered : List ℤ
  acks : List (List Byte)

inductive NetEvent
  /-- `run` takes the lock for a burst -/
  | acquire
  /-- one iteration of the burst loop -/
  | send (call : SendCall)
  /-- the burst loop is over -/
  | release
  /-- the RTO thread makes a pass -/
  | rto (now log_us : Us) (calls : ℤ → SendCall)
  /-- the `i`-th data packet reaches the reflector, with the hops it has collected and
  the ECN codepoint it arrives with -/
  | deliver (i : ℕ) (hops : List IntHop) (ecn_codepoint : ℕ) (recv_ts_us : Us)
  /-- the `j`-th ACK reaches the sender -/
  | ack (j : ℕ) (clk : AckClock)

/-- The UDP payload of a data packet once `hops` have been pushed into it. -/
def arriving (padding : ℕ) (payload : DataPayload) (hops : List IntHop) :
    Except PyError (List Byte) := do
  let body ← DataPacket.pack { hops := hops, payload := payload }
  return body ++ List.replicate padding 0

/-- The reflector receives a datagram: one ACK, or the packet is dropped as
malformed. -/
def reflect (data : List Byte) (ecn_codepoint : ℕ) (recv_ts_us : Us) : Option (List Byte) :=
  match build_ack (data.take RECV_BUF) ecn_codepoint recv_ts_us with
  | .ok ack => ack
  | .error _ => none

section

variable {C : SenderClass}

/-- The event of the sender's threads that a network event is. -/
def NetEvent.op (n : Net C) : NetEvent → Option Op
  | .acquire => some .acquire
  | .send call => some (.send call)
  | .release => some .release
  | .rto now log_us calls => some (.rto now log_us calls)
  | .deliver _ _ _ _ => none
  | .ack j clk => n.acks[j]?.map fun data => .datagram data clk

/-- The delivery of a data packet. -/
def Net.deliver (cfg : C.Config) (n : Net C) (i : ℕ) (hops : List IntHop) (ecn_codepoint : ℕ)
    (recv_ts_us : Us) : Option (Net C) :=
  match n.proc.self.sock[i]? with
  | none => none
  | some payload =>
    match arriving (C.padding cfg) payload hops with
    | .error _ => none
    | .ok data =>
      match reflect data ecn_codepoint recv_ts_us with
      | none => some n
      | some ack => some { n with
          answered := n.answered ++ [payload.seq]
          acks := n.acks ++ [ack] }

/-- One event of the network. -/
def Net.step (cfg : C.Config) (max_packets : Option ℤ) (e : NetEvent) (n : Net C) :
    Option (Net C) :=
  match e with
  | .deliver i hops ecn recv => n.deliver cfg i hops ecn recv
  | e => (e.op n).bind fun op =>
      (C.step cfg max_packets op n.proc).map fun p => { n with proc := p }

end

/-- Nothing sent, nothing answered. -/
def Net.start (C : SenderClass) (cfg : C.Config) (monotonic : ℚ) : Net C where
  proc := C.start cfg monotonic
  answered := []
  acks := []

section

variable {C : SenderClass} {cfg : C.Config} {mp : Option ℤ} {n n' : Net C}

/-! ## What an event does -/

/-- An event of the sender's threads is a step of them and of nothing else. -/
theorem net_step_of_op {e : NetEvent} {op : Op} (hop : e.op n = some op) :
    Net.step cfg mp e n = (C.step cfg mp op n.proc).map fun p => { n with proc := p } := by
  have hbind : Net.step cfg mp e n = (e.op n).bind fun op =>
      (C.step cfg mp op n.proc).map fun p => { n with proc := p } := by
    cases e with
    | deliver i hops ecn recv => cases hop
    | acquire => rfl
    | send call => rfl
    | release => rfl
    | rto now log_us calls => rfl
    | ack j clk => rfl
  rw [hbind, hop, Option.bind_some]

theorem step_op {e : NetEvent} {op : Op} (hop : e.op n = some op)
    (h : Net.step cfg mp e n = some n') :
    ∃ p, C.step cfg mp op n.proc = some p ∧ n' = { n with proc := p } := by
  rw [net_step_of_op hop, Option.map_eq_some_iff] at h
  obtain ⟨p, hp, rfl⟩ := h
  exact ⟨p, hp, rfl⟩

/-- Only a send of the network is a send of the threads. -/
theorem op_send {e : NetEvent} {call : SendCall} (h : e.op n = some (.send call)) :
    e = .send call := by
  cases e with
  | send call' => simpa [NetEvent.op] using h
  | _ => simp [NetEvent.op] at h

theorem op_rto {e : NetEvent} {now log_us : Us} {calls : ℤ → SendCall}
    (h : e.op n = some (.rto now log_us calls)) : e = .rto now log_us calls := by
  cases e with
  | rto now' log' calls' => simpa [NetEvent.op] using h
  | _ => simp [NetEvent.op] at h

/-- A datagram the listener gets is an ACK of the network. -/
theorem op_datagram {e : NetEvent} {data : List Byte} {clk : AckClock}
    (h : e.op n = some (.datagram data clk)) : ∃ j, e = .ack j clk ∧ n.acks[j]? = some data := by
  cases e with
  | ack j clk' =>
      rw [NetEvent.op, Option.map_eq_some_iff] at h
      obtain ⟨data', hj, heq⟩ := h
      obtain ⟨rfl, rfl⟩ := Op.datagram.inj heq
      exact ⟨j, rfl, hj⟩
  | _ => simp [NetEvent.op] at h

/-- A data packet with its hops is answered by the ACK packet `answer` says. -/
theorem reflect_arriving {padding : ℕ} {payload : DataPayload} {hops : List IntHop}
    {data : List Byte} (h : arriving padding payload hops = .ok data) (ecn : ℕ) (t : Us) :
    ∃ ack, (answer { hops := hops, payload := payload } ecn t).pack = .ok ack ∧
      reflect data ecn t = some ack := by
  unfold arriving at h
  obtain ⟨body, hbody, h⟩ := bind_eq_ok.mp h
  obtain rfl := pure_eq_ok.mp h
  obtain ⟨hmax, s, b, p, hs, hb, hp, hbs⟩ := packet_pack_spec hbody
  -- only the padding can be cut off by the receive buffer
  have hlen : body.length ≤ RECV_BUF := by
    rw [hbs, List.length_append, List.length_append, (Shim.unpack_pack hs).1,
      (unpack_hops_pack hb).1, (DataPayload.unpack_pack hp).1]
    simp only [SHIM_SIZE, INT_HOP_SIZE, DATA_PAYLOAD_SIZE, MAX_HOPS, RECV_BUF] at hmax ⊢
    omega
  obtain ⟨ack, hack, hbuild⟩ :=
    build_ack_pack hbody ((List.replicate padding 0).take (RECV_BUF - body.length)) ecn t
  refine ⟨ack, hack, ?_⟩
  unfold reflect
  rw [List.take_append, List.take_of_length_le hlen, hbuild]

/-- A delivery: the packet was sent, and one ACK more is on the network. -/
theorem step_deliver {i : ℕ} {hops : List IntHop} {ecn : ℕ} {t : Us}
    (h : Net.step cfg mp (.deliver i hops ecn t) n = some n') :
    ∃ payload ack, n.proc.self.sock[i]? = some payload ∧
      (answer { hops := hops, payload := payload } ecn t).pack = .ok ack ∧
      n' = { n with answered := n.answered ++ [payload.seq], acks := n.acks ++ [ack] } := by
  have hd : n.deliver cfg i hops ecn t = some n' := h
  unfold Net.deliver at hd
  cases hi : n.proc.self.sock[i]? with
  | none =>
      rw [hi] at hd
      cases hd
  | some payload =>
      rw [hi] at hd
      dsimp only at hd
      cases harr : arriving (C.padding cfg) payload hops with
      | error e =>
          rw [harr] at hd
          cases hd
      | ok data =>
          -- a well formed data packet is always answered
          obtain ⟨ack, hack, hrefl⟩ := reflect_arriving harr ecn t
          rw [harr] at hd
          dsimp only at hd
          rw [hrefl, Option.some.injEq] at hd
          exact ⟨payload, ack, rfl, hack, hd.symm⟩

/-- Whatever is not a delivery is an event of the sender's threads. -/
theorem step_thread {e : NetEvent} (he : ∀ i hops ecn t, e ≠ .deliver i hops ecn t)
    (h : Net.step cfg mp e n = some n') :
    ∃ op p, e.op n = some op ∧ C.step cfg mp op n.proc = some p ∧ n' = { n with proc := p } := by
  have hbind : Net.step cfg mp e n = (e.op n).bind fun op =>
      (C.step cfg mp op n.proc).map fun p => { n with proc := p } := by
    cases e with
    | deliver i hops ecn t => exact absurd rfl (he i hops ecn t)
    | _ => rfl
  rw [hbind, Option.bind_eq_some_iff] at h
  obtain ⟨op, hop, hmap⟩ := h
  obtain ⟨p, hp, rfl⟩ := Option.map_eq_some_iff.mp hmap
  exact ⟨op, p, hop, hp, rfl⟩

/-- The two kinds of events: one of the sender's threads, or a delivery to the
reflector. -/
theorem step_cases {e : NetEvent} (h : Net.step cfg mp e n = some n') :
    (∃ op p, e.op n = some op ∧ C.step cfg mp op n.proc = some p ∧ n' = { n with proc := p }) ∨
    (∃ hops ecn t payload ack, e.op n = none ∧ payload ∈ n.proc.self.sock ∧
      (answer { hops := hops, payload := payload } ecn t).pack = .ok ack ∧
      n' = { n with answered := n.answered ++ [payload.seq], acks := n.acks ++ [ack] }) := by
  cases hop : e.op n with
  | some op =>
      obtain ⟨p, hp, rfl⟩ := step_op hop h
      exact Or.inl ⟨op, p, rfl, hp, rfl⟩
  | none =>
      cases e with
      | deliver i hops ecn t =>
          obtain ⟨payload, ack, hi, hack, rfl⟩ := step_deliver h
          exact Or.inr ⟨hops, ecn, t, payload, ack, rfl, List.mem_of_getElem? hi, hack, rfl⟩
      | acquire => cases hop
      | send call => cases hop
      | release => cases hop
      | rto now log_us calls => cases hop
      -- there is no such ACK, so there is no step
      | ack j clk =>
          have hn : (NetEvent.ack j clk).op n = none := hop
          unfold Net.step at h
          dsimp only at h
          rw [hn] at h
          cases h

/-- All that an event of the network can do to the sender. -/
theorem net_self {e : NetEvent} (h : Net.step cfg mp e n = some n') :
    n'.proc.self = n.proc.self ∨
    (∃ call, e = .send call ∧ C.burst_guard mp n.proc.self = true ∧
      n'.proc.self = C.burst_iter n.proc.self call) ∨
    (∃ j clk data, e = .ack j clk ∧ n.acks[j]? = some data ∧
      n'.proc.self = (C.ack_listener cfg clk data n.proc.self).1) ∨
    (∃ now log_us calls, e = .rto now log_us calls ∧ rto_fires C cfg n.proc.self now = true ∧
      n'.proc.self =
        rto_checker C.snapshot C.rto_cut (C.rto_us cfg) now log_us calls n.proc.self) := by
  -- a delivery is the network's and the reflector's: the sender is as it was
  rcases step_cases h with ⟨op, p, hop, hp, rfl⟩ | ⟨_, _, _, _, _, -, -, -, rfl⟩
  · rcases step_self hp with heq | ⟨call, rfl, hg, heq⟩ | ⟨data, clk, rfl, heq⟩ |
      ⟨now, log_us, calls, rfl, hx, heq⟩
    · exact Or.inl heq
    · exact Or.inr (Or.inl ⟨call, op_send hop, hg, heq⟩)
    · obtain ⟨j, he, hj⟩ := op_datagram hop
      exact Or.inr (Or.inr (Or.inl ⟨j, clk, data, he, hj, heq⟩))
    · exact Or.inr (Or.inr (Or.inr ⟨now, log_us, calls, op_rto hop, hx, heq⟩))
  · exact Or.inl rfl

/-! ## The invariant -/

/-- Every ACK on the network answers a packet the sender handed to `sendto`, and its
number is recorded. -/
structure Reflected (n : Net C) : Prop where
  booked : Booked n.proc.self
  acks : ∀ data ∈ n.acks, ∃ (d : DataPacket) (ecn : ℕ) (t : Us),
    d.payload ∈ n.proc.self.sock ∧ d.payload.seq ∈ n.answered ∧
      (answer d ecn t).pack = .ok data
  answered : ∀ s ∈ n.answered, ∃ pkt ∈ n.proc.self.sock, pkt.seq = s

/-- The number a sender reads out of an ACK of the network. -/
theorem Reflected.ack_seq {n : Net C} (h : Reflected n) {data : List Byte} (hd : data ∈ n.acks) :
    ∃ k ∈ n.answered, C.ack_seq data = some k ∧ 0 ≤ k ∧ k < n.proc.self.next_seq := by
  obtain ⟨d, ecn, t, hsock, hans, hpack⟩ := h.acks data hd
  have hread : C.ack_seq data = some d.payload.seq := C.reads_ack hpack
  obtain ⟨h₀, h₁⟩ := h.booked.sent_lt d.payload hsock
  exact ⟨d.payload.seq, hans, hread, h₀, h₁⟩

/-- A thread event only adds to `sock`, and behind what is there. -/
theorem sock_prefix_step {op : Op} {p p' : C.Proc} (h : C.step cfg mp op p = some p') :
    p.self.sock <+: p'.self.sock := by
  cases op with
  | acquire =>
      obtain ⟨-, rfl⟩ := step_acquire.mp h
      exact List.prefix_refl _
  | send call =>
      obtain ⟨-, rfl⟩ := step_send.mp h
      show p.self.sock <+: (send_locked C.snapshot p.self p.self.next_seq call).sock
      rw [send_locked_sock]
      exact List.prefix_append _ _
  | release =>
      obtain ⟨-, rfl⟩ := step_release.mp h
      exact List.prefix_refl _
  | datagram data clk =>
      obtain ⟨-, rfl⟩ := step_datagram.mp h
      have ht := C.ack_transport cfg clk data p.self
      show p.self.sock <+: (C.ack_listener cfg clk data p.self).1.toTransport.sock
      rw [ht]
      cases C.ack_seq data with
      | none => exact List.prefix_refl _
      | some k =>
          show p.self.sock <+: (p.self.toTransport.acked k).sock
          rewrite [acked_sock]
          exact List.prefix_refl _
  | rto now log_us calls =>
      obtain ⟨-, rfl⟩ := step_rto.mp h
      show p.self.sock <+: (rto_checker C.snapshot C.rto_cut _ now log_us calls p.self).sock
      -- the copies go behind what has been sent
      by_cases hx : expired p.self.toTransport now.val (C.rto_us cfg) = true
      · rw [rto_fired_sock hx]
        exact List.prefix_append _ _
      · rewrite [rto_checker_quiet (by simpa using hx)]
        exact List.prefix_refl _

theorem sock_sub_step {op : Op} {p p' : C.Proc} (h : C.step cfg mp op p = some p') :
    p.self.sock ⊆ p'.self.sock := (sock_prefix_step h).subset

/-- Every event keeps `Reflected`. -/
theorem reflected_step {e : NetEvent} (h : Reflected n) (hstep : Net.step cfg mp e n = some n') :
    Reflected n' := by
  rcases step_cases hstep with ⟨op, p, -, hp, rfl⟩ | ⟨hops, ecn, t, payload, ack, -, hmem, hack, rfl⟩
  · have hsub := sock_sub_step hp
    refine ⟨booked_step h.booked hp, ?_, ?_⟩
    · intro data hdata
      obtain ⟨d, ecn, t, hsock, hans, hpack⟩ := h.acks data hdata
      exact ⟨d, ecn, t, hsub hsock, hans, hpack⟩
    · intro s hs
      obtain ⟨pkt, hpkt, hseq⟩ := h.answered s hs
      exact ⟨pkt, hsub hpkt, hseq⟩
  · refine ⟨h.booked, ?_, ?_⟩
    · -- the ACKs there were, and the one just made
      intro data hdata
      rcases List.mem_append.mp hdata with hdata | hdata
      · obtain ⟨d, ecn', t', hsock, hans, hpack⟩ := h.acks data hdata
        exact ⟨d, ecn', t', hsock, List.mem_append_left _ hans, hpack⟩
      · obtain rfl := List.mem_singleton.mp hdata
        exact ⟨_, ecn, t, hmem, List.mem_append_right _ (List.mem_singleton.mpr rfl), hack⟩
    · intro s hs
      rcases List.mem_append.mp hs with hs | hs
      · exact h.answered s hs
      · exact ⟨payload, hmem, (List.mem_singleton.mp hs).symm⟩

theorem reflected_start (monotonic : ℚ) : Reflected (Net.start C cfg monotonic) := by
  refine ⟨booked_start monotonic, ?_, ?_⟩
  · intro data hdata
    exact absurd hdata List.not_mem_nil
  · intro s hs
    exact absurd hs List.not_mem_nil

/-! ## The window of the sender, seen from the network -/

/-- The window event a network event is. -/
def net_label (cfg : C.Config) (n : Net C) (e : NetEvent) : Label :=
  (e.op n).elim .idle (label C cfg n.proc)

/-- The window of a network state. -/
def Net.window (n : Net C) : Window := view n.proc.self.toTransport

/-- **Refinement.** Every event of the network is the labelled event of the sender's
window. -/
theorem net_refines {e : NetEvent} (h : Net.step cfg mp e n = some n') :
    n'.window = n.window.step (net_label cfg n e) := by
  rcases step_cases h with ⟨op, p, hop, hp, rfl⟩ | ⟨hops, ecn, t, payload, ack, hop, -, -, rfl⟩
  · rw [net_label, hop]
    exact step_refines hp
  · rw [net_label, hop]
    rfl

/-- An ACK event acknowledges a number, or nothing. -/
theorem net_label_ack_event (j : ℕ) (clk : AckClock) :
    net_label cfg n (.ack j clk) = .idle ∨ ∃ k, net_label cfg n (.ack j clk) = .ack k := by
  simp only [net_label, NetEvent.op]
  cases n.acks[j]? with
  | none => exact Or.inl rfl
  | some data =>
      rw [Option.map_some, Option.elim_some, label]
      cases C.ack_seq data with
      | none => exact Or.inl rfl
      | some k => exact Or.inr ⟨k, rfl⟩

/-- The number in an ACK event, as the sender reads it. -/
theorem net_label_ack {e : NetEvent} {k : ℤ} (h : net_label cfg n e = .ack k) :
    ∃ j clk data, e = .ack j clk ∧ n.acks[j]? = some data ∧ C.ack_seq data = some k := by
  cases e with
  | acquire => cases h
  | send call => cases h
  | release => cases h
  | deliver i hops ecn t => cases h
  | rto now log_us calls =>
      simp only [net_label, NetEvent.op, Option.elim_some, label] at h
      split at h
      · cases h
      · cases h
  | ack j clk =>
      -- only a datagram that is there, and that parses, acknowledges anything
      cases hj : n.acks[j]? with
      | none =>
          simp only [net_label, NetEvent.op, hj, Option.map_none, Option.elim_none] at h
          cases h
      | some data =>
          simp only [net_label, NetEvent.op, hj, Option.map_some, Option.elim_some, label] at h
          cases hk : C.ack_seq data with
          | none =>
              rw [hk] at h
              cases h
          | some k' =>
              rw [hk] at h
              obtain rfl := Label.ack.inj h
              exact ⟨j, clk, data, rfl, hj, hk⟩

/-- Only an RTO pass that fires sends the flight again. -/
theorem net_label_resend {e : NetEvent} {l : Set ℤ} (h : net_label cfg n e = .resend l) :
    ∃ now log_us calls, e = .rto now log_us calls ∧ rto_fires C cfg n.proc.self now = true ∧
      l = lost calls := by
  cases e with
  | acquire => cases h
  | send call => cases h
  | release => cases h
  | deliver i hops ecn t => cases h
  | rto now log_us calls =>
      simp only [net_label, NetEvent.op, Option.elim_some, label] at h
      split at h
      · next hfires => exact ⟨now, log_us, calls, rfl, hfires, (Label.resend.inj h).symm⟩
      · cases h
  | ack j clk =>
      rcases net_label_ack_event j clk with hl | ⟨k, hl⟩
      · rw [hl] at h
        cases h
      · rw [hl] at h
        cases h

theorem net_label_of_ack {j : ℕ} {clk : AckClock} {data : List Byte} {k : ℤ}
    (hj : n.acks[j]? = some data) (hk : C.ack_seq data = some k) :
    net_label cfg n (.ack j clk) = .ack k := by
  simp only [net_label, NetEvent.op, hj, Option.map_some, Option.elim_some, label, hk]

/-- An ACK event is the listener's work. -/
theorem ack_self {j : ℕ} {clk : AckClock} {data : List Byte} (hj : n.acks[j]? = some data)
    (h : Net.step cfg mp (.ack j clk) n = some n') :
    n'.proc.self = (C.ack_listener cfg clk data n.proc.self).1 := by
  have hop : (NetEvent.ack j clk).op n = some (.datagram data clk) := by
    rw [NetEvent.op, hj]
    rfl
  obtain ⟨p, hp, rfl⟩ := step_op hop h
  obtain ⟨-, rfl⟩ := step_datagram.mp hp
  rfl

/-- After the ACK of `k` the highest acknowledged number is at least `k`. -/
theorem ack_cum_acked {j : ℕ} {clk : AckClock} {data : List Byte} {k : ℤ}
    (hj : n.acks[j]? = some data) (hk : C.ack_seq data = some k)
    (h : Net.step cfg mp (.ack j clk) n = some n') :
    n'.proc.self.cum_acked_seq = max n.proc.self.cum_acked_seq k := by
  have hview := net_refines h
  rw [net_label_of_ack hj hk] at hview
  have hcum := congrArg Window.cum hview
  rw [Window.step, ack_cum] at hcum
  exact hcum

/-- Over the network every acknowledgement is of a number handed out. -/
theorem Reflected.honest (h : Reflected n) (e : NetEvent) :
    (net_label cfg n e).Honest n.window := by
  intro k hk
  obtain ⟨j, clk, data, -, hj, hseq⟩ := net_label_ack hk
  obtain ⟨k', -, hseq', -, hlt⟩ := h.ack_seq (List.mem_of_getElem? hj)
  rw [hseq, Option.some.injEq] at hseq'
  rw [hseq']
  exact hlt

/-- The invariants every network run keeps: the ACKs are reflections and the window is
framed and rooted. -/
structure Sound (n : Net C) : Prop where
  reflected : Reflected n
  framed : Framed n.window
  rooted : Rooted n.window

theorem sound_step {e : NetEvent} (h : Sound n) (hstep : Net.step cfg mp e n = some n') :
    Sound n' := by
  refine ⟨reflected_step h.reflected hstep, ?_, ?_⟩
  · rw [net_refines hstep]
    exact (framed_step_iff h.framed _).mpr (h.reflected.honest e)
  · rw [net_refines hstep]
    exact rooted_step h.rooted _

theorem sound_start (monotonic : ℚ) : Sound (Net.start C cfg monotonic) := by
  have hw : (Net.start C cfg monotonic).window = Window.empty := view_start monotonic
  refine ⟨reflected_start monotonic, ?_, ?_⟩
  · rw [hw]
    exact framed_empty
  · rw [hw]
    exact rooted_empty

theorem sound_run {monotonic : ℚ} {es : List NetEvent}
    (h : run (Net.step cfg mp) (Net.start C cfg monotonic) es = some n) : Sound n :=
  run_invariant (fun _ _ _ hs hstep => sound_step hs hstep) (sound_start monotonic) h

end

end IntHpcc.Network
