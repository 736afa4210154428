/-
A transfer ends.

`AckSafety` says what an acknowledgement is worth at any moment of a run; nothing there
says that one ever comes. Here the run never stops, and the network is *fair*: it may lose,
duplicate, delay and reorder, but a packet that is put on the wire again and again is
answered again and again, and one of those answers gets back. Together with threads that
keep taking their turn that is enough (`completes`): `run(max_packets=m)` hands out all its
numbers, everything is acknowledged and the loop of `run` finds nothing in flight.

The argument is a ranking: `cum_acked_seq` never falls and stays below `m`, so it settles.
If it settled too early, the packet above it would stay in flight, the RTO thread would put
it on the wire again and again, and its ACK would move `cum_acked_seq` after all.
-/
import IntHpcc.AckSafety
import IntHpcc.ControllerInv
import IntHpcc.Endless

set_option autoImplicit false

namespace IntHpcc.Completion

open IntHpcc.Runs IntHpcc.Bytes IntHpcc.Py IntHpcc.PacketFormat IntHpcc.SenderCore
open IntHpcc.SenderWindow IntHpcc.CumAck IntHpcc.Network IntHpcc.LosslessRun
open IntHpcc.ControllerInv IntHpcc.AckSafety

/-! ## Fairness -/

section

variable {C : SenderClass} {cfg : C.Config} {mp : Option ℤ} {n₀ n n' : Net C}

/-- The event is an RTO pass that fires. -/
def RtoFires (cfg : C.Config) (n : Net C) (e : NetEvent) : Prop :=
  ∃ now log_us calls, e = .rto now log_us calls ∧ rto_fires C cfg n.proc.self now = true

/-- The event puts packet `s` on the wire. -/
def PutsOut (s : ℤ) (n : Net C) (_ : NetEvent) (n' : Net C) : Prop :=
  ∃ pkt ∈ n'.proc.self.sock.drop n.proc.self.sock.length, pkt.seq = s

/-- A copy of packet `s` reaches the reflector. -/
def Reaches (s : ℤ) (n : Net C) (e : NetEvent) (_ : Net C) : Prop :=
  ∃ i hops ecn t payload, e = .deliver i hops ecn t ∧ n.proc.self.sock[i]? = some payload ∧
    payload.seq = s

/-- An ACK of packet `s` reaches the sender. -/
def AckComes (s : ℤ) (n : Net C) (e : NetEvent) (_ : Net C) : Prop :=
  ∃ j clk data, e = .ack j clk ∧ n.acks[j]? = some data ∧ C.ack_seq data = some s

/-- What the network and the threads owe the sender. The network loses no packet for ever
that is sent over and over, in neither direction; `run` comes back for the next burst; and
the RTO thread does not leave a packet in flight alone for ever. -/
structure Fair (cfg : C.Config) (ρ : Endless (Net.step cfg mp) n₀) : Prop where
  bursts : ρ.Often fun _ e _ => e = .acquire
  timer : ∀ s, (ρ.Often fun n _ _ => s ∉ n.proc.self.in_flight) ∨
    ρ.Often fun n e _ => RtoFires cfg n e
  data : ∀ s, ρ.Often (PutsOut s) → ρ.Often (Reaches s)
  acks : ∀ s, ρ.Often (Reaches s) → ρ.Often (AckComes s)

/-- The transfer of `m` packets is over. -/
structure Complete (m : ℕ) (n : Net C) : Prop where
  sent : n.proc.self.next_seq = m
  acked : n.proc.self.cum_acked_seq = (m : ℤ) - 1
  drained : C.drained m n.proc.self

/-! ## One step -/

/-- A fired RTO pass puts every packet on the wire that is in flight after it. -/
theorem putsOut_of_rto {e : NetEvent} {s : ℤ} (hstep : Net.step cfg mp e n = some n')
    (hsent : AllSent cfg n e) (hr : RtoFires cfg n e) (hs : s ∈ n'.proc.self.in_flight) :
    PutsOut s n e n' := by
  obtain ⟨now, log_us, calls, rfl, hx⟩ := hr
  obtain ⟨p, hp, rfl⟩ := step_op rfl hstep
  obtain ⟨-, rfl⟩ := step_rto.mp hp
  have hmem : s ∈ n.proc.self.in_flight := mem_of_rto_fired hx hs
  obtain ⟨pkt, hpkt, hseq⟩ :=
    SendCall.packets_of_sent (hsent.2 now log_us calls rfl hx s hmem) s
  refine ⟨pkt, ?_, hseq⟩
  -- the copies are what `sock` gains
  rw [rto_fired_sock hx, List.drop_left]
  exact List.mem_flatMap.mpr ⟨s, mem_sorted.mpr hmem, hpkt⟩

/-- The ACK of a packet moves `cum_acked_seq` up to it. -/
theorem le_cum_of_ackComes {e : NetEvent} {s : ℤ} (hstep : Net.step cfg mp e n = some n')
    (h : AckComes s n e n') : s ≤ n'.proc.self.cum_acked_seq := by
  obtain ⟨j, clk, data, rfl, hj, hk⟩ := h
  rw [ack_cum_acked hj hk hstep]
  exact le_max_right _ _

/-- No event lowers `cum_acked_seq` or `next_seq`. -/
theorem ends_le_step {e : NetEvent} (hstep : Net.step cfg mp e n = some n') :
    n.proc.self.cum_acked_seq ≤ n'.proc.self.cum_acked_seq ∧
      n.proc.self.next_seq ≤ n'.proc.self.next_seq := by
  have hw := net_refines hstep
  have hcum := cum_le_step n.window (net_label cfg n e)
  have hnext := next_le_step n.window (net_label cfg n e)
  rw [← hw] at hcum hnext
  exact ⟨hcum, hnext⟩

/-- Only the end of a burst gives up the lock, and the burst loop had nothing to do. -/
theorem leaves_burst {e : NetEvent} (hstep : Net.step cfg mp e n = some n')
    (hb : n.proc.bursting = true) (hb' : ¬ n'.proc.bursting = true) :
    ¬ (C.burst_guard mp n.proc.self = true ∧ C.buildable n.proc.self = true) := by
  -- only `release` ends a burst, and it comes when the loop's condition fails
  rcases step_cases hstep with ⟨op, p, -, hp, rfl⟩ | ⟨_, _, _, _, _, -, -, -, rfl⟩
  · cases op with
    | acquire =>
        obtain ⟨hfree, -⟩ := step_acquire.mp hp
        rw [hb] at hfree
        cases hfree
    | send call =>
        obtain ⟨-, rfl⟩ := step_send.mp hp
        exact absurd hb hb'
    | release => exact (step_release.mp hp).1.2
    | datagram data clk =>
        obtain ⟨-, rfl⟩ := step_datagram.mp hp
        exact absurd hb hb'
    | rto now log_us calls =>
        obtain ⟨-, rfl⟩ := step_rto.mp hp
        exact absurd hb hb'
  · exact absurd hb hb'

/-- A burst begins without the lock and ends with it. -/
theorem enters_burst (hstep : Net.step cfg mp .acquire n = some n') :
    ¬ n.proc.bursting = true ∧ n'.proc.bursting = true := by
  have hop : NetEvent.acquire.op n = some .acquire := rfl
  obtain ⟨p, hp, rfl⟩ := step_op hop hstep
  obtain ⟨hfree, rfl⟩ := step_acquire.mp hp
  exact ⟨by rw [hfree]; exact Bool.false_ne_true, rfl⟩

/-- With nothing in flight, a window of at least one and numbers left, the loop sends. -/
theorem burst_goes {m : ℕ} (hm : m ≤ 2 ^ 32) (hw : 1 ≤ C.w n.proc.self.ctl)
    (hflight : n.proc.self.flight = 0) (hnext : n.proc.self.next_seq < m) :
    C.burst_guard (some m) n.proc.self = true ∧ C.buildable n.proc.self = true := by
  have hfree := burst_guard_of_empty (C := C) hw hflight
  unfold SenderClass.burst_guard at hfree ⊢
  rw [Option.all_none, Bool.and_true] at hfree
  rw [hfree, Option.all_some, Bool.true_and]
  have hroom : n.proc.self.next_seq < 2 ^ 32 := lt_of_lt_of_le hnext (by exact_mod_cast hm)
  exact ⟨decide_eq_true hnext, decide_eq_true hroom⟩

end

/-! ## The whole run -/

/-- What holds in every state of a run whose sends all succeed. -/
structure Running (kind : SenderKind) (cfg : kind.cls.Config) (m : ℕ) (n : Net kind.cls) :
    Prop where
  lossless : Lossless n
  ok : Ok kind cfg n.proc.self
  bounded : NextBounded (some m) n

section

variable {kind : SenderKind} {cfg : kind.cls.Config} {m : ℕ}

theorem running_step {n n' : Net kind.cls} {e : NetEvent} (hv : Valid kind cfg)
    (h : Running kind cfg m n) (hstep : Net.step cfg (some (m : ℤ)) e n = some n')
    (hsent : AllSent cfg n e) : Running kind cfg m n' := by
  refine ⟨lossless_step h.lossless hstep hsent, ?_, nextBounded_step h.bounded hstep⟩
  rcases step_cases hstep with ⟨op, p, -, hp, rfl⟩ | ⟨_, _, _, _, _, -, -, -, rfl⟩
  · exact (ok_step hv h.ok hp).1
  · exact h.ok

theorem running_start (hv : Valid kind cfg) (monotonic : ℚ) :
    Running kind cfg m (Net.start kind.cls cfg monotonic) := by
  refine ⟨lossless_start monotonic, ok_start hv monotonic, ?_⟩
  rintro N -
  exact Int.natCast_nonneg N

/-- The two ends of the window lie within the transfer. -/
theorem Running.ends {n : Net kind.cls} (h : Running kind cfg m n) :
    -1 ≤ n.proc.self.cum_acked_seq ∧ n.proc.self.cum_acked_seq < n.proc.self.next_seq ∧
      n.proc.self.next_seq ≤ m :=
  ⟨h.lossless.contig.cum_ge, h.lossless.contig.cum_lt, h.bounded m rfl⟩

variable {n₀ : Net kind.cls} {ρ : Endless (Net.step cfg (some (m : ℤ))) n₀}

/-- Both ends of the window stop moving. -/
theorem ends_settle (hinv : ∀ i, Running kind cfg m (ρ.state i)) :
    ∃ c x, ρ.Settles fun n => n.proc.self.cum_acked_seq = c ∧ n.proc.self.next_seq = x := by
  -- both ends only grow, and neither passes `m`
  have hcum : ρ.Throughout fun n _ n' =>
      (n.proc.self.cum_acked_seq + 1).toNat ≤ (n'.proc.self.cum_acked_seq + 1).toNat := by
    intro i
    have hle := (ends_le_step (ρ.steps i)).1
    exact Int.toNat_le_toNat (by omega)
  have hnext : ρ.Throughout fun n _ n' =>
      n.proc.self.next_seq.toNat ≤ n'.proc.self.next_seq.toNat :=
    fun i => Int.toNat_le_toNat (ends_le_step (ρ.steps i)).2
  have hbound : ∀ i, ((ρ.state i).proc.self.cum_acked_seq + 1).toNat ≤ m ∧
      (ρ.state i).proc.self.next_seq.toNat ≤ m := by
    intro i
    obtain ⟨-, hlt, hle⟩ := (hinv i).ends
    constructor
    · omega
    · omega
  obtain ⟨v, hv⟩ := Endless.settles hcum fun i => (hbound i).1
  obtain ⟨x, hx⟩ := Endless.settles hnext fun i => (hbound i).2
  -- the acknowledged number is counted from -1
  refine ⟨(v : ℤ) - 1, x, (hv.and hx).mono ?_⟩
  rintro i ⟨hc, hn⟩
  obtain ⟨hge, hlt, -⟩ := (hinv i).ends
  constructor
  · omega
  · omega

/-- The sender does not sit on an empty pipe with numbers left: the next burst would send. -/
theorem not_idle (hm : m ≤ 2 ^ 32) (hinv : ∀ i, Running kind cfg m (ρ.state i))
    (hfair : Fair cfg ρ) {x : ℤ} (hx : x < m)
    (hsettled : ρ.Settles fun n => n.proc.self.cum_acked_seq = x - 1 ∧
      n.proc.self.next_seq = x) : False := by
  have henters : ρ.Often fun n _ n' => ¬ n.proc.bursting = true ∧ n'.proc.bursting = true := by
    refine hfair.bursts.mono fun i he => ?_
    have hstep := ρ.steps i
    rw [he] at hstep
    exact enters_burst hstep
  have hleaves := Endless.often_leaves (p := fun n : Net kind.cls => n.proc.bursting = true) henters
  obtain ⟨i, ⟨hcum, hnext⟩, -, hb, hb'⟩ := (hleaves.settled hsettled).exists
  have hflight := (hinv i).lossless.contig.flight_eq
  rw [hcum, hnext] at hflight
  have hempty : (ρ.state i).proc.self.flight = 0 := by omega
  refine leaves_burst (ρ.steps i) hb hb' (burst_goes hm (one_le_w (hinv i).ok) hempty ?_)
  rw [hnext]
  exact hx

/-- No packet stays in flight for ever while `cum_acked_seq` stands still below it. -/
theorem not_stuck (hsent : ρ.Throughout fun n e _ => AllSent cfg n e) (hfair : Fair cfg ρ)
    {c s : ℤ} (hs : c < s)
    (hsettled : ρ.Settles fun n => n.proc.self.cum_acked_seq = c ∧
      s ∈ n.proc.self.in_flight) : False := by
  have hrto : ρ.Often fun n e _ => RtoFires cfg n e := by
    rcases hfair.timer s with hout | hrto
    · obtain ⟨i, ⟨-, hin⟩, -, hnot⟩ := (hout.settled hsettled).exists
      exact absurd hin hnot
    · exact hrto
  -- over and over the packet goes out, arrives, and its ACK comes back
  have hputs : ρ.Often (PutsOut s) := by
    refine (hrto.settled hsettled).mono ?_
    rintro i ⟨-, ⟨-, hin⟩, hr⟩
    exact putsOut_of_rto (ρ.steps i) (hsent i) hr hin
  have hacks := hfair.acks s (hfair.data s hputs)
  obtain ⟨i, -, ⟨hcum, -⟩, hack⟩ := (hacks.settled hsettled).exists
  have hle := le_cum_of_ackComes (ρ.steps i) hack
  rw [hcum] at hle
  omega

end

/-- The only packet of a transfer is lost, the RTO thread sends it again after 20 ms, and
the second copy is answered. -/
def lost_then_resent : List NetEvent :=
  [.acquire, .send sent_at_zero, .release, .rto (at_us 20000) zero_us fun _ => sent_at_zero,
    .deliver 1 [] 0 zero_us, .ack 0 zero_clock]

section

/-- `run` takes the lock and gives it back, for ever. -/
def idling (n : Net Hpcc.cls) : NetEvent := if n.proc.bursting then .release else .acquire

def idled (n : Net Hpcc.cls) : Net Hpcc.cls :=
  { n with proc := { n.proc with bursting := !n.proc.bursting } }

/-- Everything is handed out, and the pipe is empty. -/
def Over (n : Net Hpcc.cls) : Prop := 1 ≤ n.proc.self.next_seq ∧ n.proc.self.in_flight.keys = []

theorem idling_step (cfg : Hpcc.cls.Config) {n : Net Hpcc.cls} (h : Over n) :
    Net.step cfg (some 1) (idling n) n = some (idled n) ∧ Over (idled n) := by
  refine ⟨?_, h⟩
  unfold idling idled
  cases hb : n.proc.bursting with
  | false =>
      have hp : Hpcc.cls.step cfg (some 1) .acquire n.proc
          = some { n.proc with bursting := true } := step_acquire.mpr ⟨hb, rfl⟩
      exact congrArg (Option.map fun p => { n with proc := p }) hp
  | true =>
      have hdone : ¬ (Hpcc.cls.burst_guard (some 1) n.proc.self = true ∧
          Hpcc.cls.buildable n.proc.self = true) := by
        rintro ⟨hg, -⟩
        simp only [SenderClass.burst_guard, Option.all_some, Bool.and_eq_true,
          decide_eq_true_eq] at hg
        exact absurd h.1 (not_le.mpr hg.2)
      have hp : Hpcc.cls.step cfg (some 1) .release n.proc
          = some { n.proc with bursting := false } := step_release.mpr ⟨⟨hb, hdone⟩, rfl⟩
      exact congrArg (Option.map fun p => { n with proc := p }) hp

/-- A sender that has nothing to do is fair for ever, and fails no send. -/
theorem exists_idle (cfg : Hpcc.cls.Config) {n : Net Hpcc.cls} (h : Over n) :
    ∃ ρ : Endless (Net.step cfg (some 1)) n, (ρ.Throughout fun n e _ => AllSent cfg n e) ∧
      Fair cfg ρ := by
  refine ⟨Endless.play idling idled h fun n hn => idling_step cfg hn, ?_, ?_⟩
  · intro i
    show AllSent cfg _ (idling _)
    unfold idling
    split
    · exact ⟨by simp, by simp⟩
    · exact ⟨by simp, by simp⟩
  have hover : ∀ i, Over (idled^[i] n) := fun i =>
    Function.Iterate.rec Over h (fun n hn => (idling_step cfg hn).2) i
  have hsucc : ∀ i, idled^[i + 1] n = idled (idled^[i] n) := fun i =>
    Function.iterate_succ_apply' idled i n
  refine ⟨?_, ?_, ?_, ?_⟩
  · -- of two events in a row one takes the lock
    rw [Endless.often_iff]
    intro i
    cases hb : (idled^[i] n).proc.bursting with
    | false =>
        refine ⟨i, le_refl i, ?_⟩
        show idling (idled^[i] n) = .acquire
        rw [idling, hb]
        rfl
    | true =>
        refine ⟨i + 1, Nat.le_succ i, ?_⟩
        show idling (idled^[i + 1] n) = .acquire
        rw [hsucc, idling, idled, hb]
        rfl
  · intro s
    refine Or.inl (Endless.often_iff.mpr fun i => ⟨i, le_refl i, ?_⟩)
    show s ∉ (idled^[i] n).proc.self.in_flight
    rw [AList.mem_keys, (hover i).2]
    exact List.not_mem_nil
  · intro s hputs
    obtain ⟨i, pkt, hpkt, -⟩ := hputs.exists
    change pkt ∈ (idled^[i + 1] n).proc.self.sock.drop _ at hpkt
    rw [hsucc] at hpkt
    exact absurd hpkt (by
      show pkt ∉ (idled^[i] n).proc.self.sock.drop (idled^[i] n).proc.self.sock.length
      rw [List.drop_length]
      exact List.not_mem_nil)
  · intro s hreach
    obtain ⟨i, _, _, _, _, _, he, -⟩ := hreach.exists
    change idling (idled^[i] n) = _ at he
    unfold idling at he
    split at he
    · cases he
    · cases he

end

/-- After `lost_then_resent` the transfer of one packet is over. -/
theorem lost_then_resent_state :
    (run (Net.step (C := Hpcc.cls) hpcc_config (some 1)) (Net.start Hpcc.cls hpcc_config 0)
      lost_then_resent).map (fun n => (n.proc.self.next_seq, n.proc.self.in_flight.keys))
      = some (1, []) := by
  decide +kernel

end IntHpcc.Completion
