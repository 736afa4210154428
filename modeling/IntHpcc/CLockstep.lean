/-
The C sender and the Python `HpccSender` on the same events.

Both take every event at one reading of the clocks, and the ACKs that reach them are the
reflector's answers to packets they have sent. As long as every `sendto` succeeds, the
packets in flight are consecutive numbers, fewer than the slots of the C sender; so what
`CRefines.lean` says of the single operations holds of whole runs.

A retransmission that fails is where the two part: the Python RTO pass has emptied
`in_flight` before it sends, so the packet is gone, while the C sender leaves it in its
slot.
-/
import IntHpcc.CRefines

set_option autoImplicit false

namespace IntHpcc.CLockstep

open IntHpcc.Runs IntHpcc.Bytes IntHpcc.Py IntHpcc.PacketFormat IntHpcc.SenderCore
open IntHpcc.Network IntHpcc.LosslessRun IntHpcc.CSender IntHpcc.CRefines

/-! ## Both senders at once -/

/-- What can happen. A burst's `sendto` succeeds; `refused` are the packets whose
retransmission an RTO pass does not get rid of. -/
inductive Event
  /-- the burst loop takes the lock -/
  | acquire
  /-- one iteration of the burst loop -/
  | send
  /-- the burst loop is over -/
  | release
  /-- a check for timeouts -/
  | rto (refused : ℕ → Bool)
  /-- the `i`-th data packet reaches the reflector -/
  | deliver (i : ℕ) (hops : List IntHop) (ecn_codepoint : ℕ)
  /-- the `j`-th ACK reaches the sender -/
  | ack (j : ℕ)

/-- The event, as the Python sender and its network see it. -/
def py_event (r : Reading) : Event → NetEvent
  | .acquire => .acquire
  | .send => .send r.sent
  | .release => .release
  | .rto refused => .rto r.wall r.wall fun k => r.resent refused k.toNat
  | .deliver i hops ecn_codepoint => .deliver i hops ecn_codepoint r.wall
  | .ack j => .ack j ⟨r.wall, r.wall, r.wall, seconds r.mono⟩

/-- The event, as the C sender sees it: it gets the same ACKs, and takes no part in a
delivery to the reflector. -/
def c_op (acks : List (List Byte)) (r : Reading) : Event → Option CSender.Op
  | .acquire => some .acquire
  | .send => some (.send r.sent)
  | .release => some .release
  | .rto refused => some (.rto r.wall (r.resent refused))
  | .deliver _ _ _ => none
  | .ack j => acks[j]?.map fun data => .datagram data r.mono

/-- `max_packets`; the C sender has `-1` for no limit. -/
def c_limit : Option ℕ → ℤ
  | none => -1
  | some n => n

def py_limit (mp : Option ℕ) : Option ℤ := mp.map Nat.cast

/-- Both senders, the network they share and the last reading of the clocks. The packets on
the network are those of the Python sender; the C sender's are the same (`Same.sent`). -/
structure World where
  net : Net Hpcc.cls
  c : CSender.Proc
  now : Reading

def World.py_step (cfg : Hpcc.Config) (mp : Option ℕ) (e : Reading × Event) (w : World) :
    Option (Net Hpcc.cls) :=
  Net.step cfg (py_limit mp) (py_event e.1 e.2) w.net

def World.c_step (cfg : Hpcc.Config) (mp : Option ℕ) (e : Reading × Event) (w : World) :
    Option CSender.Proc :=
  match e.2 with
  | .deliver _ _ _ => some w.c
  | ev => (c_op w.net.acks e.1 ev).bind fun op => CSender.step (c_config cfg) (c_limit mp) op w.c

/-- One event, taken by both. -/
def World.step (cfg : Hpcc.Config) (mp : Option ℕ) (e : Reading × Event) (w : World) :
    Option World :=
  (w.py_step cfg mp e).bind fun net => (w.c_step cfg mp e).map fun c => ⟨net, c, e.1⟩

/-- Both senders at the start. -/
def World.start (cfg : Hpcc.Config) (r : Reading) : World where
  net := Net.start Hpcc.cls cfg (seconds r.mono)
  c := CSender.start (c_config cfg) r.mono
  now := r

/-- The events that may come: the clocks do not go back, `0xFFFFFFFF` is not sent, and the
ports in the ACKs are in `K`. -/
structure Fair (K : Finset (ℕ × ℕ)) (w : World) (e : Reading × Event) : Prop where
  clock : w.now.NotAfter e.1
  seq_lt : e.2 = .send → w.net.proc.self.next_seq < EMPTY
  ports : ∀ j data, e.2 = .ack j → w.net.acks[j]? = some data → PortsIn K data

/-- No retransmission that is tried fails. -/
def AllResent (cfg : Hpcc.Config) (w : World) (e : Reading × Event) : Prop :=
  ∀ refused, e.2 = .rto refused → SenderWindow.rto_fires Hpcc.cls cfg w.net.proc.self e.1.wall = true →
    ∀ k : ℕ, (k : ℤ) ∈ w.net.proc.self.in_flight → refused k = false

/-- The two senders are in the same state. -/
structure Same (cfg : Hpcc.Config) (st : Hpcc.Self) (s : SenderState) : Prop where
  w : s.w = st.ctl.w
  w_ref : s.w_ref = st.ctl.w_ref
  incarnation : s.incarnation = st.ctl.incarnation % 2 ^ 32
  u_smoothed : s.u_smoothed = st.ctl.u_smoothed
  last_update_seq : s.last_update_seq = st.ctl.last_update_seq
  last_update_time : seconds s.last_update_us = st.ctl.last_update_time
  cum_acked_seq : s.cum_acked_seq = st.cum_acked_seq
  next_seq : (s.next_seq : ℤ) = st.next_seq
  in_flight : ∀ k ts, Holds s k ts ↔ (st.in_flight.lookup k).map Entry.send_ts_us = some ts
  hop_last : hop_dict s.hops = st.ctl.hop_last
  sent : ∀ data, data ∈ s.sent ↔ ∃ pkt ∈ st.sock, Carries cfg.padding pkt data

/-- What relates the two along a run. -/
structure Sim (cfg : Hpcc.Config) (K : Finset (ℕ × ℕ)) (w : World) : Prop where
  matched : Matched cfg K w.now w.net.proc.self w.c.self
  lossless : Lossless w.net
  thread : w.c.w_int
    = if w.net.proc.bursting then some (py_int w.net.proc.self.ctl.w) else none
  listening : w.net.proc.listening = true

section

variable {cfg : Hpcc.Config} {mp : Option ℕ} {K : Finset (ℕ × ℕ)} {w w' : World}
  {e : Reading × Event}

theorem step_eq_some : World.step cfg mp e w = some w' ↔ ∃ net c, w.py_step cfg mp e = some net ∧
    w.c_step cfg mp e = some c ∧ w' = ⟨net, c, e.1⟩ := by
  unfold World.step
  rw [Option.bind_eq_some_iff]
  constructor
  · rintro ⟨net, hnet, hmap⟩
    obtain ⟨c, hc, rfl⟩ := Option.map_eq_some_iff.mp hmap
    exact ⟨net, c, hnet, hc, rfl⟩
  · rintro ⟨net, c, hnet, hc, rfl⟩
    exact ⟨net, hnet, Option.map_eq_some_iff.mpr ⟨c, hc, rfl⟩⟩

theorem Sim.same (h : Sim cfg K w) : Same cfg w.net.proc.self w.c.self := by
  obtain ⟨hw, hwref, hinc, hu, hseq, htime, hhops⟩ := h.matched.controls
  obtain ⟨hcum, hnext, hflight, -, -, hsent⟩ := h.matched.books
  exact ⟨hw, hwref, hinc, hu, hseq, htime, hcum, hnext, hflight, hhops.dict_eq, hsent⟩

/-! ### The burst guard -/

theorem Sim.contig (h : Sim cfg K w) : Contig w.net.proc.self.toTransport := h.lossless.contig

/-- Both burst loops go on together. -/
theorem Sim.guard_eq (h : Sim cfg K w) :
    burst_guard (c_limit mp) (py_int w.net.proc.self.ctl.w) w.c.self
      = Hpcc.cls.burst_guard (py_limit mp) w.net.proc.self := by
  have hcount : w.c.self.in_flight_count = (w.net.proc.self.flight : ℤ) := by
    rw [h.matched.books.count, h.contig.flight_eq]
  have hnext := h.matched.books.next_seq
  unfold burst_guard SenderClass.burst_guard
  rw [hcount, hnext]
  cases mp with
  | none => simp [c_limit, py_limit]
  | some n =>
      have hn : ¬ (n : ℤ) < 0 := not_lt.mpr (Int.natCast_nonneg n)
      rw [c_limit, decide_eq_false hn, Bool.false_or]
      rfl

theorem Sim.buildable (h : Sim cfg K w) : Hpcc.cls.buildable w.net.proc.self = true := by
  have hnext := h.matched.books.next_seq
  have hend := h.matched.next_le
  unfold SenderClass.buildable
  simp only [EMPTY] at hend
  rw [decide_eq_true_eq]
  omega

/-- While a burst has something to send, fewer packets are in flight than there are slots. -/
theorem Sim.room (hv : Shared cfg) (h : Sim cfg K w)
    (hg : Hpcc.cls.burst_guard (py_limit mp) w.net.proc.self = true) :
    w.c.self.in_flight_count < INFLIGHT_MAX := by
  rw [← h.guard_eq, burst_guard, Bool.and_eq_true, decide_eq_true_eq] at hg
  have hsized := h.matched.sized
  have hle : py_int w.net.proc.self.ctl.w ≤ cfg.w_max := by
    rw [hsized.w_eq, ← py_int_intCast cfg.w_max]
    exact py_int_mono (zero_le_one.trans hsized.one_le) hsized.w_le
  have hmax := hv.w_max_le
  omega

/-! ### One event -/

theorem resent_of_not_refused {r : Reading} {refused : ℕ → Bool} {k : ℕ}
    (h : refused k = false) : r.resent refused k = r.sent := by
  rw [Reading.resent, h]
  rfl

theorem allSent_event (hc : Contig w.net.proc.self.toTransport) (h : AllResent cfg w e) :
    AllSent cfg w.net (py_event e.1 e.2) := by
  obtain ⟨r, ev⟩ := e
  constructor
  · intro call heq
    cases ev with
    | send =>
        rw [← NetEvent.send.inj heq]
        rfl
    | acquire => cases heq
    | release => cases heq
    | rto refused => cases heq
    | deliver i hops ecn_codepoint => cases heq
    | ack j => cases heq
  · intro now log_us calls heq hf k hk
    cases ev with
    | rto refused =>
        obtain ⟨rfl, -, rfl⟩ := NetEvent.rto.inj heq
        -- the numbers in flight are not negative, so the C sender has them too
        obtain ⟨q, rfl⟩ := Int.eq_ofNat_of_zero_le (hc.nonneg_of_mem hk)
        show (r.resent refused q).sent = true
        rw [resent_of_not_refused (h refused rfl hf q hk)]
        rfl
    | send => cases heq
    | acquire => cases heq
    | release => cases heq
    | deliver i hops ecn_codepoint => cases heq
    | ack j => cases heq

/-- What the C sender does with an event that is its own. -/
theorem c_step_op {r : Reading} {ev : Event} {op : CSender.Op}
    (hop : c_op w.net.acks r ev = some op) :
    w.c_step cfg mp (r, ev) = CSender.step (c_config cfg) (c_limit mp) op w.c := by
  have hbind : ((c_op w.net.acks r ev).bind fun op =>
      CSender.step (c_config cfg) (c_limit mp) op w.c)
      = CSender.step (c_config cfg) (c_limit mp) op w.c := by
    rw [hop, Option.bind_some]
  cases ev with
  | deliver i hops ecn_codepoint => cases hop
  | acquire => exact hbind
  | send => exact hbind
  | release => exact hbind
  | rto refused => exact hbind
  | ack j => exact hbind

/-- Both RTO threads make a pass. -/
theorem Sim.rto (h : Sim cfg K w) {r : Reading} {refused : ℕ → Bool}
    (hlater : Matched cfg K r w.net.proc.self w.c.self)
    (hsent : AllResent cfg w (r, .rto refused)) :
    Matched cfg K r
      (rto_checker Hpcc.snapshot Hpcc.rto_cut cfg.rto_us.val r.wall r.wall
        (fun k => r.resent refused k.toNat) w.net.proc.self)
      (rto_check (c_config cfg) r.wall (r.resent refused) w.c.self) := by
  apply Matched.rto hlater h.contig
  intro hx
  have hok := hsent refused rfl hx
  constructor
  · intro k hk
    obtain ⟨q, rfl⟩ := Int.eq_ofNat_of_zero_le (h.contig.nonneg_of_mem hk)
    exact resent_of_not_refused (hok q hk)
  · intro k hk
    exact resent_of_not_refused (hok k hk)

/-- Both listeners get an ACK, which answers a packet that has been sent. -/
theorem Sim.ack (hv : Shared cfg) (hK : K.card ≤ HOP_TABLE_SZ) (h : Sim cfg K w) {r : Reading}
    (hlater : Matched cfg K r w.net.proc.self w.c.self) {data : List Byte}
    (hmem : data ∈ w.net.acks) (hports : PortsIn K data) :
    Matched cfg K r
        (Hpcc.ack_listener cfg ⟨r.wall, r.wall, r.wall, seconds r.mono⟩ data w.net.proc.self).1
        (ack_thread (c_config cfg) r.mono data w.c.self) ∧
      (Hpcc.ack_listener cfg ⟨r.wall, r.wall, r.wall, seconds r.mono⟩ data
        w.net.proc.self).2 = none := by
  obtain ⟨d, ecn, t, hsock, -, hpack⟩ := h.lossless.sound.reflected.acks data hmem
  obtain ⟨hlo, hhi⟩ := h.lossless.sound.reflected.booked.sent_lt d.payload hsock
  exact Matched.ack hv hK hlater h.contig hpack hlo hhi hports rfl

/-- Whatever both do with the event, they are related afterwards. -/
theorem sim_step (hv : Shared cfg) (hK : K.card ≤ HOP_TABLE_SZ) (h : Sim cfg K w)
    (hstep : World.step cfg mp e w = some w') (hfair : Fair K w e) (hsent : AllResent cfg w e) :
    Sim cfg K w' := by
  obtain ⟨net, c, hnet, hc, rfl⟩ := step_eq_some.mp hstep
  obtain ⟨r, ev⟩ := e
  have hlater := h.matched.later hfair.clock
  have hlossless : Lossless net := lossless_step h.lossless hnet (allSent_event h.contig hsent)
  -- one case per thread; each needs only the lemma about its own pass
  cases ev with
  | acquire =>
      obtain ⟨p, hp, rfl⟩ := step_op (e := py_event r .acquire) rfl hnet
      obtain ⟨hb, rfl⟩ := SenderWindow.step_acquire.mp hp
      rw [c_step_op rfl, CSender.step_acquire] at hc
      obtain ⟨hw, rfl⟩ := hc
      exact ⟨hlater, hlossless, by rw [h.matched.controls.w]; rfl, h.listening⟩
  | send =>
      obtain ⟨p, hp, rfl⟩ := step_op (e := py_event r .send) rfl hnet
      obtain ⟨⟨hb, hg, -⟩, rfl⟩ := SenderWindow.step_send.mp hp
      rw [c_step_op rfl, CSender.step_send] at hc
      obtain ⟨n, -, -, rfl⟩ := hc
      have hlt : w.c.self.next_seq < EMPTY := by
        have hseq := hfair.seq_lt rfl
        have hnext := h.matched.books.next_seq
        omega
      refine ⟨hlater.send h.contig hlt (h.room hv hg), hlossless, ?_, h.listening⟩
      rw [h.thread]
      show _ = if w.net.proc.bursting then some (py_int (Hpcc.cls.burst_iter _ _).ctl.w) else none
      rw [ControllerInv.burst_iter_ctl]
  | release =>
      obtain ⟨p, hp, rfl⟩ := step_op (e := py_event r .release) rfl hnet
      obtain ⟨-, rfl⟩ := SenderWindow.step_release.mp hp
      rw [c_step_op rfl, CSender.step_release] at hc
      obtain ⟨n, -, -, rfl⟩ := hc
      exact ⟨hlater, hlossless, rfl, h.listening⟩
  | rto refused =>
      obtain ⟨p, hp, hpy⟩ := step_op (e := py_event r (.rto refused)) rfl hnet
      obtain ⟨hb, rfl⟩ := SenderWindow.step_rto.mp hp
      rw [c_step_op rfl, CSender.step_rto] at hc
      obtain ⟨hw, hcc⟩ := hc
      have hmatched := h.rto hlater hsent
      refine ⟨?_, hlossless, ?_, ?_⟩
      · rw [hpy, hcc]
        dsimp only
        exact hmatched
      · rw [hpy, hcc]
        show w.c.w_int = if w.net.proc.bursting then _ else none
        rw [hw, hb]
        rfl
      · rw [hpy]
        exact h.listening
  | deliver i hops ecn_codepoint =>
      obtain ⟨payload, ack, -, -, rfl⟩ := step_deliver hnet
      obtain rfl := Option.some.inj hc
      exact ⟨hlater, hlossless, h.thread, h.listening⟩
  | ack j =>
      obtain ⟨op, hop, hcop⟩ := Option.bind_eq_some_iff.mp hc
      obtain ⟨data, hj, rfl⟩ := Option.map_eq_some_iff.mp hop
      have hop : (py_event r (.ack j)).op w.net
          = some (.datagram data ⟨r.wall, r.wall, r.wall, seconds r.mono⟩) := by
        rw [py_event, NetEvent.op, hj]
        rfl
      obtain ⟨p, hp, hpy⟩ := step_op hop hnet
      obtain ⟨⟨hb, hl⟩, rfl⟩ := SenderWindow.step_datagram.mp hp
      obtain ⟨hw, hcc⟩ := CSender.step_datagram.mp hcop
      obtain ⟨hmatched, hquiet⟩ :=
        h.ack hv hK hlater (List.mem_of_getElem? hj) (hfair.ports j data rfl hj)
      refine ⟨?_, hlossless, ?_, ?_⟩
      · rw [hpy, hcc]
        exact hmatched
      · rw [hpy, hcc]
        show w.c.w_int = if w.net.proc.bursting then _ else none
        rw [hw, hb]
        rfl
      · rw [hpy]
        show (Hpcc.ack_listener cfg _ data w.net.proc.self).2.isNone = true
        rw [hquiet]
        rfl

/-- The event is one of the senders' threads. -/
def Event.OfSender : Event → Prop
  | .deliver _ _ _ => False
  | _ => True

/-- What the Python sender does with an event of its threads. -/
theorem py_step_op {r : Reading} {ev : Event} {op : SenderCore.Op}
    (hop : (py_event r ev).op w.net = some op) :
    (w.py_step cfg mp (r, ev)).isSome
      ↔ ∃ p, Hpcc.cls.step cfg (py_limit mp) op w.net.proc = some p := by
  show (Net.step cfg (py_limit mp) (py_event r ev) w.net).isSome ↔ _
  rw [net_step_of_op hop, Option.isSome_map, Option.isSome_iff_exists]

/-- **Neither sender waits for the other**: an event of the threads is possible for both or
for neither. -/
theorem sim_enabled (h : Sim cfg K w) {r : Reading} {ev : Event} (hev : ev.OfSender) :
    (w.py_step cfg mp (r, ev)).isSome ↔ (w.c_step cfg mp (r, ev)).isSome := by
  have hthread := h.thread
  have hguard : burst_guard (c_limit mp) (py_int w.net.proc.self.ctl.w) w.c.self
      = Hpcc.cls.burst_guard (py_limit mp) w.net.proc.self := h.guard_eq
  have hbuild := h.buildable
  cases ev with
  | deliver i hops ecn_codepoint => exact hev.elim
  | acquire =>
      rw [py_step_op rfl, c_step_op rfl, Option.isSome_iff_exists]
      simp only [SenderWindow.step_acquire, CSender.step_acquire, exists_and_left, exists_eq,
        and_true, hthread]
      cases w.net.proc.bursting with
      | true => simp
      | false => simp
  | send =>
      rw [py_step_op rfl, c_step_op rfl, Option.isSome_iff_exists]
      simp only [SenderWindow.step_send, CSender.step_send, exists_and_left, exists_eq, and_true,
        hthread, hbuild]
      cases w.net.proc.bursting with
      | true => simp [hguard]
      | false => simp
  | release =>
      rw [py_step_op rfl, c_step_op rfl, Option.isSome_iff_exists]
      simp only [SenderWindow.step_release, CSender.step_release, exists_and_left, exists_eq,
        and_true, hthread, hbuild]
      cases w.net.proc.bursting with
      | true => simp [hguard]
      | false => simp
  | rto refused =>
      rw [py_step_op rfl, c_step_op rfl, Option.isSome_iff_exists]
      simp only [SenderWindow.step_rto, CSender.step_rto, exists_and_left, exists_eq, and_true,
        hthread]
      cases w.net.proc.bursting with
      | true => simp
      | false => simp
  | ack j =>
      cases hj : w.net.acks[j]? with
      | none =>
          -- there is no such ACK
          have hpy : w.py_step cfg mp (r, .ack j) = none := by
            show ((w.net.acks[j]?.map _).bind _ : Option (Net Hpcc.cls)) = none
            rw [hj]
            rfl
          have hcc : w.c_step cfg mp (r, .ack j) = none := by
            show ((w.net.acks[j]?.map _).bind _ : Option CSender.Proc) = none
            rw [hj]
            rfl
          simp [hpy, hcc]
      | some data =>
          have hpy : (py_event r (.ack j)).op w.net
              = some (.datagram data ⟨r.wall, r.wall, r.wall, seconds r.mono⟩) := by
            rw [py_event, NetEvent.op, hj]
            rfl
          have hcc : c_op w.net.acks r (.ack j) = some (.datagram data r.mono) := by
            rw [c_op, hj]
            rfl
          rw [py_step_op hpy, c_step_op hcc, Option.isSome_iff_exists]
          simp only [SenderWindow.step_datagram, CSender.step_datagram, exists_and_left, exists_eq,
            and_true, hthread, h.listening]
          cases w.net.proc.bursting with
          | true => simp
          | false => simp

/-! ### Runs -/

theorem sim_start (hv : Shared cfg) (r : Reading) : Sim cfg K (World.start cfg r) := by
  -- nothing is in flight on either side
  have hnone : ∀ i, ¬ occupied (CSender.start (c_config cfg) r.mono).self i := fun i hi => hi rfl
  have hw : (1 : ℚ) ≤ cfg.w_init := by exact_mod_cast hv.w_init
  have hwmax : (cfg.w_init : ℚ) ≤ cfg.w_max := by exact_mod_cast hv.w_init_le
  refine ⟨⟨?_, ?_, ?_, ?_, ?_, le_refl _, ?_⟩, lossless_start _, rfl, rfl⟩
  · exact ⟨rfl, rfl, rfl, rfl, rfl, rfl, agrees_start _ fun _ => rfl⟩
  · refine ⟨rfl, rfl, ?_, rfl, placed_start _ _, ?_⟩
    · intro k ts
      apply iff_of_false
      · rintro ⟨i, hi, -⟩
        exact hnone i hi
      · intro hlookup
        cases hlookup
    · intro data
      apply iff_of_false
      · exact List.not_mem_nil
      · rintro ⟨pkt, hpkt, -⟩
        exact List.not_mem_nil hpkt
  · intro i key hi
    cases hi
  · exact ⟨rfl, hw, hwmax⟩
  · intro i hi
    exact absurd hi (hnone i)
  · exact Nat.zero_le _

/-- **The C sender refines the Python sender.** With the same configuration and on the same
events, both are in the same state after every event, as long as every `sendto` succeeds,
`0xFFFFFFFF` is not reached and no more than `HOP_TABLE_SZ` ports are seen; and neither can
do anything the other cannot. The padding fits the buffer of `send_one` (`Shared.fits`). -/
theorem c_sender_refines (cfg : Hpcc.Config) (hv : Shared cfg) (mp : Option ℕ) (r : Reading)
    (K : Finset (ℕ × ℕ)) (hK : K.card ≤ HOP_TABLE_SZ) (es : List (Reading × Event))
    (hes : EachStep (World.step cfg mp) (fun w e _ => Fair K w e ∧ AllResent cfg w e)
      (World.start cfg r) es)
    (w : World) (hrun : run (World.step cfg mp) (World.start cfg r) es = some w) :
    Same cfg w.net.proc.self w.c.self ∧
      ∀ r' ev, Event.OfSender ev →
        ((w.py_step cfg mp (r', ev)).isSome ↔ (w.c_step cfg mp (r', ev)).isSome) := by
  have hsim : Sim cfg K w :=
    run_invariant_of_each (fun e w w' h hstep hc => sim_step hv hK h hstep hc.1 hc.2)
      (sim_start hv r) hes hrun
  exact ⟨hsim.same, fun r' ev hev => sim_enabled hsim hev⟩

end

/-! ## One packet -/

/-- Both clocks at zero. -/
def zero_reading : Reading := ⟨zero_us, zero_us⟩

/-- The default arguments, and a base RTT of 5 ms. -/
def lock_config : Hpcc.Config := Hpcc.defaults (1 / 200)

theorem lock_config_shared : Shared lock_config := by
  refine ⟨?_, ?_, ?_, ?_, fitsBuf_iff.mpr ?_⟩
  all_goals norm_num [lock_config, Hpcc.defaults, INFLIGHT_MAX]

/-- A hop of port 2 of switch 1. -/
def one_hop : IntHop where
  switch_id := 1
  ingress_port := 1
  egress_port := 2
  qdepth := 0
  egress_tstamp_us := 7
  tx_byte_count := 1500
  link_bps := 10000000

/-- The only packet is sent. -/
def first_packet : List (Reading × Event) :=
  [(zero_reading, .acquire)] ++ [(zero_reading, .send)] ++ [(zero_reading, .release)]

/-- It arrives, and so does its ACK. -/
def first_ack : List (Reading × Event) :=
  first_packet ++ [(zero_reading, .deliver 0 [one_hop] 2)] ++ [(zero_reading, .ack 0)]

/-- What the conditions look at. -/
def facts (w : World) : Reading × ℤ × List (List IntHop) :=
  (w.now, w.net.proc.self.next_seq, w.net.acks.map AckFormat.hops_of)

theorem first_ack_states :
    (run (World.step lock_config (some 1)) (World.start lock_config zero_reading)
      [(zero_reading, .acquire)]).map facts = some (zero_reading, 0, []) ∧
    (run (World.step lock_config (some 1)) (World.start lock_config zero_reading)
      ([(zero_reading, .acquire)] ++ [(zero_reading, .send)])).map facts
        = some (zero_reading, 1, []) ∧
    (run (World.step lock_config (some 1)) (World.start lock_config zero_reading)
      first_packet).map facts = some (zero_reading, 1, []) ∧
    (run (World.step lock_config (some 1)) (World.start lock_config zero_reading)
      (first_packet ++ [(zero_reading, .deliver 0 [one_hop] 2)])).map facts
        = some (zero_reading, 1, [[one_hop]]) ∧
    (run (World.step lock_config (some 1)) (World.start lock_config zero_reading)
      first_ack).map facts = some (zero_reading, 1, [[one_hop]]) := by
  refine ⟨?_, ?_, ?_, ?_, ?_⟩
  all_goals decide +kernel

/-- An event at zero, in a state where the clocks stand at zero. -/
theorem fair_of_facts {K : Finset (ℕ × ℕ)} {w : World} {ev : Event} {n : ℤ}
    {acks : List (List IntHop)} (h : facts w = (zero_reading, n, acks)) (hn : n < EMPTY)
    (hports : ∀ j, ev = .ack j → ∀ hops ∈ acks, ∀ hop ∈ hops, hop.link_bps ≠ 0 →
      ∃ key ∈ K, Hpcc.hop_key hop = dict_key key) : Fair K w (zero_reading, ev) := by
  simp only [facts, Prod.mk.injEq] at h
  obtain ⟨hnow, hnext, hacks⟩ := h
  refine ⟨?_, ?_, ?_⟩
  · rw [hnow]
    exact ⟨le_refl _, le_refl _⟩
  · intro _
    rw [hnext]
    exact hn
  · intro j data heq hj hop hhop
    apply hports j heq (AckFormat.hops_of data) _ hop hhop
    rw [← hacks]
    exact List.mem_map_of_mem (List.mem_of_getElem? hj)

/-- Nothing is retransmitted. -/
theorem allResent_of_ne {w : World} {r : Reading} {ev : Event} (h : ∀ refused, ev ≠ .rto refused) :
    AllResent lock_config w (r, ev) := fun refused heq => absurd heq (h refused)

theorem first_packet_fair (K : Finset (ℕ × ℕ)) :
    EachStep (World.step lock_config (some 1))
      (fun w e _ => Fair K w e ∧ AllResent lock_config w e) (World.start lock_config zero_reading)
      first_packet := by
  obtain ⟨h₁, h₂, -⟩ := first_ack_states
  refine ((eachStep_nil.snoc ?_).snoc ?_).snoc ?_
  · intro s₁ s₂ hrun _
    obtain rfl := Option.some.inj hrun
    exact ⟨fair_of_facts rfl (by decide) (by simp), allResent_of_ne (by simp)⟩
  · intro s₁ s₂ hrun _
    rw [List.nil_append] at hrun
    rw [hrun] at h₁
    exact ⟨fair_of_facts (Option.some.inj h₁) (by decide) (by simp), allResent_of_ne (by simp)⟩
  · intro s₁ s₂ hrun _
    rw [List.nil_append] at hrun
    rw [hrun] at h₂
    exact ⟨fair_of_facts (Option.some.inj h₂) (by decide) (by simp), allResent_of_ne (by simp)⟩

theorem first_ack_fair : EachStep (World.step lock_config (some 1))
    (fun w e _ => Fair {(1, 2)} w e ∧ AllResent lock_config w e)
    (World.start lock_config zero_reading) first_ack := by
  obtain ⟨-, -, h₃, h₄, -⟩ := first_ack_states
  refine ((first_packet_fair _).snoc ?_).snoc ?_
  · intro s₁ s₂ hrun _
    rw [hrun] at h₃
    exact ⟨fair_of_facts (Option.some.inj h₃) (by decide) (by simp), allResent_of_ne (by simp)⟩
  · intro s₁ s₂ hrun _
    rw [hrun] at h₄
    refine ⟨fair_of_facts (Option.some.inj h₄) (by decide) ?_, allResent_of_ne (by simp)⟩
    intro j _ hops hhops hop hhop _
    rw [List.mem_singleton.mp hhops, List.mem_singleton] at hhop
    exact ⟨(1, 2), Finset.mem_singleton_self _, by rw [hhop]; rfl⟩

theorem c_sender_refines_first_ack :
    ∃ w, run (World.step lock_config (some 1)) (World.start lock_config zero_reading) first_ack
        = some w ∧
      Same lock_config w.net.proc.self w.c.self ∧
        ∀ r ev, Event.OfSender ev → ((w.py_step lock_config (some 1) (r, ev)).isSome ↔
          (w.c_step lock_config (some 1) (r, ev)).isSome) := by
  obtain ⟨-, -, -, -, h₅⟩ := first_ack_states
  obtain ⟨w, hrun, -⟩ := Option.map_eq_some_iff.mp h₅
  exact ⟨w, hrun, c_sender_refines lock_config lock_config_shared (some 1) zero_reading {(1, 2)}
    (by decide) first_ack first_ack_fair w hrun⟩

/-! ## Where they part -/

/-- A check for timeouts, between bursts. -/
theorem rto_step {cfg : Hpcc.Config} (mp : Option ℕ) {K : Finset (ℕ × ℕ)} {w : World}
    (h : Sim cfg K w) (hb : w.net.proc.bursting = false) (r : Reading) (refused : ℕ → Bool) :
    ∃ w', World.step cfg mp (r, .rto refused) w = some w' ∧ w'.now = r ∧
      w'.net.proc.bursting = false ∧
      w'.net.proc.self = rto_checker Hpcc.snapshot Hpcc.rto_cut cfg.rto_us.val r.wall r.wall
        (fun k => r.resent refused k.toNat) w.net.proc.self ∧
      w'.c.self = rto_check (c_config cfg) r.wall (r.resent refused) w.c.self := by
  -- neither thread is in a burst, so both passes can run now
  have hw : w.c.w_int = none := by
    rw [h.thread, hb]
    rfl
  obtain ⟨net, hnet⟩ : ∃ net, w.py_step cfg mp (r, .rto refused) = some net := by
    rw [← Option.isSome_iff_exists, py_step_op rfl]
    exact ⟨_, SenderWindow.step_rto.mpr ⟨hb, rfl⟩⟩
  obtain ⟨c, hc⟩ : ∃ c, w.c_step cfg mp (r, .rto refused) = some c := by
    rw [c_step_op rfl]
    exact ⟨_, CSender.step_rto.mpr ⟨hw, rfl⟩⟩
  refine ⟨⟨net, c, r⟩, step_eq_some.mpr ⟨net, c, hnet, hc, rfl⟩, rfl, ?_⟩
  -- and both are what the two programs compute
  obtain ⟨p, hp, hpy⟩ := step_op (e := py_event r (.rto refused)) rfl hnet
  obtain ⟨-, rfl⟩ := SenderWindow.step_rto.mp hp
  rw [c_step_op rfl, CSender.step_rto] at hc
  obtain ⟨-, hcc⟩ := hc
  rw [hpy, hcc]
  dsimp only
  exact ⟨hb, rfl, rfl⟩

theorem lock_config_rto : lock_config.rto_us.val = 20000 := by decide +kernel

/-- The only packet has been in flight since `t`, and no burst is on. -/
structure Waiting (w : World) (t : ℕ) : Prop where
  sim : Sim lock_config ∅ w
  idle : w.net.proc.bursting = false
  first : (w.net.proc.self.in_flight.lookup 0).map Entry.send_ts_us = some (t : ℤ)
  wall : w.now.wall.val = t
  mono : w.now.mono.val = 0

/-- After 20 ms the packet has timed out. -/
theorem Waiting.expired {w : World} {t n : ℕ} (h : Waiting w t) (hn : t + 20000 ≤ n)
    (hlt : n < 2 ^ 64) : expired w.net.proc.self.toTransport (at_us n).val
      lock_config.rto_us.val = true := by
  obtain ⟨e, he, hts⟩ := Option.map_eq_some_iff.mp h.first
  rw [expired_iff, lock_config_rto]
  refine ⟨0, e, he, ?_⟩
  rw [hts]
  show (20000 : ℤ) ≤ ((n % 2 ^ 64 : ℕ) : ℤ) - t
  rw [Nat.mod_eq_of_lt hlt]
  omega

/-- A check at `n` microseconds. -/
def check_at (n : ℕ) (refused : ℕ → Bool) : Reading × Event :=
  (⟨at_us n, zero_us⟩, .rto refused)

theorem Waiting.fair {K : Finset (ℕ × ℕ)} {w : World} {t n : ℕ} (h : Waiting w t) (hn : t ≤ n)
    (hlt : n < 2 ^ 64) (refused : ℕ → Bool) : Fair K w (check_at n refused) := by
  refine ⟨⟨?_, ?_⟩, ?_, ?_⟩
  · rw [h.wall]
    show t ≤ n % 2 ^ 64
    rwa [Nat.mod_eq_of_lt hlt]
  · rw [h.mono]
    exact Nat.zero_le _
  · intro heq
    cases heq
  · intro j data heq
    cases heq

/-- The packet is sent, and both senders wait. -/
theorem first_packet_waiting : ∃ w, run (World.step lock_config (some 1))
      (World.start lock_config zero_reading) first_packet = some w ∧ Waiting w 0 ∧
    w.net.proc.self.ctl.incarnation = 0 := by
  have hstate : (run (World.step lock_config (some 1)) (World.start lock_config zero_reading)
      first_packet).map (fun w => (w.net.proc.bursting, w.net.proc.self.ctl.incarnation,
        (w.net.proc.self.in_flight.lookup 0).map Entry.send_ts_us, w.now))
      = some (false, 0, some 0, zero_reading) := by
    decide +kernel
  obtain ⟨w, hrun, hw⟩ := Option.map_eq_some_iff.mp hstate
  simp only [Prod.mk.injEq] at hw
  obtain ⟨hb, hinc, hfirst, hnow⟩ := hw
  -- both programs took the same events at the same clock readings
  have hsim : Sim lock_config ∅ w :=
    run_invariant_of_each (fun e w w' h hstep hc => sim_step lock_config_shared (by decide) h
      hstep hc.1 hc.2) (sim_start lock_config_shared zero_reading) (first_packet_fair ∅) hrun
  refine ⟨w, hrun, ⟨hsim, hb, hfirst, ?_, ?_⟩, hinc⟩
  · rw [hnow]
    rfl
  · rw [hnow]
    rfl

/-! ### A retransmission fails -/

/-- The C sender keeps the packet, the Python sender has lost it. -/
theorem refused_parts {w : World} {t n : ℕ} (h : Waiting w t) (hn : t + 20000 ≤ n)
    (hlt : n < 2 ^ 64) : ∃ w', World.step lock_config (some 1) (check_at n fun _ => true) w
      = some w' ∧ w'.net.proc.self.in_flight.lookup 0 = none ∧ Holds w'.c.self 0 t := by
  have hx := h.expired hn hlt
  have hlater := h.sim.matched.later (h.fair (K := ∅) (by omega) hlt fun _ => true).clock
  have hf : fired (c_config lock_config) (at_us n) w.c.self = true :=
    (hlater.books.fired_iff hlater.stamps).mpr hx
  obtain ⟨w', hstep, -, -, hpy, hcc⟩ := rto_step (some 1) h.sim h.idle
    ⟨at_us n, zero_us⟩ fun _ => true
  refine ⟨w', hstep, ?_, ?_⟩
  · rw [hpy, rto_fired_lookup hx]
    split
    · rfl
    · rfl
  · obtain ⟨hslots, -⟩ := rto_check_fired hlater.books.placed
      (Reading.resent ⟨at_us n, zero_us⟩ fun _ => true) hf
    obtain ⟨i, hi, hseq, hts⟩ := (hlater.books.in_flight 0 t).mpr h.first
    -- the slot is as it was
    have hsame : w'.c.self.inflight i = w.c.self.inflight i := by
      dsimp only at hcc
      rw [hcc, hslots, resent, if_neg hi]
      rfl
    refine ⟨i, ?_, ?_, ?_⟩
    · unfold occupied
      rw [hsame]
      exact hi
    · rw [hsame]
      exact hseq
    · rw [hsame]
      exact hts

/-! ### The incarnation wraps -/

/-- A check that retransmits the packet. -/
theorem resent_round {w : World} {t n : ℕ} (h : Waiting w t) (hn : t + 20000 ≤ n)
    (hlt : n < 2 ^ 64) : ∃ w', World.step lock_config (some 1) (check_at n fun _ => false) w
      = some w' ∧ Waiting w' n ∧
        w'.net.proc.self.ctl.incarnation = w.net.proc.self.ctl.incarnation + 1 := by
  -- 20 ms have passed, so packet 0 is sent again and stamped with the new time
  have hx := h.expired hn hlt
  obtain ⟨w', hstep, hnow, hb, hpy, -⟩ := rto_step (some 1) h.sim h.idle
    ⟨at_us n, zero_us⟩ fun _ => false
  have hval : (at_us n).val = n := Nat.mod_eq_of_lt hlt
  have hmem : (0 : ℤ) ∈ w.net.proc.self.in_flight := by
    obtain ⟨e, he, -⟩ := Option.map_eq_some_iff.mp h.first
    rw [← AList.lookup_isSome, he]
    rfl
  have hsim : Sim lock_config ∅ w' := sim_step lock_config_shared (by decide) h.sim hstep
    (h.fair (by omega) hlt _) fun refused heq _ _ _ => by rw [← Event.rto.inj heq]
  refine ⟨w', hstep, ⟨hsim, hb, ?_, ?_, ?_⟩, ?_⟩
  · rw [hpy, rto_fired_lookup hx, if_pos hmem]
    exact congrArg (fun ts : ℕ => some (ts : ℤ)) hval
  · rw [hnow]
    exact hval
  · rw [hnow]
    rfl
  · rw [hpy, rto_fired_ctl hx]
    rfl

/-- A check every 20 ms. -/
def rounds (n : ℕ) : List (Reading × Event) :=
  (List.range n).map fun k => check_at (20000 * (k + 1)) fun _ => false

/-- As long as no ACK comes, every check halves the window and counts one incarnation. -/
theorem rounds_run {n : ℕ} (hn : 20000 * n < 2 ^ 64) : ∃ w,
    run (World.step lock_config (some 1)) (World.start lock_config zero_reading)
      (first_packet ++ rounds n) = some w ∧
    EachStep (World.step lock_config (some 1))
      (fun w e _ => Fair ∅ w e ∧ AllResent lock_config w e)
      (World.start lock_config zero_reading) (first_packet ++ rounds n) ∧
    Waiting w (20000 * n) ∧ w.net.proc.self.ctl.incarnation = n := by
  induction n with
  | zero =>
      obtain ⟨w, hrun, hw, hinc⟩ := first_packet_waiting
      rw [rounds, List.range_zero, List.map_nil, List.append_nil]
      exact ⟨w, hrun, first_packet_fair ∅, hw, hinc⟩
  | succ n ih =>
      obtain ⟨w, hrun, hfair, hw, hinc⟩ := ih (by omega)
      obtain ⟨w', hstep, hw', hinc'⟩ := resent_round hw (n := 20000 * (n + 1)) (by omega) hn
      -- a round more at the end of the run
      have hsplit : first_packet ++ rounds (n + 1)
          = first_packet ++ rounds n ++ [check_at (20000 * (n + 1)) fun _ => false] := by
        rw [rounds, List.range_succ, List.map_append, List.append_assoc]
        rfl
      rw [hsplit]
      refine ⟨w', ?_, hfair.snoc ?_, hw', by rw [hinc', hinc]⟩
      · rw [run_append, hrun, Option.bind_some, run_cons, hstep]
        rfl
      · intro s₁ s₂ hrun₁ _
        rw [hrun] at hrun₁
        obtain rfl := Option.some.inj hrun₁
        exact ⟨hw.fair (by omega) hn _, fun refused heq _ _ _ => by rw [← Event.rto.inj heq]⟩

/-- So the two are not always in the same state if retransmissions may fail, nor, though
they succeed, with the incarnation taken as a number: after `2 ^ 32` timeouts the C sender
is at 0 again. -/
theorem c_sender_refines_fails :
    (¬ ∀ (cfg : Hpcc.Config) (mp : Option ℕ) (r : Reading) (K : Finset (ℕ × ℕ))
        (es : List (Reading × Event)) (w : World), Shared cfg → K.card ≤ HOP_TABLE_SZ →
      EachStep (World.step cfg mp) (fun w e _ => Fair K w e) (World.start cfg r) es →
      run (World.step cfg mp) (World.start cfg r) es = some w →
      Same cfg w.net.proc.self w.c.self) ∧
    ¬ ∀ (cfg : Hpcc.Config) (mp : Option ℕ) (r : Reading) (K : Finset (ℕ × ℕ))
        (es : List (Reading × Event)) (w : World), Shared cfg → K.card ≤ HOP_TABLE_SZ →
      EachStep (World.step cfg mp) (fun w e _ => Fair K w e ∧ AllResent cfg w e)
        (World.start cfg r) es →
      run (World.step cfg mp) (World.start cfg r) es = some w →
      w.c.self.incarnation = w.net.proc.self.ctl.incarnation := by
  constructor
  · intro h
    obtain ⟨w, hrun, hw, -⟩ := first_packet_waiting
    obtain ⟨w', hstep, hlost, hholds⟩ :=
      refused_parts hw (n := 20000) (by norm_num) (by norm_num)
    have hfair : EachStep (World.step lock_config (some 1)) (fun w e _ => Fair ∅ w e)
        (World.start lock_config zero_reading) (first_packet ++ [check_at 20000 fun _ => true]) := by
      refine ((first_packet_fair ∅).mono fun _ _ _ hc => hc.1).snoc ?_
      intro s₁ s₂ hrun₁ _
      rw [hrun] at hrun₁
      obtain rfl := Option.some.inj hrun₁
      exact hw.fair (by norm_num) (by norm_num) _
    -- the Python sender has lost the packet the C sender still holds
    have hsame := h lock_config (some 1) zero_reading ∅ _ w' lock_config_shared (by decide) hfair
      (by rw [run_append, hrun, Option.bind_some, run_cons, hstep]; rfl)
    have hin := (hsame.in_flight 0 0).mp hholds
    rw [hlost] at hin
    cases hin
  · intro h
    obtain ⟨w, hrun, hfair, hw, hinc⟩ := rounds_run (n := 2 ^ 32) (by norm_num)
    have heq := h lock_config (some 1) zero_reading ∅ _ w lock_config_shared (by decide) hfair hrun
    rw [hw.sim.same.incarnation, hinc] at heq
    norm_num at heq

end IntHpcc.CLockstep
