/-
The marks DCTCP counts.

`_ack_listener` drops an ACK whose packet is not in flight and whose number is not above
`cum_acked_seq`, as a stale duplicate. An ACK that has been overtaken by a later one looks
the same: its packet has left the flight with the other's. So it is dropped with its mark,
although it has not been counted. `marks_counted_iff`: every arriving ACK is counted exactly
if the ACKs arrive in the order of their numbers.

The counters are reset by every window update, so what they had reached by then is noted
along the run, next to the ACKs that arrive.
-/
import IntHpcc.ControllerInv
import IntHpcc.EventLog
import IntHpcc.HpccCut
import IntHpcc.LosslessRun

set_option autoImplicit false

namespace IntHpcc.DctcpMarks

open IntHpcc.Runs IntHpcc.Bytes IntHpcc.Py IntHpcc.PacketFormat IntHpcc.SenderCore
open IntHpcc.SenderWindow IntHpcc.CumAck IntHpcc.Network IntHpcc.ControllerInv
open IntHpcc.Reflector IntHpcc.EventLog IntHpcc.LosslessRun

/-! ## The notes -/

inductive Note
  /-- an ACK arrives, with its number and its `ECN_ECHO` -/
  | arrival (seq : ℤ) (marked : Bool)
  /-- a window update resets the counters from these values -/
  | closed (total marked : ℕ)

/-- The object after `_on_ack_locked` has counted the ACK, before the update. -/
def counted (st : Dctcp.Self) (seq : ℤ) (marked : Bool) : Dctcp.Self :=
  { st with
    toTransport := st.toTransport.acked seq
    ctl := st.ctl.counted (if marked then 1 else 0) }

/-- What is noted about a datagram. -/
def note_ack (data : List Byte) (st : Dctcp.Self) : List Note :=
  match Dctcp.read_ack data with
  | .ok (some (shim, ack)) =>
    let st' := counted st ack.ack_seq shim.ecn_echo
    .arrival ack.ack_seq shim.ecn_echo ::
      if dctcp_accepts data st ∧ Dctcp.gate_open st' = true then
        [.closed st'.ctl.rtt_window_total st'.ctl.rtt_window_marked]
      else []
  | _ => []

def note (e : NetEvent) (n : Net Dctcp.cls) : List Note :=
  match e with
  | .ack j _ => (n.acks[j]?).elim [] fun data => note_ack data n.proc.self
  | _ => []

/-- A network with a DCTCP sender, and the notes so far. -/
abbrev Noted := Net Dctcp.cls × List Note

/-- The ACKs that have arrived, in order. -/
def arrivals (l : List Note) : List (ℤ × Bool) :=
  l.filterMap fun
    | .arrival seq marked => some (seq, marked)
    | .closed _ _ => none

/-- The total of the windows that have been closed. -/
def closed_total (l : List Note) : ℕ :=
  (l.map fun
    | .arrival _ _ => 0
    | .closed total _ => total).sum

def closed_marked (l : List Note) : ℕ :=
  (l.map fun
    | .arrival _ _ => 0
    | .closed _ marked => marked).sum

/-- The ACKs `rtt_window_total` has counted over the whole run. -/
def counted_total (q : Noted) : ℕ := closed_total q.2 + q.1.proc.self.ctl.rtt_window_total

/-- The ACKs `rtt_window_marked` has counted over the whole run. -/
def counted_marked (q : Noted) : ℕ := closed_marked q.2 + q.1.proc.self.ctl.rtt_window_marked

/-- Every ACK that has arrived has been counted once, and its mark with it. -/
structure CountsEach (q : Noted) : Prop where
  total : counted_total q = (arrivals q.2).length
  marked : counted_marked q = (arrivals q.2).countP Prod.snd

/-- The ACKs have arrived in the order of their numbers. -/
def InOrder (q : Noted) : Prop := ((arrivals q.2).map Prod.fst).Pairwise (· < ·)

theorem arrivals_append (l new : List Note) : arrivals (l ++ new) = arrivals l ++ arrivals new :=
  List.filterMap_append

theorem closed_total_append (l new : List Note) :
    closed_total (l ++ new) = closed_total l + closed_total new := by
  rw [closed_total, List.map_append, List.sum_append]
  rfl

theorem closed_marked_append (l new : List Note) :
    closed_marked (l ++ new) = closed_marked l + closed_marked new := by
  rw [closed_marked, List.map_append, List.sum_append]
  rfl

/-! ## One ACK -/

section

variable {data : List Byte} {shim : Shim} {ack : AckPayload}

theorem arrivals_note_ack (st : Dctcp.Self) (hread : Dctcp.read_ack data = .ok (some (shim, ack))) :
    arrivals (note_ack data st) = [(ack.ack_seq, shim.ecn_echo)] := by
  unfold note_ack
  rw [hread]
  dsimp only
  split
  · rfl
  · rfl

/-- An accepted ACK is counted once, before or behind a reset. -/
theorem counters_accepted (cfg : Dctcp.Config) (clk : AckClock) {st : Dctcp.Self}
    (hread : Dctcp.read_ack data = .ok (some (shim, ack)))
    (hacc : dctcp_accepts data st = true) :
    closed_total (note_ack data st) + (Dctcp.ack_listener cfg clk data st).1.ctl.rtt_window_total
        = st.ctl.rtt_window_total + 1 ∧
      closed_marked (note_ack data st)
          + (Dctcp.ack_listener cfg clk data st).1.ctl.rtt_window_marked
        = st.ctl.rtt_window_marked + if shim.ecn_echo then 1 else 0 := by
  obtain ⟨shim', ack', rtt_us, hread', heq⟩ := dctcp_accepted cfg clk hacc
  obtain ⟨rfl, rfl⟩ := Prod.mk.inj (Option.some.inj (Except.ok.inj (hread.symm.trans hread')))
  -- the gate does not look at the counters of the window
  have hgate : Dctcp.gate_open (Dctcp.before_gate clk ack.ack_seq (if shim.ecn_echo then 1 else 0)
      rtt_us st) = Dctcp.gate_open (counted st ack.ack_seq shim.ecn_echo) := rfl
  have hmark : (counted st ack.ack_seq shim.ecn_echo).ctl.rtt_window_marked
      = st.ctl.rtt_window_marked + if shim.ecn_echo then 1 else 0 := by
    show st.ctl.rtt_window_marked + (if (if shim.ecn_echo then (1 : ℤ) else 0) ≠ 0 then 1 else 0) = _
    cases shim.ecn_echo with
    | false => rfl
    | true => rfl
  rw [heq, Dctcp.on_ack_eq, Dctcp.maybe_update_eq, hgate]
  unfold note_ack
  rw [hread]
  dsimp only
  by_cases hg : Dctcp.gate_open (counted st ack.ack_seq shim.ecn_echo) = true
  · -- the gate opens: the window is closed with this ACK in it, and both counters restart
    rw [if_pos ⟨hacc, hg⟩, if_pos hg]
    constructor
    · show 0 + (st.ctl.rtt_window_total + 1 + 0) + 0 = _
      rw [Nat.zero_add]
    · show 0 + ((counted st ack.ack_seq shim.ecn_echo).ctl.rtt_window_marked + 0) + 0 = _
      rw [Nat.zero_add, hmark]
      rfl
  · -- the gate stays shut: nothing closes, and the open window has this ACK in it
    rw [if_neg fun h => hg h.2, if_neg hg]
    refine ⟨Nat.zero_add _, ?_⟩
    rw [← hmark]
    exact Nat.zero_add _

/-- An ACK that is dropped closes no window. -/
theorem closed_rejected {st : Dctcp.Self} (hacc : dctcp_accepts data st = false) :
    closed_total (note_ack data st) = 0 := by
  unfold note_ack
  split
  · dsimp only
    rw [hacc, if_neg fun h => Bool.false_ne_true h.1]
    rfl
  · rfl

end

/-! ## A run -/

variable {cfg : Dctcp.Config} {mp : Option ℤ} {q q' : Noted}

/-- The state of the account: `cum_acked_seq` is the highest number that has arrived, and
nothing is missing as long as the numbers have come in order. -/
structure Tallied (q : Noted) : Prop where
  sound : Sound q.1
  le_cum : ∀ x ∈ arrivals q.2, x.1 ≤ q.1.proc.self.cum_acked_seq
  cum_arrived : 0 ≤ q.1.proc.self.cum_acked_seq →
    ∃ x ∈ arrivals q.2, x.1 = q.1.proc.self.cum_acked_seq
  total_le : counted_total q ≤ (arrivals q.2).length
  total_eq : counted_total q = (arrivals q.2).length ↔ InOrder q
  marked_eq : InOrder q → counted_marked q = (arrivals q.2).countP Prod.snd

theorem Tallied.countsEach_iff (h : Tallied q) : CountsEach q ↔ InOrder q := by
  constructor
  · intro hc
    exact h.total_eq.mp hc.total
  · intro horder
    exact ⟨h.total_eq.mpr horder, h.marked_eq horder⟩

/-- An event that brings no ACK. -/
theorem tallied_other (h : Tallied q) (hsound : Sound q'.1) (hnotes : q'.2 = q.2)
    (hcum : q'.1.proc.self.cum_acked_seq = q.1.proc.self.cum_acked_seq)
    (htotal : q'.1.proc.self.ctl.rtt_window_total = q.1.proc.self.ctl.rtt_window_total)
    (hmarked : q'.1.proc.self.ctl.rtt_window_marked = q.1.proc.self.ctl.rtt_window_marked) :
    Tallied q' := by
  have htot : counted_total q' = counted_total q := by
    unfold counted_total
    rw [hnotes, htotal]
  have hmark : counted_marked q' = counted_marked q := by
    unfold counted_marked
    rw [hnotes, hmarked]
  have horder : InOrder q' ↔ InOrder q := by
    unfold InOrder
    rw [hnotes]
  refine ⟨hsound, ?_, ?_, ?_, ?_, ?_⟩
  · rw [hnotes, hcum]
    exact h.le_cum
  · rw [hnotes, hcum]
    exact h.cum_arrived
  · rw [htot, hnotes]
    exact h.total_le
  · rw [htot, hnotes, horder]
    exact h.total_eq
  · rw [hmark, hnotes, horder]
    exact h.marked_eq

/-- An ACK of the network as the listener reads it. -/
theorem read_ack_of_mem {n : Net Dctcp.cls} (h : Reflected n) {data : List Byte}
    (hd : data ∈ n.acks) :
    ∃ shim ack, Dctcp.read_ack data = .ok (some (shim, ack)) ∧ 0 ≤ ack.ack_seq := by
  obtain ⟨d, ecn, t, hsock, -, hpack⟩ := h.acks data hd
  exact ⟨_, _, Dctcp.read_ack_pack hpack, (h.booked.sent_lt d.payload hsock).1⟩

/-- It is accepted exactly if its number is the highest so far: nothing at or below
`cum_acked_seq` is in flight. -/
theorem accepts_iff {n : Net Dctcp.cls} (h : Sound n) {data : List Byte} {shim : Shim}
    {ack : AckPayload} (hread : Dctcp.read_ack data = .ok (some (shim, ack))) :
    dctcp_accepts data n.proc.self = true ↔ n.proc.self.cum_acked_seq < ack.ack_seq := by
  unfold dctcp_accepts
  rw [hread]
  dsimp only
  rw [Bool.not_eq_true', decide_eq_false_iff_not]
  constructor
  · intro hnot
    by_contra hle
    refine hnot ⟨?_, not_lt.mp hle⟩
    have hout : ack.ack_seq ∉ n.proc.self.in_flight := fun hin => hle (h.framed.out_lt _ hin).1
    unfold Dctcp.send_ts
    rw [AList.lookup_eq_none.mpr hout]
    rfl
  · intro hlt hstale
    exact absurd hstale.2 (not_le.mpr hlt)

/-- Numbers in order, and one more. -/
theorem inOrder_snoc {x : ℤ × Bool} (harr : arrivals q'.2 = arrivals q.2 ++ [x]) :
    InOrder q' ↔ InOrder q ∧ ∀ y ∈ arrivals q.2, y.1 < x.1 := by
  unfold InOrder
  rw [harr, List.map_append, List.map_singleton, List.pairwise_append]
  constructor
  · rintro ⟨hold, -, hcross⟩
    refine ⟨hold, ?_⟩
    intro y hy
    exact hcross y.1 (List.mem_map_of_mem hy) x.1 (List.mem_singleton_self _)
  · rintro ⟨hold, hlast⟩
    refine ⟨hold, List.pairwise_singleton _ _, ?_⟩
    intro a ha b hb
    obtain ⟨y, hy, rfl⟩ := List.mem_map.mp ha
    rw [List.mem_singleton.mp hb]
    exact hlast y hy

section

variable {clk : AckClock} {data : List Byte} {shim : Shim} {ack : AckPayload}

theorem arrivals_arrived (hread : Dctcp.read_ack data = .ok (some (shim, ack)))
    (hnotes : q'.2 = q.2 ++ note_ack data q.1.proc.self) :
    arrivals q'.2 = arrivals q.2 ++ [(ack.ack_seq, shim.ecn_echo)] := by
  rw [hnotes, arrivals_append, arrivals_note_ack q.1.proc.self hread]

/-- An ACK that is accepted has a higher number than all before it, and becomes
`cum_acked_seq`. -/
theorem tallied_accepted (h : Tallied q) (hread : Dctcp.read_ack data = .ok (some (shim, ack)))
    (hsound : Sound q'.1) (hnotes : q'.2 = q.2 ++ note_ack data q.1.proc.self)
    (hself : q'.1.proc.self = (Dctcp.ack_listener cfg clk data q.1.proc.self).1)
    (hacc : dctcp_accepts data q.1.proc.self = true) : Tallied q' := by
  have harr := arrivals_arrived hread hnotes
  have hgt := (accepts_iff h.sound hread).mp hacc
  obtain ⟨htotal, hmarked⟩ := counters_accepted cfg clk hread hacc
  have hcum : q'.1.proc.self.cum_acked_seq = ack.ack_seq := by
    obtain ⟨_, _, _, hread', heq⟩ := dctcp_accepted cfg clk hacc
    obtain ⟨rfl, rfl⟩ := Prod.mk.inj (Option.some.inj (Except.ok.inj (hread.symm.trans hread')))
    rw [hself, heq, Dctcp.on_ack_toTransport, acked_cum]
    exact max_eq_right hgt.le
  have htot : counted_total q' = counted_total q + 1 := by
    unfold counted_total
    rw [hself, hnotes, closed_total_append]
    omega
  have hlen : (arrivals q'.2).length = (arrivals q.2).length + 1 := by
    rw [harr]
    exact List.length_append
  -- every number so far is below the new one
  have hbelow : ∀ y ∈ arrivals q.2, y.1 < ack.ack_seq := fun y hy =>
    lt_of_le_of_lt (h.le_cum y hy) hgt
  have horder : InOrder q' ↔ InOrder q := (inOrder_snoc harr).trans (and_iff_left hbelow)
  refine ⟨hsound, ?_, ?_, ?_, ?_, ?_⟩
  · intro x hx
    rw [harr] at hx
    rw [hcum]
    rcases List.mem_append.mp hx with hx | hx
    · exact (hbelow x hx).le
    · rw [List.mem_singleton.mp hx]
  · intro _
    rw [harr]
    exact ⟨_, List.mem_append_right _ (List.mem_singleton_self _), hcum.symm⟩
  · rw [htot, hlen]
    exact Nat.succ_le_succ h.total_le
  · rw [htot, hlen, horder, Nat.add_right_cancel_iff]
    exact h.total_eq
  · intro ho
    have hold := h.marked_eq (horder.mp ho)
    unfold counted_marked at hold ⊢
    rw [hself, hnotes, closed_marked_append, ← hnotes, harr, List.countP_append,
      List.countP_singleton, ← hold]
    simp only
    omega

/-- An ACK that is dropped is late: a number as high has arrived before, and the account is
one short from then on. -/
theorem tallied_dropped (h : Tallied q) (hread : Dctcp.read_ack data = .ok (some (shim, ack)))
    (hpos : 0 ≤ ack.ack_seq) (hsound : Sound q'.1)
    (hnotes : q'.2 = q.2 ++ note_ack data q.1.proc.self)
    (hself : q'.1.proc.self = q.1.proc.self)
    (hacc : dctcp_accepts data q.1.proc.self = false) : Tallied q' := by
  have harr := arrivals_arrived hread hnotes
  -- the sender drops exactly the numbers it has acknowledged already
  have hle : ack.ack_seq ≤ q.1.proc.self.cum_acked_seq := by
    by_contra hgt
    rw [(accepts_iff h.sound hread).mpr (not_le.mp hgt)] at hacc
    cases hacc
  have htot : counted_total q' = counted_total q := by
    unfold counted_total
    rw [hself, hnotes, closed_total_append, closed_rejected hacc]
    rfl
  have hlen : (arrivals q'.2).length = (arrivals q.2).length + 1 := by
    rw [harr]
    exact List.length_append
  -- an arrival at least as high came before, so this one is out of order
  have hnot : ¬ InOrder q' := by
    intro ho
    obtain ⟨x, hx, hxc⟩ := h.cum_arrived (le_trans hpos hle)
    have hlt := ((inOrder_snoc harr).mp ho).2 x hx
    omega
  refine ⟨hsound, ?_, ?_, ?_, ?_, fun ho => absurd ho hnot⟩
  · intro x hx
    rw [harr] at hx
    rw [hself]
    rcases List.mem_append.mp hx with hx | hx
    · exact h.le_cum x hx
    · rw [List.mem_singleton.mp hx]
      exact hle
  · intro hc
    rw [hself] at hc ⊢
    obtain ⟨x, hx, hxc⟩ := h.cum_arrived hc
    rw [harr]
    exact ⟨x, List.mem_append_left _ hx, hxc⟩
  · rw [htot, hlen]
    exact Nat.le_succ_of_le h.total_le
  · -- the arrivals grow by one and the total does not: never equal again
    refine iff_of_false ?_ hnot
    rw [htot, hlen]
    have hle' := h.total_le
    omega

theorem tallied_ack (h : Tallied q) (hd : data ∈ q.1.acks) (hsound : Sound q'.1)
    (hnotes : q'.2 = q.2 ++ note_ack data q.1.proc.self)
    (hself : q'.1.proc.self = (Dctcp.ack_listener cfg clk data q.1.proc.self).1) :
    Tallied q' := by
  obtain ⟨shim, ack, hread, hpos⟩ := read_ack_of_mem h.sound.reflected hd
  cases hacc : dctcp_accepts data q.1.proc.self with
  | true => exact tallied_accepted h hread hsound hnotes hself hacc
  | false =>
      rw [dctcp_rejected cfg clk hacc] at hself
      exact tallied_dropped h hread hpos hsound hnotes hself hacc

end

/-- An ACK event that takes place has a datagram to deliver. -/
theorem ack_present {j : ℕ} {clk : AckClock} {n n' : Net Dctcp.cls}
    (h : Net.step cfg mp (.ack j clk) n = some n') : ∃ data, n.acks[j]? = some data := by
  cases hj : n.acks[j]? with
  | some data => exact ⟨data, rfl⟩
  | none =>
      have hop : (NetEvent.ack j clk).op n = none := by
        rw [NetEvent.op, hj]
        rfl
      unfold Net.step at h
      dsimp only at h
      rw [hop] at h
      cases h

/-- No other event touches what the account is about. -/
theorem quiet_event {e : NetEvent} {n n' : Net Dctcp.cls} (h : Net.step cfg mp e n = some n')
    (hne : ∀ j clk, e ≠ .ack j clk) :
    n'.proc.self.cum_acked_seq = n.proc.self.cum_acked_seq ∧
      n'.proc.self.ctl.rtt_window_total = n.proc.self.ctl.rtt_window_total ∧
      n'.proc.self.ctl.rtt_window_marked = n.proc.self.ctl.rtt_window_marked := by
  rcases net_self h with heq | ⟨call, -, -, heq⟩ | ⟨j, clk, data, he, -, -⟩ |
    ⟨now, log_us, calls, -, hx, heq⟩
  · rw [heq]
    exact ⟨rfl, rfl, rfl⟩
  · rw [heq, burst_iter_ctl n.proc.self call]
    exact ⟨burst_iter_cum n.proc.self call, rfl, rfl⟩
  · exact absurd he (hne j clk)
  · -- the cut of an RTO pass is one of `w`
    rw [heq, rto_fired_ctl hx]
    exact ⟨rto_fired_cum hx, rfl, rfl⟩

theorem tallied_step {e : NetEvent} (h : Tallied q)
    (hstep : recorded (Net.step cfg mp) note e q = some q') : Tallied q' := by
  obtain ⟨hnet, hnotes⟩ := recorded_eq_some.mp hstep
  have hsound : Sound q'.1 := sound_step h.sound hnet
  -- an event that is no ACK moves neither the counters nor the notes
  have hother : (∀ j clk, e ≠ .ack j clk) → q'.2 = q.2 → Tallied q' := by
    intro hne hsame
    obtain ⟨hcum, htotal, hmarked⟩ := quiet_event hnet hne
    exact tallied_other h hsound hsame hcum htotal hmarked
  cases e with
  | ack j clk =>
      obtain ⟨data, hj⟩ := ack_present hnet
      refine tallied_ack h (List.mem_of_getElem? hj) hsound ?_ (ack_self hj hnet)
      rw [hnotes, note, hj]
      rfl
  | acquire => exact hother (fun _ _ => NetEvent.noConfusion) (hnotes.trans (List.append_nil _))
  | send call => exact hother (fun _ _ => NetEvent.noConfusion) (hnotes.trans (List.append_nil _))
  | release => exact hother (fun _ _ => NetEvent.noConfusion) (hnotes.trans (List.append_nil _))
  | rto now log_us calls =>
      exact hother (fun _ _ => NetEvent.noConfusion) (hnotes.trans (List.append_nil _))
  | deliver i hops ecn t =>
      exact hother (fun _ _ => NetEvent.noConfusion) (hnotes.trans (List.append_nil _))

theorem tallied_start (monotonic : ℚ) : Tallied (Net.start Dctcp.cls cfg monotonic, []) := by
  refine ⟨sound_start monotonic, ?_, ?_, le_refl _, ?_, fun _ => rfl⟩
  · intro x hx
    exact absurd hx List.not_mem_nil
  · intro h
    have hstart : ¬ (0 : ℤ) ≤ -1 := by decide
    exact absurd h hstart
  · exact iff_of_true rfl List.Pairwise.nil

/-- **The marks are counted in order, and only in order.** Whatever the network does, every
ACK that has arrived has been counted, once and with its mark, exactly if the ACKs have
arrived in the order of their numbers. -/
theorem marks_counted_iff (cfg : Dctcp.Config) (mp : Option ℤ) (monotonic : ℚ)
    (es : List NetEvent) (q : Noted)
    (hrun : run (recorded (Net.step cfg mp) note) (Net.start Dctcp.cls cfg monotonic, []) es
      = some q) : CountsEach q ↔ InOrder q :=
  Tallied.countsEach_iff
    (run_invariant (fun _ _ _ h hstep => tallied_step h hstep) (tallied_start monotonic) hrun)

/-! ## Two ACKs in either order -/

/-- The packets the run delivers, in order. -/
def delivered (es : List NetEvent) : List ℕ :=
  es.filterMap fun
    | .deliver i _ _ _ => some i
    | _ => none

/-- The ACKs the run delivers, in order. -/
def answered_by (es : List NetEvent) : List ℕ :=
  es.filterMap fun
    | .ack j _ => some j
    | _ => none

/-- Nothing is lost, nothing times out, and each packet and each ACK arrives once. -/
structure EachOnce (es : List NetEvent) (n : Net Dctcp.cls) : Prop where
  sent : ∀ e ∈ es, NetEvent.Sent e
  no_rto : ∀ now log_us calls, NetEvent.rto now log_us calls ∉ es
  delivered : (delivered es).Perm (List.range n.proc.self.sock.length)
  answered : (answered_by es).Perm (List.range n.acks.length)

/-- Two packets are sent and reach the reflector, the first of them marked. -/
def both_answered : List NetEvent :=
  [.acquire, .send (sent_at 1000), .send (sent_at 1000), .release,
    .deliver 0 [] ECN_CE (at_us 1500), .deliver 1 [] 0 (at_us 1500)]

def acks_in_order : List NetEvent :=
  both_answered ++ [.ack 0 (clock_at 2000), .ack 1 (clock_at 2000)]

def acks_swapped : List NetEvent :=
  both_answered ++ [.ack 1 (clock_at 2000), .ack 0 (clock_at 2000)]

/-- The packets and the ACKs there are, the marks counted, and the ACKs that have arrived. -/
def tallies (q : Noted) : ℕ × ℕ × ℕ × List (ℤ × Bool) :=
  (q.1.proc.self.sock.length, q.1.acks.length, counted_marked q, arrivals q.2)

theorem acks_in_order_tallies :
    (run (recorded (Net.step (Dctcp.defaults (1 / 200)) (some 2)) note)
      (Net.start Dctcp.cls (Dctcp.defaults (1 / 200)) 0, []) acks_in_order).map tallies
      = some (2, 2, 1, [(0, true), (1, false)]) := by
  decide +kernel

theorem marks_counted_in_order :
    ∃ q, run (recorded (Net.step (Dctcp.defaults (1 / 200)) (some 2)) note)
      (Net.start Dctcp.cls (Dctcp.defaults (1 / 200)) 0, []) acks_in_order = some q ∧
        CountsEach q := by
  obtain ⟨q, hrun, hq⟩ := Option.map_eq_some_iff.mp acks_in_order_tallies
  simp only [tallies, Prod.mk.injEq] at hq
  have hiff := marks_counted_iff (Dctcp.defaults (1 / 200)) (some 2) 0 acks_in_order q hrun
  refine ⟨q, hrun, hiff.mpr ?_⟩
  unfold InOrder
  rw [hq.2.2.2]
  decide

theorem acks_swapped_tallies :
    (run (recorded (Net.step (Dctcp.defaults (1 / 200)) (some 2)) note)
      (Net.start Dctcp.cls (Dctcp.defaults (1 / 200)) 0, []) acks_swapped).map tallies
      = some (2, 2, 0, [(1, false), (0, true)]) := by
  decide +kernel

theorem acks_swapped_once {n : Net Dctcp.cls} (hsock : n.proc.self.sock.length = 2)
    (hacks : n.acks.length = 2) : EachOnce acks_swapped n := by
  refine ⟨?_, ?_, ?_, ?_⟩
  · simp [acks_swapped, both_answered, NetEvent.Sent, sent_at, SendCall.sent]
  · simp [acks_swapped, both_answered]
  · rw [hsock]
    decide
  · rw [hacks]
    decide

/-- The marked ACK comes second, is taken for a duplicate, and its mark is lost. -/
theorem marks_counted_fails :
    ¬ ∀ (cfg : Dctcp.Config) (mp : Option ℤ) (monotonic : ℚ) (es : List NetEvent) (q : Noted),
      run (recorded (Net.step cfg mp) note) (Net.start Dctcp.cls cfg monotonic, []) es = some q →
      EachOnce es q.1 → CountsEach q := by
  intro h
  obtain ⟨q, hrun, hq⟩ := Option.map_eq_some_iff.mp acks_swapped_tallies
  simp only [tallies, Prod.mk.injEq] at hq
  obtain ⟨hsock, hacks, hmarked, harr⟩ := hq
  have heach := h (Dctcp.defaults (1 / 200)) (some 2) 0 acks_swapped q hrun
    (acks_swapped_once hsock hacks)
  have hcount := heach.marked
  rw [hmarked, harr] at hcount
  exact absurd hcount (by decide)

end IntHpcc.DctcpMarks
