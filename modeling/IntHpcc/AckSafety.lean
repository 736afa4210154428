/-
What a cumulative acknowledgement is worth.

The reflector answers each data packet on its own, while a sender reads the number as
"this and everything below". Nothing in between reconciles the two, so the three
properties one expects of a cumulative ACK hold on some runs only. Each theorem here
says on exactly which:

* what is acknowledged has reached the reflector: when every ACK arrives after all
  numbers up to its own have been answered;
* what was handed out is acknowledged or still in flight: when no `sendto` fails;
* what is acknowledged was sent, and the packets in flight lie above it: when no
  datagram carries a number that was not handed out.

The step lemmas are those of the abstract window, `CumAck.backed_step_iff`,
`covered_step_iff` and `framed_step_iff`; the refinement lemmas carry them to the
senders and `Runs.always_iff_each` to whole runs.
-/
import IntHpcc.LosslessRun

set_option autoImplicit false

namespace IntHpcc.AckSafety

open IntHpcc.Runs IntHpcc.Bytes IntHpcc.Py IntHpcc.PacketFormat IntHpcc.SenderCore
open IntHpcc.SenderWindow IntHpcc.CumAck IntHpcc.Network IntHpcc.LosslessRun

section

variable {C : SenderClass} {cfg : C.Config} {mp : Option ℤ} {n n' : Net C}

/-! ## Acknowledged means delivered -/

/-- Everything up to `cum_acked_seq` has been answered by the reflector. -/
def AckBacked (n : Net C) : Prop :=
  ∀ s, 0 ≤ s → s ≤ n.proc.self.cum_acked_seq → s ∈ n.answered

/-- A step takes only answered packets out of `in_flight`. -/
def DropsOnlyAnswered (n : Net C) (_ : NetEvent) (n' : Net C) : Prop :=
  ∀ s, s ∈ n.proc.self.in_flight → s ∉ n'.proc.self.in_flight → s ∈ n.answered

/-- If the event brings an ACK to the sender, everything up to its number has been
answered by now. -/
def AckEarned (n : Net C) (e : NetEvent) : Prop :=
  ∀ j clk data k, e = .ack j clk → n.acks[j]? = some data → C.ack_seq data = some k →
    ∀ s, 0 ≤ s → s ≤ k → s ∈ n.answered

/-- If the event is an RTO pass that fires, the packets it fails to resend have been
answered by now. -/
def RtoLosesAnswered (cfg : C.Config) (n : Net C) (e : NetEvent) : Prop :=
  ∀ now log_us calls, e = .rto now log_us calls → rto_fires C cfg n.proc.self now = true →
    ∀ s, s ∈ n.proc.self.in_flight → (calls s).sent = false → s ∈ n.answered

theorem ackEarned_iff (cfg : C.Config) (e : NetEvent) :
    AckEarned n e ↔ (net_label cfg n e).Earned { s | s ∈ n.answered } := by
  constructor
  · intro h k hk
    obtain ⟨j, clk, data, rfl, hj, hseq⟩ := net_label_ack hk
    exact h j clk data k rfl hj hseq
  · rintro h j clk data k rfl hj hseq
    refine h k ?_
    simp only [net_label, NetEvent.op, hj, Option.map_some, Option.elim_some, label, hseq]

/-- One step, from a state where everything acknowledged has been answered. -/
theorem ackBacked_step_iff {e : NetEvent} (h : AckBacked n)
    (hstep : Net.step cfg mp e n = some n') : AckBacked n' ↔ AckEarned n e := by
  rw [ackEarned_iff cfg]
  rcases step_cases hstep with ⟨op, p, hop, hp, rfl⟩ | ⟨hops, ecn, t, payload, ack, hop, -, -, rfl⟩
  · have hw : view p.self.toTransport = n.window.step (net_label cfg n e) := by
      rw [net_label, hop]
      exact step_refines hp
    rw [← backed_step_iff (D := { s | s ∈ n.answered }) (w := n.window) h, ← hw]
    exact Iff.rfl
  · -- a delivery to the reflector: one more answered, nothing acknowledged
    refine iff_of_true ?_ ?_
    · intro s h₀ h₁
      exact List.mem_append_left _ (h s h₀ h₁)
    · intro k hk
      rw [net_label, hop] at hk
      cases hk

/-- What a step takes out of `in_flight`: the acknowledged numbers, or the failed
resends of an RTO pass. -/
theorem dropsOnlyAnswered_iff {e : NetEvent} (hs : Sound n) (hearned : AckEarned n e)
    (hstep : Net.step cfg mp e n = some n') :
    DropsOnlyAnswered n e n' ↔ RtoLosesAnswered cfg n e := by
  have hw : n'.window = n.window.step (net_label cfg n e) := net_refines hstep
  have hout : ∀ s, s ∈ n'.proc.self.in_flight ↔ s ∈ (n.window.step (net_label cfg n e)).out := by
    intro s
    rw [← hw]
    exact Iff.rfl
  rw [ackEarned_iff cfg] at hearned
  constructor
  · rintro hd now log_us calls rfl hfires s hmem hlost
    refine hd s hmem ?_
    rw [hout, net_label, NetEvent.op, Option.elim_some, label, if_pos hfires]
    exact fun hin => hin.2 hlost
  · intro hr s hmem hgone
    rw [hout] at hgone
    -- a number leaves the window by an ACK or by a failed retransmission only
    cases hl : net_label cfg n e with
    | idle =>
        rw [hl] at hgone
        exact absurd hmem hgone
    | send ok =>
        rw [hl] at hgone
        refine absurd ?_ hgone
        cases ok with
        | true => exact Set.mem_insert_of_mem _ hmem
        | false => exact hmem
    | ack k =>
        rw [hl] at hgone
        have hk : s ≤ k := by
          by_contra hlt
          exact hgone (mem_ack_out.mpr ⟨hmem, fun hb => hlt hb.2⟩)
        exact hearned k hl s (hs.reflected.booked.out_lt hmem).1 hk
    | resend l =>
        rw [hl] at hgone
        have hin : s ∈ l := by
          by_contra hnot
          exact hgone ⟨hmem, hnot⟩
        obtain ⟨now, log_us, calls, rfl, hfires, rfl⟩ := net_label_resend hl
        exact hr now log_us calls rfl hfires s hmem hin

end

/-- **Acknowledged means delivered, exactly when every ACK is earned.** On a run of any
of the senders over the lossy network: everything acknowledged has been answered in
every state, and only answered packets leave `in_flight`, if and only if each ACK
arrives after everything up to its number has been answered and each packet an RTO pass
fails to resend has been answered. -/
theorem ack_backed_iff (kind : SenderKind) (cfg : kind.cls.Config) (mp : Option ℤ)
    (monotonic : ℚ) (es : List NetEvent) (n : Net kind.cls)
    (hrun : run (Net.step cfg mp) (Net.start kind.cls cfg monotonic) es = some n) :
    (AlwaysIn (Net.step cfg mp) AckBacked (Net.start kind.cls cfg monotonic) es ∧
      EachStep (Net.step cfg mp) DropsOnlyAnswered (Net.start kind.cls cfg monotonic) es) ↔
    EachStep (Net.step cfg mp) (fun n e _ => AckEarned n e ∧ RtoLosesAnswered cfg n e)
      (Net.start kind.cls cfg monotonic) es := by
  have hsound : Sound (Net.start kind.cls cfg monotonic) := sound_start monotonic
  have hback : AckBacked (Net.start kind.cls cfg monotonic) :=
    backed_empty { s | s ∈ (Net.start kind.cls cfg monotonic).answered }
  -- the acknowledged numbers stay backed exactly if every ACK taken in is earned
  have hiff := always_iff_each (I := Sound) (P := AckBacked) (C := fun n e _ => AckEarned n e)
    (fun _ _ _ hs hstep => sound_step hs hstep)
    (fun _ _ _ _ hb hstep => ackBacked_step_iff hb hstep) hsound hback hrun
  -- what an RTO pass drops is then a matter of the table it clears
  rw [hiff]
  constructor
  · rintro ⟨hearned, hdrops⟩ pre e post s₁ s₂ heq hpre hstep
    have he := hearned pre e post s₁ s₂ heq hpre hstep
    have hd := hdrops pre e post s₁ s₂ heq hpre hstep
    exact ⟨he, (dropsOnlyAnswered_iff (sound_run hpre) he hstep).mp hd⟩
  · intro h
    refine ⟨h.mono fun _ _ _ hc => hc.1, ?_⟩
    intro pre e post s₁ s₂ heq hpre hstep
    obtain ⟨he, hr⟩ := h pre e post s₁ s₂ heq hpre hstep
    exact (dropsOnlyAnswered_iff (sound_run hpre) he hstep).mpr hr

/-- Packets 0 and 1 are sent, 0 is lost, 1 is answered, and the answer arrives. -/
def first_lost : List NetEvent :=
  [.acquire, .send sent_at_zero, .send sent_at_zero, .release, .deliver 1 [] 0 zero_us,
    .ack 0 zero_clock]

/-- The defaults, at the fallback `measure_base_rtt` returns without an answer. -/
def dctcp_config : Dctcp.Config := Dctcp.defaults (5 / 1000)

/-- After `first_lost` a DCTCP sender has packet 0 acknowledged, although the reflector
has answered packet 1 only. -/
theorem first_lost_state :
    (run (Net.step (C := SenderKind.dctcp.cls) dctcp_config (some 2))
        (Net.start SenderKind.dctcp.cls dctcp_config 0) first_lost).map
      (fun n => (n.proc.self.cum_acked_seq, n.answered, n.proc.self.flight)) = some (1, [1], 0) := by
  decide +kernel

theorem ack_backed_fails :
    ¬ ∀ (kind : SenderKind) (cfg : kind.cls.Config) (mp : Option ℤ) (monotonic : ℚ)
      (es : List NetEvent) (n : Net kind.cls),
      run (Net.step cfg mp) (Net.start kind.cls cfg monotonic) es = some n → AckBacked n := by
  intro h
  obtain ⟨n, hrun, hstate⟩ := Option.map_eq_some_iff.mp first_lost_state
  rw [Prod.mk.injEq, Prod.mk.injEq] at hstate
  obtain ⟨hcum, hans, -⟩ := hstate
  have h₀ := h .dctcp dctcp_config (some 2) 0 first_lost n hrun 0 (le_refl 0) (by omega)
  rw [hans] at h₀
  exact absurd h₀ (by decide)

/-- Here the timeout comes before the answer to 1 does: both packets are resent, and the second
copy of 0 is answered as well. -/
def resent_and_answered : List NetEvent :=
  [.acquire, .send sent_at_zero, .send sent_at_zero, .release, .deliver 1 [] 0 zero_us,
    .rto (at_us 40000) (at_us 40000) (fun _ => sent_at 40000), .deliver 2 [] 0 (at_us 41000)]

/-- The two answers arrive, that to 0 first. -/
def both_acked : List NetEvent :=
  resent_and_answered ++ [.ack 1 (clock_at 42000)] ++ [.ack 0 (clock_at 43000)]

theorem both_acked_states :
    (run (Net.step (C := SenderKind.dctcp.cls) dctcp_config (some 2))
        (Net.start SenderKind.dctcp.cls dctcp_config 0) resent_and_answered).map
      (fun n => (n.acks.map Dctcp.ack_seq, n.answered)) = some ([some 1, some 0], [1, 0]) ∧
    (run (Net.step (C := SenderKind.dctcp.cls) dctcp_config (some 2))
        (Net.start SenderKind.dctcp.cls dctcp_config 0)
        (resent_and_answered ++ [.ack 1 (clock_at 42000)])).map
      (fun n => (n.acks.map Dctcp.ack_seq, n.answered)) = some ([some 1, some 0], [1, 0]) ∧
    (run (Net.step (C := SenderKind.dctcp.cls) dctcp_config (some 2))
        (Net.start SenderKind.dctcp.cls dctcp_config 0) both_acked).map
      (fun n => (n.proc.self.cum_acked_seq, n.proc.self.flight)) = some (1, 0) := by
  decide +kernel

/-- An ACK up to 1 is earned once both packets are answered. -/
theorem earned_of_state {n : Net SenderKind.dctcp.cls} {i : ℕ} {clk : AckClock}
    (h : (n.acks.map Dctcp.ack_seq, n.answered) = ([some 1, some 0], [1, 0])) :
    AckEarned n (.ack i clk) ∧ RtoLosesAnswered dctcp_config n (.ack i clk) := by
  rw [Prod.mk.injEq] at h
  refine ⟨?_, fun now log_us calls heq => by cases heq⟩
  intro j clk' data k _ hj hseq s h₀ hs
  -- the number of an ACK is one of the two
  have hmem : some k ∈ n.acks.map Dctcp.ack_seq := by
    rw [← hseq]
    exact List.mem_map_of_mem (List.mem_of_getElem? hj)
  rw [h.1] at hmem
  rw [h.2]
  have hk : k = 1 ∨ k = 0 := by simpa using hmem
  have hs' : s = 1 ∨ s = 0 := by omega
  simpa using hs'

/-- Every ACK of `both_acked` is earned, and one of the ACKs of `first_lost` is not. -/
theorem ack_backed_two_runs :
    (AlwaysIn (Net.step (C := SenderKind.dctcp.cls) dctcp_config (some 2)) AckBacked
        (Net.start SenderKind.dctcp.cls dctcp_config 0) both_acked ∧
      EachStep (Net.step (C := SenderKind.dctcp.cls) dctcp_config (some 2)) DropsOnlyAnswered
        (Net.start SenderKind.dctcp.cls dctcp_config 0) both_acked) ∧
    ¬ EachStep (Net.step (C := SenderKind.dctcp.cls) dctcp_config (some 2))
      (fun n e _ => AckEarned n e ∧ RtoLosesAnswered dctcp_config n e)
      (Net.start SenderKind.dctcp.cls dctcp_config 0) first_lost := by
  constructor
  · obtain ⟨h₁, h₂, h₃⟩ := both_acked_states
    obtain ⟨n, hrun, -⟩ := Option.map_eq_some_iff.mp h₃
    refine (ack_backed_iff .dctcp dctcp_config (some 2) 0 both_acked n hrun).mpr ?_
    refine ((EachStep.of_forall ?_).snoc ?_).snoc ?_
    · -- no ACK yet, and the RTO pass gets both packets out
      intro e he n₁ _
      refine ⟨?_, ?_⟩
      · rintro j clk data k rfl
        simp [resent_and_answered] at he
      · rintro now log_us calls rfl - s - hlost
        simp only [resent_and_answered, List.mem_cons, reduceCtorEq, List.not_mem_nil,
          NetEvent.rto.injEq, false_or, or_false] at he
        rw [he.2.2] at hlost
        cases hlost
    · intro n₁ _ hrun₁ _
      have hshown := shown_of_run h₁ hrun₁
      exact earned_of_state hshown
    · intro n₁ _ hrun₁ _
      have hshown := shown_of_run h₂ hrun₁
      exact earned_of_state hshown
  · intro h
    obtain ⟨n, hrun, hstate⟩ := Option.map_eq_some_iff.mp first_lost_state
    rw [Prod.mk.injEq, Prod.mk.injEq] at hstate
    obtain ⟨hcum, hans, -⟩ := hstate
    have hiff := ack_backed_iff .dctcp dctcp_config (some 2) 0 first_lost n hrun
    have hback : AckBacked n := (hiff.mpr h).1 first_lost [] n (List.append_nil _).symm hrun
    have h₀ := hback 0 (le_refl 0) (by omega)
    rw [hans] at h₀
    exact absurd h₀ (by decide)

/-! ## Nothing is lost -/

section

variable {C : SenderClass} {cfg : C.Config} {mp : Option ℤ} {n n' : Net C}

/-- If `run(max_packets=N)` could leave its loop now because nothing is in flight, all
`N` packets are acknowledged. -/
def ExitComplete (mp : Option ℤ) (n : Net C) : Prop :=
  ∀ N : ℕ, mp = some (N : ℤ) → C.drained N n.proc.self →
    n.proc.self.cum_acked_seq = (N : ℤ) - 1

/-- The burst loop never hands out more than `max_packets` numbers. -/
def NextBounded (mp : Option ℤ) (n : Net C) : Prop :=
  ∀ N : ℕ, mp = some (N : ℤ) → n.proc.self.next_seq ≤ N

theorem nextBounded_step {e : NetEvent} (h : NextBounded mp n)
    (hstep : Net.step cfg mp e n = some n') : NextBounded mp n' := by
  rintro N rfl
  have hN := h N rfl
  have hw : n'.proc.self.next_seq = (n.window.step (net_label cfg n e)).next := by
    rw [← net_refines hstep]
    rfl
  cases hl : net_label cfg n e with
  | idle =>
      rw [hw, hl]
      exact hN
  | ack k =>
      rw [hw, hl]
      show (n.window.ack k).next ≤ N
      rw [ack_next]
      exact hN
  | resend l =>
      rw [hw, hl]
      exact hN
  | send ok =>
      -- a number is handed out only below the guard of the burst loop
      have hlt : n.proc.self.next_seq < N := by
        rcases step_cases hstep with ⟨op, p, hop, hp, -⟩ | ⟨_, _, _, _, _, hop, -⟩
        · rw [net_label, hop, Option.elim_some] at hl
          cases op with
          | send call =>
              obtain ⟨⟨-, hg, -⟩, -⟩ := step_send.mp hp
              simp only [SenderClass.burst_guard, Option.all_some, Bool.and_eq_true,
                decide_eq_true_eq] at hg
              exact hg.2
          | acquire => cases hl
          | release => cases hl
          | datagram data clk =>
              rw [label] at hl
              cases hk : C.ack_seq data with
              | none =>
                  rw [hk] at hl
                  cases hl
              | some k =>
                  rw [hk] at hl
                  cases hl
          | rto now log_us calls =>
              rw [label] at hl
              split at hl
              · cases hl
              · cases hl
        · rw [net_label, hop] at hl
          cases hl
      rw [hw, hl]
      show (n.window.step (.send ok)).next ≤ N
      have hnext : (n.window.step (.send ok)).next = n.proc.self.next_seq + 1 := by
        cases ok with
        | true => rfl
        | false => rfl
      omega

/-- With nothing in flight and all handed out, the last number is acknowledged. -/
theorem exitComplete_of_nothingLost (hs : Sound n) (hb : NextBounded mp n)
    (h : NothingLost n) : ExitComplete mp n := by
  rintro N rfl ⟨hge, hflight⟩
  have hle := hb N rfl
  have hcum : n.proc.self.cum_acked_seq < n.proc.self.next_seq := hs.framed.cum_lt
  have hroot : -1 ≤ n.proc.self.cum_acked_seq := hs.rooted.cum_ge
  have hnone : ∀ s, s ∉ n.proc.self.in_flight := by
    intro s hmem
    rw [AList.mem_keys] at hmem
    have hnil : n.proc.self.in_flight.keys = [] := List.eq_nil_of_length_eq_zero hflight
    rw [hnil] at hmem
    exact List.not_mem_nil hmem
  by_cases hN : N = 0
  · omega
  · rcases h (N - 1) (by omega) (by omega) with hle' | hmem
    · omega
    · exact absurd hmem (hnone _)

end

/-- **Nothing is lost, exactly when every `sendto` succeeds.** On a run of any of the
senders over the lossy network: in every state each number handed out is acknowledged or
in flight, and the early exit of `run` finds everything acknowledged, if and only if no
`sendto` of the run fails. -/
theorem nothing_lost_iff (kind : SenderKind) (cfg : kind.cls.Config) (mp : Option ℤ)
    (monotonic : ℚ) (es : List NetEvent) (n : Net kind.cls)
    (hrun : run (Net.step cfg mp) (Net.start kind.cls cfg monotonic) es = some n) :
    AlwaysIn (Net.step cfg mp) (fun n => NothingLost n ∧ ExitComplete mp n)
        (Net.start kind.cls cfg monotonic) es ↔
      EachStep (Net.step cfg mp) (fun n e _ => AllSent cfg n e)
        (Net.start kind.cls cfg monotonic) es := by
  have hinv : ∀ es n, run (Net.step cfg mp) (Net.start kind.cls cfg monotonic) es = some n →
      NextBounded mp n := by
    intro es n h
    refine run_invariant (fun _ _ _ hb hstep => nextBounded_step hb hstep) ?_ h
    rintro N rfl
    exact Int.natCast_nonneg N
  -- `ExitComplete` follows from `NothingLost`, so the equivalence is about the latter
  have hiff : AlwaysIn (Net.step cfg mp) NothingLost (Net.start kind.cls cfg monotonic) es ↔
      EachStep (Net.step cfg mp) (fun n e _ => AllSent cfg n e)
        (Net.start kind.cls cfg monotonic) es := by
    refine always_iff_each (I := Sound) (fun _ _ _ hs hstep => sound_step hs hstep) ?_
      (sound_start monotonic) ?_ hrun
    · intro e s s' hs hP hstep
      exact nothingLost_step_iff hs hP hstep
    · exact nothingLost_start monotonic
  rw [← hiff]
  constructor
  · intro h pre post n' heq hpre
    exact (h pre post n' heq hpre).1
  · intro h pre post n' heq hpre
    have hlost := h pre post n' heq hpre
    exact ⟨hlost, exitComplete_of_nothingLost (sound_run hpre) (hinv pre n' hpre) hlost⟩

/-- The only packet of a run is refused by `sendto`, and the run is over. -/
def only_refused : List NetEvent := [.acquire, .send (.os_error zero_us), .release]

/-- After `only_refused` packet 0 is neither acknowledged nor in flight. -/
theorem only_refused_state :
    (run (Net.step (C := SenderKind.dctcp.cls) dctcp_config (some 1))
        (Net.start SenderKind.dctcp.cls dctcp_config 0) only_refused).map
      (fun n => (n.proc.self.cum_acked_seq, n.proc.self.next_seq, n.proc.self.in_flight.keys))
      = some (-1, 1, []) := by
  decide +kernel

theorem nothing_lost_fails :
    ¬ ∀ (kind : SenderKind) (cfg : kind.cls.Config) (mp : Option ℤ) (monotonic : ℚ)
      (es : List NetEvent) (n : Net kind.cls),
      run (Net.step cfg mp) (Net.start kind.cls cfg monotonic) es = some n → NothingLost n := by
  intro h
  obtain ⟨n, hrun, hstate⟩ := Option.map_eq_some_iff.mp only_refused_state
  rw [Prod.mk.injEq, Prod.mk.injEq] at hstate
  obtain ⟨hcum, hnext, hkeys⟩ := hstate
  rcases h .dctcp dctcp_config (some 1) 0 only_refused n hrun 0 (le_refl 0) (by omega) with h' | h'
  · omega
  · rw [AList.mem_keys, hkeys] at h'
    exact List.not_mem_nil h'

/-- All sends of `both_acked` succeed, the resends too, and that of `only_refused` fails. -/
theorem nothing_lost_two_runs :
    AlwaysIn (Net.step (C := SenderKind.dctcp.cls) dctcp_config (some 2))
      (fun n => NothingLost n ∧ ExitComplete (some 2) n)
      (Net.start SenderKind.dctcp.cls dctcp_config 0) both_acked ∧
    ¬ EachStep (Net.step (C := SenderKind.dctcp.cls) dctcp_config (some 1))
      (fun n e _ => AllSent dctcp_config n e)
      (Net.start SenderKind.dctcp.cls dctcp_config 0) only_refused := by
  constructor
  · obtain ⟨n, hrun, -⟩ := Option.map_eq_some_iff.mp both_acked_states.2.2
    -- two packets, all sends go through, one of them after a timeout
    refine (nothing_lost_iff .dctcp dctcp_config (some 2) 0 both_acked n hrun).mpr ?_
    apply eachStep_allSent
    simp [both_acked, resent_and_answered, NetEvent.Sent, sent_at_zero, sent_at, SendCall.sent]
  · intro h
    obtain ⟨n, hrun, hstate⟩ := Option.map_eq_some_iff.mp only_refused_state
    rw [Prod.mk.injEq, Prod.mk.injEq] at hstate
    obtain ⟨hcum, hnext, hkeys⟩ := hstate
    have hiff := nothing_lost_iff .dctcp dctcp_config (some 1) 0 only_refused n hrun
    -- the only `sendto` is refused: number 0 is neither in flight nor acknowledged
    have hlost := (hiff.mpr h only_refused [] n (List.append_nil _).symm hrun).1
    rcases hlost 0 (le_refl 0) (by omega) with h' | h'
    · omega
    · rw [AList.mem_keys, hkeys] at h'
      exact List.not_mem_nil h'

/-! ## Acknowledged means sent -/

/-- What is acknowledged was handed out, and the packets in flight lie strictly between
the two ends. -/
def AckFramed {C : SenderClass} (p : C.Proc) : Prop :=
  p.self.cum_acked_seq < p.self.next_seq ∧
    ∀ s, s ∈ p.self.in_flight → p.self.cum_acked_seq < s ∧ s < p.self.next_seq

/-- If the event is a datagram with a sequence number in it, that number has been handed
out. -/
def AcksSent {C : SenderClass} (p : C.Proc) (op : Op) : Prop :=
  ∀ data clk k, op = .datagram data clk → C.ack_seq data = some k → k < p.self.next_seq

theorem acksSent_iff {C : SenderClass} (cfg : C.Config) {p : C.Proc} (op : Op) :
    AcksSent p op ↔ (label C cfg p op).Honest (view p.self.toTransport) := by
  constructor
  · intro h k hk
    -- only a datagram with a readable number is an ACK of the window
    cases op with
    | datagram data clk =>
        rw [label] at hk
        cases hseq : C.ack_seq data with
        | none =>
            rw [hseq] at hk
            cases hk
        | some k' =>
            rw [hseq] at hk
            obtain rfl := Label.ack.inj hk
            exact h data clk k' rfl hseq
    | acquire => cases hk
    | send call => cases hk
    | release => cases hk
    | rto now log_us calls =>
        rw [label] at hk
        split at hk
        · cases hk
        · cases hk
  · rintro h data clk k rfl hseq
    refine h k ?_
    rw [label, hseq]
    rfl

/-- **Acknowledged means sent, exactly when only sent numbers are acknowledged.** On a
run of any of the senders, whatever datagrams arrive: `cum_acked_seq` stays below
`next_seq` and the packets in flight between the two, if and only if no datagram carries
a sequence number that has not been handed out by then. -/
theorem ack_framed_iff (kind : SenderKind) (cfg : kind.cls.Config) (mp : Option ℤ)
    (monotonic : ℚ) (ops : List Op) (p : kind.cls.Proc)
    (hrun : run (kind.cls.step cfg mp) (kind.cls.start cfg monotonic) ops = some p) :
    AlwaysIn (kind.cls.step cfg mp) AckFramed (kind.cls.start cfg monotonic) ops ↔
      EachStep (kind.cls.step cfg mp) (fun p op _ => AcksSent p op)
        (kind.cls.start cfg monotonic) ops := by
  refine always_iff_each (I := fun _ => True) (fun _ _ _ _ _ => trivial) ?_ trivial ?_ hrun
  · intro op p p' _ hP hstep
    have hf : Framed (view p.self.toTransport) := ⟨hP.1, hP.2⟩
    rw [acksSent_iff cfg, ← framed_step_iff hf, ← step_refines hstep]
    exact ⟨fun h => ⟨h.1, h.2⟩, fun h => ⟨h.1, h.2⟩⟩
  · have hcum : (-1 : ℤ) < 0 := by decide
    refine ⟨hcum, ?_⟩
    intro s hs
    exact absurd hs (AList.notMem_empty s)

def hpcc_config : Hpcc.Config := Hpcc.defaults (5 / 1000)

/-- The reply to the first probe of `measure_base_rtt`, which used the same port. -/
theorem probe_reply : ∃ data, Hpcc.ack_seq data = some 2000000 := by
  have hpack : ∃ bs, DataPacket.pack { payload := ⟨2000000, 0, 0⟩ } = .ok bs := by
    have hseq : (0 : ℤ) ≤ 2000000 := by decide
    obtain ⟨bs, hbs⟩ := (build_packet_bytes_ok 0 hseq 0).mpr (by decide)
    unfold build_packet_bytes at hbs
    obtain ⟨body, hbody, -⟩ := bind_eq_ok.mp hbs
    exact ⟨body, hbody⟩
  obtain ⟨bs, hbs⟩ := hpack
  obtain ⟨ack, hack, -⟩ := Reflector.build_ack_pack hbs [] 0 0
  exact ⟨ack, Hpcc.ack_seq_pack hack⟩

/-- Before anything is sent, the probe reply acknowledges two million packets. -/
theorem probe_reply_state : ∃ data p,
    run (SenderKind.hpcc.cls.step hpcc_config none) (SenderKind.hpcc.cls.start hpcc_config 0)
      [.datagram data zero_clock] = some p ∧
    p.self.cum_acked_seq = 2000000 ∧ p.self.next_seq = 0 := by
  obtain ⟨data, hdata⟩ := probe_reply
  have hstep : Hpcc.cls.step hpcc_config none (.datagram data zero_clock)
      (Hpcc.cls.start hpcc_config 0) = some _ := step_datagram.mpr ⟨⟨rfl, rfl⟩, rfl⟩
  have hview := step_refines hstep
  have hlabel : label Hpcc.cls hpcc_config (Hpcc.cls.start hpcc_config 0)
      (.datagram data zero_clock) = .ack 2000000 := by
    show (Hpcc.ack_seq data).elim Label.idle Label.ack = _
    rw [hdata]
    rfl
  rw [hlabel, view_start] at hview
  refine ⟨data, _, (run_cons_eq_some _).mpr ⟨_, hstep, rfl⟩, ?_, ?_⟩
  · exact congrArg Window.cum hview
  · exact congrArg Window.next hview

theorem ack_framed_fails :
    ¬ ∀ (kind : SenderKind) (cfg : kind.cls.Config) (mp : Option ℤ) (monotonic : ℚ)
      (ops : List Op) (p : kind.cls.Proc),
      run (kind.cls.step cfg mp) (kind.cls.start cfg monotonic) ops = some p → AckFramed p := by
  intro h
  obtain ⟨data, p, hrun, hcum, hnext⟩ := probe_reply_state
  have hlt := (h .hpcc hpcc_config none 0 _ p hrun).1
  rw [hcum, hnext] at hlt
  exact absurd hlt (by decide)

/-- Two packets are sent and answered, the second one first. -/
def two_acks : List Op :=
  [.acquire, .send sent_at_zero, .send sent_at_zero, .release] ++
    [.datagram (bare_ack 0 1) (clock_at 6000)] ++ [.datagram (bare_ack 0 0) (clock_at 7000)]

theorem two_acks_states :
    (run (SenderKind.hpcc.cls.step hpcc_config (some 2)) (SenderKind.hpcc.cls.start hpcc_config 0)
      [.acquire, .send sent_at_zero, .send sent_at_zero, .release]).map
        (fun p => p.self.next_seq) = some 2 ∧
    (run (SenderKind.hpcc.cls.step hpcc_config (some 2)) (SenderKind.hpcc.cls.start hpcc_config 0)
      ([.acquire, .send sent_at_zero, .send sent_at_zero, .release] ++
        [.datagram (bare_ack 0 1) (clock_at 6000)])).map (fun p => p.self.next_seq) = some 2 ∧
    (run (SenderKind.hpcc.cls.step hpcc_config (some 2)) (SenderKind.hpcc.cls.start hpcc_config 0)
      two_acks).map (fun p => p.self.cum_acked_seq) = some 1 := by
  decide +kernel

theorem acksSent_bare {p : Hpcc.cls.Proc} {k : ℕ} {clk : AckClock}
    (hread : Hpcc.ack_seq (bare_ack 0 k) = some (k : ℤ)) (hk : (k : ℤ) < p.self.next_seq) :
    AcksSent p (.datagram (bare_ack 0 k) clk) := by
  intro data clk' k' heq hseq
  cases heq
  rw [← Option.some.inj (hread.symm.trans hseq)]
  exact hk

/-- The numbers acknowledged in `two_acks` have been handed out, and the probe reply carries
one that has not. -/
theorem ack_framed_two_runs :
    AlwaysIn (SenderKind.hpcc.cls.step hpcc_config (some 2)) AckFramed
      (SenderKind.hpcc.cls.start hpcc_config 0) two_acks ∧
    ∃ data, ¬ EachStep (SenderKind.hpcc.cls.step hpcc_config none) (fun p op _ => AcksSent p op)
      (SenderKind.hpcc.cls.start hpcc_config 0) [.datagram data zero_clock] := by
  constructor
  · obtain ⟨h₁, h₂, h₃⟩ := two_acks_states
    obtain ⟨p, hrun, -⟩ := Option.map_eq_some_iff.mp h₃
    refine (ack_framed_iff .hpcc hpcc_config (some 2) 0 two_acks p hrun).mpr ?_
    -- both ACKs are of numbers that have been sent
    refine ((EachStep.of_forall ?_).snoc ?_).snoc ?_
    · intro op hop _ _ data clk k heq
      subst heq
      simp at hop
    · intro p₁ _ hrun₁ _
      have hnext := shown_of_run h₁ hrun₁
      exact acksSent_bare (by decide +kernel) (by rw [hnext]; decide)
    · intro p₁ _ hrun₁ _
      have hnext := shown_of_run h₂ hrun₁
      exact acksSent_bare (by decide +kernel) (by rw [hnext]; decide)
  · obtain ⟨data, p, hrun, hcum, hnext⟩ := probe_reply_state
    refine ⟨data, fun h => ?_⟩
    have hiff := ack_framed_iff .hpcc hpcc_config none 0 [.datagram data zero_clock] p hrun
    -- the probe's answer carries 2000000 and `next_seq` is still 0
    have hlt := (hiff.mpr h [.datagram data zero_clock] [] p rfl hrun).1
    rw [hcum, hnext] at hlt
    exact absurd hlt (by decide)

end IntHpcc.AckSafety
