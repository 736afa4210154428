/-
The controllers stay within their bounds.

`Dctcp.Ok` and `Hpcc.Ok` collect, per class, what holds of the object in every reachable
state: the window lies between `w_min` and `w_max`, the flight within `w_max`, the last
update not ahead of the last acknowledgement, and the averages in their ranges. The
clamps that keep them sit in different places (the update clamps on both sides, the RTO
cut only below, the DCTCP increase only above), so each transition has its own lemma.

The configurations are those the command line can sensibly give, `Config.Valid`. Under
them no listener ever raises either: `Hpcc.update_from_eq`, `Hpcc.parse_ack_ok` and
their DCTCP counterparts leave no exception to happen.
-/
import IntHpcc.Network
import Mathlib.Tactic.Linarith
import Mathlib.Tactic.Positivity

set_option autoImplicit false

namespace IntHpcc.ControllerInv

open IntHpcc.Runs IntHpcc.Bytes IntHpcc.Py IntHpcc.PacketFormat IntHpcc.SenderCore
open IntHpcc.SenderWindow IntHpcc.CumAck IntHpcc.Network

/-! ## What the classes share -/

/-- `min(w_max, ·)` under `max(w_min, ·)` stays between the two. -/
theorem clamp_mem {x hi : ℚ} (h : 1 ≤ hi) : 1 ≤ max 1 (min hi x) ∧ max 1 (min hi x) ≤ hi :=
  ⟨le_max_left _ _, max_le h (min_le_left _ _)⟩

/-- Halving with a floor of one stays below a bound that is at least one. -/
theorem halved_mem {w hi : ℚ} (h₁ : 1 ≤ w) (h : w ≤ hi) :
    1 ≤ max 1 (w / 2) ∧ max 1 (w / 2) ≤ hi := by
  refine ⟨le_max_left _ _, max_le (le_trans h₁ h) ?_⟩
  linarith

/-- A convex combination of two positive numbers is positive. -/
theorem ewma_pos {t a b : ℚ} (ht₀ : 0 ≤ t) (ht₁ : t ≤ 1) (ha : 0 < a) (hb : 0 < b) :
    0 < (1 - t) * a + t * b := by
  by_cases ht : t = 0
  · rw [ht]
    linarith
  · have h₁ : 0 ≤ (1 - t) * a := mul_nonneg (by linarith) ha.le
    have h₂ : 0 < t * b := mul_pos (lt_of_le_of_ne ht₀ (Ne.symm ht)) hb
    linarith

/-- A convex combination of two numbers in the unit interval stays there. -/
theorem ewma_mem {g a f : ℚ} (hg₀ : 0 ≤ g) (hg₁ : g ≤ 1) (ha₀ : 0 ≤ a) (ha₁ : a ≤ 1)
    (hf₀ : 0 ≤ f) (hf₁ : f ≤ 1) : 0 ≤ (1 - g) * a + g * f ∧ (1 - g) * a + g * f ≤ 1 := by
  have h₁ : 0 ≤ (1 - g) * a := mul_nonneg (by linarith) ha₀
  have h₂ : 0 ≤ g * f := mul_nonneg hg₀ hf₀
  have h₃ : (1 - g) * a ≤ (1 - g) * 1 := mul_le_mul_of_nonneg_left ha₁ (by linarith)
  have h₄ : g * f ≤ g * 1 := mul_le_mul_of_nonneg_left hf₁ hg₀
  constructor
  · linarith
  · linarith

section

variable {C : SenderClass} {cfg : C.Config} {mp : Option ℤ}

/-- The burst loop does not overfill the window. -/
theorem burst_flight_le {st : C.Self} {w_max : ℤ} (hg : C.burst_guard mp st = true)
    (hw₁ : 1 ≤ C.w st.ctl) (hw : C.w st.ctl ≤ w_max) (call : SendCall) :
    ((C.burst_iter st call).flight : ℤ) ≤ w_max := by
  unfold SenderClass.burst_guard at hg
  rw [Bool.and_eq_true, decide_eq_true_eq] at hg
  have hint : py_int (C.w st.ctl) ≤ w_max := by
    have := py_int_mono (le_trans zero_le_one hw₁) hw
    rwa [py_int_intCast] at this
  have hstep : (C.burst_iter st call).flight ≤ st.flight + 1 :=
    send_locked_flight_le C.snapshot st st.next_seq call
  have hlt := hg.1
  omega

/-- A burst iteration leaves the controller alone. -/
theorem burst_iter_ctl (st : C.Self) (call : SendCall) : (C.burst_iter st call).ctl = st.ctl :=
  send_locked_ctl C.snapshot st st.next_seq call

theorem burst_iter_cum (st : C.Self) (call : SendCall) :
    (C.burst_iter st call).cum_acked_seq = st.cum_acked_seq :=
  send_locked_cum C.snapshot st st.next_seq call

/-- With nothing in flight and a window of at least one, an unlimited burst sends. -/
theorem burst_guard_of_empty {st : C.Self} (hw : 1 ≤ C.w st.ctl) (h : st.flight = 0) :
    C.burst_guard none st = true := by
  unfold SenderClass.burst_guard
  rw [h]
  have := one_le_py_int hw
  simp only [Option.all_none, Bool.and_true, decide_eq_true_eq, Nat.cast_zero]
  omega

/-- `cum_acked_seq` never decreases. -/
theorem cum_le_cum {p p' : C.Proc} {op : Op} (h : C.step cfg mp op p = some p') :
    p.self.cum_acked_seq ≤ p'.self.cum_acked_seq := by
  have hle := cum_le_step (view p.self.toTransport) (label C cfg p op)
  rwa [← step_refines h] at hle

/-- A listener that does not raise keeps running. -/
theorem listening_step {p p' : C.Proc} {op : Op}
    (hok : ∀ clk data st, (C.ack_listener cfg clk data st).2 = none) (hp : p.listening = true)
    (h : C.step cfg mp op p = some p') : p'.listening = true := by
  cases op with
  | acquire =>
      obtain ⟨-, rfl⟩ := step_acquire.mp h
      exact hp
  | send call =>
      obtain ⟨-, rfl⟩ := step_send.mp h
      exact hp
  | release =>
      obtain ⟨-, rfl⟩ := step_release.mp h
      exact hp
  | datagram data clk =>
      obtain ⟨-, rfl⟩ := step_datagram.mp h
      -- only an exception in the listener would end it
      show (C.ack_listener cfg clk data p.self).2.isNone = true
      rw [hok clk data p.self]
      rfl
  | rto now log_us calls =>
      obtain ⟨-, rfl⟩ := step_rto.mp h
      exact hp

theorem rto_fired_cum {st : C.Self} {now log_us : Us} {calls : ℤ → SendCall}
    (h : rto_fires C cfg st now = true) :
    (rto_checker C.snapshot C.rto_cut (C.rto_us cfg) now log_us calls st).cum_acked_seq
      = st.cum_acked_seq := by
  rw [rto_checker_fired h, resend_all_cum]
  rfl

end

/-! ## DCTCP -/

namespace Dctcp

open IntHpcc.Dctcp

structure Valid (cfg : Config) : Prop where
  w_init : 1 ≤ cfg.w_init
  w_max : cfg.w_init ≤ cfg.w_max
  g_nonneg : 0 ≤ cfg.g
  g_le : cfg.g ≤ 1

theorem valid_defaults (base_rtt_s : ℚ) : Valid (defaults base_rtt_s) := by
  refine ⟨?_, ?_, ?_, ?_⟩
  all_goals norm_num [defaults]

/-- What holds of a DCTCP sender in every reachable state. -/
structure Ok (cfg : Config) (st : Self) : Prop where
  one_le_w : 1 ≤ st.ctl.w
  w_le : st.ctl.w ≤ cfg.w_max
  flight_le : (st.flight : ℤ) ≤ cfg.w_max
  last_le : st.ctl.last_update_seq ≤ st.cum_acked_seq
  alpha_nonneg : 0 ≤ st.ctl.alpha
  alpha_le : st.ctl.alpha ≤ 1
  marked_le : st.ctl.rtt_window_marked ≤ st.ctl.rtt_window_total

variable {cfg : Config} {st : Self}

theorem ok_start (hv : Valid cfg) (monotonic : ℚ) : Ok cfg (cls.start cfg monotonic).self := by
  have h₁ : (1 : ℚ) ≤ cfg.w_init := by exact_mod_cast hv.w_init
  have h₂ : (cfg.w_init : ℚ) ≤ cfg.w_max := by exact_mod_cast hv.w_max
  refine ⟨h₁, h₂, ?_, le_refl _, le_refl _, zero_le_one, le_refl _⟩
  show (0 : ℤ) ≤ cfg.w_max
  have := hv.w_init
  have := hv.w_max
  omega

/-- The share of marked ACKs lies in the unit interval. -/
theorem marked_share_mem (h : st.ctl.rtt_window_marked ≤ st.ctl.rtt_window_total) :
    0 ≤ st.ctl.marked_share ∧ st.ctl.marked_share ≤ 1 := by
  unfold Ctl.marked_share
  have hle : (st.ctl.rtt_window_marked : ℚ) ≤ st.ctl.rtt_window_total := by exact_mod_cast h
  exact ⟨div_nonneg (Nat.cast_nonneg _) (Nat.cast_nonneg _),
    div_le_one_of_le₀ hle (Nat.cast_nonneg _)⟩

/-- The update keeps the bounds. -/
theorem ok_maybe_update (hv : Valid cfg) (h : Ok cfg st) (log_us : Us) :
    Ok cfg (maybe_update_window_locked cfg log_us st).1 := by
  rw [maybe_update_eq]
  by_cases hg : gate_open st = true
  · rw [if_pos hg]
    have hmax : (1 : ℚ) ≤ cfg.w_max := le_trans h.one_le_w h.w_le
    obtain ⟨hf₀, hf₁⟩ := marked_share_mem h.marked_le
    obtain ⟨ha₀, ha₁⟩ :=
      ewma_mem hv.g_nonneg hv.g_le h.alpha_nonneg h.alpha_le hf₀ hf₁
    have hw : 1 ≤ (st.ctl.updated cfg st.cum_acked_seq st.ctl.marked_share).w ∧
        (st.ctl.updated cfg st.cum_acked_seq st.ctl.marked_share).w ≤ cfg.w_max := by
      unfold Ctl.updated
      dsimp only
      by_cases hm : 0 < st.ctl.rtt_window_marked
      · -- the cut: a factor in [1/2, 1], floored at one
        rw [if_pos hm]
        refine ⟨le_max_left _ _, max_le hmax ?_⟩
        have hle : st.ctl.w * (1 - ((1 - cfg.g) * st.ctl.alpha
            + cfg.g * st.ctl.marked_share) / 2) ≤ st.ctl.w * 1 :=
          mul_le_mul_of_nonneg_left (by linarith) (le_trans zero_le_one h.one_le_w)
        linarith [h.w_le]
      · rw [if_neg hm]
        refine ⟨le_min hmax ?_, min_le_left _ _⟩
        linarith [h.one_le_w]
    exact ⟨hw.1, hw.2, h.flight_le, le_refl _, ha₀, ha₁, le_refl _⟩
  · rw [if_neg hg]
    exact h

/-- An ACK, up to the gate, keeps the bounds. -/
theorem ok_before_gate (h : Ok cfg st) (clk : AckClock) (ack_seq ecn_echo rtt_us : ℤ) :
    Ok cfg (before_gate clk ack_seq ecn_echo rtt_us st) := by
  have hcum : (before_gate clk ack_seq ecn_echo rtt_us st).cum_acked_seq
      = max st.cum_acked_seq ack_seq := acked_cum st.toTransport ack_seq
  have hflight : (before_gate clk ack_seq ecn_echo rtt_us st).flight ≤ st.flight :=
    acked_flight_le st.toTransport ack_seq
  refine ⟨h.one_le_w, h.w_le, ?_, ?_, h.alpha_nonneg, h.alpha_le, ?_⟩
  · have := h.flight_le
    omega
  · rw [hcum]
    exact le_trans h.last_le (le_max_left _ _)
  · have := h.marked_le
    show st.ctl.rtt_window_marked + (if ecn_echo ≠ 0 then 1 else 0)
      ≤ st.ctl.rtt_window_total + 1
    split
    · omega
    · omega

theorem ok_ack_listener (hv : Valid cfg) (h : Ok cfg st) (clk : AckClock) (data : List Byte) :
    Ok cfg (ack_listener cfg clk data st).1 := by
  rcases ack_listener_cases cfg clk data st with heq | ⟨shim, ack, rtt_us, -, -, heq⟩
  · rw [heq]
    exact h
  · rw [heq, on_ack_eq]
    exact ok_maybe_update hv (ok_before_gate h clk _ _ _) _

/-- The listener does not raise. -/
theorem ack_listener_ok (clk : AckClock) (data : List Byte) (st : Self) :
    (ack_listener cfg clk data st).2 = none := by
  rcases ack_listener_cases cfg clk data st with heq | ⟨shim, ack, rtt_us, -, -, heq⟩
  · rw [heq]
  · rw [heq, on_ack_eq, maybe_update_eq]

theorem ok_step {mp : Option ℤ} {p p' : cls.Proc} {op : Op} (hv : Valid cfg)
    (h : Ok cfg p.self) (hstep : cls.step cfg mp op p = some p') : Ok cfg p'.self := by
  rcases step_self hstep with heq | ⟨call, -, hg, heq⟩ | ⟨data, clk, -, heq⟩ |
    ⟨now, log_us, calls, -, hx, heq⟩
  · rw [heq]
    exact h
  · -- a send: only the flight has grown
    have hctl := burst_iter_ctl p.self call
    have hcum := burst_iter_cum p.self call
    have hflight := burst_flight_le hg h.one_le_w h.w_le call
    rw [← heq] at hctl hcum hflight
    refine ⟨?_, ?_, hflight, ?_, ?_, ?_, ?_⟩
    · rw [hctl]; exact h.one_le_w
    · rw [hctl]; exact h.w_le
    · rw [hctl, hcum]; exact h.last_le
    · rw [hctl]; exact h.alpha_nonneg
    · rw [hctl]; exact h.alpha_le
    · rw [hctl]; exact h.marked_le
  · rw [heq]
    exact ok_ack_listener hv h clk data
  · have hctl : p'.self.ctl = rto_cut p.self.ctl := by rw [heq]; exact rto_fired_ctl hx
    have hcum : p'.self.cum_acked_seq = p.self.cum_acked_seq := by
      rw [heq]; exact rto_fired_cum hx
    have hflight : p'.self.flight ≤ p.self.flight := by
      rw [heq]; exact rto_fired_flight_le hx
    obtain ⟨hw₁, hw⟩ := halved_mem h.one_le_w h.w_le
    refine ⟨?_, ?_, ?_, ?_, ?_, ?_, ?_⟩
    · rw [hctl]; exact hw₁
    · rw [hctl]; exact hw
    · have := h.flight_le
      omega
    · rw [hctl, hcum]; exact h.last_le
    · rw [hctl]; exact h.alpha_nonneg
    · rw [hctl]; exact h.alpha_le
    · rw [hctl]; exact h.marked_le

end Dctcp

/-! ## HPCC, both versions -/

namespace Hpcc

open IntHpcc.Hpcc

structure Valid (cfg : Config) : Prop where
  w_init : 1 ≤ cfg.w_init
  w_max : cfg.w_init ≤ cfg.w_max
  eta_pos : 0 < cfg.eta
  tau_nonneg : 0 ≤ cfg.tau_over_T
  tau_le : cfg.tau_over_T ≤ 1

theorem valid_defaults (base_rtt_s : ℚ) : Valid (defaults base_rtt_s) := by
  refine ⟨?_, ?_, ?_, ?_, ?_⟩
  all_goals norm_num [defaults]

/-- What holds of an HPCC sender, of either version, in every reachable state. -/
structure Ok (cfg : Config) (st : Self) : Prop where
  w_eq : st.ctl.w = st.ctl.w_ref
  one_le_w : 1 ≤ st.ctl.w_ref
  w_le : st.ctl.w_ref ≤ cfg.w_max
  flight_le : (st.flight : ℤ) ≤ cfg.w_max
  last_le : st.ctl.last_update_seq ≤ st.cum_acked_seq
  u_pos : 0 < st.ctl.u_smoothed

variable {cfg : Config} {st : Self}

theorem ok_init (hv : Valid cfg) (monotonic : ℚ) :
    Ok cfg { next_seq := 0, cum_acked_seq := -1, in_flight := ∅, sock := [],
             ctl := init cfg monotonic, events := [] } := by
  have h₁ : (1 : ℚ) ≤ cfg.w_init := by exact_mod_cast hv.w_init
  have h₂ : (cfg.w_init : ℚ) ≤ cfg.w_max := by exact_mod_cast hv.w_max
  refine ⟨rfl, h₁, h₂, ?_, le_refl _, zero_lt_one⟩
  show (0 : ℤ) ≤ cfg.w_max
  have := hv.w_init
  have := hv.w_max
  omega

/-- Taking in hops changes the utilisation and the hop table only. -/
theorem took_fields (cfg : Config) (hops : List IntHop) (c : Ctl) :
    (c.took cfg hops).w = c.w ∧ (c.took cfg hops).w_ref = c.w_ref ∧
      (c.took cfg hops).incarnation = c.incarnation ∧
      (c.took cfg hops).last_update_seq = c.last_update_seq ∧
      (c.took cfg hops).last_update_time = c.last_update_time := by
  unfold Ctl.took Ctl.smoothed
  dsimp only
  split
  · exact ⟨rfl, rfl, rfl, rfl, rfl⟩
  · exact ⟨rfl, rfl, rfl, rfl, rfl⟩

/-- The smoothed utilisation stays positive. -/
theorem took_u_pos (hv : Valid cfg) {c : Ctl} (h : 0 < c.u_smoothed) (hops : List IntHop) :
    0 < (c.took cfg hops).u_smoothed := by
  unfold Ctl.took Ctl.smoothed
  dsimp only
  split
  · next hu => exact ewma_pos hv.tau_nonneg hv.tau_le h hu
  · exact h

/-- An ACK, up to the gate, keeps the bounds. -/
theorem ok_before_gate (hv : Valid cfg) (h : Ok cfg st) (clk : AckClock) (ack_seq : ℤ)
    (hops : List IntHop) (rtt_us : ℤ) (fresh : Bool) :
    Ok cfg (before_gate cfg clk ack_seq hops rtt_us fresh st) := by
  have hcum : (before_gate cfg clk ack_seq hops rtt_us fresh st).cum_acked_seq
      = max st.cum_acked_seq ack_seq := acked_cum st.toTransport ack_seq
  -- an ACK only takes numbers out of flight
  have hflight : (before_gate cfg clk ack_seq hops rtt_us fresh st).flight ≤ st.flight :=
    acked_flight_le st.toTransport ack_seq
  have hflight' : ((before_gate cfg clk ack_seq hops rtt_us fresh st).flight : ℤ) ≤ cfg.w_max := by
    have := h.flight_le
    omega
  have hlast : st.ctl.last_update_seq
      ≤ (before_gate cfg clk ack_seq hops rtt_us fresh st).cum_acked_seq := by
    rw [hcum]
    exact le_trans h.last_le (le_max_left _ _)
  cases fresh with
  -- a stale one stops here: the controller is untouched
  | false => exact ⟨h.w_eq, h.one_le_w, h.w_le, hflight', hlast, h.u_pos⟩
  | true =>
      -- the estimator moves `u` and the hop table, no window
      obtain ⟨e₁, e₂, -, e₃, -⟩ := took_fields cfg hops st.ctl
      refine ⟨?_, ?_, ?_, hflight', ?_, took_u_pos hv h.u_pos hops⟩
      · show (st.ctl.took cfg hops).w = (st.ctl.took cfg hops).w_ref
        rw [e₁, e₂]
        exact h.w_eq
      · show 1 ≤ (st.ctl.took cfg hops).w_ref
        rw [e₂]
        exact h.one_le_w
      · show (st.ctl.took cfg hops).w_ref ≤ cfg.w_max
        rw [e₂]
        exact h.w_le
      · show (st.ctl.took cfg hops).last_update_seq ≤ _
        rw [e₃]
        exact hlast

/-- The update keeps the bounds, whatever window it starts from. -/
theorem ok_update_from (hv : Valid cfg) (h : Ok cfg st) (clk : AckClock) (gate_w : ℚ) :
    Ok cfg (update_from cfg clk gate_w st).1 := by
  rw [update_from_eq hv.eta_pos.ne']
  by_cases hg : gate_open cfg clk.monotonic gate_w st = true
  · rw [if_pos hg]
    have hmax : (1 : ℚ) ≤ cfg.w_max := le_trans h.one_le_w h.w_le
    obtain ⟨hw₁, hw⟩ := clamp_mem (x := gate_w / (st.ctl.u_eff / cfg.eta) + cfg.w_ai) hmax
    exact ⟨rfl, hw₁, hw, h.flight_le, le_refl _, h.u_pos⟩
  · rw [if_neg hg]
    exact h

/-- The window itself is the reference window. -/
theorem Ok.w_mem (h : Ok cfg st) : 1 ≤ st.ctl.w ∧ st.ctl.w ≤ cfg.w_max := by
  rw [h.w_eq]
  exact ⟨h.one_le_w, h.w_le⟩

/-- A send leaves the controller alone. -/
theorem ok_burst_iter {st' : Self} (h : Ok cfg st)
    (hctl : st'.ctl = st.ctl) (hcum : st'.cum_acked_seq = st.cum_acked_seq)
    (hflight : (st'.flight : ℤ) ≤ cfg.w_max) :
    Ok cfg st' ∧ st.ctl.incarnation ≤ st'.ctl.incarnation := by
  refine ⟨⟨?_, ?_, ?_, hflight, ?_, ?_⟩, ?_⟩
  · rw [hctl]; exact h.w_eq
  · rw [hctl]; exact h.one_le_w
  · rw [hctl]; exact h.w_le
  · rw [hctl, hcum]; exact h.last_le
  · rw [hctl]; exact h.u_pos
  · rw [hctl]

/-- The timeout halves the window and opens an incarnation. -/
theorem ok_rto {st' : Self} (h : Ok cfg st) (hctl : st'.ctl = rto_cut st.ctl)
    (hcum : st'.cum_acked_seq = st.cum_acked_seq) (hflight : st'.flight ≤ st.flight) :
    Ok cfg st' ∧ st.ctl.incarnation ≤ st'.ctl.incarnation := by
  obtain ⟨hw₁, hw⟩ := halved_mem h.one_le_w h.w_le
  refine ⟨⟨?_, ?_, ?_, ?_, ?_, ?_⟩, ?_⟩
  · rw [hctl]; rfl
  · rw [hctl]; exact hw₁
  · rw [hctl]; exact hw
  · have := h.flight_le
    omega
  · rw [hctl, hcum]; exact h.last_le
  · rw [hctl]; exact h.u_pos
  · rw [hctl]; exact Nat.le_succ _

/-! ### The incarnation -/

theorem before_gate_incarnation (cfg : Config) (clk : AckClock) (ack_seq : ℤ) (hops : List IntHop)
    (rtt_us : ℤ) (fresh : Bool) (st : Self) :
    (before_gate cfg clk ack_seq hops rtt_us fresh st).ctl.incarnation = st.ctl.incarnation := by
  cases fresh with
  | false => rfl
  | true => exact (took_fields cfg hops st.ctl).2.2.1

/-- The update advances the incarnation by one or not at all. -/
theorem update_from_incarnation (hv : Valid cfg) (clk : AckClock) (gate_w : ℚ) (st : Self) :
    st.ctl.incarnation ≤ (update_from cfg clk gate_w st).1.ctl.incarnation := by
  rw [update_from_eq hv.eta_pos.ne']
  by_cases hg : gate_open cfg clk.monotonic gate_w st = true
  · rw [if_pos hg]
    show st.ctl.incarnation ≤ (st.ctl.updated st.cum_acked_seq clk.monotonic
      (st.ctl.target cfg gate_w)).incarnation
    unfold Ctl.updated
    dsimp only
    split
    · exact Nat.le_succ _
    · exact le_refl _
  · rw [if_neg hg]

/-- An accepted ACK, whichever version takes it: `v1` and `v2` differ in the window they
update from and in what they call fresh, and neither matters here. -/
theorem ok_accepted (hv : Valid cfg) (h : Ok cfg st) (clk : AckClock) (gate_w : ℚ) (ack_seq : ℤ)
    (hops : List IntHop) (rtt_us : ℤ) (fresh : Bool) {st' : Self}
    (hst' : st' = (update_from cfg clk gate_w
      (before_gate cfg clk ack_seq hops rtt_us fresh st)).1) :
    Ok cfg st' ∧ st.ctl.incarnation ≤ st'.ctl.incarnation := by
  rw [hst']
  refine ⟨ok_update_from hv (ok_before_gate hv h clk ack_seq hops rtt_us fresh) clk gate_w, ?_⟩
  rw [← before_gate_incarnation cfg clk ack_seq hops rtt_us fresh st]
  exact update_from_incarnation hv clk gate_w _

/-! ### The two classes -/

theorem v1_ok_ack_listener (hv : Valid cfg) (h : Ok cfg st) (clk : AckClock)
    (data : List Byte) : Ok cfg (ack_listener cfg clk data st).1 ∧
      st.ctl.incarnation ≤ (ack_listener cfg clk data st).1.ctl.incarnation := by
  rcases ack_listener_cases cfg clk data st with
    heq | ⟨shim, hops, ack, rtt_us, -, -, heq⟩
  · rw [heq]
    exact ⟨h, le_refl _⟩
  · exact ok_accepted hv h clk _ _ _ _ _ (congrArg Prod.fst heq)

theorem v2_ok_ack_listener (hv : Valid cfg) (h : Ok cfg st) (clk : AckClock)
    (data : List Byte) : Ok cfg (HpccV2.ack_listener cfg clk data st).1 ∧
      st.ctl.incarnation ≤ (HpccV2.ack_listener cfg clk data st).1.ctl.incarnation := by
  rcases HpccV2.ack_listener_cases cfg clk data st with
    heq | ⟨shim, hops, ack, rtt_us, -, -, heq⟩
  · rw [heq]
    exact ⟨h, le_refl _⟩
  · exact ok_accepted hv h clk _ _ _ _ _ (congrArg Prod.fst heq)

/-- Neither listener raises. -/
theorem v1_ack_listener_ok (hv : Valid cfg) (clk : AckClock) (data : List Byte) (st : Self) :
    (ack_listener cfg clk data st).2 = none := by
  rcases ack_listener_cases cfg clk data st with
    heq | ⟨shim, hops, ack, rtt_us, -, -, heq⟩
  · rw [heq]
  · rw [heq]
    unfold maybe_update_window_locked
    rw [update_from_eq hv.eta_pos.ne']

theorem v2_ack_listener_ok (hv : Valid cfg) (clk : AckClock) (data : List Byte) (st : Self) :
    (HpccV2.ack_listener cfg clk data st).2 = none := by
  rcases HpccV2.ack_listener_cases cfg clk data st with
    heq | ⟨shim, hops, ack, rtt_us, -, -, heq⟩
  · rw [heq]
  · rw [heq]
    unfold HpccV2.maybe_update_window_locked
    rw [update_from_eq hv.eta_pos.ne']

theorem v1_ok_step {mp : Option ℤ} {p p' : cls.Proc} {op : Op} (hv : Valid cfg)
    (h : Ok cfg p.self) (hstep : cls.step cfg mp op p = some p') :
    Ok cfg p'.self ∧ p.self.ctl.incarnation ≤ p'.self.ctl.incarnation := by
  rcases step_self hstep with heq | ⟨call, -, hg, heq⟩ | ⟨data, clk, -, heq⟩ |
    ⟨now, log_us, calls, -, hx, heq⟩
  · rw [heq]
    exact ⟨h, le_refl _⟩
  · rw [heq]
    obtain ⟨hw₁, hw⟩ := h.w_mem
    exact ok_burst_iter h (burst_iter_ctl p.self call) (burst_iter_cum p.self call)
      (burst_flight_le hg hw₁ hw call)
  · rw [heq]
    exact v1_ok_ack_listener hv h clk data
  · rw [heq]
    exact ok_rto h (rto_fired_ctl hx) (rto_fired_cum hx) (rto_fired_flight_le hx)

theorem v2_ok_step {mp : Option ℤ} {p p' : HpccV2.cls.Proc} {op : Op} (hv : Valid cfg)
    (h : Ok cfg p.self) (hstep : HpccV2.cls.step cfg mp op p = some p') :
    Ok cfg p'.self ∧ p.self.ctl.incarnation ≤ p'.self.ctl.incarnation := by
  rcases step_self hstep with heq | ⟨call, -, hg, heq⟩ | ⟨data, clk, -, heq⟩ |
    ⟨now, log_us, calls, -, hx, heq⟩
  · rw [heq]
    exact ⟨h, le_refl _⟩
  · rw [heq]
    obtain ⟨hw₁, hw⟩ := h.w_mem
    exact ok_burst_iter h (burst_iter_ctl p.self call) (burst_iter_cum p.self call)
      (burst_flight_le hg hw₁ hw call)
  · rw [heq]
    exact v2_ok_ack_listener hv h clk data
  · rw [heq]
    exact ok_rto h (rto_fired_ctl hx) (rto_fired_cum hx) (rto_fired_flight_le hx)

end Hpcc

/-! ## All three senders -/

/-- The configurations of each class. -/
def Valid : (kind : SenderKind) → kind.cls.Config → Prop
  | .dctcp => Dctcp.Valid
  | .hpcc => Hpcc.Valid
  | .hpcc_v2 => Hpcc.Valid

/-- The bounds of each class. -/
def Ok : (kind : SenderKind) → kind.cls.Config → kind.cls.Self → Prop
  | .dctcp => Dctcp.Ok
  | .hpcc => Hpcc.Ok
  | .hpcc_v2 => Hpcc.Ok

/-- The incarnation of an HPCC sender; a DCTCP sender has none. -/
def incarnation : (kind : SenderKind) → kind.cls.Self → ℕ
  | .dctcp, _ => 0
  | .hpcc, st => st.ctl.incarnation
  | .hpcc_v2, st => st.ctl.incarnation

/-- One event keeps the bounds and does not lower the incarnation. -/
theorem ok_step {kind : SenderKind} {cfg : kind.cls.Config} {mp : Option ℤ}
    {p p' : kind.cls.Proc} {op : Op} (hv : Valid kind cfg) (h : Ok kind cfg p.self)
    (hstep : kind.cls.step cfg mp op p = some p') :
    Ok kind cfg p'.self ∧ incarnation kind p.self ≤ incarnation kind p'.self := by
  cases kind with
  | dctcp => exact ⟨Dctcp.ok_step hv h hstep, le_refl _⟩
  | hpcc => exact Hpcc.v1_ok_step hv h hstep
  | hpcc_v2 => exact Hpcc.v2_ok_step hv h hstep

theorem ok_start {kind : SenderKind} {cfg : kind.cls.Config} (hv : Valid kind cfg)
    (monotonic : ℚ) : Ok kind cfg (kind.cls.start cfg monotonic).self := by
  cases kind with
  | dctcp => exact Dctcp.ok_start hv monotonic
  | hpcc => exact Hpcc.ok_init hv monotonic
  | hpcc_v2 => exact Hpcc.ok_init hv monotonic

/-- No listener raises. -/
theorem ack_listener_ok {kind : SenderKind} {cfg : kind.cls.Config} (hv : Valid kind cfg)
    (clk : AckClock) (data : List Byte) (st : kind.cls.Self) :
    (kind.cls.ack_listener cfg clk data st).2 = none := by
  cases kind with
  | dctcp => exact Dctcp.ack_listener_ok clk data st
  | hpcc => exact Hpcc.v1_ack_listener_ok hv clk data st
  | hpcc_v2 => exact Hpcc.v2_ack_listener_ok hv clk data st

theorem one_le_w {kind : SenderKind} {cfg : kind.cls.Config} {st : kind.cls.Self}
    (h : Ok kind cfg st) : 1 ≤ kind.cls.w st.ctl := by
  cases kind with
  | dctcp => exact h.one_le_w
  | hpcc => exact (Hpcc.Ok.w_mem h).1
  | hpcc_v2 => exact (Hpcc.Ok.w_mem h).1

/-- **The controller invariant.** In every state a run of one of the senders reaches,
whatever datagrams arrive, whichever sends fail and whatever the clocks read: the bounds
of the class hold, an empty pipe can send, the listener has not raised and no datagram
would make it. From one state to the next neither `cum_acked_seq` nor the incarnation
decreases. -/
theorem controller_invariant (kind : SenderKind) (cfg : kind.cls.Config) (hv : Valid kind cfg)
    (mp : Option ℤ) (monotonic : ℚ) (ops : List Op) (p : kind.cls.Proc)
    (hrun : run (kind.cls.step cfg mp) (kind.cls.start cfg monotonic) ops = some p) :
    (Ok kind cfg p.self ∧ (p.self.flight = 0 → kind.cls.burst_guard none p.self = true) ∧
      p.listening = true ∧
      ∀ clk data, (kind.cls.ack_listener cfg clk data p.self).2 = none) ∧
    EachStep (kind.cls.step cfg mp) (fun p _ p' =>
        p.self.cum_acked_seq ≤ p'.self.cum_acked_seq ∧
          incarnation kind p.self ≤ incarnation kind p'.self)
      (kind.cls.start cfg monotonic) ops := by
  have hstart : Ok kind cfg (kind.cls.start cfg monotonic).self ∧
      (kind.cls.start cfg monotonic).listening = true := ⟨ok_start hv monotonic, rfl⟩
  -- the bounds and the listener go together: in bounds no division raises
  have hinv : ∀ ops p, run (kind.cls.step cfg mp) (kind.cls.start cfg monotonic) ops = some p →
      Ok kind cfg p.self ∧ p.listening = true := by
    intro ops p h
    refine run_invariant (P := fun p => Ok kind cfg p.self ∧ p.listening = true) ?_ hstart h
    rintro op q q' ⟨hok, hl⟩ hstep
    exact ⟨(ok_step hv hok hstep).1,
      listening_step (fun clk data st => ack_listener_ok hv clk data st) hl hstep⟩
  obtain ⟨hok, hl⟩ := hinv ops p hrun
  refine ⟨⟨hok, burst_guard_of_empty (one_le_w hok), hl,
    fun clk data => ack_listener_ok hv clk data p.self⟩, ?_⟩
  -- the step half holds from any state reached, so from each prefix of the run
  intro pre op post q q' heq hpre hstep
  exact ⟨cum_le_cum hstep, (ok_step hv (hinv pre q hpre).1 hstep).2⟩

/-- The first window of the default arguments is sent, its last packet is acknowledged after
10 ms, which opens the gate; the two packets sent then time out. -/
def window_then_timeout : List Op :=
  .acquire :: List.replicate 8 (.send (sent_at 0)) ++
    [.release, .datagram (bare_ack 0 7) (clock_at 10000), .acquire, .send (sent_at 10000),
      .send (sent_at 10000), .release, pass_at 40000]

theorem window_then_timeout_state :
    (run (SenderKind.hpcc.cls.step (IntHpcc.Hpcc.defaults (5 / 1000)) (some 10))
      (SenderKind.hpcc.cls.start (IntHpcc.Hpcc.defaults (5 / 1000)) 0) window_then_timeout).map
        (fun p => (p.self.flight, p.self.ctl.last_update_seq, p.self.ctl.incarnation))
      = some (2, 7, 1) := by
  decide +kernel

theorem controller_invariant_defaults : ∃ p : SenderKind.hpcc.cls.Proc,
    (p.self.flight = 2 ∧ p.self.ctl.last_update_seq = 7 ∧ p.self.ctl.incarnation = 1) ∧
    Ok .hpcc (IntHpcc.Hpcc.defaults (5 / 1000)) p.self ∧ p.listening = true ∧
    EachStep (SenderKind.hpcc.cls.step (IntHpcc.Hpcc.defaults (5 / 1000)) (some 10))
      (fun p _ p' => p.self.cum_acked_seq ≤ p'.self.cum_acked_seq ∧
        incarnation .hpcc p.self ≤ incarnation .hpcc p'.self)
      (SenderKind.hpcc.cls.start (IntHpcc.Hpcc.defaults (5 / 1000)) 0) window_then_timeout := by
  obtain ⟨p, hrun, hstate⟩ := Option.map_eq_some_iff.mp window_then_timeout_state
  simp only [Prod.mk.injEq] at hstate
  obtain ⟨⟨hok, -, hl, -⟩, hsteps⟩ :=
    controller_invariant .hpcc _ (Hpcc.valid_defaults _) (some 10) 0 _ p hrun
  exact ⟨p, hstate, hok, hl, hsteps⟩

end IntHpcc.ControllerInv
