/-
The window map of HPCC.

With the gate open and a constant smoothed utilisation, `_maybe_update_window_locked` takes
`w_ref` to `w_ref * eta / u + w_ai`, clamped: a clamped affine map of slope `eta / u`, where
`u` is floored at `1e-3`. `docs/methodology.md` tunes `eta` and `w_ai` from its fixed point;
`window_map_settles` says when and how fast the window gets there. `maybe_update_window` of
the C sender computes the same map.
-/
import IntHpcc.ClampedAffine
import IntHpcc.Hpcc
import IntHpcc.InflightTable

set_option autoImplicit false

namespace IntHpcc.WindowMap

open IntHpcc.Py IntHpcc.SenderCore IntHpcc.ClampedAffine

/-- The slope: `eta` over the utilisation, which is floored. -/
def slope (eta u : ℚ) : ℚ := eta / max u (1 / 1000)

theorem slope_pos {eta : ℚ} (h : 0 < eta) (u : ℚ) : 0 < slope eta u :=
  div_pos h (lt_of_lt_of_le (by norm_num) (le_max_right u (1 / 1000)))

theorem slope_antitone {eta : ℚ} (h : 0 < eta) : Antitone (slope eta) := by
  intro u u' hu
  have hpos : (0 : ℚ) < max u (1 / 1000) := lt_of_lt_of_le (by norm_num) (le_max_right _ _)
  exact div_le_div_of_nonneg_left h.le hpos (max_le_max hu (le_refl _))

/-- The formula of the update is a line of this slope. -/
theorem update_line (eta u w w_ai : ℚ) :
    w / (max u (1 / 1000) / eta) + w_ai = slope eta u * w + w_ai := by
  rw [div_div_eq_mul_div, slope, mul_comm w eta, div_mul_eq_mul_div]

/-! ## Python -/

section Python

open IntHpcc.Hpcc

/-- With the smoothed utilisation at `u`, an update of `HpccSender` takes `w_ref` from `w`
to `w'`. -/
def Updates (cfg : Hpcc.Config) (u w w' : ℚ) : Prop :=
  ∃ (clk : AckClock) (st : Hpcc.Self), gate_open cfg clk.monotonic w st = true ∧
    st.ctl.u_smoothed = u ∧ st.ctl.w_ref = w ∧
    (maybe_update_window_locked cfg clk st).1.ctl.w_ref = w'

/-- The map. -/
def window_map (cfg : Hpcc.Config) (u : ℚ) : ℚ → ℚ :=
  clampedAffine w_min cfg.w_max (slope cfg.eta u) cfg.w_ai

/-- A sender at whose next ACK the gate is open. -/
def due (cfg : Hpcc.Config) (u w : ℚ) : Hpcc.Self where
  next_seq := 0
  cum_acked_seq := py_int (max w 1)
  in_flight := ∅
  sock := []
  ctl := { Hpcc.init cfg 0 with w_ref := w, u_smoothed := u, last_update_seq := 0 }
  events := []

/-- Every update is a step of the map, and every step of the map is an update. -/
theorem updates_iff {cfg : Hpcc.Config} (heta : 0 < cfg.eta) {u w w' : ℚ} :
    Updates cfg u w w' ↔ w' = window_map cfg u w := by
  -- the target depends on the state through `u` alone
  have htarget : ∀ st : Hpcc.Self, st.ctl.u_smoothed = u →
      st.ctl.target cfg w = window_map cfg u w := by
    intro st hu
    unfold Ctl.target Ctl.u_eff window_map clampedAffine clamp
    rw [hu, update_line]
  have hstep : ∀ (clk : AckClock) (st : Hpcc.Self), gate_open cfg clk.monotonic w st = true →
      st.ctl.u_smoothed = u → st.ctl.w_ref = w →
      (maybe_update_window_locked cfg clk st).1.ctl.w_ref = window_map cfg u w := by
    intro clk st hg hu hw
    rw [maybe_update_window_locked, hw, update_from_eq heta.ne', if_pos hg]
    exact htarget st hu
  constructor
  · rintro ⟨clk, st, hg, hu, hw, rfl⟩
    exact hstep clk st hg hu hw
  · rintro rfl
    -- a gate that is due: time and sequence number both at their thresholds
    have hg : gate_open cfg cfg.base_rtt_s w (due cfg u w) = true := by
      unfold gate_open
      simp [due, Hpcc.init]
    exact ⟨⟨zero_us, zero_us, zero_us, cfg.base_rtt_s⟩, due cfg u w, hg, rfl, rfl,
      hstep _ (due cfg u w) hg rfl rfl⟩

end Python

/-! ## C -/

namespace C

open IntHpcc.CSender

/-- The same for the C sender. -/
def Updates (cfg : CSender.Config) (u w w' : ℚ) : Prop :=
  ∃ (now_mono : Us) (s : SenderState), gate_open cfg now_mono s = true ∧
    s.u_smoothed = u ∧ s.w_ref = w ∧ (maybe_update_window cfg now_mono s).w_ref = w'

def window_map (cfg : CSender.Config) (u : ℚ) : ℚ → ℚ :=
  clampedAffine DEFAULT_WMIN cfg.w_max (slope cfg.eta u) cfg.w_ai

theorem clampd_eq {lo hi : ℚ} (h : lo ≤ hi) (v : ℚ) : clampd v lo hi = clamp lo hi v := by
  unfold clampd
  by_cases h₁ : v < lo
  · rw [if_pos h₁, clamp_of_le h₁.le]
  · rw [if_neg h₁]
    by_cases h₂ : v > hi
    · rw [if_pos h₂, clamp_of_ge h (le_of_lt h₂)]
    · rw [if_neg h₂, clamp_of_mem (not_lt.mp h₁) (not_lt.mp h₂)]

/-- A state in which the gate is open. -/
def due (cfg : CSender.Config) (u w : ℚ) : SenderState :=
  { (CSender.start cfg zero_us).self with
    w_ref := w
    u_smoothed := u
    last_update_seq := 0
    cum_acked_seq := py_int (max w 1) }

theorem updates_eq {cfg : CSender.Config} (hmax : 1 ≤ cfg.w_max) {u w w' : ℚ}
    (h : Updates cfg u w w') : w' = window_map cfg u w := by
  obtain ⟨now_mono, s, hg, rfl, rfl, rfl⟩ := h
  have hle : DEFAULT_WMIN ≤ (cfg.w_max : ℚ) := by
    unfold DEFAULT_WMIN
    exact_mod_cast hmax
  -- the C floor on `u` is a maximum, written as an `if`
  have hfloor : (if s.u_smoothed < 1 / 1000 then 1 / 1000 else s.u_smoothed)
      = max s.u_smoothed (1 / 1000) := by
    rw [max_comm, max_def_lt]
    split
    · next h => rw [if_neg (not_lt.mpr h.le)]
    · next h =>
      rcases lt_or_eq_of_le (not_lt.mp h) with h' | h'
      · rw [if_pos h']
      · rw [h', ite_self]
  unfold maybe_update_window
  rw [if_pos hg]
  show w_new cfg s = _
  unfold w_new window_map clampedAffine
  dsimp only
  rw [hfloor, update_line, clampd_eq hle]

/-- A base RTT that a 64-bit clock can measure does go by. -/
theorem updates_window_map {cfg : CSender.Config} (hmax : 1 ≤ cfg.w_max)
    (hrtt : cfg.base_rtt_s ≤ 1000000) (u w : ℚ) : Updates cfg u w (window_map cfg u w) := by
  let later : Us := ⟨1000000000000, by norm_num⟩
  have hclock : ((later - zero_us : Us).val : ℚ) / 1000000 = 1000000 := by
    have hval : (later - zero_us : Us).val = 1000000000000 := by decide
    rw [hval]
    norm_num
  have hg : gate_open cfg later (due cfg u w) = true := by
    unfold gate_open
    simp only [Bool.and_eq_true, decide_eq_true_eq]
    refine ⟨le_of_eq (zero_add _), ?_⟩
    show cfg.base_rtt_s ≤ ((later - zero_us : Us).val : ℚ) / 1000000
    rw [hclock]
    exact hrtt
  have hupd : Updates cfg u w (maybe_update_window cfg later (due cfg u w)).w_ref :=
    ⟨later, due cfg u w, hg, rfl, rfl, rfl⟩
  rwa [updates_eq hmax hupd] at hupd

end C

/-! ## The map settles -/

/-- **The window map.** For `eta, w_ai > 0` and `w_max ≥ w_min = 1`, a sequence of updates of
`HpccSender` at a constant utilisation `u`, from a window in range: with `a = eta / max(u, 1e-3)`
below 1 it is monotone, stays on one side of `w_ai / (1 - a)`, clamped, and its distance
shrinks by `a` a step; with `a` from 1 on it does not decrease, and is at `w_max` from step
`⌈(w_max - w 0) / w_ai⌉` on. The map is non-decreasing in the window and non-increasing in the
utilisation. All of it holds of the C sender as well. -/
theorem window_map_settles :
    (∀ (cfg : Hpcc.Config) (u : ℚ) (w : ℕ → ℚ), 0 < cfg.eta → 0 < cfg.w_ai → 1 ≤ cfg.w_max →
      0 ≤ u → w 0 ∈ Set.Icc Hpcc.w_min (cfg.w_max : ℚ) → (∀ n, Updates cfg u (w n) (w (n + 1))) →
        Settles Hpcc.w_min (cfg.w_max : ℚ) (slope cfg.eta u) cfg.w_ai w) ∧
    (∀ (cfg : Hpcc.Config) (u u' w w' v v' : ℚ), 0 < cfg.eta → 0 ≤ w → u' ≤ u → w ≤ w' →
      Updates cfg u w v → Updates cfg u' w' v' → v ≤ v') ∧
    (∀ (cfg : CSender.Config) (u : ℚ) (w : ℕ → ℚ), 0 < cfg.eta → 0 < cfg.w_ai → 1 ≤ cfg.w_max →
      0 ≤ u → w 0 ∈ Set.Icc CSender.DEFAULT_WMIN (cfg.w_max : ℚ) →
      (∀ n, C.Updates cfg u (w n) (w (n + 1))) →
        Settles CSender.DEFAULT_WMIN (cfg.w_max : ℚ) (slope cfg.eta u) cfg.w_ai w) ∧
    (∀ (cfg : CSender.Config) (u u' w w' v v' : ℚ), 0 < cfg.eta → 1 ≤ cfg.w_max → 0 ≤ w →
      u' ≤ u → w ≤ w' → C.Updates cfg u w v → C.Updates cfg u' w' v' → v ≤ v') := by
  -- first the window grows at the old utilisation, then the utilisation falls
  have hmap : ∀ lo hi eta w_ai u u' w w' : ℚ, 0 < eta → 0 ≤ w → u' ≤ u → w ≤ w' →
      clampedAffine lo hi (slope eta u) w_ai w ≤ clampedAffine lo hi (slope eta u') w_ai w' := by
    intro lo hi eta w_ai u u' w w' heta hw hu hww
    calc clampedAffine lo hi (slope eta u) w_ai w
        ≤ clampedAffine lo hi (slope eta u) w_ai w' := clampedAffine_mono (slope_pos heta u).le hww
      _ ≤ clampedAffine lo hi (slope eta u') w_ai w' :=
          clampedAffine_mono_slope (slope_antitone heta hu) (le_trans hw hww)
  refine ⟨?_, ?_, ?_, ?_⟩
  · intro cfg u w heta hai hmax _ h₀ hupd
    have hle : Hpcc.w_min ≤ (cfg.w_max : ℚ) := by
      unfold Hpcc.w_min
      exact_mod_cast hmax
    exact settles zero_le_one hle (slope_pos heta u).le hai h₀
      fun n => (updates_iff heta).mp (hupd n)
  · intro cfg u u' w w' v v' heta hw hu hww h h'
    rw [(updates_iff heta).mp h, (updates_iff heta).mp h']
    exact hmap _ _ _ _ _ _ _ _ heta hw hu hww
  · intro cfg u w heta hai hmax _ h₀ hupd
    have hle : CSender.DEFAULT_WMIN ≤ (cfg.w_max : ℚ) := by
      unfold CSender.DEFAULT_WMIN
      exact_mod_cast hmax
    exact settles zero_le_one hle (slope_pos heta u).le hai h₀
      fun n => C.updates_eq hmax (hupd n)
  · intro cfg u u' w w' v v' heta hmax hw hu hww h h'
    rw [C.updates_eq hmax h, C.updates_eq hmax h']
    exact hmap _ _ _ _ _ _ _ _ heta hw hu hww

/-- The setting of `docs/methodology.md`: the equilibrium utilisation is 1.2, and the window
goes to `3 / (1 - 0.99 / 1.2)`, about 17. Without load it climbs to `w_max`. -/
theorem window_map_settles_tuned :
    Settles Hpcc.w_min ((64 : ℤ) : ℚ) (slope (99 / 100) (6 / 5)) 3
      (fun n => (window_map (Hpcc.defaults (1 / 200)) (6 / 5))^[n] 8) ∧
    window_map (Hpcc.defaults (1 / 200)) (6 / 5) 8 ≤ window_map (Hpcc.defaults (1 / 200)) 1 8 ∧
    Settles CSender.DEFAULT_WMIN ((64 : ℤ) : ℚ) (slope (99 / 100) 0) 3
      (fun n => (C.window_map CSender.table_config 0)^[n] 8) ∧
    C.window_map CSender.table_config 1 8 ≤ C.window_map CSender.table_config 1 9 := by
  have hrange : (8 : ℚ) ∈ Set.Icc 1 (((64 : ℤ) : ℤ) : ℚ) := by norm_num
  refine ⟨?_, ?_, ?_, ?_⟩
  · -- tuned to 1.2, from 8
    refine window_map_settles.1 (Hpcc.defaults (1 / 200)) (6 / 5) _ (by norm_num [Hpcc.defaults])
      (by norm_num [Hpcc.defaults]) (by norm_num [Hpcc.defaults]) (by norm_num) hrange fun n => ?_
    rw [Function.iterate_succ_apply']
    exact (updates_iff (by norm_num [Hpcc.defaults])).mpr rfl
  · -- less load, a larger window
    exact window_map_settles.2.1 (Hpcc.defaults (1 / 200)) (6 / 5) 1 8 8 _ _
      (by norm_num [Hpcc.defaults]) (by norm_num) (by norm_num) (le_refl _)
      ((updates_iff (by norm_num [Hpcc.defaults])).mpr rfl)
      ((updates_iff (by norm_num [Hpcc.defaults])).mpr rfl)
  · -- the C sender without load climbs to `w_max`
    refine window_map_settles.2.2.1 CSender.table_config 0 _ (by norm_num [CSender.table_config])
      (by norm_num [CSender.table_config]) (by norm_num [CSender.table_config]) (le_refl _) hrange
      fun n => ?_
    rw [Function.iterate_succ_apply']
    exact C.updates_window_map (by norm_num [CSender.table_config])
      (by norm_num [CSender.table_config]) _ _
  · exact window_map_settles.2.2.2 CSender.table_config 1 1 8 9 _ _
      (by norm_num [CSender.table_config]) (by norm_num [CSender.table_config]) (by norm_num)
      (le_refl _) (by norm_num)
      (C.updates_window_map (by norm_num [CSender.table_config])
        (by norm_num [CSender.table_config]) _ _)
      (C.updates_window_map (by norm_num [CSender.table_config])
        (by norm_num [CSender.table_config]) _ _)

end IntHpcc.WindowMap
