/-
What `_compute_u` measures.

Each port reports samples of a byte counter that runs no faster than its link. The
ACKs bring samples in any order and any number of times, and `hop_last` is overwritten
by whatever comes, so the sample a hop is compared with can be newer than the hop
itself. It is always a sample the port took, though, and a pair that does not move
forward in time is skipped; so each rate that enters an estimate is an average the port
really had.
-/
import IntHpcc.ControllerInv
import IntHpcc.Metering

set_option autoImplicit false

namespace IntHpcc.Hpcc

open IntHpcc.Runs IntHpcc.Bytes IntHpcc.Py IntHpcc.PacketFormat IntHpcc.SenderCore
open IntHpcc.SenderWindow IntHpcc.ControllerInv IntHpcc.Metering

/-! ## The ports -/

/-- The ports of the network: the speed of each one's link and the samples `(time stamp,
byte count)` it can report. In bytes and microseconds a link of `link_bps` bits a second
carries `link_bps / 8000000`. -/
structure Ports where
  link_bps : ℤ × ℤ → ℤ
  samples : ℤ × ℤ → Set (ℤ × ℤ)
  link_pos : ∀ k, 0 < link_bps k
  rate : ∀ k, RateBounded (link_bps k / 8000000 : ℚ) (samples k)

/-- The hop is one of the port's reports. `qdepth` is an unsigned field on the wire. -/
structure Ports.Drawn (P : Ports) (hop : IntHop) : Prop where
  sample : hop_record hop ∈ P.samples (hop_key hop)
  speed : hop.link_bps = P.link_bps (hop_key hop)
  depth : 0 ≤ hop.qdepth

/-- All that `hop_last` remembers of a port is a sample of that port. -/
def Ports.Genuine (P : Ports) (hop_last : HopLast) : Prop :=
  ∀ k r, hop_last k = some r → r ∈ P.samples k

/-! ## The pairs that enter the estimate -/

/-- The pairs of a hop and an earlier sample that enter the estimate. -/
def used (base_rtt_s : ℚ) : List IntHop → HopLast → List (IntHop × (ℤ × ℤ))
  | [], _ => []
  | hop :: hops, hop_last =>
    if hop.link_bps = 0 then used base_rtt_s hops hop_last
    else
      let rest := used base_rtt_s hops
        (Function.update hop_last (hop_key hop) (some (hop_record hop)))
      -- a port seen for the first time is only remembered
      match hop_last (hop_key hop) with
      | none => rest
      | some last => if Counts base_rtt_s hop last then (hop, last) :: rest else rest

/-- The largest value of `f` on the list, and 0 if there is none above it. -/
def peak {α : Type} (f : α → ℚ) (l : List α) : ℚ := (l.map f).foldr max 0

section

variable {α : Type} (f : α → ℚ)

@[simp] theorem peak_nil : peak f [] = 0 := rfl

@[simp] theorem peak_cons (x : α) (l : List α) : peak f (x :: l) = max (f x) (peak f l) := rfl

theorem peak_nonneg (l : List α) : 0 ≤ peak f l := by
  induction l with
  | nil => exact le_refl _
  | cons x l ih => exact le_trans ih (le_max_right _ _)

theorem le_peak {x : α} {l : List α} (h : x ∈ l) : f x ≤ peak f l := by
  induction l with
  | nil => cases h
  | cons y l ih =>
      rw [peak_cons]
      rcases List.mem_cons.mp h with rfl | h
      · exact le_max_left _ _
      · exact le_trans (ih h) (le_max_right _ _)

theorem peak_le {b : ℚ} {l : List α} (hb : 0 ≤ b) (h : ∀ x ∈ l, f x ≤ b) : peak f l ≤ b := by
  induction l with
  | nil => exact hb
  | cons y l ih =>
      rw [peak_cons]
      apply max_le
      · exact h y (List.mem_cons_self ..)
      · exact ih fun x hx => h x (List.mem_cons_of_mem _ hx)

end

/-! ## What the loop computes -/

/-- `_compute_u` returns the largest term of the pairs it uses. -/
theorem compute_u_eq (base_rtt_s : ℚ) (hops : List IntHop) (hop_last : HopLast) {u_max : ℚ}
    (h : 0 ≤ u_max) :
    (compute_u base_rtt_s hops hop_last u_max).2
      = .ok (max u_max (peak (u_term base_rtt_s) (used base_rtt_s hops hop_last))) := by
  induction hops generalizing hop_last u_max with
  | nil =>
      simp only [used, peak_nil, max_eq_left h]
      rfl
  | cons hop hops ih =>
      unfold compute_u used
      by_cases hl : hop.link_bps = 0
      · rw [if_pos hl, if_pos hl]
        exact ih hop_last h
      · rw [if_neg hl, if_neg hl]
        dsimp only
        cases hop_last (hop_key hop) with
        | none => exact ih _ h
        | some last =>
            rw [hop_sample_eq base_rtt_s hl last]
            -- the maximum so far takes in the term of a pair that counts
            by_cases hc : Counts base_rtt_s hop last
            · rw [if_pos hc]
              dsimp only
              rw [if_pos hc, peak_cons, ← max_def_lt u_max, ← max_assoc]
              apply ih
              exact le_trans h (le_max_left _ _)
            · rw [if_neg hc]
              dsimp only
              rw [if_neg hc]
              exact ih _ h

/-! ## The samples in `hop_last` -/

variable {P : Ports} {base_rtt_s : ℚ} {hops : List IntHop} {hop_last : HopLast}

/-- One overwriting of `hop_last`, whatever was there. -/
theorem Ports.Genuine.update (h : P.Genuine hop_last) {hop : IntHop} (hd : P.Drawn hop) :
    P.Genuine (Function.update hop_last (hop_key hop) (some (hop_record hop))) := by
  intro k r hr
  by_cases hk : k = hop_key hop
  · subst hk
    rw [Function.update_self, Option.some.injEq] at hr
    exact hr ▸ hd.sample
  · rw [Function.update_of_ne hk] at hr
    exact h k r hr

/-- `_compute_u` leaves samples in `hop_last`, wherever in the loop it stands. -/
theorem genuine_compute_u (h : P.Genuine hop_last) (hd : ∀ hop ∈ hops, P.Drawn hop) (u_max : ℚ) :
    P.Genuine (compute_u base_rtt_s hops hop_last u_max).1 := by
  induction hops generalizing hop_last u_max with
  | nil => exact h
  | cons hop hops ih =>
      have hhop : P.Drawn hop := hd hop (List.mem_cons_self ..)
      have hrest : ∀ x ∈ hops, P.Drawn x := fun x hx => hd x (List.mem_cons_of_mem _ hx)
      unfold compute_u
      -- a hop without a rate is skipped; any other one is filed, used or not
      by_cases hl : hop.link_bps = 0
      · rw [if_pos hl]
        exact ih h hrest u_max
      · rw [if_neg hl]
        dsimp only
        cases hop_sample base_rtt_s hop (hop_last (hop_key hop)) with
        | error e => exact h.update hhop
        | ok r =>
            cases r with
            | none => exact ih (h.update hhop) hrest u_max
            | some u_i => exact ih (h.update hhop) hrest _

/-- The pairs `_compute_u` uses are two samples of one port, the older one first. -/
theorem used_spec (h : P.Genuine hop_last) (hd : ∀ hop ∈ hops, P.Drawn hop)
    {m : IntHop × (ℤ × ℤ)} (hm : m ∈ used base_rtt_s hops hop_last) :
    m.1 ∈ hops ∧ m.2 ∈ P.samples (hop_key m.1) ∧ Counts base_rtt_s m.1 m.2 := by
  induction hops generalizing hop_last with
  | nil => cases hm
  | cons hop hops ih =>
      have hhop : P.Drawn hop := hd hop (List.mem_cons_self ..)
      have hrest : ∀ x ∈ hops, P.Drawn x := fun x hx => hd x (List.mem_cons_of_mem _ hx)
      have later : ∀ {hl : HopLast}, P.Genuine hl → m ∈ used base_rtt_s hops hl →
          m.1 ∈ hop :: hops ∧ m.2 ∈ P.samples (hop_key m.1) ∧ Counts base_rtt_s m.1 m.2 := by
        intro hl hg hm
        obtain ⟨hmem, hrest⟩ := ih hg hrest hm
        exact ⟨List.mem_cons_of_mem _ hmem, hrest⟩
      unfold used at hm
      by_cases hl : hop.link_bps = 0
      · rw [if_pos hl] at hm
        exact later h hm
      · rw [if_neg hl] at hm
        dsimp only at hm
        cases hlast : hop_last (hop_key hop) with
        | none =>
            rw [hlast] at hm
            exact later (h.update hhop) hm
        | some last =>
            rw [hlast] at hm
            dsimp only at hm
            -- the pair just made, and those of the later hops
            by_cases hc : Counts base_rtt_s hop last
            · rw [if_pos hc] at hm
              rcases List.mem_cons.mp hm with rfl | hm
              · exact ⟨List.mem_cons_self .., h _ _ hlast, hc⟩
              · exact later (h.update hhop) hm
            · rw [if_neg hc] at hm
              exact later (h.update hhop) hm

/-! ## One estimate -/

/-- `tx_rate_bps` is the average rate between the two samples, in bits a second. -/
theorem tx_rate_eq (hop : IntHop) (last : ℤ × ℤ) :
    tx_rate_bps hop last = 8000000 * avg_rate ℚ last (hop_record hop) := by
  unfold tx_rate_bps avg_rate hop_record
  rw [mul_assoc, mul_div_right_comm, mul_comm]
  norm_num

/-- A rate the port had is a share of its link. -/
theorem rate_share_mem {hop : IntHop} {last : ℤ × ℤ} (hd : P.Drawn hop)
    (hlast : last ∈ P.samples (hop_key hop)) (hlt : last.1 < hop.egress_tstamp_us) :
    0 ≤ tx_rate_bps hop last / hop.link_bps ∧ tx_rate_bps hop last / hop.link_bps ≤ 1 := by
  have hlink : (0 : ℚ) < hop.link_bps := by
    rw [hd.speed]
    exact_mod_cast P.link_pos (hop_key hop)
  have hnonneg : 0 ≤ avg_rate ℚ last (hop_record hop) :=
    (P.rate (hop_key hop)).avg_rate_nonneg hlast hd.sample hlt
  have hle : avg_rate ℚ last (hop_record hop) ≤ P.link_bps (hop_key hop) / 8000000 :=
    (P.rate (hop_key hop)).avg_rate_le hlast hd.sample hlt
  rw [← hd.speed] at hle
  rw [tx_rate_eq, div_le_one hlink]
  constructor
  · exact div_nonneg (mul_nonneg (by norm_num) hnonneg) hlink.le
  · linarith

/-- What holds when `_compute_u` is given `hops` with `hop_last` as it stands. -/
structure SoundAt (P : Ports) (base_rtt_s : ℚ) (hop_last : HopLast) (hops : List IntHop) :
    Prop where
  /-- between any two rounds of the loop `hop_last` holds samples -/
  genuine : ∀ i, P.Genuine (compute_u base_rtt_s (hops.take i) hop_last 0).1
  /-- each rate is the average between two samples of the port, the older one first -/
  rates : ∀ m ∈ used base_rtt_s hops hop_last,
    m.1 ∈ hops ∧ m.2 ∈ P.samples (hop_key m.1) ∧ hop_record m.1 ∈ P.samples (hop_key m.1) ∧
      m.2.1 < (hop_record m.1).1 ∧
      tx_rate_bps m.1 m.2 = 8000000 * avg_rate ℚ m.2 (hop_record m.1)
  /-- the estimate is made of these rates and the queues -/
  estimate : (compute_u base_rtt_s hops hop_last 0).2
    = .ok (peak (u_term base_rtt_s) (used base_rtt_s hops hop_last))
  nonneg : 0 ≤ peak (u_term base_rtt_s) (used base_rtt_s hops hop_last)
  le : peak (u_term base_rtt_s) (used base_rtt_s hops hop_last)
    ≤ 1 + peak (queue_term base_rtt_s) hops

/-- All that soundness needs is that `hop_last` holds samples. -/
theorem soundAt_of_genuine (h : P.Genuine hop_last) (hd : ∀ hop ∈ hops, P.Drawn hop) :
    SoundAt P base_rtt_s hop_last hops where
  genuine i := genuine_compute_u h (fun hop hm => hd hop (List.mem_of_mem_take hm)) 0
  rates m hm := by
    obtain ⟨hmem, hlast, hc⟩ := used_spec h hd hm
    exact ⟨hmem, hlast, (hd _ hmem).sample, hc.1, tx_rate_eq m.1 m.2⟩
  estimate := by
    rw [compute_u_eq base_rtt_s hops hop_last (le_refl 0), max_eq_right (peak_nonneg _ _)]
  nonneg := peak_nonneg _ _
  le := by
    apply peak_le
    · exact add_nonneg zero_le_one (peak_nonneg _ _)
    · intro m hm
      obtain ⟨hmem, hlast, hc⟩ := used_spec h hd hm
      -- the queue term is at most the worst queue, the rate term at most 1
      have hqueue : queue_term base_rtt_s m.1 ≤ peak (queue_term base_rtt_s) hops :=
        le_peak _ hmem
      have hrate : tx_rate_bps m.1 m.2 / m.1.link_bps ≤ 1 :=
        (rate_share_mem (hd _ hmem) hlast hc.1).2
      unfold u_term
      linarith

/-! ## The ACKs of a sender -/

/-- `hop_last` after the ACKs with these hops, one after the other. -/
def after (base_rtt_s : ℚ) (acks : List (List IntHop)) (hop_last : HopLast) : HopLast :=
  acks.foldl (fun hop_last hops => (compute_u base_rtt_s hops hop_last 0).1) hop_last

theorem genuine_after {acks : List (List IntHop)} (h : P.Genuine hop_last)
    (hd : ∀ hops ∈ acks, ∀ hop ∈ hops, P.Drawn hop) :
    P.Genuine (after base_rtt_s acks hop_last) := by
  induction acks generalizing hop_last with
  | nil => exact h
  | cons hops acks ih =>
      have hfirst : P.Genuine (compute_u base_rtt_s hops hop_last 0).1 :=
        genuine_compute_u h (hd hops (List.mem_cons_self ..)) 0
      exact ih hfirst fun x hx => hd x (List.mem_cons_of_mem _ hx)

/-- The hops of a datagram, if `_parse_ack` accepts it. -/
def acked_hops (data : List Byte) : List IntHop :=
  match parse_ack (data.take RECV_BUF) with
  | .ok (some (_, hops, _)) => hops
  | _ => []

/-- The update of the window leaves the feedback alone. -/
theorem update_from_feedback (cfg : Config) (clk : AckClock) (gate_w : ℚ) (st : Self) :
    (update_from cfg clk gate_w st).1.ctl.hop_last = st.ctl.hop_last ∧
      (update_from cfg clk gate_w st).1.ctl.u_smoothed = st.ctl.u_smoothed := by
  unfold update_from
  dsimp only
  by_cases hg : gate_open cfg clk.monotonic gate_w st
  · rw [if_pos hg]
    cases st.ctl.w_new cfg gate_w with
    | error e => exact ⟨rfl, rfl⟩
    | ok w => exact ⟨rfl, rfl⟩
  · rw [if_neg hg]
    exact ⟨rfl, rfl⟩

/-- Hops without a link speed are passed over. -/
theorem compute_u_no_links (base_rtt_s : ℚ) {hops : List IntHop}
    (h : ∀ hop ∈ hops, hop.link_bps = 0) (hop_last : HopLast) (u_max : ℚ) :
    compute_u base_rtt_s hops hop_last u_max = (hop_last, .ok u_max) := by
  induction hops with
  | nil => rfl
  | cons hop hops ih =>
      unfold compute_u
      rw [if_pos (h hop (List.mem_cons_self ..))]
      exact ih fun x hx => h x (List.mem_cons_of_mem _ hx)

theorem took_hop_last (cfg : Config) (hops : List IntHop) (c : Ctl) :
    (c.took cfg hops).hop_last = (compute_u cfg.base_rtt_s hops c.hop_last 0).1 := by
  unfold Ctl.took Ctl.smoothed
  dsimp only
  split
  · rfl
  · rfl

/-- A datagram's hops are taken in as one ACK, or not at all. -/
theorem v1_listener_hop_last (cfg : Config) (clk : AckClock) (data : List Byte) (st : Self) :
    ∃ acks, (∀ hops ∈ acks, hops = acked_hops data) ∧
      (ack_listener cfg clk data st).1.ctl.hop_last
        = after cfg.base_rtt_s acks st.ctl.hop_last := by
  rcases ack_listener_cases cfg clk data st with
    heq | ⟨shim, hops, ack, rtt_us, hparse, -, heq⟩
  · rw [heq]
    exact ⟨[], by simp, rfl⟩
  · have hhops : hops = acked_hops data := by simp only [acked_hops, hparse]
    refine ⟨[hops], by simp [hhops], ?_⟩
    rw [heq, maybe_update_window_locked, (update_from_feedback cfg clk _ _).1]
    exact took_hop_last cfg hops st.ctl

theorem v2_listener_hop_last (cfg : Config) (clk : AckClock) (data : List Byte) (st : Self) :
    ∃ acks, (∀ hops ∈ acks, hops = acked_hops data) ∧
      (HpccV2.ack_listener cfg clk data st).1.ctl.hop_last
        = after cfg.base_rtt_s acks st.ctl.hop_last := by
  rcases HpccV2.ack_listener_cases cfg clk data st with
    heq | ⟨shim, hops, ack, rtt_us, hparse, -, heq⟩
  · rw [heq]
    exact ⟨[], by simp, rfl⟩
  · have hhops : hops = acked_hops data := by simp only [acked_hops, hparse]
    rw [heq, HpccV2.maybe_update_window_locked, (update_from_feedback cfg clk _ _).1]
    by_cases hinc : HpccV2.inc_snap (st.in_flight.lookup ack.ack_seq) st = st.ctl.incarnation
    · refine ⟨[hops], by simp [hhops], ?_⟩
      rw [decide_eq_true hinc]
      exact took_hop_last cfg hops st.ctl
    · refine ⟨[], by simp, ?_⟩
      rw [decide_eq_false hinc]
      rfl

section

variable {C : SenderClass} {cfg : C.Config} {mp : Option ℤ} (table : C.Ctl → HopLast)

/-- A run moves `hop_last` by the hops of ACKs it is given, if only the listener touches
it and only so. -/
theorem run_hop_last (hcut : ∀ c, table (C.rto_cut c) = table c)
    (hack : ∀ clk data st, ∃ acks, (∀ hops ∈ acks, hops = acked_hops data) ∧
      table (C.ack_listener cfg clk data st).1.ctl = after base_rtt_s acks (table st.ctl))
    {p p' : C.Proc} {ops : List Op} (hrun : run (C.step cfg mp) p ops = some p') :
    ∃ acks, (∀ hops ∈ acks, ∃ data clk, Op.datagram data clk ∈ ops ∧ hops = acked_hops data) ∧
      table p'.self.ctl = after base_rtt_s acks (table p.self.ctl) := by
  induction ops generalizing p with
  | nil =>
      rw [run_nil, Option.some.injEq] at hrun
      exact ⟨[], by simp, by rw [hrun]; rfl⟩
  | cons op ops ih =>
      obtain ⟨p₁, hstep, hrest⟩ := (run_cons_eq_some (C.step cfg mp)).mp hrun
      obtain ⟨acks, hacks, htable⟩ := ih hrest
      -- one step brings at most one ACK
      have hone : ∃ first, (∀ hops ∈ first, ∃ data clk,
            Op.datagram data clk = op ∧ hops = acked_hops data) ∧
          table p₁.self.ctl = after base_rtt_s first (table p.self.ctl) := by
        rcases step_self hstep with heq | ⟨call, -, -, heq⟩ | ⟨data, clk, hop, heq⟩ |
          ⟨now, log_us, calls, -, hx, heq⟩
        · exact ⟨[], by simp, by rw [heq]; rfl⟩
        · exact ⟨[], by simp, by rw [heq, burst_iter_ctl]; rfl⟩
        · obtain ⟨first, hfirst, hfold⟩ := hack clk data p.self
          refine ⟨first, fun hops hm => ⟨data, clk, hop.symm, hfirst hops hm⟩, ?_⟩
          rw [heq]
          exact hfold
        · exact ⟨[], by simp, by rw [heq, rto_fired_ctl hx, hcut]; rfl⟩
      obtain ⟨first, hfirst, hfold⟩ := hone
      refine ⟨first ++ acks, ?_, ?_⟩
      · intro hops hm
        rcases List.mem_append.mp hm with hm | hm
        · obtain ⟨data, clk, hop, heq⟩ := hfirst hops hm
          exact ⟨data, clk, hop ▸ List.mem_cons_self .., heq⟩
        · obtain ⟨data, clk, hop, heq⟩ := hacks hops hm
          exact ⟨data, clk, List.mem_cons_of_mem _ hop, heq⟩
      · rw [htable, hfold]
        exact (List.foldl_append).symm

end

/-- All the hops of the datagrams of a run are reports of the ports. -/
def Ports.Feeds (P : Ports) (ops : List Op) : Prop :=
  ∀ data clk, Op.datagram data clk ∈ ops → ∀ hop ∈ acked_hops data, P.Drawn hop

theorem genuine_init : P.Genuine fun _ => none := by
  intro k r hr
  cases hr

/-- **Utilisation estimates are sound under any ACK order.** After any ACKs with hops
the ports report, taken in any order from an empty `hop_last`, and in every state a run of either
sender reaches on such ACKs. -/
theorem utilisation_sound (P : Ports) :
    (∀ base_rtt_s acks hops, (∀ ack ∈ acks, ∀ hop ∈ ack, P.Drawn hop) →
      (∀ hop ∈ hops, P.Drawn hop) →
      SoundAt P base_rtt_s (after base_rtt_s acks fun _ => none) hops) ∧
    (∀ cfg mp monotonic ops p,
      run (cls.step cfg mp) (cls.start cfg monotonic) ops = some p → P.Feeds ops →
      ∀ hops, (∀ hop ∈ hops, P.Drawn hop) →
        SoundAt P cfg.base_rtt_s p.self.ctl.hop_last hops) ∧
    (∀ cfg mp monotonic ops p,
      run (HpccV2.cls.step cfg mp) (HpccV2.cls.start cfg monotonic) ops = some p → P.Feeds ops →
      ∀ hops, (∀ hop ∈ hops, P.Drawn hop) →
        SoundAt P cfg.base_rtt_s p.self.ctl.hop_last hops) := by
  -- the ACKs a run has taken in are among those it was given
  have hfed : ∀ {ops : List Op} {acks : List (List IntHop)} {base_rtt_s : ℚ}, P.Feeds ops →
      (∀ hops ∈ acks, ∃ data clk, Op.datagram data clk ∈ ops ∧ hops = acked_hops data) →
      P.Genuine (after base_rtt_s acks fun _ => none) := by
    intro ops acks base_rtt_s hf hacks
    apply genuine_after genuine_init
    intro hops hm hop hh
    obtain ⟨data, clk, hop_mem, rfl⟩ := hacks hops hm
    exact hf data clk hop_mem hop hh
  refine ⟨?_, ?_, ?_⟩
  · intro base_rtt_s acks hops hacks hops_drawn
    exact soundAt_of_genuine (genuine_after genuine_init hacks) hops_drawn
  · intro cfg mp monotonic ops p hrun hf hops hd
    obtain ⟨acks, hacks, htable⟩ := run_hop_last Ctl.hop_last (fun _ => rfl)
      (v1_listener_hop_last cfg) hrun
    rw [htable]
    exact soundAt_of_genuine (hfed hf hacks) hd
  · intro cfg mp monotonic ops p hrun hf hops hd
    obtain ⟨acks, hacks, htable⟩ := run_hop_last Ctl.hop_last (fun _ => rfl)
      (v2_listener_hop_last cfg) hrun
    rw [htable]
    exact soundAt_of_genuine (hfed hf hacks) hd

/-- Ports on 8 Mbit/s links that are never idle. -/
def busy_ports : Ports where
  link_bps _ := 8000000
  samples _ := {m | m.2 = m.1}
  link_pos _ := by norm_num
  rate := by
    intro k a ha b hb hlt
    have ha : a.2 = a.1 := ha
    have hb : b.2 = b.1 := hb
    rw [ha, hb]
    refine ⟨by omega, ?_⟩
    norm_num

/-- A report of one of them, at the time `t`. -/
def busy_hop (t : ℤ) : IntHop where
  switch_id := 1
  ingress_port := 1
  egress_port := 2
  egress_tstamp_us := t
  tx_byte_count := t
  link_bps := 8000000
  qdepth := 1

theorem busy_hop_drawn (t : ℤ) : busy_ports.Drawn (busy_hop t) :=
  ⟨rfl, rfl, by show (0 : ℤ) ≤ 1; norm_num⟩

/-- The third ACK is older than the second, and the fourth is measured against it. -/
theorem utilisation_sound_busy_ports :
    SoundAt busy_ports (1 / 100)
      (after (1 / 100) [[busy_hop 10], [busy_hop 50], [busy_hop 20]] fun _ => none)
      [busy_hop 40] ∧
    used (1 / 100) [busy_hop 40]
      (after (1 / 100) [[busy_hop 10], [busy_hop 50], [busy_hop 20]] fun _ => none)
      = [(busy_hop 40, (20, 20))] := by
  constructor
  · apply (utilisation_sound busy_ports).1
    · simp [busy_hop_drawn]
    · simp [busy_hop_drawn]
  · decide +kernel

end IntHpcc.Hpcc
