/-
The hop table of the C sender is the dict `hop_last` of the Python one.

`hop_lookup` is a linear probe over the slots in use (`hop_probe_eq`), so what is known of
such tables applies: a port seen before is found where it was put, a new one gets a slot
of its own as long as no more than `HOP_TABLE_SZ` ports are ever seen. `Agrees` relates a
table to a dict, and `compute_u_agrees` carries it through the two `compute_u`s.
-/
import IntHpcc.CSender
import IntHpcc.Hpcc
import IntHpcc.LinearProbe
import Mathlib.Data.Finset.Image
import Mathlib.Tactic.Linarith

set_option autoImplicit false

namespace IntHpcc.CSender

open IntHpcc.Bytes IntHpcc.Py IntHpcc.PacketFormat IntHpcc.SenderCore IntHpcc.LinearProbe

/-! ## The table as a probe table -/

/-- The keys of the slots in use. -/
def occ (hops : HopTable) (i : Fin HOP_TABLE_SZ) : Option (ℕ × ℕ) :=
  if (hops i).valid then some ((hops i).switch_id, (hops i).egress_port) else none

/-- Where the search for a key starts. -/
def home (key : ℕ × ℕ) : Fin HOP_TABLE_SZ := hop_hash key.1 key.2

/-- What `hop_lookup` writes when it stops at slot `i`: the key, into an unused slot. -/
def claim (hops : HopTable) (swid port : ℕ) (i : Fin HOP_TABLE_SZ) : HopTable :=
  if (hops i).valid then hops
  else Function.update hops i
    { hops i with switch_id := swid, egress_port := port, valid := false }

variable {hops : HopTable} {swid port : ℕ} {i : Fin HOP_TABLE_SZ}

theorem occ_eq_none : occ hops i = none ↔ (hops i).valid = false := by
  unfold occ
  by_cases h : (hops i).valid = true
  · simp [h]
  · simp [h]

theorem occ_eq_some {key : ℕ × ℕ} : occ hops i = some key ↔
    (hops i).valid = true ∧ (hops i).switch_id = key.1 ∧ (hops i).egress_port = key.2 := by
  unfold occ
  by_cases h : (hops i).valid = true
  · simp [h, Prod.ext_iff]
  · simp [h]

/-- A slot another key holds is passed over. -/
theorem occ_other {k : ℕ × ℕ} (hs : occ hops i = some k) (hne : k ≠ (swid, port)) :
    (hops i).valid = true ∧
      ¬ ((hops i).valid = true ∧ (hops i).switch_id = swid ∧ (hops i).egress_port = port) := by
  obtain ⟨hvalid, hswid, hport⟩ := occ_eq_some.mp hs
  refine ⟨hvalid, ?_⟩
  rintro ⟨-, h₁, h₂⟩
  apply hne
  rw [Prod.ext_iff]
  exact ⟨hswid.symm.trans h₁, hport.symm.trans h₂⟩

/-- The loop of `hop_lookup` is the probe. -/
theorem hop_probe_eq (hops : HopTable) (swid port : ℕ) (s : Fin HOP_TABLE_SZ) (n : ℕ) :
    hop_probe hops swid port true s n =
      ((probe (occ hops) (swid, port) s n).elim hops (claim hops swid port),
        probe (occ hops) (swid, port) s n) := by
  induction n generalizing s with
  | zero => rfl
  | succ n ih =>
      rw [hop_probe]
      rcases slot_cases (occ hops) (swid, port) s with hs | hs | ⟨k, hs, hne⟩
      · have hfree := occ_eq_none.mp hs
        rw [if_neg (by simp [hfree]), if_pos hfree, if_pos rfl, probe_of_empty hs]
        simp [claim, hfree]
      · have huse := occ_eq_some.mp hs
        rw [if_pos huse, probe_of_key hs]
        simp [claim, huse.1]
      · obtain ⟨huse, hother⟩ := occ_other hs hne
        rw [if_neg hother, if_neg (by simp [huse]), probe_of_other hs hne, ih]

/-- Without `create` the same search finds the key or nothing. -/
theorem hop_probe_find (hops : HopTable) (swid port : ℕ) (s : Fin HOP_TABLE_SZ) (n : ℕ) :
    hop_probe hops swid port false s n =
      (hops, (probe (occ hops) (swid, port) s n).filter fun i => (hops i).valid) := by
  induction n generalizing s with
  | zero => rfl
  | succ n ih =>
      rw [hop_probe]
      rcases slot_cases (occ hops) (swid, port) s with hs | hs | ⟨k, hs, hne⟩
      · have hfree := occ_eq_none.mp hs
        rw [if_neg (by simp [hfree]), if_pos hfree, probe_of_empty hs]
        simp [Option.filter, hfree]
      · have huse := occ_eq_some.mp hs
        rw [if_pos huse, probe_of_key hs]
        simp [Option.filter, huse.1]
      · obtain ⟨huse, hother⟩ := occ_other hs hne
        rw [if_neg hother, if_neg (by simp [huse]), probe_of_other hs hne, ih]

/-! ## The table as a dict -/

/-- The entry of the table for a port. -/
def table_entry (hops : HopTable) (swid port : ℕ) : Option (ℤ × ℤ) :=
  (hop_lookup hops swid port false).2.map fun i =>
    (((hops i).last_tstamp_us : ℤ), ((hops i).last_tx_bytes : ℤ))

/-- A key of the dict. -/
def dict_key (key : ℕ × ℕ) : ℤ × ℤ := (key.1, key.2)

theorem dict_key_injective : Function.Injective dict_key := by
  intro k k' h
  simp only [dict_key, Prod.mk.injEq, Nat.cast_inj] at h
  exact Prod.ext h.1 h.2

/-- The table holds what the dict holds, each port where it is looked for. -/
structure Agrees (hops : HopTable) (hop_last : Hpcc.HopLast) : Prop where
  findable : Findable home (occ hops)
  sound : ∀ i key, occ hops i = some key →
    hop_last (dict_key key)
      = some (((hops i).last_tstamp_us : ℤ), ((hops i).last_tx_bytes : ℤ))
  complete : ∀ k, hop_last k ≠ none → ∃ key i, k = dict_key key ∧ occ hops i = some key

variable {hop_last : Hpcc.HopLast}

/-- The entry of a port is the same. -/
theorem Agrees.entry_eq (h : Agrees hops hop_last) (swid port : ℕ) :
    table_entry hops swid port = hop_last (dict_key (swid, port)) := by
  unfold table_entry hop_lookup
  rw [hop_probe_find]
  -- the pair is in the table, or the probe ends at a free slot or nowhere
  by_cases hin : ∃ i, occ hops i = some (swid, port)
  · obtain ⟨i, hi⟩ := hin
    have hprobe : probe (occ hops) (swid, port) (hop_hash swid port) HOP_TABLE_SZ = some i :=
      h.findable i _ hi
    rw [hprobe, h.sound i _ hi]
    simp [Option.filter, (occ_eq_some.mp hi).1]
  · have hnone : hop_last (dict_key (swid, port)) = none := by
      by_contra hne
      obtain ⟨key, i, hkey, hi⟩ := h.complete _ hne
      rw [← dict_key_injective hkey] at hi
      exact hin ⟨i, hi⟩
    rw [hnone]
    cases hprobe : probe (occ hops) (swid, port) (hop_hash swid port) HOP_TABLE_SZ with
    | none => rfl
    | some i =>
        rcases probe_stops hprobe with hi | hi
        · simp [Option.filter, occ_eq_none.mp hi]
        · exact absurd ⟨i, hi⟩ hin

/-- The table as a dict. -/
def hop_dict (hops : HopTable) : Hpcc.HopLast := fun k =>
  if 0 ≤ k.1 ∧ 0 ≤ k.2 then table_entry hops k.1.toNat k.2.toNat else none

theorem Agrees.dict_eq (h : Agrees hops hop_last) : hop_dict hops = hop_last := by
  funext k
  unfold hop_dict
  by_cases hk : 0 ≤ k.1 ∧ 0 ≤ k.2
  · rw [if_pos hk, h.entry_eq, dict_key, Int.toNat_of_nonneg hk.1, Int.toNat_of_nonneg hk.2]
  · -- no port has such a key
    rw [if_neg hk]
    by_contra hne
    obtain ⟨key, i, rfl, -⟩ := h.complete k (Ne.symm hne)
    exact hk ⟨Int.natCast_nonneg _, Int.natCast_nonneg _⟩

theorem agrees_start (hops : HopTable) (h : ∀ i, (hops i).valid = false) :
    Agrees hops fun _ => none := by
  have hocc : occ hops = fun _ => none := by
    funext i
    exact occ_eq_none.mpr (h i)
  refine ⟨by rw [hocc]; exact findable_empty, ?_, ?_⟩
  · intro i key hi
    rw [hocc] at hi
    cases hi
  · intro k hk
    exact absurd rfl hk

/-- A slot in use for a key, with its counters. -/
def primed (swid port tstamp_us tx_bytes : ℕ) : HopKey where
  switch_id := swid
  egress_port := port
  valid := true
  last_tstamp_us := tstamp_us
  last_tx_bytes := tx_bytes

theorem occ_primed (hops : HopTable) (i : Fin HOP_TABLE_SZ) (swid port tstamp_us tx_bytes : ℕ) :
    occ (Function.update hops i (primed swid port tstamp_us tx_bytes))
      = Function.update (occ hops) i (some (swid, port)) := by
  funext j
  by_cases hj : j = i
  · rw [hj, Function.update_self]
    simp [occ, primed]
  · rw [Function.update_of_ne hj]
    simp [occ, Function.update_of_ne hj]

/-- Writing the counters of a port, into its slot or the one the search found for it, is
an update of the dict. -/
theorem Agrees.update (h : Agrees hops hop_last)
    (hi : probe (occ hops) (swid, port) (hop_hash swid port) HOP_TABLE_SZ = some i)
    (tstamp_us tx_bytes : ℕ) :
    Agrees (Function.update hops i (primed swid port tstamp_us tx_bytes))
      (Function.update hop_last (dict_key (swid, port)) (some (tstamp_us, tx_bytes))) := by
  have hocc := occ_primed hops i swid port tstamp_us tx_bytes
  refine ⟨?_, ?_, ?_⟩
  · rw [hocc]
    rcases probe_stops hi with hfree | huse
    · exact h.findable.insert hi hfree
    · rw [← huse, Function.update_eq_self]
      exact h.findable
  · intro j key hj
    rw [hocc] at hj
    by_cases hji : j = i
    · rw [hji, Function.update_self, Option.some.injEq] at hj
      rw [hji, ← hj, Function.update_self, Function.update_self]
      rfl
    · rw [Function.update_of_ne hji] at hj
      -- another slot holds another key
      have hne : dict_key key ≠ dict_key (swid, port) := by
        intro heq
        rw [dict_key_injective heq] at hj
        rcases probe_stops hi with hfree | huse
        · have hprobe := h.findable j _ hj
          rw [show home (swid, port) = hop_hash swid port from rfl, hi, Option.some.injEq] at hprobe
          exact hji hprobe.symm
        · exact hji (h.findable.unique hj huse)
      rw [Function.update_of_ne hne, Function.update_of_ne hji]
      exact h.sound j key hj
  · intro k hk
    by_cases hkey : k = dict_key (swid, port)
    · refine ⟨(swid, port), i, hkey, ?_⟩
      rw [hocc, Function.update_self]
    · rw [Function.update_of_ne hkey] at hk
      obtain ⟨key, j, hkj, hj⟩ := h.complete k hk
      refine ⟨key, j, hkj, ?_⟩
      have hji : j ≠ i := by
        rintro rfl
        rcases probe_stops hi with hfree | huse
        · rw [hfree] at hj
          cases hj
        · rw [huse, Option.some.injEq] at hj
          exact hkey (by rw [hkj, ← hj])
      rw [hocc, Function.update_of_ne hji]
      exact hj

/-- What the dict holds for a port, in terms of the slot the search stops at. -/
theorem Agrees.last_of_probe (h : Agrees hops hop_last)
    (hi : probe (occ hops) (swid, port) (hop_hash swid port) HOP_TABLE_SZ = some i) :
    hop_last (dict_key (swid, port)) = if (hops i).valid then
      some (((hops i).last_tstamp_us : ℤ), ((hops i).last_tx_bytes : ℤ)) else none := by
  rw [← h.entry_eq]
  unfold table_entry hop_lookup
  rw [hop_probe_find, hi]
  by_cases hv : (hops i).valid = true
  · simp [Option.filter, hv]
  · simp [Option.filter, hv]

/-! ## `compute_u` -/

/-- A decoded hop, as the Python side decodes it. -/
def IntHopHost.hop (h : IntHopHost) : IntHop where
  switch_id := h.switch_id
  ingress_port := h.ingress_port
  egress_port := h.egress_port
  qdepth := h.qdepth
  egress_tstamp_us := h.egress_tstamp_us
  tx_byte_count := h.tx_byte_count
  link_bps := h.link_bps

@[simp] theorem IntHopHost.hop_link_bps (h : IntHopHost) : h.hop.link_bps = h.link_bps := rfl

theorem IntHopHost.hop_key (h : IntHopHost) :
    Hpcc.hop_key h.hop = dict_key (h.switch_id, h.egress_port) := rfl

/-- The sample of a hop whose port was seen at `tstamp_us` with `tx_bytes`, as the C loop
computes it. -/
def sample (base_rtt_s : ℚ) (h : IntHopHost) (tstamp_us tx_bytes : ℕ) : Option ℚ :=
  let dt : ℤ := (h.egress_tstamp_us : ℤ) - tstamp_us
  let db : ℤ := (h.tx_byte_count : ℤ) - tx_bytes
  if dt ≤ 0 ∨ db < 0 then none
  else
    let b_bytes : ℚ := h.link_bps * base_rtt_s / 8
    if b_bytes ≤ 0 then none
    else some (h.qdepth * QDEPTH_PKT_BYTES / b_bytes + db * 8 * 1000000 / dt / h.link_bps)

/-- The maximum so far, with one more sample. -/
def max_with (u_max : ℚ) : Option ℚ → ℚ
  | none => u_max
  | some u => if u > u_max then u else u_max

/-- The C loop skips the pairs the Python one skips, and takes the same term of the others. -/
theorem sample_eq (base_rtt_s : ℚ) (h : IntHopHost) (tstamp_us tx_bytes : ℕ) :
    sample base_rtt_s h tstamp_us tx_bytes
      = if Hpcc.Counts base_rtt_s h.hop (tstamp_us, tx_bytes) then
          some (Hpcc.u_term base_rtt_s (h.hop, (tstamp_us, tx_bytes))) else none := by
  have hcast : (h.hop.link_bps : ℚ) = h.link_bps := by simp [IntHopHost.hop]
  unfold sample
  dsimp only
  by_cases hskip : (h.egress_tstamp_us : ℤ) - tstamp_us ≤ 0 ∨ (h.tx_byte_count : ℤ) - tx_bytes < 0
  · rw [if_pos hskip, if_neg]
    rintro ⟨hts, htx, -⟩
    have hts : (tstamp_us : ℤ) < h.egress_tstamp_us := hts
    have htx : (tx_bytes : ℤ) ≤ h.tx_byte_count := htx
    omega
  · have hts : (tstamp_us : ℤ) < h.egress_tstamp_us := by omega
    have htx : (tx_bytes : ℤ) ≤ h.tx_byte_count := by omega
    rw [if_neg hskip]
    by_cases hb : (h.link_bps : ℚ) * base_rtt_s / 8 ≤ 0
    · rw [if_pos hb, if_neg]
      rintro ⟨-, -, hpos⟩
      rw [hcast] at hpos
      exact absurd hpos (not_lt.mpr hb)
    · have hcounts : Hpcc.Counts base_rtt_s h.hop (tstamp_us, tx_bytes) := by
        refine ⟨hts, htx, ?_⟩
        rw [hcast]
        exact not_le.mp hb
      rw [if_neg hb, if_pos hcounts]
      -- the C divides by an eighth of what the queueing term divides by
      simp only [Hpcc.u_term, Hpcc.queue_term, Hpcc.tx_rate_bps, hcast, QDEPTH_PKT_BYTES,
        div_div_eq_mul_div]
      simp [IntHopHost.hop]

/-- The Python sample is the same. -/
theorem hop_sample_eq (base_rtt_s : ℚ) {h : IntHopHost} (hl : h.link_bps ≠ 0)
    (tstamp_us tx_bytes : ℕ) :
    Hpcc.hop_sample base_rtt_s h.hop (some (tstamp_us, tx_bytes))
      = .ok (sample base_rtt_s h tstamp_us tx_bytes) := by
  have hlink : h.hop.link_bps ≠ 0 := by
    rw [IntHopHost.hop_link_bps]
    exact_mod_cast hl
  rw [Hpcc.hop_sample_eq base_rtt_s hlink, sample_eq]

/-- What `compute_u` does to the table for one hop: the slot the look-up returns is primed or
overwritten. -/
def touch (hops : HopTable) (h : IntHopHost) : HopTable :=
  match hop_lookup hops h.switch_id h.egress_port true with
  | (hops, none) => hops
  | (hops, some i) => Function.update hops i
      { hops i with
        last_tstamp_us := h.egress_tstamp_us
        last_tx_bytes := h.tx_byte_count
        valid := true }

/-- The (switch, port) pair of a hop. -/
def pair (h : IntHopHost) : ℕ × ℕ := (h.switch_id, h.egress_port)

/-- The slot, claimed and then written. -/
theorem claim_primed (hi : occ hops i = none ∨ occ hops i = some (swid, port))
    (tstamp_us tx_bytes : ℕ) :
    Function.update (claim hops swid port i) i
        { claim hops swid port i i with
          last_tstamp_us := tstamp_us
          last_tx_bytes := tx_bytes
          valid := true }
      = Function.update hops i (primed swid port tstamp_us tx_bytes) := by
  rcases hi with hfree | huse
  · rw [claim, if_neg (by simp [occ_eq_none.mp hfree]), Function.update_self, Function.update_idem]
    rfl
  · obtain ⟨hv, hsw, hport⟩ := occ_eq_some.mp huse
    dsimp only at hsw hport
    rw [claim, if_pos hv, primed, ← hsw, ← hport]

/-- The look-up stops where the probe does. -/
theorem hop_lookup_eq (hops : HopTable) (h : IntHopHost) :
    hop_lookup hops h.switch_id h.egress_port true =
      ((probe (occ hops) (pair h) (home (pair h)) HOP_TABLE_SZ).elim hops
          (claim hops h.switch_id h.egress_port),
        probe (occ hops) (pair h) (home (pair h)) HOP_TABLE_SZ) :=
  hop_probe_eq hops h.switch_id h.egress_port _ _

/-- What a hop can do: without a slot nothing, else it is written into the slot where the
search stops. -/
theorem touch_cases (hops : HopTable) (h : IntHopHost) :
    (probe (occ hops) (pair h) (home (pair h)) HOP_TABLE_SZ = none ∧
      hop_lookup hops h.switch_id h.egress_port true = (hops, none) ∧ touch hops h = hops) ∨
    ∃ i, probe (occ hops) (pair h) (home (pair h)) HOP_TABLE_SZ = some i ∧
      hop_lookup hops h.switch_id h.egress_port true
        = (claim hops h.switch_id h.egress_port i, some i) ∧
      touch hops h = Function.update hops i
        (primed h.switch_id h.egress_port h.egress_tstamp_us h.tx_byte_count) := by
  have hlook := hop_lookup_eq hops h
  cases hi : probe (occ hops) (pair h) (home (pair h)) HOP_TABLE_SZ with
  | none =>
      rw [hi] at hlook
      -- no slot: the entry is skipped
      refine Or.inl ⟨rfl, hlook, ?_⟩
      rw [touch, hlook]
      rfl
  | some i =>
      rw [hi] at hlook
      refine Or.inr ⟨i, rfl, hlook, ?_⟩
      rw [touch, hlook]
      -- found or free, the slot ends up with the pair and the new counters
      exact claim_primed (probe_stops hi) _ _

/-- A hop whose port has a slot. -/
theorem touch_of_probe {h : IntHopHost}
    (hi : probe (occ hops) (pair h) (home (pair h)) HOP_TABLE_SZ = some i) :
    touch hops h = Function.update hops i
      (primed h.switch_id h.egress_port h.egress_tstamp_us h.tx_byte_count) := by
  rcases touch_cases hops h with ⟨hnone, -⟩ | ⟨j, hj, -, htouch⟩
  · rw [hi] at hnone
    cases hnone
  · rw [hi, Option.some.injEq] at hj
    rw [hj]
    exact htouch

theorem Agrees.touch (h : Agrees hops hop_last) {c : IntHopHost}
    (hi : probe (occ hops) (pair c) (home (pair c)) HOP_TABLE_SZ = some i) :
    Agrees (touch hops c) (Function.update hop_last (dict_key (pair c))
      (some (c.egress_tstamp_us, c.tx_byte_count))) := by
  rw [touch_of_probe hi]
  exact h.update hi _ _

/-- One hop of the C loop, when its port has a slot. -/
theorem compute_u_cons (base_rtt_s : ℚ) {h : IntHopHost} (hs : List IntHopHost) (u_max : ℚ)
    (hl : h.link_bps ≠ 0)
    (hi : probe (occ hops) (pair h) (home (pair h)) HOP_TABLE_SZ = some i) :
    compute_u base_rtt_s (h :: hs) hops u_max =
      compute_u base_rtt_s hs (touch hops h)
        (if (hops i).valid then
          max_with u_max (sample base_rtt_s h (hops i).last_tstamp_us (hops i).last_tx_bytes)
        else u_max) := by
  have hprimed := claim_primed (probe_stops hi) h.egress_tstamp_us h.tx_byte_count
  rw [touch_of_probe hi, compute_u, if_neg hl, hop_lookup_eq, hi]
  dsimp only [Option.elim]
  rw [hprimed]
  by_cases hv : (hops i).valid = true
  · -- the port has been seen
    have hclaim : claim hops h.switch_id h.egress_port i = hops := by
      rw [claim, if_pos hv]
    rw [hclaim, if_neg (by simp [hv]), if_pos hv]
    unfold sample
    dsimp only
    split
    · rfl
    · split
      · rfl
      · rfl
  · -- a new port: its counters are only remembered
    have hclaim : (claim hops h.switch_id h.egress_port i i).valid = false := by
      rw [claim, if_neg hv, Function.update_self]
    rw [if_pos hclaim, if_neg hv]

/-- The keys of the table are in `K`. -/
def KeysIn (hops : HopTable) (K : Finset (ℕ × ℕ)) : Prop :=
  ∀ i key, occ hops i = some key → key ∈ K

theorem KeysIn.touch {K : Finset (ℕ × ℕ)} (h : KeysIn hops K) {c : IntHopHost}
    (hmem : pair c ∈ K) : KeysIn (touch hops c) K := by
  rcases touch_cases hops c with ⟨-, -, htouch⟩ | ⟨i, -, -, htouch⟩
  · rw [htouch]
    exact h
  · rw [htouch]
    intro j key hj
    rw [occ_primed] at hj
    by_cases hji : j = i
    · rw [hji, Function.update_self] at hj
      rw [← Option.some.inj hj]
      exact hmem
    · rw [Function.update_of_ne hji] at hj
      exact h j key hj

/-- **Both `compute_u`s agree**, result and memory, as long as the ports fit the table; and
the table takes in no other keys. -/
theorem compute_u_agrees (base_rtt_s : ℚ) {K : Finset (ℕ × ℕ)} (hK : K.card ≤ HOP_TABLE_SZ)
    {hs : List IntHopHost}
    (hin : ∀ h ∈ hs, h.link_bps ≠ 0 → (h.switch_id, h.egress_port) ∈ K)
    (hag : Agrees hops hop_last) (hkeys : KeysIn hops K) (u_max : ℚ) :
    (Hpcc.compute_u base_rtt_s (hs.map IntHopHost.hop) hop_last u_max).2
        = .ok (compute_u base_rtt_s hs hops u_max).2 ∧
      Agrees (compute_u base_rtt_s hs hops u_max).1
        (Hpcc.compute_u base_rtt_s (hs.map IntHopHost.hop) hop_last u_max).1 ∧
      KeysIn (compute_u base_rtt_s hs hops u_max).1 K := by
  induction hs generalizing hops hop_last u_max with
  | nil => exact ⟨rfl, hag, hkeys⟩
  | cons h hs ih =>
      have hin' : ∀ h' ∈ hs, h'.link_bps ≠ 0 → (h'.switch_id, h'.egress_port) ∈ K :=
        fun h' hmem => hin h' (List.mem_cons_of_mem _ hmem)
      rw [List.map_cons, Hpcc.compute_u]
      by_cases hl : h.link_bps = 0
      · have hl' : h.hop.link_bps = 0 := by
          rw [IntHopHost.hop_link_bps, hl]
          rfl
        rw [if_pos hl', compute_u, if_pos hl]
        exact ih hin' hag hkeys u_max
      · have hl' : h.hop.link_bps ≠ 0 := by
          rw [IntHopHost.hop_link_bps]
          exact_mod_cast hl
        have hmem := hin h List.mem_cons_self hl
        -- all keys are in `K`, so a slot is left for one more
        obtain ⟨i, hi⟩ := hag.findable.probe_isSome hK hkeys hmem
        have hnext := hag.touch hi
        have hkeys' := hkeys.touch hmem
        rw [if_neg hl', compute_u_cons base_rtt_s hs u_max hl hi]
        have hlast := hag.last_of_probe hi
        dsimp only
        rw [IntHopHost.hop_key]
        -- the slot is in use exactly if the dict knows the port
        by_cases hv : (hops i).valid = true
        · rw [hlast, if_pos hv, if_pos hv, hop_sample_eq base_rtt_s hl]
          cases sample base_rtt_s h (hops i).last_tstamp_us (hops i).last_tx_bytes with
          | none => exact ih hin' hnext hkeys' u_max
          | some u => exact ih hin' hnext hkeys' _
        · rw [hlast, if_neg hv, if_neg hv]
          exact ih hin' hnext hkeys' u_max

end IntHpcc.CSender
