/-
`measure_base_rtt`: the median of a few probes.

Each turn of the loop sends a probe with a number of its own and takes the time until the
next datagram on the ACK port. What the datagram says is not looked at. So when the ACK of
an earlier probe comes late, or twice, the turn takes the time from its own probe to the
ACK of the other one, which is no round trip and can be far too short.

The clock readings and what `recvfrom` returns are the input of a turn. The datagrams are
bytes; `IsAckOf` says which of them the reflector sends in answer to which probe.
-/
import IntHpcc.HpccCut
import IntHpcc.Reflector
import Mathlib.Data.List.GetD
import Mathlib.Data.List.Sort
import Mathlib.Tactic.Linarith

set_option autoImplicit false

namespace IntHpcc.BaseRtt

open IntHpcc.Runs IntHpcc.Bytes IntHpcc.Py IntHpcc.PacketFormat IntHpcc.Reflector

/-- The two modules that measure. -/
inductive Measurer
  | dctcp
  | hpcc
  deriving DecidableEq, Repr

/-- The number of the first probe. -/
def Measurer.first_seq : Measurer → ℤ
  | .dctcp => 1000000
  | .hpcc => 2000000

/-- What one turn of the loop sees: the clock as the packet is built and as `ts` is taken,
whether `sendto` goes through, and what `recvfrom` returns, with the clock behind it;
nothing if it times out. -/
structure Round where
  build_us : Us
  ts_us : Us
  sendto_ok : Bool
  reply : Option (List Byte × Us)

/-- `DataPayload(seq=seq, send_ts_us=_now_us())`. -/
def probe_payload (m : Measurer) (i : ℕ) (r : Round) : DataPayload where
  seq := m.first_seq + i
  send_ts_us := r.build_us.val

/-- `i` and `rtts`, and whether an exception has left the loop. -/
structure Probing where
  i : ℕ
  rtts : List ℚ
  raised : Bool
  deriving DecidableEq

def Probing.start : Probing := ⟨0, [], false⟩

/-- `(_now_us() - ts) / 1_000_000`, if a datagram comes. -/
def sample (r : Round) : Option ℚ :=
  r.reply.map fun reply => ((reply.2.val : ℚ) - r.ts_us.val) / 1000000

/-- The body of the loop. -/
def probe (m : Measurer) (r : Round) (st : Probing) : Probing :=
  match DataPacket.pack { payload := probe_payload m st.i r } with
  | .error _ => { st with raised := true }
  | .ok _ =>
    if r.sendto_ok then { st with i := st.i + 1, rtts := st.rtts ++ (sample r).toList }
    else { st with raised := true }

/-- `for i in range(n_probes)`, one turn. -/
def turn (m : Measurer) (n_probes : ℕ) (r : Round) (st : Probing) : Option Probing :=
  if st.raised = false ∧ st.i < n_probes then some (probe m r st) else none

/-- The lines behind the loop: `rtts.sort()` and the middle, or 5 ms if there is none. -/
def Probing.median (st : Probing) : ℚ :=
  if st.rtts = [] then 5 / 1000
  else (st.rtts.insertionSort (· ≤ ·)).getD (st.rtts.length / 2) 0

/-- `measure_base_rtt` for the turns its loop takes; nothing if it raises. -/
def measure_base_rtt (m : Measurer) (n_probes : ℕ) (rounds : List Round) : Option ℚ :=
  (run (turn m n_probes) Probing.start rounds).bind fun st =>
    if st.raised then none else some st.median

/-! ## Round trips -/

/-- The datagram is the answer of the reflector to probe `j`, sent in the turn `q`. -/
def IsAckOf (m : Measurer) (j : ℕ) (q : Round) (data : List Byte) : Prop :=
  ∃ (hops : List IntHop) (ecn : ℕ) (t : Us),
    (answer { hops := hops, payload := probe_payload m j q } ecn t).pack = .ok data

/-- `x` is the time between the sending of a probe and the receipt, at `now_us`, of the
ACK `data` of the same probe. -/
def RoundTrip (m : Measurer) (rounds : List Round) (data : List Byte) (now_us : Us) (x : ℚ) :
    Prop :=
  ∃ j q, rounds[j]? = some q ∧ IsAckOf m j q data ∧
    x = ((now_us.val : ℚ) - q.ts_us.val) / 1000000

/-- What is appended to `rtts` is a round trip, and the median is at least the shortest. -/
structure RealSamples (m : Measurer) (n_probes : ℕ) (rounds : List Round) : Prop where
  appended : EachStep (turn m n_probes) (fun st r st' => ∀ x, st'.rtts = st.rtts ++ [x] →
    ∃ data now_us, r.reply = some (data, now_us) ∧ RoundTrip m rounds data now_us x)
    Probing.start rounds
  median : ∀ st, run (turn m n_probes) Probing.start rounds = some st → st.rtts ≠ [] →
    ∀ v, measure_base_rtt m n_probes rounds = some v →
    ∃ r ∈ rounds, ∃ data now_us x, r.reply = some (data, now_us) ∧
      RoundTrip m rounds data now_us x ∧ x ≤ v

/-- A datagram that comes in a turn answers the probe of that turn, or one with the same
`ts`. -/
def OnTime (m : Measurer) (rounds : List Round) (st : Probing) : Prop :=
  ∀ i r data now_us, i < st.i → rounds[i]? = some r → r.reply = some (data, now_us) →
    ∃ j q, rounds[j]? = some q ∧ IsAckOf m j q data ∧ q.ts_us = r.ts_us

/-- The number of the probe can be read off its ACK. -/
theorem IsAckOf.unique {m : Measurer} {j k : ℕ} {q r : Round} {data : List Byte}
    (h : IsAckOf m j q data) (h' : IsAckOf m k r data) : j = k := by
  obtain ⟨hops, ecn, t, hpack⟩ := h
  obtain ⟨hops', ecn', t', hpack'⟩ := h'
  have hread := (Dctcp.read_ack_pack hpack).symm.trans (Dctcp.read_ack_pack hpack')
  have hpay := (Prod.mk.inj (Option.some.inj (Except.ok.inj hread))).2
  have hseq : m.first_seq + (j : ℤ) = m.first_seq + (k : ℤ) := congrArg AckPayload.ack_seq hpay
  omega

/-! ## The loop -/

section

variable {m : Measurer} {n_probes : ℕ} {r : Round} {rounds : List Round} {st st' : Probing}

/-- A turn raises, or goes through. -/
theorem turn_cases (h : turn m n_probes r st = some st') :
    st.raised = false ∧ (st' = { st with raised := true } ∨
      st' = { st with i := st.i + 1, rtts := st.rtts ++ (sample r).toList }) := by
  unfold turn at h
  split at h
  · next hg =>
    obtain rfl := Option.some.inj h
    refine ⟨hg.1, ?_⟩
    unfold probe
    split
    · exact Or.inl rfl
    · split
      · exact Or.inr rfl
      · exact Or.inl rfl
  · cases h

/-- Once the loop has raised there is no further turn. -/
theorem run_of_raised (hr : st.raised = true) (h : run (turn m n_probes) st rounds = some st') :
    rounds = [] ∧ st' = st := by
  cases rounds with
  | nil =>
      rw [run_nil, Option.some.injEq] at h
      exact ⟨rfl, h.symm⟩
  | cons r rounds =>
      obtain ⟨s, hs, -⟩ := (run_cons_eq_some _).mp h
      rw [(turn_cases hs).1] at hr
      cases hr

/-- What a run of the loop leaves: `i` has counted the turns that went through, and `rtts`
holds their samples. -/
theorem run_samples (h : run (turn m n_probes) st rounds = some st') :
    ∃ done, st'.i = st.i + done ∧ done ≤ rounds.length ∧
      st'.rtts = st.rtts ++ (rounds.take done).filterMap sample ∧
      (st'.raised = false → done = rounds.length) := by
  induction rounds generalizing st with
  | nil =>
      rw [run_nil, Option.some.injEq] at h
      subst h
      exact ⟨0, rfl, le_refl _, (List.append_nil _).symm, fun _ => rfl⟩
  | cons r rounds ih =>
      obtain ⟨s, hs, hrest⟩ := (run_cons_eq_some _).mp h
      obtain ⟨-, rfl | rfl⟩ := turn_cases hs
      · -- the exception ends the loop
        obtain ⟨-, rfl⟩ := run_of_raised rfl hrest
        exact ⟨0, rfl, Nat.zero_le _, (List.append_nil _).symm, fun h => by cases h⟩
      · obtain ⟨done, hi, hle, hrtts, hall⟩ := ih hrest
        refine ⟨done + 1, ?_, Nat.succ_le_succ hle, ?_, fun h => congrArg Nat.succ (hall h)⟩
        · rw [hi, Nat.add_assoc, Nat.add_comm 1]
        · rw [hrtts, List.take_succ_cons, List.append_assoc, List.filterMap_cons]
          cases sample r with
          | none => rfl
          | some x => rfl

/-- The turn behind the turns `pre`, if it goes through. -/
theorem turn_at {pre post : List Round} {st₁ st₂ : Probing}
    (hpre : run (turn m n_probes) Probing.start pre = some st₁)
    (hturn : turn m n_probes r st₁ = some st₂)
    (hpost : run (turn m n_probes) st₂ post = some st) :
    st₂ = { st₁ with raised := true } ∨
      (st₂.rtts = st₁.rtts ++ (sample r).toList ∧ pre.length < st.i) := by
  obtain ⟨hr, hst⟩ := turn_cases hturn
  rcases hst with hst | rfl
  · exact Or.inl hst
  · obtain ⟨done, hi, -, -, hall⟩ := run_samples hpre
    obtain ⟨rest, hi', -⟩ := run_samples hpost
    refine Or.inr ⟨rfl, ?_⟩
    rw [hi', hi, hall hr]
    show pre.length < 0 + pre.length + 1 + rest
    omega

/-- A sample is appended for a datagram. -/
theorem reply_of_sample {x : ℚ} (h : sample r = some x) :
    ∃ data now_us, r.reply = some (data, now_us) ∧
      x = ((now_us.val : ℚ) - r.ts_us.val) / 1000000 := by
  unfold sample at h
  obtain ⟨⟨data, now_us⟩, hreply, rfl⟩ := Option.map_eq_some_iff.mp h
  exact ⟨data, now_us, hreply, rfl⟩

/-- The middle of the samples is one of them. -/
theorem median_mem (h : st.rtts ≠ []) : st.median ∈ st.rtts := by
  unfold Probing.median
  rw [if_neg h]
  have hlen : st.rtts.length / 2 < (st.rtts.insertionSort (· ≤ ·)).length := by
    rw [List.length_insertionSort]
    exact Nat.div_lt_self (List.length_pos_iff.mpr h) (by norm_num)
  rw [List.getD_eq_getElem _ _ hlen]
  exact (List.mem_insertionSort _).mp (List.getElem_mem hlen)

/-- Two times to one reading are equal if the readings they start from are. -/
theorem since_eq_iff {now_us ts_us ts_us' : Us} :
    ((now_us.val : ℚ) - ts_us.val) / 1000000 = ((now_us.val : ℚ) - ts_us'.val) / 1000000 ↔
      ts_us' = ts_us := by
  rw [div_left_inj' (by norm_num), sub_right_inj, Nat.cast_inj, Fin.val_inj]
  exact eq_comm

theorem onTime_of_appended (hrun : run (turn m n_probes) Probing.start rounds = some st)
    (h : RealSamples m n_probes rounds) : OnTime m rounds st := by
  intro i r data now_us hi hr hreply
  obtain ⟨hlt, hget⟩ := List.getElem?_eq_some_iff.mp hr
  have hsplit : rounds = rounds.take i ++ r :: rounds.drop (i + 1) := by
    rw [← hget, List.getElem_cons_drop, List.take_append_drop]
  have hrun' := hrun
  rw [hsplit] at hrun'
  obtain ⟨st₁, hpre, hrest⟩ := (run_append_eq_some _).mp hrun'
  obtain ⟨st₂, hturn, hpost⟩ := (run_cons_eq_some _).mp hrest
  have hs : sample r = some (((now_us.val : ℚ) - r.ts_us.val) / 1000000) := by
    rw [sample, hreply]
    rfl
  rcases turn_at hpre hturn hpost with rfl | ⟨hrtts, -⟩
  · -- the exception would have ended the loop before `i` was counted
    obtain ⟨hnil, rfl⟩ := run_of_raised rfl hpost
    obtain ⟨done, hi', hdone, -⟩ := run_samples hpre
    rw [List.length_take, min_eq_left hlt.le] at hdone
    have hlow : st₁.i = 0 + done := hi'
    change i < st₁.i at hi
    omega
  · rw [hs] at hrtts
    obtain ⟨data', now_us', hreply', j, q, hq, hack, hx⟩ :=
      h.appended _ _ _ st₁ st₂ hsplit hpre hturn _ hrtts
    obtain ⟨rfl, rfl⟩ := Prod.mk.inj (Option.some.inj (hreply.symm.trans hreply'))
    exact ⟨j, q, hq, hack, since_eq_iff.mp hx⟩

theorem realSamples_of_onTime (hrun : run (turn m n_probes) Probing.start rounds = some st)
    (h : OnTime m rounds st) : RealSamples m n_probes rounds := by
  -- a sample of a turn that went through
  have hreal : ∀ i r x, i < st.i → rounds[i]? = some r → sample r = some x →
      ∃ data now_us, r.reply = some (data, now_us) ∧ RoundTrip m rounds data now_us x := by
    intro i r x hi hr hs
    obtain ⟨data, now_us, hreply, rfl⟩ := reply_of_sample hs
    obtain ⟨j, q, hq, hack, hts⟩ := h i r data now_us hi hr hreply
    exact ⟨data, now_us, hreply, j, q, hq, hack, since_eq_iff.mpr hts⟩
  refine ⟨?_, ?_⟩
  · intro pre r post st₁ st₂ heq hpre hturn x hx
    rw [heq] at hrun
    obtain ⟨st₁', hpre', hrest⟩ := (run_append_eq_some _).mp hrun
    obtain ⟨st₂', hturn', hpost⟩ := (run_cons_eq_some _).mp hrest
    obtain rfl := Option.some.inj (hpre.symm.trans hpre')
    obtain rfl := Option.some.inj (hturn.symm.trans hturn')
    rcases turn_at hpre hturn hpost with rfl | ⟨hrtts, hi⟩
    · simp at hx
    · have hs : sample r = some x := by
        rw [hrtts, List.append_cancel_left_eq] at hx
        cases hsr : sample r with
        | none =>
            rw [hsr] at hx
            cases hx
        | some y =>
            rw [hsr] at hx
            exact congrArg some (List.head_eq_of_cons_eq hx)
      refine hreal pre.length r x hi ?_ hs
      rw [heq, List.getElem?_append_right (le_refl _), Nat.sub_self]
      rfl
  · intro st' hst' hne v hv
    obtain rfl := Option.some.inj (hrun.symm.trans hst')
    have hv' : st.median = v := by
      unfold measure_base_rtt at hv
      rw [hrun, Option.bind_some] at hv
      split at hv
      · cases hv
      · exact Option.some.inj hv
    obtain ⟨done, hi, -, hrtts, -⟩ := run_samples hrun
    have hmem := median_mem hne
    rw [hrtts] at hmem
    obtain ⟨r, hr, hs⟩ := List.mem_filterMap.mp hmem
    obtain ⟨i, hri⟩ := List.getElem?_of_mem hr
    have hlt : i < done := by
      by_contra hge
      rw [List.getElem?_take_eq_none (not_lt.mp hge)] at hri
      cases hri
    rw [List.getElem?_take_of_lt hlt] at hri
    have hcount : st.i = 0 + done := hi
    obtain ⟨data, now_us, hreply, htrip⟩ := hreal i r st.median (by omega) hri hs
    exact ⟨r, List.mem_of_getElem? hri, data, now_us, st.median, hreply, htrip, hv'.le⟩

/-- **Samples and round trips.** What `measure_base_rtt` samples are round trips, and the
median is not below the shortest, exactly if every datagram comes in the turn of its own
probe. -/
theorem real_samples_iff (m : Measurer) (n_probes : ℕ) (rounds : List Round) (st : Probing)
    (hrun : run (turn m n_probes) Probing.start rounds = some st) :
    RealSamples m n_probes rounds ↔ OnTime m rounds st :=
  ⟨onTime_of_appended hrun, realSamples_of_onTime hrun⟩

/-- With a clock that has moved between two probes, `OnTime` says that every datagram
answers the probe of its turn. -/
theorem onTime_iff_own (hclock : rounds.Pairwise fun q r => q.ts_us < r.ts_us) :
    OnTime m rounds st ↔ ∀ i r data now_us, i < st.i → rounds[i]? = some r →
      r.reply = some (data, now_us) → IsAckOf m i r data := by
  constructor
  · intro h i r data now_us hi hr hreply
    obtain ⟨j, q, hq, hack, hts⟩ := h i r data now_us hi hr hreply
    obtain ⟨hilt, higet⟩ := List.getElem?_eq_some_iff.mp hr
    obtain ⟨hjlt, hjget⟩ := List.getElem?_eq_some_iff.mp hq
    -- the time stamps are all different, so the stamp tells the probe
    have hij : j = i := by
      by_contra hne
      rcases Nat.lt_or_gt_of_ne hne with hlt | hgt
      · have hless := List.pairwise_iff_getElem.mp hclock j i hjlt hilt hlt
        rw [hjget, higet, hts] at hless
        exact lt_irrefl _ hless
      · have hless := List.pairwise_iff_getElem.mp hclock i j hilt hjlt hgt
        rw [hjget, higet, hts] at hless
        exact lt_irrefl _ hless
    subst hij
    obtain rfl := Option.some.inj (hq.symm.trans hr)
    exact hack
  · intro h i r data now_us hi hr hreply
    exact ⟨i, r, hr, h i r data now_us hi hr hreply, rfl⟩

end

/-! ## A late ACK -/

/-- The clocks of the turns do not go back. -/
structure Ordered (rounds : List Round) : Prop where
  inside : ∀ r ∈ rounds, r.build_us ≤ r.ts_us ∧
    ∀ data now_us, r.reply = some (data, now_us) → r.ts_us ≤ now_us
  between : rounds.Pairwise fun q r => q.ts_us ≤ r.build_us ∧
    ∀ data now_us, q.reply = some (data, now_us) → now_us ≤ r.build_us

/-- What comes is an ACK of a probe that has been sent. -/
def Answered (m : Measurer) (rounds : List Round) : Prop :=
  ∀ i r data now_us, rounds[i]? = some r → r.reply = some (data, now_us) →
    ∃ j q, j ≤ i ∧ rounds[j]? = some q ∧ IsAckOf m j q data

/-- The ACK of probe `j`, unmarked and without hops. -/
def ack_of (m : Measurer) (j : ℕ) (q : Round) : List Byte :=
  match (answer { payload := probe_payload m j q } 0 zero_us).pack with
  | .ok data => data
  | .error _ => []

theorem isAckOf_ack_of {m : Measurer} {j : ℕ} {q : Round}
    (h : (answer { payload := probe_payload m j q } 0 zero_us).pack.isOk = true) :
    IsAckOf m j q (ack_of m j q) := by
  refine ⟨[], 0, zero_us, ?_⟩
  unfold ack_of
  split
  · next data hdata => exact hdata
  · next e he =>
    rw [he] at h
    cases h

/-- A probe nothing comes back to within half a second. -/
def unanswered_probe : Round := ⟨at_us 1000, at_us 1000, true, none⟩

/-- Probe `j`, sent at `n`, whose ACK comes after `rtt_us`. -/
def answered_probe (j n rtt_us : ℕ) : Round :=
  let q : Round := ⟨at_us n, at_us n, true, none⟩
  { q with reply := some (ack_of .hpcc j q, at_us (n + rtt_us)) }

/-- The second of three probes is lost. -/
def three_probes : List Round :=
  [answered_probe 0 1000 6000, ⟨at_us 27000, at_us 27000, true, none⟩,
    answered_probe 2 547000 9000]

theorem three_probes_run :
    run (turn .hpcc 3) Probing.start three_probes = some ⟨3, [3 / 500, 9 / 1000], false⟩ := by
  decide +kernel

theorem real_samples_three_probes : RealSamples .hpcc 3 three_probes := by
  refine (real_samples_iff .hpcc 3 three_probes _ three_probes_run).mpr ?_
  intro i r data now_us hi hr hreply
  change i < 3 at hi
  obtain rfl | rfl | rfl : i = 0 ∨ i = 1 ∨ i = 2 := by omega
  · obtain rfl := Option.some.inj hr
    obtain ⟨rfl, -⟩ := Prod.mk.inj (Option.some.inj hreply)
    exact ⟨0, _, rfl, isAckOf_ack_of (by decide +kernel), rfl⟩
  · obtain rfl := Option.some.inj hr
    cases hreply
  · obtain rfl := Option.some.inj hr
    obtain ⟨rfl, -⟩ := Prod.mk.inj (Option.some.inj hreply)
    exact ⟨2, _, rfl, isAckOf_ack_of (by decide +kernel), rfl⟩

/-- The first probe times out. Its ACK comes 530 ms after it was sent, and 10 ms after the
second probe. -/
def late_ack : List Round :=
  [unanswered_probe, ⟨at_us 521000, at_us 521000, true,
    some (ack_of .hpcc 0 unanswered_probe, at_us 531000)⟩]

theorem isAckOf_late : IsAckOf .hpcc 0 unanswered_probe (ack_of .hpcc 0 unanswered_probe) :=
  isAckOf_ack_of (by decide +kernel)

theorem late_ack_ordered : Ordered late_ack := by
  refine ⟨?_, ?_⟩
  · intro r hr
    rcases List.mem_pair.mp hr with rfl | rfl
    · exact ⟨le_refl _, fun data now_us h => by cases h⟩
    · refine ⟨le_refl _, ?_⟩
      rintro data now_us h
      obtain ⟨-, rfl⟩ := Prod.mk.inj (Option.some.inj h)
      decide
  · refine List.pairwise_pair.mpr ⟨by decide, ?_⟩
    intro data now_us h
    cases h

theorem late_ack_answered : Answered .hpcc late_ack := by
  intro i r data now_us hr hreply
  rcases List.mem_pair.mp (List.mem_of_getElem? hr) with rfl | rfl
  · cases hreply
  · obtain ⟨rfl, -⟩ := Prod.mk.inj (Option.some.inj hreply)
    exact ⟨0, unanswered_probe, Nat.zero_le _, rfl, isAckOf_late⟩

/-- The two turns. -/
theorem late_ack_run :
    run (turn .hpcc 2) Probing.start (late_ack.take 1) = some ⟨1, [], false⟩ ∧
      run (turn .hpcc 2) Probing.start late_ack = some ⟨2, [1 / 100], false⟩ := by
  decide +kernel

/-- So a base RTT of 10 ms is measured where the only round trip took 530 ms. -/
theorem real_samples_fails :
    ¬ ∀ (m : Measurer) (n_probes : ℕ) (rounds : List Round), Ordered rounds →
      Answered m rounds → RealSamples m n_probes rounds := by
  intro h
  have hreal := h .hpcc 2 late_ack late_ack_ordered late_ack_answered
  obtain ⟨hfirst, hboth⟩ := late_ack_run
  have hturn : turn .hpcc 2 (late_ack.getD 1 unanswered_probe) ⟨1, [], false⟩
      = some ⟨2, [1 / 100], false⟩ := by
    decide +kernel
  obtain ⟨data, now_us, hreply, j, q, hq, hack, hx⟩ := hreal.appended (late_ack.take 1)
    (late_ack.getD 1 unanswered_probe) [] _ _ rfl hfirst hturn (1 / 100) rfl
  obtain ⟨rfl, rfl⟩ := Prod.mk.inj (Option.some.inj hreply)
  obtain rfl := hack.unique isAckOf_late
  obtain rfl := Option.some.inj hq
  norm_num [at_us, unanswered_probe] at hx

end IntHpcc.BaseRtt
