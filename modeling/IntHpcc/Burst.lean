/-
The burst loop, which holds the lock.

The loop goes on while fewer than `int(w)` packets are in flight. It is the callee that
puts a packet in flight, and the callee returns early when `sendto` fails, while
`next_seq` moves on all the same; so only the attempts that go through bring the loop
closer to its end. `burst_bounded_iff` says exactly when it is over within the number of
packets the window has room for.

In Python the other way out is the 32-bit field of the sequence number, whose overflow is
an exception. In C the number wraps, and a packet may be taken for one that is in flight
already, which is not counted: the number that marks an empty slot, and the numbers of
the round before.
-/
import IntHpcc.InflightTable
import IntHpcc.Network

set_option autoImplicit false

namespace IntHpcc.Burst

open IntHpcc.Runs IntHpcc.Bytes IntHpcc.Py IntHpcc.PacketFormat IntHpcc.SenderCore

/-! ## Python -/

section Python

open IntHpcc.SenderWindow IntHpcc.Network

variable {C : SenderClass} {cfg : C.Config} {mp : Option ℤ} {p : C.Proc}

/-- The events of a burst of `n` attempts: the lock is taken, and released again. -/
def burst (calls : ℕ → SendCall) (n : ℕ) : List Op :=
  .acquire :: (round_events calls .send n ++ [.release])

/-- The burst is over, and the lock released, after at most `b` attempts. -/
def BurstWithin (C : SenderClass) (cfg : C.Config) (mp : Option ℤ) (p : C.Proc)
    (calls : ℕ → SendCall) (b : ℕ) : Prop :=
  ∃ n ≤ b, (run (C.step cfg mp) p (burst calls n)).isSome

/-- `max(0, int(w) - len(in_flight))`. -/
def space (C : SenderClass) (st : C.Self) : ℕ := (py_int (C.w st.ctl) - st.flight).toNat

/-- The object after `n` attempts. -/
def attempted (C : SenderClass) (calls : ℕ → SendCall) (st : C.Self) : ℕ → C.Self :=
  rounds C.burst_iter calls st

/-- The loop goes on. -/
def goes_on (C : SenderClass) (mp : Option ℤ) (st : C.Self) : Prop :=
  C.burst_guard mp st = true ∧ C.buildable st = true

theorem run_burst_iff (hfree : p.bursting = false) (calls : ℕ → SendCall) (n : ℕ) :
    (run (C.step cfg mp) p (burst calls n)).isSome ↔
      Makes (fun m => goes_on C mp (attempted C calls p.self m)) n := by
  have hstep : ∀ call (q q' : C.Proc), C.step cfg mp (.send call) q = some q' ↔
      (q.bursting = true ∧ goes_on C mp q.self) ∧
        q' = { q with self := C.burst_iter q.self call } := by
    intro call q q'
    rw [step_send]
    rfl
  -- the threads do not change during the burst
  have hrounds : ∀ (q : C.Proc) m,
      rounds (fun q call => { q with self := C.burst_iter q.self call }) calls q m
        = { q with self := attempted C calls q.self m } := by
    intro q m
    induction m with
    | zero => rfl
    | succ m ih => rw [rounds, ih]; rfl
  have hacq : C.step cfg mp .acquire p = some { p with bursting := true } :=
    step_acquire.mpr ⟨hfree, rfl⟩
  have hloop := run_loop_isSome calls hstep .release hacq ?_ n
  · refine hloop.trans (iff_of_eq (congrArg (fun g => Makes g n) (funext fun m => ?_)))
    rw [hrounds]
    exact propext (and_iff_right rfl)
  · -- the lock is held in every round, so only the guard decides
    intro m
    rw [hrounds, Option.isSome_iff_exists]
    constructor
    · rintro ⟨p', hrel⟩ hgo
      exact (step_release.mp hrel).1.2 hgo.2
    · intro hend
      exact ⟨_, step_release.mpr ⟨⟨rfl, fun hgo => hend ⟨rfl, hgo⟩⟩, rfl⟩⟩

/-- An attempt that goes through puts one more packet in flight. -/
theorem burst_iter_flight {st : C.Self} (hb : Booked st) (call : SendCall) :
    (C.burst_iter st call).flight = st.flight + if call.sent then 1 else 0 := by
  cases call with
  | os_error b => rfl
  | ok b t l =>
      have hnew : st.in_flight.lookup st.next_seq = none :=
        AList.lookup_eq_none.mpr hb.next_notMem
      unfold SenderClass.burst_iter send_locked
      dsimp only
      rw [hnew]
      show (AList.insert _ _ st.in_flight).keys.length = _
      rw [AList.keys_insert, List.length_cons, List.erase_of_not_mem]
      · rfl
      · exact fun h => hb.next_notMem (AList.mem_keys.mpr h)

/-- What `n` attempts leave alone, and what they count up. -/
theorem attempted_spec {st : C.Self} (hb : Booked st) (calls : ℕ → SendCall) (n : ℕ) :
    Booked (attempted C calls st n) ∧ (attempted C calls st n).ctl = st.ctl ∧
      (attempted C calls st n).next_seq = st.next_seq + n := by
  induction n with
  | zero => exact ⟨hb, rfl, (Int.add_zero _).symm⟩
  | succ n ih =>
      obtain ⟨hbook, hctl, hnext⟩ := ih
      refine ⟨booked_burst_iter hbook _, ?_, ?_⟩
      · exact (send_locked_ctl C.snapshot _ _ (calls n)).trans hctl
      · rw [attempted, rounds, SenderWindow.burst_iter_next]
        change (attempted C calls st n).next_seq + 1 = _
        rw [hnext]
        push_cast
        ring

/-- **The burst of a Python sender** without a packet limit is over within the space the
window leaves exactly if that many calls go through, or the sequence numbers run out
first. -/
theorem burst_within_iff (hb : Booked p.self) (hfree : p.bursting = false)
    (calls : ℕ → SendCall) :
    BurstWithin C cfg none p calls (space C p.self) ↔
      (∀ i < space C p.self, (calls i).sent = true) ∨
        2 ^ 32 ≤ p.self.next_seq + space C p.self := by
  -- the window does not move during a burst, so the guard is about the flight alone
  have hgoes : ∀ n, goes_on C none (attempted C calls p.self n) ↔
      0 < py_int (C.w p.self.ctl) - (attempted C calls p.self n).flight ∧
        ¬ 2 ^ 32 ≤ p.self.next_seq + n := by
    intro n
    obtain ⟨-, hctl, hnext⟩ := attempted_spec hb calls n
    unfold goes_on SenderClass.burst_guard SenderClass.buildable
    rw [hctl, hnext]
    simp only [Option.all_none, Bool.and_true, decide_eq_true_eq]
    omega
  -- each call that goes through takes one place, and a failed one none
  have hroom : ∀ n, py_int (C.w p.self.ctl) - ((attempted C calls p.self (n + 1)).flight : ℤ)
      = py_int (C.w p.self.ctl) - (attempted C calls p.self n).flight
        - if (calls n).sent = true then 1 else 0 := by
    intro n
    have hflight := burst_iter_flight (attempted_spec hb calls n).1 (calls n)
    change (attempted C calls p.self (n + 1)).flight = _ at hflight
    rw [hflight]
    split
    · push_cast
      ring
    · push_cast
      ring
  have hbound := makes_within_iff hgoes hroom
  unfold BurstWithin
  simp only [run_burst_iff hfree]
  refine hbound.trans (or_congr_right ?_)
  constructor
  · -- the number that does not fit the header may come anywhere up to the last call
    rintro ⟨n, hn, hover⟩
    change n ≤ space C p.self at hn
    omega
  · intro hover
    exact ⟨_, le_refl _, hover⟩

end Python

/-! ## C -/

namespace C

open IntHpcc.CSender

variable {cfg : Config} {mp : ℤ} {p : CSender.Proc} {s : SenderState}

/-- The events of a burst of `n` attempts. -/
def burst (calls : ℕ → SendCall) (n : ℕ) : List CSender.Op :=
  .acquire :: (round_events calls .send n ++ [.release])

/-- The burst is over, and the lock released, after at most `b` attempts. -/
def BurstWithin (cfg : Config) (mp : ℤ) (p : CSender.Proc) (calls : ℕ → SendCall) (b : ℕ) : Prop :=
  ∃ n ≤ b, (run (CSender.step cfg mp) p (burst calls n)).isSome

/-- `max(0, (int)w - in_flight_count)`. -/
def space (s : SenderState) : ℕ := (py_int s.w - s.in_flight_count).toNat

/-- The state after `n` attempts. -/
def attempted (cfg : Config) (calls : ℕ → SendCall) (s : SenderState) : ℕ → SenderState :=
  rounds (burst_iter cfg) calls s

/-- The number of the `i`-th attempt. -/
def number (s : SenderState) (i : ℕ) : ℕ := (s.next_seq + i) % 2 ^ 32

/-- A packet of the number would be taken for one that is in flight. -/
def Taken (s : SenderState) (seq : ℕ) : Prop := (s.inflight (inflight_idx seq)).seq = seq

theorem run_burst_iff (hfree : p.w_int = none) (calls : ℕ → SendCall) (n : ℕ) :
    (run (CSender.step cfg mp) p (burst calls n)).isSome ↔
      Makes (fun m => burst_guard mp (py_int p.self.w) (attempted cfg calls p.self m) = true) n := by
  have hstep : ∀ call (q q' : CSender.Proc), CSender.step cfg mp (.send call) q = some q' ↔
      (∃ w, q.w_int = some w ∧ burst_guard mp w q.self = true) ∧
        q' = { q with self := burst_iter cfg q.self call } := by
    intro call q q'
    rw [step_send]
    constructor
    · rintro ⟨w, hw, hg, hq⟩
      exact ⟨⟨w, hw, hg⟩, hq⟩
    · rintro ⟨⟨w, hw, hg⟩, hq⟩
      exact ⟨w, hw, hg, hq⟩
  -- `w_int` does not change during the burst
  have hrounds : ∀ (q : CSender.Proc) m,
      rounds (fun q call => { q with self := burst_iter cfg q.self call }) calls q m
        = { q with self := attempted cfg calls q.self m } := by
    intro q m
    induction m with
    | zero => rfl
    | succ m ih => rw [rounds, ih]; rfl
  have hacq : CSender.step cfg mp .acquire p = some { p with w_int := some (py_int p.self.w) } :=
    step_acquire.mpr ⟨hfree, rfl⟩
  have hloop := run_loop_isSome calls hstep .release hacq ?_ n
  · refine hloop.trans (iff_of_eq (congrArg (fun g => Makes g n) (funext fun m => ?_)))
    rw [hrounds]
    refine propext ⟨?_, fun hgo => ⟨_, rfl, hgo⟩⟩
    rintro ⟨w, hw, hgo⟩
    rw [Option.some.inj hw]
    exact hgo
  · intro m
    rw [hrounds, Option.isSome_iff_exists]
    constructor
    · rintro ⟨p', hrel⟩ ⟨w, hw, hgo⟩
      obtain ⟨w', hw', hend, -⟩ := step_release.mp hrel
      obtain rfl := Option.some.inj (hw.symm.trans hw')
      exact hend hgo
    · intro hend
      exact ⟨_, step_release.mpr ⟨_, rfl, fun hgo => hend ⟨_, rfl, hgo⟩, rfl⟩⟩

/-- The attempt is counted: the call goes through, and the packet is not taken for one
that is in flight. -/
def Counted (s : SenderState) (call : SendCall) : Prop :=
  call.sent = true ∧ ¬ Taken s s.next_seq

instance (s : SenderState) (call : SendCall) : Decidable (Counted s call) :=
  inferInstanceAs (Decidable (_ ∧ ¬ (_ : ℕ) = _))

theorem burst_iter_count (cfg : CSender.Config) (s : SenderState) (call : SendCall) :
    (burst_iter cfg s call).in_flight_count
      = s.in_flight_count + if Counted s call then 1 else 0 := by
  rw [(burst_iter_books cfg s call).2.1]
  cases call with
  | os_error b =>
      rw [if_neg fun h => by cases h.1]
      exact (Int.add_zero _).symm
  | ok b t l =>
      rw [send_one_count]
      by_cases ht : (s.inflight (inflight_idx s.next_seq)).seq = s.next_seq
      · rw [if_pos ht, if_neg fun h => h.2 ht]
      · rw [if_neg ht, if_pos ⟨rfl, ht⟩]

theorem attempted_next (hlt : s.next_seq < 2 ^ 32) (calls : ℕ → SendCall) (n : ℕ) :
    (attempted cfg calls s n).next_seq = number s n := by
  induction n with
  | zero => exact (Nat.mod_eq_of_lt hlt).symm
  | succ n ih =>
      have hnext := (burst_iter_books cfg (attempted cfg calls s n) (calls n)).2.2.1
      change (attempted cfg calls s (n + 1)).next_seq = _ at hnext
      rw [hnext, ih, number, number]
      omega

/-- An attempt leaves every other slot alone. -/
theorem attempted_slot (hlt : s.next_seq < 2 ^ 32) (calls : ℕ → SendCall) (n : ℕ)
    {i : Fin INFLIGHT_MAX} (hi : i ≠ inflight_idx (number s n)) :
    (attempted cfg calls s (n + 1)).inflight i = (attempted cfg calls s n).inflight i := by
  have hslots := (burst_iter_books cfg (attempted cfg calls s n) (calls n)).1
  change (attempted cfg calls s (n + 1)).inflight = _ at hslots
  rw [hslots]
  apply send_one_slot_of_ne
  rwa [attempted_next hlt]

/-- Numbers less than a table apart go to different slots. -/
theorem inflight_idx_number_ne {m n : ℕ} (hmn : m < n) (hclose : n < m + INFLIGHT_MAX) :
    inflight_idx (number s m) ≠ inflight_idx (number s n) := by
  intro heq
  have hmod : number s m % 4096 = number s n % 4096 := Fin.ext_iff.mp heq
  simp only [number, INFLIGHT_MAX] at hmod hclose
  omega

/-- The slot of the `n`-th number, before its attempt: as at the start for the first table
of numbers, and then as the table before has left it. -/
theorem taken_attempted (hlt : s.next_seq < 2 ^ 32) {calls : ℕ → SendCall} {n : ℕ}
    (hsent : ∀ m < n, (calls m).sent = true) :
    Taken (attempted cfg calls s n) (number s n) ↔ n < INFLIGHT_MAX ∧ Taken s (number s n) := by
  by_cases hn : n < INFLIGHT_MAX
  · have hsame : ∀ m ≤ n, (attempted cfg calls s m).inflight (inflight_idx (number s n))
        = s.inflight (inflight_idx (number s n)) := by
      intro m hm
      induction m with
      | zero => rfl
      | succ m ih =>
          have hne : inflight_idx (number s n) ≠ inflight_idx (number s m) :=
            (inflight_idx_number_ne (by omega) (by omega)).symm
          rw [attempted_slot hlt calls m hne, ih (by omega)]
    unfold Taken
    rw [hsame n (le_refl n), and_iff_right hn]
  · refine iff_of_false ?_ fun h => hn h.1
    -- the slot holds the number a whole table before
    obtain ⟨m, rfl⟩ : ∃ m, n = m + INFLIGHT_MAX := ⟨n - INFLIGHT_MAX, by omega⟩
    have hidx : inflight_idx (number s (m + INFLIGHT_MAX)) = inflight_idx (number s m) := by
      apply Fin.ext
      show number s (m + 4096) % 4096 = number s m % 4096
      simp only [number]
      omega
    have hholds : ∀ d < INFLIGHT_MAX,
        ((attempted cfg calls s (m + 1 + d)).inflight (inflight_idx (number s m))).seq
          = number s m := by
      intro d hd
      induction d with
      | zero =>
          have hcall : (calls m).sent = true := hsent m (by omega)
          obtain ⟨b, t, l, hc⟩ : ∃ b t l, calls m = .ok b t l := by
            cases hc : calls m with
            | ok b t l => exact ⟨b, t, l, rfl⟩
            | os_error b =>
                rw [hc] at hcall
                cases hcall
          have hself : ((burst_iter cfg (attempted cfg calls s m) (.ok b t l)).inflight
              (inflight_idx (attempted cfg calls s m).next_seq)).seq
                = (attempted cfg calls s m).next_seq := burst_iter_slot_self
          rw [← hc, attempted_next hlt] at hself
          exact hself
      | succ d ih =>
          have hne : inflight_idx (number s m) ≠ inflight_idx (number s (m + 1 + d)) :=
            inflight_idx_number_ne (by omega) (by omega)
          rw [← add_assoc, attempted_slot hlt calls _ hne, ih (by omega)]
    have hlast := hholds (INFLIGHT_MAX - 1) (by decide)
    rw [show m + 1 + (INFLIGHT_MAX - 1) = m + INFLIGHT_MAX by simp [INFLIGHT_MAX]] at hlast
    unfold Taken
    rw [hidx, hlast]
    simp only [number, INFLIGHT_MAX]
    omega

/-- Every attempt is counted exactly if every call goes through and no number of the first
table is taken at the start. -/
theorem counted_iff (hlt : s.next_seq < 2 ^ 32) (calls : ℕ → SendCall) (b : ℕ) :
    (∀ n < b, Counted (attempted cfg calls s n) (calls n)) ↔
      ∀ n < b, (calls n).sent = true ∧ ¬ (n < INFLIGHT_MAX ∧ Taken s (number s n)) := by
  constructor
  · intro h n hn
    refine ⟨(h n hn).1, fun ht => (h n hn).2 ?_⟩
    rw [attempted_next hlt]
    exact (taken_attempted hlt fun m hm => (h m (lt_trans hm hn)).1).mpr ht
  · intro h n hn
    refine ⟨(h n hn).1, fun ht => (h n hn).2 ?_⟩
    rw [attempted_next hlt] at ht
    exact (taken_attempted hlt fun m hm => (h m (lt_trans hm hn)).1).mp ht

/-- **The burst of the C sender** without a packet limit is over within the space the
window leaves exactly if that many calls go through and none of their numbers is taken. -/
theorem burst_within_iff (hmp : mp < 0) (hlt : p.self.next_seq < 2 ^ 32) (hfree : p.w_int = none)
    (calls : ℕ → SendCall) :
    BurstWithin cfg mp p calls (space p.self) ↔ ∀ i < space p.self,
      (calls i).sent = true ∧ ¬ (i < INFLIGHT_MAX ∧ Taken p.self (number p.self i)) := by
  have hgoes : ∀ n, burst_guard mp (py_int p.self.w) (attempted cfg calls p.self n) = true ↔
      0 < py_int p.self.w - (attempted cfg calls p.self n).in_flight_count ∧ ¬ False := by
    intro n
    unfold burst_guard
    rw [decide_eq_true hmp, Bool.true_or, Bool.and_true, decide_eq_true_eq, and_iff_left not_false,
      sub_pos]
  have hroom : ∀ n, py_int p.self.w - (attempted cfg calls p.self (n + 1)).in_flight_count
      = py_int p.self.w - (attempted cfg calls p.self n).in_flight_count
        - if Counted (attempted cfg calls p.self n) (calls n) then 1 else 0 := by
    intro n
    have hcount := burst_iter_count cfg (attempted cfg calls p.self n) (calls n)
    change (attempted cfg calls p.self (n + 1)).in_flight_count = _ at hcount
    rw [hcount]
    ring
  have hbound := makes_within_iff hgoes hroom
  simp only [and_false, exists_false, or_false] at hbound
  unfold BurstWithin
  simp only [run_burst_iff hfree]
  exact hbound.trans (counted_iff hlt calls _)

/-- If every call fails the burst is never over. -/
theorem burst_hangs (hmp : mp < 0) (hfree : p.w_int = none)
    (hroom : p.self.in_flight_count < py_int p.self.w) {calls : ℕ → SendCall}
    (hfail : ∀ i, (calls i).sent = false) (n : ℕ) :
    ¬ (run (CSender.step cfg mp) p (burst calls n)).isSome := by
  -- a failed send takes no place in the window
  have hcount : ∀ m,
      (attempted cfg calls p.self m).in_flight_count = p.self.in_flight_count := by
    intro m
    induction m with
    | zero => rfl
    | succ m ih =>
        have hstep := burst_iter_count cfg (attempted cfg calls p.self m) (calls m)
        have hnot : ¬ Counted (attempted cfg calls p.self m) (calls m) := by
          rintro ⟨hsent, -⟩
          rw [hfail m] at hsent
          cases hsent
        rw [if_neg hnot, add_zero] at hstep
        exact hstep.trans ih
  rw [run_burst_iff hfree]
  rintro ⟨-, hend⟩
  apply hend
  unfold burst_guard
  rw [hcount, decide_eq_true hroom, decide_eq_true hmp]
  rfl

end C

/-! ## Both senders -/

section

open IntHpcc.SenderWindow IntHpcc.Network

/-- **The burst is bounded exactly when the calls go through.** In every reachable state of
the Python senders and of the C sender without a packet limit, for every sequence of
outcomes: the burst is over within the number of packets the window has room for if and
only if that many calls go through; or, in Python, the sequence numbers run out first; and,
in C, none of their numbers is taken for a packet in flight. -/
theorem burst_bounded_iff (k : SenderKind) (cfg : k.cls.Config) (monotonic : ℚ)
    (c_cfg : CSender.Config) (c_mp : ℤ) (hmp : c_mp < 0) (now_mono : Us) (calls : ℕ → SendCall) :
    (∀ (ops : List Op) (p : k.cls.Proc),
      run (k.cls.step cfg none) (k.cls.start cfg monotonic) ops = some p → p.bursting = false →
        (BurstWithin k.cls cfg none p calls (space k.cls p.self) ↔
          (∀ i < space k.cls p.self, (calls i).sent = true) ∨
            2 ^ 32 ≤ p.self.next_seq + space k.cls p.self)) ∧
    (∀ (ops : List CSender.Op) (p : CSender.Proc),
      run (CSender.step c_cfg c_mp) (CSender.start c_cfg now_mono) ops = some p →
        p.w_int = none →
        (C.BurstWithin c_cfg c_mp p calls (C.space p.self) ↔
          ∀ i < C.space p.self, (calls i).sent = true ∧
            ¬ (i < CSender.INFLIGHT_MAX ∧ C.Taken p.self (C.number p.self i)))) := by
  constructor
  · intro ops p hrun hfree
    have hb : Booked p.self := run_invariant (P := fun q : k.cls.Proc => Booked q.self)
      (fun _ _ _ h hstep => booked_step h hstep) (booked_start monotonic) hrun
    exact burst_within_iff hb hfree calls
  · intro ops p hrun hfree
    exact C.burst_within_iff hmp ((CSender.words_run hrun).next_lt) hfree calls

/-- The first four packets of a `DctcpSender` and the first eight of the C sender. -/
theorem burst_bounded_first :
    BurstWithin Dctcp.cls (Dctcp.defaults (1 / 200)) none
        (Dctcp.cls.start (Dctcp.defaults (1 / 200)) 0) (fun _ => sent_at_zero) 4 ∧
      C.BurstWithin CSender.table_config (-1) (CSender.start CSender.table_config 0)
        (fun _ => sent_at_zero) 8 := by
  obtain ⟨hpython, hc⟩ := burst_bounded_iff .dctcp (Dctcp.defaults (1 / 200)) 0
    CSender.table_config (-1) (by norm_num) 0 fun _ => sent_at_zero
  constructor
  · exact (hpython [] _ rfl rfl).mpr (Or.inl fun _ _ => rfl)
  · refine (hc [] _ rfl rfl).mpr fun i hi => ⟨rfl, fun ht => ?_⟩
    have hempty : CSender.EMPTY = (0 + i) % 2 ^ 32 := ht.2
    change i < 8 at hi
    simp only [CSender.EMPTY] at hempty
    omega

/-- With every call failing neither burst is over in time: the first of each sender. -/
theorem burst_bounded_fails :
    (¬ ∀ (k : SenderKind) (cfg : k.cls.Config) (monotonic : ℚ) (ops : List Op) (p : k.cls.Proc)
      (calls : ℕ → SendCall),
      run (k.cls.step cfg none) (k.cls.start cfg monotonic) ops = some p → p.bursting = false →
        BurstWithin k.cls cfg none p calls (space k.cls p.self)) ∧
    ¬ ∀ (cfg : CSender.Config) (mp : ℤ) (now_mono : Us) (ops : List CSender.Op)
      (p : CSender.Proc) (calls : ℕ → SendCall), mp < 0 →
      run (CSender.step cfg mp) (CSender.start cfg now_mono) ops = some p → p.w_int = none →
        C.BurstWithin cfg mp p calls (C.space p.self) := by
  constructor
  · intro h
    have hburst := h .dctcp (Dctcp.defaults (1 / 200)) 0 [] _ (fun _ => .os_error 0) rfl rfl
    rcases (burst_within_iff (booked_start 0) rfl _).mp hburst with hsent | hover
    · have hfirst := hsent 0 (by decide)
      cases hfirst
    · exact absurd hover (by decide)
  · intro h
    obtain ⟨n, -, hburst⟩ := h CSender.table_config (-1) 0 [] _ (fun _ => .os_error 0)
      (by norm_num) rfl rfl
    exact C.burst_hangs (by norm_num) rfl (by decide) (fun _ => rfl) n hburst

end

end IntHpcc.Burst
