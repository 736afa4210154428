/-
The hop table of the C sender over whole sequences of calls.

`compute_u` looks every hop with a link speed up and writes its counters into the slot it
gets (`compute_u_calls`). As long as no more than `HOP_TABLE_SZ` ports are seen, the table is
a finite map: a port has a slot from its first call on, and the slot holds what the last call
wrote (`agrees_run`). Without that bound the table still never mixes ports up
(`filed_run`); it is only that a port that comes when all slots are taken gets none.
-/
import IntHpcc.CHopTable
import IntHpcc.Mealy

set_option autoImplicit false

namespace IntHpcc.CSender

open IntHpcc.LinearProbe IntHpcc.Mealy

/-! ## The calls -/

/-- The hops `compute_u` looks up. -/
def calls (hs : List IntHopHost) : List IntHopHost := hs.filter fun h => h.link_bps ≠ 0

/-- The table after a sequence of calls. -/
def after_calls (hops : HopTable) (cs : List IntHopHost) : HopTable := cs.foldl touch hops

variable {hops : HopTable} {cs : List IntHopHost} {c : IntHopHost}

theorem after_calls_snoc (hops : HopTable) (cs : List IntHopHost) (c : IntHopHost) :
    after_calls hops (cs ++ [c]) = touch (after_calls hops cs) c := by
  unfold after_calls
  rw [List.foldl_append]
  rfl

/-- `compute_u` touches the table with its calls, one after the other. -/
theorem compute_u_calls (base_rtt_s : ℚ) (hs : List IntHopHost) (hops : HopTable) (u_max : ℚ) :
    (compute_u base_rtt_s hs hops u_max).1 = after_calls hops (calls hs) := by
  induction hs generalizing hops u_max with
  | nil => rfl
  | cons h hs ih =>
      rw [compute_u]
      by_cases hl : h.link_bps = 0
      · rw [if_pos hl, ih, calls, calls, List.filter_cons_of_neg (by simpa using hl)]
      · have hcalls : calls (h :: hs) = h :: calls hs :=
          List.filter_cons_of_pos (by simpa using hl)
        have hnext : after_calls hops (calls (h :: hs)) = after_calls (touch hops h) (calls hs) := by
          rw [hcalls]
          rfl
        rw [if_neg hl, hnext, touch]
        -- whichever way a hop goes, the table is the same
        cases hop_lookup hops h.switch_id h.egress_port true with
        | mk hops' slot =>
            cases slot with
            | none => exact ih _ _
            | some i =>
                dsimp only
                split
                · exact ih _ _
                · split
                  · exact ih _ _
                  · split
                    · exact ih _ _
                    · exact ih _ _

/-! ## Any number of ports -/

/-- Every port that has a slot has been called, and is found where it is. -/
structure Filed (hops : HopTable) (cs : List IntHopHost) : Prop where
  findable : Findable home (occ hops)
  keys : KeysIn hops (cs.map pair).toFinset

theorem filed_start (h : ∀ i, (hops i).valid = false) : Filed hops [] := by
  have hocc : occ hops = fun _ => none := by
    funext i
    exact occ_eq_none.mpr (h i)
  refine ⟨by rw [hocc]; exact findable_empty, ?_⟩
  intro i key hi
  rw [hocc] at hi
  cases hi

theorem Filed.touch (h : Filed hops cs) (c : IntHopHost) : Filed (touch hops c) (cs ++ [c]) := by
  have hsub : KeysIn hops ((cs ++ [c]).map pair).toFinset := by
    intro i key hi
    have hmem := List.mem_toFinset.mp (h.keys i key hi)
    rw [List.mem_toFinset, List.map_append]
    exact List.mem_append_left _ hmem
  refine ⟨?_, hsub.touch (by simp)⟩
  rcases touch_cases hops c with ⟨-, -, htouch⟩ | ⟨i, hi, -, htouch⟩
  · rw [htouch]
    exact h.findable
  · rw [htouch, occ_primed]
    rcases probe_stops hi with hfree | huse
    · exact h.findable.insert hi hfree
    · have hsame : Function.update (occ hops) i (some (c.switch_id, c.egress_port)) = occ hops := by
        rw [show (c.switch_id, c.egress_port) = pair c from rfl, ← huse, Function.update_eq_self]
      rw [hsame]
      exact h.findable

theorem filed_run (h : ∀ i, (hops i).valid = false) (cs : List IntHopHost) :
    Filed (after_calls hops cs) cs := by
  induction cs using List.reverseRecOn with
  | nil => exact filed_start h
  | append_singleton cs c ih =>
      rw [after_calls_snoc]
      exact ih.touch c

/-- The slot of another port is not written. -/
theorem touch_other {j : Fin HOP_TABLE_SZ} {key : ℕ × ℕ} (hj : occ hops j = some key)
    (hne : key ≠ pair c) :
    (hop_lookup hops c.switch_id c.egress_port true).1 j = hops j ∧ touch hops c j = hops j := by
  rcases touch_cases hops c with ⟨-, hlook, htouch⟩ | ⟨i, hi, hlook, htouch⟩
  · rw [hlook, htouch]
    exact ⟨rfl, rfl⟩
  · -- the search has stopped at another slot
    have hji : j ≠ i := by
      rintro rfl
      rcases probe_stops hi with hfree | huse
      · rw [hfree] at hj
        cases hj
      · rw [huse, Option.some.injEq] at hj
        exact hne hj.symm
    rw [hlook, htouch]
    refine ⟨?_, Function.update_of_ne hji _ _⟩
    unfold claim
    split
    · rfl
    · exact Function.update_of_ne hji _ _

/-- A table without a free slot has none for a new port. -/
theorem touch_full (h : Filed hops cs) (hfull : ∀ i, (hops i).valid = true)
    (hnew : pair c ∉ cs.map pair) :
    hop_lookup hops c.switch_id c.egress_port true = (hops, none) ∧ touch hops c = hops := by
  have hothers : ∀ j, ∃ key, occ hops j = some key ∧ key ≠ pair c := by
    intro j
    have hj : occ hops j = some ((hops j).switch_id, (hops j).egress_port) := if_pos (hfull j)
    refine ⟨_, hj, ?_⟩
    intro heq
    rw [heq] at hj
    exact hnew (List.mem_toFinset.mp (h.keys j _ hj))
  rcases touch_cases hops c with ⟨-, hlook, htouch⟩ | ⟨i, hi, -, -⟩
  · exact ⟨hlook, htouch⟩
  · rw [probe_eq_none_of_full hothers] at hi
    cases hi

/-! ## No more ports than slots -/

/-- The last call of a port. -/
def last_call (key : ℕ × ℕ) (cs : List IntHopHost) : Option IntHopHost :=
  (cs.filter fun h => pair h = key).getLast?

theorem last_call_eq_none {key : ℕ × ℕ} : last_call key cs = none ↔ key ∉ cs.map pair := by
  unfold last_call
  rw [List.getLast?_eq_none_iff, List.filter_eq_nil_iff, List.mem_map]
  simp

/-- The dict after the calls. -/
def call_dict (cs : List IntHopHost) : Hpcc.HopLast :=
  cs.foldl (fun d c => Function.update d (dict_key (pair c))
    (some (c.egress_tstamp_us, c.tx_byte_count))) fun _ => none

theorem call_dict_snoc (cs : List IntHopHost) (c : IntHopHost) :
    call_dict (cs ++ [c]) = Function.update (call_dict cs) (dict_key (pair c))
      (some (c.egress_tstamp_us, c.tx_byte_count)) := by
  unfold call_dict
  rw [List.foldl_append]
  rfl

/-- It holds the counters of the last call. -/
theorem call_dict_eq (cs : List IntHopHost) (key : ℕ × ℕ) :
    call_dict cs (dict_key key)
      = (last_call key cs).map fun h => ((h.egress_tstamp_us : ℤ), (h.tx_byte_count : ℤ)) := by
  have hwrite : ∀ (d : Hpcc.HopLast) (c : IntHopHost), pair c = key →
      Function.update d (dict_key (pair c)) (some ((c.egress_tstamp_us : ℤ), (c.tx_byte_count : ℤ)))
        (dict_key key) = some ((c.egress_tstamp_us : ℤ), (c.tx_byte_count : ℤ)) := by
    intro d c hc
    rw [← hc, Function.update_self]
  have hkeep : ∀ (d : Hpcc.HopLast) (c : IntHopHost), ¬ pair c = key →
      Function.update d (dict_key (pair c)) (some ((c.egress_tstamp_us : ℤ), (c.tx_byte_count : ℤ)))
        (dict_key key) = d (dict_key key) := fun d c hc =>
    Function.update_of_ne (fun heq => hc (dict_key_injective heq).symm) _ _
  refine (foldl_last_write (fun d : Hpcc.HopLast => d (dict_key key))
    (fun c => some ((c.egress_tstamp_us : ℤ), (c.tx_byte_count : ℤ))) hwrite hkeep _ cs).trans ?_
  unfold last_call
  cases (cs.filter fun h => pair h = key).getLast? with
  | none => rfl
  | some h => rfl

/-- The table is that dict. -/
theorem agrees_run {K : Finset (ℕ × ℕ)} (hK : K.card ≤ HOP_TABLE_SZ)
    (hempty : ∀ i, (hops i).valid = false) {cs : List IntHopHost} (hin : ∀ c ∈ cs, pair c ∈ K) :
    Agrees (after_calls hops cs) (call_dict cs) ∧ KeysIn (after_calls hops cs) K := by
  induction cs using List.reverseRecOn with
  | nil =>
      refine ⟨agrees_start hops hempty, ?_⟩
      intro i key hi
      have hvalid := (occ_eq_some.mp hi).1
      rw [show after_calls hops [] = hops from rfl, hempty i] at hvalid
      cases hvalid
  | append_singleton cs c ih =>
      obtain ⟨hag, hkeys⟩ := ih fun c' hc' => hin c' (List.mem_append_left _ hc')
      have hmem : pair c ∈ K := hin c (by simp)
      obtain ⟨i, hi⟩ := hag.findable.probe_isSome hK hkeys hmem
      rw [after_calls_snoc, call_dict_snoc]
      exact ⟨hag.touch hi, hkeys.touch hmem⟩

/-- What a look-up returns: a slot that is the port's own, in use exactly if the port has been
called, with the counters of its last call. -/
structure Returns (hops : HopTable) (cs : List IntHopHost) (c : IntHopHost)
    (i : Fin HOP_TABLE_SZ) : Prop where
  valid_iff : (hops i).valid = true ↔ pair c ∈ cs.map pair
  switch_id : (hops i).switch_id = c.switch_id
  egress_port : (hops i).egress_port = c.egress_port
  last : ∀ h, last_call (pair c) cs = some h →
    (hops i).last_tstamp_us = h.egress_tstamp_us ∧ (hops i).last_tx_bytes = h.tx_byte_count

theorem returns_of_agrees {i : Fin HOP_TABLE_SZ} (hag : Agrees hops (call_dict cs))
    (hi : probe (occ hops) (pair c) (home (pair c)) HOP_TABLE_SZ = some i) :
    Returns (claim hops c.switch_id c.egress_port i) cs c i := by
  have hdict := hag.last_of_probe hi
  rw [show (c.switch_id, c.egress_port) = pair c from rfl, call_dict_eq] at hdict
  rcases probe_stops hi with hfree | huse
  · -- a free slot: the port is new
    have hv := occ_eq_none.mp hfree
    rw [hv, if_neg Bool.false_ne_true, Option.map_eq_none_iff] at hdict
    have hclaim : claim hops c.switch_id c.egress_port i i = { hops i with
        switch_id := c.switch_id
        egress_port := c.egress_port
        valid := false } := by
      rw [claim, if_neg (by simp [hv]), Function.update_self]
    refine ⟨?_, ?_, ?_, ?_⟩
    · rw [hclaim]
      exact iff_of_false Bool.false_ne_true (last_call_eq_none.mp hdict)
    · rw [hclaim]
    · rw [hclaim]
    · intro h hlast
      rw [hdict] at hlast
      cases hlast
  · -- the port's slot
    obtain ⟨hv, hswid, hport⟩ := occ_eq_some.mp huse
    have hclaim : claim hops c.switch_id c.egress_port i = hops := if_pos hv
    rw [hv, if_pos rfl] at hdict
    rw [hclaim]
    refine ⟨iff_of_true hv ?_, hswid, hport, ?_⟩
    · by_contra hnot
      rw [last_call_eq_none.mpr hnot] at hdict
      cases hdict
    · intro h hlast
      rw [hlast, Option.map_some, Option.some.injEq, Prod.mk.injEq, Nat.cast_inj,
        Nat.cast_inj] at hdict
      exact ⟨hdict.1.symm, hdict.2.symm⟩

/-- **The hop table is a finite map.** For every sequence of calls `compute_u` makes, from a
table without a valid slot. If no more ports occur in it than there are slots: each look-up
returns a slot, valid exactly if the port has been called before, and with what its last call
wrote. However many ports there are: no call changes the slot of another port; no port has two
slots; and when the table is full a new port gets none and the table stays as it is. -/
theorem hop_table_map {hops : HopTable} (hempty : ∀ i, (hops i).valid = false) :
    (∀ (base_rtt_s : ℚ) (hs : List IntHopHost) (hops : HopTable) (u_max : ℚ),
      (compute_u base_rtt_s hs hops u_max).1 = after_calls hops (calls hs)) ∧
    (∀ cs : List IntHopHost, (cs.map pair).toFinset.card ≤ HOP_TABLE_SZ →
      ∀ pre c post, cs = pre ++ c :: post → ∃ hops' i,
        hop_lookup (after_calls hops pre) c.switch_id c.egress_port true = (hops', some i) ∧
          Returns hops' pre c i) ∧
    (∀ (cs : List IntHopHost) (c : IntHopHost) (j : Fin HOP_TABLE_SZ) (key : ℕ × ℕ),
      occ (after_calls hops cs) j = some key → key ≠ pair c →
        (hop_lookup (after_calls hops cs) c.switch_id c.egress_port true).1 j
            = after_calls hops cs j ∧
          after_calls hops (cs ++ [c]) j = after_calls hops cs j) ∧
    (∀ (cs : List IntHopHost) (i j : Fin HOP_TABLE_SZ) (key : ℕ × ℕ),
      occ (after_calls hops cs) i = some key → occ (after_calls hops cs) j = some key → i = j) ∧
    ∀ (cs : List IntHopHost) (c : IntHopHost), (∀ i, (after_calls hops cs i).valid = true) →
      pair c ∉ cs.map pair →
        hop_lookup (after_calls hops cs) c.switch_id c.egress_port true
            = (after_calls hops cs, none) ∧
          after_calls hops (cs ++ [c]) = after_calls hops cs := by
  refine ⟨compute_u_calls, ?_, ?_, ?_, ?_⟩
  · rintro cs hcard pre c post rfl
    -- the keys of the whole sequence bound what the table has to hold at any point
    have hin : ∀ h ∈ pre ++ c :: post, pair h ∈ ((pre ++ c :: post).map pair).toFinset := by
      intro h hmem
      exact List.mem_toFinset.mpr (List.mem_map_of_mem hmem)
    have hpre : ∀ h ∈ pre, pair h ∈ ((pre ++ c :: post).map pair).toFinset := fun h hmem =>
      hin h (List.mem_append_left _ hmem)
    obtain ⟨hag, hkeys⟩ := agrees_run hcard hempty hpre
    -- with no more keys than slots the probe meets the key or a free slot
    obtain ⟨i, hi⟩ := hag.findable.probe_isSome hcard hkeys (hin c (by simp))
    refine ⟨_, i, ?_, returns_of_agrees hag hi⟩
    rw [hop_lookup_eq, hi]
    rfl
  · intro cs c j key hj hne
    rw [after_calls_snoc]
    exact touch_other hj hne
  · intro cs i j key hi hj
    exact (filed_run hempty cs).findable.unique hi hj
  · intro cs c hfull hnew
    rw [after_calls_snoc]
    exact touch_full (filed_run hempty cs) hfull hnew

/-! ## Two ports with one hash, and a table that fills up -/

/-- A call for a port, with its counters. -/
def call (switch_id egress_port tstamp_us tx_bytes : ℕ) : IntHopHost where
  switch_id := switch_id
  ingress_port := 1
  egress_port := egress_port
  qdepth := 3
  egress_tstamp_us := tstamp_us
  tx_byte_count := tx_bytes
  link_bps := 10000000

/-- A table without a valid slot. -/
def no_hops : HopTable := fun _ =>
  { switch_id := 0
    egress_port := 0
    valid := false
    last_tstamp_us := 0
    last_tx_bytes := 0 }

/-- The first `n` ports of switch 0. -/
def fill (n : ℕ) : List IntHopHost := (List.range n).map fun p => call 0 p 1000 64

theorem fill_valid {n : ℕ} (hn : n ≤ HOP_TABLE_SZ) (i : Fin HOP_TABLE_SZ) :
    (after_calls no_hops (fill n) i).valid = decide (i.val < n) := by
  induction n generalizing i with
  | zero => rfl
  | succ n ih =>
      have hsnoc : fill (n + 1) = fill n ++ [call 0 n 1000 64] := by
        unfold fill
        rw [List.range_succ, List.map_append, List.map_singleton]
      -- port n of switch 0 hashes to slot n: no collision
      have hhome : (home (pair (call 0 n 1000 64))).val = n := by
        show (0 * 31 + n) % HOP_TABLE_SZ = n
        rw [Nat.zero_mul, Nat.zero_add, Nat.mod_eq_of_lt hn]
      have hfree : occ (after_calls no_hops (fill n)) (home (pair (call 0 n 1000 64))) = none := by
        rw [occ_eq_none, ih (Nat.le_of_succ_le hn), hhome]
        exact decide_eq_false (lt_irrefl n)
      rw [hsnoc, after_calls_snoc, touch_of_probe (probe_of_empty hfree)]
      by_cases hi : i = home (pair (call 0 n 1000 64))
      · rw [hi, Function.update_self, hhome]
        exact (decide_eq_true (Nat.lt_succ_self n)).symm
      · have hne : i.val ≠ n := fun heq => hi (Fin.ext (heq.trans hhome.symm))
        rw [Function.update_of_ne hi, ih (Nat.le_of_succ_le hn)]
        exact decide_eq_decide.mpr (by omega)

/-- Port 0 of switch 1 and port 31 of switch 0 start at the same slot, and both are found with
what they wrote; the 257th port finds no slot. -/
theorem hop_table_map_one_hash :
    home (1, 0) = home (0, 31) ∧
    (∃ hops' i, hop_lookup (after_calls no_hops [call 1 0 10 100, call 0 31 20 200]) 1 0 true
        = (hops', some i) ∧ (hops' i).valid = true ∧ (hops' i).last_tstamp_us = 10) ∧
    hop_lookup (after_calls no_hops (fill HOP_TABLE_SZ)) 1 0 true
      = (after_calls no_hops (fill HOP_TABLE_SZ), none) := by
  have hempty : ∀ i, (no_hops i).valid = false := fun _ => rfl
  obtain ⟨-, hfinds, -, -, hfull⟩ := hop_table_map hempty
  refine ⟨by decide, ?_, ?_⟩
  · obtain ⟨hops', i, hlook, hret⟩ := hfinds
      [call 1 0 10 100, call 0 31 20 200, call 1 0 30 300] (by decide)
      [call 1 0 10 100, call 0 31 20 200] (call 1 0 30 300) [] rfl
    refine ⟨hops', i, hlook, hret.valid_iff.mpr (by decide), ?_⟩
    exact (hret.last (call 1 0 10 100) rfl).1
  · refine (hfull (fill HOP_TABLE_SZ) (call 1 0 10 100) ?_ ?_).1
    · intro i
      rw [fill_valid (le_refl _)]
      exact decide_eq_true i.isLt
    · -- all ports so far are of switch 0
      intro hmem
      obtain ⟨h, hh, heq⟩ := List.mem_map.mp hmem
      obtain ⟨p, -, rfl⟩ := List.mem_map.mp hh
      have hswid : (0 : ℕ) = 1 := congrArg Prod.fst heq
      cases hswid

end IntHpcc.CSender
