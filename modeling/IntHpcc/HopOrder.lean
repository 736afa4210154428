/-
The order of the hops does not matter.

The switches push their hops to the front of the stack, and a comment in `hpcc.p4` says
that the sender's maximum makes the order irrelevant. The loop of `_compute_u` does more
than take a maximum, though: it reads `hop_last` at each hop's port and overwrites it. Two
rounds of the loop commute as long as they are about different ports, whatever branches
they take, and then so do all of them (`compute_u_perm`).
-/
import IntHpcc.Hpcc
import Mathlib.Data.List.Nodup
import Mathlib.Data.List.Perm.Basic

set_option autoImplicit false

namespace IntHpcc.HopOrder

/-! ## Filing

A loop over a list that looks up each element's key in a map, files a record of the element
there, and takes what it found into an accumulator. Elements without a key are skipped. -/

section Filing

variable {A K V M : Type*} [DecidableEq K] (key : A → Option K) (entry : A → V)
  (take : A → Option V → M → M)

/-- One round. -/
def file (q : (K → Option V) × M) (x : A) : (K → Option V) × M :=
  match key x with
  | none => q
  | some k => (Function.update q.1 k (some (entry x)), take x (q.1 k) q.2)

variable {key entry take}

theorem file_none {x : A} (h : key x = none) (q : (K → Option V) × M) :
    file key entry take q x = q := by
  rw [file, h]

theorem file_some {x : A} {k : K} (h : key x = some k) (q : (K → Option V) × M) :
    file key entry take q x = (Function.update q.1 k (some (entry x)), take x (q.1 k) q.2) := by
  rw [file, h]

variable (htake : ∀ x v y w m, take x v (take y w m) = take y w (take x v m))

include htake

/-- Two rounds with different keys can change places. -/
theorem file_comm {x y : A} (h : ∀ k, key x = some k → key y ≠ some k)
    (q : (K → Option V) × M) :
    file key entry take (file key entry take q x) y
      = file key entry take (file key entry take q y) x := by
  cases hx : key x with
  | none => rw [file_none hx, file_none hx]
  | some k =>
      cases hy : key y with
      | none => rw [file_none hy, file_none hy]
      | some k' =>
          have hne : k' ≠ k := by
            rintro rfl
            exact h k' hx hy
          -- neither round reads what the other has written
          rw [file_some hx, file_some hy, file_some hy, file_some hx, Prod.mk.injEq]
          dsimp only
          rw [Function.update_of_ne hne, Function.update_of_ne hne.symm, htake]
          exact ⟨Function.update_comm hne.symm _ _ _, rfl⟩

/-- **Filing in any order**: if no key occurs twice, the outcome does not depend on the
order. -/
theorem foldl_file_perm {l l' : List A} (h : l.Perm l') (hnd : (l.filterMap key).Nodup)
    (q : (K → Option V) × M) :
    l.foldl (file key entry take) q = l'.foldl (file key entry take) q := by
  have hpair : l.Pairwise fun x y => ∀ k, key x = some k → key y ≠ some k := by
    refine (List.pairwise_filterMap.mp hnd).imp ?_
    intro x y hxy k hx hy
    exact hxy k hx k hy rfl
  have hsymm : Std.Symm fun x y => ∀ k, key x = some k → key y ≠ some k :=
    ⟨fun x y hxy k hy hx => hxy k hx hy⟩
  refine h.foldl_eq' (fun x hx y hy z => ?_) q
  by_cases hxy : x = y
  · rw [hxy]
  · exact file_comm htake (hpair.forall hx hy hxy) z

end Filing

/-! ## The hops -/

open IntHpcc.Py IntHpcc.PacketFormat IntHpcc.Hpcc

/-- The port of a hop that counts. -/
def port (hop : IntHop) : Option (ℤ × ℤ) := if hop.link_bps = 0 then none else some (hop_key hop)

/-- `u_max` after a hop whose port had the record `last`. -/
def raise (base_rtt_s : ℚ) (hop : IntHop) (last : Option (ℤ × ℤ)) (u_max : ℚ) : ℚ :=
  match hop_sample base_rtt_s hop last with
  | .ok (some u_i) => max u_i u_max
  | _ => u_max

theorem raise_eq {base_rtt_s : ℚ} {hop : IntHop} {last : Option (ℤ × ℤ)} {r : Option ℚ}
    (h : hop_sample base_rtt_s hop last = .ok r) (u_max : ℚ) :
    raise base_rtt_s hop last u_max = r.elim u_max fun u_i => max u_i u_max := by
  unfold raise
  rw [h]
  cases r with
  | none => rfl
  | some u_i => rfl

/-- Maxima can be taken in any order. -/
theorem raise_comm (base_rtt_s : ℚ) (x : IntHop) (v : Option (ℤ × ℤ)) (y : IntHop)
    (w : Option (ℤ × ℤ)) (u : ℚ) :
    raise base_rtt_s x v (raise base_rtt_s y w u) = raise base_rtt_s y w (raise base_rtt_s x v u) := by
  unfold raise
  rcases hop_sample base_rtt_s x v with _ | _ | u_x
  · rfl
  · rfl
  · rcases hop_sample base_rtt_s y w with _ | _ | u_y
    · rfl
    · rfl
    · exact max_left_comm u_x u_y u

/-- `_compute_u` files the hops. -/
theorem compute_u_eq_foldl (base_rtt_s : ℚ) (hops : List IntHop) (hop_last : HopLast) (u_max : ℚ) :
    compute_u base_rtt_s hops hop_last u_max =
      let r := hops.foldl (file port hop_record (raise base_rtt_s)) (hop_last, u_max)
      (r.1, .ok r.2) := by
  induction hops generalizing hop_last u_max with
  | nil => rfl
  | cons hop hops ih =>
      rw [compute_u, List.foldl_cons]
      by_cases hl : hop.link_bps = 0
      · -- no rate: the entry is not filed
        have hport : port hop = none := if_pos hl
        rw [if_pos hl, file_none hport]
        exact ih hop_last u_max
      · have hport : port hop = some (hop_key hop) := if_neg hl
        obtain ⟨r, hr⟩ := hop_sample_ok base_rtt_s hl (hop_last (hop_key hop))
        rw [if_neg hl, file_some hport]
        dsimp only
        rw [raise_eq hr, hr]
        cases r with
        | none => exact ih _ _
        | some u_i =>
            -- the running maximum of the source
            have hmax : (if u_i > u_max then u_i else u_max) = max u_i u_max := by
              rw [max_comm, max_def_lt]
            dsimp only
            rw [hmax]
            exact ih _ _

theorem ports_eq (hops : List IntHop) :
    hops.filterMap port = (hops.filter fun hop => hop.link_bps ≠ 0).map hop_key := by
  induction hops with
  | nil => rfl
  | cons hop hops ih =>
      by_cases hl : hop.link_bps = 0
      · have hport : port hop = none := if_pos hl
        rw [List.filterMap_cons_none hport, List.filter_cons_of_neg (by simpa using hl), ih]
      · have hport : port hop = some (hop_key hop) := if_neg hl
        rw [List.filterMap_cons_some hport, List.filter_cons_of_pos (by simpa using hl), ih]
        rfl

/-- **Hop order does not matter.** For every `hop_last`, two orders of a list of hops in which
no (switch, port) pair occurs twice among the hops with a link speed give the same `U` and
leave the same `hop_last`. -/
theorem compute_u_perm (base_rtt_s : ℚ) (hop_last : HopLast) {hops hops' : List IntHop}
    (hperm : hops.Perm hops')
    (hnd : ((hops.filter fun hop => hop.link_bps ≠ 0).map hop_key).Nodup) :
    compute_u base_rtt_s hops hop_last 0 = compute_u base_rtt_s hops' hop_last 0 := by
  rw [← ports_eq] at hnd
  rw [compute_u_eq_foldl, compute_u_eq_foldl,
    foldl_file_perm (raise_comm base_rtt_s) hperm hnd]

/-- The report of one port of a switch: the time stamp, the byte count and the link speed. -/
def report (switch_id egress_tstamp_us tx_byte_count link_bps : ℤ) : IntHop where
  switch_id := switch_id
  ingress_port := 1
  egress_port := 2
  qdepth := 3
  egress_tstamp_us := egress_tstamp_us
  tx_byte_count := tx_byte_count
  link_bps := link_bps

/-- Two switches, one of which is known already, and a port without a link speed. -/
theorem compute_u_perm_two_switches :
    compute_u (1 / 200) [report 1 2000 9000 10000000, report 2 1500 100 10000000, report 1 0 0 0]
        (Function.update (fun _ => none) (1, 2) (some (1000, 8000))) 0
      = compute_u (1 / 200)
        [report 1 0 0 0, report 2 1500 100 10000000, report 1 2000 9000 10000000]
        (Function.update (fun _ => none) (1, 2) (some (1000, 8000))) 0 :=
  compute_u_perm (1 / 200) _ (List.reverse_perm _).symm (by decide)

end IntHpcc.HopOrder
