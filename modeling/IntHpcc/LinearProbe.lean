/-
Open addressing with linear probing, without deletion.

A table has `N` slots, each empty or holding a key. `probe` walks from a slot on, wrapping
around, and stops at the first slot that is empty or holds the key it looks for; so it
says both where a key is and where a new one goes.

`Findable` is the invariant: a stored key is where the walk from its home slot stops.
Stated like this it gives at once that no key is stored twice (`Findable.unique`), and
that filling the slot a walk stopped at keeps it (`Findable.insert`), since no other walk
passes an empty slot. The table is full for a key only when it holds `N` others
(`Findable.probe_isSome`).
-/
import Mathlib.Algebra.GroupWithZero.Nat
import Mathlib.Data.Fintype.Card
import Mathlib.Tactic.Common

set_option autoImplicit false

namespace IntHpcc.LinearProbe

variable {N : ℕ} [NeZero N] {κ : Type*} [DecidableEq κ]

/-- The walk for `k` over at most `n` slots, from `s` on. -/
def probe (occ : Fin N → Option κ) (k : κ) : Fin N → ℕ → Option (Fin N)
  | _, 0 => none
  | s, n + 1 =>
    match occ s with
    | none => some s
    | some k' => if k' = k then some s else probe occ k (s + 1) n

variable {occ : Fin N → Option κ} {k : κ} {s j : Fin N} {n : ℕ}

theorem probe_of_empty (h : occ s = none) : probe occ k s (n + 1) = some s := by
  rw [probe, h]

theorem probe_of_key (h : occ s = some k) : probe occ k s (n + 1) = some s := by
  rw [probe, h]
  exact if_pos rfl

theorem probe_of_other {k' : κ} (h : occ s = some k') (hne : k' ≠ k) :
    probe occ k s (n + 1) = probe occ k (s + 1) n := by
  rw [probe, h]
  exact if_neg hne

omit [NeZero N] in
/-- The three ways a walk can start. -/
theorem slot_cases (occ : Fin N → Option κ) (k : κ) (s : Fin N) :
    occ s = none ∨ occ s = some k ∨ ∃ k', occ s = some k' ∧ k' ≠ k := by
  cases h : occ s with
  | none => exact Or.inl rfl
  | some k' =>
      by_cases hk : k' = k
      · exact Or.inr (Or.inl (by rw [hk]))
      · exact Or.inr (Or.inr ⟨k', rfl, hk⟩)

/-- A walk stops at an empty slot or at the key. -/
theorem probe_stops (h : probe occ k s n = some j) : occ j = none ∨ occ j = some k := by
  induction n generalizing s with
  | zero => cases h
  | succ n ih =>
      rcases slot_cases occ k s with hs | hs | ⟨k', hs, hne⟩
      · rw [probe_of_empty hs, Option.some.injEq] at h
        exact Or.inl (h ▸ hs)
      · rw [probe_of_key hs, Option.some.injEq] at h
        exact Or.inr (h ▸ hs)
      · rw [probe_of_other hs hne] at h
        exact ih h

/-- Filling an empty slot does not disturb a walk that stops elsewhere: it would have
stopped at that slot had it come by. -/
theorem probe_update_of_ne {r : Fin N} {k' : κ} (h : probe occ k s n = some r)
    (hj : occ j = none) (hr : r ≠ j) :
    probe (Function.update occ j (some k')) k s n = some r := by
  induction n generalizing s with
  | zero => cases h
  | succ n ih =>
      by_cases hs : s = j
      · -- the probe would have stopped at the free slot `j`
        rw [hs, probe_of_empty hj, Option.some.injEq] at h
        exact absurd h.symm hr
      · -- any other slot looks as before
        have hsame : Function.update occ j (some k') s = occ s :=
          Function.update_of_ne hs _ _
        rcases slot_cases occ k s with he | he | ⟨k'', he, hne⟩
        · rw [probe_of_empty he] at h
          rw [probe_of_empty (hsame.trans he)]
          exact h
        · rw [probe_of_key he] at h
          rw [probe_of_key (hsame.trans he)]
          exact h
        · rw [probe_of_other he hne] at h
          rw [probe_of_other (hsame.trans he) hne]
          exact ih h

/-- The key put where its walk stopped is found there. -/
theorem probe_update_self (h : probe occ k s n = some j) :
    probe (Function.update occ j (some k)) k s n = some j := by
  induction n generalizing s with
  | zero => cases h
  | succ n ih =>
      by_cases hs : s = j
      · have hnew : Function.update occ j (some k) s = some k := by
          rw [hs, Function.update_self]
        rw [probe_of_key hnew, hs]
      · have hsame : Function.update occ j (some k) s = occ s := Function.update_of_ne hs _ _
        rcases slot_cases occ k s with he | he | ⟨k', he, hne⟩
        · rw [probe_of_empty he, Option.some.injEq] at h
          exact absurd h hs
        · rw [probe_of_key he, Option.some.injEq] at h
          exact absurd h hs
        · rw [probe_of_other he hne] at h
          rw [probe_of_other (hsame.trans he) hne]
          exact ih h

/-- A walk that does not stop has met other keys only. -/
theorem others_of_probe_none (h : probe occ k s n = none) (i : ℕ) (hi : i < n) :
    ∃ k', occ (s + Fin.ofNat N i) = some k' ∧ k' ≠ k := by
  induction n generalizing s i with
  | zero => omega
  | succ n ih =>
      rcases slot_cases occ k s with hs | hs | ⟨k', hs, hne⟩
      · rw [probe_of_empty hs] at h
        cases h
      · rw [probe_of_key hs] at h
        cases h
      · rw [probe_of_other hs hne] at h
        cases i with
        | zero =>
            refine ⟨k', ?_, hne⟩
            have hzero : s + Fin.ofNat N 0 = s := by simp
            rw [hzero]
            exact hs
        | succ i =>
            -- the rest of the probe is a probe from the next slot
            have hshift : s + Fin.ofNat N (i + 1) = s + 1 + Fin.ofNat N i := by
              apply Fin.ext
              simp only [Fin.val_add, Fin.ofNat, Fin.val_one', Nat.add_mod_mod, Nat.mod_add_mod]
              congr 1
              omega
            rw [hshift]
            exact ih h i (by omega)

/-- In a table that is full of other keys no walk stops. -/
theorem probe_eq_none_of_full (h : ∀ j, ∃ k', occ j = some k' ∧ k' ≠ k) (s : Fin N) (n : ℕ) :
    probe occ k s n = none := by
  induction n generalizing s with
  | zero => rfl
  | succ n ih =>
      obtain ⟨k', hs, hne⟩ := h s
      rw [probe_of_other hs hne]
      exact ih (s + 1)

/-! ## The invariant -/

variable {home : κ → Fin N}

/-- Every stored key is where the walk from its home slot stops. -/
def Findable (home : κ → Fin N) (occ : Fin N → Option κ) : Prop :=
  ∀ j k, occ j = some k → probe occ k (home k) N = some j

theorem findable_empty : Findable home (fun _ => none) := by
  intro j k h
  cases h

/-- No key is stored twice. -/
theorem Findable.unique (h : Findable home occ) {i : Fin N} (hi : occ i = some k)
    (hj : occ j = some k) : i = j := by
  have hprobe := h i k hi
  rw [h j k hj, Option.some.injEq] at hprobe
  exact hprobe.symm

/-- Filling the empty slot at which the walk for `k` stops keeps the invariant. -/
theorem Findable.insert (h : Findable home occ) (hj : probe occ k (home k) N = some j)
    (hempty : occ j = none) : Findable home (Function.update occ j (some k)) := by
  intro i k' hi
  by_cases hij : i = j
  · rw [hij, Function.update_self, Option.some.injEq] at hi
    subst hi
    rw [hij]
    exact probe_update_self hj
  · rw [Function.update_of_ne hij] at hi
    exact probe_update_of_ne (h i k' hi) hempty hij

/-- A table that holds keys of a set of at most `N` has room for each of them. -/
theorem Findable.probe_isSome (h : Findable home occ) {K : Finset κ} (hcard : K.card ≤ N)
    (hsub : ∀ j k', occ j = some k' → k' ∈ K) (hk : k ∈ K) :
    ∃ j, probe occ k (home k) N = some j := by
  by_contra hno
  have hnone : probe occ k (home k) N = none := by
    rw [Option.eq_none_iff_forall_ne_some]
    intro j hj
    exact hno ⟨j, hj⟩
  -- then every slot holds another key of the set
  have hfull : ∀ j : Fin N, ∃ k', occ j = some k' ∧ k' ∈ K.erase k := by
    intro j
    obtain ⟨k', hocc, hne⟩ :=
      others_of_probe_none hnone (j - home k).val (j - home k).isLt
    have hslot : home k + Fin.ofNat N (j - home k).val = j := by
      apply Fin.ext
      have hround : (home k).val + (N - (home k).val + j.val) = N + j.val := by omega
      rw [Fin.ofNat_val_eq_self, Fin.val_add, Fin.sub_def]
      dsimp only
      rw [Nat.add_mod_mod, hround, Nat.add_mod_left, Nat.mod_eq_of_lt j.isLt]
    rw [hslot] at hocc
    exact ⟨k', hocc, Finset.mem_erase.mpr ⟨hne, hsub j k' hocc⟩⟩
  choose f hf using hfull
  have hinj : Function.Injective f := by
    intro i j hij
    have hi := (hf i).1
    rw [hij] at hi
    exact h.unique hi (hf j).1
  have hle : (Finset.univ : Finset (Fin N)).card ≤ (K.erase k).card :=
    Finset.card_le_card_of_injOn f (fun j _ => (hf j).2) hinj.injOn
  rw [Finset.card_univ, Fintype.card_fin, Finset.card_erase_of_mem hk] at hle
  have hpos : 0 < K.card := Finset.card_pos.mpr ⟨k, hk⟩
  omega

end IntHpcc.LinearProbe
