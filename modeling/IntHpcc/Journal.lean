/-
Journals of stamped entries.

A journal lists what was done, in order: the key of the thing it was done to and a
stamp. The same key can come again and again. If the stamps of each key grow, an entry
carries the last stamp of its key exactly when it is the last entry of its key.

The last section is about the stamps alone: when each is at least `d` after those before
it, an interval holds only so many of them.
-/
import Mathlib.Algebra.Order.Group.Defs
import Mathlib.Data.List.Pairwise
import Mathlib.Order.Defs.PartialOrder

set_option autoImplicit false

namespace IntHpcc.Journal

variable {κ σ : Type} [DecidableEq κ]

/-- The entries of the key `k`. -/
def entries (k : κ) (l : List (κ × σ)) : List (κ × σ) := l.filter fun c => c.1 = k

/-- The stamp of the last entry of `k`. -/
def last_stamp (k : κ) (l : List (κ × σ)) : Option σ := (entries k l).getLast?.map Prod.snd

/-- After the `i`-th entry there is another entry of `k`. -/
def Superseded (l : List (κ × σ)) (i : ℕ) (k : κ) : Prop := ∃ j s, i < j ∧ l[j]? = some (k, s)

/-- The stamps of every key grow. -/
def Growing [LT σ] (l : List (κ × σ)) : Prop := l.Pairwise fun a b => a.1 = b.1 → a.2 < b.2

/-! ## Adding entries -/

section

variable {l new : List (κ × σ)} {k : κ} {s : σ}

theorem entries_append : entries k (l ++ new) = entries k l ++ entries k new :=
  List.filter_append ..

theorem mem_entries {c : κ × σ} : c ∈ entries k l ↔ c ∈ l ∧ c.1 = k := by
  simp [entries]

/-- Entries of other keys do not matter. -/
theorem last_stamp_append_other (h : ∀ c ∈ new, c.1 ≠ k) :
    last_stamp k (l ++ new) = last_stamp k l := by
  have hnone : entries k new = [] := by
    apply List.eq_nil_iff_forall_not_mem.mpr
    intro c hc
    obtain ⟨hmem, hkey⟩ := mem_entries.mp hc
    exact h c hmem hkey
  unfold last_stamp
  rw [entries_append, hnone, List.append_nil]

/-- Entries that all have one stamp. -/
theorem last_stamp_append_same {c : κ × σ} (hc : c ∈ new) (hkey : c.1 = k)
    (hs : ∀ d ∈ new, d.2 = s) : last_stamp k (l ++ new) = some s := by
  have hne : entries k new ≠ [] := List.ne_nil_of_mem (mem_entries.mpr ⟨hc, hkey⟩)
  have hlast : (entries k new).getLast hne ∈ new :=
    (mem_entries.mp (List.getLast_mem hne)).1
  unfold last_stamp
  rw [entries_append, List.getLast?_append, List.getLast?_eq_some_getLast hne, Option.some_or,
    Option.map_some, hs _ hlast]

omit [DecidableEq κ] in
theorem Growing.append [LT σ] (h : Growing l) (hnd : (new.map Prod.fst).Nodup)
    (hcross : ∀ a ∈ l, ∀ b ∈ new, a.1 = b.1 → a.2 < b.2) : Growing (l ++ new) := by
  apply List.pairwise_append.mpr
  refine ⟨h, ?_, hcross⟩
  apply (List.pairwise_map.mp hnd).imp
  intro a b hne heq
  exact absurd heq hne

end

/-! ## The last entry of a key -/

section

variable [Preorder σ] {l : List (κ × σ)} {i : ℕ} {k : κ} {s t : σ}

/-- In a growing journal no stamp of a key is above the last one. -/
theorem Growing.le_last_stamp (h : Growing l) (hmem : (k, s) ∈ l)
    (hlast : last_stamp k l = some t) : s ≤ t := by
  unfold last_stamp at hlast
  obtain ⟨z, hz, rfl⟩ := Option.map_eq_some_iff.mp hlast
  obtain ⟨ys, hys⟩ := List.getLast?_eq_some_iff.mp hz
  have hgrow : (ys ++ [z]).Pairwise fun a b => a.1 = b.1 → a.2 < b.2 := by
    rw [← hys]
    exact h.filter _
  have hzkey : z.1 = k := (mem_entries.mp (List.mem_of_getLast? hz)).2
  have hin : (k, s) ∈ ys ++ [z] := by
    rw [← hys]
    exact mem_entries.mpr ⟨hmem, rfl⟩
  rcases List.mem_append.mp hin with hin | hin
  · have hlt := (List.pairwise_append.mp hgrow).2.2 (k, s) hin z (List.mem_singleton_self z)
    exact le_of_lt (hlt hzkey.symm)
  · rw [← List.mem_singleton.mp hin]

omit [Preorder σ] in
/-- An entry that is not superseded has the last stamp of its key. -/
theorem last_stamp_of_not_superseded (hi : l[i]? = some (k, s)) (hlatest : ¬ Superseded l i k) :
    last_stamp k l = some s := by
  obtain ⟨hlt, hget⟩ := List.getElem?_eq_some_iff.mp hi
  have hsplit : l = (l.take i ++ [(k, s)]) ++ l.drop (i + 1) := by
    rw [List.append_assoc, List.singleton_append, ← hget, List.getElem_cons_drop,
      List.take_append_drop]
  rw [hsplit, last_stamp_append_other]
  · unfold last_stamp
    rw [entries_append, List.getLast?_append]
    simp [entries]
  · intro c hc hkey
    obtain ⟨j, hj⟩ := List.getElem?_of_mem hc
    rw [List.getElem?_drop] at hj
    apply hlatest
    refine ⟨i + 1 + j, c.2, by omega, ?_⟩
    rw [hj, ← hkey]

/-- **The last entry of a key is the one with its last stamp.** -/
theorem Growing.stamp_eq_iff (h : Growing l) (hi : l[i]? = some (k, s))
    (hlast : last_stamp k l = some t) : s = t ↔ ¬ Superseded l i k := by
  constructor
  · rintro rfl ⟨j, s', hij, hj⟩
    obtain ⟨hilt, higet⟩ := List.getElem?_eq_some_iff.mp hi
    obtain ⟨hjlt, hjget⟩ := List.getElem?_eq_some_iff.mp hj
    have hlt := List.pairwise_iff_getElem.mp h i j hilt hjlt hij
    rw [higet, hjget] at hlt
    have hle : s' ≤ s := h.le_last_stamp (List.mem_of_getElem? hj) hlast
    exact absurd (hlt rfl) (not_lt_of_ge hle)
  · intro hlatest
    rw [last_stamp_of_not_superseded hi hlatest, Option.some.injEq] at hlast
    exact hlast

end

/-! ## Stamps that are apart -/

section

variable {α : Type*}

/-- Each stamp is at least `d` after all the stamps before it. -/
def Apart [Add α] [LE α] (d : α) (l : List α) : Prop := l.Pairwise fun a b => a + d ≤ b

theorem Apart.snoc [Add α] [LE α] {d b : α} {l : List α} (h : Apart d l)
    (hlast : ∀ a ∈ l, a + d ≤ b) : Apart d (l ++ [b]) := by
  refine List.pairwise_append.mpr ⟨h, List.pairwise_singleton _ _, ?_⟩
  intro a ha c hc
  rw [List.mem_singleton.mp hc]
  exact hlast a ha

variable [AddCommGroup α] [LinearOrder α] [IsOrderedAddMonoid α] {d : α}

/-- From the first stamp to the end of the interval there is room for all the gaps. -/
theorem Apart.gaps_le {a hi : α} {l : List α} (h : Apart d (a :: l))
    (hhi : ∀ x ∈ a :: l, x ≤ hi) : a + l.length • d ≤ hi := by
  induction l generalizing a with
  | nil =>
      rw [List.length_nil, zero_nsmul, add_zero]
      exact hhi a List.mem_cons_self
  | cons b l ih =>
      obtain ⟨hfirst, hrest⟩ := List.pairwise_cons.mp h
      have hb : a + d ≤ b := hfirst b List.mem_cons_self
      have hgaps : b + l.length • d ≤ hi :=
        ih hrest fun x hx => hhi x (List.mem_cons_of_mem _ hx)
      rw [List.length_cons, succ_nsmul, add_comm (l.length • d), ← add_assoc]
      exact le_trans (add_le_add_left hb _) hgaps

/-- **How many stamps an interval holds**: one, and one more for each gap that fits. -/
theorem Apart.count_le {l : List α} (h : Apart d l) {lo hi : α} (hle : lo ≤ hi)
    (hin : ∀ x ∈ l, lo ≤ x ∧ x ≤ hi) : (l.length - 1) • d ≤ hi - lo := by
  cases l with
  | nil =>
      rw [List.length_nil, Nat.zero_sub, zero_nsmul]
      exact sub_nonneg.mpr hle
  | cons a l =>
      have hgaps := h.gaps_le fun x hx => (hin x hx).2
      have hlo : lo ≤ a := (hin a List.mem_cons_self).1
      rw [List.length_cons, Nat.add_sub_cancel, le_sub_iff_add_le']
      exact le_trans (add_le_add_left hlo _) hgaps

end

end IntHpcc.Journal
