/-
Meters that some of the passing traffic reads.

Things of some size pass meters; a passing may be given a reading, and only then is the
meter told of it. What two readings of one meter differ by is what passed in between,
less what passed without being read.
-/
import Mathlib.Algebra.BigOperators.Group.List.Basic
import Mathlib.Algebra.Order.Field.Basic
import Mathlib.Logic.Function.Basic
import Mathlib.Tactic.Abel

set_option autoImplicit false

namespace IntHpcc.Metering

variable {κ M : Type} [AddCommGroup M]

/-- Something of size `size` passes the meter `key`; `shown` is the reading it is given. -/
structure Passing (κ M : Type) where
  key : κ
  size : M
  shown : Option M

variable [DecidableEq κ] {kept : κ → Prop} [DecidablePred kept]

/-- The meters after a passing. A meter that is not `kept` forgets what it is told. -/
def advance (kept : κ → Prop) [DecidablePred kept] (c : κ → M) (p : Passing κ M) : κ → M :=
  match p.shown with
  | none => c
  | some v => if kept p.key then Function.update c p.key v else c

/-- Every reading is what its meter stood at with the passing's own size on top. -/
def Metered (kept : κ → Prop) [DecidablePred kept] : (κ → M) → List (Passing κ M) → Prop
  | _, [] => True
  | c, p :: l =>
    (∀ v, p.shown = some v → v = c p.key + p.size) ∧ Metered kept (advance kept c p) l

/-- All that passed the meter `k`. -/
def total (k : κ) (l : List (Passing κ M)) : M :=
  ((l.filter fun p => p.key = k).map Passing.size).sum

/-- What passed the meter `k` and was not read. -/
def unread (k : κ) (l : List (Passing κ M)) : M :=
  ((l.filter fun p => p.key = k ∧ p.shown = none).map Passing.size).sum

/-! ## One passing -/

theorem total_cons (k : κ) (p : Passing κ M) (l : List (Passing κ M)) :
    total k (p :: l) = (if p.key = k then p.size else 0) + total k l := by
  by_cases h : p.key = k
  · simp [total, h]
  · simp [total, h]

theorem total_append (k : κ) (l₁ l₂ : List (Passing κ M)) :
    total k (l₁ ++ l₂) = total k l₁ + total k l₂ := by
  simp [total]

theorem unread_cons (k : κ) (p : Passing κ M) (l : List (Passing κ M)) :
    unread k (p :: l) = (if p.key = k ∧ p.shown = none then p.size else 0) + unread k l := by
  by_cases h : p.key = k ∧ p.shown = none
  · simp [unread, h]
  · simp only [unread, List.filter_cons, decide_eq_true_eq, if_neg h, zero_add]

/-- A kept meter moves by what it is told. -/
theorem advance_kept {c : κ → M} {p : Passing κ M} {k : κ} (hk : kept k)
    (h : ∀ v, p.shown = some v → v = c p.key + p.size) :
    advance kept c p k + (if p.key = k ∧ p.shown = none then p.size else 0)
      = c k + (if p.key = k then p.size else 0) := by
  unfold advance
  by_cases hkey : p.key = k
  · subst hkey
    cases hs : p.shown with
    | none => simp
    | some v => simp [hk, h v hs]
  · -- another meter
    have hne : k ≠ p.key := fun heq => hkey heq.symm
    cases p.shown with
    | none => simp [hkey]
    | some v => by_cases hp : kept p.key <;> simp [hp, hkey, Function.update_of_ne hne]

omit [AddCommGroup M] in
theorem advance_not_kept {c : κ → M} {p : Passing κ M} {k : κ} (hk : ¬ kept k) :
    advance kept c p k = c k := by
  unfold advance
  cases p.shown with
  | none => rfl
  | some v =>
      by_cases hp : kept p.key
      · have hne : k ≠ p.key := fun heq => hk (heq ▸ hp)
        simp [hp, Function.update_of_ne hne]
      · simp [hp]

/-! ## A run -/

theorem metered_append {c : κ → M} {l₁ l₂ : List (Passing κ M)}
    (h : Metered kept c (l₁ ++ l₂)) :
    Metered kept c l₁ ∧ Metered kept (l₁.foldl (advance kept) c) l₂ := by
  induction l₁ generalizing c with
  | nil => exact ⟨trivial, h⟩
  | cons p l ih =>
      obtain ⟨hl, hr⟩ := ih h.2
      exact ⟨⟨h.1, hl⟩, hr⟩

/-- What a kept meter stands at, with what was not read, is what passed. -/
theorem foldl_kept {c : κ → M} {l : List (Passing κ M)} {k : κ} (hk : kept k)
    (h : Metered kept c l) :
    l.foldl (advance kept) c k + unread k l = c k + total k l := by
  induction l generalizing c with
  | nil => simp [unread, total]
  | cons p l ih =>
      have hstep := advance_kept hk h.1
      have hrest := ih h.2
      rw [List.foldl_cons, unread_cons, total_cons, ← add_assoc (c k), ← hstep, add_left_comm,
        hrest]
      abel

omit [AddCommGroup M] in
theorem foldl_not_kept {c : κ → M} {k : κ} (hk : ¬ kept k) (l : List (Passing κ M)) :
    l.foldl (advance kept) c k = c k := by
  induction l generalizing c with
  | nil => rfl
  | cons p l ih => rw [List.foldl_cons, ih, advance_not_kept hk]

/-! ## Two readings -/

variable {c : κ → M} {l₁ l₂ l₃ : List (Passing κ M)} {p q : Passing κ M} {v w : M}

/-- What the meter stands at when `p` has been given its reading, and when `q` is. -/
theorem readings (h : Metered kept c (l₁ ++ p :: (l₂ ++ q :: l₃))) (hp : p.shown = some v)
    (hq : q.shown = some w) :
    ∃ c₀ : κ → M, v = c₀ p.key + p.size ∧ Metered kept (advance kept c₀ p) l₂ ∧
      w = l₂.foldl (advance kept) (advance kept c₀ p) q.key + q.size := by
  obtain ⟨-, hfirst, hrest⟩ := metered_append h
  obtain ⟨hbetween, hsecond, -⟩ := metered_append hrest
  exact ⟨_, hfirst v hp, hbetween, hsecond w hq⟩

/-- A kept meter measures what passed between two readings exactly when nothing passed
unread. -/
theorem kept_measures_iff (h : Metered kept c (l₁ ++ p :: (l₂ ++ q :: l₃)))
    (hp : p.shown = some v) (hq : q.shown = some w) (hkey : p.key = q.key) (hk : kept q.key) :
    w - v = total q.key (l₂ ++ [q]) ↔ unread q.key l₂ = 0 := by
  obtain ⟨c₀, hv, hbetween, hw⟩ := readings h hp hq
  have hafter : advance kept c₀ p q.key = v := by
    have hset : advance kept c₀ p = Function.update c₀ p.key v := by
      unfold advance
      rw [hp]
      exact if_pos (hkey ▸ hk)
    rw [hset, ← hkey, Function.update_self]
  have hrun := foldl_kept hk hbetween
  rw [hafter] at hrun
  have hdiff : w - v + unread q.key l₂ = total q.key (l₂ ++ [q]) := by
    rw [hw, total_append, sub_add_eq_add_sub, add_right_comm, hrun]
    simp [total, add_assoc]
  rw [← hdiff]
  exact ⟨fun heq => (add_eq_left.mp heq.symm), fun heq => by rw [heq, add_zero]⟩

/-- A meter that is not kept shows every passing the same, plus its size. -/
theorem not_kept_measures_iff (h : Metered kept c (l₁ ++ p :: (l₂ ++ q :: l₃)))
    (hp : p.shown = some v) (hq : q.shown = some w) (hkey : p.key = q.key)
    (hk : ¬ kept q.key) :
    w - v = total q.key (l₂ ++ [q]) ↔ p.size + total q.key l₂ = 0 := by
  obtain ⟨c₀, hv, -, hw⟩ := readings h hp hq
  rw [foldl_not_kept hk, advance_not_kept hk] at hw
  have hdiff : total q.key (l₂ ++ [q]) = w - v + (p.size + total q.key l₂) := by
    have hlast : total q.key [q] = q.size := by simp [total]
    rw [hw, hv, hkey, total_append, hlast]
    abel
  rw [hdiff]
  exact ⟨fun heq => (add_eq_left.mp heq.symm), fun heq => by rw [heq, add_zero]⟩

/-! ## Rates

A reading with the time it was taken at is a pair `(time, count)`. -/

section

variable {K : Type*} [Field K] [LinearOrder K] [IsStrictOrderedRing K]

/-- Between no two of the readings the meter has run backwards, or faster than `r`. -/
def RateBounded (r : K) (S : Set (ℤ × ℤ)) : Prop :=
  ∀ a ∈ S, ∀ b ∈ S, a.1 < b.1 →
    0 ≤ b.2 - a.2 ∧ ((b.2 - a.2 : ℤ) : K) ≤ r * ((b.1 - a.1 : ℤ) : K)

/-- The average rate from the reading `a` to the reading `b`. -/
def avg_rate (K : Type*) [Field K] (a b : ℤ × ℤ) : K :=
  ((b.2 - a.2 : ℤ) : K) / ((b.1 - a.1 : ℤ) : K)

variable {r : K} {S : Set (ℤ × ℤ)} {a b : ℤ × ℤ}

theorem elapsed_pos (h : a.1 < b.1) : (0 : K) < ((b.1 - a.1 : ℤ) : K) := by
  apply Int.cast_pos.mpr
  omega

theorem RateBounded.avg_rate_nonneg (h : RateBounded r S) (ha : a ∈ S) (hb : b ∈ S)
    (hlt : a.1 < b.1) : 0 ≤ avg_rate K a b := by
  have hcount : (0 : K) ≤ ((b.2 - a.2 : ℤ) : K) := Int.cast_nonneg (h a ha b hb hlt).1
  exact div_nonneg hcount (elapsed_pos hlt).le

theorem RateBounded.avg_rate_le (h : RateBounded r S) (ha : a ∈ S) (hb : b ∈ S)
    (hlt : a.1 < b.1) : avg_rate K a b ≤ r := by
  unfold avg_rate
  rw [div_le_iff₀ (elapsed_pos hlt)]
  exact (h a ha b hb hlt).2

end

end IntHpcc.Metering
