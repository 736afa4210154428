/-
Endless runs of a partial transition system: the rules behind "in the end".

`Runs` says what has happened after finitely many events. What a system must do sooner or
later is a statement about a run that never stops: a sequence of states and events in
which each event is enabled in its turn (`Endless`).

* `Often` is "again and again", and a fairness assumption is one `Often` implying another.
* `Endless.invariant` is the induction rule of `Runs`, for every state of an endless run.
* `Endless.settles` is the ranking rule: a bounded quantity that never falls is constant
  from some point on.
* `Endless.often_leaves` says that what is entered again and again is left as often.
* `play` and `exists_prepend` build endless runs: a strategy followed forever, and a
  finite run in front of it.
-/
import IntHpcc.Runs
import Mathlib.Order.Filter.AtTopBot.Basic
import Mathlib.Order.Monotone.Basic

set_option autoImplicit false

namespace IntHpcc.Runs

open Filter

section

variable {S E : Type*}

/-- A run from `s` that never stops. -/
structure Endless (step : E → S → Option S) (s : S) where
  state : ℕ → S
  event : ℕ → E
  starts : state 0 = s
  steps : ∀ i, step (event i) (state i) = some (state (i + 1))

variable {step : E → S → Option S} {s s' : S}

/-- Every step of the run satisfies `P`. -/
def Endless.Throughout (ρ : Endless step s) (P : S → E → S → Prop) : Prop :=
  ∀ i, P (ρ.state i) (ρ.event i) (ρ.state (i + 1))

/-- Again and again a step satisfies `P`. -/
def Endless.Often (ρ : Endless step s) (P : S → E → S → Prop) : Prop :=
  ∃ᶠ i in atTop, P (ρ.state i) (ρ.event i) (ρ.state (i + 1))

/-- From some point on `P` holds. -/
def Endless.Settles (ρ : Endless step s) (P : S → Prop) : Prop := ∀ᶠ i in atTop, P (ρ.state i)

/-! ## Rules -/

section

variable (ρ : Endless step s)

/-- **The invariant rule.** -/
theorem Endless.invariant {P : S → Prop} {C : S → E → S → Prop}
    (hstep : ∀ e s s', P s → step e s = some s' → C s e s' → P s') (hs : P s)
    (hC : ρ.Throughout C) (i : ℕ) : P (ρ.state i) := by
  induction i with
  | zero =>
      rw [ρ.starts]
      exact hs
  | succ i ih => exact hstep _ _ _ ih (ρ.steps i) (hC i)

variable {ρ}

theorem Endless.often_iff {P : S → E → S → Prop} :
    ρ.Often P ↔ ∀ i, ∃ j, i ≤ j ∧ P (ρ.state j) (ρ.event j) (ρ.state (j + 1)) :=
  frequently_atTop

theorem Endless.Often.mono {P Q : S → E → S → Prop} (h : ρ.Often P)
    (hPQ : ∀ i, P (ρ.state i) (ρ.event i) (ρ.state (i + 1)) →
      Q (ρ.state i) (ρ.event i) (ρ.state (i + 1))) : ρ.Often Q :=
  Frequently.mono h hPQ

/-- Once the run has settled in `P`, what happens often happens in `P` often. -/
theorem Endless.Often.settled {P : S → E → S → Prop} {Q : S → Prop} (h : ρ.Often P)
    (hQ : ρ.Settles Q) : ρ.Often fun s e s' => Q s ∧ Q s' ∧ P s e s' := by
  have hnext : ∀ᶠ i in atTop, Q (ρ.state (i + 1)) := (tendsto_add_atTop_nat 1).eventually hQ
  refine (Frequently.and_eventually h (hQ.and hnext)).mono ?_
  rintro i ⟨hP, hQi, hQn⟩
  exact ⟨hQi, hQn, hP⟩

/-- **The ranking rule.** A bounded quantity that no step lowers is constant from some
point on. -/
theorem Endless.settles {q : S → ℕ} {b : ℕ}
    (hmono : ρ.Throughout fun s _ s' => q s ≤ q s') (hbound : ∀ i, q (ρ.state i) ≤ b) :
    ∃ v, ρ.Settles fun s => q s = v := by
  have hm : Monotone fun i => q (ρ.state i) := monotone_nat_of_le_succ hmono
  obtain ⟨v, N, hN⟩ := converges_of_monotone_of_bounded hm hbound
  exact ⟨v, eventually_atTop.mpr ⟨N, hN⟩⟩

/-- Between two moments with `p` and without it, `p` is given up. -/
theorem Endless.exists_leaves {p : S → Prop} {i j : ℕ} (hij : i ≤ j) (hi : p (ρ.state i))
    (hj : ¬ p (ρ.state j)) :
    ∃ k, i ≤ k ∧ k < j ∧ p (ρ.state k) ∧ ¬ p (ρ.state (k + 1)) := by
  induction j, hij using Nat.le_induction with
  | base => exact absurd hi hj
  | succ j hij ih =>
      by_cases hp : p (ρ.state j)
      · exact ⟨j, hij, Nat.lt_succ_self j, hp, hj⟩
      · obtain ⟨k, hik, hkj, hk⟩ := ih hp
        exact ⟨k, hik, Nat.lt_succ_of_lt hkj, hk⟩

/-- What is entered again and again is left again and again. -/
theorem Endless.often_leaves {p : S → Prop} (h : ρ.Often fun s _ s' => ¬ p s ∧ p s') :
    ρ.Often fun s _ s' => p s ∧ ¬ p s' := by
  rw [Endless.often_iff] at h ⊢
  intro i
  obtain ⟨j, hij, -, hj⟩ := h i
  obtain ⟨k, hjk, hk, -⟩ := h (j + 1)
  obtain ⟨l, hjl, -, hl⟩ := Endless.exists_leaves hjk hj hk
  exact ⟨l, by omega, hl⟩

end

/-! ## Building endless runs -/

/-- One event in front of an endless run. -/
def Endless.cons {e : E} {s₁ : S} (h : step e s = some s₁) (ρ : Endless step s₁) :
    Endless step s where
  state
    | 0 => s
    | i + 1 => ρ.state i
  event
    | 0 => e
    | i + 1 => ρ.event i
  starts := rfl
  steps
    | 0 => by
        show step e s = some (ρ.state 0)
        rw [ρ.starts, h]
    | i + 1 => ρ.steps i

theorem Endless.throughout_cons {e : E} {s₁ : S} {h : step e s = some s₁}
    {ρ : Endless step s₁} {P : S → E → S → Prop} (hP : P s e s₁) (hρ : ρ.Throughout P) :
    (Endless.cons h ρ).Throughout P
  | 0 => by
      show P s e (ρ.state 0)
      rw [ρ.starts]
      exact hP
  | i + 1 => hρ i

theorem Endless.often_cons {e : E} {s₁ : S} {h : step e s = some s₁} {ρ : Endless step s₁}
    {P : S → E → S → Prop} : (Endless.cons h ρ).Often P ↔ ρ.Often P := by
  rw [Endless.often_iff, Endless.often_iff]
  constructor
  · intro hP i
    obtain ⟨j, hij, hj⟩ := hP (i + 1)
    obtain ⟨j, rfl⟩ := Nat.exists_eq_succ_of_ne_zero (by omega : j ≠ 0)
    exact ⟨j, by omega, hj⟩
  · intro hP i
    obtain ⟨j, hij, hj⟩ := hP i
    exact ⟨j + 1, by omega, hj⟩

/-- A finite run in front of an endless one: what happens often is the same. -/
theorem Endless.exists_prepend {es : List E} (h : run step s es = some s')
    (ρ : Endless step s') :
    ∃ ρ' : Endless step s, ∀ P, (EachStep step P s es → ρ.Throughout P → ρ'.Throughout P) ∧
      (ρ'.Often P ↔ ρ.Often P) := by
  induction es generalizing s with
  | nil =>
      rw [run_nil, Option.some.injEq] at h
      subst h
      exact ⟨ρ, fun P => ⟨fun _ hρ => hρ, Iff.rfl⟩⟩
  | cons e es ih =>
      obtain ⟨s₁, h₁, hrest⟩ := (run_cons_eq_some step).mp h
      obtain ⟨ρ₁, hρ₁⟩ := ih hrest
      refine ⟨Endless.cons h₁ ρ₁, fun P => ⟨?_, ?_⟩⟩
      · intro heach hρ
        obtain ⟨hP, heach⟩ := (eachStep_cons h₁).mp heach
        exact Endless.throughout_cons hP ((hρ₁ P).1 heach hρ)
      · rw [Endless.often_cons]
        exact (hρ₁ P).2

/-- A strategy followed forever: `next s` is where its event leads from `s`. -/
def Endless.play (strategy : S → E) (next : S → S) {P : S → Prop} (hs : P s)
    (hstep : ∀ s, P s → step (strategy s) s = some (next s) ∧ P (next s)) :
    Endless step s where
  state i := next^[i] s
  event i := strategy (next^[i] s)
  starts := rfl
  steps i := by
    have hP : P (next^[i] s) := Function.Iterate.rec P hs (fun s h => (hstep s h).2) i
    rw [Function.iterate_succ_apply']
    exact (hstep _ hP).1

end

end IntHpcc.Runs
