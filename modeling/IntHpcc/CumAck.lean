/-
The abstract window of a sender with cumulative acknowledgements.

A window is three things: the next sequence number, the highest acknowledged one,
and the set of outstanding ones. This file says what such a sender is *for*, on
sets and orders only, with no byte, clock or controller in it:

* `Framed`: what is acknowledged was sent, and the outstanding numbers lie strictly
  between the two ends;
* `Covered`: every number handed out is acknowledged or still outstanding, so that
  it will be sent again;
* `Backed D`: everything acknowledged lies in `D`, the set of numbers that really
  reached the other side.

Each of the three is settled for one step by an *iff* (`framed_step_iff`,
`covered_step_iff`, `backed_step_iff`): the exact condition on the label under which
the step keeps it. Whole runs then follow from `Runs.always_iff_each`. `Rooted`, that
nothing lies below the first number, is kept by every step.
-/
import Mathlib.Algebra.Order.Ring.Int
import Mathlib.Data.Set.Basic
import Mathlib.Order.MinMax
import Mathlib.Tactic.Common

set_option autoImplicit false

namespace IntHpcc.CumAck

/-- The abstract state: the next number to hand out, the highest one acknowledged,
and the outstanding ones. -/
@[ext] structure Window where
  next : ℤ
  cum : ℤ
  out : Set ℤ

/-- What one event does to a window. -/
inductive Label
  /-- nothing -/
  | idle
  /-- the next number is handed out; `true` if its packet went out -/
  | send (ok : Bool)
  /-- an acknowledgement of `k` and everything below -/
  | ack (k : ℤ)
  /-- everything outstanding is sent again; `lost` are the numbers whose send failed -/
  | resend (lost : Set ℤ)

/-- An acknowledgement of `k`: below the highest one it changes nothing. -/
def Window.ack (w : Window) (k : ℤ) : Window :=
  if w.cum < k then { w with cum := k, out := w.out \ { s | w.cum < s ∧ s ≤ k } } else w

/-- The window after one event. -/
def Window.step (w : Window) : Label → Window
  | .idle => w
  | .send true => { w with next := w.next + 1, out := insert w.next w.out }
  | .send false => { w with next := w.next + 1 }
  | .ack k => w.ack k
  | .resend lost => { w with out := w.out \ lost }

/-- The window before anything was sent. -/
def Window.empty : Window := ⟨0, -1, ∅⟩

/-! ## The three properties -/

structure Framed (w : Window) : Prop where
  cum_lt : w.cum < w.next
  out_lt : ∀ s ∈ w.out, w.cum < s ∧ s < w.next

def Covered (w : Window) : Prop := ∀ s, 0 ≤ s → s < w.next → s ≤ w.cum ∨ s ∈ w.out

def Backed (D : Set ℤ) (w : Window) : Prop := ∀ s, 0 ≤ s → s ≤ w.cum → s ∈ D

structure Rooted (w : Window) : Prop where
  cum_ge : -1 ≤ w.cum
  next_nonneg : 0 ≤ w.next

/-- A label acknowledges only numbers the window has handed out. -/
def Label.Honest (w : Window) (l : Label) : Prop := ∀ k, l = .ack k → k < w.next

/-- No send of the label fails, neither that of the next number nor a repetition. -/
def Label.Lossless (w : Window) (l : Label) : Prop :=
  l ≠ .send false ∧ ∀ lost, l = .resend lost → ∀ s ∈ w.out, s ∉ lost

/-- A label acknowledges only numbers below which everything lies in `D`. -/
def Label.Earned (D : Set ℤ) (l : Label) : Prop := ∀ k, l = .ack k → ∀ s, 0 ≤ s → s ≤ k → s ∈ D

theorem framed_empty : Framed Window.empty := by
  refine ⟨by decide, ?_⟩
  intro s hs
  exact absurd hs (Set.notMem_empty s)

theorem covered_empty : Covered Window.empty := by
  intro s h₀ h₁
  exact absurd (lt_of_le_of_lt h₀ h₁) (lt_irrefl 0)

theorem backed_empty (D : Set ℤ) : Backed D Window.empty := by
  intro s h₀ h₁
  have : s ≤ -1 := h₁
  omega

theorem rooted_empty : Rooted Window.empty := ⟨by decide, by decide⟩

/-! ## One acknowledgement -/

theorem ack_next (w : Window) (k : ℤ) : (w.ack k).next = w.next := by
  unfold Window.ack
  split <;> rfl

/-- The highest acknowledged number is the larger of the two. -/
theorem ack_cum (w : Window) (k : ℤ) : (w.ack k).cum = max w.cum k := by
  unfold Window.ack
  split
  · next h => exact (max_eq_right h.le).symm
  · next h => exact (max_eq_left (not_lt.mp h)).symm

/-- What stays outstanding is what lies outside the acknowledged range. -/
theorem mem_ack_out {w : Window} {k s : ℤ} :
    s ∈ (w.ack k).out ↔ s ∈ w.out ∧ ¬ (w.cum < s ∧ s ≤ k) := by
  unfold Window.ack
  split
  · next h => rw [Set.mem_sdiff, Set.mem_ofPred_eq]
  · next h =>
    constructor
    · intro hs
      exact ⟨hs, fun hk => h (lt_of_lt_of_le hk.1 hk.2)⟩
    · exact fun hs => hs.1

/-- The highest acknowledged number never goes down. -/
theorem cum_le_step (w : Window) (l : Label) : w.cum ≤ (w.step l).cum := by
  rcases l with _ | ok | k | lost
  · exact le_refl _
  · cases ok with
    | true => exact le_refl _
    | false => exact le_refl _
  · show w.cum ≤ (w.ack k).cum
    rw [ack_cum]
    exact le_max_left _ _
  · exact le_refl _

/-- The next number never goes down. -/
theorem next_le_step (w : Window) (l : Label) : w.next ≤ (w.step l).next := by
  rcases l with _ | ok | k | lost
  · exact le_refl _
  · cases ok with
    | true => exact Int.le_add_one (le_refl _)
    | false => exact Int.le_add_one (le_refl _)
  · show w.next ≤ (w.ack k).next
    rw [ack_next]
  · exact le_refl _

theorem rooted_step {w : Window} (h : Rooted w) (l : Label) : Rooted (w.step l) :=
  ⟨le_trans h.cum_ge (cum_le_step w l), le_trans h.next_nonneg (next_le_step w l)⟩

/-! ## The exact conditions, one step at a time -/

/-- **Framing.** The only step that can break the frame is an acknowledgement, and
it does exactly when it acknowledges a number that was not handed out. -/
theorem framed_step_iff {w : Window} (h : Framed w) (l : Label) :
    Framed (w.step l) ↔ l.Honest w := by
  obtain ⟨hcum, hout⟩ := h
  rcases l with _ | ok | k | lost
  · exact iff_of_true ⟨hcum, hout⟩ (fun k hk => nomatch hk)
  · refine iff_of_true ?_ (fun k hk => nomatch hk)
    cases ok with
    | true =>
        refine ⟨by simp only [Window.step]; omega, ?_⟩
        intro s hs
        simp only [Window.step, Set.mem_insert_iff] at hs ⊢
        rcases hs with rfl | hs
        · omega
        · have := hout s hs
          omega
    | false =>
        refine ⟨by simp only [Window.step]; omega, ?_⟩
        intro s hs
        have := hout s hs
        simp only [Window.step]
        omega
  · constructor
    · rintro ⟨hc, -⟩ j hj
      obtain rfl := Label.ack.inj hj
      simp only [Window.step, ack_cum, ack_next] at hc
      exact lt_of_le_of_lt (le_max_right _ _) hc
    · intro hk
      have hk' : k < w.next := hk k rfl
      simp only [Window.step]
      refine ⟨by rw [ack_cum, ack_next]; exact max_lt hcum hk', ?_⟩
      intro s hs
      rw [mem_ack_out] at hs
      rw [ack_cum, ack_next]
      have hb := hout s hs.1
      -- what survives lies above the acknowledged range
      have hks : k < s := by
        by_contra hle
        exact hs.2 ⟨hb.1, not_lt.mp hle⟩
      exact ⟨max_lt hb.1 hks, hb.2⟩
  · exact iff_of_true ⟨hcum, fun s hs => hout s hs.1⟩ (fun k hk => nomatch hk)

/-- **Coverage.** In a framed window, where acknowledgements are of numbers handed
out, a number is dropped exactly by a send that fails. -/
theorem covered_step_iff {w : Window} (hf : Framed w) (hr : Rooted w) (h : Covered w)
    (l : Label) : Covered (w.step l) ↔ l.Lossless w := by
  rcases l with _ | ok | k | lost
  · exact iff_of_true h ⟨fun hl => (nomatch hl), fun _ hl => nomatch hl⟩
  · cases ok with
    | true =>
        refine iff_of_true ?_ ⟨fun hl => (nomatch hl), fun _ hl => nomatch hl⟩
        intro s h₀ h₁
        simp only [Window.step, Set.mem_insert_iff] at h₁ ⊢
        by_cases hs : s = w.next
        · exact Or.inr (Or.inl hs)
        · rcases h s h₀ (by omega) with h' | h'
          · exact Or.inl h'
          · exact Or.inr (Or.inr h')
    | false =>
        -- `w.next` is handed out, not acknowledged and not outstanding
        refine iff_of_false ?_ (fun hl => hl.1 rfl)
        intro hc
        rcases hc w.next hr.next_nonneg (by simp only [Window.step]; omega) with h' | h'
        · exact absurd hf.cum_lt (not_lt.mpr h')
        · exact absurd (hf.out_lt _ h').2 (lt_irrefl _)
  · refine iff_of_true ?_ ⟨fun hl => (nomatch hl), fun _ hl => nomatch hl⟩
    intro s h₀ h₁
    simp only [Window.step, ack_next] at h₁
    simp only [Window.step, ack_cum, mem_ack_out]
    rcases h s h₀ h₁ with h' | h'
    · exact Or.inl (le_trans h' (le_max_left _ _))
    · by_cases hk : s ≤ k
      · exact Or.inl (le_trans hk (le_max_right _ _))
      · exact Or.inr ⟨h', fun hc => hk hc.2⟩
  · constructor
    · intro hc
      refine ⟨fun hl => (nomatch hl), ?_⟩
      intro lost' hl s hs hlost
      obtain rfl := Label.resend.inj hl
      obtain ⟨hb₀, hb₁⟩ := hf.out_lt s hs
      have h₀ : 0 ≤ s := by have := hr.cum_ge; omega
      rcases hc s h₀ hb₁ with h' | h'
      · exact absurd hb₀ (not_lt.mpr h')
      · exact h'.2 hlost
    · rintro ⟨-, hl⟩ s h₀ h₁
      rcases h s h₀ h₁ with h' | h'
      · exact Or.inl h'
      · exact Or.inr ⟨h', hl lost rfl s h'⟩

/-- **Backing.** An acknowledgement keeps the acknowledged numbers inside `D`
exactly when everything up to it lies in `D`; no other event touches them. -/
theorem backed_step_iff {D : Set ℤ} {w : Window} (h : Backed D w) (l : Label) :
    Backed D (w.step l) ↔ l.Earned D := by
  rcases l with _ | ok | k | lost
  · exact iff_of_true h (fun k hk => nomatch hk)
  · refine iff_of_true ?_ (fun k hk => nomatch hk)
    cases ok with
    | true => exact h
    | false => exact h
  · constructor
    · -- an ACK: what it newly acknowledges must be in `D`
      intro hb j hj s h₀ h₁
      obtain rfl := Label.ack.inj hj
      exact hb s h₀ (by simp only [Window.step, ack_cum]; exact le_trans h₁ (le_max_right _ _))
    · intro hk s h₀ h₁
      simp only [Window.step, ack_cum] at h₁
      rcases le_max_iff.mp h₁ with h' | h'
      · exact h s h₀ h'
      · exact hk k rfl s h₀ h'
  · exact iff_of_true h (fun k hk => nomatch hk)

end IntHpcc.CumAck
