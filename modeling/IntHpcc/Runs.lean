/-
Runs of a partial transition system: the rules every whole-run statement of this
development goes through.

A system is a function `step : E → S → Option S`; `none` says that the event is
not enabled. Nothing here knows what the states or the events are.

* `run_invariant` is the induction rule: what every step preserves holds of every
  state a run reaches.
* `always_iff_each` is the rule behind the exact conditions: when, step by step
  and from a good state, the next state is good *exactly* if the step meets a
  condition, a whole run stays good exactly if all its steps meet it.
* `run_simulates` is the rule for two systems: what matches every step matches a run.
* `Segment` names two events of one run together with everything between them; the
  temporal laws ("between two cuts …") are statements about segments.
* `recorded` pairs a system with notes it takes along the way and never reads.
* `makes_within_iff` bounds a loop that is fed from outside: it is over in the rounds it
  has room for exactly if each of them takes up room.
-/
import Mathlib.Data.Int.Notation
import Mathlib.Data.List.Basic
import Mathlib.Data.Nat.Find
import Mathlib.Order.Basic
import Mathlib.Tactic.Common

set_option autoImplicit false

namespace IntHpcc.Runs

section

variable {S E : Type*} (step : E → S → Option S)

/-- The state reached by a list of events, if each one was enabled in its turn. -/
def run (s : S) : List E → Option S
  | [] => some s
  | e :: es => (step e s).bind fun s' => run s' es

@[simp] theorem run_nil (s : S) : run step s [] = some s := rfl

theorem run_cons (s : S) (e : E) (es : List E) :
    run step s (e :: es) = (step e s).bind fun s' => run step s' es := rfl

theorem run_append (s : S) (es fs : List E) :
    run step s (es ++ fs) = (run step s es).bind fun s' => run step s' fs := by
  induction es generalizing s with
  | nil => rfl
  | cons e es ih =>
      rw [List.cons_append, run_cons, run_cons]
      cases h : step e s with
      | none => rfl
      | some s₁ => simp only [Option.bind_some, ih s₁]

/-- A run of `e :: es` is a step followed by a run. -/
theorem run_cons_eq_some {s s' : S} {e : E} {es : List E} :
    run step s (e :: es) = some s' ↔ ∃ s₁, step e s = some s₁ ∧ run step s₁ es = some s' := by
  rw [run_cons, Option.bind_eq_some_iff]

/-- A run over an append stops over in the middle. -/
theorem run_append_eq_some {s s' : S} {es fs : List E} :
    run step s (es ++ fs) = some s'
      ↔ ∃ s₁, run step s es = some s₁ ∧ run step s₁ fs = some s' := by
  rw [run_append, Option.bind_eq_some_iff]

variable {step}

/-- What a run shows at its end is what its last state shows. -/
theorem shown_of_run {α : Type*} {shown : S → α} {s s' : S} {es : List E} {x : α}
    (hx : (run step s es).map shown = some x) (hrun : run step s es = some s') :
    shown s' = x := by
  rw [hrun, Option.map_some, Option.some.injEq] at hx
  exact hx

/-! ## Invariants -/

/-- **The invariant rule.** What every step preserves holds of every state a run
reaches. -/
theorem run_invariant {P : S → Prop}
    (hstep : ∀ e s s', P s → step e s = some s' → P s')
    {s s' : S} {es : List E} (hs : P s) (hrun : run step s es = some s') : P s' := by
  induction es generalizing s with
  | nil =>
      rw [run_nil, Option.some.injEq] at hrun
      exact hrun ▸ hs
  | cons e es ih =>
      obtain ⟨s₁, h₁, hrest⟩ := (run_cons_eq_some step).mp hrun
      exact ih (hstep e s s₁ hs h₁) hrest

/-! ## Statements about every state and every step of one run -/

variable (step)

/-- `P` holds in every state the run `es` from `s` goes through. -/
def AlwaysIn (P : S → Prop) (s : S) (es : List E) : Prop :=
  ∀ pre post s', es = pre ++ post → run step s pre = some s' → P s'

/-- Every step the run `es` takes from `s` satisfies `C`, given its two ends. -/
def EachStep (C : S → E → S → Prop) (s : S) (es : List E) : Prop :=
  ∀ pre e post s₁ s₂, es = pre ++ e :: post → run step s pre = some s₁ →
    step e s₁ = some s₂ → C s₁ e s₂

variable {step}

theorem alwaysIn_nil {P : S → Prop} {s : S} : AlwaysIn step P s [] ↔ P s := by
  constructor
  · intro h
    exact h [] [] s rfl rfl
  · intro h pre post s' heq hrun
    obtain ⟨rfl, rfl⟩ := List.append_eq_nil_iff.mp heq.symm
    rw [run_nil, Option.some.injEq] at hrun
    exact hrun ▸ h

theorem alwaysIn_cons {P : S → Prop} {s s₁ : S} {e : E} {es : List E}
    (h₁ : step e s = some s₁) :
    AlwaysIn step P s (e :: es) ↔ P s ∧ AlwaysIn step P s₁ es := by
  constructor
  · intro h
    -- the start is the state after the empty prefix; later states get one event in front
    refine ⟨h [] (e :: es) s rfl rfl, ?_⟩
    intro pre post s' heq hrun
    refine h (e :: pre) post s' (by rw [heq]; rfl) ?_
    rw [run_cons, h₁, Option.bind_some]
    exact hrun
  · rintro ⟨hs, hrest⟩ pre post s' heq hrun
    cases pre with
    | nil =>
        rw [run_nil, Option.some.injEq] at hrun
        exact hrun ▸ hs
    | cons f pre =>
        rw [List.cons_append, List.cons.injEq] at heq
        obtain ⟨rfl, heq⟩ := heq
        rw [run_cons, h₁, Option.bind_some] at hrun
        exact hrest pre post s' heq hrun

theorem eachStep_nil {C : S → E → S → Prop} {s : S} : EachStep step C s [] := by
  intro pre e post s₁ s₂ heq
  simp at heq

theorem eachStep_cons {C : S → E → S → Prop} {s s₁ : S} {e : E} {es : List E}
    (h₁ : step e s = some s₁) :
    EachStep step C s (e :: es) ↔ C s e s₁ ∧ EachStep step C s₁ es := by
  constructor
  · intro h
    -- the first step is the one after the empty prefix
    refine ⟨h [] e es s s₁ rfl rfl h₁, ?_⟩
    intro pre f post t₁ t₂ heq hrun hstep
    refine h (e :: pre) f post t₁ t₂ (by rw [heq]; rfl) ?_ hstep
    rw [run_cons, h₁, Option.bind_some]
    exact hrun
  · rintro ⟨hC, hrest⟩ pre f post t₁ t₂ heq hrun hstep
    cases pre with
    | nil =>
        rw [List.nil_append, List.cons.injEq] at heq
        obtain ⟨rfl, rfl⟩ := heq
        rw [run_nil, Option.some.injEq] at hrun
        subst hrun
        rw [h₁, Option.some.injEq] at hstep
        exact hstep ▸ hC
    | cons g pre =>
        rw [List.cons_append, List.cons.injEq] at heq
        obtain ⟨rfl, heq⟩ := heq
        rw [run_cons, h₁, Option.bind_some] at hrun
        exact hrest pre f post t₁ t₂ heq hrun hstep

/-- **The exactness rule.** `I` is an invariant as long as `P` holds; from a state that
satisfies `I` and `P` the next state satisfies `P` exactly if the step meets `C`. Then a
run stays in `P` exactly if all its steps meet `C`. -/
theorem always_iff_each_while {I P : S → Prop} {C : S → E → S → Prop}
    (hI : ∀ e s s', I s → P s → P s' → step e s = some s' → I s')
    (hstep : ∀ e s s', I s → P s → step e s = some s' → (P s' ↔ C s e s'))
    {s s' : S} {es : List E} (hs : I s) (hP : P s) (hrun : run step s es = some s') :
    AlwaysIn step P s es ↔ EachStep step C s es := by
  induction es generalizing s with
  | nil => exact ⟨fun _ => eachStep_nil, fun _ => alwaysIn_nil.mpr hP⟩
  | cons e es ih =>
      obtain ⟨s₁, h₁, hrest⟩ := (run_cons_eq_some step).mp hrun
      rw [alwaysIn_cons h₁, eachStep_cons h₁]
      constructor
      · rintro ⟨_, hall⟩
        have hP₁ : P s₁ := hall [] es s₁ rfl rfl
        have hI₁ : I s₁ := hI e s s₁ hs hP hP₁ h₁
        exact ⟨(hstep e s s₁ hs hP h₁).mp hP₁, (ih hI₁ hP₁ hrest).mp hall⟩
      · rintro ⟨hC, hall⟩
        have hP₁ : P s₁ := (hstep e s s₁ hs hP h₁).mpr hC
        have hI₁ : I s₁ := hI e s s₁ hs hP hP₁ h₁
        exact ⟨hP, (ih hI₁ hP₁ hrest).mpr hall⟩

/-- The exactness rule with an invariant of all runs. -/
theorem always_iff_each {I P : S → Prop} {C : S → E → S → Prop}
    (hI : ∀ e s s', I s → step e s = some s' → I s')
    (hstep : ∀ e s s', I s → P s → step e s = some s' → (P s' ↔ C s e s'))
    {s s' : S} {es : List E} (hs : I s) (hP : P s) (hrun : run step s es = some s') :
    AlwaysIn step P s es ↔ EachStep step C s es :=
  always_iff_each_while (fun e s s' h _ _ => hI e s s' h) hstep hs hP hrun

/-- Under a condition met by all its steps, a run keeps an invariant that the
condition makes inductive. -/
theorem run_invariant_of_each {P : S → Prop} {C : S → E → S → Prop}
    (hstep : ∀ e s s', P s → step e s = some s' → C s e s' → P s')
    {s s' : S} {es : List E} (hs : P s) (hC : EachStep step C s es)
    (hrun : run step s es = some s') : P s' := by
  induction es generalizing s with
  | nil =>
      rw [run_nil, Option.some.injEq] at hrun
      exact hrun ▸ hs
  | cons e es ih =>
      obtain ⟨s₁, h₁, hrest⟩ := (run_cons_eq_some step).mp hrun
      obtain ⟨hC₁, hCs⟩ := (eachStep_cons h₁).mp hC
      exact ih (hstep e s s₁ hs h₁ hC₁) hCs hrest

/-- A condition on all steps is inherited by the part of the run before a point. -/
theorem EachStep.left {C : S → E → S → Prop} {s : S} {es fs : List E}
    (h : EachStep step C s (es ++ fs)) : EachStep step C s es := by
  intro pre e post s₁ s₂ heq
  exact h pre e (post ++ fs) s₁ s₂ (by rw [heq]; simp)

/-- … and by the part after it. -/
theorem EachStep.right {C : S → E → S → Prop} {s s' : S} {es fs : List E}
    (h : EachStep step C s (es ++ fs)) (hrun : run step s es = some s') :
    EachStep step C s' fs := by
  intro pre e post s₁ s₂ heq hpre
  refine h (es ++ pre) e post s₁ s₂ (by rw [heq]; simp) ?_
  rw [run_append, hrun, Option.bind_some]
  exact hpre

/-- One event more. -/
theorem EachStep.snoc {C : S → E → S → Prop} {s : S} {es : List E} {e : E}
    (h : EachStep step C s es)
    (hlast : ∀ s₁ s₂, run step s es = some s₁ → step e s₁ = some s₂ → C s₁ e s₂) :
    EachStep step C s (es ++ [e]) := by
  intro pre f post s₁ s₂ heq hpre hstep
  rcases List.eq_nil_or_concat post with rfl | ⟨post, g, rfl⟩
  · -- the event is the last one
    obtain ⟨rfl, hlists⟩ := List.append_inj' heq rfl
    obtain rfl := List.head_eq_of_cons_eq hlists
    exact hlast s₁ s₂ hpre hstep
  · rw [List.concat_eq_append, ← List.cons_append, ← List.append_assoc] at heq
    obtain ⟨rfl, -⟩ := List.append_inj' heq rfl
    exact h pre f post s₁ s₂ rfl hpre hstep

/-- A condition on both parts. -/
theorem EachStep.append {C : S → E → S → Prop} {s s' : S} {es fs : List E}
    (hes : EachStep step C s es) (hrun : run step s es = some s') (hfs : EachStep step C s' fs) :
    EachStep step C s (es ++ fs) := by
  induction es generalizing s with
  | nil =>
      rw [run_nil, Option.some.injEq] at hrun
      exact hrun ▸ hfs
  | cons e es ih =>
      obtain ⟨s₁, h₁, hrest⟩ := (run_cons_eq_some step).mp hrun
      obtain ⟨he, hes⟩ := (eachStep_cons h₁).mp hes
      rw [List.cons_append, eachStep_cons h₁]
      exact ⟨he, ih hes hrest⟩

theorem EachStep.and {C D : S → E → S → Prop} {s : S} {es : List E}
    (hC : EachStep step C s es) (hD : EachStep step D s es) :
    EachStep step (fun s e s' => C s e s' ∧ D s e s') s es :=
  fun pre e post s₁ s₂ heq hrun hstep =>
    ⟨hC pre e post s₁ s₂ heq hrun hstep, hD pre e post s₁ s₂ heq hrun hstep⟩

theorem EachStep.mono {C D : S → E → S → Prop} {s : S} {es : List E}
    (h : EachStep step C s es) (hCD : ∀ s₁ e s₂, C s₁ e s₂ → D s₁ e s₂) :
    EachStep step D s es :=
  fun pre e post s₁ s₂ heq hrun hstep => hCD _ _ _ (h pre e post s₁ s₂ heq hrun hstep)

/-- What every step of an event satisfies, each step of a run of such events does. -/
theorem EachStep.of_forall {C : S → E → S → Prop} {s : S} {es : List E}
    (h : ∀ e ∈ es, ∀ s₁ s₂, C s₁ e s₂) : EachStep step C s es := by
  intro pre e post s₁ s₂ heq _ _
  refine h e ?_ s₁ s₂
  rw [heq]
  exact List.mem_append_right _ List.mem_cons_self

/-- **The simulation rule.** When every allowed step of one system is matched by a run of
another that goes through good steps only and ends in a related state, so is every run.
What is a good step may depend on the state of the first system, as long as it stays one. -/
theorem run_simulates {T F : Type*} {step' : F → T → Option T} {R : S → T → Prop}
    {Allowed : E → Prop} {Good : S → T → F → T → Prop}
    (hgood : ∀ e s s' t f t', Good s t f t' → step e s = some s' → Good s' t f t')
    (hstep : ∀ e s s' t, R s t → Allowed e → step e s = some s' →
      ∃ fs t', run step' t fs = some t' ∧ EachStep step' (Good s) t fs ∧ R s' t')
    {s s' : S} {t : T} {es : List E} (hs : R s t) (hallowed : ∀ e ∈ es, Allowed e)
    (hrun : run step s es = some s') :
    ∃ fs t', run step' t fs = some t' ∧ EachStep step' (Good s') t fs ∧ R s' t' := by
  induction es generalizing s t with
  | nil =>
      rw [run_nil, Option.some.injEq] at hrun
      exact ⟨[], t, rfl, eachStep_nil, hrun ▸ hs⟩
  | cons e es ih =>
      obtain ⟨s₁, h₁, hrest⟩ := (run_cons_eq_some step).mp hrun
      obtain ⟨he, hes⟩ := List.forall_mem_cons.mp hallowed
      obtain ⟨fs, t₁, hfs, hfirst, ht₁⟩ := hstep e s s₁ t hs he h₁
      obtain ⟨fs', t', hfs', hlater, ht'⟩ := ih ht₁ hes hrest
      -- what was a good step at first still is one at the end
      have hstay : EachStep step' (Good s') t fs := hfirst.mono fun t₁ f t₂ h =>
        run_invariant (fun e s s' h => hgood e s s' t₁ f t₂ h) (hgood e s s₁ t₁ f t₂ h h₁) hrest
      exact ⟨fs ++ fs', t', (run_append_eq_some step').mpr ⟨t₁, hfs, hfs'⟩,
        hstay.append hfs hlater, ht'⟩

/-- What follows, step by step, from an invariant that a condition makes inductive
holds of every step of a run that meets the condition. -/
theorem EachStep.of_invariant {P : S → Prop} {C D : S → E → S → Prop}
    (hP : ∀ e s s', P s → step e s = some s' → C s e s' → P s')
    (hD : ∀ e s s', P s → step e s = some s' → C s e s' → D s e s')
    {s : S} {es : List E} (hs : P s) (hC : EachStep step C s es) : EachStep step D s es := by
  intro pre e post s₁ s₂ heq hpre hstep
  have hpreC : EachStep step C s pre := by
    rw [heq] at hC
    exact hC.left
  have hP₁ : P s₁ := run_invariant_of_each hP hs hpreC hpre
  exact hD e s₁ s₂ hP₁ hstep (hC pre e post s₁ s₂ heq hpre hstep)

/-! ## Two events of one run -/

variable (step)

/-- Events `a` and `b` of the run `es` from `s`: `a` takes `s₁` to `s₂`, the events
`mid` take `s₂` to `s₃`, and `b` takes `s₃` to `s₄`. -/
structure Segment (s : S) (es : List E) (s₁ : S) (a : E) (s₂ : S) (mid : List E)
    (s₃ : S) (b : E) (s₄ : S) : Prop where
  split : ∃ pre post, es = pre ++ a :: (mid ++ b :: post) ∧ run step s pre = some s₁
  first : step a s₁ = some s₂
  between : run step s₂ mid = some s₃
  second : step b s₃ = some s₄

variable {step}

/-- The last event of a run is a step between the states before it and after it. -/
theorem step_of_runs {s t u : S} {es : List E} {e : E} (ht : run step s es = some t)
    (hu : run step s (es ++ [e]) = some u) : step e t = some u := by
  rw [run_append, ht, Option.bind_some, run_cons] at hu
  obtain ⟨v, hv, hnil⟩ := Option.bind_eq_some_iff.mp hu
  rw [run_nil, Option.some.injEq] at hnil
  rw [hv, hnil]

/-- Two events of a run that ends with the second, from the four states around them. -/
theorem Segment.of_runs_between {s s₁ s₂ s₃ s₄ : S} {pre mid : List E} {a b : E}
    (h₁ : run step s pre = some s₁) (h₂ : run step s (pre ++ [a]) = some s₂)
    (h₃ : run step s (pre ++ [a] ++ mid) = some s₃)
    (h₄ : run step s (pre ++ [a] ++ mid ++ [b]) = some s₄) :
    Segment step s (pre ++ [a] ++ mid ++ [b]) s₁ a s₂ mid s₃ b s₄ := by
  refine ⟨⟨pre, [], by simp, h₁⟩, step_of_runs h₁ h₂, ?_, step_of_runs h₃ h₄⟩
  rw [run_append, h₂, Option.bind_some] at h₃
  exact h₃

/-- Two neighbouring events of a run that ends with them. -/
theorem Segment.of_runs {s s₁ s₂ s₄ : S} {pre : List E} {a b : E}
    (h₁ : run step s pre = some s₁) (h₂ : run step s (pre ++ [a]) = some s₂)
    (h₄ : run step s (pre ++ [a] ++ [b]) = some s₄) :
    Segment step s (pre ++ [a] ++ [b]) s₁ a s₂ [] s₂ b s₄ := by
  have hnil : pre ++ [a] ++ [] = pre ++ [a] := List.append_nil _
  have hseg : Segment step s (pre ++ [a] ++ [] ++ [b]) s₁ a s₂ [] s₂ b s₄ :=
    Segment.of_runs_between h₁ h₂ (by rw [hnil, h₂]) (by rw [hnil, h₄])
  rwa [hnil] at hseg

/-- The places of the two events in the run, and the runs to the state after the first and
to the state before the second. -/
theorem Segment.indices {s s₁ s₂ s₃ s₄ : S} {es mid : List E} {a b : E}
    (h : Segment step s es s₁ a s₂ mid s₃ b s₄) :
    ∃ i j, i < j ∧ es[i]? = some a ∧ es[j]? = some b ∧
      run step s (es.take (i + 1)) = some s₂ ∧ run step s (es.take j) = some s₃ := by
  obtain ⟨pre, post, rfl, hpre⟩ := h.split
  -- the state behind `a`, and the one before `b`
  have hsecond : run step s (pre ++ [a]) = some s₂ := by
    rw [run_append, hpre, Option.bind_some, run_cons, h.first]
    rfl
  have hthird : run step s (pre ++ [a] ++ mid) = some s₃ := by
    rw [run_append, hsecond, Option.bind_some]
    exact h.between
  refine ⟨pre.length, (pre ++ [a] ++ mid).length, ?_, ?_, ?_, ?_, ?_⟩
  · simp only [List.length_append, List.length_singleton]
    omega
  · simp
  · simp
  · rw [List.take_length_add_append]
    exact hsecond
  · have hsplit : pre ++ a :: (mid ++ b :: post) = (pre ++ [a] ++ mid) ++ b :: post := by simp
    rw [hsplit, List.take_left]
    exact hthird

/-- An invariant holds at the start of a segment. -/
theorem Segment.at_start {P : S → Prop} {s s₁ s₂ s₃ s₄ : S} {es mid : List E} {a b : E}
    (h : Segment step s es s₁ a s₂ mid s₃ b s₄)
    (hstep : ∀ e s s', P s → step e s = some s' → P s') (hs : P s) : P s₁ := by
  obtain ⟨pre, post, _, hpre⟩ := h.split
  exact run_invariant hstep hs hpre

/-- The steps of a segment meet what all the steps of the run meet. -/
theorem Segment.each {C : S → E → S → Prop} {s s₁ s₂ s₃ s₄ : S} {es mid : List E} {a b : E}
    (h : Segment step s es s₁ a s₂ mid s₃ b s₄) (hC : EachStep step C s es) :
    C s₁ a s₂ ∧ EachStep step C s₂ mid ∧ C s₃ b s₄ := by
  obtain ⟨pre, post, rfl, hpre⟩ := h.split
  have hrest : EachStep step C s₁ (a :: (mid ++ b :: post)) := hC.right hpre
  obtain ⟨ha, hmid⟩ := (eachStep_cons h.first).mp hrest
  exact ⟨ha, hmid.left, ((eachStep_cons h.second).mp (hmid.right h.between)).1⟩

/-- The steps before a segment meet what all the steps of the run meet. -/
theorem Segment.each_before {C : S → E → S → Prop} {P : S → Prop} {s s₁ s₂ s₃ s₄ : S}
    {es mid : List E} {a b : E} (h : Segment step s es s₁ a s₂ mid s₃ b s₄)
    (hC : EachStep step C s es) (hs : P s)
    (hstep : ∀ e s s', P s → step e s = some s' → C s e s' → P s') : P s₁ := by
  obtain ⟨pre, post, rfl, hpre⟩ := h.split
  exact run_invariant_of_each hstep hs hC.left hpre

/-! ## Clocks -/

/-- The events `es` take place in order between `t` and `t'`; `within` says of one event
that its clock readings lie between two times. -/
inductive Clocked {E T : Type*} (within : T → E → T → Prop) : T → List E → T → Prop
  | nil (t : T) : Clocked within t [] t
  | cons {t t₁ t' : T} {e : E} {es : List E} (first : within t e t₁)
      (rest : Clocked within t₁ es t') : Clocked within t (e :: es) t'

variable {T : Type*} {within : T → E → T → Prop} {t t' : T}

theorem clocked_cons {e : E} {es : List E} :
    Clocked within t (e :: es) t' ↔ ∃ t₁, within t e t₁ ∧ Clocked within t₁ es t' := by
  constructor
  · intro h
    cases h with
    | cons first rest => exact ⟨_, first, rest⟩
  · rintro ⟨t₁, first, rest⟩
    exact .cons first rest

theorem clocked_append {es fs : List E} :
    Clocked within t (es ++ fs) t' ↔ ∃ t₁, Clocked within t es t₁ ∧ Clocked within t₁ fs t' := by
  induction es generalizing t with
  | nil =>
      constructor
      · intro h
        exact ⟨t, .nil t, h⟩
      · rintro ⟨t₁, h₁, h⟩
        cases h₁
        exact h
  | cons e es ih =>
      rw [List.cons_append, clocked_cons]
      simp only [ih, clocked_cons]
      constructor
      · rintro ⟨t₁, first, t₂, h₁, h₂⟩
        exact ⟨t₂, ⟨t₁, first, h₁⟩, h₂⟩
      · rintro ⟨t₂, ⟨t₁, first, h₁⟩, h₂⟩
        exact ⟨t₁, first, t₂, h₁, h₂⟩

/-- The invariant rule with the time gone by. -/
theorem run_invariant_clocked {P : T → S → Prop}
    (hstep : ∀ t e t₁ s s₁, P t s → within t e t₁ → step e s = some s₁ → P t₁ s₁)
    {s s' : S} {es : List E} (hs : P t s) (hc : Clocked within t es t')
    (hrun : run step s es = some s') : P t' s' := by
  induction es generalizing s t with
  | nil =>
      cases hc
      rw [run_nil, Option.some.injEq] at hrun
      exact hrun ▸ hs
  | cons e es ih =>
      obtain ⟨t₁, hfirst, hrest⟩ := clocked_cons.mp hc
      obtain ⟨s₁, h₁, hrun⟩ := (run_cons_eq_some step).mp hrun
      exact ih (hstep t e t₁ s s₁ hs hfirst h₁) hrest hrun

/-- The times of a segment. -/
theorem Segment.clocked {s s₁ s₂ s₃ s₄ : S} {es mid : List E} {a b : E}
    (h : Segment step s es s₁ a s₂ mid s₃ b s₄) (hc : Clocked within t es t') :
    ∃ t₁ t₂ t₃ t₄, within t₁ a t₂ ∧ Clocked within t₂ mid t₃ ∧ within t₃ b t₄ := by
  obtain ⟨pre, post, rfl, -⟩ := h.split
  obtain ⟨t₁, -, hrest⟩ := clocked_append.mp hc
  obtain ⟨t₂, ha, hrest⟩ := clocked_cons.mp hrest
  obtain ⟨t₃, hmid, hrest⟩ := clocked_append.mp hrest
  obtain ⟨t₄, hb, -⟩ := clocked_cons.mp hrest
  exact ⟨t₁, t₂, t₃, t₄, ha, hmid, hb⟩

/-- Of two events of a run that satisfy `A` and `B`, in this order, `G` holds. -/
def Spaced {S E : Type*} (step : E → S → Option S) (A B : S → E → S → Prop) (G : E → E → Prop)
    (s : S) (es : List E) : Prop :=
  ∀ s₁ a s₂ mid s₃ b s₄, Segment step s es s₁ a s₂ mid s₃ b s₄ → A s₁ a s₂ → B s₃ b s₄ → G a b

/-- **The spacing rule.** `I` holds all along the run; the first event establishes `P`,
which the events in between keep as time goes by, and which says when the second can come. -/
theorem Spaced.of_clocked {A B : S → E → S → Prop} {G : E → E → Prop} {I : S → Prop}
    {P : E → T → S → Prop} {s : S} {es : List E}
    (hI : ∀ e s s', I s → step e s = some s' → I s')
    (hfirst : ∀ t a t₁ s s₁, I s → within t a t₁ → step a s = some s₁ → A s a s₁ → P a t₁ s₁)
    (hkeep : ∀ a t e t₁ s s₁, I s → P a t s → within t e t₁ → step e s = some s₁ → P a t₁ s₁)
    (hlast : ∀ a t b t₁ s s₁, I s → P a t s → within t b t₁ → step b s = some s₁ → B s b s₁ →
      G a b)
    (hs : I s) (hc : Clocked within t es t') : Spaced step A B G s es := by
  intro s₁ a s₂ mid s₃ b s₄ hseg hA hB
  obtain ⟨t₁, t₂, t₃, t₄, ha, hmid, hb⟩ := hseg.clocked hc
  have hI₁ : I s₁ := hseg.at_start hI hs
  have hP₂ : P a t₂ s₂ := hfirst t₁ a t₂ s₁ s₂ hI₁ ha hseg.first hA
  have hP₃ : I s₃ ∧ P a t₃ s₃ :=
    run_invariant_clocked (P := fun t s => I s ∧ P a t s)
      (fun t e t₁ s s₁ h hw hstep => ⟨hI e s s₁ h.1 hstep, hkeep a t e t₁ s s₁ h.1 h.2 hw hstep⟩)
      ⟨hI a s₁ s₂ hI₁ hseg.first, hP₂⟩ hmid hseg.between
  exact hlast a t₃ b t₄ s₃ s₄ hP₃.1 hP₃.2 hb hseg.second hB

end

/-! ## Notes -/

section

variable {S E H : Type*} (step : E → S → Option S) (note : E → S → List H)

/-- The system together with the notes it has taken: `note` says what is noted about an
event and the state it meets. -/
def recorded (e : E) (q : S × List H) : Option (S × List H) :=
  (step e q.1).map fun s => (s, q.2 ++ note e q.1)

variable {step note}

theorem recorded_eq_some {e : E} {q q' : S × List H} :
    recorded step note e q = some q' ↔ step e q.1 = some q'.1 ∧ q'.2 = q.2 ++ note e q.1 := by
  rw [recorded, Option.map_eq_some_iff]
  constructor
  · rintro ⟨s, hs, rfl⟩
    exact ⟨hs, rfl⟩
  · rintro ⟨hs, hn⟩
    exact ⟨q'.1, hs, by rw [← hn]⟩

/-- Every run can be recorded. -/
theorem exists_recorded {s s' : S} {es : List E} (h : run step s es = some s') (l : List H) :
    ∃ l', run (recorded step note) (s, l) es = some (s', l') := by
  induction es generalizing s l with
  | nil =>
      rw [run_nil, Option.some.injEq] at h
      exact ⟨l, by rw [h]; rfl⟩
  | cons e es ih =>
      obtain ⟨s₁, h₁, hrest⟩ := (run_cons_eq_some _).mp h
      obtain ⟨l', hl'⟩ := ih hrest (l ++ note e s)
      exact ⟨l', (run_cons_eq_some _).mpr ⟨_, recorded_eq_some.mpr ⟨h₁, rfl⟩, hl'⟩⟩

end

/-! ## Loops that are fed from outside -/

section

variable {S E A : Type*} (iter : S → A → S) (input : ℕ → A)

/-- The state of a loop after `n` rounds, each of which reads one input. -/
def rounds (s : S) : ℕ → S
  | 0 => s
  | n + 1 => iter (rounds s n) (input n)

/-- The events of `n` rounds. -/
def round_events (ev : A → E) (n : ℕ) : List E := (List.range n).map fun i => ev (input i)

variable {iter} {step : E → S → Option S} {ev : A → E} {guard : S → Prop}

/-- Rounds as a run: the guard holds before each of them. -/
theorem run_rounds (hstep : ∀ a s s', step (ev a) s = some s' ↔ guard s ∧ s' = iter s a)
    (s s' : S) (n : ℕ) : run step s (round_events input ev n) = some s' ↔
      (∀ m < n, guard (rounds iter input s m)) ∧ s' = rounds iter input s n := by
  induction n generalizing s' with
  | zero =>
      rw [round_events, List.range_zero, List.map_nil, run_nil, Option.some.injEq]
      constructor
      · rintro rfl
        exact ⟨fun m hm => absurd hm (Nat.not_lt_zero m), rfl⟩
      · rintro ⟨-, rfl⟩
        rfl
  | succ n ih =>
      -- the last round is split off, so that the guards before it come from `ih`
      have hevents : round_events input ev (n + 1) = round_events input ev n ++ [ev (input n)] := by
        rw [round_events, List.range_succ, List.map_append]
        rfl
      rw [hevents, run_append_eq_some]
      simp only [ih, run_cons_eq_some, run_nil, Option.some.injEq, hstep]
      constructor
      · rintro ⟨s₁, ⟨hall, rfl⟩, s₂, ⟨hlast, rfl⟩, rfl⟩
        refine ⟨fun m hm => ?_, rfl⟩
        rcases Nat.lt_succ_iff_lt_or_eq.mp hm with hlt | rfl
        · exact hall m hlt
        · exact hlast
      · rintro ⟨hall, rfl⟩
        exact ⟨_, ⟨fun m hm => hall m (Nat.lt_succ_of_lt hm), rfl⟩, _,
          ⟨hall n (Nat.lt_succ_self n), rfl⟩, rfl⟩

/-- The loop makes `n` rounds and is over. -/
def Makes (goes : ℕ → Prop) (n : ℕ) : Prop := (∀ m < n, goes m) ∧ ¬ goes n

/-- A loop between an event that opens it and one that closes it: the events of `n` rounds
are a run exactly if the loop makes `n` rounds. -/
theorem run_loop_isSome (hstep : ∀ a s s', step (ev a) s = some s' ↔ guard s ∧ s' = iter s a)
    {first : E} (last : E) {s s₁ : S} (hfirst : step first s = some s₁)
    (hlast : ∀ m, (step last (rounds iter input s₁ m)).isSome ↔ ¬ guard (rounds iter input s₁ m))
    (n : ℕ) : (run step s (first :: (round_events input ev n ++ [last]))).isSome ↔
      Makes (fun m => guard (rounds iter input s₁ m)) n := by
  rw [run_cons, hfirst, Option.bind_some]
  constructor
  · intro h
    obtain ⟨s', hrun⟩ := Option.isSome_iff_exists.mp h
    obtain ⟨s₂, hrounds, hend⟩ := (run_append_eq_some step).mp hrun
    obtain ⟨hall, rfl⟩ := (run_rounds input hstep s₁ _ n).mp hrounds
    obtain ⟨s₃, hclose, -⟩ := (run_cons_eq_some step).mp hend
    exact ⟨hall, (hlast n).mp (Option.isSome_iff_exists.mpr ⟨s₃, hclose⟩)⟩
  · rintro ⟨hall, hend⟩
    have hrounds := (run_rounds input hstep s₁ _ n).mpr ⟨hall, rfl⟩
    obtain ⟨s₃, hclose⟩ := Option.isSome_iff_exists.mp ((hlast n).mpr hend)
    rw [run_append, hrounds, Option.bind_some, run_cons, hclose]
    rfl

end

section

variable {goes counted stuck : ℕ → Prop} {room : ℕ → ℤ}

/-- A loop that does not go on after `n` rounds is over by then. -/
theorem makes_within {n : ℕ} (h : ¬ goes n) : ∃ m ≤ n, Makes goes m := by
  classical
  have hex : ∃ m, ¬ goes m := ⟨n, h⟩
  exact ⟨Nat.find hex, Nat.find_min' hex h,
    fun m hm => not_not.mp (Nat.find_min hex hm), Nat.find_spec hex⟩

/-- **The bound rule.** The loop goes on while there is room and it is not stuck; a round
takes up room if it is counted. It is over within as many rounds as there was room for
exactly if each of them is counted, or it gets stuck by then. -/
theorem makes_within_iff [DecidablePred counted] (hgoes : ∀ n, goes n ↔ 0 < room n ∧ ¬ stuck n)
    (hroom : ∀ n, room (n + 1) = room n - if counted n then 1 else 0) :
    (∃ n ≤ (room 0).toNat, Makes goes n) ↔
      (∀ n < (room 0).toNat, counted n) ∨ ∃ n ≤ (room 0).toNat, stuck n := by
  -- each round takes up one place at most
  have hle : ∀ n, room 0 - n ≤ room n := by
    intro n
    induction n with
    | zero => simp
    | succ n ih =>
        rw [hroom]
        push_cast
        split
        · omega
        · omega
  have hall : ∀ n, (∀ m < n, counted m) → room n = room 0 - n := by
    intro n
    induction n with
    | zero => simp
    | succ n ih =>
        intro h
        rw [hroom, if_pos (h n (Nat.lt_succ_self n)), ih fun m hm => h m (Nat.lt_succ_of_lt hm)]
        omega
  constructor
  · rintro ⟨n, hn, hbefore, hend⟩
    by_cases hs : stuck n
    · exact Or.inr ⟨n, hn, hs⟩
    · refine Or.inl fun m hm => ?_
      have hfull : room n ≤ 0 := by
        by_contra hpos
        exact hend ((hgoes n).mpr ⟨Int.not_le.mp hpos, hs⟩)
      -- a round that is not counted leaves a place free at the end
      by_contra hc
      have hskip : ∀ j, m < j → room 0 - j + 1 ≤ room j := by
        intro j hj
        induction j, hj using Nat.le_induction with
        | base =>
            have hm' := hle m
            rw [hroom, if_neg hc]
            push_cast
            omega
        | succ j hj ih =>
            rw [hroom]
            push_cast
            split
            · omega
            · omega
      have hlast := hle n
      have hmn : m < n := by omega
      have hfree := hskip n hmn
      omega
  · rintro (h | ⟨n, hn, hs⟩)
    · refine makes_within fun hgo => ?_
      have hpos := ((hgoes _).mp hgo).1
      rw [hall _ h] at hpos
      omega
    · obtain ⟨m, hm, hmakes⟩ := makes_within (n := n) fun hgo => ((hgoes n).mp hgo).2 hs
      exact ⟨m, le_trans hm hn, hmakes⟩

end

end IntHpcc.Runs
