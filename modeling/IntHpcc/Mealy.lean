/-
Machines that answer every input.

A machine is a function `step : S → E → S × O`: whatever the state, it takes the input,
goes to a state and answers. `after` is the state a list of inputs leads to, `answers` what
was answered on the way.

* `answers_eq_of_simulation`: two machines whose steps keep a relation between their states
  and give the same answer cannot be told apart.
* `foldl_last_write`: a cell that some inputs overwrite and the others leave alone holds
  what the last of them wrote.
-/
import Mathlib.Data.List.Basic
import Mathlib.Tactic.Common

set_option autoImplicit false

namespace IntHpcc.Mealy

/-! ## Runs -/

section

variable {S T E O : Type*}

/-- The state after the inputs. -/
def after (step : S → E → S × O) (s : S) (es : List E) : S := es.foldl (fun s e => (step s e).1) s

/-- The answers, one for each input. -/
def answers (step : S → E → S × O) : S → List E → List O
  | _, [] => []
  | s, e :: es => (step s e).2 :: answers step (step s e).1 es

/-- Two machines that simulate each other: they answer alike and end in related states. -/
theorem answers_eq_of_simulation {f : S → E → S × O} {g : T → E → T × O} {R : S → T → Prop}
    (hstep : ∀ s t e, R s t → (f s e).2 = (g t e).2 ∧ R (f s e).1 (g t e).1) {s : S} {t : T}
    (h : R s t) (es : List E) :
    answers f s es = answers g t es ∧ R (after f s es) (after g t es) := by
  induction es generalizing s t with
  | nil => exact ⟨rfl, h⟩
  | cons e es ih =>
      obtain ⟨hanswer, hnext⟩ := hstep s t e h
      obtain ⟨hanswers, hend⟩ := ih hnext
      refine ⟨?_, hend⟩
      rw [answers, answers, hanswer, hanswers]

end

/-! ## Cells -/

section

variable {S E V : Type*} (cell : S → V) (val : E → V) {step : S → E → S} {p : E → Prop}
  [DecidablePred p]

/-- What an overwritten cell holds. -/
theorem foldl_last_write (hwrite : ∀ s e, p e → cell (step s e) = val e)
    (hkeep : ∀ s e, ¬ p e → cell (step s e) = cell s) (s : S) (es : List E) :
    cell (es.foldl step s) = ((es.filter p).getLast?.map val).getD (cell s) := by
  induction es generalizing s with
  | nil => rfl
  | cons e es ih =>
      rw [List.foldl_cons, ih]
      by_cases he : p e
      · rw [List.filter_cons_of_pos (by simpa using he), List.getLast?_cons, hwrite s e he]
        -- the write of `e` stays if no other follows
        cases (es.filter p).getLast? with
        | none => rfl
        | some e' => rfl
      · rw [List.filter_cons_of_neg (by simpa using he), hkeep s e he]

end

end IntHpcc.Mealy
