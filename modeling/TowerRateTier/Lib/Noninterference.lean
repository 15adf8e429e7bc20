import Mathlib.Data.List.Basic
import Mathlib.Tactic.TypeStar

/-!
# Noninterference of a machine with outputs

An observer sees some of the inputs of a machine, through `view`, and the outputs
given to these. The inputs it does not see are hidden from it if they change the
state only in a way that it cannot notice later: a relation between states that
hidden steps keep on one side and visible steps keep on both, with the same
output. The relation may depend on the time of the inputs, which does not
decrease along a run.

* `Unwinding.outputs_eq`: the rule for one run and the visible part of it.
* `Unwinding.outputs_congr`: two runs with the same view have the same outputs.
* `Unwinding.after_rel`: the states at the end of the two runs are related.
-/

/-- A state and an input give a new state and an output. -/
structure Machine (σ ι ω : Type*) where
  step : σ → ι → σ × ω

namespace Machine

variable {σ ι ω ν τ : Type*} (M : Machine σ ι ω) (view : ι → Option ν)

/-- The state after a run. -/
def after (s : σ) (is : List ι) : σ := is.foldl (fun s i => (M.step s i).1) s

/-- The outputs given to the inputs that the observer sees. -/
def outputs : σ → List ι → List ω
  | _, [] => []
  | s, i :: is =>
    if (view i).isSome then (M.step s i).2 :: outputs (M.step s i).1 is
    else outputs (M.step s i).1 is

@[simp] theorem after_cons (s : σ) (i : ι) (is : List ι) :
    M.after s (i :: is) = M.after (M.step s i).1 is := rfl

variable {M view}

theorem outputs_hidden (s : σ) {i : ι} (is : List ι) (h : view i = none) :
    M.outputs view s (i :: is) = M.outputs view (M.step s i).1 is := by
  rw [outputs, if_neg (by simp [h])]

theorem outputs_visible (s : σ) {i : ι} (is : List ι) {v : ν} (h : view i = some v) :
    M.outputs view s (i :: is) = (M.step s i).2 :: M.outputs view (M.step s i).1 is := by
  rw [outputs, if_pos (by simp [h])]

variable (M view)

/-- The states that the observer cannot tell apart from time `t` on: a hidden step on
    one side and a visible one on both sides keep them so. -/
structure Unwinding [LE τ] (time : ι → τ) where
  rel : τ → σ → σ → Prop
  mono : ∀ t t' s s', t ≤ t' → rel t s s' → rel t' s s'
  hidden : ∀ s s' i, view i = none → rel (time i) s s' → rel (time i) (M.step s i).1 s'
  visible : ∀ s s' i j v, view i = some v → view j = some v → rel (time i) s s' →
    (M.step s i).2 = (M.step s' j).2 ∧ rel (time i) (M.step s i).1 (M.step s' j).1

namespace Unwinding

variable {M view} [LE τ] {time : ι → τ} (U : M.Unwinding view time)

/-- A run and one that consists of visible inputs only: the outputs are the same, and
    the states at the end are related. -/
theorem outputs_and_after (is : List ι) :
    ∀ (js : List ι) (t : τ) (s s' : σ), U.rel t s s' → (∀ i ∈ is, t ≤ time i) →
      is.Pairwise (fun i j => time i ≤ time j) → (∀ j ∈ js, (view j).isSome) →
      is.filterMap view = js.filterMap view →
      M.outputs view s is = M.outputs view s' js ∧
        ∃ t', U.rel t' (M.after s is) (M.after s' js) := by
  induction is with
  | nil =>
    intro js t s s' hrel _ _ hvis hview
    cases js with
    | nil => exact ⟨rfl, t, hrel⟩
    | cons j js =>
      obtain ⟨v, hv⟩ := Option.isSome_iff_exists.mp (hvis j List.mem_cons_self)
      rw [List.filterMap_cons_some hv] at hview
      cases hview
  | cons i is ih =>
    intro js t s s' hrel htime hsorted hvis hview
    obtain ⟨hle, hsorted⟩ := List.pairwise_cons.mp hsorted
    have hi := U.mono _ _ _ _ (htime i List.mem_cons_self) hrel
    cases hv : view i with
    | none =>
      rw [List.filterMap_cons_none hv] at hview
      rw [outputs_hidden s is hv, after_cons]
      exact ih js (time i) _ s' (U.hidden s s' i hv hi) hle hsorted hvis hview
    | some v =>
      rw [List.filterMap_cons_some hv] at hview
      cases js with
      | nil => cases hview
      | cons j js =>
        obtain ⟨w, hw⟩ := Option.isSome_iff_exists.mp (hvis j List.mem_cons_self)
        rw [List.filterMap_cons_some hw, List.cons.injEq] at hview
        obtain ⟨rfl, hview⟩ := hview
        obtain ⟨hout, hnext⟩ := U.visible s s' i j v hv hw hi
        have hrest := ih js (time i) _ _ hnext hle hsorted
          (fun x hx => hvis x (List.mem_cons_of_mem _ hx)) hview
        rw [outputs_visible s is hv, outputs_visible s' js hw, after_cons, after_cons, hout,
          hrest.1]
        exact ⟨rfl, hrest.2⟩

/-- **Hidden inputs.** They can be left out of a run. -/
theorem outputs_eq {is js : List ι} {t : τ} {s s' : σ} (hrel : U.rel t s s')
    (htime : ∀ i ∈ is, t ≤ time i) (hsorted : is.Pairwise fun i j => time i ≤ time j)
    (hvis : ∀ j ∈ js, (view j).isSome) (hview : is.filterMap view = js.filterMap view) :
    M.outputs view s is = M.outputs view s' js :=
  (U.outputs_and_after is js t s s' hrel htime hsorted hvis hview).1

theorem after_rel {is js : List ι} {t : τ} {s s' : σ} (hrel : U.rel t s s')
    (htime : ∀ i ∈ is, t ≤ time i) (hsorted : is.Pairwise fun i j => time i ≤ time j)
    (hvis : ∀ j ∈ js, (view j).isSome) (hview : is.filterMap view = js.filterMap view) :
    ∃ t', U.rel t' (M.after s is) (M.after s' js) :=
  (U.outputs_and_after is js t s s' hrel htime hsorted hvis hview).2

/-- The visible part of a run. -/
theorem filterMap_filter (view : ι → Option ν) (is : List ι) :
    (is.filter fun i => (view i).isSome).filterMap view = is.filterMap view := by
  rw [List.filterMap_filter]
  congr 1
  funext i
  cases h : view i <;> simp

/-- **Noninterference.** Two runs from one state with the same view have the same
    outputs, whatever the hidden inputs are. -/
theorem outputs_congr {is js : List ι} {t : τ} {s : σ} (hrefl : U.rel t s s)
    (his : ∀ i ∈ is, t ≤ time i) (hjs : ∀ j ∈ js, t ≤ time j)
    (hisort : is.Pairwise fun i j => time i ≤ time j)
    (hjsort : js.Pairwise fun i j => time i ≤ time j)
    (hview : is.filterMap view = js.filterMap view) :
    M.outputs view s is = M.outputs view s js := by
  have hvis : ∀ k ∈ is.filter fun i => (view i).isSome, (view k).isSome := by
    intro k hk
    simpa using (List.mem_filter.mp hk).2
  calc M.outputs view s is
      = M.outputs view s (is.filter fun i => (view i).isSome) :=
        U.outputs_eq hrefl his hisort hvis (filterMap_filter view is).symm
    _ = M.outputs view s js :=
        (U.outputs_eq hrefl hjs hjsort hvis
          (hview.symm.trans (filterMap_filter view is).symm)).symm

end Unwinding

end Machine
