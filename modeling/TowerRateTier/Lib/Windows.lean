import TowerRateTier.Lib.VirtualScheduling
import Mathlib.Algebra.Order.BigOperators.Group.List

/-!
# Windows of a virtual schedule

A window of a run begins with an admitted offer and goes on to the end of the
run. The TAT of a schedule is the latest end of a window: the time of its first
offer plus all the work that the run admits from there on.

* `fits_iff_windows`: an offer is refused exactly if it would make some window
  overflow. The rate bound is the one half of this; the other one says that
  nothing is refused without need.
* `admittedBetween_le_of_promptBy`: the rate bound for the offers that have their
  times in an interval, wherever they stand in the run, by how far ahead of later
  offers a TAT may be lost.
-/

namespace VirtualScheduling

variable {α : Type*} [LinearOrder α]

/-! ## Definitions -/

/-- The time before which an operation forgets. -/
def Op.loss : Op α → Option α
  | .offer _ _ => none
  | .forget before => some before

/-- How often a run forgets what is before a time in `(s, t]`. -/
def lossesBetween (s t : α) (ops : List (Op α)) : ℕ :=
  (ops.filterMap Op.loss).countP fun g => s < g ∧ g ≤ t

/-- The offers of the interval `[s, t]` find the TAT at `v` or later. -/
def FoundAt (s t v : α) (tat : Option α) (ops : List (Op α)) : Prop :=
  (∃ u, tat = some u ∧ v ≤ u) ∨ ∀ now inc, Op.offer now inc ∈ ops → s ≤ now → now ≤ t → v ≤ now

variable [CommRing α]

/-- From an admitted offer at `s` on, the run admits `w`. -/
inductive Window (burst : α) : Option α → List (Op α) → α → α → Prop where
  | here {tat : Option α} {now inc : α} {ops : List (Op α)} (h : Fits burst tat now inc) :
      Window burst tat (.offer now inc :: ops) now (admittedWork burst tat (.offer now inc :: ops))
  | later {tat : Option α} {op : Op α} {ops : List (Op α)} {s w : α}
      (h : Window burst (step burst tat op) ops s w) : Window burst tat (op :: ops) s w

/-- A TAT is lost at most `lag` ahead of the offers that come later. -/
def Prompt (lag : α) (ops : List (Op α)) : Prop :=
  ops.Pairwise fun a b => ∀ before now inc, a = .forget before → b = .offer now inc →
    before ≤ now + lag

/-- A TAT is lost at most so much ahead of the offers that come later as stands with the
    loss. -/
def PromptBy (ops : List (Op α × α)) : Prop :=
  ops.Pairwise fun a b => ∀ before now inc, a.1 = .forget before → b.1 = .offer now inc →
    before ≤ now + a.2

/-- What a loss may cost the interval `[s, t]`. -/
def lossCost (s t : α) : Op α × α → α
  | (.offer _ _, _) => 0
  | (.forget before, lag) => if s < before ∧ before ≤ t + lag then lag else 0

/-- The offers that a run admits, as pairs of a time and a size. -/
def admittedOffers (burst : α) : Option α → List (Op α) → List (α × α)
  | _, [] => []
  | tat, .offer now inc :: ops =>
    if Fits burst tat now inc then
      (now, inc) :: admittedOffers burst (step burst tat (.offer now inc)) ops
    else admittedOffers burst (step burst tat (.offer now inc)) ops
  | tat, .forget before :: ops => admittedOffers burst (step burst tat (.forget before)) ops

/-- The work admitted at times in `[s, t]`. -/
def admittedBetween (burst s t : α) (tat : Option α) (ops : List (Op α)) : α :=
  (((admittedOffers burst tat ops).filter fun o => s ≤ o.1 ∧ o.1 ≤ t).map Prod.snd).sum

variable {burst lag s t : α}

theorem Prompt.tail {op : Op α} {ops : List (Op α)} (h : Prompt lag (op :: ops)) :
    Prompt lag ops := h.of_cons

theorem Prompt.forget_le {before : α} {ops : List (Op α)} (h : Prompt lag (.forget before :: ops))
    {now inc : α} (hm : Op.offer now inc ∈ ops) : before ≤ now + lag :=
  (List.pairwise_cons.mp h).1 _ hm before now inc rfl rfl

/-- The work of a run is that of the offers it admits. -/
theorem admittedWork_eq_sum (burst : α) (ops : List (Op α)) :
    ∀ tat, admittedWork burst tat ops = ((admittedOffers burst tat ops).map Prod.snd).sum := by
  induction ops with
  | nil => intro tat; rfl
  | cons op ops ih =>
    intro tat
    rw [admittedWork, ih]
    cases op with
    | offer now inc =>
      rw [admitted, admittedOffers]
      split_ifs with hf
      · rw [List.map_cons, List.sum_cons]
      · rw [zero_add]
    | forget before => rw [admitted, admittedOffers, zero_add]

theorem admittedBetween_offer (burst s t : α) (tat : Option α) (now inc : α) (ops : List (Op α)) :
    admittedBetween burst s t tat (.offer now inc :: ops) =
      (if Fits burst tat now inc ∧ s ≤ now ∧ now ≤ t then inc else 0) +
        admittedBetween burst s t (step burst tat (.offer now inc)) ops := by
  unfold admittedBetween
  rw [admittedOffers]
  by_cases hf : Fits burst tat now inc
  · by_cases hin : s ≤ now ∧ now ≤ t
    · simp [hf, hin]
    · simp [hf, hin]
  · simp [hf]

/-! ## The latest window -/

/-- The first admitted offer begins a window with all the work of the run. -/
theorem window_of_firstAdmitted {n : α} (ops : List (Op α)) :
    ∀ tat, firstAdmitted burst tat ops = some n →
      Window burst tat ops n (admittedWork burst tat ops) := by
  induction ops with
  | nil => intro tat hn; cases hn
  | cons op ops ih =>
    intro tat hn
    cases op with
    | offer now inc =>
      rw [firstAdmitted] at hn
      split_ifs at hn with hf
      · obtain rfl : now = n := Option.some.inj hn
        exact .here hf
      · have hzero : admittedWork burst tat (.offer now inc :: ops) =
            admittedWork burst (step burst tat (.offer now inc)) ops := by
          rw [admittedWork, admitted, if_neg hf, zero_add]
        rw [hzero]
        exact .later (ih _ hn)
    | forget before =>
      have hzero : admittedWork burst tat (.forget before :: ops) =
          admittedWork burst (step burst tat (.forget before)) ops := by
        rw [admittedWork, admitted, zero_add]
      rw [hzero]
      exact .later (ih _ hn)

variable [IsStrictOrderedRing α]

/-- A bound on the windows of a run is a bound on the TAT that it leaves. -/
theorem run_le_of_windows {v : α} (ops : List (Op α)) :
    ∀ tat : Option α, (∀ u, tat = some u → u + admittedWork burst tat ops ≤ v) →
      (∀ s w, Window burst tat ops s w → s + w ≤ v) → ∀ u, run burst tat ops = some u → u ≤ v := by
  induction ops with
  | nil =>
    intro tat h _ u hu
    have := h u hu
    rwa [admittedWork, add_zero] at this
  | cons op ops ih =>
    intro tat h hw u hu
    refine ih (step burst tat op) ?_ (fun s w hsw => hw s w (.later hsw)) u hu
    intro u' hu'
    cases op with
    | offer now inc =>
      rw [step_offer] at hu' ⊢
      split_ifs at hu' ⊢ with hf
      · -- The new TAT ends the window of the old TAT, or the one that begins here.
        obtain rfl := Option.some.inj hu'
        have hwork : admittedWork burst tat (.offer now inc :: ops) =
            inc + admittedWork burst (some (arrival tat now + inc)) ops := by
          rw [admittedWork, admitted, step_offer, if_pos hf, if_pos hf]
        have hhere := hw now _ (.here hf)
        rw [hwork] at h hhere
        cases tat with
        | none =>
          have harrival : arrival none now = now := max_self now
          rw [harrival] at hhere ⊢
          linarith
        | some u₀ =>
          have h₀ := h u₀ rfl
          rcases max_choice u₀ now with hc | hc <;>
            simp only [arrival, Option.getD_some, hc] at h₀ hhere ⊢ <;> linarith
      · have := h u' hu'
        rwa [admittedWork, admitted, step_offer, if_neg hf, if_neg hf, zero_add] at this
    | forget before =>
      obtain ⟨htat, -⟩ := Option.filter_eq_some_iff.mp hu'
      have := h u' htat
      rwa [admittedWork, admitted, zero_add] at this

/-- The TAT that a run leaves bounds its windows, if no TAT is lost ahead of a later
    offer or of the bound. -/
theorem windows_le_of_run {v : α} (ops : List (Op α)) :
    ∀ tat : Option α, Prompt 0 ops → (∀ before, Op.forget before ∈ ops → before ≤ v) →
      (∀ u, run burst tat ops = some u → u ≤ v) →
      (∀ u, tat = some u → u + admittedWork burst tat ops ≤ v) ∧
        ∀ s w, Window burst tat ops s w → s + w ≤ v := by
  induction ops with
  | nil =>
    intro tat _ _ h
    refine ⟨fun u hu => ?_, fun s w hsw => by cases hsw⟩
    rw [admittedWork, add_zero]
    exact h u hu
  | cons op ops ih =>
    intro tat hp hv h
    obtain ⟨hinit, hrest⟩ :=
      ih (step burst tat op) hp.tail (fun b hb => hv b (List.mem_cons_of_mem _ hb)) h
    cases op with
    | offer now inc =>
      rw [step_offer] at hinit hrest
      by_cases hf : Fits burst tat now inc
      · rw [if_pos hf] at hinit hrest
        have hwork : admittedWork burst tat (.offer now inc :: ops) =
            inc + admittedWork burst (some (arrival tat now + inc)) ops := by
          rw [admittedWork, admitted, step_offer, if_pos hf, if_pos hf]
        have hend := hinit _ rfl
        have hnow := now_le_arrival tat now
        constructor
        · rintro u rfl
          have := tat_le_arrival u now
          rw [hwork]
          linarith
        · intro s w hsw
          cases hsw with
          | here _ =>
            rw [hwork]
            linarith
          | later hsw =>
            rw [step_offer, if_pos hf] at hsw
            exact hrest s w hsw
      · rw [if_neg hf] at hinit hrest
        have hwork :
            admittedWork burst tat (.offer now inc :: ops) = admittedWork burst tat ops := by
          rw [admittedWork, admitted, step_offer, if_neg hf, if_neg hf, zero_add]
        constructor
        · rw [hwork]
          exact hinit
        · intro s w hsw
          cases hsw with
          | here hf' => exact absurd hf' hf
          | later hsw =>
            rw [step_offer, if_neg hf] at hsw
            exact hrest s w hsw
    | forget before =>
      have hwork : admittedWork burst tat (.forget before :: ops) =
          admittedWork burst (step burst tat (.forget before)) ops := by
        rw [admittedWork, admitted, zero_add]
      constructor
      · rintro u rfl
        rw [hwork]
        by_cases hb : before ≤ u
        · have hkept : step burst (some u) (.forget before) = some u := by
            simp [step, Option.filter, hb]
          exact hinit u hkept
        -- The lost TAT is before the next admitted offer, or before the bound.
        · cases hn : firstAdmitted burst (step burst (some u) (.forget before)) ops with
          | none =>
            have := hv before List.mem_cons_self
            rw [admittedWork_eq_zero _ _ _ hn]
            linarith [not_le.mp hb]
          | some n =>
            have hle : before ≤ n := le_firstAdmitted burst ops _
              (fun now inc hm => by have := hp.forget_le hm; linarith) hn
            have := hrest n _ (window_of_firstAdmitted ops _ hn)
            linarith [not_le.mp hb]
      · intro s w hsw
        cases hsw with
        | later hsw => exact hrest s w hsw

/-- An offer that is refused makes a window overflow, or is larger than the burst. -/
theorem fits_of_windows {now inc : α} {ops : List (Op α)} (hinc : inc ≤ burst)
    (h : ∀ s w, Window burst none ops s w → s + w + inc ≤ now + burst) :
    Fits burst (run burst none ops) now inc := by
  have hrun : ∀ u, run burst none ops = some u → u ≤ now + burst - inc :=
    run_le_of_windows ops none (fun u hu => by cases hu)
      (fun s w hsw => by have := h s w hsw; linarith)
  unfold Fits
  cases hr : run burst none ops with
  | none =>
    have harrival : arrival none now = now := max_self now
    rw [harrival]
    linarith
  | some u =>
    have := hrun u hr
    rcases max_choice u now with hc | hc <;>
      simp only [arrival, Option.getD_some, hc] <;> linarith

/-- **Exactness.** In a run from an empty schedule in which no TAT is lost ahead of a
    later offer, an offer fits if and only if it fits into every window. -/
theorem fits_iff_windows {now inc : α} {ops : List (Op α)}
    (hp : Prompt 0 (ops ++ [.offer now inc])) :
    Fits burst (run burst none ops) now inc ↔
      inc ≤ burst ∧ ∀ s w, Window burst none ops s w → s + w + inc ≤ now + burst := by
  refine ⟨fun h => ?_, fun h => fits_of_windows h.1 h.2⟩
  have hnow := now_le_arrival (run burst none ops) now
  unfold Fits at h
  obtain ⟨hleft, -, hlast⟩ := List.pairwise_append.mp hp
  have hforget : ∀ before, Op.forget before ∈ ops → before ≤ now + burst - inc := by
    intro before hb
    have := hlast _ hb _ List.mem_cons_self before now inc rfl rfl
    linarith
  have hrun : ∀ u, run burst none ops = some u → u ≤ now + burst - inc := by
    intro u hu
    rw [hu] at h
    have := tat_le_arrival u now
    linarith
  refine ⟨by linarith, fun s w hsw => ?_⟩
  have := (windows_le_of_run ops none hleft hforget hrun).2 s w hsw
  linarith

/-! ## Intervals of time -/

omit [CommRing α] [IsStrictOrderedRing α] in
theorem FoundAt.le_arrival {v now inc : α} {tat : Option α} {ops : List (Op α)}
    (h : FoundAt s t v tat (.offer now inc :: ops)) (hs : s ≤ now) (ht : now ≤ t) :
    v ≤ arrival tat now := by
  rcases h with ⟨u, rfl, hu⟩ | h
  · exact hu.trans (tat_le_arrival u now)
  · exact (h now inc List.mem_cons_self hs ht).trans (now_le_arrival tat now)

omit [CommRing α] [IsStrictOrderedRing α] in
theorem FoundAt.tail {v : α} {tat : Option α} {op : Op α} {ops : List (Op α)}
    (h : FoundAt s t v tat (op :: ops)) : FoundAt s t v tat ops :=
  h.imp id fun h now inc hm => h now inc (List.mem_cons_of_mem _ hm)

/-- An admitted offer outside of the interval only moves the TAT on. -/
theorem FoundAt.offer {v now inc : α} {tat : Option α} {ops : List (Op α)}
    (h : FoundAt s t v tat (.offer now inc :: ops)) (hinc : 0 ≤ inc) :
    FoundAt s t v (some (arrival tat now + inc)) ops := by
  rcases h with ⟨u, rfl, hu⟩ | h
  · have := tat_le_arrival u now
    exact Or.inl ⟨_, rfl, by linarith⟩
  · exact Or.inr fun now' inc' hm => h now' inc' (List.mem_cons_of_mem _ hm)

/-- What a loss costs: nothing if it is up to `s` or too late for the interval, and at
    most `lag`. -/
theorem FoundAt.forget {v before : α} {tat : Option α} {ops : List (Op α)}
    (h : FoundAt s t v tat (.forget before :: ops)) (hv : s ≤ v)
    (hp : ∀ now inc, Op.offer now inc ∈ ops → before ≤ now + lag) (hlag : 0 ≤ lag) :
    ∃ v', s ≤ v' ∧ FoundAt s t v' (tat.filter fun u => before ≤ u) ops ∧
      v ≤ v' + if s < before ∧ before ≤ t + lag then lag else 0 := by
  have hsame : v ≤ v + if s < before ∧ before ≤ t + lag then lag else 0 := by
    split_ifs <;> linarith
  rcases h with ⟨u, rfl, hu⟩ | h
  · by_cases hb : before ≤ u
    · exact ⟨v, hv, Or.inl ⟨u, by simp [Option.filter, hb], hu⟩, hsame⟩
    have hlt : s < before := by linarith [not_le.mp hb]
    by_cases ht : before ≤ t + lag
    · refine ⟨max s (v - lag), le_max_left _ _, Or.inr fun now inc hm hs _ => ?_, ?_⟩
      · have := hp now inc hm
        exact max_le hs (by linarith [not_le.mp hb])
      · rw [if_pos ⟨hlt, ht⟩]
        linarith [le_max_right s (v - lag)]
    · refine ⟨v, hv, Or.inr fun now inc hm _ hnow => ?_, hsame⟩
      have := hp now inc hm
      exact absurd (by linarith) ht
  · exact ⟨v, hv, Or.inr fun now inc hm => h now inc (List.mem_cons_of_mem _ hm), hsame⟩

theorem sum_lossCost_nonneg (s t : α) (ops : List (Op α × α)) (h : ∀ op ∈ ops, 0 ≤ op.2) :
    0 ≤ (ops.map (lossCost s t)).sum := by
  apply List.sum_nonneg
  intro x hx
  obtain ⟨⟨op, lag⟩, hop, rfl⟩ := List.mem_map.mp hx
  cases op with
  | offer now inc => exact le_rfl
  | forget before =>
    rw [lossCost]
    split_ifs
    · exact h _ hop
    · exact le_rfl

omit [CommRing α] [IsStrictOrderedRing α] in
theorem lossesBetween_forget (s t before : α) (ops : List (Op α)) :
    lossesBetween s t (.forget before :: ops) =
      lossesBetween s t ops + if s < before ∧ before ≤ t then 1 else 0 := by
  have hloss : (Op.forget before :: ops).filterMap Op.loss = before :: ops.filterMap Op.loss := rfl
  rw [lossesBetween, hloss, List.countP_cons]
  simp [lossesBetween]

/-- The invariant behind the bound: the work of the interval, if there is any, fits
    between the TAT that its offers find and the last moment at which one of them may
    end, apart from the losses. -/
theorem add_admittedBetween_le (burst t : α) (ops : List (Op α × α)) :
    ∀ (tat : Option α) (v : α), PromptBy ops → (∀ op ∈ ops, 0 ≤ op.2) →
      (∀ now inc, Op.offer now inc ∈ ops.map Prod.fst → 0 ≤ inc) → s ≤ v →
      FoundAt s t v tat (ops.map Prod.fst) →
      admittedBetween burst s t tat (ops.map Prod.fst) = 0 ∨
        v + admittedBetween burst s t tat (ops.map Prod.fst) ≤
          t + burst + (ops.map (lossCost s t)).sum := by
  induction ops with
  | nil => intro tat v _ _ _ _ _; exact Or.inl rfl
  | cons op ops ih =>
    intro tat v hp hlag hinc hv hfound
    have hinc' : ∀ now inc, Op.offer now inc ∈ ops.map Prod.fst → 0 ≤ inc :=
      fun now inc hm => hinc now inc (List.mem_cons_of_mem _ hm)
    have hlag' : ∀ op ∈ ops, 0 ≤ op.2 := fun op hop => hlag op (List.mem_cons_of_mem _ hop)
    have hlosses := sum_lossCost_nonneg s t ops hlag'
    obtain ⟨op, lag⟩ := op
    rw [List.map_cons, List.map_cons, List.sum_cons]
    cases op with
    | offer now inc =>
      have hpos := hinc now inc List.mem_cons_self
      rw [admittedBetween_offer, lossCost, zero_add, step_offer]
      by_cases hf : Fits burst tat now inc
      · rw [if_pos hf]
        by_cases hin : s ≤ now ∧ now ≤ t
        · have hle := hfound.le_arrival hin.1 hin.2
          rw [if_pos ⟨hf, hin⟩]
          right
          rcases ih (some (arrival tat now + inc)) (v + inc) hp.of_cons hlag' hinc' (by linarith)
            (Or.inl ⟨_, rfl, by linarith⟩) with h | h
          · unfold Fits at hf
            rw [h]
            linarith [hin.2]
          · linarith
        · rw [if_neg (fun h => hin h.2), zero_add]
          exact ih _ v hp.of_cons hlag' hinc' hv (hfound.offer hpos)
      · rw [if_neg hf, if_neg (fun h => hf h.1), zero_add]
        exact ih _ v hp.of_cons hlag' hinc' hv hfound.tail
    | forget before =>
      have hforget : ∀ now inc, Op.offer now inc ∈ ops.map Prod.fst → before ≤ now + lag := by
        intro now inc hm
        obtain ⟨x, hx, hfst⟩ := List.mem_map.mp hm
        exact (List.pairwise_cons.mp hp).1 x hx before now inc rfl hfst
      obtain ⟨v', hv', hfound', hle⟩ :=
        hfound.forget hv hforget (hlag _ List.mem_cons_self)
      rcases ih _ v' hp.of_cons hlag' hinc' hv' hfound' with h | h
      · exact Or.inl h
      right
      show v + admittedBetween burst s t (tat.filter fun u => before ≤ u) (ops.map Prod.fst) ≤
        t + burst + ((if s < before ∧ before ≤ t + lag then lag else 0) + _)
      linarith

/-- **Rate bound for an interval.** Wherever the offers with times in `[s, t]` stand in a
    run, their admitted work is at most `burst + (t - s)`, and for every loss of what is
    before a time in `(s, t + lag]` as much more as it may be ahead of a later offer. -/
theorem admittedBetween_le_of_promptBy (hb : 0 ≤ burst) (hst : s ≤ t) (tat : Option α)
    (ops : List (Op α × α)) (hp : PromptBy ops) (hlag : ∀ op ∈ ops, 0 ≤ op.2)
    (hinc : ∀ now inc, Op.offer now inc ∈ ops.map Prod.fst → 0 ≤ inc) :
    admittedBetween burst s t tat (ops.map Prod.fst) ≤
      burst + (t - s) + (ops.map (lossCost s t)).sum := by
  have hlosses := sum_lossCost_nonneg s t ops hlag
  rcases add_admittedBetween_le burst t ops tat s hp hlag hinc le_rfl
    (Or.inr fun now inc _ hs _ => hs) with h | h
  · rw [h]
    linarith
  · linarith

/-- All losses are at most `lag` ahead. -/
theorem admittedBetween_le (hb : 0 ≤ burst) (hlag : 0 ≤ lag) (hst : s ≤ t) (tat : Option α)
    (ops : List (Op α)) (hp : Prompt lag ops)
    (hinc : ∀ now inc, Op.offer now inc ∈ ops → 0 ≤ inc) :
    admittedBetween burst s t tat ops ≤
      burst + (t - s) + lag * lossesBetween s (t + lag) ops := by
  have hfst : (ops.map fun op => (op, lag)).map Prod.fst = ops := by
    rw [List.map_map]
    exact List.map_id ops
  have hsum : ((ops.map fun op => (op, lag)).map (lossCost s t)).sum =
      lag * lossesBetween s (t + lag) ops := by
    rw [List.map_map]
    clear hp hinc hfst
    induction ops with
    | nil => simp [lossesBetween]
    | cons op ops ih =>
      rw [List.map_cons, List.sum_cons, ih]
      cases op with
      | offer now inc => exact zero_add _
      | forget before =>
        rw [lossesBetween_forget, Function.comp, lossCost]
        split_ifs
        · rw [Nat.cast_add, Nat.cast_one]
          ring
        · rw [add_zero, zero_add]
  have hbound := admittedBetween_le_of_promptBy hb hst tat (ops.map fun op => (op, lag))
    (List.pairwise_map.mpr hp)
    (fun op hop => by obtain ⟨_, _, rfl⟩ := List.mem_map.mp hop; exact hlag)
    (by rw [hfst]; exact hinc)
  rwa [hfst, hsum] at hbound

end VirtualScheduling
