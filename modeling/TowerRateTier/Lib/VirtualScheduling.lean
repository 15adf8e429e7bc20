import Mathlib.Algebra.Order.Group.MinMax
import Mathlib.Algebra.Order.Ring.Defs
import Mathlib.Tactic.Linarith
import Mathlib.Tactic.Ring

/-!
# Virtual scheduling and token buckets

Two classical descriptions of one rate limiter, over any linearly ordered
commutative ring of times. Work is measured in the time it takes to drain.

* Virtual scheduling keeps one number, the theoretical arrival time (TAT): when
  the work admitted so far is drained. An offer of `inc` at `now` fits if it
  ends at most `burst` after `now`.
* A token bucket keeps a level of at most `cap`, which grows with time, and
  admits an offer that the level covers.

Results:
* `admittedWork_le`: in every run, with offers at times in `[s, t]` in any
  order, the admitted work is at most `burst + (t - s)`, plus what was forgotten
  by discarding the state too early.
* `Tracks.offer`: with nondecreasing times, the bucket that starts full and the
  virtual schedule that starts empty take the same decisions.
* `Dominates.fits`: of two schedules whose units of work have different lengths,
  counted in units, the one that is never further behind admits what the other
  one admits.
-/

namespace VirtualScheduling

variable {α : Type*} [LinearOrder α]

/-! ## Theoretical arrival times -/

/-- The TAT as seen at `now`: one that is absent or past counts as `now`. -/
def arrival (tat : Option α) (now : α) : α := max (tat.getD now) now

theorem now_le_arrival (tat : Option α) (now : α) : now ≤ arrival tat now := le_max_right _ _

theorem tat_le_arrival (t now : α) : t ≤ arrival (some t) now := le_max_left _ _

/-- A TAT that is not after `now` counts as none. -/
theorem arrival_of_le {t now : α} (h : t ≤ now) : arrival (some t) now = arrival none now := by
  simp [arrival, h]

/-- Forgetting what is already past at `now` changes nothing from `now` on. -/
theorem arrival_forget (tat : Option α) {before now : α} (h : before ≤ now) :
    arrival (tat.filter fun t => before ≤ t) now = arrival tat now := by
  cases tat with
  | none => rfl
  | some t =>
    by_cases hb : before ≤ t
    · simp [Option.filter, hb]
    · simp only [Option.filter, hb, decide_false, Bool.false_eq_true, if_false]
      exact (arrival_of_le ((not_le.mp hb).le.trans h)).symm

/-- What is seen later, from what is seen at `now`. -/
theorem arrival_later (tat : Option α) {now later : α} (h : now ≤ later) :
    arrival tat later = max (arrival tat now) later := by
  cases tat with
  | none => simp [arrival, h]
  | some t => simp [arrival, max_assoc, h]

/-! ## Virtual scheduling -/

variable [CommRing α]

/-- The offer of `inc` at `now` is admitted. -/
def Fits (burst : α) (tat : Option α) (now inc : α) : Prop := arrival tat now + inc ≤ now + burst

instance (burst : α) (tat : Option α) (now inc : α) : Decidable (Fits burst tat now inc) :=
  inferInstanceAs (Decidable (_ ≤ _))

/-- What can happen to a schedule: an offer of work, or the loss of a TAT that
    is before some time. -/
inductive Op (α : Type*) where
  | offer (now inc : α)
  | forget (before : α)

/-- The TAT after one operation. -/
def step (burst : α) (tat : Option α) : Op α → Option α
  | .offer now inc => if Fits burst tat now inc then some (arrival tat now + inc) else tat
  | .forget before => tat.filter fun t => before ≤ t

/-- The TAT after a run. -/
def run (burst : α) (tat : Option α) (ops : List (Op α)) : Option α := ops.foldl (step burst) tat

/-- The work an operation admits. -/
def admitted (burst : α) (tat : Option α) : Op α → α
  | .offer now inc => if Fits burst tat now inc then inc else 0
  | .forget _ => 0

/-- The work a run admits. -/
def admittedWork (burst : α) : Option α → List (Op α) → α
  | _, [] => 0
  | tat, op :: ops => admitted burst tat op + admittedWork burst (step burst tat op) ops

/-- The time of the first admitted offer of a run. -/
def firstAdmitted (burst : α) : Option α → List (Op α) → Option α
  | _, [] => none
  | tat, .offer now inc :: ops =>
    if Fits burst tat now inc then some now
    else firstAdmitted burst (step burst tat (.offer now inc)) ops
  | tat, .forget before :: ops => firstAdmitted burst (step burst tat (.forget before)) ops

/-- What one `forget before` can cost, if `n` is the time of the first offer
    admitted after it. -/
def slack (before : α) : Option α → α
  | some n => max 0 (before - n)
  | none => 0

/-- What the `forget` operations of a run can cost together. -/
def forgetSlack (burst : α) : Option α → List (Op α) → α
  | _, [] => 0
  | tat, .offer now inc :: ops => forgetSlack burst (step burst tat (.offer now inc)) ops
  | tat, .forget before :: ops =>
    slack before (firstAdmitted burst (step burst tat (.forget before)) ops) +
      forgetSlack burst (step burst tat (.forget before)) ops

theorem step_offer (burst : α) (tat : Option α) (now inc : α) :
    step burst tat (.offer now inc) =
      if Fits burst tat now inc then some (arrival tat now + inc) else tat := rfl

theorem slack_nonneg (before : α) (n : Option α) : 0 ≤ slack before n := by
  cases n with
  | none => exact le_rfl
  | some n => exact le_max_left _ _

theorem admittedWork_eq_zero (burst : α) (ops : List (Op α)) :
    ∀ tat, firstAdmitted burst tat ops = none → admittedWork burst tat ops = 0 := by
  induction ops with
  | nil => intro tat _; rfl
  | cons op ops ih =>
    intro tat h
    cases op with
    | offer now inc =>
      rw [firstAdmitted] at h
      split_ifs at h with hf
      rw [admittedWork, admitted, if_neg hf, ih _ h, zero_add]
    | forget before =>
      rw [admittedWork, admitted, ih _ h, zero_add]

theorem le_firstAdmitted {s n : α} (burst : α) (ops : List (Op α)) :
    ∀ tat, (∀ now inc, Op.offer now inc ∈ ops → s ≤ now) →
      firstAdmitted burst tat ops = some n → s ≤ n := by
  induction ops with
  | nil => intro tat _ hn; cases hn
  | cons op ops ih =>
    intro tat h hn
    have h' : ∀ now inc, Op.offer now inc ∈ ops → s ≤ now :=
      fun now inc hm => h now inc (List.mem_cons_of_mem _ hm)
    cases op with
    | offer now inc =>
      rw [firstAdmitted] at hn
      split_ifs at hn with hf
      · obtain rfl : now = n := Option.some.inj hn
        exact h now inc List.mem_cons_self
      · exact ih _ h' hn
    | forget before => exact ih _ h' hn

variable [IsStrictOrderedRing α]

theorem forgetSlack_nonneg (burst : α) (ops : List (Op α)) :
    ∀ tat, 0 ≤ forgetSlack burst tat ops := by
  induction ops with
  | nil => intro tat; exact le_rfl
  | cons op ops ih =>
    intro tat
    cases op with
    | offer now inc => exact ih _
    | forget before => exact add_nonneg (slack_nonneg _ _) (ih _)

/-! ## The rate bound -/

/-- A lower bound of the TAT seen by the next admitted offer survives a
    `forget`, up to the slack of that operation. -/
theorem sub_slack_le_arrival (tat : Option α) (before n v : α) (h : v ≤ arrival tat n) :
    v - max 0 (before - n) ≤ arrival (tat.filter fun t => before ≤ t) n := by
  have hnow := now_le_arrival (tat.filter fun t => before ≤ t) n
  rcases le_total before n with hb | hb
  · rw [arrival_forget tat hb]
    have := le_max_left 0 (before - n)
    linarith
  · have hm : max 0 (before - n) = before - n := max_eq_right (by linarith)
    rw [hm]
    cases tat with
    | none =>
      simp only [arrival, Option.getD_none, max_self] at h
      linarith
    | some t =>
      by_cases ht : before ≤ t
      · simp only [Option.filter, ht, decide_true, if_true]
        linarith
      · rcases max_choice t n with hc | hc <;> simp only [arrival, Option.getD_some, hc] at h
        · linarith [not_le.mp ht]
        · linarith

/-- The invariant behind the rate bound: if the next admitted offer finds the
    TAT at `v` or later, then all that the run admits fits between `v` and the
    last moment an admitted offer may end, apart from the slack. -/
theorem add_admittedWork_le {burst t : α} (ops : List (Op α)) :
    ∀ (tat : Option α) (v n : α), (∀ now inc, Op.offer now inc ∈ ops → now ≤ t) →
      firstAdmitted burst tat ops = some n → v ≤ arrival tat n →
      v + admittedWork burst tat ops ≤ t + burst + forgetSlack burst tat ops := by
  induction ops with
  | nil => intro tat v n _ hn; cases hn
  | cons op ops ih =>
    intro tat v n ht hn hv
    have ht' : ∀ now inc, Op.offer now inc ∈ ops → now ≤ t :=
      fun now inc h => ht now inc (List.mem_cons_of_mem _ h)
    cases op with
    | offer now inc =>
      rw [firstAdmitted] at hn
      rw [admittedWork, admitted, forgetSlack]
      split_ifs at hn ⊢ with hf
      · obtain rfl : now = n := Option.some.inj hn
        rw [step_offer, if_pos hf]
        -- The first offer is admitted: the run goes on from the TAT it leaves.
        cases hn' : firstAdmitted burst (some (arrival tat now + inc)) ops with
        | none =>
          rw [admittedWork_eq_zero _ _ _ hn']
          have h1 := ht now inc List.mem_cons_self
          have h2 := forgetSlack_nonneg burst ops (some (arrival tat now + inc))
          unfold Fits at hf
          linarith
        | some n' =>
          have := ih _ (v + inc) n' ht' hn'
            (le_trans (by linarith) (tat_le_arrival (arrival tat now + inc) n'))
          linarith
      · rw [step_offer, if_neg hf] at hn ⊢
        rw [zero_add]
        exact ih tat v n ht' hn hv
    | forget before =>
      rw [firstAdmitted] at hn
      rw [admittedWork, admitted, forgetSlack, hn, slack]
      have := ih _ _ n ht' hn (sub_slack_le_arrival tat before n v hv)
      linarith

/-- **Rate bound.** Whatever the order of the times, the admitted work is at
    most `burst + (t - s)`, apart from what was forgotten too early. -/
theorem admittedWork_le {burst s t : α} (hb : 0 ≤ burst) (hst : s ≤ t) (tat : Option α)
    (ops : List (Op α)) (h : ∀ now inc, Op.offer now inc ∈ ops → s ≤ now ∧ now ≤ t) :
    admittedWork burst tat ops ≤ burst + (t - s) + forgetSlack burst tat ops := by
  cases hn : firstAdmitted burst tat ops with
  | none =>
    rw [admittedWork_eq_zero _ _ _ hn]
    linarith [forgetSlack_nonneg burst ops tat]
  | some n =>
    have hs : s ≤ n := le_firstAdmitted burst ops tat (fun now inc hm => (h now inc hm).1) hn
    have := add_admittedWork_le (t := t) ops tat s n (fun now inc hm => (h now inc hm).2) hn
      (hs.trans (now_le_arrival tat n))
    linarith

/-! ## Token buckets -/

/-- A bucket that held `level` at time `last`. -/
structure TokenBucket (α : Type*) where
  level : α
  last : α

namespace TokenBucket

/-- The level at `now`: one unit per unit of time, up to `cap`. -/
def levelAt (cap : α) (b : TokenBucket α) (now : α) : α := min cap (b.level + (now - b.last))

/-- An offer of `inc` at `now`: the level pays for it, or stays as it is. -/
def offer (cap : α) (b : TokenBucket α) (now inc : α) : TokenBucket α :=
  if inc ≤ b.levelAt cap now then ⟨b.levelAt cap now - inc, now⟩ else ⟨b.levelAt cap now, now⟩

/-- The bucket is what the schedule with TAT `tat` leaves of a full bucket. -/
def Tracks (cap : α) (b : TokenBucket α) (tat : Option α) : Prop :=
  b.level = cap - (arrival tat b.last - b.last)

omit [IsStrictOrderedRing α] in
/-- An unused bucket tracks the schedule without a TAT. -/
theorem tracks_full (cap last : α) : Tracks cap ⟨cap, last⟩ none := by
  simp [Tracks, arrival]

variable {cap : α} {b : TokenBucket α} {tat : Option α}

/-- The level is the distance of the TAT from its last admissible value. -/
theorem Tracks.levelAt_eq (h : Tracks cap b tat) {now : α} (hnow : b.last ≤ now) :
    b.levelAt cap now = cap - (arrival tat now - now) := by
  have hl : b.level + (now - b.last) = cap - (arrival tat b.last - now) := by
    rw [h]; ring
  rw [levelAt, hl, arrival_later tat hnow]
  rcases le_total (arrival tat b.last) now with hc | hc
  · rw [max_eq_right hc, min_eq_left (by linarith)]; ring
  · rw [max_eq_left hc, min_eq_right (by linarith)]

/-- Both admit the same offers. -/
theorem Tracks.covers_iff (h : Tracks cap b tat) {now : α} (hnow : b.last ≤ now) (inc : α) :
    inc ≤ b.levelAt cap now ↔ Fits cap tat now inc := by
  rw [h.levelAt_eq hnow, Fits]
  constructor <;> intro _ <;> linarith

/-- **Simulation.** With nondecreasing times the bucket goes on tracking the
    schedule. -/
theorem Tracks.offer (h : Tracks cap b tat) {now inc : α} (hnow : b.last ≤ now) (hinc : 0 ≤ inc) :
    Tracks cap (b.offer cap now inc) (step cap tat (.offer now inc)) := by
  have hl := h.levelAt_eq hnow
  rw [TokenBucket.offer, step_offer]
  by_cases hf : Fits cap tat now inc
  · rw [if_pos hf, if_pos ((h.covers_iff hnow inc).mpr hf), Tracks, hl]
    have : arrival (some (arrival tat now + inc)) now = arrival tat now + inc :=
      max_eq_left (by have := now_le_arrival tat now; simp only [Option.getD_some]; linarith)
    rw [this]; ring
  · rw [if_neg hf, if_neg (fun hc => hf ((h.covers_iff hnow inc).mp hc)), Tracks, hl]

end TokenBucket

/-! ## Units of two lengths -/

section Units

variable {tat tat' : Option α} {now now' : α}

/-- The work that is left at `now`. -/
def backlog (tat : Option α) (now : α) : α := arrival tat now - now

theorem backlog_nonneg (tat : Option α) (now : α) : 0 ≤ backlog tat now :=
  sub_nonneg.mpr (now_le_arrival tat now)

theorem fits_iff_backlog (burst : α) (tat : Option α) (now inc : α) :
    Fits burst tat now inc ↔ backlog tat now + inc ≤ burst := by
  unfold Fits backlog
  constructor <;> intro h <;> linarith

/-- The backlog drains as time passes. -/
theorem backlog_later (tat : Option α) (now : α) {d : α} (hd : 0 ≤ d) :
    backlog tat (now + d) = max (backlog tat now - d) 0 := by
  rw [backlog, backlog, arrival_later tat (le_add_of_nonneg_right hd), ← max_sub_sub_right, sub_self, sub_sub]

/-- An admitted offer adds to the backlog. -/
theorem backlog_offer (tat : Option α) (now : α) {inc : α} (h : 0 ≤ inc) :
    backlog (some (arrival tat now + inc)) now = backlog tat now + inc := by
  have := now_le_arrival tat now
  have harrival : arrival (some (arrival tat now + inc)) now = arrival tat now + inc :=
    max_eq_left (by simp only [Option.getD_some]; linarith)
  rw [backlog, backlog, harrival]
  ring

/-- The backlog of `tat'` in units of length `fine` is at most that of `tat` in
    units of length `coarse`. The clocks may differ. -/
def Dominates (coarse fine : α) (tat : Option α) (now : α) (tat' : Option α) (now' : α) : Prop :=
  backlog tat' now' * coarse ≤ backlog tat now * fine

variable {coarse fine : α}

/-- Without a backlog there is nothing to dominate. -/
theorem dominates_none (coarse : α) (hfine : 0 ≤ fine) (tat : Option α) (now now' : α) :
    Dominates coarse fine tat now none now' := by
  have hnone : backlog none now' = 0 := by simp [backlog, arrival]
  rw [Dominates, hnone, zero_mul]
  exact mul_nonneg (backlog_nonneg tat now) hfine

omit [IsStrictOrderedRing α] in
/-- Only what is seen at the time counts. -/
theorem Dominates.congr_left (h : Dominates coarse fine tat now tat' now') {tat₂ : Option α}
    (heq : arrival tat₂ now = arrival tat now) : Dominates coarse fine tat₂ now tat' now' := by
  have hbacklog : backlog tat₂ now = backlog tat now := by rw [backlog, backlog, heq]
  rw [Dominates, hbacklog]
  exact h

/-- **Time.** The clock of the fine schedule runs `scale` times as fast. Where a
    fine unit is at most `scale` coarse ones, the fine backlog drains no slower. -/
theorem Dominates.later (h : Dominates coarse fine tat now tat' now') {scale d : α}
    (hcoarse : 0 ≤ coarse) (hfine : 0 ≤ fine) (hscale : 0 ≤ scale) (hle : fine ≤ scale * coarse)
    (hd : 0 ≤ d) : Dominates coarse fine tat (now + d) tat' (now' + scale * d) := by
  have hdrain : fine * d ≤ scale * coarse * d := mul_le_mul_of_nonneg_right hle hd
  unfold Dominates at h ⊢
  rw [backlog_later tat now hd, backlog_later tat' now' (mul_nonneg hscale hd),
    max_mul_of_nonneg _ _ hcoarse, max_mul_of_nonneg _ _ hfine]
  apply max_le_max _ (by rw [zero_mul, zero_mul])
  calc (backlog tat' now' - scale * d) * coarse
      = backlog tat' now' * coarse - scale * coarse * d := by ring
    _ ≤ backlog tat now * fine - fine * d := sub_le_sub h hdrain
    _ = (backlog tat now - d) * fine := by ring

/-- **Admission.** With bursts of `units` each, the fine schedule admits an offer
    of `cost` units that the coarse one admits. -/
theorem Dominates.fits (h : Dominates coarse fine tat now tat' now') {units cost : α}
    (hcoarse : 0 < coarse) (hfine : 0 ≤ fine)
    (hfits : Fits (coarse * units) tat now (coarse * cost)) :
    Fits (fine * units) tat' now' (fine * cost) := by
  rw [fits_iff_backlog] at hfits ⊢
  unfold Dominates at h
  apply le_of_mul_le_mul_right _ hcoarse
  calc (backlog tat' now' + fine * cost) * coarse
      = backlog tat' now' * coarse + coarse * cost * fine := by ring
    _ ≤ (backlog tat now + coarse * cost) * fine := by linarith
    _ ≤ coarse * units * fine := mul_le_mul_of_nonneg_right hfits hfine
    _ = fine * units * coarse := by ring

/-- An offer that both admit adds as many units to both. -/
theorem Dominates.offer (h : Dominates coarse fine tat now tat' now') {cost : α}
    (hcoarse : 0 ≤ coarse) (hfine : 0 ≤ fine) (hcost : 0 ≤ cost) :
    Dominates coarse fine (some (arrival tat now + coarse * cost)) now
      (some (arrival tat' now' + fine * cost)) now' := by
  unfold Dominates at h ⊢
  rw [backlog_offer tat now (mul_nonneg hcoarse hcost),
    backlog_offer tat' now' (mul_nonneg hfine hcost)]
  linarith

end Units

end VirtualScheduling
