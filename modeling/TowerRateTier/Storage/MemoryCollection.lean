import TowerRateTier.Lib.Noninterference
import TowerRateTier.Storage.MemoryPrune
import TowerRateTier.Storage.MemoryRate

/-!
# Garbage collection

`GcHandle` (`src/gc.rs`) calls `retain_active` from a task of its own, so the
collections stand anywhere between the checks of a run. As long as the times do
not decrease in the order in which the steps take effect, nobody can tell.

* `collection_invisible`: any of the collections of a run can be left out.
-/

namespace TowerRateTier

/-- The time of a step. -/
def MemoryOp.time : MemoryOp → Nanos
  | .check r => r.now
  | .retainActive now => now

/-- The check that a step makes, if it is not a collection. -/
def MemoryOp.request : MemoryOp → Option CheckRequest
  | .check r => some r
  | .retainActive _ => none

/-- `ops'` is `ops` without some of its collections. -/
inductive DropsCollections : List MemoryOp → List MemoryOp → Prop where
  | nil : DropsCollections [] []
  | keep (op : MemoryOp) {ops ops' : List MemoryOp} (h : DropsCollections ops ops') :
      DropsCollections (op :: ops) (op :: ops')
  | drop (now : Nanos) {ops ops' : List MemoryOp} (h : DropsCollections ops ops') :
      DropsCollections (.retainActive now :: ops) ops'

/-- What is left is a part of the run, with the same checks. -/
theorem DropsCollections.sublist {ops ops' : List MemoryOp} (h : DropsCollections ops ops') :
    ops'.Sublist ops ∧ ops.filterMap MemoryOp.request = ops'.filterMap MemoryOp.request := by
  induction h with
  | nil => exact ⟨List.Sublist.refl [], rfl⟩
  | keep op _ ih =>
    refine ⟨ih.1.cons_cons op, ?_⟩
    rw [List.filterMap_cons, List.filterMap_cons, ih.2]
  | drop now _ ih => exact ⟨ih.1.cons _, ih.2⟩

namespace MemoryStorage

/-- The answers to the checks of a run. -/
def opAnswers : MemoryStorage → List MemoryOp → List Decision
  | _, [] => []
  | st, .check r :: ops => (st.check r).2 :: (st.check r).1.opAnswers ops
  | st, .retainActive now :: ops => (st.retainActive now).opAnswers ops

/-! ## The store as a machine -/

/-- A step gives the answer to its check. -/
def machine : Machine MemoryStorage MemoryOp (Option Decision) where
  step st op := (st.step op, op.request.map fun r => (st.check r).2)

theorem machine_after (st : MemoryStorage) (ops : List MemoryOp) :
    machine.after st ops = st.run ops := rfl

theorem machine_outputs (ops : List MemoryOp) : ∀ st : MemoryStorage,
    machine.outputs MemoryOp.request st ops = (st.opAnswers ops).map some := by
  induction ops with
  | nil => intro st; rfl
  | cons op ops ih =>
    intro st
    cases op with
    | check r =>
      rw [Machine.outputs_visible st ops (v := r) rfl, opAnswers, List.map_cons, ih]
      rfl
    | retainActive now =>
      rw [Machine.outputs_hidden st ops rfl, opAnswers, ih]
      rfl

/-- The observer sees the checks. From `now` on it cannot tell a store from one that
    has lost entries whose TAT is before `now`. -/
def collectionUnwinding : machine.Unwinding MemoryOp.request MemoryOp.time where
  rel := Pruned
  mono _ _ _ _ hle h := h.mono hle
  hidden st bare op hop h := by
    cases op with
    | check r => cases hop
    | retainActive now => exact h.retainActive
  visible st bare op op' v hop hop' h := by
    cases op with
    | retainActive now => cases hop
    | check r =>
      cases op' with
      | retainActive now => cases hop'
      | check r' =>
        obtain rfl := Option.some.inj hop
        obtain rfl := Option.some.inj hop'
        obtain ⟨hans, hnext⟩ := h.check
        exact ⟨congrArg some hans, hnext⟩

/-! ## Runs with and without collections -/

/-- The answers depend on the checks of a run only. -/
theorem opAnswers_congr (st : MemoryStorage) {ops ops' : List MemoryOp}
    (htime : ops.Pairwise fun a b => a.time ≤ b.time)
    (htime' : ops'.Pairwise fun a b => a.time ≤ b.time)
    (h : ops.filterMap MemoryOp.request = ops'.filterMap MemoryOp.request) :
    st.opAnswers ops = st.opAnswers ops' := by
  have hstart : ∀ op : MemoryOp, (0 : Nanos) ≤ op.time :=
    fun op => UInt64.le_iff_toNat_le.mpr (Nat.zero_le _)
  have hout := collectionUnwinding.outputs_congr (Pruned.refl 0 st) (fun op _ => hstart op)
    (fun op _ => hstart op) htime htime' h
  rw [machine_outputs, machine_outputs] at hout
  exact List.map_injective_iff.mpr (Option.some_injective _) hout

/-- An entry that has outlived the collections of a run is the one that the checks
    alone leave. -/
theorem run_state_eq_some (st : MemoryStorage) {ops : List MemoryOp}
    (htime : ops.Pairwise fun a b => a.time ≤ b.time) {k : StorageKey} {tat : Nanos}
    (h : (st.run ops).state k = some tat) :
    (st.run (ops.filter fun op => op.request.isSome)).state k = some tat := by
  have hvis : ∀ op ∈ ops.filter fun op => op.request.isSome, op.request.isSome := by
    intro op hop
    simpa using (List.mem_filter.mp hop).2
  obtain ⟨now, hrel⟩ := collectionUnwinding.after_rel (Pruned.refl 0 st)
    (fun op _ => UInt64.le_iff_toNat_le.mpr (Nat.zero_le _)) htime hvis
    (Machine.Unwinding.filterMap_filter _ ops).symm
  rw [machine_after, machine_after] at hrel
  rcases hrel k with he | ⟨hnone, -⟩
  · rw [← he, h]
  · rw [hnone] at h
    cases h

/-- **Collections are invisible.** In a run whose times do not decrease, leaving out any
    of the collections changes no answer, and an entry that is present after a
    collection is the one that the run without collections has there. -/
theorem collection_invisible (st : MemoryStorage) (ops : List MemoryOp)
    (htime : ops.Pairwise fun a b => a.time ≤ b.time) :
    (∀ ops', DropsCollections ops ops' → st.opAnswers ops' = st.opAnswers ops) ∧
      ∀ pre g post, ops = pre ++ .retainActive g :: post → ∀ k tat,
        (st.run (pre ++ [.retainActive g])).state k = some tat →
          (st.run (pre.filter fun op => op.request.isSome)).state k = some tat := by
  constructor
  · intro ops' h
    obtain ⟨hsub, hview⟩ := h.sublist
    exact opAnswers_congr st (htime.sublist hsub) htime hview.symm
  · rintro pre g post rfl k tat hk
    have hsub : (pre ++ [MemoryOp.retainActive g]).Sublist (pre ++ MemoryOp.retainActive g :: post) :=
      (List.Sublist.refl pre).append (List.Sublist.cons_cons _ (List.nil_sublist post))
    have h := run_state_eq_some st (htime.sublist hsub) hk
    rwa [List.filter_append, List.filter_cons_of_neg (by simp [MemoryOp.request]),
      List.filter_nil, List.append_nil] at h

/-- Two requests per 20 ns. -/
def collectedQuota : Quota := ⟨2, .fromNanos 20, .two_per_twenty_nanos⟩

/-- A collection at the TAT, one just after it, and checks at those times. -/
def collectedRun : List MemoryOp :=
  [.check ⟨⟨"u", "free"⟩, collectedQuota, 1, 100⟩, .retainActive 110,
    .check ⟨⟨"u", "free"⟩, collectedQuota, 2, 110⟩, .retainActive 131,
    .check ⟨⟨"u", "free"⟩, collectedQuota, 1, 131⟩]

/-- The collection at 110 keeps the entry of that TAT, the one at 131 drops that of 130. -/
theorem collection_invisible_at_boundary :
    MemoryStorage.new.opAnswers
        [collectedRun[0], collectedRun[2], collectedRun[4]] =
      MemoryStorage.new.opAnswers collectedRun ∧
      (MemoryStorage.new.run (collectedRun.take 2)).state ⟨"u", "free"⟩ = some 110 ∧
      (MemoryStorage.new.run (collectedRun.take 4)).state ⟨"u", "free"⟩ = none := by
  refine ⟨(collection_invisible MemoryStorage.new collectedRun (by decide)).1 _ ?_, by decide,
    by decide⟩
  exact .keep _ (.drop _ (.keep _ (.drop _ (.keep _ .nil))))

end MemoryStorage

end TowerRateTier
