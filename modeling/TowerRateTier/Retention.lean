import TowerRateTier.Deployment
import Mathlib.Data.Set.Card

/-!
# What the collector leaves

A check creates the entry of its bucket, and nothing but the collector deletes one
(`src/gc.rs`). After a sweep, with requests of other tasks anywhere between its visits,
only the buckets of recent checks have an entry left.

* `stored_by`: an entry comes from an admitted check, and no later visit was after its
  TAT.
* `Collected.step`: a sweep that is finished has visited every shard.
* `stored_keys_bounded`: how many entries the storage holds.
-/

namespace TowerRateTier

namespace MemoryStorage

variable {shardOf : StorageKey → ℕ} {ops : List ShardOp} {k : StorageKey} {tat : Nanos}

/-! ## The entries of a store -/

/-- A check that a run admits has written the entry, and no later visit was after it. -/
def StoredBy (shardOf : StorageKey → ℕ) (ops : List ShardOp) (k : StorageKey) (tat : Nanos) :
    Prop :=
  ∃ pre r post, ops = pre ++ .check r :: post ∧ r.key = k ∧
    (((new.shardRun shardOf pre).check r).2.isOk = true ∧
      tat.toNat ≤ r.now.toNat + r.quota.burstOffsetNanos.toNat) ∧
    ∀ g, ShardOp.retain (shardOf k) g ∈ post → g ≤ tat

/-- A step that leaves the entry as it is. -/
theorem StoredBy.concat (h : StoredBy shardOf ops k tat) {op : ShardOp}
    (hop : ∀ g, op = .retain (shardOf k) g → g ≤ tat) : StoredBy shardOf (ops ++ [op]) k tat := by
  obtain ⟨pre, r, post, rfl, hk, hadmitted, hvisits⟩ := h
  refine ⟨pre, r, post ++ [op], by rw [List.append_assoc, List.cons_append], hk, hadmitted, ?_⟩
  intro g hg
  rcases List.mem_append.mp hg with hold | hnew
  · exact hvisits g hold
  · exact hop g (List.mem_singleton.mp hnew).symm

/-- An admitted check leaves a TAT that is at most one burst ahead. -/
theorem check_state_of_admitted {st : MemoryStorage} {r : CheckRequest}
    (h : (st.check r).2.isOk = true) :
    ∃ tat, (st.check r).1.state r.key = some tat ∧
      tat.toNat ≤ r.now.toNat + r.quota.burstOffsetNanos.toNat := by
  rw [check_snd, checkEntry_isOk_iff] at h
  exact ⟨_, (check_state_self st r).trans (checkEntry_ok h).1, (admits_iff _ _ _ _ _).mp h⟩

/-- **Entries.** An entry comes from an admitted check, and no later visit was after its
    TAT. -/
theorem stored_by (shardOf : StorageKey → ℕ) (k : StorageKey) (ops : List ShardOp) :
    ∀ tat, (new.shardRun shardOf ops).state k = some tat → StoredBy shardOf ops k tat := by
  induction ops using List.reverseRecOn with
  | nil =>
    intro tat h
    cases h
  | append_singleton ops op ih =>
    intro tat h
    rw [shardRun_concat] at h
    cases op with
    | check r =>
      have h' : ((new.shardRun shardOf ops).check r).1.state k = some tat := h
      by_cases hk : r.key = k
      · by_cases hok : ((new.shardRun shardOf ops).check r).2.isOk = true
        · subst hk
          obtain ⟨tat', hstate, hle⟩ := check_state_of_admitted hok
          obtain rfl := Option.some.inj (hstate.symm.trans h')
          exact ⟨ops, r, [], rfl, rfl, ⟨hok, hle⟩, fun g hg => absurd hg List.not_mem_nil⟩
        · rw [check_state_of_denied hok] at h'
          exact (ih tat h').concat nofun
      · rw [check_state_ne _ r hk] at h'
        exact (ih tat h').concat nofun
    | retain shard g =>
      have h' : (if shardOf k = shard then
          ((new.shardRun shardOf ops).state k).filter fun tat => g ≤ tat
        else (new.shardRun shardOf ops).state k) = some tat := h
      by_cases hs : shardOf k = shard
      · rw [if_pos hs, Option.filter_eq_some_iff] at h'
        refine (ih tat h'.1).concat fun g' hg' => ?_
        rw [← (ShardOp.retain.inj hg').2]
        exact of_decide_eq_true h'.2
      · rw [if_neg hs] at h'
        exact (ih tat h').concat fun g' hg' => absurd (ShardOp.retain.inj hg').1.symm hs

/-- The check behind an entry is among those that the run admits, and it was not long
    before any visit to its shard. -/
theorem StoredBy.recent (h : StoredBy shardOf ops k tat) {lag : ℕ}
    (hprompt : CollectsPromptly shardOf k lag ops) :
    ∃ r ∈ new.admittedChecks shardOf ops, r.key = k ∧
      tat.toNat ≤ r.now.toNat + r.quota.burstOffsetNanos.toNat ∧
      ∀ g, ShardOp.retain (shardOf k) g ∈ ops →
        g.toNat ≤ r.now.toNat + max lag r.quota.burstOffsetNanos.toNat := by
  obtain ⟨pre, r, post, rfl, hk, ⟨hok, hle⟩, hvisits⟩ := h
  refine ⟨r, ?_, hk, hle, fun g hg => ?_⟩
  · rw [admittedChecks_append, admittedChecks, if_pos hok]
    exact List.mem_append_right _ List.mem_cons_self
  · rcases List.mem_append.mp hg with hpre | hpost
    · -- The check came after the visit, and not with an old time.
      have := (List.pairwise_append.mp hprompt).2.2 _ hpre _ List.mem_cons_self g r rfl rfl hk
      omega
    · rcases List.mem_cons.mp hpost with hcheck | hpost
      · cases hcheck
      · have := UInt64.le_iff_toNat_le.mp (hvisits g hpost)
        omega

end MemoryStorage

namespace Deployment

variable {ι B E ResBody : Type} {D : Deployment ι B E ResBody} {w w' : World ι B}

/-! ## Finished sweeps -/

/-- The times of the sweeps that have visited all shards. -/
def World.finishedSweeps (w : World ι B) : List Nanos :=
  if w.toVisit = [] then w.sweeps else w.sweeps.dropLast

/-- Every sweep has visited the shards that it does not have to visit any more. -/
def Collected (D : Deployment ι B E ResBody) (w : World ι B) : Prop :=
  ∀ shard < D.shards, ∀ T ∈ if shard ∈ w.toVisit then w.sweeps.dropLast else w.sweeps,
    ShardOp.retain shard T ∈ w.steps

theorem collected_start : Collected D (World.start : World ι B) := by
  intro shard _ T hT
  simp [World.start] at hT

theorem Collected.step (h : Collected D w) (hs : Sweeping w) {a : Action ι B}
    (hm : Move D w a w') : Collected D w' := by
  cases hm with
  | time now hle => exact h
  | stage a id stage hid hsound => exact h
  | pass id i req hid hpass => exact h
  | check id checkedAt stage r hid hr =>
    intro shard hlt T hT
    exact List.mem_append_left _ (h shard hlt T hT)
  | tick hnil =>
    intro shard hlt T hT
    have hT' : T ∈ if shard ∈ List.range D.shards then (w.sweeps ++ [w.clock]).dropLast
        else w.sweeps ++ [w.clock] := hT
    rw [if_pos (List.mem_range.mpr hlt), List.dropLast_concat] at hT'
    apply h shard hlt T
    rwa [hnil, if_neg List.not_mem_nil]
  | visit shard left hv =>
    intro shard' hlt T hT
    have hT' : T ∈ if shard' ∈ left then w.sweeps.dropLast else w.sweeps := hT
    show ShardOp.retain shard' T ∈ w.steps ++ [ShardOp.retain shard w.sweepTime]
    rw [hs.due_visited hv shard'] at hT'
    rcases List.mem_append.mp hT' with hold | hnew
    · exact List.mem_append_left _ (h shard' hlt T hold)
    · rw [List.mem_ite_nil_right, List.mem_singleton] at hnew
      obtain ⟨rfl, rfl⟩ := hnew
      exact List.mem_append_right _ List.mem_cons_self

theorem collected_of_run {as : List (Action ι B)}
    (hr : D.system.run World.start as = some w) : Collected D w :=
  (TransitionSystem.run_invariant (M := D.system) (I := fun w => Sweeping w ∧ Collected D w)
    (fun _ _ _ h hs => ⟨h.1.step (move_of_step hs), h.2.step h.1 (move_of_step hs)⟩)
    ⟨sweeping_start, collected_start⟩ hr).2

/-- A finished sweep has visited every shard. -/
theorem Collected.visited (h : Collected D w) {shard : ℕ} (hlt : shard < D.shards) {T : Nanos}
    (hT : T ∈ w.finishedSweeps) : ShardOp.retain shard T ∈ w.steps := by
  apply h shard hlt T
  unfold World.finishedSweeps at hT
  split_ifs with hmem
  · rwa [if_neg (List.ne_nil_of_mem hmem)] at hT
  · split_ifs at hT
    · exact hT
    · exact List.mem_of_mem_dropLast hT

/-! ## The size of the storage -/

/-- The allowed checks that were made after `T`, or before it by at most one burst or the
    delay of a call. -/
def World.allowedSince (w : World ι B) (lag T : ℕ) : List CheckRequest :=
  (w.allowed.map Prod.snd).filter fun r =>
    T ≤ r.now.toNat + max lag r.quota.burstOffsetNanos.toNat

/-- **Size.** Let the calls reach the map at most `lag` after they have read the clock, and
    let a sweep with time `T` have visited every shard. Then each entry of the storage is
    that of a bucket with an allowed check since `T`, up to the delay of the call or one
    burst, and its TAT is at most one burst after such a check. So there are no more
    entries than such buckets, whatever else has been asked for, and none after a sweep
    long after the last allowed check. -/
theorem stored_keys_bounded (D : Deployment ι B E ResBody) (lag : ℕ) (as : List (Action ι B))
    (w : World ι B) (hr : D.system.run World.start as = some w)
    (hlag : D.system.Along (Timely lag) World.start as)
    (hshards : ∀ k, D.shardOf k < D.shards) {T : Nanos} (hT : T ∈ w.finishedSweeps) :
    (∀ k tat, w.storage.state k = some tat → ∃ r ∈ w.allowedSince lag T.toNat, r.key = k ∧
        tat.toNat ≤ r.now.toNat + r.quota.burstOffsetNanos.toNat) ∧
      {k | w.storage.state k ≠ none}.Finite ∧
      {k | w.storage.state k ≠ none}.ncard ≤
        ((w.allowedSince lag T.toNat).map CheckRequest.key).dedup.length := by
  obtain ⟨hl, -, -⟩ := invariants_of_run (ledger_start D lag) sweeping_start
    (forwarding_start D) hr hlag
  have hstored : ∀ k tat, w.storage.state k = some tat →
      ∃ r ∈ w.allowedSince lag T.toNat, r.key = k ∧
        tat.toNat ≤ r.now.toNat + r.quota.burstOffsetNanos.toNat := by
    intro k tat hk
    rw [hl.storage] at hk
    obtain ⟨r, hr', hkey, hle, hvisits⟩ :=
      (MemoryStorage.stored_by D.shardOf k w.steps tat hk).recent (hl.prompt k)
    have hvisit := (collected_of_run hr).visited (hshards k) hT
    rw [← hl.allowed] at hr'
    exact ⟨r, List.mem_filter.mpr ⟨hr', decide_eq_true (hvisits T hvisit)⟩, hkey, hle⟩
  have hsub : {k | w.storage.state k ≠ none} ⊆
      ↑((w.allowedSince lag T.toNat).map CheckRequest.key).toFinset := by
    intro k hk
    obtain ⟨tat, htat⟩ := Option.ne_none_iff_exists'.mp hk
    obtain ⟨r, hr', rfl, -⟩ := hstored k tat htat
    exact List.mem_toFinset.mpr (List.mem_map_of_mem hr')
  have hfinite := Finset.finite_toSet ((w.allowedSince lag T.toNat).map CheckRequest.key).toFinset
  refine ⟨hstored, hfinite.subset hsub, ?_⟩
  calc {k | w.storage.state k ≠ none}.ncard
      ≤ (((w.allowedSince lag T.toNat).map CheckRequest.key).toFinset : Set StorageKey).ncard :=
        Set.ncard_le_ncard hsub hfinite
    _ = ((w.allowedSince lag T.toNat).map CheckRequest.key).dedup.length := by
        rw [Set.ncard_coe_finset, List.card_toFinset]

/-- A check at 0, whose burst ends at 20; a sweep at 30 that is overtaken by a check of
    another user, which has read the clock at 29. -/
def sweptLater : List (Action Unit Unit) :=
  [.ask 0 "u" "free" 1, .poll 0, .access 0 ⟨0, epoch_lt⟩, .advance 29, .ask 1 "v" "free" 1, .poll 1,
    .advance 30, .tick, .access 1 ⟨0, epoch_lt⟩, .visit]

/-- Only the entry of the other user is left. -/
theorem stored_keys_bounded_overtaken :
    ∃ w, pairDeployment.system.run World.start sweptLater = some w ∧
      (w.allowed.map fun x => x.2.key.userId) = ["u", "v"] ∧
      {k | w.storage.state k ≠ none}.ncard ≤ 1 := by
  refine ⟨_, rfl, by decide, ?_⟩
  refine (stored_keys_bounded pairDeployment 1 sweptLater _ rfl ?_ (fun _ => Nat.zero_lt_one)
    (T := 30) (by decide)).2.2
  exact ⟨_, rfl, timely_of_ne (by simp), _, rfl, timely_of_ne (by simp),
    _, rfl, timely_access rfl rfl (by decide), _, rfl, timely_of_ne (by simp),
    _, rfl, timely_of_ne (by simp), _, rfl, timely_of_ne (by simp), _, rfl, timely_of_ne (by simp),
    _, rfl, timely_of_ne (by simp), _, rfl, timely_access rfl rfl (by decide),
    _, rfl, timely_of_ne (by simp), trivial⟩

end Deployment

end TowerRateTier
