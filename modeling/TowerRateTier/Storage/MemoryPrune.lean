import TowerRateTier.Storage.Memory

/-!
# Collected entries are not missed

A check at `now` treats a stored TAT before `now` like no TAT at all. So a store
that has lost such entries gives the same answers as one that has kept them, and
the checks at later times keep the two stores in this relation.

* `Pruned.check`: a check gives the same answer on both stores.
* `Pruned.retainActive`: a collection on one of the two changes nothing.
-/

namespace TowerRateTier.MemoryStorage

/-- `entry` is the entry `bare`, or it was deleted and the TAT is before `now`. -/
def PrunedEntry (now : Nanos) (entry bare : Option Nanos) : Prop :=
  entry = bare ∨ entry = none ∧ ∃ tat, bare = some tat ∧ tat.toNat < now.toNat

/-- The store `st` is the store `bare` without some entries whose TAT is before `now`. -/
def Pruned (now : Nanos) (st bare : MemoryStorage) : Prop :=
  ∀ k, PrunedEntry now (st.state k) (bare.state k)

variable {now now' : Nanos} {entry entry' : Option Nanos} {st bare : MemoryStorage}

/-! ## One entry -/

theorem PrunedEntry.mono (h : PrunedEntry now entry entry') (hle : now ≤ now') :
    PrunedEntry now' entry entry' := by
  rcases h with h | ⟨h, tat, htat, hlt⟩
  · exact Or.inl h
  · exact Or.inr ⟨h, tat, htat, lt_of_lt_of_le hlt (UInt64.le_iff_toNat_le.mp hle)⟩

theorem PrunedEntry.filter (h : PrunedEntry now entry entry') :
    PrunedEntry now (entry.filter fun tat => now ≤ tat) entry' := by
  rcases h with rfl | ⟨rfl, h⟩
  · cases entry with
    | none => exact Or.inl rfl
    | some tat =>
      by_cases hle : now ≤ tat
      · exact Or.inl (by simp [Option.filter, hle])
      · refine Or.inr ⟨by simp [Option.filter, hle], tat, rfl, ?_⟩
        rw [UInt64.le_iff_toNat_le] at hle
        omega
  · exact Or.inr ⟨rfl, h⟩

/-- `check_gcra` at `now` does not see the difference. -/
theorem PrunedEntry.checkGcra_eq (h : PrunedEntry now entry entry') (ei bo : Nanos)
    (cost : UInt32) : checkGcra entry now ei bo cost = checkGcra entry' now ei bo cost := by
  rcases h with rfl | ⟨rfl, tat, rfl, hlt⟩
  · rfl
  · exact checkGcra_congr (currentTat_of_le hlt.le).symm ei bo cost

theorem PrunedEntry.check (h : PrunedEntry now entry entry') (quota : Quota) (cost : UInt32) :
    (checkEntry entry quota cost now).2 = (checkEntry entry' quota cost now).2 ∧
      PrunedEntry now (checkEntry entry quota cost now).1 (checkEntry entry' quota cost now).1 := by
  unfold checkEntry
  rw [h.checkGcra_eq]
  cases checkGcra entry' now quota.emissionIntervalNanos quota.burstOffsetNanos cost with
  | ok r => exact ⟨rfl, Or.inl rfl⟩
  | error limited => exact ⟨rfl, h⟩

/-! ## The store -/

theorem Pruned.refl (now : Nanos) (st : MemoryStorage) : Pruned now st st := fun _ => Or.inl rfl

theorem Pruned.mono (h : Pruned now st bare) (hle : now ≤ now') : Pruned now' st bare :=
  fun k => (h k).mono hle

/-- **Collection.** `retain_active(now)` may come before the checks from `now` on. -/
theorem Pruned.retainActive (h : Pruned now st bare) : Pruned now (st.retainActive now) bare :=
  fun k => (h k).filter

/-- **Check.** The answer is the same, and so is the relation afterwards. -/
theorem Pruned.check {r : CheckRequest} (h : Pruned r.now st bare) :
    (st.check r).2 = (bare.check r).2 ∧ Pruned r.now (st.check r).1 (bare.check r).1 := by
  constructor
  · rw [check_snd, check_snd]
    exact ((h r.key).check r.quota r.cost).1
  · intro k
    by_cases hk : r.key = k
    · subst hk
      rw [check_state_self, check_state_self]
      exact ((h r.key).check r.quota r.cost).2
    · rw [check_state_ne st r hk, check_state_ne bare r hk]
      exact h k

end TowerRateTier.MemoryStorage
