import TowerRateTier.Lib.TransitionSystem
import TowerRateTier.Storage.Memory
import TowerRateTier.Tier

/-!
# Overlapping calls of `RateTier::check`

A call reads the clock and later takes the entry of its key, so calls can reach
the map in another order than that of their times. The clock never goes back.

* `Invariant`: a stored TAT is at most a burst offset ahead of the time of a
  call that was allowed for its key.
* `free_request_allowed_iff`: when a request of cost 0 is allowed.

**Deviation from the documentation.** `check_gcra` (`src/gcra.rs`, lines 56–57)
says that a cost of 0 is always allowed. A call that has read the clock and is
overtaken by a full burst of the same key with a later time is limited, whatever
its cost.
-/

namespace TowerRateTier.TierCalls

/-! ## Model -/

/-- The arguments of a call of `RateTier::check` and the time it has read. -/
structure TierCall where
  userId : String
  tier : String
  cost : UInt32
  now : Nanos
deriving DecidableEq, Repr

/-- The clock, the storage, the calls that have read the clock and not yet reached the
    map, and those that were allowed so far. -/
structure World where
  clock : Nanos
  storage : MemoryStorage
  calls : ℕ → Option TierCall
  allowed : List TierCall

/-- A step of the clock or of some call. -/
inductive Action where
  | advance (now : Nanos)
  | readClock (id : ℕ) (userId tier : String) (cost : UInt32)
  | access (id : ℕ)

/-- The answer lets the request pass. -/
def Allowed : Except CheckError Decision → Prop
  | .ok (.ok _) => True
  | _ => False

instance (answer : Except CheckError Decision) : Decidable (Allowed answer) :=
  match answer with
  | .ok (.ok _) => isTrue trivial
  | .ok (.error _) => isFalse id
  | .error _ => isFalse id

variable (rateTier : RateTier)

/-- `RateTier::check` on the map. What precedes the access does not read the storage. -/
def TierCall.check (c : TierCall) (st : MemoryStorage) : MemoryStorage × Except CheckError Decision :=
  rateTier.check MemoryStorage.storage st c.now c.userId c.tier c.cost

namespace World

/-- A clock that has not started, and an empty storage. -/
def start : World := ⟨0, MemoryStorage.new, fun _ => none, []⟩

/-- Call `id` reaches the map. -/
def accessed (w : World) (id : ℕ) (c : TierCall) : World where
  clock := w.clock
  storage := (c.check rateTier w.storage).1
  calls := Function.update w.calls id none
  allowed := if Allowed (c.check rateTier w.storage).2 then c :: w.allowed else w.allowed

/-- One step. -/
def step (w : World) : Action → Option World
  | .advance now => if w.clock ≤ now then some { w with clock := now } else none
  | .readClock id userId tier cost =>
    if (w.calls id).isNone then
      some { w with calls := Function.update w.calls id (some ⟨userId, tier, cost, w.clock⟩) }
    else none
  | .access id => (w.calls id).map fun c => w.accessed rateTier id c

end World

/-- Any number of calls of one limiter. -/
def checkSystem : TransitionSystem World Action := ⟨World.start, World.step rateTier⟩

/-! ## One call -/

variable {rateTier}

theorem World.step_advance {w w' : World} {now : Nanos}
    (h : (checkSystem rateTier).step w (.advance now) = some w') :
    w.clock ≤ now ∧ w' = { w with clock := now } := by
  simp only [checkSystem, World.step, Option.ite_none_right_eq_some, Option.some.injEq] at h
  exact ⟨h.1, h.2.symm⟩

theorem World.step_readClock {w w' : World} {id : ℕ} {userId tier : String} {cost : UInt32}
    (h : (checkSystem rateTier).step w (.readClock id userId tier cost) = some w') :
    w' = { w with calls := Function.update w.calls id (some ⟨userId, tier, cost, w.clock⟩) } := by
  simp only [checkSystem, World.step, Option.ite_none_right_eq_some, Option.some.injEq] at h
  exact h.2.symm

theorem World.step_access {w w' : World} {id : ℕ}
    (h : (checkSystem rateTier).step w (.access id) = some w') :
    ∃ c, w.calls id = some c ∧ w' = w.accessed rateTier id c := by
  obtain ⟨c, hc, rfl⟩ := Option.map_eq_some_iff.mp h
  exact ⟨c, hc, rfl⟩

/-- A limited tier and a cost within its burst lead to a check of the map. -/
theorem TierCall.check_eq {c : TierCall} {quota : Quota}
    (hq : rateTier.getQuota c.tier = some quota) (hl : quota.isUnlimited = false)
    (hcost : c.cost ≤ quota.maxBurst) (st : MemoryStorage) :
    c.check rateTier st = ((st.check ⟨⟨c.userId, c.tier⟩, quota, c.cost, c.now⟩).1,
      .ok (st.check ⟨⟨c.userId, c.tier⟩, quota, c.cost, c.now⟩).2) := by
  exact RateTier.check_of_le MemoryStorage.storage st c.now c.userId hq hl hcost

/-- A call changes at most the entry of its own key, and only if it is allowed. -/
theorem TierCall.check_state (c : TierCall) (st : MemoryStorage) {k : StorageKey} {tat : Nanos}
    (h : (c.check rateTier st).1.state k = some tat) :
    st.state k = some tat ∨ k = ⟨c.userId, c.tier⟩ ∧ Allowed (c.check rateTier st).2 ∧
      ∃ quota, rateTier.getQuota c.tier = some quota ∧
        tat.toNat ≤ c.now.toNat + quota.burstOffsetNanos.toNat := by
  cases hq : rateTier.getQuota c.tier with
  | none =>
    left
    simpa only [TierCall.check, RateTier.check, hq] using h
  | some quota =>
    by_cases hl : quota.isUnlimited = true
    · left
      rwa [TierCall.check, RateTier.check_of_unlimited _ _ _ _ hq hl] at h
    by_cases hcost : c.cost ≤ quota.maxBurst
    · have he := c.check_eq hq (Bool.eq_false_iff.mpr hl) hcost st
      rw [he] at h ⊢
      by_cases hok : (st.check ⟨⟨c.userId, c.tier⟩, quota, c.cost, c.now⟩).2.isOk = true
      · by_cases hk : (⟨c.userId, c.tier⟩ : StorageKey) = k
        · right
          subst hk
          have ha := hok
          rw [MemoryStorage.check_snd, MemoryStorage.checkEntry_isOk_iff] at ha
          rw [MemoryStorage.check_state_self, (MemoryStorage.checkEntry_ok ha).1] at h
          rw [MemoryStorage.check_snd, (MemoryStorage.checkEntry_ok ha).2]
          refine ⟨rfl, trivial, quota, rfl, ?_⟩
          rw [← Option.some.inj h]
          exact (admits_iff _ _ _ _ _).mp ha
        · left
          rw [← h]
          exact (MemoryStorage.check_state_ne st _ hk).symm
      · left
        rw [← h, MemoryStorage.check_state_of_denied hok]
    · left
      rwa [TierCall.check, RateTier.check_of_gt _ _ _ _ hq (Bool.eq_false_iff.mpr hl) hcost] at h

/-- A request of cost 0 is limited exactly by a TAT more than a burst offset ahead. -/
theorem admits_zero_iff (entry : Option Nanos) (now ei bo : Nanos) :
    Admits entry now ei bo 0 ↔ ∀ tat, entry = some tat → tat.toNat ≤ now.toNat + bo.toNat := by
  have hnew : (newTat entry now ei 0).toNat = (currentTat entry now).toNat := by
    have := (currentTat entry now).toNat_le
    rw [toNat_newTat]
    simp only [UInt32.toNat_zero, Nat.mul_zero, Nat.add_zero]
    omega
  rw [admits_iff, hnew, toNat_currentTat]
  cases entry with
  | none => simp
  | some tat => simp

/-! ## Runs -/

/-- What holds in every reachable state. -/
def Invariant (rateTier : RateTier) (w : World) : Prop :=
  ∀ k tat, w.storage.state k = some tat →
    ∃ c ∈ w.allowed, k = ⟨c.userId, c.tier⟩ ∧ ∃ quota, rateTier.getQuota c.tier = some quota ∧
      tat.toNat ≤ c.now.toNat + quota.burstOffsetNanos.toNat

theorem Invariant.accessed {w : World} (h : Invariant rateTier w) (id : ℕ) (c : TierCall) :
    Invariant rateTier (w.accessed rateTier id c) := by
  intro k tat hk
  rcases c.check_state w.storage hk with hold | ⟨hkey, hok, hbound⟩
  · obtain ⟨c', hc', hrest⟩ := h k tat hold
    refine ⟨c', ?_, hrest⟩
    show c' ∈ if Allowed (c.check rateTier w.storage).2 then c :: w.allowed else w.allowed
    split_ifs
    · exact List.mem_cons_of_mem _ hc'
    · exact hc'
  · refine ⟨c, ?_, hkey, hbound⟩
    show c ∈ if Allowed (c.check rateTier w.storage).2 then c :: w.allowed else w.allowed
    rw [if_pos hok]
    exact List.mem_cons_self

theorem invariant_of_reachable {w : World} (h : (checkSystem rateTier).Reachable w) :
    Invariant rateTier w := by
  apply h.induction
  · intro k tat hk
    cases hk
  · intro w a w' hI hs
    cases a with
    | advance now =>
      obtain ⟨-, rfl⟩ := World.step_advance hs
      exact hI
    | readClock id userId tier cost =>
      obtain rfl := World.step_readClock hs
      exact hI
    | access id =>
      obtain ⟨c, -, rfl⟩ := World.step_access hs
      exact hI.accessed id c

/-- **Free requests.** In every reachable state a request of cost 0 is allowed if and
    only if the TAT of its key is at most a burst offset after its time. So it is
    allowed at any time that is not before those of the calls that were allowed for
    its key. -/
theorem free_request_allowed_iff (rateTier : RateTier) (w : World)
    (h : (checkSystem rateTier).Reachable w) (userId tier : String) (quota : Quota)
    (hq : rateTier.getQuota tier = some quota) (hl : quota.isUnlimited = false) (now : Nanos) :
    (Allowed ((TierCall.mk userId tier 0 now).check rateTier w.storage).2 ↔
        ∀ tat, w.storage.state ⟨userId, tier⟩ = some tat →
          tat.toNat ≤ now.toNat + quota.burstOffsetNanos.toNat) ∧
      ((∀ c ∈ w.allowed, c.userId = userId → c.tier = tier → c.now ≤ now) →
        Allowed ((TierCall.mk userId tier 0 now).check rateTier w.storage).2) := by
  have hzero : (TierCall.mk userId tier 0 now).cost ≤ quota.maxBurst :=
    UInt32.le_iff_toNat_le.mpr (Nat.zero_le _)
  have hcheck := (TierCall.mk userId tier 0 now).check_eq hq hl hzero w.storage
  have hiff : Allowed ((TierCall.mk userId tier 0 now).check rateTier w.storage).2 ↔
      ∀ tat, w.storage.state ⟨userId, tier⟩ = some tat →
        tat.toNat ≤ now.toNat + quota.burstOffsetNanos.toNat := by
    rw [hcheck, ← admits_zero_iff _ now quota.emissionIntervalNanos,
      ← MemoryStorage.checkEntry_isOk_iff, MemoryStorage.check_snd]
    cases (MemoryStorage.checkEntry (w.storage.state ⟨userId, tier⟩) quota 0 now).2 with
    | ok info => simp [Allowed, Except.isOk, Except.toBool]
    | error limited => simp [Allowed, Except.isOk, Except.toBool]
  refine ⟨hiff, fun hall => hiff.mpr fun tat htat => ?_⟩
  obtain ⟨c, hc, hkey, quota', hq', hle⟩ := invariant_of_reachable h _ tat htat
  obtain ⟨huser, htier⟩ := StorageKey.mk.inj hkey
  have hnow := UInt64.le_iff_toNat_le.mp (hall c hc huser.symm htier.symm)
  rw [← htier, hq] at hq'
  obtain rfl := Option.some.inj hq'
  omega

/-- One tier: two requests per 20 ns. -/
def pairTier : RateTier where
  tiers := [("free", ⟨2, .fromNanos 20, .two_per_twenty_nanos⟩)]
  defaultTier := none
  onMissing := .useDefault
  onUnknownTier := .useDefault
  accepted := ⟨by simp, fun _ h => by cases h⟩

/-- Call 0, of cost 0, reads the clock; 1 ns later call 1 reads it and takes both
    tokens before call 0 reaches the map. -/
def overtakenRun : List Action :=
  [.readClock 0 "u" "free" 0, .advance 1, .readClock 1 "u" "free" 2, .access 1]

/-- The free request is limited for 1 ns. -/
theorem free_request_limited :
    ∃ w, (checkSystem pairTier).run World.start overtakenRun = some w ∧
      w.calls 0 = some ⟨"u", "free", 0, 0⟩ ∧
      ((TierCall.mk "u" "free" 0 0).check pairTier w.storage).2 =
        .ok (.error ⟨2, .fromNanos 1, .fromNanos 21⟩) :=
  ⟨_, rfl, by decide, by decide⟩

/-- At the time of the call that took the tokens it is allowed. -/
theorem free_request_allowed_later :
    ∃ w, (checkSystem pairTier).run World.start overtakenRun = some w ∧
      Allowed ((TierCall.mk "u" "free" 0 1).check pairTier w.storage).2 := by
  refine ⟨_, rfl, ?_⟩
  apply (free_request_allowed_iff pairTier _ ⟨overtakenRun, rfl⟩ "u" "free" _ rfl (by decide) 1).2
  intro c hc _ _
  obtain rfl := List.mem_singleton.mp hc
  decide

end TowerRateTier.TierCalls
