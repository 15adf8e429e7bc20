import TowerRateTier.Storage.Basic
import Mathlib.Logic.Function.Basic

/-!
# `MemoryStorage`

Model of `src/storage/memory.rs`. The `DashMap` is a partial map from keys to
stored TATs. `check_and_update` holds the lock of the entry from the read to
the write and `retain_active` visits each entry under its lock, so every
operation is one atomic step on each key, and a concurrent execution is a run
of the operations in some order.

* `checkAndUpdate_eq`: a check reads and writes the entry of its own key only.
* `answersAt_eq_answers`: the answers to the requests of one key do not depend
  on the requests of other keys.
-/

namespace TowerRateTier

/-! ## Model -/

/-- Model of `MemoryStorage` (lines 13–16). -/
@[ext] structure MemoryStorage where
  state : StorageKey → Option Nanos

namespace MemoryStorage

/-- `MemoryStorage::new` (lines 20–24). -/
def new : MemoryStorage := ⟨fun _ => none⟩

/-- `slot.insert(new_tat)`. -/
def insert (st : MemoryStorage) (key : StorageKey) (tat : Nanos) : MemoryStorage :=
  ⟨Function.update st.state key (some tat)⟩

/-- `MemoryStorage::retain_active` (lines 39–41). -/
def retainActive (st : MemoryStorage) (now : Nanos) : MemoryStorage :=
  ⟨fun key => (st.state key).filter fun tat => now ≤ tat⟩

/-- `MemoryStorage::clear` (lines 44–46). -/
def clear (_ : MemoryStorage) : MemoryStorage := ⟨fun _ => none⟩

/-- `MemoryStorage::check_and_update` (lines 65–93). -/
def checkAndUpdate (st : MemoryStorage) (key : StorageKey) (quota : Quota) (cost : UInt32)
    (now : Nanos) : MemoryStorage × Decision :=
  let ei := quota.emissionIntervalNanos
  let bo := quota.burstOffsetNanos
  match st.state key with
  | some slot =>
    match checkGcra (some slot) now ei bo cost with
    | .ok (newTat, info) => (st.insert key newTat, .ok info)
    | .error limited => (st, .error limited)
  | none =>
    match checkGcra none now ei bo cost with
    | .ok (newTat, info) => (st.insert key newTat, .ok info)
    | .error limited => (st, .error limited)

/-- `MemoryStorage` as a backend: it never fails. -/
def storage : Storage MemoryStorage where
  checkAndUpdate st key quota cost now :=
    let (st', result) := st.checkAndUpdate key quota cost now
    (st', .ok result)

/-- The check of a request. -/
def check (st : MemoryStorage) (r : CheckRequest) : MemoryStorage × Decision :=
  st.checkAndUpdate r.key r.quota r.cost r.now

/-! ## One entry -/

/-- What a check does to the entry of its key. -/
def checkEntry (entry : Option Nanos) (quota : Quota) (cost : UInt32) (now : Nanos) :
    Option Nanos × Decision :=
  match checkGcra entry now quota.emissionIntervalNanos quota.burstOffsetNanos cost with
  | .ok (newTat, info) => (some newTat, .ok info)
  | .error limited => (entry, .error limited)

/-- A check reads and writes the entry of its own key only. -/
theorem checkAndUpdate_eq (st : MemoryStorage) (key : StorageKey) (quota : Quota) (cost : UInt32)
    (now : Nanos) :
    st.checkAndUpdate key quota cost now =
      (⟨Function.update st.state key (checkEntry (st.state key) quota cost now).1⟩,
        (checkEntry (st.state key) quota cost now).2) := by
  have hself : Function.update st.state key (st.state key) = st.state :=
    Function.update_eq_self _ _
  unfold checkAndUpdate checkEntry insert
  cases hs : st.state key with
  | none =>
    rw [hs] at hself
    cases hc : checkGcra none now quota.emissionIntervalNanos quota.burstOffsetNanos cost with
    | error limited => simp only [hc, hself]
    | ok r => simp only [hc]
  | some slot =>
    rw [hs] at hself
    cases hc : checkGcra (some slot) now quota.emissionIntervalNanos quota.burstOffsetNanos cost with
    | error limited => simp only [hc, hself]
    | ok r => simp only [hc]

theorem check_snd (st : MemoryStorage) (r : CheckRequest) :
    (st.check r).2 = (checkEntry (st.state r.key) r.quota r.cost r.now).2 := by
  rw [check, checkAndUpdate_eq]

theorem check_state_self (st : MemoryStorage) (r : CheckRequest) :
    (st.check r).1.state r.key = (checkEntry (st.state r.key) r.quota r.cost r.now).1 := by
  rw [check, checkAndUpdate_eq]
  exact Function.update_self _ _ _

/-- Frame: the entries of other keys are unchanged. -/
theorem check_state_ne (st : MemoryStorage) (r : CheckRequest) {k : StorageKey} (h : r.key ≠ k) :
    (st.check r).1.state k = st.state k := by
  rw [check, checkAndUpdate_eq]
  exact Function.update_of_ne h.symm _ _

theorem checkEntry_ok {entry : Option Nanos} {quota : Quota} {cost : UInt32} {now : Nanos}
    (h : Admits entry now quota.emissionIntervalNanos quota.burstOffsetNanos cost) :
    (checkEntry entry quota cost now).1 =
        some (newTat entry now quota.emissionIntervalNanos cost) ∧
      (checkEntry entry quota cost now).2 =
        .ok (allowedInfo now quota.emissionIntervalNanos quota.burstOffsetNanos
          (newTat entry now quota.emissionIntervalNanos cost)) := by
  have h' := (checkGcra_ok_iff entry now _ _ cost _).mpr ⟨(admits_iff _ _ _ _ _).mp h, rfl⟩
  simp [checkEntry, h']

theorem checkEntry_error {entry : Option Nanos} {quota : Quota} {cost : UInt32} {now : Nanos}
    (h : ¬ Admits entry now quota.emissionIntervalNanos quota.burstOffsetNanos cost) :
    (checkEntry entry quota cost now).1 = entry ∧
      (checkEntry entry quota cost now).2 =
        .error (limitedInfo entry now quota.emissionIntervalNanos quota.burstOffsetNanos cost) := by
  rw [admits_iff, not_le] at h
  have h' := (checkGcra_error_iff entry now _ _ cost _).mpr ⟨h, rfl⟩
  simp [checkEntry, h']

/-- The answer says whether the request was admitted. -/
theorem checkEntry_isOk_iff (entry : Option Nanos) (quota : Quota) (cost : UInt32) (now : Nanos) :
    (checkEntry entry quota cost now).2.isOk = true ↔
      Admits entry now quota.emissionIntervalNanos quota.burstOffsetNanos cost := by
  by_cases h : Admits entry now quota.emissionIntervalNanos quota.burstOffsetNanos cost
  · simp [(checkEntry_ok h).2, h, Except.isOk, Except.toBool]
  · simp [(checkEntry_error h).2, h, Except.isOk, Except.toBool]

/-- A denied request leaves the store as it is. -/
theorem check_state_of_denied {st : MemoryStorage} {r : CheckRequest}
    (h : ¬ (st.check r).2.isOk = true) : (st.check r).1.state = st.state := by
  rw [check_snd, checkEntry_isOk_iff] at h
  rw [check, checkAndUpdate_eq, (checkEntry_error h).1]
  exact Function.update_eq_self _ _

/-! ## Runs of checks -/

/-- The answers to a sequence of requests. -/
def answers : MemoryStorage → List CheckRequest → List Decision
  | _, [] => []
  | st, r :: rs => (st.check r).2 :: (st.check r).1.answers rs

/-- The store after a sequence of requests. -/
def afterChecks (st : MemoryStorage) (rs : List CheckRequest) : MemoryStorage :=
  rs.foldl (fun st r => (st.check r).1) st

/-- The answers to the requests of key `k` within a run. -/
def answersAt (k : StorageKey) : MemoryStorage → List CheckRequest → List Decision
  | _, [] => []
  | st, r :: rs =>
    if r.key = k then (st.check r).2 :: (st.check r).1.answersAt k rs
    else (st.check r).1.answersAt k rs

/-- Keys never influence each other: the answers given to one key are those it
    gets in a store that agrees on that key and sees only its requests. -/
theorem answersAt_eq_answers (k : StorageKey) (rs : List CheckRequest) :
    ∀ st st' : MemoryStorage, st.state k = st'.state k →
      st.answersAt k rs = st'.answers (rs.filter fun r => r.key = k) := by
  induction rs with
  | nil => intro st st' _; rfl
  | cons r rs ih =>
    intro st st' h
    by_cases hk : r.key = k
    · subst hk
      have hs : (st.check r).1.state r.key = (st'.check r).1.state r.key := by
        rw [check_state_self, check_state_self, h]
      rw [answersAt, if_pos rfl, List.filter_cons_of_pos (by simp), answers, check_snd, check_snd,
        h, ih _ _ hs]
    · rw [answersAt, if_neg hk, List.filter_cons_of_neg (by simpa using hk)]
      exact ih _ _ (by rw [check_state_ne st r hk, h])

end MemoryStorage

end TowerRateTier
