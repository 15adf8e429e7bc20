import Mathlib
import TowerRateTier.Lib.Noninterference
import TowerRateTier.Service
import TowerRateTier.Storage.Memory

/-!
# Isolation of the users

Two runs of requests through the service that differ only in the requests of
other users: `Isolated` says that a user cannot tell them apart. The observer of
`Lib/Noninterference.lean` is the user, and what is hidden from it are the
requests with another identity or none.

* `machine_step`: a call is a function of the time, the identity and the cost.
* `isolated_iff`: who is isolated.

**Deviation from the documentation.** `StorageKey` is documented as a bucket of
a user within a tier (`src/storage/mod.rs`, lines 24–28), and unidentified
requests as sharing one bucket (`src/on_missing.rs`). That bucket has the user id
`"__anonymous__"`, which nothing reserves: a user with this id shares it.
-/

namespace TowerRateTier

/-! ## Runs of requests -/

/-- A request that reaches the service, with the times that the two clocks give then. -/
structure Arrival (B : Type) where
  now : Nanos
  checkedAt : SystemTime
  req : Request B

/-- What became of a request. -/
inductive CallOutcome where
  | answered (result : StorageResult)
  | passedThrough
  | denied
deriving DecidableEq

namespace TierLimitService

variable {σ B E ResBody : Type} (svc : TierLimitService σ B E ResBody)

/-- What the actions of a call tell: the answer of the storage if it was asked, or else
    whether the inner service was called. -/
def outcome (st : σ) (a : Arrival B) : CallOutcome :=
  let actions := (svc.call st a.now a.checkedAt a.req).actions
  match storageCalls actions with
  | r :: _ => .answered (svc.storage.check st r).2
  | [] => if (innerCalls actions).isEmpty then .denied else .passedThrough

/-- The service as a machine. -/
def machine : Machine σ (Arrival B) CallOutcome where
  step st a := ((svc.call st a.now a.checkedAt a.req).storage, svc.outcome st a)

/-- The time, the tier and the cost of a request that is identified as `u`. -/
def seenAs (u : String) (a : Arrival B) : Option (Nanos × String × UInt32) :=
  (svc.identity a.req).bind fun id =>
    if id.userId = u then some (a.now, id.tier, requestCost a.req.parts svc.settings) else none

/-- What became of the requests of `u` in a run. -/
def outcomesOf (u : String) (st : σ) (as : List (Arrival B)) : List CallOutcome :=
  svc.machine.outputs (svc.seenAs u) st as

/-- Two runs with nondecreasing times and the same requests of `u` give these the same
    outcomes, whatever the other requests are. -/
def Isolated (u : String) : Prop :=
  ∀ (st : σ) (as bs : List (Arrival B)), as.Pairwise (fun a b => a.now ≤ b.now) →
    bs.Pairwise (fun a b => a.now ≤ b.now) →
    as.filterMap (svc.seenAs u) = bs.filterMap (svc.seenAs u) →
    svc.outcomesOf u st as = svc.outcomesOf u st bs

/-- `u` is the user id of unidentified requests, these are counted in the limited default
    tier, and some request of `u` is counted there as well. -/
def SharesBucket (u : String) : Prop :=
  u = anonymous ∧ svc.rateTier.onMissing = .useDefault ∧
    ∃ tier quota, svc.rateTier.defaultTier = some tier ∧ svc.rateTier.getQuota tier = some quota ∧
      quota.isUnlimited = false ∧ (∃ req : Request B, svc.identity req = none) ∧
      ∃ (req : Request B) (id : TierIdentity), svc.identity req = some id ∧ id.userId = u ∧
        svc.rateTier.resolvedTier (some id) = some (u, tier)

/-! ## One call -/

/-- The check that a request leads to, or its outcome without one. -/
def checkFor (now : Nanos) (identity : Option TierIdentity) (cost : UInt32) :
    Except CallOutcome CheckRequest :=
  match (resolve svc.rateTier svc.settings identity).2 with
  | .ok (userId, tier, quota) =>
    if cost ≤ quota.maxBurst then .ok ⟨⟨userId, tier⟩, quota, cost, now⟩ else .error .denied
  | .error .passThrough => .error .passedThrough
  | .error _ => .error .denied

variable {svc}

/-- The step of a request whose call asks the storage. -/
theorem machine_step_of_calls {st : σ} {a : Arrival B} {r : CheckRequest}
    (hcalls : storageCalls (svc.call st a.now a.checkedAt a.req).actions = [r])
    (hst : (svc.call st a.now a.checkedAt a.req).storage = (svc.storage.check st r).1) :
    svc.machine.step st a = ((svc.storage.check st r).1, .answered (svc.storage.check st r).2) := by
  show ((svc.call st a.now a.checkedAt a.req).storage, svc.outcome st a) = _
  unfold outcome
  rw [hst]
  simp only [hcalls]

/-- The step of a request whose call does not. -/
theorem machine_step_of_no_calls {st : σ} {a : Arrival B}
    (hcalls : storageCalls (svc.call st a.now a.checkedAt a.req).actions = [])
    (hst : (svc.call st a.now a.checkedAt a.req).storage = st) :
    svc.machine.step st a =
      (st, if (innerCalls (svc.call st a.now a.checkedAt a.req).actions).isEmpty then .denied
        else .passedThrough) := by
  show ((svc.call st a.now a.checkedAt a.req).storage, svc.outcome st a) = _
  unfold outcome
  rw [hst]
  simp only [hcalls]

/-- **One call.** The time, the identity and the cost of a request decide about its
    check, and nothing else about the request matters. -/
theorem machine_step (st : σ) (a : Arrival B) :
    svc.machine.step st a =
      match svc.checkFor a.now (svc.identity a.req) (requestCost a.req.parts svc.settings) with
      | .ok r => ((svc.storage.check st r).1, .answered (svc.storage.check st r).2)
      | .error outcome => (st, outcome) := by
  unfold checkFor
  rcases hres : resolve svc.rateTier svc.settings (svc.identity a.req) with ⟨notices, result⟩
  cases result with
  | error outcome =>
    have hcall := call_of_error hres st a.now a.checkedAt
    have hcalls : storageCalls (svc.call st a.now a.checkedAt a.req).actions = [] ∧
        (svc.call st a.now a.checkedAt a.req).storage = st := by
      rw [hcall]
      cases outcome <;> simp [shortCircuit]
    rw [machine_step_of_no_calls hcalls.1 hcalls.2, hcall]
    cases outcome <;> simp [shortCircuit]
  | ok found =>
    obtain ⟨userId, tier, quota⟩ := found
    have hcall := call_of_ok hres st a.now a.checkedAt
    obtain ⟨-, hcalls, -, hstop⟩ :=
      svc.limitedCall_calls st a.now a.checkedAt a.req notices userId tier quota
    obtain ⟨hasked, hunasked⟩ :=
      svc.limitedCall_storage st a.now a.checkedAt a.req notices userId tier quota
    rw [← hcall] at hcalls hstop hasked hunasked
    simp only
    by_cases hc : requestCost a.req.parts svc.settings ≤ quota.maxBurst
    · rw [if_pos hc] at hcalls ⊢
      exact machine_step_of_calls hcalls (hasked hc).1
    · rw [if_neg hc] at hcalls ⊢
      rw [machine_step_of_no_calls hcalls (hunasked hc), hstop fun h => hc h.1]
      rfl

/-- The key of a check is the bucket of the identity, and its quota is limited. -/
theorem checkFor_eq_ok {now : Nanos} {identity : Option TierIdentity} {cost : UInt32}
    {r : CheckRequest} (h : svc.checkFor now identity cost = .ok r) :
    svc.rateTier.resolvedTier identity = some (r.key.userId, r.key.tier) ∧
      svc.rateTier.getQuota r.key.tier = some r.quota ∧ r.quota.isUnlimited = false := by
  unfold checkFor at h
  rcases resolve_cases svc.rateTier svc.settings identity with
    ⟨-, -, hr⟩ | ⟨-, -, resp, hr⟩ | ⟨-, userId, tier, quota, hb, hq, hr⟩
  · simp [hr] at h
  · simp [hr] at h
  · by_cases hl : quota.isUnlimited = true
    · simp [hr, hl] at h
    · rw [hr, if_neg hl] at h
      simp only at h
      split_ifs at h
      cases h
      exact ⟨hb, hq, Bool.eq_false_iff.mpr hl⟩

/-- A bucket with a limited quota and a cost within its burst lead to the check. -/
theorem checkFor_of_limited {identity : Option TierIdentity} {userId tier : String} {quota : Quota}
    (hb : svc.rateTier.resolvedTier identity = some (userId, tier))
    (hq : svc.rateTier.getQuota tier = some quota) (hl : quota.isUnlimited = false) {cost : UInt32}
    (hc : cost ≤ quota.maxBurst) (now : Nanos) :
    svc.checkFor now identity cost = .ok ⟨⟨userId, tier⟩, quota, cost, now⟩ := by
  unfold checkFor
  rcases resolve_cases svc.rateTier svc.settings identity with
    ⟨-, hn, -⟩ | ⟨-, hn, -⟩ | ⟨-, userId', tier', quota', hb', hq', hr⟩
  · cases hb.symm.trans hn
  · cases hb.symm.trans hn
  · obtain ⟨rfl, rfl⟩ := Prod.mk.inj (Option.some.inj (hb.symm.trans hb'))
    obtain rfl := Option.some.inj (hq.symm.trans hq')
    rw [hr, if_neg (by simp [hl])]
    simp only [if_pos hc]

theorem resolvedTier_userId {rateTier : RateTier} {id : TierIdentity} {userId tier : String}
    (h : rateTier.resolvedTier (some id) = some (userId, tier)) : userId = id.userId := by
  simp only [RateTier.resolvedTier] at h
  split_ifs at h
  · exact (Prod.mk.inj (Option.some.inj h)).1.symm
  · obtain ⟨name, -, he⟩ := Option.map_eq_some_iff.mp h
    exact (Prod.mk.inj he).1.symm

theorem resolvedTier_none {rateTier : RateTier} {userId tier : String}
    (h : rateTier.resolvedTier none = some (userId, tier)) :
    userId = anonymous ∧ rateTier.onMissing = .useDefault ∧ rateTier.defaultTier = some tier := by
  simp only [RateTier.resolvedTier] at h
  split_ifs at h with hp
  obtain ⟨name, hd, he⟩ := Option.map_eq_some_iff.mp h
  obtain ⟨rfl, rfl⟩ := Prod.mk.inj he
  exact ⟨rfl, hp, hd⟩

theorem seenAs_eq_some {u : String} {a : Arrival B} {now : Nanos} {tier : String} {cost : UInt32}
    (h : svc.seenAs u a = some (now, tier, cost)) :
    a.now = now ∧ svc.identity a.req = some ⟨u, tier⟩ ∧
      requestCost a.req.parts svc.settings = cost := by
  unfold seenAs at h
  obtain ⟨id, hid, h⟩ := Option.bind_eq_some_iff.mp h
  split_ifs at h with hu
  simp only [Option.some.injEq, Prod.mk.injEq] at h
  obtain ⟨hnow, rfl, hcost⟩ := h
  subst hu
  exact ⟨hnow, hid, hcost⟩

theorem seenAs_eq_none {u : String} {a : Arrival B} (h : svc.seenAs u a = none) {id : TierIdentity}
    (hid : svc.identity a.req = some id) : id.userId ≠ u := by
  intro hu
  simp [seenAs, hid, hu] at h

/-! ## Isolation -/

/-- The buckets in which requests of `u` are counted. -/
def Reaches (svc : TierLimitService σ B E ResBody) (u : String) (k : StorageKey) : Prop :=
  k.userId = u ∧ ∃ (req : Request B) (id : TierIdentity), svc.identity req = some id ∧
    id.userId = u ∧ svc.rateTier.resolvedTier (some id) = some (u, k.tier)

end TierLimitService

namespace TierLimitService

variable {B E ResBody : Type} {svc : TierLimitService MemoryStorage B E ResBody} {u : String}

/-- The check of a request that `u` does not see is in another bucket. -/
theorem not_reaches_of_hidden (hshare : ¬ svc.SharesBucket u) {a : Arrival B} {r : CheckRequest}
    (hview : svc.seenAs u a = none)
    (hr : svc.checkFor a.now (svc.identity a.req) (requestCost a.req.parts svc.settings) = .ok r) :
    ¬ svc.Reaches u r.key := by
  obtain ⟨hb, hq, hl⟩ := checkFor_eq_ok hr
  rintro ⟨hu, req, id, hid, hidu, hres⟩
  cases hi : svc.identity a.req with
  | some other =>
    rw [hi] at hb
    exact seenAs_eq_none hview hi ((resolvedTier_userId hb).symm.trans hu)
  | none =>
    rw [hi] at hb
    obtain ⟨hanon, hp, hd⟩ := resolvedTier_none hb
    exact hshare ⟨hu.symm.trans hanon, hp, r.key.tier, r.quota, hd, hq, hl, ⟨a.req, hi⟩, req, id,
      hid, hidu, hres⟩

/-- The user sees its own requests, and cannot tell two storages apart that have the same
    entries in its buckets. -/
def userUnwinding (hmem : svc.storage = MemoryStorage.storage) (hshare : ¬ svc.SharesBucket u) :
    svc.machine.Unwinding (svc.seenAs u) (fun _ => ()) where
  rel _ st st' := ∀ k, svc.Reaches u k → st.state k = st'.state k
  mono _ _ _ _ _ h := h
  hidden st st' a hview h := by
    intro k hk
    rw [machine_step]
    cases hr : svc.checkFor a.now (svc.identity a.req) (requestCost a.req.parts svc.settings) with
    | error outcome => exact h k hk
    | ok r =>
      have hne : r.key ≠ k := by
        rintro rfl
        exact not_reaches_of_hidden hshare hview hr hk
      rw [hmem]
      exact (MemoryStorage.check_state_ne st r hne).trans (h k hk)
  visible st st' a b v hva hvb h := by
    obtain ⟨now, tier, cost⟩ := v
    obtain ⟨hna, hia, hca⟩ := seenAs_eq_some hva
    obtain ⟨hnb, hib, hcb⟩ := seenAs_eq_some hvb
    rw [machine_step, machine_step, hna, hnb, hia, hib, hca, hcb]
    cases hr : svc.checkFor now (some ⟨u, tier⟩) cost with
    | error outcome => exact ⟨rfl, h⟩
    | ok r =>
      obtain ⟨hb, -, -⟩ := checkFor_eq_ok hr
      have hkey : svc.Reaches u r.key :=
        ⟨resolvedTier_userId hb, a.req, ⟨u, tier⟩, hia, rfl, by rw [hb, resolvedTier_userId hb]⟩
      have hentry := h r.key hkey
      rw [hmem]
      constructor
      · show CallOutcome.answered (.ok (st.check r).2) = .answered (.ok (st'.check r).2)
        rw [MemoryStorage.check_snd, MemoryStorage.check_snd, hentry]
      · intro k hk
        show (st.check r).1.state k = (st'.check r).1.state k
        by_cases he : r.key = k
        · subst he
          rw [MemoryStorage.check_state_self, MemoryStorage.check_state_self, hentry]
        · rw [MemoryStorage.check_state_ne st r he, MemoryStorage.check_state_ne st' r he]
          exact h k hk

theorem isolated_of_not_shares (hmem : svc.storage = MemoryStorage.storage)
    (hshare : ¬ svc.SharesBucket u) : svc.Isolated u := by
  intro st as bs _ _ hview
  apply (userUnwinding hmem hshare).outputs_congr (t := ()) (fun _ _ => rfl)
  · exact fun _ _ => trivial
  · exact fun _ _ => trivial
  · exact List.pairwise_of_forall fun _ _ => trivial
  · exact List.pairwise_of_forall fun _ _ => trivial
  · exact hview

/-! ## The shared bucket -/

/-- The request `req` at time 0, with a cost. -/
def arrivalOf (checkedAt : SystemTime) (req : Request B) (cost : UInt32) : Arrival B :=
  ⟨0, checkedAt, { req with parts := { req.parts with tierCost := some cost } }⟩

theorem identity_arrivalOf (checkedAt : SystemTime) (req : Request B) (cost : UInt32) :
    svc.identity (arrivalOf checkedAt req cost).req = svc.identity req := rfl

theorem requestCost_arrivalOf (checkedAt : SystemTime) (req : Request B) (cost : UInt32) :
    requestCost (arrivalOf checkedAt req cost).req.parts svc.settings = cost := rfl

/-- A request with a cost that is counted in bucket `k`. -/
theorem machine_step_arrivalOf (hmem : svc.storage = MemoryStorage.storage) (st : MemoryStorage)
    (checkedAt : SystemTime) {req : Request B} {k : StorageKey} {quota : Quota}
    (hb : svc.rateTier.resolvedTier (svc.identity req) = some (k.userId, k.tier))
    (hq : svc.rateTier.getQuota k.tier = some quota) (hl : quota.isUnlimited = false) {cost : UInt32}
    (hc : cost ≤ quota.maxBurst) :
    svc.machine.step st (arrivalOf checkedAt req cost) =
      ((st.check ⟨k, quota, cost, 0⟩).1, .answered (.ok (st.check ⟨k, quota, cost, 0⟩).2)) := by
  rw [machine_step, identity_arrivalOf, requestCost_arrivalOf,
    checkFor_of_limited hb hq hl hc, hmem]
  rfl

/-- The first request of cost 1 at time 0 is allowed and leaves a TAT after 0. -/
theorem checkEntry_one {quota : Quota} (hl : quota.isUnlimited = false) :
    ∃ tat : Nanos, 0 < tat.toNat ∧ tat.toNat ≤ quota.burstOffsetNanos.toNat ∧
      (MemoryStorage.checkEntry none quota 1 0).1 = some tat := by
  have hei := quota.emissionIntervalNanos_pos hl
  have hmax := (quota.isUnlimited_eq_false_iff).mp hl
  have hnew : (newTat none 0 quota.emissionIntervalNanos 1).toNat =
      quota.emissionIntervalNanos.toNat := by
    have := quota.emissionIntervalNanos.toNat_le
    rw [toNat_newTat, toNat_currentTat]
    simp only [Option.getD_none, UInt64.toNat_zero, UInt32.toNat_one]
    omega
  have hle : quota.emissionIntervalNanos.toNat ≤ quota.burstOffsetNanos.toNat := by
    have h1 := quota.emissionIntervalNanos.toNat_le
    have h2 := Nat.le_mul_of_pos_right quota.emissionIntervalNanos.toNat hmax
    rw [quota.toNat_burstOffsetNanos]
    omega
  refine ⟨_, by rw [hnew]; exact hei, by rw [hnew]; exact hle, (MemoryStorage.checkEntry_ok ?_).1⟩
  rw [admits_iff, hnew]
  omega

/-- A free request at time 0 is told when the bucket is full again. -/
theorem checkEntry_zero {quota : Quota} {tat : Nanos}
    (h : tat.toNat ≤ quota.burstOffsetNanos.toNat) :
    ∃ info, (MemoryStorage.checkEntry (some tat) quota 0 0).2 = .ok info ∧
      info.resetAfter = .fromNanos tat := by
  have hnew : newTat (some tat) 0 quota.emissionIntervalNanos 0 = tat := by
    have := tat.toNat_le
    rw [← UInt64.toNat_inj, toNat_newTat, toNat_currentTat]
    simp only [Option.getD_some, UInt64.toNat_zero, UInt32.toNat_zero]
    omega
  have ha : Admits (some tat) 0 quota.emissionIntervalNanos quota.burstOffsetNanos 0 := by
    rw [admits_iff, hnew]
    omega
  refine ⟨_, (MemoryStorage.checkEntry_ok ha).2, ?_⟩
  rw [hnew, allowedInfo, UInt64.sub_zero]

/-- A free request at time 0 shows whether the bucket has been used: the TAT is after 0, or
    at 0, and `reset_after` is their distance from 0. -/
theorem checkEntry_shows_use {quota : Quota} (hl : quota.isUnlimited = false) :
    (MemoryStorage.checkEntry (MemoryStorage.checkEntry none quota 1 0).1 quota 0 0).2 ≠
      (MemoryStorage.checkEntry none quota 0 0).2 := by
  obtain ⟨tat, hpos, hle, htat⟩ := checkEntry_one hl
  obtain ⟨info, hinfo, hreset⟩ := checkEntry_zero hle
  have hfresh : (MemoryStorage.checkEntry none quota 0 0).2 =
      (MemoryStorage.checkEntry (some 0) quota 0 0).2 := by
    unfold MemoryStorage.checkEntry
    rw [checkGcra_congr (currentTat_of_le (Nat.le_refl (0 : Nanos).toNat))]
    cases checkGcra none 0 quota.emissionIntervalNanos quota.burstOffsetNanos 0 <;> rfl
  have hzerotat : (0 : Nanos).toNat ≤ quota.burstOffsetNanos.toNat := Nat.zero_le _
  obtain ⟨info', hinfo', hreset'⟩ := checkEntry_zero hzerotat
  rw [htat, hinfo, hfresh, hinfo']
  intro hsame
  rw [Except.ok.inj hsame, hreset'] at hreset
  have hnanos := congrArg Duration.asNanos hreset
  simp only [Duration.fromNanos_asNanos, UInt64.toNat_zero] at hnanos
  omega

/-- An unidentified request of cost 1 shows in the answer to a free request of `u`. -/
theorem not_isolated_of_shares (hmem : svc.storage = MemoryStorage.storage)
    (hshare : svc.SharesBucket u) : ¬ svc.Isolated u := by
  obtain ⟨rfl, hp, tier, quota, hd, hq, hl, ⟨other, hnone⟩, req, id, hid, hu, hres⟩ := hshare
  have hmax := (quota.isUnlimited_eq_false_iff).mp hl
  have hzero : (0 : UInt32) ≤ quota.maxBurst := UInt32.le_iff_toNat_le.mpr (Nat.zero_le _)
  have hone : (1 : UInt32) ≤ quota.maxBurst := UInt32.le_iff_toNat_le.mpr hmax
  let epoch : SystemTime := ⟨0, by norm_num⟩
  let k : StorageKey := ⟨anonymous, tier⟩
  let hidden := arrivalOf epoch other 1
  let own := arrivalOf epoch req 0
  have hbother : svc.rateTier.resolvedTier (svc.identity other) = some (k.userId, k.tier) := by
    rw [hnone]
    simp [RateTier.resolvedTier, hp, hd, k]
  have hbown : svc.rateTier.resolvedTier (svc.identity req) = some (k.userId, k.tier) := by
    rw [hid]
    exact hres
  have hview : svc.seenAs anonymous hidden = none := by
    simp [seenAs, hidden, identity_arrivalOf, hnone]
  have hviewown : svc.seenAs anonymous own = some (0, id.tier, 0) := by
    simp only [seenAs, own, identity_arrivalOf, hid, Option.bind_some, if_pos hu,
      requestCost_arrivalOf]
    rfl
  intro hiso
  have hout := hiso MemoryStorage.new [hidden, own] [own] (by simp [hidden, own, arrivalOf])
    (List.pairwise_singleton _ _)
    (by rw [List.filterMap_cons_none hview])
  unfold outcomesOf at hout
  rw [Machine.outputs_hidden _ _ hview, Machine.outputs_visible _ _ hviewown,
    Machine.outputs_visible _ _ hviewown, machine_step_arrivalOf hmem _ epoch hbother hq hl hone,
    machine_step_arrivalOf hmem _ epoch hbown hq hl hzero,
    machine_step_arrivalOf hmem _ epoch hbown hq hl hzero] at hout
  have hans := (List.cons.inj hout).1
  simp only [CallOutcome.answered.injEq, Except.ok.injEq] at hans
  have hentry : (MemoryStorage.new.check ⟨k, quota, 1, 0⟩).1.state k =
      (MemoryStorage.checkEntry none quota 1 0).1 :=
    MemoryStorage.check_state_self MemoryStorage.new ⟨k, quota, 1, 0⟩
  rw [MemoryStorage.check_snd, MemoryStorage.check_snd] at hans
  simp only at hans
  rw [hentry] at hans
  exact checkEntry_shows_use hl hans

/-- **Isolation.** With `MemoryStorage` a user is isolated from all other requests if and
    only if it does not share the bucket of unidentified requests. -/
theorem isolated_iff (svc : TierLimitService MemoryStorage B E ResBody)
    (hmem : svc.storage = MemoryStorage.storage) (u : String) :
    svc.Isolated u ↔ ¬ svc.SharesBucket u :=
  ⟨fun h hshare => not_isolated_of_shares hmem hshare h, isolated_of_not_shares hmem⟩

/-- Two requests per second for everybody; the user id is the value of a header. -/
def keyedService : TierLimitService MemoryStorage Unit Unit Unit where
  inner _ := .ok ⟨⟨200, some "OK"⟩, [], ()⟩
  rateTier :=
    { tiers := [("free", ⟨2, .fromSecs 1, .two_per_second⟩)]
      defaultTier := some "free"
      onMissing := .useDefault
      onUnknownTier := .useDefault
      accepted := ⟨by simp, fun _ h => by cases h; rfl⟩ }
  settings :=
    { identifier := fun headers => (headers.get "x-api-key").map fun key => ⟨key, "free"⟩
      onStorageError := .allow
      onLimited := false
      rateLimitedResponse := none
      onEvent := false
      costFn := none }
  storage := MemoryStorage.storage
  fromString _ := ()

/-- A request with the given headers, at time 0. -/
def keyedArrival (headers : HeaderMap) : Arrival Unit :=
  ⟨0, ⟨0, by norm_num⟩, ⟨⟨"GET", "/", headers, none⟩, ()⟩⟩

/-- After two requests without a key, the request with the key `"__anonymous__"` is
    limited for half a second; without them it is allowed. -/
theorem anonymous_user_not_isolated :
    ¬ keyedService.Isolated "__anonymous__" ∧
      keyedService.outcomesOf "__anonymous__" MemoryStorage.new
          [keyedArrival [], keyedArrival [], keyedArrival [("x-api-key", "__anonymous__")]] =
        [.answered (.ok (.error ⟨2, .fromNanos 500000000, .fromNanos 1000000000⟩))] ∧
      keyedService.outcomesOf "__anonymous__" MemoryStorage.new
          [keyedArrival [("x-api-key", "__anonymous__")]] =
        [.answered (.ok (.ok ⟨2, 1, .fromNanos 500000000⟩))] := by
  have hcrowded : keyedService.outcomesOf "__anonymous__" MemoryStorage.new
      [keyedArrival [], keyedArrival [], keyedArrival [("x-api-key", "__anonymous__")]] =
        [.answered (.ok (.error ⟨2, .fromNanos 500000000, .fromNanos 1000000000⟩))] := by rfl
  have halone : keyedService.outcomesOf "__anonymous__" MemoryStorage.new
      [keyedArrival [("x-api-key", "__anonymous__")]] =
        [.answered (.ok (.ok ⟨2, 1, .fromNanos 500000000⟩))] := by rfl
  refine ⟨fun hiso => ?_, hcrowded, halone⟩
  have h := hiso MemoryStorage.new
    [keyedArrival [], keyedArrival [], keyedArrival [("x-api-key", "__anonymous__")]]
    [keyedArrival [("x-api-key", "__anonymous__")]] (by decide) (by decide) rfl
  rw [hcrowded, halone] at h
  exact absurd h (by decide)

/-- The user `"alice"` is isolated. -/
theorem alice_isolated : keyedService.Isolated "alice" := by
  refine (isolated_iff keyedService rfl "alice").mpr ?_
  rintro ⟨h, -⟩
  exact absurd h (by decide)

end TierLimitService

end TowerRateTier
