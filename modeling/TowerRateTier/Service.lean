import TowerRateTier.Check

/-!
# `TierLimitService`

Model of `src/service.rs`. A call returns the actions that an observer sees, in
their order: the callbacks, the call of the storage and that of the inner
service.

* `call_cases`: a call without a check decides without the storage, and any other
  one makes the one check of its request.
* `call_no_bypass`: when the storage is called and how that leaves it, and when the
  inner service is.
-/

namespace TowerRateTier

/-! ## Model -/

/-- What a call of the middleware does to its surroundings. -/
inductive CallAction (B : Type) where
  | notify (notice : Notice)
  | checkAndUpdate (r : CheckRequest)
  | inner (req : Request B)

/-- The end of a call; `unreachable` is the panic of `unreachable!()`. -/
inductive Completion (E R : Type) where
  | done (result : Except E R)
  | unreachable

/-- The storage after a call, its actions and its end. -/
structure CallResult (σ B E ResBody : Type) where
  storage : σ
  actions : List (CallAction B)
  completion : Completion E (Response ResBody)

/-- Model of `TierLimitService` (lines 22–26), with the storage of its limiter, what its
    inner service answers and the conversion of the bodies. -/
structure TierLimitService (σ B E ResBody : Type) where
  inner : Request B → Except E (Response ResBody)
  rateTier : RateTier
  settings : Settings
  storage : Storage σ
  fromString : String → ResBody

namespace TierLimitService

variable {σ B E ResBody : Type} (svc : TierLimitService σ B E ResBody)

/-- The branches for an identity or a tier that does not lead to a check (lines 55–57
    and 63–65). -/
def shortCircuit (st : σ) (req : Request B) (notices : List Notice) :
    CheckOutcome → CallResult σ B E ResBody
  | .passThrough => ⟨st, notices.map .notify ++ [.inner req], .done (svc.inner req)⟩
  | .deny resp => ⟨st, notices.map .notify, .done (.ok (resp.map svc.fromString))⟩
  | .allow _ => ⟨st, notices.map .notify, .unreachable⟩

/-- The branches after the answer of the storage (lines 86–95). -/
def conclude (st : σ) (checkedAt : SystemTime) (req : Request B) (actions : List (CallAction B))
    (userId tierName : String) (result : StorageResult) : CallResult σ B E ResBody :=
  let (notices, outcome) := processResult result userId tierName svc.settings checkedAt
  let actions := actions ++ notices.map .notify
  match outcome with
  | .allow info =>
    ⟨st, actions ++ [.inner req],
      .done ((svc.inner req).map fun resp => injectHeaders resp info checkedAt)⟩
  | .deny resp => ⟨st, actions, .done (.ok (resp.map svc.fromString))⟩
  | .passThrough => ⟨st, actions ++ [.inner req], .done (svc.inner req)⟩

/-- The check of a request that has a limited quota (lines 68–95). -/
def limitedCall (st : σ) (now : Nanos) (checkedAt : SystemTime) (req : Request B)
    (notices : List Notice) (userId tierName : String) (quota : Quota) :
    CallResult σ B E ResBody :=
  let cost := requestCost req.parts svc.settings
  match rejectCostOverLimit cost quota userId tierName svc.settings with
  | (rejected, some resp) =>
    ⟨st, (notices ++ rejected).map .notify, .done (.ok (resp.map svc.fromString))⟩
  | (rejected, none) =>
    let r : CheckRequest := ⟨⟨userId, tierName⟩, quota, cost, now⟩
    let (st, result) := svc.storage.check st r
    svc.conclude st checkedAt req ((notices ++ rejected).map .notify ++ [.checkAndUpdate r])
      userId tierName result

/-- `TierLimitService::call` (lines 44–97), with the times that the clock of the limiter
    and the wall clock give during it. -/
def call (st : σ) (now : Nanos) (checkedAt : SystemTime) (req : Request B) :
    CallResult σ B E ResBody :=
  match resolve svc.rateTier svc.settings (svc.settings.identifier req.parts.headers) with
  | (notices, .error outcome) => svc.shortCircuit st req notices outcome
  | (notices, .ok (userId, tierName, quota)) =>
    svc.limitedCall st now checkedAt req notices userId tierName quota

end TierLimitService

/-! ## Observations -/

/-- The requests passed to the inner service. -/
def innerCalls {B : Type} (actions : List (CallAction B)) : List (Request B) :=
  actions.filterMap fun
    | .inner req => some req
    | _ => none

/-- The calls of the storage. -/
def storageCalls {B : Type} (actions : List (CallAction B)) : List CheckRequest :=
  actions.filterMap fun
    | .checkAndUpdate r => some r
    | _ => none

variable {B : Type}

@[simp] theorem innerCalls_append (as bs : List (CallAction B)) :
    innerCalls (as ++ bs) = innerCalls as ++ innerCalls bs := List.filterMap_append

@[simp] theorem storageCalls_append (as bs : List (CallAction B)) :
    storageCalls (as ++ bs) = storageCalls as ++ storageCalls bs := List.filterMap_append

@[simp] theorem innerCalls_notify (notices : List Notice) :
    innerCalls (notices.map (CallAction.notify (B := B))) = [] := by
  simp [innerCalls, List.filterMap_map]

@[simp] theorem storageCalls_notify (notices : List Notice) :
    storageCalls (notices.map (CallAction.notify (B := B))) = [] := by
  simp [storageCalls, List.filterMap_map]

@[simp] theorem innerCalls_inner (req : Request B) : innerCalls [.inner req] = [req] := rfl

@[simp] theorem storageCalls_inner (req : Request B) : storageCalls [.inner req] = [] := rfl

@[simp] theorem innerCalls_check (r : CheckRequest) :
    innerCalls [CallAction.checkAndUpdate (B := B) r] = [] := rfl

@[simp] theorem storageCalls_check (r : CheckRequest) :
    storageCalls [CallAction.checkAndUpdate (B := B) r] = [r] := rfl

/-! ## Who may pass -/

namespace TierLimitService

variable {σ E ResBody : Type} (svc : TierLimitService σ B E ResBody)

/-- The identity of a request. -/
def identity (req : Request B) : Option TierIdentity := svc.settings.identifier req.parts.headers

/-- The bucket of the request has the limited quota `r.quota`, the cost is that of the
    `TierCost` extension, else that of `cost_fn`, else 1, and within the burst, and `r`
    is the check of the request at time `now`. -/
structure Checks (now : Nanos) (req : Request B) (r : CheckRequest) : Prop where
  resolved : svc.rateTier.resolvedTier (svc.identity req) = some (r.key.userId, r.key.tier)
  quota : svc.rateTier.getQuota r.key.tier = some r.quota
  limited : r.quota.isUnlimited = false
  cost_eq : r.cost =
    (req.parts.tierCost.or (svc.settings.costFn.map fun costFn => costFn req.parts)).getD 1
  cost_le : r.cost ≤ r.quota.maxBurst
  now_eq : r.now = now

/-- The configuration or the storage lets the request pass. -/
inductive MayPass (st : σ) (now : Nanos) (req : Request B) : Prop where
  /-- No identity and `OnMissing::Allow`. -/
  | missing (h : svc.identity req = none) (hp : svc.rateTier.onMissing = .allow)
  /-- An unknown tier and `OnUnknownTier::Allow`. -/
  | unknown (id : TierIdentity) (h : svc.identity req = some id)
      (hq : svc.rateTier.getQuota id.tier = none) (hp : svc.rateTier.onUnknownTier = .allow)
  /-- An unlimited tier. -/
  | unlimited (userId tier : String) (quota : Quota)
      (h : svc.rateTier.resolvedTier (svc.identity req) = some (userId, tier))
      (hq : svc.rateTier.getQuota tier = some quota) (hu : quota.isUnlimited = true)
  /-- The storage allowed the request. -/
  | allowed (r : CheckRequest) (info : RateLimitInfo) (h : svc.Checks now req r)
      (hs : (svc.storage.check st r).2 = .ok (.ok info))
  /-- The storage failed and `OnStorageError::Allow`. -/
  | failed (r : CheckRequest) (error : StorageError) (h : svc.Checks now req r)
      (hs : (svc.storage.check st r).2 = .error error)
      (hp : svc.settings.onStorageError = .allow)

variable {svc} {st : σ} {now : Nanos} {req : Request B} {checkedAt : SystemTime}

/-- A request has at most one check. -/
theorem Checks.unique {r r' : CheckRequest} (h : svc.Checks now req r)
    (h' : svc.Checks now req r') : r = r' := by
  have hkey := h.resolved.symm.trans h'.resolved
  simp only [Option.some.injEq, Prod.mk.injEq] at hkey
  have hk : r.key = r'.key := StorageKey.ext hkey.1 hkey.2
  have hquota := h.quota
  rw [hk, h'.quota] at hquota
  obtain ⟨key, quota, cost, time⟩ := r
  obtain ⟨key', quota', cost', time'⟩ := r'
  have hcost := h.cost_eq.trans h'.cost_eq.symm
  have htime := h.now_eq.trans h'.now_eq.symm
  simp only at hk hcost htime hquota
  rw [hk, hcost, htime, Option.some.inj hquota]

/-- What passes without a tier is what the two policies let through. -/
theorem passesUnresolved_mayPass (h : svc.rateTier.PassesUnresolved (svc.identity req)) :
    svc.MayPass st now req := by
  rcases h with ⟨hn, hp⟩ | ⟨id, hid, hq, hp⟩
  · exact .missing hn hp
  · exact .unknown id hid hq hp

/-- A request without a bucket passes only by one of the policies. -/
theorem not_mayPass_of_unresolved (hu : ¬ svc.rateTier.PassesUnresolved (svc.identity req))
    (hr : svc.rateTier.resolvedTier (svc.identity req) = none) : ¬ svc.MayPass st now req := by
  rintro (⟨hn, hp⟩ | ⟨id, hid, hq, hp⟩ | ⟨u, t, q, h, -, -⟩ | ⟨r, -, h, -⟩ | ⟨r, -, h, -, -⟩)
  · exact hu (Or.inl ⟨hn, hp⟩)
  · exact hu (Or.inr ⟨id, hid, hq, hp⟩)
  · cases hr.symm.trans h
  · cases hr.symm.trans h.resolved
  · cases hr.symm.trans h.resolved

/-- The check that a request with bucket `(userId, tier)` and quota `quota` leads to. -/
def checkOf (svc : TierLimitService σ B E ResBody) (now : Nanos) (req : Request B)
    (userId tier : String) (quota : Quota) : CheckRequest :=
  ⟨⟨userId, tier⟩, quota, requestCost req.parts svc.settings, now⟩

/-- The storage allowed the request, or failed and the policy lets it pass. -/
def StorageAllows (svc : TierLimitService σ B E ResBody) (st : σ) (r : CheckRequest) : Prop :=
  (∃ info, (svc.storage.check st r).2 = .ok (.ok info)) ∨
    (∃ error, (svc.storage.check st r).2 = .error error) ∧ svc.settings.onStorageError = .allow

/-- A request with a limited bucket has a check if its cost fits. -/
theorem checks_iff_of_limited (now : Nanos) {userId tier : String} {quota : Quota}
    (hr : svc.rateTier.resolvedTier (svc.identity req) = some (userId, tier))
    (hq : svc.rateTier.getQuota tier = some quota) (hl : quota.isUnlimited = false)
    (r : CheckRequest) :
    svc.Checks now req r ↔ requestCost req.parts svc.settings ≤ quota.maxBurst ∧
      r = svc.checkOf now req userId tier quota := by
  have hchecks : requestCost req.parts svc.settings ≤ quota.maxBurst →
      svc.Checks now req (svc.checkOf now req userId tier quota) :=
    fun hc => ⟨hr, hq, hl, requestCost_eq req.parts svc.settings, hc, rfl⟩
  constructor
  · intro h
    have hkey := hr.symm.trans h.resolved
    simp only [Option.some.injEq, Prod.mk.injEq] at hkey
    have hquota := h.quota
    rw [← hkey.2, hq] at hquota
    have hc : requestCost req.parts svc.settings ≤ quota.maxBurst := by
      rw [Option.some.inj hquota, requestCost_eq, ← h.cost_eq]
      exact h.cost_le
    exact ⟨hc, h.unique (hchecks hc)⟩
  · rintro ⟨hc, rfl⟩
    exact hchecks hc

/-- A request with a limited bucket passes if its cost fits and the storage lets it. -/
theorem mayPass_iff_of_limited (st : σ) (now : Nanos) {userId tier : String} {quota : Quota}
    (hu : ¬ svc.rateTier.PassesUnresolved (svc.identity req))
    (hr : svc.rateTier.resolvedTier (svc.identity req) = some (userId, tier))
    (hq : svc.rateTier.getQuota tier = some quota) (hl : quota.isUnlimited = false) :
    svc.MayPass st now req ↔ requestCost req.parts svc.settings ≤ quota.maxBurst ∧
      svc.StorageAllows st (svc.checkOf now req userId tier quota) := by
  have hchecks := checks_iff_of_limited now hr hq hl
  constructor
  · rintro (⟨hn, hp⟩ | ⟨id, hid, hq', hp⟩ | ⟨u, t, q, h, hq', hun⟩ | ⟨r, info, h, hs⟩ |
      ⟨r, error, h, hs, hp⟩)
    · exact absurd (Or.inl ⟨hn, hp⟩) hu
    · exact absurd (Or.inr ⟨id, hid, hq', hp⟩) hu
    · have hkey := hr.symm.trans h
      simp only [Option.some.injEq, Prod.mk.injEq] at hkey
      rw [← hkey.2, hq] at hq'
      rw [← Option.some.inj hq', hl] at hun
      cases hun
    · obtain ⟨hc, rfl⟩ := (hchecks r).mp h
      exact ⟨hc, Or.inl ⟨info, hs⟩⟩
    · obtain ⟨hc, rfl⟩ := (hchecks r).mp h
      exact ⟨hc, Or.inr ⟨⟨error, hs⟩, hp⟩⟩
  · rintro ⟨hc, ⟨info, hs⟩ | ⟨⟨error, hs⟩, hp⟩⟩
    · exact .allowed _ info ((hchecks _).mpr ⟨hc, rfl⟩) hs
    · exact .failed _ error ((hchecks _).mpr ⟨hc, rfl⟩) hs hp

/-- After the storage has answered, the inner service is called if the answer lets the
    request pass, and the storage is not called again. -/
theorem conclude_calls (svc : TierLimitService σ B E ResBody) (st : σ)
    (checkedAt : SystemTime) (req : Request B) (actions : List (CallAction B)) (userId tierName : String)
    (result : StorageResult) :
    let out := svc.conclude st checkedAt req actions userId tierName result
    storageCalls out.actions = storageCalls actions ∧ out.completion ≠ .unreachable ∧
      ((∃ info, result = .ok (.ok info)) ∨
          (∃ error, result = .error error) ∧ svc.settings.onStorageError = .allow →
        innerCalls out.actions = innerCalls actions ++ [req]) ∧
      (¬ ((∃ info, result = .ok (.ok info)) ∨
          (∃ error, result = .error error) ∧ svc.settings.onStorageError = .allow) →
        innerCalls out.actions = innerCalls actions) := by
  intro out
  cases result with
  | ok decision =>
    cases decision with
    | ok info => simp [out, conclude, processResult]
    | error limited => simp [out, conclude, processResult]
  | error error =>
    cases hp : svc.settings.onStorageError with
    | allow => simp [out, conclude, processResult, hp]
    | deny => simp [out, conclude, processResult, hp]

/-- The branches after the answer leave the storage as it is. -/
theorem conclude_storage (st : σ) (checkedAt : SystemTime) (req : Request B)
    (actions : List (CallAction B)) (userId tier : String) (result : StorageResult) :
    (svc.conclude st checkedAt req actions userId tier result).storage = st := by
  unfold conclude
  rcases processResult result userId tier svc.settings checkedAt with ⟨notices, outcome⟩
  cases outcome <;> rfl

/-- They only add to the actions so far. -/
theorem conclude_actions (svc : TierLimitService σ B E ResBody) (st : σ) (checkedAt : SystemTime)
    (req : Request B) (actions : List (CallAction B)) (userId tier : String)
    (result : StorageResult) :
    ∃ rest, (svc.conclude st checkedAt req actions userId tier result).actions =
      actions ++ rest := by
  unfold conclude
  rcases processResult result userId tier svc.settings checkedAt with ⟨notices, outcome⟩
  cases outcome with
  | allow info => exact ⟨_, List.append_assoc _ _ _⟩
  | deny resp => exact ⟨_, rfl⟩
  | passThrough => exact ⟨_, List.append_assoc _ _ _⟩

/-- A cost within the burst leads to the check. -/
theorem limitedCall_of_le (svc : TierLimitService σ B E ResBody) (st : σ) (now : Nanos)
    (checkedAt : SystemTime) (req : Request B) (notices : List Notice) (userId tier : String)
    {quota : Quota} (hc : requestCost req.parts svc.settings ≤ quota.maxBurst) :
    svc.limitedCall st now checkedAt req notices userId tier quota =
      svc.conclude (svc.storage.check st (svc.checkOf now req userId tier quota)).1 checkedAt req
        (notices.map .notify ++ [.checkAndUpdate (svc.checkOf now req userId tier quota)])
        userId tier (svc.storage.check st (svc.checkOf now req userId tier quota)).2 := by
  simp only [limitedCall, rejectCostOverLimit, if_pos hc, List.append_nil]
  rfl

/-- A cost above the burst is rejected before the storage is reached. -/
theorem limitedCall_of_gt (svc : TierLimitService σ B E ResBody) (st : σ) (now : Nanos)
    (checkedAt : SystemTime) (req : Request B) (notices : List Notice) (userId tier : String)
    {quota : Quota} (hc : ¬ requestCost req.parts svc.settings ≤ quota.maxBurst) :
    svc.limitedCall st now checkedAt req notices userId tier quota =
      ⟨st, (notices ++ svc.settings.notifyEvent (.costExceedsLimit userId tier
        (requestCost req.parts svc.settings) quota.maxBurst)).map .notify,
        .done (.ok ((costExceedsLimitResponse tier (requestCost req.parts svc.settings)
          quota.maxBurst).map svc.fromString))⟩ := by
  simp only [limitedCall, rejectCostOverLimit, if_neg hc]

/-- The check calls the storage if the cost fits, and then the inner service if the
    storage lets the request pass. -/
theorem limitedCall_calls (svc : TierLimitService σ B E ResBody) (st : σ) (now : Nanos)
    (checkedAt : SystemTime) (req : Request B) (notices : List Notice) (userId tier : String)
    (quota : Quota) :
    let out := svc.limitedCall st now checkedAt req notices userId tier quota
    let r := svc.checkOf now req userId tier quota
    out.completion ≠ .unreachable ∧
      storageCalls out.actions =
        (if requestCost req.parts svc.settings ≤ quota.maxBurst then [r] else []) ∧
      (requestCost req.parts svc.settings ≤ quota.maxBurst ∧ svc.StorageAllows st r →
        innerCalls out.actions = [req]) ∧
      (¬ (requestCost req.parts svc.settings ≤ quota.maxBurst ∧ svc.StorageAllows st r) →
        innerCalls out.actions = []) := by
  intro out r
  by_cases hc : requestCost req.parts svc.settings ≤ quota.maxBurst
  · have hout : out = _ := svc.limitedCall_of_le st now checkedAt req notices userId tier hc
    obtain ⟨hstorage, hdone, hpass, hstop⟩ := conclude_calls svc
      (svc.storage.check st r).1 checkedAt req (notices.map .notify ++ [.checkAndUpdate r]) userId
      tier (svc.storage.check st r).2
    rw [hout, if_pos hc]
    refine ⟨hdone, by rw [hstorage]; simp [r], fun h => ?_, fun h => ?_⟩
    · rw [hpass h.2]
      simp
    · rw [hstop fun hs => h ⟨hc, hs⟩]
      simp
  · have hout : out = _ := svc.limitedCall_of_gt st now checkedAt req notices userId tier hc
    rw [hout, if_neg hc]
    refine ⟨by simp, by simp, fun h => absurd h.1 hc, fun _ => by simp⟩

/-- A call whose identity has no limited quota. -/
theorem call_of_error {svc : TierLimitService σ B E ResBody} {req : Request B}
    {notices : List Notice} {outcome : CheckOutcome}
    (h : resolve svc.rateTier svc.settings (svc.identity req) = (notices, .error outcome))
    (st : σ) (now : Nanos) (checkedAt : SystemTime) :
    svc.call st now checkedAt req = svc.shortCircuit st req notices outcome := by
  rw [identity] at h
  rw [call, h]

/-- A call whose identity has one. -/
theorem call_of_ok {svc : TierLimitService σ B E ResBody} {req : Request B}
    {notices : List Notice} {userId tier : String} {quota : Quota}
    (h : resolve svc.rateTier svc.settings (svc.identity req) =
      (notices, .ok (userId, tier, quota)))
    (st : σ) (now : Nanos) (checkedAt : SystemTime) :
    svc.call st now checkedAt req =
      svc.limitedCall st now checkedAt req notices userId tier quota := by
  rw [identity] at h
  rw [call, h]

/-- The check of a request with a limited bucket reaches the storage before anything is
    decided, if the cost fits, and otherwise not at all. -/
theorem limitedCall_storage (svc : TierLimitService σ B E ResBody) (st : σ) (now : Nanos)
    (checkedAt : SystemTime) (req : Request B) (notices : List Notice) (userId tier : String)
    (quota : Quota) :
    let out := svc.limitedCall st now checkedAt req notices userId tier quota
    let r := svc.checkOf now req userId tier quota
    (requestCost req.parts svc.settings ≤ quota.maxBurst →
        out.storage = (svc.storage.check st r).1 ∧
          ∃ (before : List Notice) (rest : List (CallAction B)),
            out.actions = before.map .notify ++ .checkAndUpdate r :: rest) ∧
      (¬ requestCost req.parts svc.settings ≤ quota.maxBurst → out.storage = st) := by
  intro out r
  constructor
  · intro hc
    have hout : out = _ := svc.limitedCall_of_le st now checkedAt req notices userId tier hc
    obtain ⟨rest, hrest⟩ := svc.conclude_actions (svc.storage.check st r).1 checkedAt req
      (notices.map .notify ++ [.checkAndUpdate r]) userId tier (svc.storage.check st r).2
    rw [hout]
    refine ⟨conclude_storage _ _ _ _ _ _ _, notices, rest, ?_⟩
    rw [hrest, List.append_assoc]
    rfl
  · intro hc
    have hout : out = _ := svc.limitedCall_of_gt st now checkedAt req notices userId tier hc
    rw [hout]

/-- **Cases.** A call without a check decides at once. Any other call has a limited
    bucket, and its check is made if the cost fits. -/
theorem call_cases (svc : TierLimitService σ B E ResBody) (st : σ) (now : Nanos)
    (checkedAt : SystemTime) (req : Request B) :
    (∃ notices outcome, svc.call st now checkedAt req = svc.shortCircuit st req notices outcome ∧
        (∀ r, ¬ svc.Checks now req r) ∧
        (outcome = .passThrough ∧ svc.MayPass st now req ∨
          (∃ resp, outcome = .deny resp) ∧ ¬ svc.MayPass st now req)) ∨
      ∃ notices userId tier quota,
        svc.call st now checkedAt req =
          svc.limitedCall st now checkedAt req notices userId tier quota ∧
        (∀ r, svc.Checks now req r ↔ requestCost req.parts svc.settings ≤ quota.maxBurst ∧
          r = svc.checkOf now req userId tier quota) ∧
        (svc.MayPass st now req ↔ requestCost req.parts svc.settings ≤ quota.maxBurst ∧
          svc.StorageAllows st (svc.checkOf now req userId tier quota)) := by
  rcases hres : resolve svc.rateTier svc.settings (svc.identity req) with ⟨notices, result⟩
  have hcases := resolve_cases svc.rateTier svc.settings (svc.identity req)
  rw [hres] at hcases
  have hunresolved : svc.rateTier.resolvedTier (svc.identity req) = none →
      ∀ r, ¬ svc.Checks now req r := by
    intro hnone r h
    cases hnone.symm.trans h.resolved
  rcases hcases with ⟨hu, hnone, hr⟩ | ⟨hu, hnone, resp, hr⟩ | ⟨hu, userId, tier, quota, hb, hq, hr⟩
  · simp only at hr
    subst hr
    exact Or.inl ⟨notices, .passThrough, call_of_error hres st now checkedAt, hunresolved hnone,
      Or.inl ⟨rfl, passesUnresolved_mayPass hu⟩⟩
  · simp only at hr
    subst hr
    exact Or.inl ⟨notices, .deny resp, call_of_error hres st now checkedAt, hunresolved hnone,
      Or.inr ⟨⟨resp, rfl⟩, not_mayPass_of_unresolved hu hnone⟩⟩
  · simp only at hr
    by_cases hl : quota.isUnlimited = true
    · rw [if_pos hl] at hr
      subst hr
      refine Or.inl ⟨notices, .passThrough, call_of_error hres st now checkedAt, fun r h => ?_,
        Or.inl ⟨rfl, .unlimited userId tier quota hb hq hl⟩⟩
      have hkey := hb.symm.trans h.resolved
      simp only [Option.some.injEq, Prod.mk.injEq] at hkey
      have hquota := h.quota
      rw [← hkey.2, hq] at hquota
      have hlimited := h.limited
      rw [← Option.some.inj hquota, hl] at hlimited
      cases hlimited
    · rw [if_neg hl] at hr
      subst hr
      have hl' : quota.isUnlimited = false := Bool.eq_false_iff.mpr hl
      exact Or.inr ⟨notices, userId, tier, quota, call_of_ok hres st now checkedAt,
        checks_iff_of_limited now hb hq hl', mayPass_iff_of_limited st now hu hb hq hl'⟩

/-- **No bypass.** The inner service is called at most once, and exactly if the
    configuration or the storage lets the request pass. A request with a limited bucket
    and a cost within its burst makes one check, its own, after nothing but callbacks, and
    the storage is then as this check leaves it. Any other request makes none, and the
    storage stays as it was. `unreachable!()` is not reached. -/
theorem call_no_bypass (svc : TierLimitService σ B E ResBody) (st : σ) (now : Nanos)
    (checkedAt : SystemTime) (req : Request B) :
    let out := svc.call st now checkedAt req
    (innerCalls out.actions).length ≤ 1 ∧
      (innerCalls out.actions ≠ [] ↔ svc.MayPass st now req) ∧
      (∀ req' ∈ innerCalls out.actions, req' = req) ∧
      (storageCalls out.actions).length ≤ 1 ∧
      (∀ r ∈ storageCalls out.actions, svc.Checks now req r) ∧
      (∀ r, svc.Checks now req r →
        storageCalls out.actions = [r] ∧ out.storage = (svc.storage.check st r).1 ∧
          ∃ (before : List Notice) (rest : List (CallAction B)),
            out.actions = before.map .notify ++ .checkAndUpdate r :: rest) ∧
      ((∀ r, ¬ svc.Checks now req r) → storageCalls out.actions = [] ∧ out.storage = st) ∧
      out.completion ≠ .unreachable := by
  intro out
  rcases svc.call_cases st now checkedAt req with
    ⟨notices, outcome, hcall, hno, hpass⟩ | ⟨notices, userId, tier, quota, hcall, hchecks, hmay⟩
  · have hout : out = _ := hcall
    rw [hout]
    rcases hpass with ⟨rfl, hpass⟩ | ⟨⟨resp, rfl⟩, hpass⟩
    · simp [shortCircuit, hpass, hno]
    · simp [shortCircuit, hpass, hno]
  · have hout : out = _ := hcall
    obtain ⟨hdone, hcalls, hpass, hstop⟩ :=
      limitedCall_calls svc st now checkedAt req notices userId tier quota
    obtain ⟨hasked, hunasked⟩ :=
      limitedCall_storage svc st now checkedAt req notices userId tier quota
    rw [hout, hcalls]
    have hinner : innerCalls (svc.limitedCall st now checkedAt req notices userId tier
          quota).actions = [req] ∧ svc.MayPass st now req ∨
        innerCalls (svc.limitedCall st now checkedAt req notices userId tier quota).actions = [] ∧
          ¬ svc.MayPass st now req := by
      rw [hmay]
      exact (em _).imp (fun h => ⟨hpass h, h⟩) (fun h => ⟨hstop h, h⟩)
    refine ⟨?_, ?_, ?_, ?_, ?_, fun r hr => ?_, fun hno => ?_, hdone⟩
    · rcases hinner with ⟨h, -⟩ | ⟨h, -⟩ <;> simp [h]
    · rcases hinner with ⟨h, hs⟩ | ⟨h, hs⟩ <;> simp [h, hs]
    · rcases hinner with ⟨h, -⟩ | ⟨h, -⟩ <;> simp [h]
    · split_ifs <;> simp
    · intro r hr
      rw [List.mem_ite_nil_right, List.mem_singleton] at hr
      exact (hchecks r).mpr hr
    · obtain ⟨hc, rfl⟩ := (hchecks r).mp hr
      exact ⟨if_pos hc, hasked hc⟩
    · have hc : ¬ requestCost req.parts svc.settings ≤ quota.maxBurst := fun hc =>
        hno _ ((hchecks _).mpr ⟨hc, rfl⟩)
      exact ⟨if_neg hc, hunasked hc⟩

/-- Two requests per second for everybody, with a storage that counts the cost it allows. -/
def countingService : TierLimitService ℕ Unit Unit Unit where
  inner _ := .ok ⟨⟨200, some "OK"⟩, [], ()⟩
  rateTier :=
    { tiers := [("basic", ⟨2, .fromSecs 1, .two_per_second⟩)]
      defaultTier := some "basic"
      onMissing := .useDefault
      onUnknownTier := .useDefault
      accepted := ⟨by simp, fun _ h => by cases h; rfl⟩ }
  settings :=
    { identifier := fun _ => some ⟨"u", "pro"⟩
      onStorageError := .deny
      onLimited := false
      rateLimitedResponse := none
      onEvent := true
      costFn := some fun parts => if parts.method = "POST" then 2 else 3 }
  storage := ⟨fun used _ quota cost _ =>
    if used + cost.toNat ≤ quota.maxBurst.toNat then
      (used + cost.toNat, .ok (.ok ⟨quota.maxBurst, 0, .zero⟩))
    else (used, .ok (.error ⟨quota.maxBurst, .fromSecs 1, .fromSecs 1⟩))⟩
  fromString _ := ()

/-- A request with this method and nothing else. -/
def methodRequest (method : String) : Request Unit := ⟨⟨method, "/", [], none⟩, ()⟩

/-- A `POST` costs two and is counted in the default tier, any other request costs three
    and never reaches the storage. -/
theorem call_no_bypass_counted :
    (countingService.call 0 7 ⟨0, by decide⟩ (methodRequest "POST")).storage = 2 ∧
      innerCalls (countingService.call 0 7 ⟨0, by decide⟩ (methodRequest "POST")).actions ≠ [] ∧
      (countingService.call 0 7 ⟨0, by decide⟩ (methodRequest "GET")).storage = 0 := by
  obtain ⟨-, hpass, -, -, -, hasked, -⟩ :=
    call_no_bypass countingService 0 7 ⟨0, by decide⟩ (methodRequest "POST")
  obtain ⟨-, -, -, -, -, -, hunasked, -⟩ :=
    call_no_bypass countingService 0 7 ⟨0, by decide⟩ (methodRequest "GET")
  have hchecks : countingService.Checks 7 (methodRequest "POST")
      ⟨⟨"u", "basic"⟩, ⟨2, .fromSecs 1, .two_per_second⟩, 2, 7⟩ :=
    ⟨rfl, rfl, rfl, rfl, by decide, rfl⟩
  refine ⟨(hasked _ hchecks).2.1, hpass.mpr (.allowed _ _ hchecks rfl), (hunasked ?_).2⟩
  intro r h
  have htier : "basic" = r.key.tier := (Prod.mk.inj (Option.some.inj h.resolved)).2
  have hquota := h.quota
  rw [← htier] at hquota
  have hcost := h.cost_le
  rw [h.cost_eq, ← Option.some.inj hquota] at hcost
  exact absurd hcost (by decide)

end TierLimitService

end TowerRateTier
