import TowerRateTier.Tier

/-!
# The checks of the middleware

Model of `src/check.rs`, of `Settings` (`src/layer.rs`), `LimitEvent`
(`src/event.rs`) and `TierCost` (`src/cost.rs`). A function that may call back
returns the notices it has delivered beside its result.

* `resolve_cases`: what the two resolution steps make of an identity.
-/

namespace TowerRateTier

/-! ## Requests and settings -/

/-- Model of `http::request::Parts`; `tierCost` is the `TierCost` extension. -/
structure Parts where
  method : String
  uri : String
  headers : HeaderMap
  tierCost : Option UInt32
deriving Repr

/-- `Request<B>`. -/
structure Request (B : Type) where
  parts : Parts
  body : B
deriving Repr

/-- Model of `LimitEvent` (`src/event.rs` lines 10–45). -/
inductive LimitEvent where
  | storageError (userId tier : String) (error : StorageError)
  | unknownTier (userId tier : String)
  | costExceedsLimit (userId tier : String) (cost limit : UInt32)
deriving DecidableEq, Repr

/-- Model of `OnStorageError` (`src/on_storage_error.rs`). -/
inductive OnStorageError where
  | allow
  | deny
deriving DecidableEq, Repr

/-- Model of `Settings` (`src/layer.rs` lines 59–66). Of the two callbacks that return
    nothing, it matters here whether they are set. -/
structure Settings where
  identifier : HeaderMap → Option TierIdentity
  onStorageError : OnStorageError
  onLimited : Bool
  rateLimitedResponse : Option (String → String → RateLimited → Response String)
  onEvent : Bool
  costFn : Option (Parts → UInt32)

/-- A call of `on_event` or of `on_limited`. -/
inductive Notice where
  | event (event : LimitEvent)
  | limited (userId tier : String) (limited : RateLimited)
deriving DecidableEq, Repr

namespace Settings

/-- `if let Some(cb) = &settings.on_event`. -/
def notifyEvent (settings : Settings) (event : LimitEvent) : List Notice :=
  if settings.onEvent then [.event event] else []

/-- `if let Some(cb) = &settings.on_limited`. -/
def notifyLimited (settings : Settings) (userId tier : String) (limited : RateLimited) :
    List Notice :=
  if settings.onLimited then [.limited userId tier limited] else []

end Settings

/-! ## Model of `src/check.rs` -/

/-- Model of `CheckOutcome` (lines 23–30). -/
inductive CheckOutcome where
  | allow (info : RateLimitInfo)
  | passThrough
  | deny (resp : Response String)

/-- The user id of unidentified requests. -/
def anonymous : String := "__anonymous__"

/-- `resolve_identity` (lines 34–51). -/
def resolveIdentity (identity : Option TierIdentity) (rateTier : RateTier) :
    Except CheckOutcome (String × String) :=
  match identity with
  | some id => .ok (id.userId, id.tier)
  | none =>
    match rateTier.onMissing with
    | .allow => .error .passThrough
    | .deny status => .error (.deny (denyResponse status))
    | .useDefault =>
      match rateTier.defaultTier with
      | some default => .ok (anonymous, default)
      | none => .error (.deny (denyResponse .forbidden))

/-- The tier and the quota found in `resolve_quota` (lines 64–92), before the test for
    an unlimited one. -/
def lookupQuota (rateTier : RateTier) (userId tierName : String) (settings : Settings) :
    List Notice × Except CheckOutcome (String × Quota) :=
  match rateTier.getQuota tierName with
  | some quota => ([], .ok (tierName, quota))
  | none =>
    (settings.notifyEvent (.unknownTier userId tierName),
      match rateTier.onUnknownTier with
      | .allow => .error .passThrough
      | .deny status => .error (.deny (denyResponse status))
      | .useDefault =>
        match rateTier.defaultTier.bind fun name =>
            (rateTier.getQuota name).map fun quota => (name, quota) with
        | some found => .ok found
        | none => .error (.deny (denyResponse .forbidden)))

/-- `resolve_quota` (lines 58–97). -/
def resolveQuota (rateTier : RateTier) (userId tierName : String) (settings : Settings) :
    List Notice × Except CheckOutcome (String × Quota) :=
  match lookupQuota rateTier userId tierName settings with
  | (notices, .error outcome) => (notices, .error outcome)
  | (notices, .ok (tierName, quota)) =>
    if quota.isUnlimited then (notices, .error .passThrough) else (notices, .ok (tierName, quota))

/-- `request_cost` (lines 101–109). -/
def requestCost (parts : Parts) (settings : Settings) : UInt32 :=
  match parts.tierCost with
  | some cost => cost
  | none =>
    match settings.costFn with
    | some costFn => costFn parts
    | none => 1

/-- `reject_cost_over_limit` (lines 115–137). -/
def rejectCostOverLimit (cost : UInt32) (quota : Quota) (userId tierName : String)
    (settings : Settings) : List Notice × Option (Response String) :=
  let limit := quota.maxBurst
  if cost ≤ limit then ([], none)
  else (settings.notifyEvent (.costExceedsLimit userId tierName cost limit),
    some (costExceedsLimitResponse tierName cost limit))

/-- `process_result` (lines 140–174). -/
def processResult (result : StorageResult) (userId tierName : String) (settings : Settings)
    (now : SystemTime) : List Notice × CheckOutcome :=
  match result with
  | .ok (.ok info) => ([], .allow info)
  | .ok (.error limited) =>
    (settings.notifyLimited userId tierName limited,
      .deny (match settings.rateLimitedResponse with
        | some builder => builder userId tierName limited
        | none => rateLimitedResponse limited tierName now))
  | .error error =>
    (settings.notifyEvent (.storageError userId tierName error),
      match settings.onStorageError with
      | .allow => .passThrough
      | .deny => .deny storageErrorResponse)

/-! ## Resolution -/

/-- The bucket of a request: its user and the tier whose quota applies. -/
def RateTier.resolvedTier (rateTier : RateTier) : Option TierIdentity → Option (String × String)
  | some id =>
    if (rateTier.getQuota id.tier).isSome then some (id.userId, id.tier)
    else if rateTier.onUnknownTier = .useDefault then
      rateTier.defaultTier.map fun name => (id.userId, name)
    else none
  | none =>
    if rateTier.onMissing = .useDefault then
      rateTier.defaultTier.map fun name => (anonymous, name)
    else none

/-- The configuration lets a request pass without a tier. -/
def RateTier.PassesUnresolved (rateTier : RateTier) (identity : Option TierIdentity) : Prop :=
  (identity = none ∧ rateTier.onMissing = .allow) ∨
    ∃ id, identity = some id ∧ rateTier.getQuota id.tier = none ∧ rateTier.onUnknownTier = .allow

/-- The two resolution steps of `call`, one after the other. -/
def resolve (rateTier : RateTier) (settings : Settings) (identity : Option TierIdentity) :
    List Notice × Except CheckOutcome (String × String × Quota) :=
  match resolveIdentity identity rateTier with
  | .error outcome => ([], .error outcome)
  | .ok (userId, tierName) =>
    match resolveQuota rateTier userId tierName settings with
    | (notices, .error outcome) => (notices, .error outcome)
    | (notices, .ok (tierName, quota)) => (notices, .ok (userId, tierName, quota))

/-- The cost is that of the `TierCost` extension, else that of `cost_fn`, else 1. -/
theorem requestCost_eq (parts : Parts) (settings : Settings) :
    requestCost parts settings =
      (parts.tierCost.or (settings.costFn.map fun costFn => costFn parts)).getD 1 := by
  unfold requestCost
  cases parts.tierCost with
  | some cost => rfl
  | none => cases settings.costFn <;> rfl

variable {rateTier : RateTier} {settings : Settings}

theorem lookupQuota_some {tierName : String} {quota : Quota} (userId : String)
    (h : rateTier.getQuota tierName = some quota) :
    lookupQuota rateTier userId tierName settings = ([], .ok (tierName, quota)) := by
  rw [lookupQuota, h]

/-- The second step, for a tier that is configured. -/
theorem resolveQuota_some {tierName : String} {quota : Quota} (userId : String)
    (h : rateTier.getQuota tierName = some quota) :
    resolveQuota rateTier userId tierName settings =
      ([], if quota.isUnlimited then .error .passThrough else .ok (tierName, quota)) := by
  unfold resolveQuota
  rw [lookupQuota_some userId h]
  by_cases hu : quota.isUnlimited = true
  · simp only [hu, if_true]
  · simp only [if_neg hu]

/-- The second step, for an unknown tier under `UseDefault` with a default tier. -/
theorem resolveQuota_default {tierName default : String} {quota : Quota} (userId : String)
    (h : rateTier.getQuota tierName = none) (hpolicy : rateTier.onUnknownTier = .useDefault)
    (hdefault : rateTier.defaultTier = some default)
    (hquota : rateTier.getQuota default = some quota) :
    resolveQuota rateTier userId tierName settings =
      (settings.notifyEvent (.unknownTier userId tierName),
        if quota.isUnlimited then .error .passThrough else .ok (default, quota)) := by
  unfold resolveQuota lookupQuota
  rw [h, hpolicy, hdefault]
  simp only [Option.bind_some, hquota, Option.map_some]
  by_cases hu : quota.isUnlimited = true
  · simp only [hu, if_true]
  · simp only [if_neg hu]

/-- The second step, for an unknown tier that is let through. -/
theorem resolveQuota_allow {tierName : String} (userId : String)
    (h : rateTier.getQuota tierName = none) (hpolicy : rateTier.onUnknownTier = .allow) :
    resolveQuota rateTier userId tierName settings =
      (settings.notifyEvent (.unknownTier userId tierName), .error .passThrough) := by
  unfold resolveQuota lookupQuota
  rw [h, hpolicy]

/-- The second step, for an unknown tier that is denied. -/
theorem resolveQuota_deny (settings : Settings) {tierName : String} (userId : String)
    (h : rateTier.getQuota tierName = none)
    (hpolicy : (∃ status, rateTier.onUnknownTier = .deny status) ∨
      rateTier.onUnknownTier = .useDefault ∧ rateTier.defaultTier = none) :
    ∃ resp, resolveQuota rateTier userId tierName settings =
      (settings.notifyEvent (.unknownTier userId tierName), .error (.deny resp)) := by
  unfold resolveQuota lookupQuota
  rcases hpolicy with ⟨status, hp⟩ | ⟨hp, hd⟩
  · rw [h, hp]
    exact ⟨_, rfl⟩
  · rw [h, hp, hd]
    exact ⟨_, rfl⟩

/-- The second step decides once the first one has found a user and a tier. -/
theorem resolve_of_ok {identity : Option TierIdentity} {userId tierName : String}
    (h : resolveIdentity identity rateTier = .ok (userId, tierName)) :
    (resolve rateTier settings identity).2 =
      match (resolveQuota rateTier userId tierName settings).2 with
      | .error outcome => .error outcome
      | .ok (tier, quota) => .ok (userId, tier, quota) := by
  unfold resolve
  rw [h]
  simp only
  cases resolveQuota rateTier userId tierName settings with
  | mk notices result => cases result <;> rfl

/-- The resolution of a request for which the second step finds a quota. -/
theorem resolve_found {identity : Option TierIdentity} {userId tierName tier : String}
    {quota : Quota} (h : resolveIdentity identity rateTier = .ok (userId, tierName))
    (hquota : (resolveQuota rateTier userId tierName settings).2 =
      if quota.isUnlimited then .error .passThrough else .ok (tier, quota)) :
    (resolve rateTier settings identity).2 =
      if quota.isUnlimited then .error .passThrough else .ok (userId, tier, quota) := by
  rw [resolve_of_ok h, hquota]
  by_cases hu : quota.isUnlimited = true
  · simp only [hu, if_true]
  · simp only [if_neg hu]

/-- **Resolution.** The request passes without a tier, is denied, or has a bucket; then
    it passes if the quota of the bucket is unlimited. -/
theorem resolve_cases (rateTier : RateTier) (settings : Settings)
    (identity : Option TierIdentity) :
    (rateTier.PassesUnresolved identity ∧ rateTier.resolvedTier identity = none ∧
        (resolve rateTier settings identity).2 = .error .passThrough) ∨
      (¬ rateTier.PassesUnresolved identity ∧ rateTier.resolvedTier identity = none ∧
        ∃ resp, (resolve rateTier settings identity).2 = .error (.deny resp)) ∨
      ¬ rateTier.PassesUnresolved identity ∧
        ∃ userId tier quota, rateTier.resolvedTier identity = some (userId, tier) ∧
          rateTier.getQuota tier = some quota ∧
          (resolve rateTier settings identity).2 =
            if quota.isUnlimited then .error .passThrough else .ok (userId, tier, quota) := by
  cases identity with
  | some id =>
    have hid : resolveIdentity (some id) rateTier = .ok (id.userId, id.tier) := rfl
    cases hq : rateTier.getQuota id.tier with
    | some quota =>
      refine Or.inr (Or.inr ⟨by simp [RateTier.PassesUnresolved, hq], id.userId, id.tier, quota,
        by simp [RateTier.resolvedTier, hq], hq, ?_⟩)
      exact resolve_found hid (by rw [resolveQuota_some id.userId hq])
    | none =>
      cases hp : rateTier.onUnknownTier with
      | allow =>
        refine Or.inl ⟨by simp [RateTier.PassesUnresolved, hq, hp],
          by simp [RateTier.resolvedTier, hq, hp], ?_⟩
        rw [resolve_of_ok hid, resolveQuota_allow id.userId hq hp]
      | deny status =>
        refine Or.inr (Or.inl ⟨by simp [RateTier.PassesUnresolved, hp],
          by simp [RateTier.resolvedTier, hq, hp], ?_⟩)
        obtain ⟨resp, hr⟩ := resolveQuota_deny settings id.userId hq (Or.inl ⟨status, hp⟩)
        exact ⟨resp, by rw [resolve_of_ok hid, hr]⟩
      | useDefault =>
        cases hd : rateTier.defaultTier with
        | none =>
          refine Or.inr (Or.inl ⟨by simp [RateTier.PassesUnresolved, hp],
            by simp [RateTier.resolvedTier, hq, hp, hd], ?_⟩)
          obtain ⟨resp, hr⟩ := resolveQuota_deny settings id.userId hq (Or.inr ⟨hp, hd⟩)
          exact ⟨resp, by rw [resolve_of_ok hid, hr]⟩
        | some default =>
          obtain ⟨quota, hquota⟩ := rateTier.getQuota_default hd
          refine Or.inr (Or.inr ⟨by simp [RateTier.PassesUnresolved, hp], id.userId, default,
            quota, by simp [RateTier.resolvedTier, hq, hp, hd], hquota, ?_⟩)
          exact resolve_found hid (by rw [resolveQuota_default id.userId hq hp hd hquota])
  | none =>
    cases hp : rateTier.onMissing with
    | allow =>
      refine Or.inl ⟨by simp [RateTier.PassesUnresolved, hp],
        by simp [RateTier.resolvedTier, hp], ?_⟩
      simp [resolve, resolveIdentity, hp]
    | deny status =>
      refine Or.inr (Or.inl ⟨by simp [RateTier.PassesUnresolved, hp],
        by simp [RateTier.resolvedTier, hp], denyResponse status, ?_⟩)
      simp [resolve, resolveIdentity, hp]
    | useDefault =>
      cases hd : rateTier.defaultTier with
      | none =>
        refine Or.inr (Or.inl ⟨by simp [RateTier.PassesUnresolved, hp],
          by simp [RateTier.resolvedTier, hp, hd], denyResponse .forbidden, ?_⟩)
        simp [resolve, resolveIdentity, hp, hd]
      | some default =>
        obtain ⟨quota, hquota⟩ := rateTier.getQuota_default hd
        have hid : resolveIdentity none rateTier = .ok (anonymous, default) := by
          simp [resolveIdentity, hp, hd]
        refine Or.inr (Or.inr ⟨by simp [RateTier.PassesUnresolved, hp], anonymous, default, quota,
          by simp [RateTier.resolvedTier, hp, hd], hquota, ?_⟩)
        exact resolve_found hid (by rw [resolveQuota_some anonymous hquota])

end TowerRateTier
