import TowerRateTier.Service

/-!
# `BufferedTierLimitService`

Model of `src/buffered.rs`. The service reads the body before it identifies the
request, and passes the bytes on. What it uses of `http_body_util` is a
parameter (`BodyReader`); `BodyReader.Documented` is what is assumed of it.

* `call_eq_map`: on a body that can be read the two services do the same.
* `call_of_rejected`: a body that cannot be read touches nothing.
-/

namespace TowerRateTier

/-! ## Bodies -/

/-- `bytes::Bytes`. -/
abbrev Bytes := List UInt8

/-- Why `Limited::new(body, max).collect()` fails: `LengthLimitError`, or the error of the
    body itself. -/
inductive CollectError where
  | lengthLimit
  | other
deriving DecidableEq, Repr

/-- What the service uses of `http_body` and `http_body_util` for bodies of type `B`: the
    lower bound of `size_hint`, and `Limited::new(body, max).collect()` followed by
    `to_bytes`. `data` is the data of the frames up to the end of the body or to its
    first error, `fails` whether there is one. -/
structure BodyReader (B : Type) where
  sizeHintLower : B → UInt64
  data : B → Bytes
  fails : B → Bool
  collectLimited : B → ℕ → Except CollectError Bytes

/-- `Limited` fails on the first frame that crosses the limit, and `collect` otherwise
    gives the data, or the error of the body. -/
def BodyReader.Documented {B : Type} (reader : BodyReader B) : Prop :=
  ∀ body max, reader.collectLimited body max =
    if max < (reader.data body).length then .error .lengthLimit
    else if reader.fails body then .error .other
    else .ok (reader.data body)

/-- `StatusCode::PAYLOAD_TOO_LARGE`. -/
def StatusCode.payloadTooLarge : StatusCode := ⟨413, some "Payload Too Large"⟩

/-- `payload_too_large_response` (lines 190–196). -/
def payloadTooLargeResponse : Response String where
  status := .payloadTooLarge
  headers := [("content-type", "application/json")]
  body := "\x7b\"error\":\"payload too large\"\x7d"

/-! ## Model -/

/-- Model of `BufferedTierLimitService` (lines 81–86), like `TierLimitService`.
    `identifyWithBody` is the other method of the identifier in `settings`, and
    `maxBodySize` a `usize` of 64 bits. -/
structure BufferedTierLimitService (σ B E ResBody : Type) where
  inner : Request Bytes → Except E (Response ResBody)
  rateTier : RateTier
  settings : Settings
  identifyWithBody : HeaderMap → Bytes → Option TierIdentity
  maxBodySize : UInt64
  storage : Storage σ
  fromString : String → ResBody
  reader : BodyReader B

namespace BufferedTierLimitService

variable {σ B E ResBody : Type} (svc : BufferedTierLimitService σ B E ResBody)

/-- The branches for an identity or a tier that does not lead to a check (lines 137–143
    and 149–155). -/
def shortCircuit (st : σ) (parts : Parts) (bodyBytes : Bytes) (notices : List Notice) :
    CheckOutcome → CallResult σ Bytes E ResBody
  | .passThrough =>
    let req : Request Bytes := ⟨parts, bodyBytes⟩
    ⟨st, notices.map .notify ++ [.inner req], .done (svc.inner req)⟩
  | .deny resp => ⟨st, notices.map .notify, .done (.ok (resp.map svc.fromString))⟩
  | .allow _ => ⟨st, notices.map .notify, .unreachable⟩

/-- The branches after the answer of the storage (lines 174–186). -/
def conclude (st : σ) (checkedAt : SystemTime) (parts : Parts) (bodyBytes : Bytes)
    (actions : List (CallAction Bytes)) (userId tierName : String) (result : StorageResult) :
    CallResult σ Bytes E ResBody :=
  let (notices, outcome) := processResult result userId tierName svc.settings checkedAt
  let actions := actions ++ notices.map .notify
  match outcome with
  | .allow info =>
    let req : Request Bytes := ⟨parts, bodyBytes⟩
    ⟨st, actions ++ [.inner req],
      .done ((svc.inner req).map fun resp => injectHeaders resp info checkedAt)⟩
  | .deny resp => ⟨st, actions, .done (.ok (resp.map svc.fromString))⟩
  | .passThrough =>
    let req : Request Bytes := ⟨parts, bodyBytes⟩
    ⟨st, actions ++ [.inner req], .done (svc.inner req)⟩

/-- The check of a request that has a limited quota (lines 157–186). -/
def limitedCall (st : σ) (now : Nanos) (checkedAt : SystemTime) (parts : Parts)
    (bodyBytes : Bytes) (notices : List Notice) (userId tierName : String) (quota : Quota) :
    CallResult σ Bytes E ResBody :=
  let cost := requestCost parts svc.settings
  match rejectCostOverLimit cost quota userId tierName svc.settings with
  | (rejected, some resp) =>
    ⟨st, (notices ++ rejected).map .notify, .done (.ok (resp.map svc.fromString))⟩
  | (rejected, none) =>
    let r : CheckRequest := ⟨⟨userId, tierName⟩, quota, cost, now⟩
    let (st, result) := svc.storage.check st r
    svc.conclude st checkedAt parts bodyBytes
      ((notices ++ rejected).map .notify ++ [.checkAndUpdate r]) userId tierName result

/-- The call once the body has been read (lines 130–186). -/
def identified (st : σ) (now : Nanos) (checkedAt : SystemTime) (parts : Parts)
    (bodyBytes : Bytes) : CallResult σ Bytes E ResBody :=
  match resolve svc.rateTier svc.settings (svc.identifyWithBody parts.headers bodyBytes) with
  | (notices, .error outcome) => svc.shortCircuit st parts bodyBytes notices outcome
  | (notices, .ok (userId, tierName, quota)) =>
    svc.limitedCall st now checkedAt parts bodyBytes notices userId tierName quota

/-- `BufferedTierLimitService::call` (lines 100–188), with the times that the clock of the
    limiter and the wall clock give during it. -/
def call (st : σ) (now : Nanos) (checkedAt : SystemTime) (req : Request B) :
    CallResult σ Bytes E ResBody :=
  if svc.reader.sizeHintLower req.body > svc.maxBodySize then
    ⟨st, [], .done (.ok (payloadTooLargeResponse.map svc.fromString))⟩
  else
    match svc.reader.collectLimited req.body svc.maxBodySize.toNat with
    | .ok bodyBytes => svc.identified st now checkedAt req.parts bodyBytes
    | .error .lengthLimit => ⟨st, [], .done (.ok (payloadTooLargeResponse.map svc.fromString))⟩
    | .error .other => ⟨st, [], .done (.ok (badRequestResponse.map svc.fromString))⟩

end BufferedTierLimitService

/-! ## The two services -/

/-- The action with another type of body. -/
def CallAction.mapBody {B C : Type} (f : B → C) : CallAction B → CallAction C
  | .notify notice => .notify notice
  | .checkAndUpdate r => .checkAndUpdate r
  | .inner req => .inner ⟨req.parts, f req.body⟩

@[simp] theorem mapBody_notify {B C : Type} (f : B → C) (notice : Notice) :
    CallAction.mapBody f (.notify notice) = .notify notice := rfl

@[simp] theorem mapBody_check {B C : Type} (f : B → C) (r : CheckRequest) :
    CallAction.mapBody f (.checkAndUpdate r) = .checkAndUpdate r := rfl

@[simp] theorem mapBody_inner {B C : Type} (f : B → C) (req : Request B) :
    CallAction.mapBody f (.inner req) = .inner ⟨req.parts, f req.body⟩ := rfl

@[simp] theorem mapBody_comp_notify {B C : Type} (f : B → C) :
    CallAction.mapBody f ∘ CallAction.notify = CallAction.notify := by
  funext notice
  rfl

namespace BufferedTierLimitService

variable {σ B E ResBody : Type}

/-- Both services come from one layer: `buffer_body` keeps its limiter and its settings. -/
structure Buffers (svc : BufferedTierLimitService σ B E ResBody)
    (plain : TierLimitService σ B E ResBody) : Prop where
  rateTier : svc.rateTier = plain.rateTier
  settings : svc.settings = plain.settings
  storage : svc.storage = plain.storage
  fromString : svc.fromString = plain.fromString

/-- The body does not declare more than the limit, and is no longer; reading it does not
    fail. -/
structure Readable (svc : BufferedTierLimitService σ B E ResBody) (body : B) : Prop where
  declared : svc.reader.sizeHintLower body ≤ svc.maxBodySize
  length_le : (svc.reader.data body).length ≤ svc.maxBodySize.toNat
  ok : svc.reader.fails body = false

/-- The calls of the two services do the same: the storage ends in the same state, the
    actions are the same with the bytes for the body, and for the same answer of the
    inner service so is the end of the call. -/
structure SameCall (f : B → Bytes) (out : CallResult σ B E ResBody)
    (out' : CallResult σ Bytes E ResBody) (sameInner : Prop) : Prop where
  storage : out'.storage = out.storage
  actions : out'.actions = out.actions.map (CallAction.mapBody f)
  completion : sameInner → out'.completion = out.completion

variable {svc : BufferedTierLimitService σ B E ResBody} {plain : TierLimitService σ B E ResBody}
  {req : Request B} {f : B → Bytes}

theorem shortCircuit_same (h : svc.Buffers plain) (st : σ) (notices : List Notice)
    (outcome : CheckOutcome) :
    SameCall f (plain.shortCircuit st req notices outcome)
      (svc.shortCircuit st req.parts (f req.body) notices outcome)
      (svc.inner ⟨req.parts, f req.body⟩ = plain.inner req) := by
  cases outcome with
  | allow info => exact ⟨rfl, by simp [shortCircuit, TierLimitService.shortCircuit], fun _ => rfl⟩
  | passThrough =>
    refine ⟨rfl, ?_, fun hinner => ?_⟩
    · simp [shortCircuit, TierLimitService.shortCircuit]
    · simp only [shortCircuit, TierLimitService.shortCircuit, hinner]
  | deny resp =>
    refine ⟨rfl, by simp [shortCircuit, TierLimitService.shortCircuit], fun _ => ?_⟩
    simp only [shortCircuit, TierLimitService.shortCircuit, h.fromString]

theorem conclude_same (f : B → Bytes) (req : Request B) (h : svc.Buffers plain) (st : σ)
    (checkedAt : SystemTime) (actions : List (CallAction B)) (userId tier : String) (result : StorageResult) :
    SameCall f (plain.conclude st checkedAt req actions userId tier result)
      (svc.conclude st checkedAt req.parts (f req.body) (actions.map (CallAction.mapBody f)) userId
        tier result)
      (svc.inner ⟨req.parts, f req.body⟩ = plain.inner req) := by
  unfold conclude TierLimitService.conclude
  rw [h.settings]
  rcases processResult result userId tier plain.settings checkedAt with ⟨notices, outcome⟩
  cases outcome with
  | allow info =>
    refine ⟨rfl, by simp, fun hinner => ?_⟩
    simp only [hinner]
  | passThrough =>
    refine ⟨rfl, by simp, fun hinner => ?_⟩
    simp only [hinner]
  | deny resp =>
    refine ⟨rfl, by simp, fun _ => ?_⟩
    simp only [h.fromString]

theorem limitedCall_same (h : svc.Buffers plain) (st : σ) (now : Nanos) (checkedAt : SystemTime)
    (notices : List Notice) (userId tier : String) (quota : Quota) :
    SameCall f (plain.limitedCall st now checkedAt req notices userId tier quota)
      (svc.limitedCall st now checkedAt req.parts (f req.body) notices userId tier quota)
      (svc.inner ⟨req.parts, f req.body⟩ = plain.inner req) := by
  unfold limitedCall TierLimitService.limitedCall
  rw [h.settings]
  dsimp only
  rcases rejectCostOverLimit (requestCost req.parts plain.settings) quota userId tier
    plain.settings with ⟨rejected, response⟩
  cases response with
  | some resp =>
    refine ⟨rfl, by simp, fun _ => ?_⟩
    simp only [h.fromString]
  | none =>
    simp only [h.storage]
    have hsame := conclude_same f req h
      (plain.storage.check st ⟨⟨userId, tier⟩, quota, requestCost req.parts plain.settings, now⟩).1
      checkedAt ((notices ++ rejected).map .notify ++
        [.checkAndUpdate ⟨⟨userId, tier⟩, quota, requestCost req.parts plain.settings, now⟩])
      userId tier
      (plain.storage.check st ⟨⟨userId, tier⟩, quota, requestCost req.parts plain.settings, now⟩).2
    simpa using hsame

/-- A body that can be read is identified by its bytes. -/
theorem call_of_readable (hlib : svc.reader.Documented) (hread : svc.Readable req.body) (st : σ)
    (now : Nanos) (checkedAt : SystemTime) :
    svc.call st now checkedAt req =
      svc.identified st now checkedAt req.parts (svc.reader.data req.body) := by
  have hdeclared : ¬ svc.reader.sizeHintLower req.body > svc.maxBodySize := by
    have := UInt64.le_iff_toNat_le.mp hread.declared
    rw [gt_iff_lt, UInt64.lt_iff_toNat_lt]
    omega
  have hcollect : svc.reader.collectLimited req.body svc.maxBodySize.toNat =
      .ok (svc.reader.data req.body) := by
    rw [hlib, if_neg (not_lt.mpr hread.length_le), if_neg (by simp [hread.ok])]
  unfold call
  rw [if_neg hdeclared, hcollect]

/-- **Same calls.** On a body that can be read, with an identifier that ignores it, the two
    services do the same. -/
theorem call_eq_map (h : svc.Buffers plain) (hlib : svc.reader.Documented)
    (hident : ∀ headers bytes, svc.identifyWithBody headers bytes =
      plain.settings.identifier headers)
    (hread : svc.Readable req.body) (st : σ) (now : Nanos) (checkedAt : SystemTime) :
    SameCall svc.reader.data (plain.call st now checkedAt req) (svc.call st now checkedAt req)
      (svc.inner ⟨req.parts, svc.reader.data req.body⟩ = plain.inner req) := by
  rw [call_of_readable hlib hread]
  unfold identified TierLimitService.call
  rw [hident, h.rateTier, h.settings]
  rcases resolve plain.rateTier plain.settings (plain.settings.identifier req.parts.headers) with
    ⟨notices, result⟩
  cases result with
  | error outcome => exact shortCircuit_same h st notices outcome
  | ok found => exact limitedCall_same h st now checkedAt notices found.1 found.2.1 found.2.2

/-- **Rejected bodies.** A body that declares more than the limit, is longer, or cannot be
    read touches neither the storage nor the inner service. -/
theorem call_of_rejected (hlib : svc.reader.Documented) (hread : ¬ svc.Readable req.body)
    (st : σ) (now : Nanos) (checkedAt : SystemTime) :
    (svc.call st now checkedAt req).storage = st ∧ (svc.call st now checkedAt req).actions = [] := by
  unfold call
  by_cases hdeclared : svc.reader.sizeHintLower req.body > svc.maxBodySize
  · rw [if_pos hdeclared]
    exact ⟨rfl, rfl⟩
  · rw [if_neg hdeclared, hlib]
    by_cases hlen : svc.maxBodySize.toNat < (svc.reader.data req.body).length
    · rw [if_pos hlen]
      exact ⟨rfl, rfl⟩
    · have hfails : svc.reader.fails req.body = true := by
        by_contra hok
        refine hread ⟨?_, not_lt.mp hlen, Bool.eq_false_iff.mpr hok⟩
        rw [gt_iff_lt, UInt64.lt_iff_toNat_lt] at hdeclared
        exact UInt64.le_iff_toNat_le.mpr (not_lt.mp hdeclared)
      rw [if_neg hlen, if_pos hfails]
      exact ⟨rfl, rfl⟩

end BufferedTierLimitService

end TowerRateTier
