import Mathlib
import TowerRateTier.Buffered

/-!
# The three entry points

`RateTier::check`, `TierLimitService` and `BufferedTierLimitService` each write
out the same sequence of decisions. A verdict is what they have in common; what a
service does for a verdict is `TierLimitService.reply`.

* `call_eq_reply`: a call of the service carries out the verdict of
  `RateTier::check` on the tier it has resolved.
* `entry_points_agree`: the three make the same call of the storage and reach the
  same verdict.
-/

namespace TowerRateTier

/-- The backend `S` with a record of its calls. -/
def Storage.recording {σ : Type} (S : Storage σ) : Storage (σ × List CheckRequest) where
  checkAndUpdate st key quota cost now :=
    let (st', result) := S.checkAndUpdate st.1 key quota cost now
    ((st', st.2 ++ [⟨key, quota, cost, now⟩]), result)

/-! ## Verdicts -/

/-- What is decided about a request that has a tier. -/
inductive Verdict where
  | allowed (info : RateLimitInfo)
  | limited (limited : RateLimited)
  | costExceedsLimit (cost limit : UInt32)
  | unlimited
  | storageError (error : StorageError)

/-- The verdict that an answer of `RateTier::check` for a tier with this quota stands
    for. -/
def Verdict.ofCheck (quota : Quota) : Except CheckError Decision → Option Verdict
  | .ok (.ok info) => if quota.isUnlimited then some .unlimited else some (.allowed info)
  | .ok (.error waits) => some (.limited waits)
  | .error (.costExceedsLimit cost limit) => some (.costExceedsLimit cost limit)
  | .error (.storage error) => some (.storageError error)
  | .error (.unknownTier _) => none

/-- What a service does for a verdict: the callbacks, whether it calls the inner service,
    and the end of the call. -/
structure Reply (E R : Type) where
  notices : List Notice
  forwards : Bool
  result : Except E R

namespace TierLimitService

variable {σ B E ResBody : Type}

/-- The reply to a request of `userId` in `tier`, given what the inner service answers. -/
def reply (svc : TierLimitService σ B E ResBody) (checkedAt : SystemTime) (userId tier : String)
    (inner : Except E (Response ResBody)) : Verdict → Reply E (Response ResBody)
  | .allowed info => ⟨[], true, inner.map fun resp => injectHeaders resp info checkedAt⟩
  | .limited limited =>
    { notices := svc.settings.notifyLimited userId tier limited
      forwards := false
      result := .ok ((match svc.settings.rateLimitedResponse with
        | some builder => builder userId tier limited
        | none => rateLimitedResponse limited tier checkedAt).map svc.fromString) }
  | .costExceedsLimit cost limit =>
    { notices := svc.settings.notifyEvent (.costExceedsLimit userId tier cost limit)
      forwards := false
      result := .ok ((costExceedsLimitResponse tier cost limit).map svc.fromString) }
  | .unlimited => ⟨[], true, inner⟩
  | .storageError error =>
    { notices := svc.settings.notifyEvent (.storageError userId tier error)
      forwards := svc.settings.onStorageError = .allow
      result := match svc.settings.onStorageError with
        | .allow => inner
        | .deny => .ok (storageErrorResponse.map svc.fromString) }

/-- A call that has asked the storage `asked` and carries out a reply. -/
def carryOut (st : σ) (req : Request B) (notices : List Notice) (asked : List CheckRequest)
    (reply : Reply E (Response ResBody)) : CallResult σ B E ResBody where
  storage := st
  actions := notices.map .notify ++ asked.map .checkAndUpdate ++ reply.notices.map .notify ++
    if reply.forwards then [.inner req] else []
  completion := .done reply.result

variable {svc : TierLimitService σ B E ResBody}

/-- The branches after the answer of the storage carry out the verdict it gives. -/
theorem conclude_eq_reply (svc : TierLimitService σ B E ResBody) (st : σ) (checkedAt : SystemTime) (req : Request B)
    (notices : List Notice) (r : CheckRequest) (userId tier : String) (result : StorageResult)
    {quota : Quota} (hl : quota.isUnlimited = false) :
    ∃ verdict, Verdict.ofCheck quota (result.mapError .storage) = some verdict ∧
      svc.conclude st checkedAt req (notices.map .notify ++ [.checkAndUpdate r]) userId tier result =
        carryOut st req notices [r] (svc.reply checkedAt userId tier (svc.inner req) verdict) := by
  unfold conclude processResult carryOut reply
  cases result with
  | ok decision =>
    cases decision with
    | ok info => exact ⟨.allowed info, by simp [Except.mapError, Verdict.ofCheck, hl], by simp⟩
    | error limited =>
      refine ⟨.limited limited, by simp [Except.mapError, Verdict.ofCheck], ?_⟩
      cases hb : svc.settings.rateLimitedResponse with
      | none => simp
      | some builder => simp
  | error error =>
    refine ⟨.storageError error, by simp [Except.mapError, Verdict.ofCheck], ?_⟩
    cases hp : svc.settings.onStorageError with
    | allow => simp
    | deny => simp

/-- The three answers of `RateTier::check` for a tier that is configured. -/
theorem check_recording (rateTier : RateTier) (S : Storage σ) (st : σ) (now : Nanos)
    (userId : String) {tier : String} {quota : Quota} (hq : rateTier.getQuota tier = some quota)
    (cost : UInt32) :
    rateTier.check S.recording (st, []) now userId tier cost =
      if quota.isUnlimited then ((st, []), .ok (.ok ⟨0, 0, .zero⟩))
      else if cost ≤ quota.maxBurst then
        (((S.check st ⟨⟨userId, tier⟩, quota, cost, now⟩).1,
            [⟨⟨userId, tier⟩, quota, cost, now⟩]),
          (S.check st ⟨⟨userId, tier⟩, quota, cost, now⟩).2.mapError .storage)
      else ((st, []), .error (.costExceedsLimit cost quota.maxBurst)) := by
  by_cases hl : quota.isUnlimited = true
  · rw [if_pos hl, RateTier.check_of_unlimited S.recording (st, []) now userId hq hl]
  · have hl' : quota.isUnlimited = false := Bool.eq_false_iff.mpr hl
    rw [if_neg hl]
    by_cases hc : cost ≤ quota.maxBurst
    · rw [if_pos hc, RateTier.check_of_le S.recording (st, []) now userId hq hl' hc]
      rfl
    · rw [if_neg hc, RateTier.check_of_gt S.recording (st, []) now userId hq hl' hc]

/-- **Service and `RateTier::check`.** The call of a request that has a tier carries out the
    verdict of `RateTier::check` on that tier, with its call of the storage. -/
theorem call_eq_reply (st : σ) (now : Nanos) (checkedAt : SystemTime) (req : Request B)
    {userId tier : String}
    (hb : svc.rateTier.resolvedTier (svc.identity req) = some (userId, tier)) :
    ∃ quota verdict, svc.rateTier.getQuota tier = some quota ∧
      Verdict.ofCheck quota (svc.rateTier.check svc.storage.recording (st, []) now userId tier
        (requestCost req.parts svc.settings)).2 = some verdict ∧
      svc.call st now checkedAt req =
        carryOut (svc.rateTier.check svc.storage.recording (st, []) now userId tier
            (requestCost req.parts svc.settings)).1.1 req
          (resolve svc.rateTier svc.settings (svc.identity req)).1
          (svc.rateTier.check svc.storage.recording (st, []) now userId tier
            (requestCost req.parts svc.settings)).1.2
          (svc.reply checkedAt userId tier (svc.inner req) verdict) := by
  have hcases := resolve_cases svc.rateTier svc.settings (svc.identity req)
  rcases hres : resolve svc.rateTier svc.settings (svc.identity req) with ⟨notices, result⟩
  rw [hres] at hcases
  rcases hcases with ⟨-, hn, -⟩ | ⟨-, hn, -⟩ | ⟨-, userId', tier', quota, hb', hq, hr⟩
  · cases hb.symm.trans hn
  · cases hb.symm.trans hn
  obtain ⟨rfl, rfl⟩ := Prod.mk.inj (Option.some.inj (hb.symm.trans hb'))
  refine ⟨quota, ?_⟩
  simp only at hr
  rw [check_recording svc.rateTier svc.storage st now userId hq]
  by_cases hl : quota.isUnlimited = true
  · rw [if_pos hl] at hr ⊢
    refine ⟨.unlimited, hq, by simp [Verdict.ofCheck, hl], ?_⟩
    subst hr
    rw [call_of_error hres st now checkedAt]
    simp [shortCircuit, carryOut, reply]
  · have hl' : quota.isUnlimited = false := Bool.eq_false_iff.mpr hl
    rw [if_neg hl] at hr ⊢
    subst hr
    rw [call_of_ok hres st now checkedAt]
    by_cases hc : requestCost req.parts svc.settings ≤ quota.maxBurst
    · rw [if_pos hc, svc.limitedCall_of_le st now checkedAt req notices userId tier hc]
      obtain ⟨verdict, hv, he⟩ := conclude_eq_reply svc
        (svc.storage.check st (svc.checkOf now req userId tier quota)).1 checkedAt req notices
        (svc.checkOf now req userId tier quota) userId tier
        (svc.storage.check st (svc.checkOf now req userId tier quota)).2 hl'
      exact ⟨verdict, hq, hv, he⟩
    · rw [if_neg hc, svc.limitedCall_of_gt st now checkedAt req notices userId tier hc]
      refine ⟨.costExceedsLimit (requestCost req.parts svc.settings) quota.maxBurst, hq, rfl, ?_⟩
      simp [carryOut, reply]

end TierLimitService

/-! ## The three together -/

namespace BufferedTierLimitService

variable {σ B E ResBody : Type}

/-- **One limiter.** Let both services come from one layer, and let the identifier ignore
    the body. The call of `TierLimitService` for a request that has a tier makes the
    storage call of `RateTier::check` on that tier and carries out its verdict. For a
    body that can be read `BufferedTierLimitService` makes the same calls and
    callbacks in the same order, forwards the same parts and the bytes of the body,
    and ends in the same way; for any other body it touches neither the storage nor
    the inner service. -/
theorem entry_points_agree (svc : BufferedTierLimitService σ B E ResBody)
    (plain : TierLimitService σ B E ResBody) (h : svc.Buffers plain)
    (hlib : svc.reader.Documented)
    (hident : ∀ headers bytes, svc.identifyWithBody headers bytes =
      plain.settings.identifier headers)
    (st : σ) (now : Nanos) (checkedAt : SystemTime) (req : Request B) :
    (∀ userId tier, plain.rateTier.resolvedTier (plain.identity req) = some (userId, tier) →
      ∃ quota verdict, plain.rateTier.getQuota tier = some quota ∧
        Verdict.ofCheck quota (plain.rateTier.check plain.storage.recording (st, []) now userId
          tier (requestCost req.parts plain.settings)).2 = some verdict ∧
        plain.call st now checkedAt req =
          TierLimitService.carryOut (plain.rateTier.check plain.storage.recording (st, []) now
              userId tier (requestCost req.parts plain.settings)).1.1 req
            (resolve plain.rateTier plain.settings (plain.identity req)).1
            (plain.rateTier.check plain.storage.recording (st, []) now userId tier
              (requestCost req.parts plain.settings)).1.2
            (plain.reply checkedAt userId tier (plain.inner req) verdict)) ∧
      (svc.Readable req.body →
        SameCall svc.reader.data (plain.call st now checkedAt req) (svc.call st now checkedAt req)
          (svc.inner ⟨req.parts, svc.reader.data req.body⟩ = plain.inner req)) ∧
      (¬ svc.Readable req.body →
        (svc.call st now checkedAt req).storage = st ∧
          (svc.call st now checkedAt req).actions = []) :=
  ⟨fun _ _ hb => TierLimitService.call_eq_reply st now checkedAt req hb,
    fun hread => call_eq_map h hlib hident hread st now checkedAt,
    fun hread => call_of_rejected hlib hread st now checkedAt⟩

/-- Bodies that are their data, with the declared length left open. -/
def plainReader : BodyReader Bytes where
  sizeHintLower _ := 0
  data body := body
  fails _ := false
  collectLimited body max := if max < body.length then .error .lengthLimit else .ok body

/-- Everybody is a user of one tier with two requests per second. -/
def plainService : TierLimitService Unit Bytes Unit Bytes where
  inner req := .ok ⟨⟨200, some "OK"⟩, [], req.body⟩
  rateTier :=
    { tiers := [("free", ⟨2, .fromSecs 1, .two_per_second⟩)]
      defaultTier := none
      onMissing := .useDefault
      onUnknownTier := .useDefault
      accepted := ⟨by simp, fun _ h => by cases h⟩ }
  settings :=
    { identifier := fun _ => some ⟨"u", "free"⟩
      onStorageError := .deny
      onLimited := false
      rateLimitedResponse := none
      onEvent := false
      costFn := none }
  storage := ⟨fun st _ _ _ _ => (st, .error ⟨"down"⟩)⟩
  fromString _ := []

/-- The same with a limit of four bytes. -/
def bufferedService : BufferedTierLimitService Unit Bytes Unit Bytes where
  inner := plainService.inner
  rateTier := plainService.rateTier
  settings := plainService.settings
  identifyWithBody headers _ := plainService.settings.identifier headers
  maxBodySize := 4
  storage := plainService.storage
  fromString := plainService.fromString
  reader := plainReader

/-- A body of three bytes leads to the same failing call of the storage in both services,
    one of five bytes to none. -/
theorem entry_points_agree_plain :
    (storageCalls (bufferedService.call () 7 ⟨0, by norm_num⟩
        ⟨⟨"POST", "/", [], none⟩, [1, 2, 3]⟩).actions).length = 1 ∧
      (bufferedService.call () 7 ⟨0, by norm_num⟩
        ⟨⟨"POST", "/", [], none⟩, [1, 2, 3, 4, 5]⟩).actions = [] := by
  have hlib : bufferedService.reader.Documented := fun body max => by
    simp [bufferedService, plainReader]
  have h : bufferedService.Buffers plainService := ⟨rfl, rfl, rfl, rfl⟩
  have hagree := entry_points_agree bufferedService plainService h hlib (fun _ _ => rfl) () 7
    ⟨0, by norm_num⟩
  constructor
  · rw [((hagree ⟨⟨"POST", "/", [], none⟩, [1, 2, 3]⟩).2.1
      ⟨by decide, by decide, rfl⟩).actions]
    rfl
  · exact ((hagree ⟨⟨"POST", "/", [], none⟩, [1, 2, 3, 4, 5]⟩).2.2
      fun hread => absurd hread.length_le (by decide)).2

end BufferedTierLimitService

end TowerRateTier
