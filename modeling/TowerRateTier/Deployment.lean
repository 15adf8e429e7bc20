import TowerRateTier.Lib.TransitionSystem
import TowerRateTier.Isolation
import TowerRateTier.TierCalls
import TowerRateTier.Storage.MemorySweep

/-!
# Concurrent requests

Any number of layers and of programmatic checks that share one `RateTier` with
its built-in storage. A call comes in, is polled up to the read of the clock, and
takes the lock of its shard later; the collector (`src/gc.rs`) reads the clock
and then visits one shard after another. Requests of other tasks stand anywhere
between these steps, and a future may be dropped before it is polled.

* `call_eq_prepare`, `check_eq_prepare`: the two parts of a call make up
  `TierLimitService.call` and `RateTier.check`.
* `Ledger.step`: what the steps do to the storage is a run of `MemoryStorage`.
* `inner_rate_bound`: what reaches the inner services.
-/

namespace TowerRateTier

/-! ## The two parts of a call -/

section Parts

variable {σ B E ResBody : Type}

/-- Lines 53–79 of `src/service.rs`: from the identity to the read of the clock. An error
    is the outcome of a request that is not checked. -/
def TierLimitService.prepare (svc : TierLimitService σ B E ResBody) (now : Nanos)
    (req : Request B) : List Notice × Except CheckOutcome CheckRequest :=
  match resolve svc.rateTier svc.settings (svc.settings.identifier req.parts.headers) with
  | (notices, .error outcome) => (notices, .error outcome)
  | (notices, .ok (userId, tierName, quota)) =>
    let cost := requestCost req.parts svc.settings
    match rejectCostOverLimit cost quota userId tierName svc.settings with
    | (rejected, some resp) => (notices ++ rejected, .error (.deny resp))
    | (rejected, none) => (notices ++ rejected, .ok ⟨⟨userId, tierName⟩, quota, cost, now⟩)

/-- Lines 80–95 of `src/service.rs`: the call of the storage, and what follows. -/
def TierLimitService.finish (svc : TierLimitService σ B E ResBody) (st : σ)
    (checkedAt : SystemTime) (req : Request B) (notices : List Notice) (r : CheckRequest) :
    CallResult σ B E ResBody :=
  let (st, result) := svc.storage.check st r
  svc.conclude st checkedAt req (notices.map .notify ++ [.checkAndUpdate r]) r.key.userId
    r.key.tier result

/-- Lines 193–210 of `src/tier.rs`. -/
def RateTier.prepare (rateTier : RateTier) (now : Nanos) (userId tierName : String)
    (cost : UInt32) : Except (Except CheckError Decision) CheckRequest :=
  match rateTier.getQuota tierName with
  | none => .error (.error (.unknownTier tierName))
  | some quota =>
    if quota.isUnlimited then .error (.ok (.ok ⟨0, 0, .zero⟩))
    else if cost > quota.maxBurst then .error (.error (.costExceedsLimit cost quota.maxBurst))
    else .ok ⟨⟨userId, tierName⟩, quota, cost, now⟩

/-- Both parts of a call, with nothing in between. -/
theorem TierLimitService.call_eq_prepare (svc : TierLimitService σ B E ResBody) (st : σ)
    (now : Nanos) (checkedAt : SystemTime) (req : Request B) :
    svc.call st now checkedAt req =
      match svc.prepare now req with
      | (notices, .error outcome) => svc.shortCircuit st req notices outcome
      | (notices, .ok r) => svc.finish st checkedAt req notices r := by
  unfold call prepare
  rcases resolve svc.rateTier svc.settings (svc.settings.identifier req.parts.headers) with
    ⟨notices, result⟩
  cases result with
  | error outcome => rfl
  | ok found =>
    obtain ⟨userId, tierName, quota⟩ := found
    simp only [limitedCall]
    rcases rejectCostOverLimit (requestCost req.parts svc.settings) quota userId tierName
      svc.settings with ⟨rejected, resp⟩
    cases resp with
    | some resp => rfl
    | none => rfl

/-- Both parts of a check. -/
theorem RateTier.check_eq_prepare (rateTier : RateTier) (S : Storage σ) (st : σ) (now : Nanos)
    (userId tierName : String) (cost : UInt32) :
    rateTier.check S st now userId tierName cost =
      match rateTier.prepare now userId tierName cost with
      | .error answer => (st, answer)
      | .ok r => ((S.check st r).1, (S.check st r).2.mapError CheckError.storage) := by
  unfold check prepare Storage.check
  cases rateTier.getQuota tierName with
  | none => rfl
  | some quota =>
    simp only
    split_ifs
    · rfl
    · rfl
    · rcases hres : S.checkAndUpdate st ⟨userId, tierName⟩ quota cost now with ⟨st', result⟩
      cases result <;> simp only [hres, Except.mapError]

end Parts

/-! ## Model -/

/-- Layers and programmatic checks that share one limiter with the built-in storage,
    whose map has `shards` shards. -/
structure Deployment (ι B E ResBody : Type) where
  rateTier : RateTier
  service : ι → TierLimitService MemoryStorage B E ResBody
  shares : ∀ i, (service i).rateTier = rateTier
  builtIn : ∀ i, (service i).storage = MemoryStorage.storage
  shardOf : StorageKey → ℕ
  shards : ℕ

namespace Deployment

/-- How far a call has come. -/
inductive Stage (ι B : Type) where
  | called (i : ι) (req : Request B)
  | checking (i : ι) (req : Request B) (notices : List Notice) (r : CheckRequest)
  | asked (userId tierName : String) (cost : UInt32)
  | looking (r : CheckRequest)
  | ended

/-- The clock, the storage, the calls, and the sweep of the collector: the time it has
    read and the shards that are left. Beside these what has happened so far, the first
    one first: the times of the sweeps, the steps on the map, the checks that were
    allowed and the requests that reached an inner service. -/
structure World (ι B : Type) where
  clock : Nanos
  storage : MemoryStorage
  calls : ℕ → Option (Stage ι B)
  sweepTime : Nanos
  toVisit : List ℕ
  sweeps : List Nanos
  steps : List ShardOp
  allowed : List (ℕ × CheckRequest)
  inner : List (ℕ × Request B)

/-- A step of the clock, of a call or of the collector. -/
inductive Action (ι B : Type) where
  | advance (now : Nanos)
  | call (id : ℕ) (i : ι) (req : Request B)
  | ask (id : ℕ) (userId tierName : String) (cost : UInt32)
  | poll (id : ℕ)
  | access (id : ℕ) (checkedAt : SystemTime)
  | drop (id : ℕ)
  | tick
  | visit

variable {ι B E ResBody : Type} (D : Deployment ι B E ResBody)

namespace World

/-- An empty storage. -/
def start : World ι B := ⟨0, MemoryStorage.new, fun _ => none, 0, [], [], [], [], []⟩

/-- Call `id` has come to a new stage. -/
def moved (w : World ι B) (id : ℕ) (stage : Stage ι B) : World ι B :=
  { w with calls := Function.update w.calls id (some stage) }

/-- A request has been polled. -/
def polled (w : World ι B) (id : ℕ) (i : ι) (req : Request B) : World ι B :=
  match (D.service i).prepare w.clock req with
  | (notices, .error outcome) =>
    let out := (D.service i).shortCircuit w.storage req notices outcome
    { w.moved id .ended with inner := w.inner ++ (innerCalls out.actions).map fun req => (id, req) }
  | (notices, .ok r) => w.moved id (.checking i req notices r)

/-- A programmatic check has been polled. -/
def polledCheck (w : World ι B) (id : ℕ) (userId tierName : String) (cost : UInt32) : World ι B :=
  match D.rateTier.prepare w.clock userId tierName cost with
  | .error _ => w.moved id .ended
  | .ok r => w.moved id (.looking r)

/-- Check `r` of call `id` on the map. -/
def checked (w : World ι B) (id : ℕ) (r : CheckRequest) : World ι B :=
  { w.moved id .ended with
    storage := (w.storage.check r).1
    steps := w.steps ++ [.check r]
    allowed := w.allowed ++ if (w.storage.check r).2.isOk then [(id, r)] else [] }

/-- The rest of a call of a service. -/
def accessed (w : World ι B) (id : ℕ) (checkedAt : SystemTime) (i : ι) (req : Request B)
    (notices : List Notice) (r : CheckRequest) : World ι B :=
  let out := (D.service i).finish w.storage checkedAt req notices r
  { w.checked id r with
    storage := out.storage
    inner := w.inner ++ (innerCalls out.actions).map fun req => (id, req) }

/-- The collector reads the clock. -/
def ticked (w : World ι B) : World ι B :=
  { w with sweepTime := w.clock, toVisit := List.range D.shards, sweeps := w.sweeps ++ [w.clock] }

/-- The collector visits a shard. -/
def visited (w : World ι B) (shard : ℕ) (left : List ℕ) : World ι B :=
  { w with
    storage := w.storage.retainShard D.shardOf shard w.sweepTime
    steps := w.steps ++ [.retain shard w.sweepTime]
    toVisit := left }

/-- One step. -/
def step (w : World ι B) : Action ι B → Option (World ι B)
  | .advance now => if w.clock ≤ now then some { w with clock := now } else none
  | .call id i req => if (w.calls id).isNone then some (w.moved id (.called i req)) else none
  | .ask id userId tierName cost =>
    if (w.calls id).isNone then some (w.moved id (.asked userId tierName cost)) else none
  | .poll id => (w.calls id).bind fun
    | .called i req => some (w.polled D id i req)
    | .asked userId tierName cost => some (w.polledCheck D id userId tierName cost)
    | _ => none
  | .access id checkedAt => (w.calls id).bind fun
    | .checking i req notices r => some (w.accessed D id checkedAt i req notices r)
    | .looking r => some (w.checked id r)
    | _ => none
  | .drop id => (w.calls id).bind fun
    | .called _ _ => some (w.moved id .ended)
    | .asked _ _ _ => some (w.moved id .ended)
    | _ => none
  | .tick => if w.toVisit = [] then some (w.ticked D) else none
  | .visit =>
    match w.toVisit with
    | [] => none
    | shard :: left => some (w.visited D shard left)

end World

/-- Any interleaving of the calls and the collector. -/
def system : TransitionSystem (World ι B) (Action ι B) := ⟨World.start, World.step D⟩

/-! ## Steps -/

variable {D} {w w' : World ι B}

/-- The check that a call still has to make. -/
def Stage.check : Stage ι B → Option CheckRequest
  | .checking _ _ _ r => some r
  | .looking r => some r
  | _ => none

/-- The request that a call passes on if its check is allowed. -/
def Stage.request : Stage ι B → Option (Request B)
  | .checking _ req _ _ => some req
  | _ => none

/-- The check of a call is that of its request or of a configured tier, and its time has
    been read from the clock. -/
def Stage.Sound (D : Deployment ι B E ResBody) (clock : Nanos) : Stage ι B → Prop
  | .checking i req _ r => (D.service i).Checks r.now req r ∧ r.now ≤ clock
  | .looking r => D.rateTier.getQuota r.key.tier = some r.quota ∧ r.now ≤ clock
  | _ => True

/-- The configuration lets the request pass without a check. -/
def PassesUnchecked (D : Deployment ι B E ResBody) (i : ι) (req : Request B) : Prop :=
  (resolve (D.service i).rateTier (D.service i).settings ((D.service i).identity req)).2 =
    .error .passThrough

/-- What is passed on after an answer of the storage. -/
def passedOn (id : ℕ) (stage : Stage ι B) (decision : Decision) : List (ℕ × Request B) :=
  if decision.isOk then (stage.request.map fun req => (id, req)).toList else []

/-- What a step can do. -/
inductive Move (D : Deployment ι B E ResBody) (w : World ι B) :
    Action ι B → World ι B → Prop where
  | time (now : Nanos) (h : w.clock ≤ now) : Move D w (.advance now) { w with clock := now }
  | stage (a : Action ι B) (id : ℕ) (stage : Stage ι B) (hid : w.calls id ≠ some .ended)
      (hsound : stage.Sound D w.clock) : Move D w a (w.moved id stage)
  | pass (id : ℕ) (i : ι) (req : Request B) (hid : w.calls id ≠ some .ended)
      (h : D.PassesUnchecked i req) :
      Move D w (.poll id) { w.moved id .ended with inner := w.inner ++ [(id, req)] }
  | check (id : ℕ) (checkedAt : SystemTime) (stage : Stage ι B) (r : CheckRequest)
      (hid : w.calls id = some stage) (hr : stage.check = some r) :
      Move D w (.access id checkedAt) { w.checked id r with
        inner := w.inner ++ passedOn id stage (w.storage.check r).2 }
  | tick (h : w.toVisit = []) : Move D w .tick (w.ticked D)
  | visit (shard : ℕ) (left : List ℕ) (h : w.toVisit = shard :: left) :
      Move D w .visit (w.visited D shard left)

section prepare

variable {σ : Type} {svc : TierLimitService σ B E ResBody} {now : Nanos} {req : Request B}

theorem prepare_of_error {notices : List Notice} {outcome : CheckOutcome}
    (h : resolve svc.rateTier svc.settings (svc.identity req) = (notices, .error outcome)) :
    svc.prepare now req = (notices, .error outcome) := by
  rw [TierLimitService.identity] at h
  simp only [TierLimitService.prepare, h]

/-- A bucket leads to a check, or to the refusal of a cost above its burst. -/
theorem prepare_of_found (now : Nanos) {notices : List Notice} {userId tier : String} {quota : Quota}
    (h : resolve svc.rateTier svc.settings (svc.identity req) =
      (notices, .ok (userId, tier, quota))) :
    (requestCost req.parts svc.settings ≤ quota.maxBurst ∧
        svc.prepare now req = (notices, .ok (svc.checkOf now req userId tier quota))) ∨
      ∃ rejected resp, svc.prepare now req = (notices ++ rejected, .error (.deny resp)) := by
  rw [TierLimitService.identity] at h
  by_cases hc : requestCost req.parts svc.settings ≤ quota.maxBurst
  · left
    simp only [TierLimitService.prepare, h, rejectCostOverLimit, if_pos hc, List.append_nil]
    exact ⟨hc, rfl⟩
  · right
    simp only [TierLimitService.prepare, h, rejectCostOverLimit, if_neg hc]
    exact ⟨_, _, rfl⟩

/-- A request is checked as its bucket and its cost say. -/
theorem prepare_ok {notices : List Notice} {r : CheckRequest}
    (h : svc.prepare now req = (notices, .ok r)) : svc.Checks now req r := by
  rcases hres : resolve svc.rateTier svc.settings (svc.identity req) with ⟨found, result⟩
  have hcases := resolve_cases svc.rateTier svc.settings (svc.identity req)
  rw [hres] at hcases
  cases result with
  | error outcome =>
    rw [prepare_of_error hres] at h
    cases h
  | ok bucket =>
    obtain ⟨userId, tier, quota⟩ := bucket
    rcases prepare_of_found now hres with ⟨hc, hp⟩ | ⟨rejected, resp, hp⟩
    · obtain ⟨-, hr⟩ := Prod.mk.inj (hp.symm.trans h)
      obtain rfl := Except.ok.inj hr
      rcases hcases with ⟨-, -, hr⟩ | ⟨-, -, resp, hr⟩ | ⟨-, u, t, q, hb, hq, hr⟩
      · cases hr
      · cases hr
      · simp only at hr
        split_ifs at hr with hl
        cases hr
        exact (svc.checks_iff_of_limited now hb hq (Bool.eq_false_iff.mpr hl) _).mpr ⟨hc, rfl⟩
    · cases hp.symm.trans h

/-- A request that is not checked passes only by its configuration. -/
theorem prepare_passThrough {notices : List Notice}
    (h : svc.prepare now req = (notices, .error .passThrough)) :
    (resolve svc.rateTier svc.settings (svc.identity req)).2 = .error .passThrough := by
  rcases hres : resolve svc.rateTier svc.settings (svc.identity req) with ⟨found, result⟩
  cases result with
  | error outcome =>
    rw [prepare_of_error hres] at h
    obtain rfl := Except.error.inj (Prod.mk.inj h).2
    rfl
  | ok bucket =>
    obtain ⟨userId, tier, quota⟩ := bucket
    rcases prepare_of_found now hres with ⟨-, hp⟩ | ⟨rejected, resp, hp⟩
    · cases hp.symm.trans h
    · cases hp.symm.trans h

theorem prepareCheck_ok {rateTier : RateTier} {userId tierName : String} {cost : UInt32}
    {r : CheckRequest} (h : rateTier.prepare now userId tierName cost = .ok r) :
    rateTier.getQuota r.key.tier = some r.quota ∧ r.now = now := by
  unfold RateTier.prepare at h
  cases hq : rateTier.getQuota tierName with
  | none => simp [hq] at h
  | some quota =>
    simp only [hq] at h
    split_ifs at h
    obtain rfl := Except.ok.inj h
    exact ⟨hq, rfl⟩

end prepare

/-- The rest of a call of a service, on the built-in storage. -/
theorem World.accessed_eq (w : World ι B) (id : ℕ) (checkedAt : SystemTime) (i : ι)
    (req : Request B) (notices : List Notice) (r : CheckRequest) :
    w.accessed D id checkedAt i req notices r =
      { w.checked id r with
        inner := w.inner ++ passedOn id (.checking i req notices r) (w.storage.check r).2 } := by
  have hresult : (D.service i).storage.check w.storage r =
      ((w.storage.check r).1, .ok (w.storage.check r).2) := by
    rw [D.builtIn i]
    rfl
  have hstorage : ((D.service i).finish w.storage checkedAt req notices r).storage =
      (w.storage.check r).1 := by
    unfold TierLimitService.finish
    rw [hresult]
    exact TierLimitService.conclude_storage _ _ _ _ _ _ _
  obtain ⟨-, -, hpass, hstop⟩ := TierLimitService.conclude_calls (D.service i)
    (w.storage.check r).1 checkedAt req (notices.map .notify ++ [.checkAndUpdate r]) r.key.userId
    r.key.tier (.ok (w.storage.check r).2)
  have hinner : (innerCalls ((D.service i).finish w.storage checkedAt req notices r).actions).map
      (fun req => (id, req)) =
        passedOn id (.checking i req notices r) (w.storage.check r).2 := by
    unfold TierLimitService.finish passedOn
    rw [hresult]
    cases hd : (w.storage.check r).2 with
    | ok info =>
      rw [hd] at hpass
      simp only
      rw [hpass (Or.inl ⟨info, rfl⟩)]
      simp [Except.isOk, Except.toBool, Stage.request]
    | error limited =>
      rw [hd] at hstop
      simp only
      rw [hstop (by simp)]
      simp [Except.isOk, Except.toBool]
  unfold accessed
  simp only [hstorage, hinner]
  rfl

theorem move_poll {id : ℕ} (h : w.step D (.poll id) = some w') : Move D w (.poll id) w' := by
  obtain ⟨stage, hid, h⟩ := Option.bind_eq_some_iff.mp h
  have hlive : ∀ s : Stage ι B, w.calls id = some s → s ≠ .ended → w.calls id ≠ some .ended := by
    intro s hs hne he
    exact hne (Option.some.inj (hs.symm.trans he))
  cases stage with
  | called i req =>
    have hne := hlive _ hid (by simp)
    obtain rfl := Option.some.inj h
    unfold World.polled
    rcases hp : (D.service i).prepare w.clock req with ⟨notices, result⟩
    cases result with
    | ok r =>
      have hchecks := prepare_ok hp
      rw [← hchecks.now_eq] at hchecks
      exact .stage _ id (.checking i req notices r) hne
        ⟨hchecks, UInt64.le_iff_toNat_le.mpr (by rw [(prepare_ok hp).now_eq])⟩
    | error outcome =>
      cases outcome with
      | passThrough =>
        have hpass : D.PassesUnchecked i req := prepare_passThrough hp
        simpa [TierLimitService.shortCircuit] using Move.pass id i req hne hpass
      | deny resp =>
        simpa [TierLimitService.shortCircuit, World.moved] using
          Move.stage (D := D) (.poll id) id .ended hne trivial
      | allow info =>
        simpa [TierLimitService.shortCircuit, World.moved] using
          Move.stage (D := D) (.poll id) id .ended hne trivial
  | asked userId tierName cost =>
    have hne := hlive _ hid (by simp)
    obtain rfl := Option.some.inj h
    unfold World.polledCheck
    cases hp : D.rateTier.prepare w.clock userId tierName cost with
    | error answer => exact .stage _ id .ended hne trivial
    | ok r =>
      obtain ⟨hq, hnow⟩ := prepareCheck_ok hp
      exact .stage _ id (.looking r) hne ⟨hq, UInt64.le_iff_toNat_le.mpr (by rw [hnow])⟩
  | checking i req notices r => cases h
  | looking r => cases h
  | ended => cases h

theorem move_access {id : ℕ} {checkedAt : SystemTime}
    (h : w.step D (.access id checkedAt) = some w') :
    ∃ stage r, w.calls id = some stage ∧ stage.check = some r ∧
      w' = { w.checked id r with inner := w.inner ++ passedOn id stage (w.storage.check r).2 } := by
  obtain ⟨stage, hid, h⟩ := Option.bind_eq_some_iff.mp h
  cases stage with
  | checking i req notices r =>
    obtain rfl := Option.some.inj h
    exact ⟨_, r, hid, rfl, w.accessed_eq id checkedAt i req notices r⟩
  | looking r =>
    obtain rfl := Option.some.inj h
    refine ⟨_, r, hid, rfl, ?_⟩
    have hnone : passedOn id (.looking r : Stage ι B) (w.storage.check r).2 = [] := by
      unfold passedOn
      split_ifs <;> rfl
    rw [hnone, List.append_nil]
    rfl
  | called i req => cases h
  | asked userId tierName cost => cases h
  | ended => cases h

/-- **Steps.** -/
theorem move_of_step {a : Action ι B} (h : w.step D a = some w') : Move D w a w' := by
  cases a with
  | advance now =>
    simp only [World.step, Option.ite_none_right_eq_some, Option.some.injEq] at h
    obtain ⟨hle, rfl⟩ := h
    exact .time now hle
  | call id i req =>
    simp only [World.step, Option.ite_none_right_eq_some, Option.isNone_iff_eq_none,
      Option.some.injEq] at h
    obtain ⟨hnone, rfl⟩ := h
    exact .stage _ id (.called i req) (by simp [hnone]) trivial
  | ask id userId tierName cost =>
    simp only [World.step, Option.ite_none_right_eq_some, Option.isNone_iff_eq_none,
      Option.some.injEq] at h
    obtain ⟨hnone, rfl⟩ := h
    exact .stage _ id (.asked userId tierName cost) (by simp [hnone]) trivial
  | poll id => exact move_poll h
  | access id checkedAt =>
    obtain ⟨stage, r, hid, hr, rfl⟩ := move_access h
    exact .check id checkedAt stage r hid hr
  | drop id =>
    obtain ⟨stage, hid, h⟩ := Option.bind_eq_some_iff.mp h
    cases stage with
    | called i req =>
      obtain rfl := Option.some.inj h
      exact .stage _ id .ended (by simp [hid]) trivial
    | asked userId tierName cost =>
      obtain rfl := Option.some.inj h
      exact .stage _ id .ended (by simp [hid]) trivial
    | checking i req notices r => cases h
    | looking r => cases h
    | ended => cases h
  | tick =>
    simp only [World.step, Option.ite_none_right_eq_some, Option.some.injEq] at h
    obtain ⟨hnil, rfl⟩ := h
    exact .tick hnil
  | visit =>
    cases hv : w.toVisit with
    | nil => simp [World.step, hv] at h
    | cons shard left =>
      simp only [World.step, hv, Option.some.injEq] at h
      subst h
      exact .visit shard left hv

/-! ## The storage -/

/-- A call reaches the map at most `lag` after it has read the clock. -/
def Timely (lag : ℕ) (w : World ι B) (a : Action ι B) (_ : World ι B) : Prop :=
  ∀ id checkedAt stage r, a = .access id checkedAt → w.calls id = some stage →
    stage.check = some r → w.clock.toNat ≤ r.now.toNat + lag

theorem timely_of_ne {lag : ℕ} {a : Action ι B} (h : ∀ id checkedAt, a ≠ .access id checkedAt) :
    Timely lag w a w' := fun id checkedAt _ _ ha => absurd ha (h id checkedAt)

theorem timely_access {lag id : ℕ} {checkedAt : SystemTime} {stage : Stage ι B} {r : CheckRequest}
    (hid : w.calls id = some stage) (hr : stage.check = some r)
    (hle : w.clock.toNat ≤ r.now.toNat + lag) : Timely lag w (.access id checkedAt) w' := by
  intro id' checkedAt' stage' r' ha hs' hr'
  obtain ⟨rfl, -⟩ := Action.access.inj ha
  obtain rfl := Option.some.inj (hid.symm.trans hs')
  obtain rfl := Option.some.inj (hr.symm.trans hr')
  exact hle

/-- The storage is what a run of `MemoryStorage` leaves, and the checks that were allowed
    are those it admits. Their quotas are configured and all times have been read from the
    clock. -/
structure Ledger (D : Deployment ι B E ResBody) (lag : ℕ) (w : World ι B) : Prop where
  storage : w.storage = MemoryStorage.new.shardRun D.shardOf w.steps
  allowed : w.allowed.map Prod.snd = MemoryStorage.new.admittedChecks D.shardOf w.steps
  checks : ∀ r, ShardOp.check r ∈ w.steps →
    D.rateTier.getQuota r.key.tier = some r.quota ∧ r.now ≤ w.clock
  visits : ∀ shard g, ShardOp.retain shard g ∈ w.steps → g ≤ w.clock
  sweepTime : w.sweepTime ≤ w.clock
  prompt : ∀ k, MemoryStorage.CollectsPromptly D.shardOf k lag w.steps
  sound : ∀ id stage, w.calls id = some stage → stage.Sound D w.clock

theorem Stage.Sound.mono {stage : Stage ι B} {clock clock' : Nanos} (h : stage.Sound D clock)
    (hle : clock ≤ clock') : stage.Sound D clock' := by
  cases stage with
  | checking i req notices r => exact ⟨h.1, UInt64.le_trans h.2 hle⟩
  | looking r => exact ⟨h.1, UInt64.le_trans h.2 hle⟩
  | _ => trivial

/-- The check of a call is made with the configured quota. -/
theorem Stage.Sound.quota {stage : Stage ι B} {clock : Nanos} (h : stage.Sound D clock)
    {r : CheckRequest} (hr : stage.check = some r) :
    D.rateTier.getQuota r.key.tier = some r.quota ∧ r.now ≤ clock := by
  cases stage with
  | checking i req notices r' =>
    obtain rfl := Option.some.inj hr
    have hquota := h.1.quota
    rw [D.shares i] at hquota
    exact ⟨hquota, h.2⟩
  | looking r' =>
    obtain rfl := Option.some.inj hr
    exact h
  | called i req => cases hr
  | asked userId tierName cost => cases hr
  | ended => cases hr

/-- The other calls stay where they are. -/
theorem sound_moved {clock : Nanos} (h : ∀ id stage, w.calls id = some stage → stage.Sound D clock)
    {id : ℕ} {stage : Stage ι B} (hsound : stage.Sound D clock) :
    ∀ id' stage', Function.update w.calls id (some stage) id' = some stage' →
      stage'.Sound D clock := by
  intro id' stage' h'
  by_cases hid : id' = id
  · subst hid
    rw [Function.update_self] at h'
    obtain rfl := Option.some.inj h'
    exact hsound
  · rw [Function.update_of_ne hid] at h'
    exact h id' stage' h'

theorem ledger_start (D : Deployment ι B E ResBody) (lag : ℕ) :
    Ledger D lag (World.start : World ι B) where
  storage := rfl
  allowed := rfl
  checks r h := by cases h
  visits shard g h := by cases h
  sweepTime := UInt64.le_iff_toNat_le.mpr le_rfl
  prompt k := List.Pairwise.nil
  sound id stage h := by cases h

/-- One check on the map. -/
theorem Ledger.check {lag : ℕ} (h : Ledger D lag w) (id : ℕ) {r : CheckRequest}
    (hquota : D.rateTier.getQuota r.key.tier = some r.quota) (hnow : r.now ≤ w.clock)
    (hlag : w.clock.toNat ≤ r.now.toNat + lag) : Ledger D lag (w.checked id r) := by
  have hmem : ∀ op, op ∈ w.steps ++ [ShardOp.check r] → op ∈ w.steps ∨ op = .check r := by
    intro op hop
    rwa [List.mem_append, List.mem_singleton] at hop
  refine ⟨?_, ?_, ?_, ?_, h.sweepTime, ?_, sound_moved h.sound trivial⟩
  · show (w.storage.check r).1 = MemoryStorage.new.shardRun D.shardOf (w.steps ++ [.check r])
    rw [MemoryStorage.shardRun_concat, ← h.storage]
    rfl
  · show (w.allowed ++ if (w.storage.check r).2.isOk then [(id, r)] else []).map Prod.snd =
      MemoryStorage.new.admittedChecks D.shardOf (w.steps ++ [.check r])
    rw [List.map_append, h.allowed, MemoryStorage.admittedChecks_append, ← h.storage,
      MemoryStorage.admittedChecks]
    split_ifs <;> rfl
  · intro r' hr'
    rcases hmem _ hr' with hold | hnew
    · exact h.checks r' hold
    · obtain rfl := ShardOp.check.inj hnew
      exact ⟨hquota, hnow⟩
  · intro shard g hg
    rcases hmem _ hg with hold | hnew
    · exact h.visits shard g hold
    · cases hnew
  · intro k
    apply List.pairwise_append.mpr
    refine ⟨h.prompt k, List.pairwise_singleton _ _, ?_⟩
    rintro op hop op' hop' g r' rfl rfl -
    obtain rfl := ShardOp.check.inj (List.mem_singleton.mp hop')
    have := UInt64.le_iff_toNat_le.mp (h.visits _ g hop)
    omega

/-- One visit of the collector. -/
theorem Ledger.visit {lag : ℕ} (h : Ledger D lag w) (shard : ℕ) (left : List ℕ) :
    Ledger D lag (w.visited D shard left) := by
  have hmem : ∀ op, op ∈ w.steps ++ [ShardOp.retain shard w.sweepTime] →
      op ∈ w.steps ∨ op = .retain shard w.sweepTime := by
    intro op hop
    rwa [List.mem_append, List.mem_singleton] at hop
  refine ⟨?_, ?_, ?_, ?_, h.sweepTime, ?_, h.sound⟩
  · show w.storage.retainShard D.shardOf shard w.sweepTime =
      MemoryStorage.new.shardRun D.shardOf (w.steps ++ [.retain shard w.sweepTime])
    rw [MemoryStorage.shardRun_concat, ← h.storage]
    rfl
  · show w.allowed.map Prod.snd =
      MemoryStorage.new.admittedChecks D.shardOf (w.steps ++ [.retain shard w.sweepTime])
    rw [h.allowed, MemoryStorage.admittedChecks_append]
    exact (List.append_nil _).symm
  · intro r hr
    rcases hmem _ hr with hold | hnew
    · exact h.checks r hold
    · cases hnew
  · intro shard' g hg
    rcases hmem _ hg with hold | hnew
    · exact h.visits shard' g hold
    · obtain ⟨-, rfl⟩ := ShardOp.retain.inj hnew
      exact h.sweepTime
  · intro k
    apply List.pairwise_append.mpr
    refine ⟨h.prompt k, List.pairwise_singleton _ _, ?_⟩
    rintro op - op' hop' g r' rfl rfl -
    cases List.mem_singleton.mp hop'

/-- **The storage.** Every step keeps the ledger. -/
theorem Ledger.step {lag : ℕ} (h : Ledger D lag w) {a : Action ι B} (hm : Move D w a w')
    (ht : Timely lag w a w') : Ledger D lag w' := by
  cases hm with
  | time now hle =>
    exact ⟨h.storage, h.allowed,
      fun r hr => ⟨(h.checks r hr).1, UInt64.le_trans (h.checks r hr).2 hle⟩,
      fun shard g hg => UInt64.le_trans (h.visits shard g hg) hle,
      UInt64.le_trans h.sweepTime hle, h.prompt,
      fun id stage hs => (h.sound id stage hs).mono hle⟩
  | stage a id stage hid hsound => exact { h with sound := sound_moved h.sound hsound }
  | pass id i req hid hpass => exact { h with sound := sound_moved h.sound trivial }
  | check id checkedAt stage r hid hr =>
    obtain ⟨hquota, hnow⟩ := (h.sound id stage hid).quota hr
    exact { h.check id hquota hnow (ht id checkedAt stage r rfl hid hr) with }
  | tick hnil => exact { h with sweepTime := UInt64.le_iff_toNat_le.mpr le_rfl }
  | visit shard left hv => exact h.visit shard left

/-! ## The collector -/

/-- Each sweep visits a shard at most once. -/
structure Sweeping (w : World ι B) : Prop where
  nodup : w.toVisit.Nodup
  current : w.toVisit ≠ [] → ∃ past, w.sweeps = past ++ [w.sweepTime]
  visits : ∀ shard, (w.steps.filterMap (MemoryStorage.visitTime shard)).Sublist
    (if shard ∈ w.toVisit then w.sweeps.dropLast else w.sweeps)

theorem sweeping_start : Sweeping (World.start : World ι B) :=
  ⟨List.nodup_nil, fun h => absurd rfl h, fun _ => List.nil_sublist _⟩

/-- A visit to a shard is the one that was due. -/
theorem Sweeping.due_visited (h : Sweeping w) {shard : ℕ} {left : List ℕ}
    (hv : w.toVisit = shard :: left) (shard' : ℕ) :
    (if shard' ∈ left then w.sweeps.dropLast else w.sweeps) =
      (if shard' ∈ w.toVisit then w.sweeps.dropLast else w.sweeps) ++
        if shard' = shard then [w.sweepTime] else [] := by
  obtain ⟨past, hpast⟩ := h.current (by simp [hv])
  have hnodup := h.nodup
  rw [hv, List.nodup_cons] at hnodup
  rw [hv]
  by_cases hs : shard' = shard
  · -- The first visit of this sweep to the shard.
    subst hs
    rw [if_neg hnodup.1, if_pos List.mem_cons_self, if_pos rfl, hpast, List.dropLast_concat]
  · rw [if_neg hs, List.append_nil]
    simp [hs]

theorem Sweeping.step (h : Sweeping w) {a : Action ι B} (hm : Move D w a w') : Sweeping w' := by
  cases hm with
  | time now hle => exact ⟨h.nodup, h.current, h.visits⟩
  | stage a id stage hid hsound => exact ⟨h.nodup, h.current, h.visits⟩
  | pass id i req hid hpass => exact ⟨h.nodup, h.current, h.visits⟩
  | check id checkedAt stage r hid hr =>
    refine ⟨h.nodup, h.current, fun shard => ?_⟩
    show ((w.steps ++ [ShardOp.check r]).filterMap (MemoryStorage.visitTime shard)).Sublist _
    have hnone : [ShardOp.check r].filterMap (MemoryStorage.visitTime shard) = [] := rfl
    rw [List.filterMap_append, hnone, List.append_nil]
    exact h.visits shard
  | tick hnil =>
    refine ⟨List.nodup_range, fun _ => ⟨w.sweeps, rfl⟩, fun shard => ?_⟩
    have hvisits := h.visits shard
    rw [hnil, if_neg List.not_mem_nil] at hvisits
    show (w.steps.filterMap (MemoryStorage.visitTime shard)).Sublist
      (if shard ∈ List.range D.shards then (w.sweeps ++ [w.clock]).dropLast
        else w.sweeps ++ [w.clock])
    split_ifs
    · rwa [List.dropLast_concat]
    · exact hvisits.trans (List.sublist_append_left _ _)
  | visit shard left hv =>
    have hnodup := h.nodup
    rw [hv, List.nodup_cons] at hnodup
    refine ⟨hnodup.2, fun _ => h.current (by simp [hv]), fun shard' => ?_⟩
    show ((w.steps ++ [ShardOp.retain shard w.sweepTime]).filterMap
      (MemoryStorage.visitTime shard')).Sublist
        (if shard' ∈ left then w.sweeps.dropLast else w.sweeps)
    rw [h.due_visited hv shard', List.filterMap_append]
    apply (h.visits shard').append
    by_cases hs : shard' = shard
    · simp [MemoryStorage.visitTime, hs]
    · simp [MemoryStorage.visitTime, Ne.symm hs]

/-! ## The inner services -/

/-- A call has at most one check that was allowed and passes at most one request on: if
    its check was allowed, or if the configuration lets the request pass. -/
structure Forwarding (D : Deployment ι B E ResBody) (w : World ι B) : Prop where
  inner_ended : ∀ id req, (id, req) ∈ w.inner → w.calls id = some .ended
  allowed_ended : ∀ id r, (id, r) ∈ w.allowed → w.calls id = some .ended
  inner_nodup : (w.inner.map Prod.fst).Nodup
  allowed_nodup : (w.allowed.map Prod.fst).Nodup
  justified : ∀ id req, (id, req) ∈ w.inner → ∃ i, D.PassesUnchecked i req ∨
    ∃ r, (id, r) ∈ w.allowed ∧ (D.service i).Checks r.now req r

theorem forwarding_start (D : Deployment ι B E ResBody) :
    Forwarding D (World.start : World ι B) where
  inner_ended id req h := by cases h
  allowed_ended id r h := by cases h
  inner_nodup := List.nodup_nil
  allowed_nodup := List.nodup_nil
  justified id req h := by cases h

/-- A call that goes on has not ended before. -/
theorem ended_moved {β : Type} {log : List (ℕ × β)} {id : ℕ} (stage : Stage ι B)
    (h : ∀ id' x, (id', x) ∈ log → w.calls id' = some .ended) (hid : w.calls id ≠ some .ended) :
    ∀ id' x, (id', x) ∈ log → Function.update w.calls id (some stage) id' = some .ended := by
  intro id' x hx
  have hne : id' ≠ id := by
    rintro rfl
    exact hid (h id' x hx)
  rw [Function.update_of_ne hne]
  exact h id' x hx

/-- A log of ended calls to which a call that ends now adds at most one entry. -/
theorem ended_added {β : Type} {log : List (ℕ × β)} {id : ℕ} (new : List (ℕ × β))
    (h : ∀ id' x, (id', x) ∈ log → w.calls id' = some .ended) (hid : w.calls id ≠ some .ended)
    (hnodup : (log.map Prod.fst).Nodup) (hnew : new = [] ∨ ∃ x, new = [(id, x)]) :
    (∀ id' x, (id', x) ∈ log ++ new →
        Function.update w.calls id (some (Stage.ended : Stage ι B)) id' = some .ended) ∧
      ((log ++ new).map Prod.fst).Nodup := by
  have hmoved := ended_moved .ended h hid
  rcases hnew with rfl | ⟨x, rfl⟩
  · rw [List.append_nil]
    exact ⟨hmoved, hnodup⟩
  · constructor
    · intro id' y hy
      rcases List.mem_append.mp hy with hold | hnew
      · exact hmoved id' y hold
      · obtain ⟨rfl, -⟩ := Prod.mk.inj (List.mem_singleton.mp hnew)
        exact Function.update_self _ _ _
    · rw [List.map_append, List.map_singleton]
      apply List.Nodup.append hnodup (List.nodup_singleton id)
      intro id' hold hnew
      obtain rfl := List.mem_singleton.mp hnew
      obtain ⟨⟨id'', y⟩, hy, rfl⟩ := List.mem_map.mp hold
      exact hid (h id'' y hy)

theorem passedOn_cases (id : ℕ) (stage : Stage ι B) (decision : Decision) :
    passedOn id stage decision = [] ∨
      ∃ req, passedOn id stage decision = [(id, req)] ∧ stage.request = some req ∧
        decision.isOk = true := by
  unfold passedOn
  split_ifs with hok
  · cases hreq : stage.request with
    | none => exact Or.inl rfl
    | some req => exact Or.inr ⟨req, rfl, rfl, hok⟩
  · exact Or.inl rfl

theorem Forwarding.check (h : Forwarding D w) {id : ℕ} {stage : Stage ι B} {r : CheckRequest}
    (hid : w.calls id = some stage) (hr : stage.check = some r) (hsound : stage.Sound D w.clock) :
    Forwarding D { w.checked id r with
      inner := w.inner ++ passedOn id stage (w.storage.check r).2 } := by
  have hlive : w.calls id ≠ some .ended := by
    intro he
    obtain rfl := Option.some.inj (hid.symm.trans he)
    cases hr
  have hallowed := ended_added (if (w.storage.check r).2.isOk then [(id, r)] else [])
    h.allowed_ended hlive h.allowed_nodup (by
      split_ifs
      · exact Or.inr ⟨r, rfl⟩
      · exact Or.inl rfl)
  have hinner := ended_added (passedOn id stage (w.storage.check r).2) h.inner_ended hlive
    h.inner_nodup ((passedOn_cases id stage _).imp_right fun ⟨req, hreq, _⟩ => ⟨req, hreq⟩)
  refine ⟨hinner.1, hallowed.1, hinner.2, hallowed.2, ?_⟩
  intro id' req hmem
  rcases List.mem_append.mp hmem with hold | hnew
  · obtain ⟨i, hi⟩ := h.justified id' req hold
    exact ⟨i, hi.imp_right fun ⟨r', hr', hc⟩ => ⟨r', List.mem_append_left _ hr', hc⟩⟩
  · rcases passedOn_cases id stage (w.storage.check r).2 with hnil | ⟨req', hone, hreq, hok⟩
    · rw [hnil] at hnew
      cases hnew
    · rw [hone] at hnew
      obtain ⟨rfl, rfl⟩ := Prod.mk.inj (List.mem_singleton.mp hnew)
      cases stage with
      | checking i req'' notices r' =>
        obtain rfl := Option.some.inj hreq
        obtain rfl := Option.some.inj hr
        refine ⟨i, Or.inr ⟨r', ?_, hsound.1⟩⟩
        show (id', r') ∈ w.allowed ++ if (w.storage.check r').2.isOk then [(id', r')] else []
        rw [if_pos hok]
        exact List.mem_append_right _ List.mem_cons_self
      | called i req'' => cases hreq
      | asked userId tierName cost => cases hreq
      | looking r' => cases hreq
      | ended => cases hreq

theorem Forwarding.step (h : Forwarding D w)
    (hsound : ∀ id stage, w.calls id = some stage → stage.Sound D w.clock) {a : Action ι B}
    (hm : Move D w a w') : Forwarding D w' := by
  cases hm with
  | time now hle => exact { h with }
  | stage a id stage hid _ =>
    exact { h with
      inner_ended := ended_moved stage h.inner_ended hid
      allowed_ended := ended_moved stage h.allowed_ended hid }
  | pass id i req hid hpass =>
    have hinner := ended_added [(id, req)] h.inner_ended hid h.inner_nodup
      (Or.inr ⟨req, rfl⟩)
    refine ⟨hinner.1, ended_moved .ended h.allowed_ended hid, hinner.2, h.allowed_nodup, ?_⟩
    intro id' req' hmem
    rcases List.mem_append.mp hmem with hold | hnew
    · exact h.justified id' req' hold
    · obtain ⟨rfl, rfl⟩ := Prod.mk.inj (List.mem_singleton.mp hnew)
      exact ⟨i, Or.inl hpass⟩
  | check id checkedAt stage r hid hr => exact h.check hid hr (hsound id stage hid)
  | tick hnil => exact { h with }
  | visit shard left hv => exact { h with }

/-! ## Runs -/

theorem invariants_of_run {lag : ℕ} {as : List (Action ι B)} :
    ∀ {w : World ι B}, Ledger D lag w → Sweeping w → Forwarding D w →
      D.system.run w as = some w' → D.system.Along (Timely lag) w as →
      Ledger D lag w' ∧ Sweeping w' ∧ Forwarding D w' := by
  induction as with
  | nil =>
    intro w hl hs hf hr _
    obtain rfl := Option.some.inj hr
    exact ⟨hl, hs, hf⟩
  | cons a as ih =>
    intro w hl hs hf hr ht
    obtain ⟨u, hu, hrest⟩ := TransitionSystem.run_cons_eq_some.mp hr
    obtain ⟨htimely, hts⟩ := (TransitionSystem.along_cons hu as).mp ht
    have hm : Move D w a u := move_of_step hu
    exact ih (hl.step hm htimely) (hs.step hm) (hf.step hl.sound hm) hrest hts

/-- **What reaches the inner services.** Let the calls reach the map at most `lag` after
    they have read the clock, which stays more than a burst below its maximum. The costs
    that are allowed for a bucket at times in `[s, t]`, by layers and by programmatic
    checks together, take at most the burst and `t - s`, and `lag` more for each sweep of
    the collector from that interval on. Every call passes at most one request on, and
    only if its own check was allowed, which no other call's was, or the configuration
    lets it pass without a check. -/
theorem inner_rate_bound (D : Deployment ι B E ResBody) (lag : ℕ) (as : List (Action ι B))
    (w : World ι B) (hr : D.system.run World.start as = some w)
    (hlag : D.system.Along (Timely lag) World.start as) (k : StorageKey) (q : Quota)
    (hq : D.rateTier.getQuota k.tier = some q)
    (hclock : w.clock.toNat + q.burstOffsetNanos.toNat < 2 ^ 64 - 1) (s t : ℕ) (hst : s ≤ t) :
    q.emissionIntervalNanos.toNat *
          MemoryStorage.costBetween k s t (w.allowed.map Prod.snd) ≤
        q.burstOffsetNanos.toNat + (t - s) + lag * MemoryStorage.timesIn s (t + lag) w.sweeps ∧
      (w.allowed.map Prod.fst).Nodup ∧ (w.inner.map Prod.fst).Nodup ∧
      ∀ id req, (id, req) ∈ w.inner → ∃ i, D.PassesUnchecked i req ∨
        ∃ r, (id, r) ∈ w.allowed ∧ (D.service i).Checks r.now req r := by
  obtain ⟨hl, hs, hf⟩ := invariants_of_run (ledger_start D lag) sweeping_start
    (forwarding_start D) hr hlag
  refine ⟨?_, hf.allowed_nodup, hf.inner_nodup, hf.justified⟩
  have huniform : MemoryStorage.ShardUniform k q w.steps := by
    rintro r hmem rfl
    obtain ⟨hquota, hnow⟩ := hl.checks r hmem
    have := UInt64.le_iff_toNat_le.mp hnow
    exact ⟨Option.some.inj (hquota.symm.trans hq), by omega⟩
  have hsub : (w.steps.filterMap (MemoryStorage.visitTime (D.shardOf k))).Sublist w.sweeps := by
    have := hs.visits (D.shardOf k)
    split_ifs at this
    · exact this.trans (List.dropLast_sublist _)
    · exact this
  have hbound := MemoryStorage.costBetween_le MemoryStorage.new huniform (hl.prompt k) hst
  rw [← hl.allowed] at hbound
  calc q.emissionIntervalNanos.toNat * MemoryStorage.costBetween k s t (w.allowed.map Prod.snd)
      ≤ q.burstOffsetNanos.toNat + (t - s) + lag * MemoryStorage.timesIn s (t + lag)
          (w.steps.filterMap (MemoryStorage.visitTime (D.shardOf k))) := hbound
    _ ≤ q.burstOffsetNanos.toNat + (t - s) + lag * MemoryStorage.timesIn s (t + lag) w.sweeps :=
        Nat.add_le_add_left (Nat.mul_le_mul_left _ hsub.countP_le) _

/-- One layer over a limiter with two requests per 20 ns, and a map of one shard. -/
def pairDeployment : Deployment Unit Unit Unit Unit where
  rateTier := TierCalls.pairTier
  service _ := { TierLimitService.keyedService with rateTier := TierCalls.pairTier }
  shares _ := rfl
  builtIn _ := rfl
  shardOf _ := 0
  shards := 1

theorem epoch_lt : (0 : ℤ) < 2 ^ 63 * 10 ^ 9 := by norm_num

/-- A programmatic check reads the clock at 0 and is overtaken by a sweep at 2; then a
    request of the same user comes in at 2. -/
def overtakenBySweep : List (Action Unit Unit) :=
  [.ask 0 "u" "free" 1, .poll 0, .advance 2, .tick, .visit, .access 0 ⟨0, epoch_lt⟩,
    .call 1 () ⟨⟨"GET", "/", [("x-api-key", "u")], none⟩, ()⟩, .poll 1,
    .access 1 ⟨0, epoch_lt⟩]

/-- Both are allowed, and the request reaches the inner service. -/
theorem inner_rate_bound_overtaken :
    ∃ w, pairDeployment.system.run World.start overtakenBySweep = some w ∧
      w.inner.map Prod.fst = [1] ∧
      MemoryStorage.costBetween ⟨"u", "free"⟩ 0 2 (w.allowed.map Prod.snd) = 2 ∧
      10 * MemoryStorage.costBetween ⟨"u", "free"⟩ 0 2 (w.allowed.map Prod.snd) ≤
        20 + (2 - 0) + 2 * MemoryStorage.timesIn 0 (2 + 2) w.sweeps := by
  refine ⟨_, rfl, by decide, by decide, ?_⟩
  refine (inner_rate_bound pairDeployment 2 overtakenBySweep _ rfl ?_ ⟨"u", "free"⟩
    ⟨2, .fromNanos 20, .two_per_twenty_nanos⟩ rfl (by decide) 0 2 (by decide)).1
  exact ⟨_, rfl, timely_of_ne (by simp), _, rfl, timely_of_ne (by simp),
    _, rfl, timely_of_ne (by simp), _, rfl, timely_of_ne (by simp), _, rfl, timely_of_ne (by simp),
    _, rfl, timely_access rfl rfl (by decide), _, rfl, timely_of_ne (by simp),
    _, rfl, timely_of_ne (by simp), _, rfl, timely_access rfl rfl (by decide), trivial⟩

end Deployment

end TowerRateTier
