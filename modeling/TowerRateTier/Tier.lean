import TowerRateTier.Response
import TowerRateTier.Storage.Basic

/-!
# `RateTier`

Model of `src/tier.rs` and of the policies in `src/on_missing.rs` and
`src/on_unknown_tier.rs`. What `build` asserts is part of the type: a `RateTier`
has a tier, and its default tier, if any, is one of its tiers.

* `RateTierBuilder.build_eq_some_iff`: which configurations are accepted.
-/

namespace TowerRateTier

/-! ## Policies -/

/-- Model of `OnMissing`. -/
inductive OnMissing where
  | useDefault
  | allow
  | deny (status : StatusCode)
deriving DecidableEq, Repr

/-- Model of `OnUnknownTier`. -/
inductive OnUnknownTier where
  | useDefault
  | deny (status : StatusCode)
  | allow
deriving DecidableEq, Repr

/-- Model of `TierIdentity` (`src/identifier.rs` lines 9–14). -/
structure TierIdentity where
  userId : String
  tier : String
deriving DecidableEq, Repr

/-! ## The limiter -/

/-- The `HashMap` of the tiers, as a list of its entries. -/
abbrev Tiers := List (String × Quota)

/-- The assertions of `build`. -/
structure Tiers.Accepts (tiers : Tiers) (defaultTier : Option String) : Prop where
  nonempty : tiers ≠ []
  default_mem : ∀ name, defaultTier = some name → (tiers.lookup name).isSome = true

/-- Model of `RateTier` (lines 87–95). The storage and the clock are arguments of what
    uses them. -/
structure RateTier where
  tiers : Tiers
  defaultTier : Option String
  onMissing : OnMissing
  onUnknownTier : OnUnknownTier
  accepted : tiers.Accepts defaultTier

/-- `RateTier::get_quota` (lines 139–141). -/
def RateTier.getQuota (rateTier : RateTier) (tierName : String) : Option Quota :=
  rateTier.tiers.lookup tierName

/-- Model of `CheckError` (lines 21–35). -/
inductive CheckError where
  | unknownTier (name : String)
  | storage (error : StorageError)
  | costExceedsLimit (cost limit : UInt32)
deriving DecidableEq, Repr

/-- `RateTier::check` (lines 187–216), at time `now` on the state `st` of the storage. -/
def RateTier.check {σ : Type} (rateTier : RateTier) (S : Storage σ) (st : σ) (now : Nanos)
    (userId tierName : String) (cost : UInt32) : σ × Except CheckError Decision :=
  match rateTier.getQuota tierName with
  | none => (st, .error (.unknownTier tierName))
  | some quota =>
    if quota.isUnlimited then (st, .ok (.ok ⟨0, 0, .zero⟩))
    else if cost > quota.maxBurst then (st, .error (.costExceedsLimit cost quota.maxBurst))
    else
      match S.checkAndUpdate st ⟨userId, tierName⟩ quota cost now with
      | (st, .ok decision) => (st, .ok decision)
      | (st, .error error) => (st, .error (.storage error))

/-- The default tier of a limiter has a quota. -/
theorem RateTier.getQuota_default (rateTier : RateTier) {name : String}
    (h : rateTier.defaultTier = some name) : ∃ quota, rateTier.getQuota name = some quota :=
  Option.isSome_iff_exists.mp (rateTier.accepted.default_mem name h)

/-! ## The answers of `check` -/

section check

variable {σ : Type} {rateTier : RateTier} {tier : String} {quota : Quota} {cost : UInt32}

/-- An unlimited tier never reaches the storage. -/
theorem RateTier.check_of_unlimited (S : Storage σ) (st : σ) (now : Nanos) (userId : String)
    (hq : rateTier.getQuota tier = some quota) (hl : quota.isUnlimited = true) :
    rateTier.check S st now userId tier cost = (st, .ok (.ok ⟨0, 0, .zero⟩)) := by
  simp only [RateTier.check, hq, hl, if_true]

/-- A cost above the burst of a limited tier never does. -/
theorem RateTier.check_of_gt (S : Storage σ) (st : σ) (now : Nanos) (userId : String)
    (hq : rateTier.getQuota tier = some quota) (hl : quota.isUnlimited = false)
    (hc : ¬ cost ≤ quota.maxBurst) :
    rateTier.check S st now userId tier cost =
      (st, .error (.costExceedsLimit cost quota.maxBurst)) := by
  have hgt : cost > quota.maxBurst := by
    rw [UInt32.le_iff_toNat_le] at hc
    rw [gt_iff_lt, UInt32.lt_iff_toNat_lt]
    omega
  simp only [RateTier.check, hq, hl, Bool.false_eq_true, if_false, if_pos hgt]

/-- Any other request is answered by the storage. -/
theorem RateTier.check_of_le (S : Storage σ) (st : σ) (now : Nanos) (userId : String)
    (hq : rateTier.getQuota tier = some quota) (hl : quota.isUnlimited = false)
    (hc : cost ≤ quota.maxBurst) :
    rateTier.check S st now userId tier cost =
      ((S.check st ⟨⟨userId, tier⟩, quota, cost, now⟩).1,
        (S.check st ⟨⟨userId, tier⟩, quota, cost, now⟩).2.mapError CheckError.storage) := by
  have hgt : ¬ cost > quota.maxBurst := by
    rw [UInt32.le_iff_toNat_le] at hc
    rw [gt_iff_lt, UInt32.lt_iff_toNat_lt]
    omega
  simp only [RateTier.check, hq, hl, Bool.false_eq_true, if_false, if_neg hgt, Storage.check]
  rcases S.checkAndUpdate st ⟨userId, tier⟩ quota cost now with ⟨st', result⟩
  cases result with
  | ok decision => rfl
  | error error => rfl

end check

/-! ## The builder -/

/-- Model of `RateTierBuilder` (lines 223–232), without clock, storage and garbage
    collection. -/
structure RateTierBuilder where
  tiers : Tiers
  defaultTier : Option String
  onMissing : OnMissing
  onUnknownTier : OnUnknownTier

namespace RateTierBuilder

/-- `RateTierBuilder::default` (lines 235–246). -/
def new : RateTierBuilder := ⟨[], none, .useDefault, .useDefault⟩

/-- `RateTierBuilder::tier` (lines 266–269) replaces a tier of the same name. -/
def tier (b : RateTierBuilder) (name : String) (quota : Quota) : RateTierBuilder :=
  { b with tiers := (name, quota) :: b.tiers.filter fun t => t.1 ≠ name }

/-- `RateTierBuilder::default_tier` (lines 276–279). -/
def setDefaultTier (b : RateTierBuilder) (name : String) : RateTierBuilder :=
  { b with defaultTier := some name }

instance (tiers : Tiers) (defaultTier : Option String) : Decidable (tiers.Accepts defaultTier) :=
  decidable_of_iff
    (tiers ≠ [] ∧ ∀ name ∈ defaultTier, (tiers.lookup name).isSome = true)
    ⟨fun h => ⟨h.1, fun name hn => h.2 name hn⟩, fun h => ⟨h.1, fun name hn => h.2 name hn⟩⟩

/-- `RateTierBuilder::build` (lines 349–390); `none` is its panic. -/
def build (b : RateTierBuilder) : Option RateTier :=
  if h : b.tiers.Accepts b.defaultTier then
    some ⟨b.tiers, b.defaultTier, b.onMissing, b.onUnknownTier, h⟩
  else none

/-- `build` accepts what it asserts and keeps it unchanged. -/
theorem build_eq_some_iff (b : RateTierBuilder) (rateTier : RateTier) :
    b.build = some rateTier ↔
      b = ⟨rateTier.tiers, rateTier.defaultTier, rateTier.onMissing, rateTier.onUnknownTier⟩ := by
  constructor
  · intro h
    obtain ⟨hacc, he⟩ := Option.dite_none_right_eq_some.mp h
    obtain rfl := Option.some.inj he
    rfl
  · rintro rfl
    exact dif_pos rateTier.accepted

end RateTierBuilder

end TowerRateTier
