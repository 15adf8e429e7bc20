import TowerRateTier.Gcra

/-!
# Storage backends

Model of `src/storage/mod.rs`. A backend is a state and an atomic
`check_and_update` on it; the future the source returns is the result it
resolves to.
-/

namespace TowerRateTier

/-- Model of `StorageKey` (lines 30–35): a user within a tier. -/
@[ext] structure StorageKey where
  userId : String
  tier : String
deriving DecidableEq, Repr

/-- Model of `StorageError` (line 46), by the text of the boxed error. -/
structure StorageError where
  error : String
deriving DecidableEq, Repr

/-- Output of `Storage::check_and_update`: the outer `Except` is a backend
    failure, the inner one the GCRA decision. -/
abbrev StorageResult := Except StorageError Decision

/-- Model of the trait `Storage` (lines 72–89) for a backend with state `σ`. -/
structure Storage (σ : Type) where
  checkAndUpdate : σ → StorageKey → Quota → UInt32 → Nanos → σ × StorageResult

/-- The arguments of one `check_and_update` call. -/
structure CheckRequest where
  key : StorageKey
  quota : Quota
  cost : UInt32
  now : Nanos

namespace Storage

variable {σ : Type} (S : Storage σ)

/-- The check of a request. -/
def check (st : σ) (r : CheckRequest) : σ × StorageResult :=
  S.checkAndUpdate st r.key r.quota r.cost r.now

/-- The answers to a sequence of requests, one after the other. -/
def answers : σ → List CheckRequest → List StorageResult
  | _, [] => []
  | st, r :: rs => (S.check st r).2 :: answers (S.check st r).1 rs

/-- The state after a sequence of requests. -/
def after (st : σ) (rs : List CheckRequest) : σ := rs.foldl (fun st r => (S.check st r).1) st

end Storage

end TowerRateTier
