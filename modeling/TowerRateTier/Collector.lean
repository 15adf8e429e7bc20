import TowerRateTier.Lib.OnceLock
import TowerRateTier.Lib.TransitionSystem
import TowerRateTier.Tier
import Mathlib.Data.List.Induction
import Mathlib.Data.List.Nodup

/-!
# The garbage collector of a limiter

Model of `LazyGc`, of what a `RateTierBuilder` decides about it (`src/tier.rs`) and of
`GcHandle` (`src/gc.rs`). `build` and every use of the storage call `ensure_started`,
from any threads, inside a Tokio runtime or outside of one; runtimes may shut down,
and the last owner of the limiter may drop it. The runtimes have a time driver:
without one `tokio::time::interval` panics inside the task.

* `configured_of_configure`: which calls of the builder lead to a collector, and
  with which interval.
* `collector_lifecycle`: the interval is never zero, at most one collector is ever
  started, none without need, and every use of the storage inside a runtime comes
  back with it running.
-/

namespace TowerRateTier

/-! ## Model of the builder -/

/-- Model of `RateTierBuilder` (lines 223–232) with all its fields; of a custom clock and a
    custom storage it matters here whether they are set. -/
structure FullRateTierBuilder extends RateTierBuilder where
  customClock : Bool
  customStorage : Bool
  gcInterval : Duration
  gcEnabled : Bool

/-- Model of `LazyGc` (lines 101–105), without its handle. -/
structure LazyGc where
  interval : Duration
deriving DecidableEq

/-- A call of a method of the builder. -/
inductive BuilderCall where
  | tier (name : String) (quota : Quota)
  | defaultTier (name : String)
  | onMissing (policy : OnMissing)
  | onUnknownTier (policy : OnUnknownTier)
  | clock
  | storage
  | gcInterval (interval : Duration)
  | disableGc

namespace FullRateTierBuilder

/-- `RateTierBuilder::default` (lines 234–247). -/
def new : FullRateTierBuilder where
  toRateTierBuilder := .new
  customClock := false
  customStorage := false
  gcInterval := .fromSecs 60
  gcEnabled := true

/-- The methods of the builder (lines 264–335); `none` is the panic of `gc_interval`. -/
def apply (b : FullRateTierBuilder) : BuilderCall → Option FullRateTierBuilder
  | .tier name quota => some { b with toRateTierBuilder := b.toRateTierBuilder.tier name quota }
  | .defaultTier name => some { b with toRateTierBuilder := b.toRateTierBuilder.setDefaultTier name }
  | .onMissing policy => some { b with onMissing := policy }
  | .onUnknownTier policy => some { b with onUnknownTier := policy }
  | .clock => some { b with customClock := true }
  | .storage => some { b with customStorage := true, gcEnabled := false }
  | .gcInterval interval =>
    if interval.asNanos = 0 then none
    else some { b with gcInterval := interval, gcEnabled := true }
  | .disableGc => some { b with gcEnabled := false }

/-- One method after the other. -/
def configure (b : FullRateTierBuilder) (calls : List BuilderCall) : Option FullRateTierBuilder :=
  calls.foldlM apply b

/-- `RateTierBuilder::build` (lines 349–390), up to the collector. -/
def build (b : FullRateTierBuilder) : Option (RateTier × Option LazyGc) :=
  b.toRateTierBuilder.build.map fun rateTier =>
    (rateTier, if b.customStorage then none else if b.gcEnabled then some ⟨b.gcInterval⟩ else none)

end FullRateTierBuilder

/-! ## What the builder decides -/

namespace BuilderCall

/-- The call sets a custom storage. -/
def setsStorage : BuilderCall → Bool
  | .storage => true
  | _ => false

/-- The collector that the call asks for, if it says something about it. -/
def gcSetting : BuilderCall → Option (Option LazyGc)
  | .gcInterval interval => some (some ⟨interval⟩)
  | .disableGc => some none
  | _ => none

/-- The collector of a limiter with the built-in storage: the last call decides. -/
def lastGc (calls : List BuilderCall) : Option LazyGc :=
  ((calls.filterMap gcSetting).getLast?).getD (some ⟨.fromSecs 60⟩)

end BuilderCall

/-- The fields of a builder after some calls. -/
structure Configured (calls : List BuilderCall) (b : FullRateTierBuilder) : Prop where
  storage : b.customStorage = calls.any BuilderCall.setsStorage
  gc : b.customStorage = false →
    (if b.gcEnabled then some (⟨b.gcInterval⟩ : LazyGc) else none) = BuilderCall.lastGc calls
  interval_pos : 0 < b.gcInterval.asNanos

theorem lastGc_concat_none {call : BuilderCall} (h : call.gcSetting = none)
    (calls : List BuilderCall) :
    BuilderCall.lastGc (calls ++ [call]) = BuilderCall.lastGc calls := by
  rw [BuilderCall.lastGc, List.filterMap_append, List.filterMap_cons_none h, List.filterMap_nil,
    List.append_nil, BuilderCall.lastGc]

theorem lastGc_concat_some {call : BuilderCall} {gc : Option LazyGc}
    (h : call.gcSetting = some gc) (calls : List BuilderCall) :
    BuilderCall.lastGc (calls ++ [call]) = gc := by
  rw [BuilderCall.lastGc, List.filterMap_append, List.filterMap_cons_some h, List.filterMap_nil,
    List.getLast?_concat, Option.getD_some]

/-- A call that says nothing about the storage or the collector. -/
theorem Configured.unrelated {calls : List BuilderCall} {b b' : FullRateTierBuilder}
    (h : Configured calls b) {call : BuilderCall} (hs : call.setsStorage = false)
    (hg : call.gcSetting = none) (hstorage : b'.customStorage = b.customStorage)
    (hinterval : b'.gcInterval = b.gcInterval) (henabled : b'.gcEnabled = b.gcEnabled) :
    Configured (calls ++ [call]) b' where
  storage := by
    rw [hstorage, h.storage, List.any_append, List.any_cons, hs]
    simp
  gc hb := by
    rw [henabled, hinterval, lastGc_concat_none hg]
    exact h.gc (hstorage ▸ hb)
  interval_pos := hinterval ▸ h.interval_pos

/-- **Step lemma.** -/
theorem Configured.apply {calls : List BuilderCall} {b b' : FullRateTierBuilder}
    (h : Configured calls b) {call : BuilderCall} (hb : b.apply call = some b') :
    Configured (calls ++ [call]) b' := by
  cases call with
  | tier name quota =>
    obtain rfl := Option.some.inj hb
    exact h.unrelated rfl rfl rfl rfl rfl
  | defaultTier name =>
    obtain rfl := Option.some.inj hb
    exact h.unrelated rfl rfl rfl rfl rfl
  | onMissing policy =>
    obtain rfl := Option.some.inj hb
    exact h.unrelated rfl rfl rfl rfl rfl
  | onUnknownTier policy =>
    obtain rfl := Option.some.inj hb
    exact h.unrelated rfl rfl rfl rfl rfl
  | clock =>
    obtain rfl := Option.some.inj hb
    exact h.unrelated rfl rfl rfl rfl rfl
  | storage =>
    obtain rfl := Option.some.inj hb
    refine ⟨?_, fun hfalse => by simp at hfalse, h.interval_pos⟩
    rw [List.any_append]
    simp [BuilderCall.setsStorage]
  | gcInterval interval =>
    rw [FullRateTierBuilder.apply, Option.ite_none_left_eq_some] at hb
    obtain ⟨hpos, heq⟩ := hb
    obtain rfl := Option.some.inj heq
    refine ⟨?_, fun _ => ?_, Nat.pos_of_ne_zero hpos⟩
    · rw [List.any_append, ← h.storage]
      simp [BuilderCall.setsStorage]
    · rw [lastGc_concat_some rfl]
      rfl
  | disableGc =>
    obtain rfl := Option.some.inj hb
    refine ⟨?_, fun _ => ?_, h.interval_pos⟩
    · rw [List.any_append, ← h.storage]
      simp [BuilderCall.setsStorage]
    · rw [lastGc_concat_some rfl]
      rfl

/-- **Run lemma.** -/
theorem configured_of_configure (calls : List BuilderCall) : ∀ b : FullRateTierBuilder,
    FullRateTierBuilder.new.configure calls = some b → Configured calls b := by
  induction calls using List.reverseRecOn with
  | nil =>
    intro b hb
    obtain rfl := Option.some.inj hb
    exact ⟨rfl, fun _ => rfl, by decide⟩
  | append_singleton calls call ih =>
    intro b hb
    rw [FullRateTierBuilder.configure, List.foldlM_append] at hb
    obtain ⟨b₀, hb₀, hcall⟩ := Option.bind_eq_some_iff.mp hb
    rw [List.foldlM_cons] at hcall
    obtain ⟨b₁, hb₁, hnil⟩ := Option.bind_eq_some_iff.mp hcall
    obtain rfl := Option.some.inj hnil
    exact (ih b₀ hb₀).apply hb₁

/-- The collector of a limiter that has been built. -/
theorem gc_of_build {calls : List BuilderCall} {b : FullRateTierBuilder} {rateTier : RateTier}
    {gc : Option LazyGc} (hb : FullRateTierBuilder.new.configure calls = some b)
    (hbuild : b.build = some (rateTier, gc)) :
    gc = (if calls.any BuilderCall.setsStorage then none else BuilderCall.lastGc calls) ∧
      ∀ g, gc = some g → 0 < g.interval.asNanos := by
  have h := configured_of_configure calls b hb
  obtain ⟨rateTier', -, heq⟩ := Option.map_eq_some_iff.mp hbuild
  obtain ⟨-, rfl⟩ := Prod.mk.inj heq
  rw [← h.storage]
  by_cases hstorage : b.customStorage = true
  · rw [if_pos hstorage, if_pos hstorage]
    exact ⟨rfl, fun g hg => by simp at hg⟩
  · rw [if_neg hstorage, if_neg hstorage]
    refine ⟨h.gc (Bool.eq_false_iff.mpr hstorage), fun g hg => ?_⟩
    rw [Option.ite_none_right_eq_some] at hg
    obtain rfl := Option.some.inj hg.2
    exact h.interval_pos

/-! ## Model of the collector -/

namespace Collector

/-- A task that `GcHandle::spawn` has started, with the runtime and the call it was
    started in. -/
structure Task where
  runtime : ℕ
  startedBy : ℕ
  interval : Duration
deriving DecidableEq

/-- How far a call of `ensure_started` has come. A thread is inside a runtime or outside. -/
inductive Stage where
  | called (context : Option ℕ)
  | unset (context : Option ℕ)
  | starting (runtime : ℕ)
  | returned (context : Option ℕ)
  | panicked

/-- The handle, the calls, those that have not returned yet, the tasks that run, the
    runtimes that have shut down, and whether the limiter has been dropped. -/
structure World where
  handle : OnceLock.World Task
  calls : ℕ → Option Stage
  active : List ℕ
  tasks : List Task
  down : List ℕ
  dropped : Bool

/-- A step of a call, the end of a runtime, or the drop of the limiter by its last owner. -/
inductive Action where
  | call (id : ℕ) (context : Option ℕ)
  | look (id : ℕ)
  | tryCurrent (id : ℕ)
  | enter (id : ℕ)
  | spawn (id : ℕ)
  | shutdown (runtime : ℕ)
  | drop

/-- The call that goes on in a step. -/
def Action.ofCall : Action → Option ℕ
  | .look id => some id
  | .tryCurrent id => some id
  | .enter id => some id
  | .spawn id => some id
  | _ => none

/-- `GcHandle::spawn` (`src/gc.rs` lines 23–34) inside a runtime; `none` is its panic. The
    runtime has a time driver, so that the `interval` of the task does not panic. -/
def spawn (runtime id : ℕ) (interval : Duration) : Option Task :=
  if interval.asNanos = 0 then none else some ⟨runtime, id, interval⟩

namespace World

/-- Nothing has been called. -/
def start : World := ⟨.start, fun _ => none, [], [], [], false⟩

/-- Call `id` has come to a new stage. -/
def moved (w : World) (id : ℕ) (stage : Stage) : World :=
  { w with calls := Function.update w.calls id (some stage) }

/-- Call `id` has come to its end. -/
def ended (w : World) (id : ℕ) (stage : Stage) : World :=
  { w.moved id stage with active := w.active.erase id }

/-- `storage` (lines 168–173), or the end of `build`: a limiter without a collector does not
    call `ensure_started`. -/
def begin (w : World) (gc : Option LazyGc) (id : ℕ) (context : Option ℕ) : World :=
  match gc with
  | none => w.moved id (.returned context)
  | some _ => { w.moved id (.called context) with active := w.active ++ [id] }

/-- `self.handle.get().is_none()`. -/
def looked (w : World) (id : ℕ) (context : Option ℕ) : World :=
  if w.handle.get.isNone then w.moved id (.unset context) else w.ended id (.returned context)

/-- `Handle::try_current().is_ok()`, and the call of `get_or_init`. -/
def tried (w : World) (id : ℕ) : Option ℕ → Option World
  | none => some (w.ended id (.returned none))
  | some runtime => (w.handle.step (.call id)).map fun handle =>
    { w.moved id (.starting runtime) with handle }

/-- `get_or_init` finds a handle, or starts its initialiser. -/
def entered (w : World) (id runtime : ℕ) (handle : OnceLock.World Task) : World :=
  match handle.callers id with
  | some (.done _) => { w.ended id (.returned (some runtime)) with handle }
  | _ => { w with handle }

/-- The initialiser of `get_or_init`. A task on a runtime that has shut down does not run. -/
def spawned (w : World) (id runtime : ℕ) (interval : Duration) : Option World :=
  match spawn runtime id interval with
  | none => (w.handle.step (.fail id)).map fun handle => { w.ended id .panicked with handle }
  | some task => (w.handle.step (.init id task)).map fun handle =>
    { w.ended id (.returned (some runtime)) with
      handle
      tasks := if runtime ∈ w.down then w.tasks else w.tasks ++ [task] }

/-- The limiter is dropped, with `GcHandle::drop` (`src/gc.rs` lines 37–41). -/
def droppedAll (w : World) : World :=
  { w with
    dropped := true
    tasks := match w.handle.get with
      | some task => w.tasks.filter fun t => t ≠ task
      | none => w.tasks }

/-- One step. -/
def step (gc : Option LazyGc) (w : World) : Action → Option World
  | .call id context =>
    if (w.calls id).isNone ∧ w.dropped = false then some (w.begin gc id context) else none
  | .look id =>
    match w.calls id with
    | some (.called context) => some (w.looked id context)
    | _ => none
  | .tryCurrent id =>
    match w.calls id with
    | some (.unset context) => w.tried id context
    | _ => none
  | .enter id =>
    match w.calls id with
    | some (.starting runtime) => (w.handle.step (.enter id)).map (w.entered id runtime)
    | _ => none
  | .spawn id =>
    match w.calls id, gc with
    | some (.starting runtime), some g => w.spawned id runtime g.interval
    | _, _ => none
  | .shutdown runtime =>
    some { w with
      down := w.down ++ [runtime]
      tasks := w.tasks.filter fun t => t.runtime ≠ runtime }
  | .drop => if w.active = [] ∧ w.dropped = false then some w.droppedAll else none

end World

/-- Any interleaving of the calls. -/
def system (gc : Option LazyGc) : TransitionSystem World Action := ⟨.start, World.step gc⟩

/-! ## Steps -/

variable {gc : Option LazyGc} {w w' : World}

/-- What a step can do, with a collector whose interval is not zero. -/
inductive Move (g : LazyGc) (w : World) : Action → World → Prop where
  | call (id : ℕ) (context : Option ℕ) (h : w.calls id = none) (hd : w.dropped = false) :
      Move g w (.call id context)
        { w.moved id (.called context) with active := w.active ++ [id] }
  | found (id : ℕ) (context : Option ℕ) (h : w.calls id = some (.called context))
      (hget : w.handle.get ≠ none) : Move g w (.look id) (w.ended id (.returned context))
  | unset (id : ℕ) (context : Option ℕ) (h : w.calls id = some (.called context))
      (hget : w.handle.get = none) : Move g w (.look id) (w.moved id (.unset context))
  | outside (id : ℕ) (h : w.calls id = some (.unset none)) :
      Move g w (.tryCurrent id) (w.ended id (.returned none))
  | inside (id runtime : ℕ) (handle : OnceLock.World Task)
      (h : w.calls id = some (.unset (some runtime)))
      (hm : OnceLock.Move w.handle (.call id) handle) :
      Move g w (.tryCurrent id) { w.moved id (.starting runtime) with handle }
  | begin (id runtime : ℕ) (handle : OnceLock.World Task)
      (h : w.calls id = some (.starting runtime)) (hm : OnceLock.Move w.handle (.enter id) handle)
      (hc : handle.callers id = some .running) : Move g w (.enter id) { w with handle }
  | got (id runtime : ℕ) (handle : OnceLock.World Task) (task : Task)
      (h : w.calls id = some (.starting runtime)) (hm : OnceLock.Move w.handle (.enter id) handle)
      (hc : handle.callers id = some (.done task)) :
      Move g w (.enter id) { w.ended id (.returned (some runtime)) with handle }
  | spawn (id runtime : ℕ) (handle : OnceLock.World Task)
      (h : w.calls id = some (.starting runtime))
      (hm : OnceLock.Move w.handle (.init id ⟨runtime, id, g.interval⟩) handle) :
      Move g w (.spawn id)
        { w.ended id (.returned (some runtime)) with
          handle
          tasks := if runtime ∈ w.down then w.tasks
            else w.tasks ++ [⟨runtime, id, g.interval⟩] }
  | shutdown (runtime : ℕ) : Move g w (.shutdown runtime)
      { w with
        down := w.down ++ [runtime]
        tasks := w.tasks.filter fun t => t.runtime ≠ runtime }
  | drop (h : w.active = []) (hd : w.dropped = false) : Move g w .drop w.droppedAll

theorem move_of_step {g : LazyGc} (hpos : 0 < g.interval.asNanos) {a : Action}
    (h : w.step (some g) a = some w') : Move g w a w' := by
  cases a with
  | call id context =>
    rw [World.step, Option.ite_none_right_eq_some, Option.isNone_iff_eq_none] at h
    obtain ⟨⟨hnone, hd⟩, heq⟩ := h
    obtain rfl := Option.some.inj heq
    exact .call id context hnone hd
  | look id =>
    simp only [World.step] at h
    split at h
    · rename_i context hid
      obtain rfl := Option.some.inj h
      unfold World.looked
      by_cases hget : w.handle.get = none
      · rw [if_pos (Option.isNone_iff_eq_none.mpr hget)]
        exact .unset id context hid hget
      · rw [if_neg (fun hn => hget (Option.isNone_iff_eq_none.mp hn))]
        exact .found id context hid hget
    · simp at h
  | tryCurrent id =>
    simp only [World.step] at h
    split at h
    · rename_i context hid
      cases context with
      | none =>
        obtain rfl := Option.some.inj h
        exact .outside id hid
      | some runtime =>
        obtain ⟨handle, hh, rfl⟩ := Option.map_eq_some_iff.mp h
        exact .inside id runtime handle hid (OnceLock.move_of_step hh)
    · simp at h
  | enter id =>
    simp only [World.step] at h
    split at h
    · rename_i runtime hid
      obtain ⟨handle, hh, rfl⟩ := Option.map_eq_some_iff.mp h
      have hm := OnceLock.move_of_step hh
      rcases hm.of_enter with hc | ⟨task, hc⟩
      · have hentered : w.entered id runtime handle = { w with handle } := by
          simp only [World.entered, hc]
        rw [hentered]
        exact .begin id runtime handle hid hm hc
      · have hentered : w.entered id runtime handle =
            { w.ended id (.returned (some runtime)) with handle } := by
          simp only [World.entered, hc]
        rw [hentered]
        exact .got id runtime handle task hid hm hc
    · simp at h
  | spawn id =>
    simp only [World.step] at h
    split at h
    · rename_i runtime g' hid hg
      obtain rfl := Option.some.inj hg
      simp only [World.spawned, spawn, if_neg hpos.ne'] at h
      obtain ⟨handle, hh, rfl⟩ := Option.map_eq_some_iff.mp h
      exact .spawn id runtime handle hid (OnceLock.move_of_step hh)
    · simp at h
  | shutdown runtime =>
    obtain rfl := Option.some.inj h
    exact .shutdown runtime
  | drop =>
    rw [World.step, Option.ite_none_right_eq_some] at h
    obtain ⟨⟨hactive, hd⟩, heq⟩ := h
    obtain rfl := Option.some.inj heq
    exact .drop hactive hd

/-! ## What every step keeps -/

/-- The call has not returned. -/
def Stage.Unfinished : Stage → Prop
  | .called _ => True
  | .unset _ => True
  | .starting _ => True
  | .returned _ => False
  | .panicked => False

/-- Only a call that has not returned goes on. -/
theorem unfinished_of_step {a : Action} {id : ℕ} (ha : a.ofCall = some id)
    (hs : w.step gc a = some w') : ∃ stage, w.calls id = some stage ∧ stage.Unfinished := by
  cases a with
  | look id' =>
    obtain rfl := Option.some.inj ha
    simp only [World.step] at hs
    split at hs
    · rename_i context hid
      exact ⟨.called context, hid, trivial⟩
    · simp at hs
  | tryCurrent id' =>
    obtain rfl := Option.some.inj ha
    simp only [World.step] at hs
    split at hs
    · rename_i context hid
      exact ⟨.unset context, hid, trivial⟩
    · simp at hs
  | enter id' =>
    obtain rfl := Option.some.inj ha
    simp only [World.step] at hs
    split at hs
    · rename_i runtime hid
      exact ⟨.starting runtime, hid, trivial⟩
    · simp at hs
  | spawn id' =>
    obtain rfl := Option.some.inj ha
    simp only [World.step] at hs
    split at hs
    · rename_i runtime g hid
      exact ⟨.starting runtime, hid, trivial⟩
    · simp at hs
  | call id' context => simp [Action.ofCall] at ha
  | shutdown runtime => simp [Action.ofCall] at ha
  | drop => simp [Action.ofCall] at ha

/-- Where a call is in `ensure_started` and where it is in `get_or_init`. No call panics. -/
def Fits : Option Stage → Option (OnceLock.Caller Task) → Prop
  | some (.starting _), caller => caller = some .waiting ∨ caller = some .running
  | some (.returned _), caller => caller = none ∨ ∃ task, caller = some (.done task)
  | some .panicked, _ => False
  | _, caller => caller = none

/-- The collector runs from the one time that it is started until its runtime shuts down
    or the limiter is dropped. A call inside a runtime returns after it is started. -/
structure Lifecycle (g : LazyGc) (w : World) : Prop where
  once : OnceLock.Once w.handle
  fits : ∀ id, Fits (w.calls id) (w.handle.callers id)
  returned : ∀ id runtime, w.calls id = some (.returned (some runtime)) → w.handle.get ≠ none
  value : ∀ task, w.handle.get = some task → task.interval = g.interval ∧
    w.calls task.startedBy = some (.returned (some task.runtime))
  tasks : w.tasks =
    if w.dropped then [] else w.handle.get.toList.filter fun t => t.runtime ∉ w.down
  active : ∀ id, id ∈ w.active ↔ ∃ stage, w.calls id = some stage ∧ stage.Unfinished
  nodup : w.active.Nodup
  dropped : w.dropped = true → w.active = []

theorem lifecycle_start (g : LazyGc) : Lifecycle g .start where
  once := OnceLock.once_start
  fits _ := rfl
  returned id runtime h := by simp [World.start] at h
  value task h := by simp [World.start, OnceLock.World.start, OnceLock.World.get] at h
  tasks := rfl
  active id := by simp [World.start]
  nodup := List.nodup_nil
  dropped h := by simp [World.start] at h

variable {g : LazyGc}

theorem Lifecycle.mem_active (h : Lifecycle g w) {id : ℕ} {stage : Stage}
    (hid : w.calls id = some stage) (hu : stage.Unfinished) : id ∈ w.active :=
  (h.active id).mpr ⟨stage, hid, hu⟩

theorem Lifecycle.fits_of (h : Lifecycle g w) {id : ℕ} {stage : Option Stage}
    (hid : w.calls id = stage) : Fits stage (w.handle.callers id) := hid ▸ h.fits id

/-- A call that has not returned is not among those that have. -/
theorem ne_returned {id : ℕ} {stage : Stage} (hid : w.calls id = some stage)
    (hu : stage.Unfinished) (context : Option ℕ) : w.calls id ≠ some (.returned context) := by
  intro hc
  rw [hid] at hc
  rw [Option.some.inj hc] at hu
  exact hu

/-- While a call is in progress, the limiter has not been dropped. -/
theorem Lifecycle.not_dropped (h : Lifecycle g w) {id : ℕ} {stage : Stage}
    (hid : w.calls id = some stage) (hu : stage.Unfinished) : w.dropped = false := by
  by_contra hd
  have hmem := h.mem_active hid hu
  rw [h.dropped (Bool.not_eq_false _ ▸ hd)] at hmem
  exact List.not_mem_nil hmem

/-- A step of a call that does not start the collector. -/
theorem Lifecycle.of_moved (h : Lifecycle g w) {id : ℕ} {stage : Stage}
    {handle : OnceLock.World Task} {active : List ℕ}
    (hold : ∀ context, w.calls id ≠ some (.returned context)) (hd : w.dropped = false)
    (honce : OnceLock.Once handle) (hget : handle.get = w.handle.get)
    (hself : Fits (some stage) (handle.callers id))
    (hother : ∀ id', id' ≠ id → handle.callers id' = w.handle.callers id')
    (hreturned : ∀ runtime, stage = .returned (some runtime) → w.handle.get ≠ none)
    (hactive : id ∈ active ↔ stage.Unfinished)
    (hothers : ∀ id', id' ≠ id → (id' ∈ active ↔ id' ∈ w.active)) (hnodup : active.Nodup) :
    Lifecycle g { w.moved id stage with handle, active } where
  once := honce
  fits id' := by
    show Fits (Function.update w.calls id (some stage) id') (handle.callers id')
    by_cases hid : id' = id
    · subst hid
      rw [Function.update_self]
      exact hself
    · rw [Function.update_of_ne hid, hother id' hid]
      exact h.fits id'
  returned id' runtime hr := by
    have hr' : Function.update w.calls id (some stage) id' = _ := hr
    show handle.get ≠ none
    rw [hget]
    by_cases hid : id' = id
    · subst hid
      rw [Function.update_self] at hr'
      exact hreturned runtime (Option.some.inj hr')
    · rw [Function.update_of_ne hid] at hr'
      exact h.returned id' runtime hr'
  value task ht := by
    have ht' : handle.get = some task := ht
    rw [hget] at ht'
    obtain ⟨hinterval, hstarted⟩ := h.value task ht'
    refine ⟨hinterval, ?_⟩
    have hne : task.startedBy ≠ id := by
      rintro rfl
      exact hold _ hstarted
    show Function.update w.calls id (some stage) task.startedBy = _
    rw [Function.update_of_ne hne]
    exact hstarted
  tasks := by
    show w.tasks = if w.dropped then [] else handle.get.toList.filter fun t => t.runtime ∉ w.down
    rw [hget]
    exact h.tasks
  active id' := by
    show id' ∈ active ↔ ∃ s, Function.update w.calls id (some stage) id' = some s ∧ s.Unfinished
    by_cases hid : id' = id
    · subst hid
      rw [Function.update_self, hactive]
      simp
    · rw [Function.update_of_ne hid, hothers id' hid]
      exact h.active id'
  nodup := hnodup
  dropped hd' := by
    have hd'' : w.dropped = true := hd'
    rw [hd] at hd''
    simp at hd''

/-- A call goes on, and does not start the collector. -/
theorem Lifecycle.moved (h : Lifecycle g w) {id : ℕ} {old new : Stage}
    {handle : OnceLock.World Task} (hid : w.calls id = some old) (hu : old.Unfinished)
    (honce : OnceLock.Once handle) (hget : handle.get = w.handle.get)
    (hself : Fits (some new) (handle.callers id))
    (hother : ∀ id', id' ≠ id → handle.callers id' = w.handle.callers id')
    (hn : new.Unfinished) : Lifecycle g { w.moved id new with handle } :=
  h.of_moved (ne_returned hid hu) (h.not_dropped hid hu) honce hget hself hother
    (fun runtime hr => by rw [hr] at hn; exact hn.elim)
    ⟨fun _ => hn, fun _ => h.mem_active hid hu⟩ (fun _ _ => Iff.rfl) h.nodup

/-- A call returns. -/
theorem Lifecycle.ended (h : Lifecycle g w) {id : ℕ} {old : Stage} {context : Option ℕ}
    {handle : OnceLock.World Task} (hid : w.calls id = some old) (hu : old.Unfinished)
    (honce : OnceLock.Once handle) (hget : handle.get = w.handle.get)
    (hself : Fits (some (.returned context)) (handle.callers id))
    (hother : ∀ id', id' ≠ id → handle.callers id' = w.handle.callers id')
    (hreturned : context ≠ none → w.handle.get ≠ none) :
    Lifecycle g { w.ended id (.returned context) with handle } :=
  h.of_moved (ne_returned hid hu) (h.not_dropped hid hu) honce hget hself hother
    (fun runtime hr => hreturned (by rw [Stage.returned.inj hr]; simp))
    ⟨fun hmem => absurd hmem h.nodup.not_mem_erase, fun hf => hf.elim⟩
    (fun id' hne => List.mem_erase_of_ne hne) (h.nodup.erase id)

/-- The call starts the collector. -/
theorem Lifecycle.spawned (h : Lifecycle g w) {id runtime : ℕ} {handle : OnceLock.World Task}
    (hid : w.calls id = some (.starting runtime))
    (hm : OnceLock.Move w.handle (.init id ⟨runtime, id, g.interval⟩) handle) :
    Lifecycle g { w.ended id (.returned (some runtime)) with
      handle
      tasks := if runtime ∈ w.down then w.tasks else w.tasks ++ [⟨runtime, id, g.interval⟩] } := by
  obtain ⟨hnone, hget, hdone⟩ := h.once.get_init hm
  have hd := h.not_dropped hid trivial
  have htasks := h.tasks
  rw [hd, hnone] at htasks
  refine ⟨h.once.step hm, fun id' => ?_, fun id' runtime' _ => ?_, fun task ht => ?_, ?_,
    fun id' => ?_, h.nodup.erase id, fun hd' => ?_⟩
  · show Fits (Function.update w.calls id (some (.returned (some runtime))) id') (handle.callers id')
    by_cases hne : id' = id
    · subst hne
      rw [Function.update_self]
      exact Or.inr ⟨_, hdone⟩
    · rw [Function.update_of_ne hne, hm.callers_ne hne]
      exact h.fits id'
  · show handle.get ≠ none
    rw [hget]
    simp
  · have ht' : handle.get = some task := ht
    rw [hget] at ht'
    obtain rfl := Option.some.inj ht'
    exact ⟨rfl, Function.update_self id _ w.calls⟩
  · show (if runtime ∈ w.down then w.tasks else w.tasks ++ [⟨runtime, id, g.interval⟩]) =
      if w.dropped then [] else handle.get.toList.filter fun t => t.runtime ∉ w.down
    rw [hd, hget, htasks]
    by_cases hdown : runtime ∈ w.down
    · simp [hdown]
    · simp [hdown]
  · show id' ∈ w.active.erase id ↔
      ∃ s, Function.update w.calls id (some (.returned (some runtime))) id' = some s ∧ s.Unfinished
    by_cases hne : id' = id
    · subst hne
      rw [Function.update_self]
      simp [h.nodup.not_mem_erase, Stage.Unfinished]
    · rw [Function.update_of_ne hne, List.mem_erase_of_ne hne]
      exact h.active id'
  · have hd'' : w.dropped = true := hd'
    rw [hd] at hd''
    simp at hd''

/-- **Step lemma.** -/
theorem Lifecycle.step (h : Lifecycle g w) {a : Action} (hm : Move g w a w') :
    Lifecycle g w' := by
  cases hm with
  | call id context hnone hd =>
    have hfits := h.fits_of hnone
    have hnew : id ∉ w.active := fun hmem => by
      obtain ⟨stage, hstage, -⟩ := (h.active id).mp hmem
      rw [hnone] at hstage
      simp at hstage
    refine h.of_moved (fun context hc => by rw [hnone] at hc; simp at hc) hd h.once rfl hfits
      (fun _ _ => rfl) (fun runtime hr => by simp at hr) ⟨fun _ => trivial, fun _ => by simp⟩
      (fun id' hne => by simp [hne]) ?_
    exact List.Nodup.append h.nodup (List.nodup_singleton id) (by simpa using hnew)
  | found id context hid hget =>
    have hfits := h.fits_of hid
    exact h.ended hid trivial h.once rfl (Or.inl hfits) (fun _ _ => rfl) fun _ => hget
  | unset id context hid hget =>
    have hfits := h.fits_of hid
    exact h.moved hid trivial h.once rfl hfits (fun _ _ => rfl) trivial
  | outside id hid =>
    have hfits := h.fits_of hid
    exact h.ended hid trivial h.once rfl (Or.inl hfits) (fun _ _ => rfl) fun hne => absurd rfl hne
  | inside id runtime handle hid hm =>
    exact h.moved hid trivial (h.once.step hm) (h.once.get_eq hm (by simp)) (Or.inl hm.of_call)
      (fun id' hne => hm.callers_ne hne) trivial
  | begin id runtime handle hid hm hc =>
    have hsame : w.moved id (.starting runtime) = w := by
      rw [World.moved, Function.update_eq_self_iff.mpr hid.symm]
    have hmoved : Lifecycle g { w.moved id (.starting runtime) with handle } :=
      h.moved hid trivial (h.once.step hm) (h.once.get_eq hm (by simp)) (Or.inr hc)
        (fun id' hne => hm.callers_ne hne) trivial
    rwa [hsame] at hmoved
  | got id runtime handle task hid hm hc =>
    have honce := h.once.step hm
    have hget := h.once.get_eq hm (by simp)
    refine h.ended hid trivial honce hget (Or.inr ⟨task, hc⟩) (fun id' hne => hm.callers_ne hne)
      fun _ hnone => ?_
    rw [← hget, honce.get_of_done hc] at hnone
    simp at hnone
  | spawn id runtime handle hid hm => exact h.spawned hid hm
  | shutdown runtime =>
    refine ⟨h.once, h.fits, h.returned, h.value, ?_, h.active, h.nodup, h.dropped⟩
    show (w.tasks.filter fun t => t.runtime ≠ runtime) =
      if w.dropped then [] else w.handle.get.toList.filter fun t => t.runtime ∉ w.down ++ [runtime]
    rw [h.tasks]
    split_ifs
    · rfl
    · rw [List.filter_filter]
      apply List.filter_congr
      intro t _
      simp [and_comm]
  | drop hactive hd =>
    refine ⟨h.once, h.fits, h.returned, h.value, ?_, h.active, h.nodup, fun _ => hactive⟩
    show (match w.handle.get with
      | some task => w.tasks.filter fun t => t ≠ task
      | none => w.tasks) = []
    have htasks := h.tasks
    rw [hd] at htasks
    cases hget : w.handle.get with
    | none =>
      rw [hget] at htasks
      exact htasks
    | some task =>
      rw [htasks, hget]
      apply List.filter_eq_nil_iff.mpr
      intro t ht
      have := (List.mem_filter.mp ht).1
      simpa using this

/-! ## Progress -/

/-- A call that has not returned can go on, or it waits for one that can. -/
theorem Lifecycle.enabled (h : Lifecycle g w) (hpos : 0 < g.interval.asNanos) {id : ℕ}
    (hid : id ∈ w.active) :
    ∃ a, a.ofCall ≠ none ∧ (w.step (some g) a).isSome = true := by
  -- The call that runs the initialiser can start the task.
  have hspawn : ∀ {id' runtime}, w.calls id' = some (.starting runtime) →
      w.handle.callers id' = some .running → (w.step (some g) (.spawn id')).isSome = true := by
    intro id' runtime hstage hrun
    simp [World.step, hstage, World.spawned, spawn, hpos.ne', OnceLock.World.step, hrun]
  obtain ⟨stage, hstage, hu⟩ := (h.active id).mp hid
  have hfits := h.fits_of hstage
  cases stage with
  | called context =>
    refine ⟨.look id, by simp [Action.ofCall], ?_⟩
    simp [World.step, hstage]
  | unset context =>
    refine ⟨.tryCurrent id, by simp [Action.ofCall], ?_⟩
    have hnone : w.handle.callers id = none := hfits
    cases context with
    | none => simp [World.step, hstage, World.tried]
    | some runtime => simp [World.step, hstage, World.tried, OnceLock.World.step, hnone]
  | starting runtime =>
    rcases hfits with hwait | hrun
    · rcases h.once.enabled_of_waiting hwait with ⟨handle, hh⟩ | ⟨id', hrun⟩
      · refine ⟨.enter id, by simp [Action.ofCall], ?_⟩
        simp [World.step, hstage, hh]
      · have hfits' := h.fits id'
        rw [hrun] at hfits'
        cases hstage' : w.calls id' with
        | none =>
          rw [hstage'] at hfits'
          simp [Fits] at hfits'
        | some stage' =>
          rw [hstage'] at hfits'
          cases stage' with
          | starting runtime' =>
            exact ⟨.spawn id', by simp [Action.ofCall], hspawn hstage' hrun⟩
          | called context => simp [Fits] at hfits'
          | unset context => simp [Fits] at hfits'
          | returned context => simp [Fits] at hfits'
          | panicked => exact hfits'.elim
    · exact ⟨.spawn id, by simp [Action.ofCall], hspawn hstage hrun⟩
  | returned context => exact hu.elim
  | panicked => exact hu.elim

/-- How many steps a call may still make. -/
def World.stepsLeft (w : World) (id : ℕ) : ℕ :=
  match w.calls id, w.handle.callers id with
  | none, _ => 4
  | some (.called _), _ => 4
  | some (.unset _), _ => 3
  | some (.starting _), some .waiting => 2
  | some (.starting _), _ => 1
  | _, _ => 0

/-- Each step of a call brings it nearer to its end, and no other step takes it back. -/
theorem stepsLeft_step {a : Action} (hm : Move g w a w') (id : ℕ) :
    (if a.ofCall = some id then 1 else 0) + w'.stepsLeft id ≤ w.stepsLeft id := by
  -- A step of one call leaves the others where they are.
  have hother : ∀ (stage : Stage) {id' : ℕ} {new : World}, a.ofCall = some id' →
      new.calls = Function.update w.calls id' (some stage) →
      (∀ i, i ≠ id' → new.handle.callers i = w.handle.callers i) →
      1 + new.stepsLeft id' ≤ w.stepsLeft id' →
      (if a.ofCall = some id then 1 else 0) + new.stepsLeft id ≤ w.stepsLeft id := by
    intro stage id' new ha hcalls hcallers hself
    by_cases hid : id = id'
    · subst hid
      rw [if_pos ha]
      exact hself
    · have hne : a.ofCall ≠ some id := fun hc => hid (Option.some.inj (hc.symm.trans ha))
      rw [if_neg hne, Nat.zero_add, World.stepsLeft, World.stepsLeft, hcalls,
        Function.update_of_ne hid, hcallers id hid]
  cases hm with
  | call id' context hnone hd =>
    rw [if_neg (by simp [Action.ofCall]), Nat.zero_add]
    by_cases hid : id = id'
    · subst hid
      simp [World.stepsLeft, World.moved, hnone]
    · simp [World.stepsLeft, World.moved, Function.update_of_ne hid]
  | found id' context hid hget =>
    refine hother _ rfl rfl (fun _ _ => rfl) ?_
    simp [World.stepsLeft, World.ended, World.moved, hid]
  | unset id' context hid hget =>
    refine hother _ rfl rfl (fun _ _ => rfl) ?_
    simp [World.stepsLeft, World.moved, hid]
  | outside id' hid =>
    refine hother _ rfl rfl (fun _ _ => rfl) ?_
    simp [World.stepsLeft, World.ended, World.moved, hid]
  | inside id' runtime handle hid hm =>
    refine hother _ rfl rfl (fun i hne => hm.callers_ne hne) ?_
    simp [World.stepsLeft, World.moved, hid, hm.of_call]
  | begin id' runtime handle hid hm hc =>
    refine hother (.starting runtime) rfl
      (Function.update_eq_self_iff.mpr hid.symm).symm (fun i hne => hm.callers_ne hne) ?_
    simp [World.stepsLeft, hid, hc, hm.waiting_of_enter]
  | got id' runtime handle task hid hm hc =>
    refine hother _ rfl rfl (fun i hne => hm.callers_ne hne) ?_
    simp [World.stepsLeft, World.ended, World.moved, hid, hm.waiting_of_enter]
  | spawn id' runtime handle hid hm =>
    refine hother _ rfl rfl (fun i hne => hm.callers_ne hne) ?_
    cases hm with
    | init id b hrun => simp [World.stepsLeft, World.ended, World.moved, hid, hrun]
  | shutdown runtime => exact (Nat.zero_add _).le
  | drop hactive hd => exact (Nat.zero_add _).le

/-! ## A limiter without a collector -/

/-- No call has reached the handle. -/
structure Idle (w : World) : Prop where
  handle : w.handle = .start
  calls : ∀ id stage, w.calls id = some stage → ∃ context, stage = .returned context
  active : w.active = []
  tasks : w.tasks = []

/-- No call is on its way. -/
theorem Idle.ofCall (h : Idle w) {a : Action} (hs : w.step none a = some w') :
    a.ofCall = none := by
  by_contra hne
  obtain ⟨id, ha⟩ := Option.ne_none_iff_exists'.mp hne
  obtain ⟨stage, hid, hu⟩ := unfinished_of_step ha hs
  obtain ⟨context, rfl⟩ := h.calls id stage hid
  exact hu

theorem Idle.step (h : Idle w) {a : Action} (hs : w.step none a = some w') : Idle w' := by
  have hof := h.ofCall hs
  cases a with
  | call id context =>
    rw [World.step, Option.ite_none_right_eq_some] at hs
    obtain rfl := Option.some.inj hs.2
    refine ⟨h.handle, fun id' stage hid' => ?_, h.active, h.tasks⟩
    have hid : Function.update w.calls id (some (.returned context)) id' = some stage := hid'
    by_cases hne : id' = id
    · subst hne
      rw [Function.update_self] at hid
      exact ⟨context, (Option.some.inj hid).symm⟩
    · rw [Function.update_of_ne hne] at hid
      exact h.calls id' stage hid
  | shutdown runtime =>
    obtain rfl := Option.some.inj hs
    refine ⟨h.handle, h.calls, h.active, ?_⟩
    show w.tasks.filter _ = []
    rw [h.tasks]
    rfl
  | drop =>
    rw [World.step, Option.ite_none_right_eq_some] at hs
    obtain rfl := Option.some.inj hs.2
    refine ⟨h.handle, h.calls, h.active, ?_⟩
    show (match w.handle.get with
      | some task => w.tasks.filter fun t => t ≠ task
      | none => w.tasks) = []
    rw [h.handle, h.tasks]
    rfl
  | look id => simp [Action.ofCall] at hof
  | tryCurrent id => simp [Action.ofCall] at hof
  | enter id => simp [Action.ofCall] at hof
  | spawn id => simp [Action.ofCall] at hof

/-! ## Runs -/

theorem lifecycle_of_run (hpos : 0 < g.interval.asNanos) {as : List Action}
    (hr : (system (some g)).run .start as = some w) : Lifecycle g w :=
  TransitionSystem.run_invariant (M := system (some g))
    (fun _ _ _ h hs => h.step (move_of_step hpos hs)) (lifecycle_start g) hr

theorem idle_of_run {as : List Action} : ∀ w : World, Idle w →
    (system none).run w as = some w' → Idle w' ∧ ∀ a ∈ as, a.ofCall = none := by
  induction as with
  | nil =>
    intro w h hr
    obtain rfl := Option.some.inj hr
    exact ⟨h, fun a ha => absurd ha List.not_mem_nil⟩
  | cons a as ih =>
    intro w h hr
    obtain ⟨u, hu, hrest⟩ := TransitionSystem.run_cons_eq_some.mp hr
    obtain ⟨hidle, hlater⟩ := ih u (h.step hu) hrest
    exact ⟨hidle, List.forall_mem_cons.mpr ⟨h.ofCall hu, hlater⟩⟩

theorem idle_start : Idle .start :=
  ⟨rfl, fun _ _ h => by simp [World.start] at h, rfl, rfl⟩

/-- A call makes at most four steps. -/
theorem steps_le (hpos : 0 < g.interval.asNanos) (id : ℕ) (as : List Action) :
    ∀ w : World, (system (some g)).run w as = some w' →
      (as.countP fun a => a.ofCall = some id) + w'.stepsLeft id ≤ w.stepsLeft id := by
  induction as with
  | nil =>
    intro w hr
    obtain rfl := Option.some.inj hr
    exact (Nat.zero_add _).le
  | cons a as ih =>
    intro w hr
    obtain ⟨u, hu, hrest⟩ := TransitionSystem.run_cons_eq_some.mp hr
    have hstep := stepsLeft_step (move_of_step hpos hu) id
    have hlater := ih u hrest
    rw [List.countP_cons]
    simp only [decide_eq_true_eq]
    omega

end Collector

/-- **Lifecycle.** Let a limiter be built after any calls of the builder. It has a collector
    unless a custom storage has been set or the last word about the collector was
    `disable_gc`, and its interval is the last one set, or a minute, and never zero. Let
    calls of `ensure_started` from any threads interleave, with runtimes that have a time
    driver and may shut down. Then at most one collector is ever started, with this
    interval, by a call inside its runtime; each call inside a runtime comes back after
    that; the collector runs until its runtime shuts down or the limiter is dropped; no
    call panics; each one is at its end after four steps of its own, and as long as one
    has not returned, some call can go on. -/
theorem collector_lifecycle {calls : List BuilderCall} {b : FullRateTierBuilder}
    {rateTier : RateTier} {gc : Option LazyGc} (as : List Collector.Action) (w : Collector.World)
    (hb : FullRateTierBuilder.new.configure calls = some b)
    (hbuild : b.build = some (rateTier, gc))
    (hr : (Collector.system gc).run .start as = some w) :
    gc = (if calls.any BuilderCall.setsStorage then none else BuilderCall.lastGc calls) ∧
      (∀ g, gc = some g → 0 < g.interval.asNanos) ∧
      w.handle.inits.length ≤ 1 ∧
      (∀ x ∈ w.handle.inits, gc = some ⟨x.2.interval⟩ ∧
        w.calls x.2.startedBy = some (.returned (some x.2.runtime))) ∧
      (gc ≠ none → ∀ id runtime, w.calls id = some (.returned (some runtime)) →
        w.handle.inits ≠ []) ∧
      w.tasks = (if w.dropped then []
        else (w.handle.inits.map Prod.snd).filter fun t => t.runtime ∉ w.down) ∧
      (∀ id, w.calls id ≠ some .panicked) ∧
      (∀ id, (as.countP fun a => a.ofCall = some id) ≤ 4) ∧
      ∀ id ∈ w.active, ∃ a, a.ofCall ≠ none ∧ (w.step gc a).isSome = true := by
  obtain ⟨hgc, hpos⟩ := gc_of_build hb hbuild
  refine ⟨hgc, hpos, ?_⟩
  cases gc with
  | none =>
    obtain ⟨h, hnone⟩ := Collector.idle_of_run _ Collector.idle_start hr
    have hinits : w.handle.inits = [] := by
      rw [h.handle]
      rfl
    refine ⟨by simp [hinits], by simp [hinits], fun hne => absurd rfl hne, by simp [h.tasks, hinits],
      fun id hp => ?_, fun id => ?_, by simp [h.active]⟩
    · obtain ⟨context, hc⟩ := h.calls id _ hp
      simp at hc
    · rw [List.countP_eq_zero.mpr fun a ha => by simp [hnone a ha]]
      exact Nat.zero_le 4
  | some g =>
    have h := Collector.lifecycle_of_run (hpos g rfl) hr
    have hlength : w.handle.inits.length = w.handle.get.toList.length := by
      rw [← h.once.inits, List.length_map]
    refine ⟨?_, fun x hx => ?_, fun _ id runtime hid hnil => ?_, ?_, fun id hp => ?_, fun id => ?_,
      fun id hid => h.enabled (hpos g rfl) hid⟩
    · rw [hlength]
      cases w.handle.get <;> simp
    · have hmem : x.2 ∈ w.handle.get.toList := by
        rw [← h.once.inits]
        exact List.mem_map_of_mem hx
      obtain ⟨hinterval, hstarted⟩ := h.value x.2 (Option.mem_toList.mp hmem)
      rw [hinterval]
      exact ⟨rfl, hstarted⟩
    · have hinits := h.once.inits
      rw [hnil] at hinits
      exact h.returned id runtime hid (Option.toList_eq_nil_iff.mp hinits.symm)
    · rw [h.once.inits]
      exact h.tasks
    · exact h.fits_of hp
    · exact (Nat.le_add_right _ _).trans (Collector.steps_le (hpos g rfl) id as _ hr)

/-- A tier, and a collection every five seconds. -/
def fiveSecondCalls : List BuilderCall :=
  [.tier "free" ⟨2, .fromSecs 1, .two_per_second⟩, .disableGc, .gcInterval (.fromSecs 5)]

theorem free_accepted :
    Tiers.Accepts [("free", (⟨2, .fromSecs 1, .two_per_second⟩ : Quota))] none where
  nonempty := List.cons_ne_nil _ _
  default_mem _ h := by simp at h

/-- The limiter that is built after them. -/
def freeLimiter : RateTier :=
  ⟨[("free", ⟨2, .fromSecs 1, .two_per_second⟩)], none, .useDefault, .useDefault, free_accepted⟩

/-- Two threads in one runtime find the handle unset. The first one starts the task while
    the second one waits, and then the limiter is dropped. -/
def racingCalls : List Collector.Action :=
  [.call 0 (some 7), .call 1 (some 7), .look 0, .look 1, .tryCurrent 0, .tryCurrent 1, .enter 0,
    .spawn 0, .enter 1, .drop]

/-- One task has been started, and none is left. -/
theorem collector_lifecycle_racing :
    ∃ w, (Collector.system (some ⟨.fromSecs 5⟩)).run .start racingCalls = some w ∧
      w.handle.inits.length ≤ 1 ∧ w.handle.inits ≠ [] ∧ w.tasks = [] := by
  obtain ⟨b, hb, hbuild⟩ : ∃ b, FullRateTierBuilder.new.configure fiveSecondCalls = some b ∧
      b.build = some (freeLimiter, some ⟨.fromSecs 5⟩) :=
    ⟨_, rfl, Option.map_eq_some_iff.mpr ⟨freeLimiter, dif_pos free_accepted, rfl⟩⟩
  obtain ⟨w, hr, hreturned, hdropped⟩ :
      ∃ w, (Collector.system (some ⟨.fromSecs 5⟩)).run .start racingCalls = some w ∧
        w.calls 1 = some (.returned (some 7)) ∧ w.dropped = true := ⟨_, rfl, rfl, rfl⟩
  obtain ⟨-, -, hone, -, hstarted, htasks, -⟩ := collector_lifecycle racingCalls w hb hbuild hr
  refine ⟨w, hr, hone, hstarted (by simp) 1 7 hreturned, ?_⟩
  rw [htasks, hdropped]
  rfl

end TowerRateTier
