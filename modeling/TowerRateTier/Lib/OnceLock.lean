import Mathlib.Data.Nat.Notation
import Mathlib.Logic.Function.Basic

/-!
# Cells that are initialised once

`get_or_init` of any number of threads on one cell. The first thread that finds the
cell empty runs its initialiser; the others wait until it has ended. An initialiser
that panics leaves the cell empty, and another thread may try again.

* `Once.step`: what every step keeps: a value comes from one initialiser, and every
  thread that has returned has got it.
* `Once.get_eq`, `Once.get_init`: the value is given once, and it stays.
* `enabled_of_waiting`: a thread that waits does so for one that runs.
-/

namespace OnceLock

/-! ## Cells -/

/-- A cell, empty, being initialised by a thread, or full. -/
inductive Cell (β : Type*) where
  | empty
  | running (id : ℕ)
  | full (b : β)

/-- How far a call of `get_or_init` has come. -/
inductive Caller (β : Type*) where
  | waiting
  | running
  | done (b : β)

/-- The cell, the calls, and the initialisers that have come to their end, with the
    values they have given. -/
structure World (β : Type*) where
  cell : Cell β
  callers : ℕ → Option (Caller β)
  inits : List (ℕ × β)

/-- A step of a call: it begins, finds the cell in some state, or its initialiser gives a
    value or panics. -/
inductive Action (β : Type*) where
  | call (id : ℕ)
  | enter (id : ℕ)
  | init (id : ℕ) (b : β)
  | fail (id : ℕ)

variable {β : Type*}

/-- The call that makes the step. -/
def Action.id : Action β → ℕ
  | .call id => id
  | .enter id => id
  | .init id _ => id
  | .fail id => id

namespace World

/-- An empty cell. -/
def start : World β := ⟨.empty, fun _ => none, []⟩

/-- `get`. -/
def get (w : World β) : Option β :=
  match w.cell with
  | .full b => some b
  | _ => none

/-- Call `id` is now `c`. -/
def put (w : World β) (id : ℕ) (c : Option (Caller β)) : World β :=
  { w with callers := Function.update w.callers id c }

theorem put_self (w : World β) (id : ℕ) (c : Option (Caller β)) : (w.put id c).callers id = c :=
  Function.update_self _ _ _

theorem put_ne (w : World β) {id id' : ℕ} (h : id' ≠ id) (c : Option (Caller β)) :
    (w.put id c).callers id' = w.callers id' := Function.update_of_ne h _ _

/-- A call that waits looks at the cell. -/
def entered (w : World β) (id : ℕ) : Option (World β) :=
  match w.cell with
  | .empty => some { w.put id (some .running) with cell := .running id }
  | .running _ => none
  | .full b => some (w.put id (some (.done b)))

/-- One step. -/
def step (w : World β) : Action β → Option (World β)
  | .call id => if (w.callers id).isNone then some (w.put id (some .waiting)) else none
  | .enter id =>
    match w.callers id with
    | some .waiting => w.entered id
    | _ => none
  | .init id b =>
    match w.callers id with
    | some .running =>
      some { w.put id (some (.done b)) with cell := .full b, inits := w.inits ++ [(id, b)] }
    | _ => none
  | .fail id =>
    match w.callers id with
    | some .running => some { w.put id none with cell := .empty }
    | _ => none

end World

/-! ## Steps -/

variable {w w' : World β}

/-- What a step can do. -/
inductive Move (w : World β) : Action β → World β → Prop where
  | call (id : ℕ) (h : w.callers id = none) : Move w (.call id) (w.put id (some .waiting))
  | begin (id : ℕ) (h : w.callers id = some .waiting) (hc : w.cell = .empty) :
      Move w (.enter id) { w.put id (some .running) with cell := .running id }
  | got (id : ℕ) (b : β) (h : w.callers id = some .waiting) (hc : w.cell = .full b) :
      Move w (.enter id) (w.put id (some (.done b)))
  | init (id : ℕ) (b : β) (h : w.callers id = some .running) : Move w (.init id b)
      { w.put id (some (.done b)) with cell := .full b, inits := w.inits ++ [(id, b)] }
  | fail (id : ℕ) (h : w.callers id = some .running) :
      Move w (.fail id) { w.put id none with cell := .empty }

theorem move_of_step {a : Action β} (h : w.step a = some w') : Move w a w' := by
  cases a with
  | call id =>
    rw [World.step, Option.ite_none_right_eq_some, Option.isNone_iff_eq_none] at h
    obtain ⟨hnone, heq⟩ := h
    obtain rfl := Option.some.inj heq
    exact .call id hnone
  | enter id =>
    simp only [World.step] at h
    split at h
    · rename_i hwait
      unfold World.entered at h
      split at h
      · rename_i hc
        obtain rfl := Option.some.inj h
        exact .begin id hwait hc
      · simp at h
      · rename_i b hc
        obtain rfl := Option.some.inj h
        exact .got id b hwait hc
    · simp at h
  | init id b =>
    simp only [World.step] at h
    split at h
    · rename_i hrun
      obtain rfl := Option.some.inj h
      exact .init id b hrun
    · simp at h
  | fail id =>
    simp only [World.step] at h
    split at h
    · rename_i hrun
      obtain rfl := Option.some.inj h
      exact .fail id hrun
    · simp at h

/-- The cell is being initialised by the call that runs, it is full with the value of the
    one initialiser that has ended, and what a call has got is this value. -/
structure Once (w : World β) : Prop where
  running : ∀ id, w.callers id = some .running ↔ w.cell = .running id
  inits : w.inits.map Prod.snd = w.get.toList
  done : ∀ id b, w.callers id = some (.done b) → w.cell = .full b

theorem once_start : Once (World.start : World β) where
  running id := by simp [World.start]
  inits := rfl
  done id b h := by simp [World.start] at h

/-- While a call runs, no value has been given. -/
theorem Once.get_eq_none (h : Once w) {id : ℕ} (hrun : w.callers id = some .running) :
    w.get = none ∧ w.inits = [] := by
  have hnone : w.get = none := by rw [World.get, (h.running id).mp hrun]
  have hinits := h.inits
  rw [hnone] at hinits
  exact ⟨hnone, List.map_eq_nil_iff.mp hinits⟩

/-- A step that changes one call and the cell. -/
theorem Once.of_put (h : Once w) {id : ℕ} {c : Option (Caller β)} {cell : Cell β}
    {inits : List (ℕ × β)} (hself : c = some .running ↔ cell = .running id)
    (hother : ∀ id', id' ≠ id → (w.cell = .running id' ↔ cell = .running id'))
    (hfull : ∀ b, w.cell = .full b → cell = .full b)
    (hdone : ∀ b, c = some (.done b) → cell = .full b)
    (hinits : inits.map Prod.snd = (World.get ⟨cell, (w.put id c).callers, inits⟩).toList) :
    Once ⟨cell, (w.put id c).callers, inits⟩ where
  running id' := by
    show (w.put id c).callers id' = _ ↔ _
    by_cases hid : id' = id
    · subst hid
      rw [w.put_self]
      exact hself
    · rw [w.put_ne hid, h.running id']
      exact hother id' hid
  inits := hinits
  done id' b hd := by
    have hd' : (w.put id c).callers id' = some (.done b) := hd
    by_cases hid : id' = id
    · subst hid
      rw [w.put_self] at hd'
      exact hdone b hd'
    · rw [w.put_ne hid] at hd'
      exact hfull b (h.done id' b hd')

/-- **Step lemma.** -/
theorem Once.step (h : Once w) {a : Action β} (hm : Move w a w') : Once w' := by
  cases hm with
  | call id hnone =>
    have hne : w.cell ≠ .running id := fun hc => by
      rw [(h.running id).mpr hc] at hnone
      simp at hnone
    exact h.of_put ⟨fun hc => by simp at hc, fun hc => absurd hc hne⟩ (fun _ _ => Iff.rfl)
      (fun _ hc => hc) (fun b hc => by simp at hc) h.inits
  | begin id hwait hc =>
    have hinits := h.inits
    rw [World.get, hc] at hinits
    refine h.of_put ⟨fun _ => rfl, fun _ => rfl⟩ (fun id' hid => ?_) (fun b hfull => ?_)
      (fun b hd => by simp at hd) hinits
    · rw [hc]
      simp [Ne.symm hid]
    · rw [hc] at hfull
      simp at hfull
  | got id b hwait hc =>
    refine h.of_put ⟨fun hd => by simp at hd, fun hrun => ?_⟩ (fun _ _ => Iff.rfl)
      (fun _ hfull => hfull) (fun b' hd => ?_) h.inits
    · rw [hc] at hrun
      simp at hrun
    · rw [← Caller.done.inj (Option.some.inj hd)]
      exact hc
  | init id b hrun =>
    have hcell := (h.running id).mp hrun
    refine h.of_put ⟨fun hd => by simp at hd, fun hc => by simp at hc⟩ (fun id' hid => ?_)
      (fun b' hfull => ?_) (fun b' hd => ?_) ?_
    · rw [hcell]
      simp [Ne.symm hid]
    · rw [hcell] at hfull
      simp at hfull
    · rw [Caller.done.inj (Option.some.inj hd)]
    · rw [(h.get_eq_none hrun).2]
      rfl
  | fail id hrun =>
    have hcell := (h.running id).mp hrun
    refine h.of_put ⟨fun hd => by simp at hd, fun hc => by simp at hc⟩ (fun id' hid => ?_)
      (fun b' hfull => ?_) (fun b' hd => by simp at hd) ?_
    · rw [hcell]
      simp [Ne.symm hid]
    · rw [hcell] at hfull
      simp at hfull
    · show w.inits.map Prod.snd = []
      rw [(h.get_eq_none hrun).2]
      rfl

/-- A step changes one call. -/
theorem Move.callers_ne {a : Action β} (hm : Move w a w') {id' : ℕ} (hid : id' ≠ a.id) :
    w'.callers id' = w.callers id' := by
  cases hm with
  | call id hnone => exact w.put_ne hid _
  | begin id hwait hc => exact w.put_ne hid _
  | got id b hwait hc => exact w.put_ne hid _
  | init id b hrun => exact w.put_ne hid _
  | fail id hrun => exact w.put_ne hid _

/-- Only a call that waits looks at the cell. -/
theorem Move.waiting_of_enter {id : ℕ} (hm : Move w (.enter id) w') :
    w.callers id = some .waiting := by
  cases hm with
  | begin id hwait hc => exact hwait
  | got id b hwait hc => exact hwait

/-- A new call waits. -/
theorem Move.of_call {id : ℕ} (hm : Move w (.call id) w') : w'.callers id = some .waiting := by
  cases hm with
  | call id hnone => exact w.put_self id _

/-- A call that looks at the cell runs its initialiser, or it has got the value. -/
theorem Move.of_enter {id : ℕ} (hm : Move w (.enter id) w') :
    w'.callers id = some .running ∨ ∃ b, w'.callers id = some (.done b) := by
  cases hm with
  | begin id hwait hc => exact Or.inl (w.put_self id _)
  | got id b hwait hc => exact Or.inr ⟨b, w.put_self id _⟩

/-- Only an initialiser that ends changes what the cell holds. -/
theorem Once.get_eq (h : Once w) {a : Action β} (hm : Move w a w')
    (ha : ∀ id b, a ≠ .init id b) : w'.get = w.get := by
  cases hm with
  | call id hnone => rfl
  | begin id hwait hc =>
    show none = w.get
    rw [World.get, hc]
  | got id b hwait hc => rfl
  | init id b hrun => exact absurd rfl (ha id b)
  | fail id hrun => exact (h.get_eq_none hrun).1.symm

/-- It does so once. -/
theorem Once.get_init (h : Once w) {id : ℕ} {b : β} (hm : Move w (.init id b) w') :
    w.get = none ∧ w'.get = some b ∧ w'.callers id = some (.done b) := by
  cases hm with
  | init id b hrun => exact ⟨(h.get_eq_none hrun).1, rfl, w.put_self id _⟩

/-- A call has got what the cell holds. -/
theorem Once.get_of_done (h : Once w) {id : ℕ} {b : β} (hd : w.callers id = some (.done b)) :
    w.get = some b := by
  rw [World.get, h.done id b hd]

/-- A call that waits finds the cell empty or full, or another call runs. -/
theorem Once.enabled_of_waiting (h : Once w) {id : ℕ} (hwait : w.callers id = some .waiting) :
    (∃ w', w.step (.enter id) = some w') ∨ ∃ id', w.callers id' = some .running := by
  have hstep : w.step (.enter id) = w.entered id := by simp only [World.step, hwait]
  rw [hstep, World.entered]
  cases hc : w.cell with
  | empty => exact Or.inl ⟨_, rfl⟩
  | running id' => exact Or.inr ⟨id', (h.running id').mpr hc⟩
  | full b => exact Or.inl ⟨_, rfl⟩

end OnceLock
