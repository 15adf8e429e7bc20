import TowerRateTier.Lib.TransitionSystem
import Mathlib.Data.List.Nodup
import Mathlib.Logic.Function.Basic

/-!
# Compare-exchange loops

Calls of any number of threads on one shared cell. An update reads the cell and
then tries to exchange what it has read for a new value; if the cell holds something
else by then, it starts again from what the cell holds now. The exchange can also
fail without a reason. Stores and loads are single steps.

* `Linear.step`: what every step keeps.
* `linear_of_run`: in every run the calls take effect one after another, each at
  most once, between its beginning and its return, and an update has as many
  failed attempts as others have made it fail, at most.
* `Linear.place_lt_place`: a call that has returned before another one begins
  comes before it.
-/

namespace CompareExchange

/-! ## The cell and its calls -/

/-- What a call does to the cell. -/
inductive Operation (α : Type*) where
  | update (f : α → α)
  | store (a : α)
  | load

/-- The cell after an operation. -/
def Operation.apply {α : Type*} (a : α) : Operation α → α
  | .update f => f a
  | .store b => b
  | .load => a

/-- How far a call has come: the number of commits at which it has read the cell, its own
    place among the commits, and their number when it returns. -/
inductive Phase (α : Type*) where
  | called
  | holding (expected : α) (readAt : ℕ)
  | committed (found : α) (place : ℕ)
  | returned (found : α) (place moment : ℕ)

/-- A call, with the number of commits when it began and that of the exchanges that found
    another value in the cell. -/
structure Call (ι α : Type*) where
  request : ι
  calledAt : ℕ
  retries : ℕ
  phase : Phase α

/-- The cell, the calls by their numbers, and those that have taken effect, the first one
    first. -/
structure World (ι α : Type*) where
  cell : α
  calls : ℕ → Option (Call ι α)
  commits : List (ℕ × ι)

/-- A step of some call. -/
inductive Action (ι : Type*) where
  | call (id : ℕ) (a : ι)
  | read (id : ℕ)
  | exchange (id : ℕ) (spurious : Bool)
  | access (id : ℕ)
  | finish (id : ℕ)

variable {ι α : Type*}

namespace World

/-- No call yet. -/
def start (init : α) : World ι α := ⟨init, fun _ => none, []⟩

/-- Call `id` is now `c`. -/
def put (w : World ι α) (id : ℕ) (c : Call ι α) : World ι α :=
  { w with calls := Function.update w.calls id (some c) }

/-- Call `id` takes effect. -/
def commit (w : World ι α) (id : ℕ) (c : Call ι α) (next : α) : World ι α where
  cell := next
  calls := (w.put id { c with phase := .committed w.cell w.commits.length }).calls
  commits := w.commits ++ [(id, c.request)]

theorem put_self (w : World ι α) (id : ℕ) (c : Call ι α) : (w.put id c).calls id = some c :=
  Function.update_self _ _ _

theorem put_ne (w : World ι α) {id id' : ℕ} (h : id' ≠ id) (c : Call ι α) :
    (w.put id c).calls id' = w.calls id' := Function.update_of_ne h _ _

variable [DecidableEq α] (sem : ι → Operation α)

/-- One step. -/
def step (w : World ι α) : Action ι → Option (World ι α)
  | .call id a =>
    if (w.calls id).isNone then some (w.put id ⟨a, w.commits.length, 0, .called⟩) else none
  | .read id => (w.calls id).bind fun c =>
    match c.phase, sem c.request with
    | .called, .update _ => some (w.put id { c with phase := .holding w.cell w.commits.length })
    | _, _ => none
  | .exchange id spurious => (w.calls id).bind fun c =>
    match c.phase, sem c.request with
    | .holding expected _, .update f =>
      if w.cell = expected then
        if spurious then some (w.put id { c with phase := .holding w.cell w.commits.length })
        else some (w.commit id c (f expected))
      else some (w.put id
        { c with retries := c.retries + 1, phase := .holding w.cell w.commits.length })
    | _, _ => none
  | .access id => (w.calls id).bind fun c =>
    match c.phase, sem c.request with
    | .called, .store a => some (w.commit id c a)
    | .called, .load => some (w.commit id c w.cell)
    | _, _ => none
  | .finish id => (w.calls id).bind fun c =>
    match c.phase with
    | .committed found place =>
      some (w.put id { c with phase := .returned found place w.commits.length })
    | _ => none

end World

variable (sem : ι → Operation α)

/-- Any interleaving of calls on a cell. -/
def system [DecidableEq α] (init : α) : TransitionSystem (World ι α) (Action ι) :=
  ⟨World.start init, World.step sem⟩

/-! ## Steps -/

/-- What a step can do. -/
inductive Move (w : World ι α) : Action ι → World ι α → Prop where
  | call (id : ℕ) (a : ι) (hid : w.calls id = none) :
      Move w (.call id a) (w.put id ⟨a, w.commits.length, 0, .called⟩)
  | read (id : ℕ) (c : Call ι α) (hid : w.calls id = some c) (hp : c.phase = .called) :
      Move w (.read id) (w.put id { c with phase := .holding w.cell w.commits.length })
  | spurious (id : ℕ) (c : Call ι α) (readAt : ℕ) (hid : w.calls id = some c)
      (hp : c.phase = .holding w.cell readAt) :
      Move w (.exchange id true) (w.put id { c with phase := .holding w.cell w.commits.length })
  | exchange (id : ℕ) (c : Call ι α) (readAt : ℕ) (hid : w.calls id = some c)
      (hp : c.phase = .holding w.cell readAt) :
      Move w (.exchange id false) (w.commit id c ((sem c.request).apply w.cell))
  | retry (id : ℕ) (b : Bool) (c : Call ι α) (expected : α) (readAt : ℕ)
      (hid : w.calls id = some c) (hp : c.phase = .holding expected readAt)
      (hne : w.cell ≠ expected) : Move w (.exchange id b) (w.put id
        { c with retries := c.retries + 1, phase := .holding w.cell w.commits.length })
  | access (id : ℕ) (c : Call ι α) (hid : w.calls id = some c) (hp : c.phase = .called) :
      Move w (.access id) (w.commit id c ((sem c.request).apply w.cell))
  | finish (id : ℕ) (c : Call ι α) (found : α) (place : ℕ) (hid : w.calls id = some c)
      (hp : c.phase = .committed found place) : Move w (.finish id)
        (w.put id { c with phase := .returned found place w.commits.length })

variable {sem} {w w' : World ι α}

theorem move_of_step [DecidableEq α] {act : Action ι} (h : w.step sem act = some w') : Move sem w act w' := by
  cases act with
  | call id a =>
    simp only [World.step] at h
    split_ifs at h with hid
    obtain rfl := Option.some.inj h
    exact .call id a (Option.isNone_iff_eq_none.mp hid)
  | read id =>
    obtain ⟨c, hid, h⟩ := Option.bind_eq_some_iff.mp h
    split at h
    · rename_i hp _
      obtain rfl := Option.some.inj h
      exact .read id c hid hp
    · cases h
  | exchange id spurious =>
    obtain ⟨c, hid, h⟩ := Option.bind_eq_some_iff.mp h
    split at h
    · rename_i expected readAt f hp hsem
      by_cases hcell : w.cell = expected
      · subst hcell
        rw [if_pos rfl] at h
        cases spurious with
        | true =>
          obtain rfl := Option.some.inj h
          exact .spurious id c readAt hid hp
        | false =>
          obtain rfl := Option.some.inj h
          have happly : f w.cell = (sem c.request).apply w.cell := by
            rw [hsem]
            rfl
          rw [happly]
          exact .exchange id c readAt hid hp
      · rw [if_neg hcell] at h
        obtain rfl := Option.some.inj h
        exact .retry id spurious c expected readAt hid hp hcell
    · cases h
  | access id =>
    obtain ⟨c, hid, h⟩ := Option.bind_eq_some_iff.mp h
    split at h
    · rename_i a hp hsem
      obtain rfl := Option.some.inj h
      have happly : a = (sem c.request).apply w.cell := by
        rw [hsem]
        rfl
      rw [happly]
      exact .access id c hid hp
    · rename_i hp hsem
      obtain rfl := Option.some.inj h
      have happly : w.commit id c w.cell = w.commit id c ((sem c.request).apply w.cell) := by
        rw [hsem]
        rfl
      rw [happly]
      exact .access id c hid hp
    · cases h
  | finish id =>
    obtain ⟨c, hid, h⟩ := Option.bind_eq_some_iff.mp h
    split at h
    · rename_i found place hp
      obtain rfl := Option.some.inj h
      exact .finish id c found place hid hp
    · cases h

theorem put_eq_some {id id' : ℕ} {c c' : Call ι α} (h : (w.put id' c').calls id = some c) :
    id = id' ∧ c' = c ∨ w.calls id = some c := by
  by_cases hne : id = id'
  · subst hne
    exact Or.inl ⟨rfl, Option.some.inj ((w.put_self id c').symm.trans h)⟩
  · exact Or.inr ((w.put_ne hne c').symm.trans h)

/-- A call keeps its request; a new one has been called. -/
theorem Move.request_eq {act : Action ι} (h : Move sem w act w') {id : ℕ} {c : Call ι α}
    (hc : w'.calls id = some c) :
    act = .call id c.request ∨ ∃ c', w.calls id = some c' ∧ c'.request = c.request := by
  have hkept : ∀ {id' c₀ c₁}, w.calls id' = some c₀ → (w.put id' c₁).calls id = some c →
      c₀.request = c₁.request → ∃ c', w.calls id = some c' ∧ c'.request = c.request := by
    intro id' c₀ c₁ hid hc hreq
    rcases put_eq_some hc with ⟨rfl, rfl⟩ | hold
    · exact ⟨c₀, hid, hreq⟩
    · exact ⟨c, hold, rfl⟩
  cases h with
  | call id' a hid =>
    rcases put_eq_some hc with ⟨rfl, rfl⟩ | hold
    · exact Or.inl rfl
    · exact Or.inr ⟨c, hold, rfl⟩
  | read id' c' hid hp => exact Or.inr (hkept hid hc rfl)
  | spurious id' c' readAt hid hp => exact Or.inr (hkept hid hc rfl)
  | exchange id' c' readAt hid hp => exact Or.inr (hkept hid hc rfl)
  | retry id' b c' expected readAt hid hp hne => exact Or.inr (hkept hid hc rfl)
  | access id' c' hid hp => exact Or.inr (hkept hid hc rfl)
  | finish id' c' found place hid hp => exact Or.inr (hkept hid hc rfl)

/-- What a run asks for has been called in it. -/
theorem called_of_run [DecidableEq α] {init : α} {id : ℕ} {c : Call ι α} {as : List (Action ι)} :
    ∀ {w : World ι α}, (system sem init).run w as = some w' → w'.calls id = some c →
      Action.call id c.request ∈ as ∨ ∃ c', w.calls id = some c' ∧ c'.request = c.request := by
  induction as with
  | nil =>
    intro w hr hc
    obtain rfl := Option.some.inj hr
    exact Or.inr ⟨c, hc, rfl⟩
  | cons act as ih =>
    intro w hr hc
    obtain ⟨u, hu, hrest⟩ := TransitionSystem.run_cons_eq_some.mp hr
    rcases ih hrest hc with hlater | ⟨c', hc', hreq⟩
    · exact Or.inl (List.mem_cons_of_mem _ hlater)
    · rcases (move_of_step hu).request_eq hc' with rfl | ⟨c'', hc'', hreq'⟩
      · rw [hreq]
        exact Or.inl List.mem_cons_self
      · exact Or.inr ⟨c'', hc'', hreq'.trans hreq⟩

/-! ## Sequential runs -/

variable (sem)

/-- The cell after some calls, one after another. -/
def after (init : α) (commits : List (ℕ × ι)) : α :=
  commits.foldl (fun a x => (sem x.2).apply a) init

theorem after_concat (init : α) (commits : List (ℕ × ι)) (x : ℕ × ι) :
    after sem init (commits ++ [x]) = (sem x.2).apply (after sem init commits) := by
  rw [after, List.foldl_append]
  rfl

/-! ## What every step keeps -/

/-- Call `c` has taken effect at `place`, after its beginning and all its failed attempts,
    and it found what the calls before it had left. -/
structure CommittedAt (init : α) (commits : List (ℕ × ι)) (id : ℕ) (c : Call ι α) (found : α)
    (place : ℕ) : Prop where
  le_place : c.calledAt + c.retries ≤ place
  commit : commits[place]? = some (id, c.request)
  found : found = after sem init (commits.take place)

/-- A phase of call `c` agrees with the commits. -/
def PhaseLinear (init : α) (commits : List (ℕ × ι)) (id : ℕ) (c : Call ι α) : Phase α → Prop
  | .called => id ∉ commits.map Prod.fst ∧ c.calledAt + c.retries ≤ commits.length
  | .holding expected readAt =>
    id ∉ commits.map Prod.fst ∧ c.calledAt + c.retries ≤ readAt ∧ readAt ≤ commits.length ∧
      expected = after sem init (commits.take readAt)
  | .committed found place => CommittedAt sem init commits id c found place
  | .returned found place moment =>
    CommittedAt sem init commits id c found place ∧ place < moment ∧ moment ≤ commits.length

/-- The calls have taken effect one after another, each at most once. -/
structure Linear (init : α) (w : World ι α) : Prop where
  cell : w.cell = after sem init w.commits
  nodup : (w.commits.map Prod.fst).Nodup
  known : ∀ x ∈ w.commits, ∃ c, w.calls x.1 = some c ∧ c.request = x.2
  calls : ∀ id c, w.calls id = some c → PhaseLinear sem init w.commits id c c.phase

variable {sem} {init : α} {commits : List (ℕ × ι)} {id : ℕ} {c : Call ι α}

theorem CommittedAt.place_lt {found : α} {place : ℕ}
    (h : CommittedAt sem init commits id c found place) : place < commits.length := by
  obtain ⟨hlt, -⟩ := List.getElem?_eq_some_iff.mp h.commit
  exact hlt

theorem CommittedAt.append {found : α} {place : ℕ}
    (h : CommittedAt sem init commits id c found place) (more : List (ℕ × ι)) :
    CommittedAt sem init (commits ++ more) id c found place := by
  have hlt := h.place_lt
  refine ⟨h.le_place, ?_, ?_⟩
  · rw [List.getElem?_append_left hlt]
    exact h.commit
  · rw [List.take_append_of_le_length (by omega)]
    exact h.found

/-- The commit of another call changes nothing for a call. -/
theorem PhaseLinear.append {p : Phase α} (h : PhaseLinear sem init commits id c p) {id' : ℕ}
    (hne : id ≠ id') (a : ι) : PhaseLinear sem init (commits ++ [(id', a)]) id c p := by
  have hids : id ∉ commits.map Prod.fst → id ∉ (commits ++ [(id', a)]).map Prod.fst := by
    intro hn
    simp only [List.map_append, List.map_cons, List.map_nil, List.mem_append, List.mem_singleton]
    exact fun hm => hm.elim hn hne
  have hlen : (commits ++ [(id', a)]).length = commits.length + 1 := List.length_append
  cases p with
  | called => exact ⟨hids h.1, by have := h.2; omega⟩
  | holding expected readAt =>
    obtain ⟨hn, hle, hread, he⟩ := h
    refine ⟨hids hn, hle, by omega, ?_⟩
    rw [List.take_append_of_le_length hread]
    exact he
  | committed found place => exact CommittedAt.append h _
  | returned found place moment =>
    obtain ⟨hc, hlt, hle⟩ := h
    exact ⟨hc.append _, hlt, by omega⟩

/-- A call that only changes its phase. -/
theorem Linear.put (h : Linear sem init w) {c' : Call ι α}
    (hknown : ∀ x ∈ w.commits, x.1 = id → c'.request = x.2)
    (hc : PhaseLinear sem init w.commits id c' c'.phase) : Linear sem init (w.put id c') := by
  refine ⟨h.cell, h.nodup, fun x hx => ?_, fun i c₀ hi => ?_⟩
  · by_cases hid : x.1 = id
    · refine ⟨c', ?_, hknown x hx hid⟩
      rw [hid]
      exact w.put_self id c'
    · rw [w.put_ne hid]
      exact h.known x hx
  · by_cases hid : i = id
    · subst hid
      obtain rfl := Option.some.inj ((w.put_self i c').symm.trans hi)
      exact hc
    · rw [w.put_ne hid] at hi
      exact h.calls i c₀ hi

/-- A call that takes effect. -/
theorem Linear.commit (h : Linear sem init w) (hid : w.calls id = some c)
    (hn : id ∉ w.commits.map Prod.fst) (hle : c.calledAt + c.retries ≤ w.commits.length) :
    Linear sem init (w.commit id c ((sem c.request).apply w.cell)) := by
  refine ⟨?_, ?_, fun x hx => ?_, fun i c₀ hi => ?_⟩
  · show (sem c.request).apply w.cell = after sem init (w.commits ++ [(id, c.request)])
    rw [after_concat, h.cell]
  · show ((w.commits ++ [(id, c.request)]).map Prod.fst).Nodup
    rw [List.map_append]
    refine List.nodup_append.mpr ⟨h.nodup, List.nodup_singleton _, fun a ha b hb hab => hn ?_⟩
    have hid : b = id := List.mem_singleton.mp hb
    rwa [← hid, ← hab]
  · rcases List.mem_append.mp hx with hx | hx
    · obtain ⟨c₀, hc₀, hreq⟩ := h.known x hx
      have hne : x.1 ≠ id := by
        intro he
        exact hn (he ▸ List.mem_map_of_mem hx)
      exact ⟨c₀, (w.put_ne hne _).trans hc₀, hreq⟩
    · rw [List.mem_singleton] at hx
      subst hx
      exact ⟨_, w.put_self id _, rfl⟩
  · by_cases he : i = id
    · subst he
      obtain rfl := Option.some.inj ((w.put_self i _).symm.trans hi)
      refine ⟨hle, ?_, ?_⟩
      · show (w.commits ++ [(i, c.request)])[w.commits.length]? = _
        rw [List.getElem?_append_right (Nat.le_refl _), Nat.sub_self]
        rfl
      · show w.cell = after sem init ((w.commits ++ [(i, c.request)]).take w.commits.length)
        rw [List.take_append_of_le_length (Nat.le_refl _), List.take_length, h.cell]
    · have hold : w.calls i = some c₀ := (w.put_ne he _).symm.trans hi
      exact (h.calls i c₀ hold).append he _

/-- A call that has not taken effect is not among the commits. -/
theorem Linear.not_mem (h : Linear sem init w) (hid : w.calls id = none) :
    ∀ x ∈ w.commits, x.1 ≠ id := by
  rintro x hx rfl
  obtain ⟨c, hc, -⟩ := h.known x hx
  rw [hid] at hc
  cases hc

/-- **Step.** -/
theorem Linear.step [DecidableEq α] (h : Linear sem init w) {act : Action ι}
    (hs : w.step sem act = some w') : Linear sem init w' := by
  have hrequest : ∀ id c, w.calls id = some c → ∀ x ∈ w.commits, x.1 = id → c.request = x.2 := by
    rintro id c hid x hx rfl
    obtain ⟨c₀, hc₀, hreq⟩ := h.known x hx
    obtain rfl := Option.some.inj (hid.symm.trans hc₀)
    exact hreq
  cases move_of_step hs with
  | call id a hid =>
    have hn : id ∉ w.commits.map Prod.fst := by
      intro hm
      obtain ⟨x, hx, he⟩ := List.mem_map.mp hm
      exact h.not_mem hid x hx he
    exact h.put (fun x hx he => absurd he (h.not_mem hid x hx)) ⟨hn, Nat.le_refl _⟩
  | read id c hid hp =>
    have hc := h.calls id c hid
    rw [hp] at hc
    refine h.put (hrequest id c hid) ⟨hc.1, hc.2, Nat.le_refl _, ?_⟩
    rw [List.take_length, h.cell]
  | spurious id c readAt hid hp =>
    have hc := h.calls id c hid
    rw [hp] at hc
    refine h.put (hrequest id c hid) ⟨hc.1, Nat.le_trans hc.2.1 hc.2.2.1, Nat.le_refl _, ?_⟩
    rw [List.take_length, h.cell]
  | exchange id c readAt hid hp =>
    have hc := h.calls id c hid
    rw [hp] at hc
    exact h.commit hid hc.1 (Nat.le_trans hc.2.1 hc.2.2.1)
  | retry id b c expected readAt hid hp hne =>
    have hc := h.calls id c hid
    rw [hp] at hc
    obtain ⟨hn, hle, hread, he⟩ := hc
    -- The cell holds another value, so another call has taken effect since it was read.
    have hlt : readAt < w.commits.length := by
      refine Nat.lt_of_le_of_ne hread fun heq => hne ?_
      rw [he, heq, List.take_length, h.cell]
    refine h.put (hrequest id c hid) ⟨hn, ?_, Nat.le_refl _, ?_⟩
    · show c.calledAt + (c.retries + 1) ≤ w.commits.length
      omega
    · rw [List.take_length, h.cell]
  | access id c hid hp =>
    have hc := h.calls id c hid
    rw [hp] at hc
    exact h.commit hid hc.1 hc.2
  | finish id c found place hid hp =>
    have hc := h.calls id c hid
    rw [hp] at hc
    exact h.put (hrequest id c hid)
      ⟨⟨hc.le_place, hc.commit, hc.found⟩, CommittedAt.place_lt hc, Nat.le_refl _⟩

/-- **Linearizability.** -/
theorem linear_of_run [DecidableEq α] {as : List (Action ι)}
    (hr : (system sem init).run (World.start init) as = some w) : Linear sem init w := by
  have hstep : ∀ s act s', Linear sem init s → (system sem init).step s act = some s' →
      Linear sem init s' := fun s act s' h hs => h.step hs
  refine TransitionSystem.run_invariant hstep ?_ hr
  refine ⟨rfl, List.nodup_nil, fun x hx => ?_, fun id c hc => ?_⟩
  · exact absurd hx List.not_mem_nil
  · cases hc

/-- A call takes effect after it began. -/
theorem Linear.calledAt_le (h : Linear sem init w) (hid : w.calls id = some c) {place : ℕ} {a : ι}
    (hx : w.commits[place]? = some (id, a)) : c.calledAt ≤ place := by
  have hmem : id ∈ w.commits.map Prod.fst := List.mem_map_of_mem (List.mem_of_getElem? hx)
  have hc := h.calls id c hid
  have hcommitted : ∀ {found place'}, CommittedAt sem init w.commits id c found place' →
      c.calledAt ≤ place := by
    intro found place' hat
    have hlt : place < (w.commits.map Prod.fst).length := by
      rw [List.length_map]
      exact (List.getElem?_eq_some_iff.mp hx).1
    have hsame : (w.commits.map Prod.fst)[place]? = (w.commits.map Prod.fst)[place']? := by
      rw [List.getElem?_map, List.getElem?_map, hx, hat.commit]
      rfl
    have heq := (List.getElem?_inj hlt h.nodup).mp hsame
    have := hat.le_place
    omega
  cases hp : c.phase with
  | called =>
    rw [hp] at hc
    exact absurd hmem hc.1
  | holding expected readAt =>
    rw [hp] at hc
    exact absurd hmem hc.1
  | committed found place' =>
    rw [hp] at hc
    exact hcommitted hc
  | returned found place' moment =>
    rw [hp] at hc
    exact hcommitted hc.1

/-- A call that returned before another one began comes before it. -/
theorem Linear.place_lt_place (h : Linear sem init w) {id' : ℕ} {c' : Call ι α}
    {found found' : α} {place place' moment moment' : ℕ} (hid : w.calls id = some c)
    (hp : c.phase = .returned found place moment) (hid' : w.calls id' = some c')
    (hp' : c'.phase = .returned found' place' moment') (hle : moment ≤ c'.calledAt) :
    place < place' := by
  have hc := h.calls id c hid
  have hc' := h.calls id' c' hid'
  rw [hp] at hc
  rw [hp'] at hc'
  have := hc.2.1
  have := hc'.1.le_place
  omega

end CompareExchange
