import TowerRateTier.Storage.Breaker
import TowerRateTier.Storage.MemoryPrune

/-!
# The answers of the circuit breaker over whole runs

Specification: the primary, and a bare `MemoryStorage` that is never pruned and
only sees the requests that the fallback has answered since the breaker last
closed. `Reference.check` gives the answer of the one or of the other.

* `breaker_answers_eq_reference`: calls made one after another get these
  answers, whatever the primary does; with a primary that always fails they are
  those of `MemoryStorage`, and with one that never fails those of the primary.
-/

namespace TowerRateTier

open Breaker CircuitBreaker

/-! ## Specification -/

/-- The state of the breaker, that of the primary, and the requests answered by the
    fallback since the breaker last closed. -/
structure Reference (π : Type) where
  state : State
  primary : π
  fed : List CheckRequest

namespace Reference

/-- The answer of a `MemoryStorage` that has seen nothing but `fed`. -/
def bareAnswer (fed : List CheckRequest) (r : CheckRequest) : Decision :=
  ((MemoryStorage.new.afterChecks fed).check r).2

/-- A request that is admitted to the primary and succeeds there gets its answer, and
    every other one that of the bare storage. -/
def check {π : Type} (P : Storage π) (policy : Policy) (s : Reference π) (r : CheckRequest) :
    Reference π × Decision :=
  match admitState s.state r.now with
  | (state, none) => (⟨state, s.primary, s.fed ++ [r]⟩, bareAnswer s.fed r)
  | (state, some route) =>
    let (primary, result) := P.check s.primary r
    let new := afterCall state route (outcomeOf result) r.now policy
    match result with
    | .ok decision =>
      (⟨new, primary, if state = .halfOpen ∧ new.isClosed then [] else s.fed⟩, decision)
    | .error _ => (⟨new, primary, s.fed ++ [r]⟩, bareAnswer s.fed r)

/-- The answers to a sequence of requests. -/
def answers {π : Type} (P : Storage π) (policy : Policy) :
    Reference π → List CheckRequest → List Decision
  | _, [] => []
  | s, r :: rs => (s.check P policy r).2 :: answers P policy (s.check P policy r).1 rs

end Reference

/-! ## Simulation -/

variable {π : Type} {P : Storage π} {cb : CircuitBreaker} {s : Reference π} {policy : Policy}

/-- The breaker is in the state of the reference, and its fallback is the bare storage,
    up to entries whose TAT is before `now`. -/
structure Follows (policy : Policy) (now : Nanos) (cb : CircuitBreaker) (s : Reference π) :
    Prop where
  policy_eq : cb.policy = policy
  state_eq : cb.state = s.state
  fallback : MemoryStorage.Pruned now cb.fallback (MemoryStorage.new.afterChecks s.fed)

theorem afterChecks_concat (st : MemoryStorage) (rs : List CheckRequest) (r : CheckRequest) :
    st.afterChecks (rs ++ [r]) = ((st.afterChecks rs).check r).1 := by
  rw [MemoryStorage.afterChecks, List.foldl_append]
  rfl

/-- The fallback answers like the bare storage. -/
theorem checkFallback_eq (cb : CircuitBreaker) {fed : List CheckRequest} {r : CheckRequest}
    (h : MemoryStorage.Pruned r.now cb.fallback (MemoryStorage.new.afterChecks fed)) :
    (cb.checkFallback r).2 = Reference.bareAnswer fed r ∧
      MemoryStorage.Pruned r.now (cb.checkFallback r).1.fallback
        (MemoryStorage.new.afterChecks (fed ++ [r])) := by
  rw [afterChecks_concat]
  exact h.check

/-- Pruning, due or not, is not noticed. -/
theorem pruned_pruneFallbackIfDue (cb : CircuitBreaker) {now : Nanos} {bare : MemoryStorage}
    (h : MemoryStorage.Pruned now cb.fallback bare) :
    MemoryStorage.Pruned now (cb.pruneFallbackIfDue now).fallback bare := by
  unfold pruneFallbackIfDue
  split_ifs
  · exact h.retainActive
  · exact h

/-- The prune of a probe is not noticed either. -/
theorem pruned_probe (cb : CircuitBreaker) (route : Route) {now : Nanos} {bare : MemoryStorage}
    (h : MemoryStorage.Pruned now cb.fallback bare) :
    (if route = .probe then cb.pruneFallback now else cb).state = cb.state ∧
      (if route = .probe then cb.pruneFallback now else cb).policy = cb.policy ∧
      MemoryStorage.Pruned now (if route = .probe then cb.pruneFallback now else cb).fallback
        bare := by
  split_ifs
  · exact ⟨rfl, rfl, h.retainActive⟩
  · exact ⟨rfl, rfl, h⟩

/-- What the code does with the answer of the primary. -/
theorem settle_follows {fed : List CheckRequest} {r : CheckRequest} (route : Route)
    (result : StorageResult)
    (h : MemoryStorage.Pruned r.now cb.fallback (MemoryStorage.new.afterChecks fed)) :
    let new := afterCall cb.state route (outcomeOf result) r.now cb.policy
    let fed' := match result with
      | .ok _ => if cb.state = .halfOpen ∧ new.isClosed then [] else fed
      | .error _ => fed ++ [r]
    let answer := match result with
      | .ok decision => decision
      | .error _ => Reference.bareAnswer fed r
    (cb.settle route r result).1.state = new ∧ (cb.settle route r result).1.policy = cb.policy ∧
      MemoryStorage.Pruned r.now (cb.settle route r result).1.fallback
        (MemoryStorage.new.afterChecks fed') ∧
      (cb.settle route r result).2.2 = .ok answer := by
  intro new fed' answer
  cases result with
  | ok decision =>
    rw [settle_ok]
    refine ⟨rfl, rfl, ?_, rfl⟩
    show MemoryStorage.Pruned r.now
      (if cb.state = .halfOpen ∧ new.isClosed then cb.fallback.clear else cb.fallback)
      (MemoryStorage.new.afterChecks fed')
    by_cases hc : cb.state = .halfOpen ∧ new.isClosed
    · have hfed : fed' = [] := if_pos hc
      rw [if_pos hc, hfed]
      exact MemoryStorage.Pruned.refl _ _
    · have hfed : fed' = fed := if_neg hc
      rw [if_neg hc, hfed]
      exact h
  | error error =>
    have hpruned : MemoryStorage.Pruned r.now (cb.pruneAfterFailure new r.now).fallback
        (MemoryStorage.new.afterChecks fed) := by
      unfold pruneAfterFailure
      split_ifs
      · exact h.retainActive
      · exact pruned_pruneFallbackIfDue { cb with state := new } h
    obtain ⟨hanswer, hafter⟩ := checkFallback_eq _ hpruned
    rw [settle_error]
    exact ⟨pruneAfterFailure_state cb new r, pruneAfterFailure_policy cb new r, hafter,
      congrArg Except.ok hanswer⟩

/-- **One call** gets the answer of the reference. -/
theorem Follows.check {r : CheckRequest} (h : Follows policy r.now cb s) :
    Follows policy r.now (cb.checkAndUpdate P s.primary r).1 (s.check P policy r).1 ∧
      (cb.checkAndUpdate P s.primary r).2.1 = (s.check P policy r).1.primary ∧
      (cb.checkAndUpdate P s.primary r).2.2.2 = .ok (s.check P policy r).2 := by
  obtain ⟨rfl, hstate, hfallback⟩ := h
  unfold checkAndUpdate Reference.check admitCall
  rw [hstate]
  cases hadmit : admitState s.state r.now with
  | mk state route =>
    cases route with
    | none =>
      obtain ⟨hanswer, hafter⟩ := checkFallback_eq { cb with state } hfallback
      exact ⟨⟨rfl, rfl, hafter⟩, rfl, congrArg Except.ok hanswer⟩
    | some route =>
      let cb' := if route = .probe then ({ cb with state } : CircuitBreaker).pruneFallback r.now
        else { cb with state }
      obtain ⟨hs', hp', hf'⟩ := pruned_probe { cb with state } route hfallback
      obtain ⟨hs, hpolicy, hf, ha⟩ :=
        settle_follows route (P.check s.primary r).2 hf'
      rw [hs', hp'] at hs hf
      rw [hp'] at hpolicy
      simp only
      cases hresult : (P.check s.primary r).2 with
      | ok decision =>
        rw [hresult] at hs hpolicy hf ha
        exact ⟨⟨hpolicy, hs, hf⟩, rfl, ha⟩
      | error error =>
        rw [hresult] at hs hpolicy hf ha
        exact ⟨⟨hpolicy, hs, hf⟩, rfl, ha⟩

/-! ## Runs -/

theorem Follows.mono {now now' : Nanos} (h : Follows policy now cb s) (hle : now ≤ now') :
    Follows policy now' cb s :=
  ⟨h.policy_eq, h.state_eq, h.fallback.mono hle⟩

/-- A breaker with an empty fallback, before its first request. -/
theorem follows_start (cb : CircuitBreaker) (primary : π) (now : Nanos)
    (h : cb.fallback = MemoryStorage.new) : Follows cb.policy now cb ⟨cb.state, primary, []⟩ where
  policy_eq := rfl
  state_eq := rfl
  fallback := by rw [h]; exact MemoryStorage.Pruned.refl _ _

/-- The answers of the breaker are those of the reference. -/
theorem Follows.answers_eq (rs : List CheckRequest) :
    ∀ {cb : CircuitBreaker} {s : Reference π} {now : Nanos}, Follows policy now cb s →
      (∀ r ∈ rs, now ≤ r.now) → rs.Pairwise (fun a b => a.now ≤ b.now) →
      (CircuitBreaker.storage P).answers (cb, s.primary) rs = (s.answers P policy rs).map .ok := by
  induction rs with
  | nil => intro cb s now _ _ _; rfl
  | cons r rs ih =>
    intro cb s now h hnow htime
    rw [List.pairwise_cons] at htime
    obtain ⟨hnext, hprimary, hanswer⟩ := (h.mono (hnow r List.mem_cons_self)).check (P := P)
    have hrest := ih hnext htime.1 htime.2
    rw [← hprimary] at hrest
    rw [Storage.answers, Reference.answers, List.map_cons]
    exact congrArg₂ List.cons hanswer hrest

/-- With a primary that always fails, the bare storage sees every request. -/
theorem answers_of_always_failing (hfail : ∀ primary r, ∃ error, (P.check primary r).2 = .error error)
    (rs : List CheckRequest) : ∀ s : Reference π,
      s.answers P policy rs = (MemoryStorage.new.afterChecks s.fed).answers rs := by
  induction rs with
  | nil => intro s; rfl
  | cons r rs ih =>
    intro s
    have hstep : (s.check P policy r).2 = Reference.bareAnswer s.fed r ∧
        (s.check P policy r).1.fed = s.fed ++ [r] := by
      unfold Reference.check
      cases admitState s.state r.now with
      | mk state route =>
        cases route with
        | none => exact ⟨rfl, rfl⟩
        | some route =>
          obtain ⟨error, he⟩ := hfail s.primary r
          simp only [he, and_self]
    rw [Reference.answers, MemoryStorage.answers, ih, hstep.1, hstep.2, afterChecks_concat]
    rfl

/-- With a primary that never fails, a closed breaker stays closed, passes its answers on
    and feeds nothing to the fallback. -/
theorem check_of_never_failing (policy : Policy)
    (hok : ∀ primary r, ∃ decision, (P.check primary r).2 = .ok decision)
    {s : Reference π} (hclosed : s.state.isClosed = true) (r : CheckRequest) :
    (s.check P policy r).1.state.isClosed = true ∧ (s.check P policy r).1.fed = s.fed ∧
      (s.check P policy r).1.primary = (P.check s.primary r).1 ∧
      (P.check s.primary r).2 = .ok (s.check P policy r).2 := by
  obtain ⟨decision, hd⟩ := hok s.primary r
  unfold Reference.check
  cases hs : s.state with
  | closed failures =>
    simp [hd, outcomeOf, State.isClosed]
  | openUntil t => rw [hs] at hclosed; cases hclosed
  | halfOpen => rw [hs] at hclosed; cases hclosed

theorem answers_of_never_failing
    (hok : ∀ primary r, ∃ decision, (P.check primary r).2 = .ok decision)
    (rs : List CheckRequest) :
    ∀ {cb : CircuitBreaker} {s : Reference π} {now : Nanos}, Follows policy now cb s →
      (∀ r ∈ rs, now ≤ r.now) → rs.Pairwise (fun a b => a.now ≤ b.now) →
      s.state.isClosed = true → s.fed = [] →
      (s.answers P policy rs).map .ok = P.answers s.primary rs ∧
        ∀ k, ((CircuitBreaker.storage P).after (cb, s.primary) rs).1.fallback.state k = none := by
  induction rs with
  | nil =>
    intro cb s now h _ _ _ hfed
    refine ⟨rfl, fun k => ?_⟩
    have hk := h.fallback k
    rw [hfed] at hk
    rcases hk with hk | ⟨hk, -⟩
    · exact hk
    · exact hk
  | cons r rs ih =>
    intro cb s now h hnow htime hclosed hfed
    rw [List.pairwise_cons] at htime
    obtain ⟨hnext, hprimary, -⟩ := (h.mono (hnow r List.mem_cons_self)).check (P := P)
    obtain ⟨hclosed', hfed', hprimary', hanswer⟩ :=
      check_of_never_failing policy hok hclosed r
    obtain ⟨hrest, hempty⟩ := ih hnext htime.1 htime.2 hclosed' (hfed'.trans hfed)
    rw [hprimary'] at hrest
    rw [← hprimary] at hempty
    rw [Reference.answers, Storage.answers, List.map_cons, hrest, hanswer]
    exact ⟨rfl, hempty⟩

/-- The answers of `MemoryStorage` as a backend. -/
theorem memoryStorage_answers (st : MemoryStorage) (rs : List CheckRequest) :
    MemoryStorage.storage.answers st rs = (st.answers rs).map .ok := by
  induction rs generalizing st with
  | nil => rfl
  | cons r rs ih =>
    rw [Storage.answers, MemoryStorage.answers, List.map_cons]
    exact congrArg₂ List.cons rfl (ih _)

/-- **Answers over whole runs.** Calls made one after another at nondecreasing times, on a
    breaker with an empty fallback, never return a storage error and get the answers of
    the reference. If the primary always fails, these are the answers of `MemoryStorage`
    alone. If it never fails and the breaker starts closed, they are those of the primary
    alone, and the fallback stays empty. -/
theorem breaker_answers_eq_reference {π : Type} (P : Storage π) (cb : CircuitBreaker)
    (primary : π) (rs : List CheckRequest) (hempty : cb.fallback = MemoryStorage.new)
    (htime : rs.Pairwise fun a b => a.now ≤ b.now) :
    (CircuitBreaker.storage P).answers (cb, primary) rs =
        ((⟨cb.state, primary, []⟩ : Reference π).answers P cb.policy rs).map .ok ∧
      ((∀ primary r, ∃ error, (P.check primary r).2 = .error error) →
        (CircuitBreaker.storage P).answers (cb, primary) rs =
          MemoryStorage.storage.answers MemoryStorage.new rs) ∧
      ((∀ primary r, ∃ decision, (P.check primary r).2 = .ok decision) →
        cb.state.isClosed = true →
        (CircuitBreaker.storage P).answers (cb, primary) rs = P.answers primary rs ∧
          ∀ k, ((CircuitBreaker.storage P).after (cb, primary) rs).1.fallback.state k = none) := by
  have hstart := follows_start cb primary 0 hempty
  have hnow : ∀ r ∈ rs, (0 : Nanos) ≤ r.now :=
    fun r _ => UInt64.le_iff_toNat_le.mpr (Nat.zero_le _)
  have hmain := hstart.answers_eq (P := P) rs hnow htime
  refine ⟨hmain, fun hfail => ?_, fun hok hclosed => ?_⟩
  · rw [hmain, answers_of_always_failing hfail, memoryStorage_answers]
    rfl
  · obtain ⟨hanswers, hstays⟩ := answers_of_never_failing hok rs hstart hnow htime hclosed rfl
    exact ⟨hmain.trans hanswers, hstays⟩

/-- A primary that gives the answers of a list, and then fails. -/
def scripted : Storage (List StorageResult) where
  checkAndUpdate
    | [], _, _, _, _ => ([], .error ⟨"down"⟩)
    | answer :: rest, _, _, _, _ => (rest, answer)

/-- Three requests of a user with a quota of two per 20 s, the last one of cost 2. -/
def shortOutage : List CheckRequest :=
  [(1, 0), (1, 1000000000), (2, 7000000000)].map fun p =>
    ⟨⟨"u", "free"⟩, ⟨2, .fromSecs 20, Or.inr ⟨by decide, by decide⟩⟩, p.1, p.2⟩

/-- An answer of the primary, and then an outage: the fallback admits the second request,
    and not the third. -/
theorem shortOutage_answers :
    (CircuitBreaker.storage scripted).answers
        (CircuitBreaker.new MemoryStorage.new, [.ok (.ok ⟨2, 1, .fromSecs 10⟩)]) shortOutage =
      [.ok (.ok ⟨2, 1, .fromSecs 10⟩), .ok (.ok ⟨2, 1, .fromSecs 10⟩),
        .ok (.error ⟨2, .fromSecs 4, .fromSecs 4⟩)] :=
  (breaker_answers_eq_reference scripted (CircuitBreaker.new MemoryStorage.new)
    [.ok (.ok ⟨2, 1, .fromSecs 10⟩)] shortOutage rfl (by decide)).1.trans (by decide)

end TowerRateTier
