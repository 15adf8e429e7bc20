import TowerRateTier.Storage.Breaker

/-!
# The size of the fallback

Calls made one after another, each of which may be cancelled: its future may be
dropped before it is polled, or while the primary has not answered. The fallback
is pruned when the breaker opens, by every probe that is polled, and after any
other failure once `open_for` has passed since the last time. No other step
prunes it; on the open path the time until the next probe bounds the wait.

* `Bounded`: the invariant that links `last_pruned`, the state and the TATs.
* `fallback_bounded`: what the fallback can hold after it has answered a call.
-/

namespace TowerRateTier

open Breaker

/-! ## Calls that may be cancelled -/

/-- How a call ends: with an answer of the primary, or dropped before its first poll, or
    while the primary has not answered. A call that the breaker answers from the
    fallback has ended before its future is polled. -/
inductive CallEnd where
  | answered (result : StorageResult)
  | unpolled
  | pending

namespace CircuitBreaker

/-- A call on its own, and whether the fallback has answered it. -/
def runCall (cb : CircuitBreaker) (r : CheckRequest) (ending : CallEnd) : CircuitBreaker × Bool :=
  match cb.admitCall r.now with
  | (cb, none) => ((cb.checkFallback r).1, true)
  | (cb, some route) =>
    match ending with
    | .unpolled => ({ cb with state := dropProbe cb.state route r.now }, false)
    | .pending =>
      let cb := if route = .probe then cb.pruneFallback r.now else cb
      ({ cb with state := dropProbe cb.state route r.now }, false)
    | .answered result =>
      let cb := if route = .probe then cb.pruneFallback r.now else cb
      ((cb.settle route r result).1, !result.isOk)

/-- The breaker after a sequence of calls. -/
def runCalls (cb : CircuitBreaker) (calls : List (CheckRequest × CallEnd)) : CircuitBreaker :=
  calls.foldl (fun cb call => (cb.runCall call.1 call.2).1) cb

/-- A new breaker with an empty fallback. -/
def start (policy : Policy) : CircuitBreaker := ⟨MemoryStorage.new, policy, .closed 0, 0⟩

/-- A call that is not cancelled, for any primary. -/
theorem runCall_answered {π : Type} (P : Storage π) (cb : CircuitBreaker) (primary : π)
    (r : CheckRequest) :
    (cb.runCall r (.answered (P.check primary r).2)).1 = (cb.checkAndUpdate P primary r).1 := by
  unfold runCall checkAndUpdate
  rcases cb.admitCall r.now with ⟨cb', route⟩
  cases route with
  | none => rfl
  | some route => rfl

/-! ## The fallback -/

/-- The last prune was not after `now`, and every TAT is not before it. -/
structure Swept (now : Nanos) (cb : CircuitBreaker) : Prop where
  pruned : cb.lastPruned.toNat ≤ now.toNat
  tats : ∀ k tat, cb.fallback.state k = some tat → cb.lastPruned.toNat ≤ tat.toNat

variable {cb : CircuitBreaker} {now : Nanos} {r : CheckRequest}

theorem Swept.mono (h : Swept now cb) {now' : Nanos} (hle : now.toNat ≤ now'.toNat) :
    Swept now' cb := ⟨h.pruned.trans hle, h.tats⟩

theorem Swept.setState (h : Swept now cb) (state : State) : Swept now { cb with state := state } :=
  ⟨h.pruned, h.tats⟩

theorem Swept.clear (h : Swept now cb) : Swept now { cb with fallback := cb.fallback.clear } :=
  ⟨h.pruned, fun _ _ hk => by cases hk⟩

theorem swept_pruneFallback (cb : CircuitBreaker) (now : Nanos) :
    Swept now (cb.pruneFallback now) := by
  refine ⟨le_rfl, fun k tat hk => ?_⟩
  have hle := (Option.filter_eq_some_iff.mp hk).2
  rw [decide_eq_true_iff, UInt64.le_iff_toNat_le] at hle
  exact hle

/-- After a prune that was due, or not yet, the last one is less than `open_for` ago. -/
theorem Swept.pruneFallbackIfDue (h : Swept now cb) :
    Swept now (cb.pruneFallbackIfDue now) ∧
      now.toNat < (cb.pruneFallbackIfDue now).lastPruned.toNat + cb.policy.openFor.toNat ∧
      cb.lastPruned.toNat ≤ (cb.pruneFallbackIfDue now).lastPruned.toNat := by
  have hpos := cb.policy.openFor_pos
  unfold CircuitBreaker.pruneFallbackIfDue
  by_cases hd : cb.policy.openFor ≤ now.saturatingSub cb.lastPruned
  · rw [if_pos hd]
    refine ⟨swept_pruneFallback cb now, ?_, h.pruned⟩
    show now.toNat < now.toNat + _
    omega
  · rw [if_neg hd]
    rw [UInt64.le_iff_toNat_le, UInt64.toNat_saturatingSub] at hd
    exact ⟨h, by omega, le_rfl⟩

/-- So it is after a failure of the primary. -/
theorem Swept.pruneAfterFailure (h : Swept now cb) (new : State) :
    Swept now (cb.pruneAfterFailure new now) ∧
      now.toNat < (cb.pruneAfterFailure new now).lastPruned.toNat + cb.policy.openFor.toNat ∧
      cb.lastPruned.toNat ≤ (cb.pruneAfterFailure new now).lastPruned.toNat := by
  have hpos := cb.policy.openFor_pos
  unfold CircuitBreaker.pruneAfterFailure
  split_ifs
  · refine ⟨swept_pruneFallback _ now, ?_, h.pruned⟩
    show now.toNat < now.toNat + _
    omega
  · exact (h.setState new).pruneFallbackIfDue

/-- A check at `now` writes no TAT before `now`. -/
theorem Swept.checkFallback (h : Swept r.now cb) : Swept r.now (cb.checkFallback r).1 := by
  refine ⟨h.pruned, fun k tat hk => ?_⟩
  have hk' : (cb.fallback.check r).1.state k = some tat := hk
  by_cases he : r.key = k
  · subst he
    rw [MemoryStorage.check_state_self] at hk'
    by_cases ha : Admits (cb.fallback.state r.key) r.now r.quota.emissionIntervalNanos
        r.quota.burstOffsetNanos r.cost
    · rw [(MemoryStorage.checkEntry_ok ha).1] at hk'
      obtain rfl := Option.some.inj hk'
      exact h.pruned.trans (now_le_newTat _ _ _ _)
    · rw [(MemoryStorage.checkEntry_error ha).1] at hk'
      exact h.tats _ _ hk'
  · rw [MemoryStorage.check_state_ne _ r he] at hk'
    exact h.tats _ _ hk'

/-! ## The invariant -/

/-- Between two calls: no probe is in flight, and the fallback is swept; the next probe is
    already due, or will be at most `open_for` after the last prune. -/
structure Bounded (now : Nanos) (cb : CircuitBreaker) : Prop where
  swept : Swept now cb
  not_halfOpen : cb.state ≠ .halfOpen
  due : ∀ t, cb.state = .openUntil t → t.toNat ≤ now.toNat ∨
    t.toNat ≤ cb.lastPruned.toNat + cb.policy.openFor.toNat

/-- What holds after a call at `now` that the fallback has answered. -/
def RecentlyPruned (now : Nanos) (cb : CircuitBreaker) : Prop :=
  now.toNat < cb.lastPruned.toNat + cb.policy.openFor.toNat

theorem bounded_start (policy : Policy) : Bounded 0 (start policy) where
  swept := ⟨le_rfl, fun _ _ hk => by cases hk⟩
  not_halfOpen h := by cases h
  due t h := by cases h

theorem Bounded.of_closed (failures : UInt32) (h : Swept now cb)
    (hstate : cb.state = .closed failures) : Bounded now cb :=
  ⟨h, fun hh => (by cases hstate.symm.trans hh), fun _ ht => (by cases hstate.symm.trans ht)⟩

/-- Opening at `now`, right after a prune. -/
theorem Bounded.of_reopened (h : Swept now cb) (hstate : cb.state = cb.policy.reopen now)
    (hpruned : now.toNat ≤ cb.lastPruned.toNat) : Bounded now cb ∧ RecentlyPruned now cb := by
  have hpos := cb.policy.openFor_pos
  refine ⟨⟨h, fun hh => (by cases hstate.symm.trans hh), fun t ht => Or.inr ?_⟩, ?_⟩
  · obtain rfl := State.openUntil.inj (ht.symm.trans hstate)
    rw [UInt64.toNat_saturatingAdd]
    omega
  · unfold RecentlyPruned
    omega

/-- A success of the primary. -/
theorem bounded_settle_ok (h : Swept r.now cb) {route : Route}
    (hroute : (∃ f, cb.state = .closed f ∧ route = .primary) ∨
      cb.state = .halfOpen ∧ route = .probe) (decision : Decision) :
    Bounded r.now (cb.settle route r (.ok decision)).1 := by
  have hnew : afterCall cb.state route .success r.now cb.policy = .closed 0 := by
    rcases hroute with ⟨f, hf, rfl⟩ | ⟨hh, rfl⟩
    · rw [hf, afterCall_success]
    · rw [hh, afterCall_probe_success]
  rw [settle_ok, hnew]
  apply Bounded.of_closed 0 _ rfl
  split_ifs
  · exact (h.setState (.closed 0)).clear
  · exact h.setState (.closed 0)

/-- A failure of the primary in a closed period. -/
theorem bounded_settle_closed (h : Swept r.now cb) {f : UInt32} (hf : cb.state = .closed f)
    (error : StorageError) :
    Bounded r.now (cb.settle .primary r (.error error)).1 ∧
      RecentlyPruned r.now (cb.settle .primary r (.error error)).1 := by
  rw [settle_error, hf]
  by_cases ho : cb.policy.failureThreshold.toNat ≤ f.toNat + 1
  · rw [afterCall_failure_opens r.now ho]
    have hopens : cb.pruneAfterFailure (cb.policy.reopen r.now) r.now =
        ({ cb with state := cb.policy.reopen r.now } : CircuitBreaker).pruneFallback r.now :=
      if_pos ⟨by rw [hf]; rfl, rfl⟩
    rw [hopens]
    exact Bounded.of_reopened (swept_pruneFallback _ _).checkFallback rfl le_rfl
  · obtain ⟨f', -, he⟩ := afterCall_failure_counts r.now (not_le.mp ho)
    rw [he]
    obtain ⟨hswept, hrecent, -⟩ := h.pruneAfterFailure (.closed f')
    refine ⟨Bounded.of_closed f' hswept.checkFallback (pruneAfterFailure_state cb _ r), ?_⟩
    show r.now.toNat < (cb.pruneAfterFailure (.closed f') r.now).lastPruned.toNat +
      (cb.pruneAfterFailure (.closed f') r.now).policy.openFor.toNat
    rw [pruneAfterFailure_policy]
    exact hrecent

/-- A failure of a probe, which has pruned the fallback. -/
theorem bounded_settle_probe (h : Swept r.now cb) (hh : cb.state = .halfOpen)
    (hpruned : r.now.toNat ≤ cb.lastPruned.toNat) (error : StorageError) :
    Bounded r.now (cb.settle .probe r (.error error)).1 ∧
      RecentlyPruned r.now (cb.settle .probe r (.error error)).1 := by
  rw [settle_error, hh, afterCall_probe_failure]
  obtain ⟨hswept, -, hle⟩ := h.pruneAfterFailure (cb.policy.reopen r.now)
  apply Bounded.of_reopened hswept.checkFallback
  · show (cb.pruneAfterFailure _ r.now).state = (cb.pruneAfterFailure _ r.now).policy.reopen r.now
    rw [pruneAfterFailure_state, pruneAfterFailure_policy]
  · exact hpruned.trans hle

/-- A call in a closed period. -/
theorem Bounded.runCall_closed (h : Swept r.now cb) {f : UInt32} (hf : cb.state = .closed f)
    (ending : CallEnd) :
    Bounded r.now (cb.runCall r ending).1 ∧
      ((cb.runCall r ending).2 = true → RecentlyPruned r.now (cb.runCall r ending).1) := by
  have hadm : cb.admitCall r.now = (cb, some .primary) := by
    rw [admitCall, hf, admitState_closed, ← hf]
  have hdrop : dropProbe cb.state .primary r.now = .closed f := by
    rw [dropProbe, if_neg (by simp), hf]
  unfold runCall
  rw [hadm]
  cases ending with
  | unpolled => exact ⟨.of_closed f (h.setState _) hdrop, fun hc => by cases hc⟩
  | pending => exact ⟨.of_closed f (h.setState _) hdrop, fun hc => by cases hc⟩
  | answered result =>
    cases result with
    | ok decision =>
      exact ⟨bounded_settle_ok h (Or.inl ⟨f, hf, rfl⟩) decision, fun hc => by cases hc⟩
    | error error =>
      obtain ⟨hb, hrecent⟩ := bounded_settle_closed h hf error
      exact ⟨hb, fun _ => hrecent⟩

/-- A call that becomes the probe. -/
theorem Bounded.runCall_probe (h : Swept r.now cb) {t : Nanos} (ht : cb.state = .openUntil t)
    (hd : t ≤ r.now) (ending : CallEnd) :
    Bounded r.now (cb.runCall r ending).1 ∧
      ((cb.runCall r ending).2 = true → RecentlyPruned r.now (cb.runCall r ending).1) := by
  have hadm : cb.admitCall r.now = ({ cb with state := .halfOpen }, some .probe) := by
    rw [admitCall, ht, admitState_open_due hd]
  have hdropped : ∀ cb' : CircuitBreaker, Swept r.now cb' → cb'.state = .halfOpen →
      Bounded r.now { cb' with state := dropProbe cb'.state .probe r.now } := by
    intro cb' h' hh
    rw [dropProbe, if_pos ⟨rfl, hh⟩]
    refine ⟨h'.setState _, fun hc => (by cases hc), fun u hu => Or.inl ?_⟩
    rw [State.openUntil.inj hu]
  have hpruned := swept_pruneFallback { cb with state := .halfOpen } r.now
  unfold runCall
  rw [hadm]
  cases ending with
  | unpolled => exact ⟨hdropped _ (h.setState _) rfl, fun hc => by cases hc⟩
  | pending => exact ⟨hdropped _ hpruned rfl, fun hc => by cases hc⟩
  | answered result =>
    cases result with
    | ok decision =>
      exact ⟨bounded_settle_ok hpruned (Or.inr ⟨rfl, rfl⟩) decision, fun hc => by cases hc⟩
    | error error =>
      obtain ⟨hb, hrecent⟩ := bounded_settle_probe hpruned rfl le_rfl error
      exact ⟨hb, fun _ => hrecent⟩

/-- A call that the fallback answers while the breaker is open: the next probe is not yet
    due, and that bounds the time since the last prune. -/
theorem Bounded.runCall_open (h : Bounded now cb) (hle : now.toNat ≤ r.now.toNat) {t : Nanos}
    (ht : cb.state = .openUntil t) (hd : ¬ t ≤ r.now) (ending : CallEnd) :
    Bounded r.now (cb.runCall r ending).1 ∧
      ((cb.runCall r ending).2 = true → RecentlyPruned r.now (cb.runCall r ending).1) := by
  have hadm : cb.admitCall r.now = (cb, none) := by
    rw [admitCall, ht, admitState_open_early hd, ← ht]
  rw [UInt64.le_iff_toNat_le] at hd
  have hdue : t.toNat ≤ cb.lastPruned.toNat + cb.policy.openFor.toNat := by
    rcases h.due t ht with hdue | hdue
    · omega
    · exact hdue
  unfold runCall
  rw [hadm]
  refine ⟨⟨(h.swept.mono hle).checkFallback, h.not_halfOpen, fun u hu => Or.inr ?_⟩, fun _ => ?_⟩
  · obtain rfl := State.openUntil.inj (ht.symm.trans hu)
    exact hdue
  · show r.now.toNat < cb.lastPruned.toNat + cb.policy.openFor.toNat
    omega

/-- **One call.** -/
theorem Bounded.runCall (h : Bounded now cb) (hle : now.toNat ≤ r.now.toNat) (ending : CallEnd) :
    Bounded r.now (cb.runCall r ending).1 ∧
      ((cb.runCall r ending).2 = true → RecentlyPruned r.now (cb.runCall r ending).1) := by
  cases hs : cb.state with
  | closed f => exact Bounded.runCall_closed (h.swept.mono hle) hs ending
  | halfOpen => exact absurd hs h.not_halfOpen
  | openUntil t =>
    by_cases hd : t ≤ r.now
    · exact Bounded.runCall_probe (h.swept.mono hle) hs hd ending
    · exact h.runCall_open hle hs hd ending

/-! ## Runs -/

theorem settle_policy (cb : CircuitBreaker) (route : Route) (r : CheckRequest)
    (result : StorageResult) : (cb.settle route r result).1.policy = cb.policy := by
  cases result with
  | ok decision => rw [settle_ok]
  | error error =>
    rw [settle_error]
    exact pruneAfterFailure_policy cb _ r

theorem runCall_policy (cb : CircuitBreaker) (r : CheckRequest) (ending : CallEnd) :
    (cb.runCall r ending).1.policy = cb.policy := by
  unfold runCall admitCall
  cases (admitState cb.state r.now).2 with
  | none => rfl
  | some route =>
    cases ending with
    | unpolled => rfl
    | pending => cases route <;> rfl
    | answered result =>
      simp only
      rw [settle_policy]
      cases route <;> rfl

/-- The invariant along a run with nondecreasing times. -/
theorem Bounded.runCalls (calls : List (CheckRequest × CallEnd)) :
    ∀ {now : Nanos} {cb : CircuitBreaker}, Bounded now cb →
      (∀ call ∈ calls, now ≤ call.1.now) → calls.Pairwise (fun a b => a.1.now ≤ b.1.now) →
      ∃ now', Bounded now' (cb.runCalls calls) ∧ (cb.runCalls calls).policy = cb.policy ∧
        (now' = now ∨ ∃ call ∈ calls, now' = call.1.now) := by
  induction calls with
  | nil => intro now cb h _ _; exact ⟨now, h, rfl, Or.inl rfl⟩
  | cons call calls ih =>
    intro now cb h hnow htime
    obtain ⟨hfirst, htime⟩ := List.pairwise_cons.mp htime
    have hle := UInt64.le_iff_toNat_le.mp (hnow call List.mem_cons_self)
    obtain ⟨now', hb, hpolicy, hn⟩ := ih (h.runCall hle call.2).1 hfirst htime
    refine ⟨now', hb, hpolicy.trans (runCall_policy cb call.1 call.2), Or.inr ?_⟩
    rcases hn with rfl | ⟨last, hlast, rfl⟩
    · exact ⟨call, List.mem_cons_self, rfl⟩
    · exact ⟨last, List.mem_cons_of_mem _ hlast, rfl⟩

/-- **The fallback does not accumulate.** Let calls be made one after another, with
    nondecreasing times and an empty fallback at the start, each answered by the primary
    in any way or cancelled. After a call that the fallback has answered, every TAT in
    the fallback is at least the time of the last prune, and this is less than `open_for`
    ago. So no entry has expired `open_for` ago or earlier. -/
theorem fallback_bounded (policy : Policy) (calls : List (CheckRequest × CallEnd))
    (r : CheckRequest) (ending : CallEnd)
    (htime : (calls ++ [(r, ending)]).Pairwise fun a b => a.1.now ≤ b.1.now)
    (hanswered : (((start policy).runCalls calls).runCall r ending).2 = true) :
    let cb := (((start policy).runCalls calls).runCall r ending).1
    (∀ k tat, cb.fallback.state k = some tat → cb.lastPruned ≤ tat) ∧
      r.now.toNat < cb.lastPruned.toNat + policy.openFor.toNat ∧
      ∀ k tat, cb.fallback.state k = some tat → r.now.toNat < tat.toNat + policy.openFor.toNat := by
  intro cb
  obtain ⟨hcalls, -, hlast⟩ := List.pairwise_append.mp htime
  obtain ⟨now, hb, hpolicy, hnow⟩ := Bounded.runCalls calls (bounded_start policy)
    (fun _ _ => UInt64.le_iff_toNat_le.mpr (Nat.zero_le _)) hcalls
  have hle : now.toNat ≤ r.now.toNat := by
    rcases hnow with rfl | ⟨call, hcall, rfl⟩
    · exact Nat.zero_le _
    · exact UInt64.le_iff_toNat_le.mp (hlast call hcall (r, ending) (List.mem_singleton_self _))
  obtain ⟨hb', hrecent⟩ := hb.runCall hle ending
  have hrecent' : r.now.toNat < cb.lastPruned.toNat + cb.policy.openFor.toNat := hrecent hanswered
  rw [show cb.policy = policy from (runCall_policy _ _ _).trans hpolicy] at hrecent'
  refine ⟨fun k tat hk => UInt64.le_iff_toNat_le.mpr (hb'.swept.tats k tat hk), hrecent', ?_⟩
  intro k tat hk
  have htat : cb.lastPruned.toNat ≤ tat.toNat := hb'.swept.tats k tat hk
  omega

/-- One failure opens the breaker for 5 ns. -/
def flappingPolicy : Policy := ⟨1, 5, Nat.one_pos, five_nanos_pos⟩

/-- A request of user `user` at a time. -/
def flappingRequest (user : String) (now : Nanos) : CheckRequest :=
  ⟨⟨user, "free"⟩, ⟨2, .fromNanos 20, .two_per_twenty_nanos⟩, 1, now⟩

/-- The breaker opens, a probe is dropped before it is polled, and later one fails. -/
def flappingCalls : List (CheckRequest × CallEnd) :=
  [(flappingRequest "u" 0, .answered (.error ⟨"down"⟩)), (flappingRequest "u" 3, .pending),
    (flappingRequest "u" 100, .unpolled)]

/-- The failed probe at 200 leaves its own entry only. -/
theorem fallback_bounded_flapping :
    let cb := (((start flappingPolicy).runCalls flappingCalls).runCall (flappingRequest "v" 200)
      (.answered (.error ⟨"down"⟩))).1
    (200 : Nanos).toNat < cb.lastPruned.toNat + flappingPolicy.openFor.toNat ∧
      cb.fallback.state ⟨"u", "free"⟩ = none ∧ cb.fallback.state ⟨"v", "free"⟩ = some 210 :=
  ⟨(fallback_bounded flappingPolicy flappingCalls (flappingRequest "v" 200)
    (.answered (.error ⟨"down"⟩)) (by decide) (by decide)).2.1, by decide, by decide⟩

end CircuitBreaker

end TowerRateTier
