import TowerRateTier.Storage.Redis.Script

/-!
# Calls that the script accepts

The script may be called with any keys and arguments, on any contents of the
keyspace. What it does not refuse is a decision in natural numbers: the argument
checks leave naturals below `2⁵³`, and the guard after the product leaves a TAT
and an increment whose sum is at most `2⁵³`, although the product, the cap and
the stored number may each be beyond it.

* `gcra_refused_or_accepted`: a call is refused and changes nothing, or it is
  `Accepted`.
* `Accepted.gcra_eq`: what an accepted call does and answers.
-/

namespace Except

variable {ε α β : Type}

theorem bind_eq_ok {x : Except ε α} {f : α → Except ε β} {b : β} (h : (x >>= f) = .ok b) :
    ∃ a, x = .ok a ∧ f a = .ok b := by
  cases x with
  | error e => exact absurd h (by simp [bind, Except.bind])
  | ok a => exact ⟨a, rfl, h⟩

theorem bind_eq_error {x : Except ε α} {f : α → Except ε β} {e : ε} (h : (x >>= f) = .error e) :
    x = .error e ∨ ∃ a, f a = .error e := by
  cases x with
  | error e' =>
    left
    simpa [bind, Except.bind] using h
  | ok a => exact Or.inr ⟨a, h⟩

end Except

namespace TowerRateTier.Redis

variable {fl : ℚ → ℚ}

/-! ## The arguments -/

/-- What `exact_integer` accepts is a natural number. -/
theorem exactNumber_eq_some {m : Lua.Number} {n : ℚ} (h : exactNumber m = some n) :
    ∃ k : ℕ, n = k ∧ k < 2 ^ 53 := by
  cases m with
  | nan => exact absurd h (Option.some_ne_none n).symm
  | inf negative => exact absurd h (Option.some_ne_none n).symm
  | fin value =>
    simp only [exactNumber] at h
    split_ifs at h with hc
    obtain rfl : value = n := Option.some.inj h
    rw [not_or, not_or, not_lt, not_not, ge_iff_le, not_le] at hc
    obtain ⟨hnonneg, hlt, hint⟩ := hc
    obtain ⟨k, rfl⟩ := Double.exists_natCast hint hnonneg
    rw [maxExact] at hlt
    exact ⟨k, rfl, by exact_mod_cast hlt⟩

theorem exactInteger_eq_some {s : String} {n : ℚ} (h : exactInteger fl s = some n) :
    ∃ k : ℕ, n = k ∧ k < 2 ^ 53 := by
  obtain ⟨m, -, hm⟩ := Option.bind_eq_some_iff.mp h
  exact exactNumber_eq_some hm

theorem scriptNow_eq_some {srv : Server} {arg : String} {n : ℚ} (h : scriptNow fl srv arg = some n) :
    ∃ k : ℕ, n = k ∧ k < 2 ^ 53 := by
  unfold scriptNow at h
  split_ifs at h
  · split at h
    · exact exactNumber_eq_some h
    · exact absurd h (Option.some_ne_none n).symm
  · exact exactInteger_eq_some h

theorem require_eq_ok {reason : String} {value : Option ℚ} {accept : ℚ → Bool} {n : ℚ}
    (h : require reason value accept = .ok n) : value = some n ∧ accept n = true := by
  unfold require at h
  cases value with
  | none => exact absurd h (by simp)
  | some m =>
    simp only at h
    split_ifs at h with haccept
    obtain rfl := Except.ok.inj h
    exact ⟨rfl, haccept⟩

theorem require_eq_error {reason : String} {value : Option ℚ} {accept : ℚ → Bool} {err : String}
    (h : require reason value accept = .error err) : err = fail reason := by
  unfold require at h
  split at h
  · exact (Except.error.inj h).symm
  · split_ifs at h
    exact (Except.error.inj h).symm

/-- A refused argument is named in the error. -/
theorem readArgs_eq_error {srv : Server} {keys argv : List String} {err : String}
    (h : readArgs fl srv keys argv = .error err) : ∃ reason, err = fail reason := by
  unfold readArgs at h
  split at h
  · rcases Except.bind_eq_error h with h | ⟨ei, h⟩
    · exact ⟨_, require_eq_error h⟩
    rcases Except.bind_eq_error h with h | ⟨bo, h⟩
    · exact ⟨_, require_eq_error h⟩
    rcases Except.bind_eq_error h with h | ⟨cost, h⟩
    · exact ⟨_, require_eq_error h⟩
    rcases Except.bind_eq_error h with h | ⟨now, h⟩
    · exact ⟨_, require_eq_error h⟩
    · exact absurd h (by simp [pure, Except.pure])
  · exact ⟨_, (Except.error.inj h).symm⟩

/-- The numbers of a call, in microseconds, once the argument checks are passed. -/
structure Numbers where
  emissionInterval : ℕ
  burstOffset : ℕ
  cost : ℕ
  now : ℕ
  interval_pos : 1 ≤ emissionInterval
  interval_le_burst : emissionInterval ≤ burstOffset
  burst_lt : burstOffset < 2 ^ 53
  cost_lt : cost < 2 ^ 53
  now_lt : now < 2 ^ 53

/-- They are the arguments of the script. -/
def Numbers.args (n : Numbers) (key : String) : Args :=
  ⟨key, n.emissionInterval, n.burstOffset, n.cost, n.now⟩

theorem readArgs_eq_ok {srv : Server} {keys argv : List String} {args : Args}
    (h : readArgs fl srv keys argv = .ok args) :
    ∃ n : Numbers, keys = [args.key] ∧ args = n.args args.key := by
  unfold readArgs at h
  split at h
  · obtain ⟨ei, hei, h⟩ := Except.bind_eq_ok h
    obtain ⟨hei, hpos⟩ := require_eq_ok hei
    obtain ⟨ei, rfl, -⟩ := exactInteger_eq_some hei
    obtain ⟨bo, hbo, h⟩ := Except.bind_eq_ok h
    obtain ⟨hbo, hle⟩ := require_eq_ok hbo
    obtain ⟨bo, rfl, hlt⟩ := exactInteger_eq_some hbo
    obtain ⟨cost, hcost, h⟩ := Except.bind_eq_ok h
    obtain ⟨cost, rfl, hcostlt⟩ := exactInteger_eq_some (require_eq_ok hcost).1
    obtain ⟨now, hnow, h⟩ := Except.bind_eq_ok h
    obtain ⟨now, rfl, hnowlt⟩ := scriptNow_eq_some (require_eq_ok hnow).1
    rw [decide_eq_true_eq] at hpos hle
    obtain rfl := Except.ok.inj h
    exact ⟨⟨ei, bo, cost, now, by exact_mod_cast hpos, by exact_mod_cast hle, hlt, hcostlt,
      hnowlt⟩, rfl, rfl⟩
  · exact absurd h (by simp)

/-! ## The TAT -/

/-- The TAT is at least now. Unless the stored one is capped, it is not after the cap. -/
theorem storedTat_cases (fl : ℚ → ℚ) (srv : Server) (key : String) (n : Numbers) :
    (∃ x : ℕ, storedTat fl srv (n.args key) = (↑x, false) ∧ n.now ≤ x ∧
        (x = n.now ∨ (x : ℚ) ≤ fl (n.now + n.burstOffset))) ∨
      storedTat fl srv (n.args key) = (fl (n.now + n.burstOffset), true) := by
  have hfresh : ∃ x : ℕ, ((n.now : ℚ), false) = (↑x, false) ∧ n.now ≤ x ∧
      (x = n.now ∨ (x : ℚ) ≤ fl (n.now + n.burstOffset)) := ⟨n.now, rfl, le_rfl, Or.inl rfl⟩
  unfold Numbers.args
  rw [storedTat_eq_number]
  split
  · exact Or.inl hfresh
  · exact Or.inl hfresh
  · split_ifs
    · exact Or.inl hfresh
    · exact Or.inr rfl
  · next tat _ =>
    simp only
    split_ifs with hpast hlate
    · exact Or.inl hfresh
    · exact Or.inr rfl
    · obtain ⟨hint, hnow⟩ := not_or.mp hpast
      rw [not_not] at hint
      rw [gt_iff_lt, not_lt] at hlate
      rw [not_lt] at hnow
      obtain ⟨x, rfl⟩ := Double.exists_natCast hint ((Nat.cast_nonneg n.now).trans hnow)
      exact Or.inl ⟨x, rfl, by exact_mod_cast hnow, Or.inr hlate⟩

/-- So it is a natural number, and at most one burst ahead if it is exact. -/
theorem storedTat_natCast (hfl : Double.IntegerRounding fl) (srv : Server) (key : String)
    (n : Numbers) :
    ∃ (x : ℕ) (capped : Bool), storedTat fl srv (n.args key) = (↑x, capped) ∧ n.now ≤ x ∧
      (x ≤ 2 ^ 53 → x ≤ n.now + n.burstOffset) ∧ (capped = true → n.now < x) := by
  have hpos := n.interval_pos
  have hle := n.interval_le_burst
  have hnow := n.now_lt
  have hcap := hfl.natCast_cases (n.now + n.burstOffset)
  rw [Nat.cast_add] at hcap
  rcases storedTat_cases fl srv key n with ⟨x, hread, hfrom, hx⟩ | hread
  · refine ⟨x, false, hread, hfrom, fun hexact => ?_, fun hc => absurd hc Bool.false_ne_true⟩
    rcases hcap with ⟨-, heq⟩ | ⟨hlarge, -⟩
    · rcases hx with rfl | hx
      · omega
      · rw [heq] at hx
        exact_mod_cast hx
    · omega
  · rcases hcap with ⟨-, heq⟩ | ⟨hlarge, k, heq, hk⟩
    · rw [heq, ← Nat.cast_add] at hread
      exact ⟨_, true, hread, by omega, fun _ => le_rfl, fun _ => by omega⟩
    · rw [heq] at hread
      exact ⟨k, true, hread, by omega, fun _ => by omega, fun _ => by omega⟩

/-! ## The guard -/

/-- What passes the guard is exact, and the sum after it as well. -/
theorem guard_exact (hfl : Double.IntegerRounding fl) {x m : ℕ} (h : ¬ fl m > fl (maxExact - x)) :
    ∃ inc : ℕ, fl m = inc ∧ x + inc ≤ 2 ^ 53 := by
  rw [gt_iff_lt, not_lt] at h
  obtain ⟨inc, hinc⟩ : ∃ inc : ℕ, fl m = inc := by
    rcases hfl.natCast_cases m with ⟨-, hm⟩ | ⟨-, k, hk, -⟩
    · exact ⟨m, hm⟩
    · exact ⟨k, hk⟩
  refine ⟨inc, hinc, ?_⟩
  rw [hinc] at h
  rcases Nat.lt_or_ge (2 ^ 53) x with hx | hx
  · -- the difference is negative, and no increment is
    exfalso
    have hneg := hfl.neg (2 ^ 53 - x) (by omega)
    have hcast : ((2 ^ 53 - x : ℤ) : ℚ) = maxExact - x := by rw [maxExact]; push_cast; rfl
    rw [hcast] at hneg
    have hpos : (0 : ℚ) ≤ inc := Nat.cast_nonneg inc
    linarith
  · rw [fl_maxExact_sub hfl.toIntegerExact hx] at h
    have : inc ≤ 2 ^ 53 - x := by exact_mod_cast h
    omega

/-! ## Accepted calls -/

/-- A call that the script accepts, with the numbers that it computes. -/
structure Accepted (fl : ℚ → ℚ) (srv : Server) (keys argv : List String) where
  key : String
  numbers : Numbers
  tat : ℕ
  capped : Bool
  increment : ℕ
  keys_eq : keys = [key]
  args_eq : readArgs fl srv keys argv = .ok (numbers.args key)
  tat_eq : storedTat fl srv (numbers.args key) = (↑tat, capped)
  increment_eq : fl (numbers.emissionInterval * numbers.cost) = increment
  now_le_tat : numbers.now ≤ tat
  tat_le_full : tat ≤ numbers.now + numbers.burstOffset
  now_lt_of_capped : capped = true → numbers.now < tat
  sum_le : tat + increment ≤ 2 ^ 53

/-- The other keys stay as they are. -/
theorem keyspace_store_of_ne (srv : Server) {key other : String} (h : other ≠ key) (now tat : ℕ) :
    (srv.store key now tat).keyspace other = srv.keyspace other :=
  Function.update_of_ne h _ _

namespace Accepted

variable {srv : Server} {keys argv : List String}

/-- The TAT after an accepted request. -/
def newTat (a : Accepted fl srv keys argv) : ℕ := a.tat + a.increment

/-- The new TAT is more than one burst ahead. -/
def Limited (a : Accepted fl srv keys argv) : Prop :=
  a.numbers.now + a.numbers.burstOffset < a.newTat

instance (a : Accepted fl srv keys argv) : Decidable a.Limited := inferInstanceAs (Decidable (_ < _))

/-- What is written and answered. -/
theorem gcra_eq (hfl : Double.IntegerExact fl) (a : Accepted fl srv keys argv) :
    gcra fl srv keys argv =
      if a.Limited then
        (if a.capped then srv.store a.key a.numbers.now a.tat else srv,
          .ok
            { allowed := 0
              remaining := 0
              retryAfterUs := ((a.newTat - a.numbers.burstOffset - a.numbers.now : ℕ) : ℤ)
              resetAfterUs := ((a.tat - a.numbers.now : ℕ) : ℤ) })
      else
        (if a.numbers.now < a.newTat then srv.store a.key a.numbers.now a.newTat else srv,
          .ok (allowedReply a.numbers.emissionInterval a.numbers.burstOffset a.numbers.now
            a.newTat)) := by
  have hdecision := decision_exact hfl srv a.key a.numbers.interval_pos a.numbers.interval_le_burst
    a.numbers.burst_lt a.now_le_tat a.tat_le_full a.now_lt_of_capped a.increment_eq a.sum_le
  rw [gcra, a.args_eq]
  simp only [a.tat_eq]
  exact hdecision

/-- A limited call stores the TAT if it is capped. -/
theorem gcra_of_limited (hfl : Double.IntegerExact fl) (a : Accepted fl srv keys argv)
    (h : a.Limited) :
    (∃ reply, (gcra fl srv keys argv).2 = .ok reply ∧ reply.allowed = 0) ∧
      (gcra fl srv keys argv).1 =
        if a.capped then srv.store a.key a.numbers.now a.tat else srv := by
  rw [a.gcra_eq hfl, if_pos h]
  exact ⟨⟨_, rfl, rfl⟩, rfl⟩

/-- An allowed call stores the new TAT if it is in the future. -/
theorem gcra_of_not_limited (hfl : Double.IntegerExact fl) (a : Accepted fl srv keys argv)
    (h : ¬ a.Limited) :
    (∃ reply, (gcra fl srv keys argv).2 = .ok reply ∧ reply.allowed = 1) ∧
      (gcra fl srv keys argv).1 =
        if a.numbers.now < a.newTat then srv.store a.key a.numbers.now a.newTat else srv := by
  rw [a.gcra_eq hfl, if_neg h]
  exact ⟨⟨_, rfl, rfl⟩, rfl⟩

/-- Either way a call stores at most one TAT, and that within the exact range. -/
theorem eq_or_stores (hfl : Double.IntegerExact fl) (a : Accepted fl srv keys argv) :
    (gcra fl srv keys argv).1 = srv ∨
      ∃ tat ≤ 2 ^ 53, (gcra fl srv keys argv).1 = srv.store a.key a.numbers.now tat := by
  have hsum := a.sum_le
  by_cases hlim : a.Limited
  · rw [(a.gcra_of_limited hfl hlim).2]
    split_ifs
    · exact Or.inr ⟨a.tat, by omega, rfl⟩
    · exact Or.inl rfl
  · rw [(a.gcra_of_not_limited hfl hlim).2]
    split_ifs
    · exact Or.inr ⟨a.newTat, hsum, rfl⟩
    · exact Or.inl rfl

/-- Only the key of the call is written. -/
theorem keyspace_of_ne (hfl : Double.IntegerExact fl) (a : Accepted fl srv keys argv) {key : String}
    (h : keys ≠ [key]) : (gcra fl srv keys argv).1.keyspace key = srv.keyspace key := by
  have hne : key ≠ a.key := by
    rintro rfl
    exact h a.keys_eq
  rcases a.eq_or_stores hfl with hsame | ⟨tat, -, hstores⟩
  · rw [hsame]
  · rw [hstores]
    exact keyspace_store_of_ne srv hne _ _

end Accepted

/-- **Calls.** A call is refused with an error of the script and changes nothing, or it is
    accepted. -/
theorem gcra_refused_or_accepted (hfl : Double.IntegerRounding fl) (srv : Server)
    (keys argv : List String) :
    (∃ reason, gcra fl srv keys argv = (srv, .error (fail reason))) ∨
      Nonempty (Accepted fl srv keys argv) := by
  cases hargs : readArgs fl srv keys argv with
  | error err =>
    obtain ⟨reason, rfl⟩ := readArgs_eq_error hargs
    left
    exact ⟨reason, by rw [gcra, hargs]⟩
  | ok args =>
    obtain ⟨n, hkeys, hn⟩ := readArgs_eq_ok hargs
    obtain ⟨x, capped, hread, hfrom, hfull, hcapped⟩ := storedTat_natCast hfl srv args.key n
    rw [hn] at hargs
    by_cases hguard : fl ((n.emissionInterval : ℚ) * n.cost) > fl (maxExact - x)
    · left
      refine ⟨"time values exceed the exact range of Lua numbers", ?_⟩
      rw [gcra, hargs]
      simp only [hread]
      exact if_pos hguard
    · right
      rw [← Nat.cast_mul] at hguard
      obtain ⟨inc, hinc, hsum⟩ := guard_exact hfl hguard
      rw [Nat.cast_mul] at hinc
      exact ⟨⟨args.key, n, x, capped, inc, hkeys, hargs, hread, hinc, hfrom, hfull (by omega),
        hcapped, hsum⟩⟩

end TowerRateTier.Redis
