import TowerRateTier.Storage.Redis.Accepted
import TowerRateTier.Storage.Redis.Checks
import Mathlib.Logic.Relation

/-!
# Recovery of the script from any stored value

Whatever the key holds, the script reads a TAT between now and one burst ahead:
what is no integer or is past counts as a fresh bucket, and what is further ahead
than a burst is capped. A capped TAT is stored even if the request is limited, so
from then on the key holds nothing later, whatever limited requests run.

* `storedTat_reads`: what the script reads from any content of the key.
* `Request.call_eq`: so every request gets a decision.
* `LimitedStep.atMost`: a request that is not allowed never moves the TAT later.
* `never_locked_out`: the script answers on every content of the key, the wait it
  asks for is bounded, and the wait is enough.
-/

namespace TowerRateTier.Redis

/-! ## What a key holds -/

/-- A number that is no integer, or is at most `x`. -/
def numberAtMost (x : ℕ) : Lua.Number → Prop
  | .nan => True
  | .inf negative => negative = true
  | .fin tat => tat = ⌊tat⌋ → tat ≤ x

/-- The key holds no TAT after `x`. -/
def AtMost (fl : ℚ → ℚ) (entry : Option Entry) (x : ℕ) : Prop :=
  ∀ n, storedNumber fl entry = some n → numberAtMost x n

section AtMost

variable {fl : ℚ → ℚ} {entry : Option Entry} {x y : ℕ}

theorem atMost_of_none (h : storedNumber fl entry = none) (x : ℕ) : AtMost fl entry x := by
  intro n hn
  rw [h] at hn
  exact absurd hn (Option.some_ne_none n).symm

theorem atMost_of_some {n : Lua.Number} (h : storedNumber fl entry = some n)
    (hn : numberAtMost x n) : AtMost fl entry x := by
  intro m hm
  obtain rfl : n = m := Option.some.inj (h.symm.trans hm)
  exact hn

theorem AtMost.mono (h : AtMost fl entry x) (hxy : x ≤ y) : AtMost fl entry y := by
  intro n hn
  have hx := h n hn
  cases n with
  | nan => trivial
  | inf negative => exact hx
  | fin tat =>
    intro hint
    have hcast : (x : ℚ) ≤ y := by exact_mod_cast hxy
    exact (hx hint).trans hcast

/-- An expired key may be gone; nothing else changes. -/
theorem AtMost.advance {srv : Server} {key : String} (h : AtMost fl (srv.keyspace key) x)
    (timeUs : ℕ) (dropped : String → Bool) :
    AtMost fl ((srv.advance timeUs dropped).keyspace key) x := by
  simp only [Server.advance]
  generalize srv.keyspace key = entry at h
  cases entry with
  | none => exact h
  | some e =>
    rw [Option.filter_some]
    split_ifs
    · exact h
    · exact atMost_of_none rfl x

/-- What the script stores is read back. -/
theorem atMost_put (hfl : Double.IntegerExact fl) (srv : Server) (key : String) (ms : ℕ)
    (hx : x ≤ 2 ^ 53) : AtMost fl ((srv.put key (toString x) ms).keyspace key) x := by
  have hnum : storedNumber fl ((srv.put key (toString x) ms).keyspace key) = some (.fin x) := by
    simp only [Server.put, Function.update_self]
    exact storedNumber_natCast hfl hx _
  exact atMost_of_some hnum fun _ => le_rfl

end AtMost

/-! ## What the script reads -/

/-- What the script reads from `entry` at `now`: a TAT within one burst of `now`. A
    capped one is a full burst ahead, and the key holds something later; otherwise
    the key holds nothing later. -/
structure Reads (fl : ℚ → ℚ) (entry : Option Entry) (now bo x : ℕ) (capped : Bool) : Prop where
  now_le : now ≤ x
  le_full : x ≤ now + bo
  full : capped = true → x = now + bo
  kept : capped = false → AtMost fl entry x
  bound : ∀ y, AtMost fl entry y → x ≤ max y now
  later : ∀ y, AtMost fl entry y → capped = true → x < y

variable {fl : ℚ → ℚ}

theorem reads_fresh {entry : Option Entry} (now bo : ℕ) (h : AtMost fl entry now) :
    Reads fl entry now bo now false where
  now_le := le_rfl
  le_full := Nat.le_add_right now bo
  full hc := absurd hc Bool.false_ne_true
  kept _ := h
  bound y _ := le_max_right y now
  later _ _ hc := absurd hc Bool.false_ne_true

theorem reads_capped {entry : Option Entry} (now bo : ℕ)
    (h : ∀ y, AtMost fl entry y → now + bo < y) : Reads fl entry now bo (now + bo) true where
  now_le := Nat.le_add_right now bo
  le_full := le_rfl
  full _ := rfl
  kept hc := absurd hc.symm Bool.false_ne_true
  bound y hy := le_max_of_le_left (h y hy).le
  later y hy _ := h y hy

theorem reads_stored {entry : Option Entry} {now bo x : ℕ}
    (h : storedNumber fl entry = some (.fin x)) (hnow : now ≤ x) (hle : x ≤ now + bo) :
    Reads fl entry now bo x false where
  now_le := hnow
  le_full := hle
  full hc := absurd hc Bool.false_ne_true
  kept _ := atMost_of_some h fun _ => le_rfl
  bound y hy := by
    have hxy : (x : ℚ) ≤ y := hy _ h (by rw [Int.floor_natCast, Int.cast_natCast])
    exact le_max_of_le_left (by exact_mod_cast hxy)
  later _ _ hc := absurd hc Bool.false_ne_true

/-- **Any content.** Each kind of stored value is fresh, capped or kept. -/
theorem storedTat_reads (hfl : Double.IntegerExact fl) (srv : Server) (key : String) (ei cost : ℚ)
    {now bo : ℕ} (hmax : now + bo ≤ 2 ^ 53) :
    ∃ (x : ℕ) (capped : Bool), storedTat fl srv ⟨key, ei, bo, cost, now⟩ = (↑x, capped) ∧
      Reads fl (srv.keyspace key) now bo x capped := by
  have hcap : fl ((now : ℚ) + bo) = ((now + bo : ℕ) : ℚ) := hfl.add_natCast hmax
  rw [storedTat_eq_number]
  simp only [hcap]
  cases hn : storedNumber fl (srv.keyspace key) with
  | none => exact ⟨now, false, rfl, reads_fresh now bo (atMost_of_none hn now)⟩
  | some n =>
    cases n with
    | nan => exact ⟨now, false, rfl, reads_fresh now bo (atMost_of_some hn trivial)⟩
    | inf negative =>
      cases negative with
      | true => exact ⟨now, false, rfl, reads_fresh now bo (atMost_of_some hn rfl)⟩
      | false =>
        refine ⟨now + bo, true, rfl, reads_capped now bo ?_⟩
        intro y hy
        exact absurd (hy _ hn) Bool.false_ne_true
    | fin tat =>
      simp only
      split_ifs with hfresh hlate
      · -- no integer, or past
        refine ⟨now, false, rfl, reads_fresh now bo (atMost_of_some hn fun hint => ?_)⟩
        exact (hfresh.resolve_left (not_not.mpr hint)).le
      · refine ⟨now + bo, true, rfl, reads_capped now bo ?_⟩
        intro y hy
        have hint : tat = ⌊tat⌋ := not_not.mp (not_or.mp hfresh).1
        have hlt : ((now + bo : ℕ) : ℚ) < y := lt_of_lt_of_le hlate (hy _ hn hint)
        exact_mod_cast hlt
      · obtain ⟨hint, hnow⟩ := not_or.mp hfresh
        rw [not_not] at hint
        rw [not_lt] at hnow
        obtain ⟨x, rfl⟩ := Double.exists_natCast hint ((Nat.cast_nonneg now).trans hnow)
        refine ⟨x, false, rfl, reads_stored hn ?_ ?_⟩
        · exact_mod_cast hnow
        · exact_mod_cast not_lt.mp hlate

/-! ## Limited requests -/

/-- One call of the script, at any time, with any keys and arguments, perhaps after
    some expired keys were dropped. If it is a request of `key`, its time leaves room
    for two bursts below `2⁵³`, and it is not allowed. -/
inductive LimitedStep (fl : ℚ → ℚ) (key : String) (srv : Server) : Server → Prop where
  | call (timeUs : ℕ) (dropped : String → Bool) (keys argv : List String)
      (h : ∀ args, readArgs fl (srv.advance timeUs dropped) keys argv = .ok args →
        args.key = key → args.now + 2 * args.burstOffset ≤ 2 ^ 53 ∧
          ∀ reply, (gcra fl (srv.advance timeUs dropped) keys argv).2 = .ok reply →
            reply.allowed ≠ 1) :
      LimitedStep fl key srv (gcra fl (srv.advance timeUs dropped) keys argv).1

/-- A limited call of the key writes what it has read, or nothing. -/
theorem Accepted.limited_atMost (hfl : Double.IntegerExact fl) {srv : Server}
    {keys argv : List String} {x : ℕ} (a : Accepted fl srv keys argv)
    (hx : AtMost fl (srv.keyspace a.key) x) (hlim : a.Limited)
    (hmax : a.numbers.now + a.numbers.burstOffset ≤ 2 ^ 53) :
    AtMost fl ((gcra fl srv keys argv).1.keyspace a.key) x := by
  obtain ⟨y, capped, hread, hreads⟩ := storedTat_reads hfl srv a.key a.numbers.emissionInterval
    a.numbers.cost hmax
  obtain ⟨hy, rfl⟩ := Prod.mk.inj (hread.symm.trans a.tat_eq)
  obtain rfl : y = a.tat := by exact_mod_cast hy
  rw [(a.gcra_of_limited hfl hlim).2]
  split_ifs with hcapped
  · exact (atMost_put hfl srv a.key _ (a.tat_le_full.trans hmax)).mono
      (hreads.later x hx hcapped).le
  · exact hx

/-- A call that is not allowed never moves the TAT later. -/
theorem gcra_atMost (hfl : Double.IntegerRounding fl) {srv : Server} {key : String}
    {keys argv : List String} {x : ℕ} (hx : AtMost fl (srv.keyspace key) x)
    (h : ∀ args, readArgs fl srv keys argv = .ok args → args.key = key →
      args.now + 2 * args.burstOffset ≤ 2 ^ 53 ∧
        ∀ reply, (gcra fl srv keys argv).2 = .ok reply → reply.allowed ≠ 1) :
    AtMost fl ((gcra fl srv keys argv).1.keyspace key) x := by
  rcases gcra_refused_or_accepted hfl srv keys argv with ⟨reason, hrefused⟩ | haccepted
  · rw [hrefused]
    exact hx
  obtain ⟨a⟩ := haccepted
  by_cases hkey : a.key = key
  · subst hkey
    obtain ⟨hroom, hdenied⟩ := h _ a.args_eq rfl
    simp only [Numbers.args] at hroom
    have hroom' : a.numbers.now + 2 * a.numbers.burstOffset ≤ 2 ^ 53 := by exact_mod_cast hroom
    by_cases hlim : a.Limited
    · exact a.limited_atMost hfl.toIntegerExact hx hlim (by omega)
    · obtain ⟨reply, hreply, hallowed⟩ := (a.gcra_of_not_limited hfl.toIntegerExact hlim).1
      exact absurd hallowed (hdenied reply hreply)
  · have hne : keys ≠ [key] := by
      intro hkeys
      exact hkey (List.cons.inj (a.keys_eq.symm.trans hkeys)).1
    rw [a.keyspace_of_ne hfl.toIntegerExact hne]
    exact hx

/-- **One step.** A request that is not allowed never moves the TAT later. -/
theorem LimitedStep.atMost (hfl : Double.IntegerRounding fl) {key : String}
    {srv srv' : Server} {x : ℕ} (hx : AtMost fl (srv.keyspace key) x)
    (h : LimitedStep fl key srv srv') : AtMost fl (srv'.keyspace key) x := by
  obtain ⟨timeUs, dropped, keys, argv, h⟩ := h
  exact gcra_atMost hfl (hx.advance timeUs dropped) h

/-- **Runs.** Nor do any number of them. -/
theorem atMost_of_limitedSteps (hfl : Double.IntegerRounding fl) {key : String}
    {srv srv' : Server} {x : ℕ} (hx : AtMost fl (srv.keyspace key) x)
    (h : Relation.ReflTransGen (LimitedStep fl key) srv srv') : AtMost fl (srv'.keyspace key) x := by
  induction h with
  | refl => exact hx
  | tail _ hstep ih => exact hstep.atMost hfl ih

/-! ## A request and its retry -/

/-- The key, the quota and the cost of a request, in microseconds. -/
structure Request where
  key : String
  emissionInterval : ℕ
  burstOffset : ℕ
  cost : ℕ

namespace Request

/-- The script, called with the request and an argument for the time. -/
def call (fl : ℚ → ℚ) (r : Request) (srv : Server) (now : String) : Server × Except String Reply :=
  gcra fl srv [r.key]
    [now, toString r.emissionInterval, toString r.burstOffset, toString r.cost]

/-- What the storage promises of the arguments, and a request that fits into the burst. -/
structure Valid (r : Request) : Prop where
  interval_pos : 1 ≤ r.emissionInterval
  interval_le_burst : r.emissionInterval ≤ r.burstOffset
  cost_le : r.emissionInterval * r.cost ≤ r.burstOffset

variable {fl : ℚ → ℚ} {r : Request} {srv : Server} {arg : String} {now : ℕ}

/-- On any content of the key, the script is the GCRA on the TAT that it reads. -/
theorem call_eq (hfl : Double.IntegerExact fl) (hr : r.Valid)
    (hroom : now + 2 * r.burstOffset ≤ 2 ^ 53) (hnow : scriptNow fl srv arg = some (now : ℚ)) :
    ∃ (x : ℕ) (capped : Bool), Reads fl (srv.keyspace r.key) now r.burstOffset x capped ∧
      r.call fl srv arg =
        let newTat := x + r.emissionInterval * r.cost
        if now + r.burstOffset < newTat then
          (if capped then srv.store r.key now x else srv,
            .ok (limitedReply r.emissionInterval r.burstOffset r.cost now x))
        else
          (if now < newTat then srv.store r.key now newTat else srv,
            .ok (allowedReply r.emissionInterval r.burstOffset now newTat)) := by
  have h1 := hr.interval_pos
  have h2 := hr.interval_le_burst
  have h3 := hr.cost_le
  have hcost : r.cost < 2 ^ 53 := by
    have : 1 * r.cost ≤ r.emissionInterval * r.cost := Nat.mul_le_mul_right _ h1
    omega
  obtain ⟨x, capped, hread, hreads⟩ := storedTat_reads hfl srv r.key r.emissionInterval r.cost
    (show now + r.burstOffset ≤ 2 ^ 53 by omega)
  have hle := hreads.le_full
  have hdecision := decision_eq hfl srv r.key h1 h2 (by omega) hreads.now_le hle
    (fun hc => by have := hreads.full hc; omega) (show x + r.emissionInterval * r.cost ≤ 2 ^ 53 by omega)
  refine ⟨x, capped, hreads, ?_⟩
  rw [call, gcra, readArgs_eq hfl srv r.key arg h1 h2 (by omega) hcost hnow]
  simp only [hread]
  exact hdecision

/-- No content of the key makes the script refuse the request. -/
theorem call_ok (hfl : Double.IntegerExact fl) (hr : r.Valid)
    (hroom : now + 2 * r.burstOffset ≤ 2 ^ 53) (hnow : scriptNow fl srv arg = some (now : ℚ)) :
    ∃ reply, (r.call fl srv arg).2 = .ok reply := by
  obtain ⟨x, capped, -, hcall⟩ := call_eq hfl hr hroom hnow
  rw [hcall]
  by_cases hlim : now + r.burstOffset < x + r.emissionInterval * r.cost
  · exact ⟨_, by simp only [if_pos hlim]; rfl⟩
  · exact ⟨_, by simp only [if_neg hlim]; rfl⟩

/-- A request is allowed once the TAT that the key may hold leaves room for it. -/
theorem call_allowed (hfl : Double.IntegerExact fl) (hr : r.Valid)
    (hroom : now + 2 * r.burstOffset ≤ 2 ^ 53) (hnow : scriptNow fl srv arg = some (now : ℚ))
    {x : ℕ} (hx : AtMost fl (srv.keyspace r.key) x)
    (hfits : x + r.emissionInterval * r.cost ≤ now + r.burstOffset) :
    ∃ reply, (r.call fl srv arg).2 = .ok reply ∧ reply.allowed = 1 := by
  obtain ⟨y, capped, hreads, hcall⟩ := call_eq hfl hr hroom hnow
  have hbound := hreads.bound x hx
  have hcost := hr.cost_le
  have hlim : ¬ now + r.burstOffset < y + r.emissionInterval * r.cost := by omega
  rw [hcall]
  simp only [if_neg hlim]
  exact ⟨_, rfl, rfl⟩

/-- A TAT further ahead than one burst counts as a full bucket and is stored as one: a
    request that costs anything is limited, and waits for its own cost. -/
theorem call_capped (hfl : Double.IntegerExact fl) (hr : r.Valid)
    (hroom : now + 2 * r.burstOffset ≤ 2 ^ 53) (hnow : scriptNow fl srv arg = some (now : ℚ))
    {tat : ℕ} (htat : storedNumber fl (srv.keyspace r.key) = some (.fin tat))
    (hlate : now + r.burstOffset < tat) (hcost : 0 < r.cost) :
    r.call fl srv arg = (srv.store r.key now (now + r.burstOffset),
      .ok (limitedReply r.emissionInterval r.burstOffset r.cost now (now + r.burstOffset))) := by
  obtain ⟨x, capped, hreads, hcall⟩ := call_eq hfl hr hroom hnow
  have hle := hreads.le_full
  have hneed : 0 < r.emissionInterval * r.cost := Nat.mul_pos hr.interval_pos hcost
  have hcapped : capped = true := by
    by_contra hc
    have hkept : (tat : ℚ) ≤ x := hreads.kept (Bool.eq_false_of_not_eq_true hc) _ htat
      (by rw [Int.floor_natCast, Int.cast_natCast])
    have : tat ≤ x := by exact_mod_cast hkept
    omega
  obtain rfl := hreads.full hcapped
  have hlim : now + r.burstOffset < now + r.burstOffset + r.emissionInterval * r.cost := by omega
  rw [hcall]
  simp only [if_pos hlim, if_pos hcapped]

/-- After a limited request the key holds nothing later than what was read. -/
theorem limited_atMost (hfl : Double.IntegerExact fl) {bo x : ℕ} {capped : Bool} {key : String}
    (hreads : Reads fl (srv.keyspace key) now bo x capped) (hmax : now + bo ≤ 2 ^ 53) :
    AtMost fl ((if capped then srv.store key now x else srv).keyspace key) x := by
  cases capped with
  | true => exact atMost_put hfl srv key _ (hreads.le_full.trans hmax)
  | false => exact hreads.kept rfl

end Request

/-- **No lockout.** Whatever `KEYS[1]` holds and whatever the time is, a request whose
    cost fits into the burst gets a decision. If it is limited, it is asked to wait for
    at most `cost` intervals, with a reset after at most one burst. After any number
    of further calls, of which none is an allowed request of the key, the same request
    is allowed at every time that is later by at least the wait it was given. Every
    time leaves room for two bursts below `2⁵³`. -/
theorem never_locked_out (srv : Server) (arg : String) (r : Request) (now : ℕ) (hr : r.Valid)
    (hroom : now + 2 * r.burstOffset ≤ 2 ^ 53)
    (hnow : scriptNow Double.round srv arg = some (now : ℚ)) :
    ∃ reply, (r.call Double.round srv arg).2 = .ok reply ∧
      (reply.allowed = 1 ∨
        reply.allowed = 0 ∧
        0 < reply.retryAfterUs ∧ reply.retryAfterUs ≤ r.cost * r.emissionInterval ∧
        0 ≤ reply.resetAfterUs ∧ reply.resetAfterUs ≤ r.burstOffset ∧
        ∀ srv', Relation.ReflTransGen (LimitedStep Double.round r.key)
            (r.call Double.round srv arg).1 srv' →
          ∀ (timeUs : ℕ) (dropped : String → Bool) (arg' : String) (now' : ℕ),
            scriptNow Double.round (srv'.advance timeUs dropped) arg' = some (now' : ℚ) →
            now + reply.retryAfterUs ≤ now' → now' + 2 * r.burstOffset ≤ 2 ^ 53 →
            ∃ reply', (r.call Double.round (srv'.advance timeUs dropped) arg').2 = .ok reply' ∧
              reply'.allowed = 1) := by
  have hfl := Double.integerExact_round
  obtain ⟨x, capped, hreads, hcall⟩ := Request.call_eq hfl hr hroom hnow
  have hle := hreads.le_full
  have hfrom := hreads.now_le
  have hcost := hr.cost_le
  by_cases hlim : now + r.burstOffset < x + r.emissionInterval * r.cost
  · simp only [if_pos hlim] at hcall
    rw [hcall]
    refine ⟨_, rfl, Or.inr ⟨rfl, ?_, ?_, ?_, ?_, ?_⟩⟩
    · simp only [limitedReply]; omega
    · rw [← Nat.cast_mul, mul_comm r.cost, limitedReply]
      simp only
      omega
    · simp only [limitedReply]; omega
    · simp only [limitedReply]; omega
    · intro srv' hsteps timeUs dropped arg' now' hnow' hwait hroom'
      simp only [limitedReply] at hwait
      have hx := atMost_of_limitedSteps Double.integerRounding_round
        (Request.limited_atMost hfl hreads (by omega)) hsteps
      exact Request.call_allowed hfl hr hroom' hnow' (hx.advance timeUs dropped) (by omega)
  · simp only [if_neg hlim] at hcall
    rw [hcall]
    exact ⟨_, rfl, Or.inl rfl⟩

/-- Four requests a second, as the script gets them. -/
def fourPerSecondRequest : Request := ⟨"trt:free:alice", 250000, 1000000, 1⟩

/-- The key holds a TAT 100 seconds ahead, left by a clock that was ahead. -/
def clockMovedBack : Server :=
  ⟨fun key => if key = "trt:free:alice" then some ⟨.string "101000000", none⟩ else none, 1000000⟩

theorem storedNumber_clockMovedBack :
    storedNumber Double.round (clockMovedBack.keyspace "trt:free:alice") =
      some (.fin (101000000 : ℕ)) :=
  storedNumber_natCast Double.integerExact_round (n := 101000000) (by decide) none

/-- At one second the request is limited and stores a full burst. -/
theorem clockMovedBack_call :
    fourPerSecondRequest.call Double.round clockMovedBack "" =
      (clockMovedBack.store "trt:free:alice" 1000000 2000000,
        .ok (limitedReply 250000 1000000 1 1000000 2000000)) := by
  have hfl := Double.integerExact_round
  have hnow := scriptNow_clock hfl clockMovedBack (by decide)
  exact Request.call_capped hfl ⟨by decide, by decide, by decide⟩ (by decide) hnow
    storedNumber_clockMovedBack (by decide) (by decide)

/-- The limited request, sent again a quarter of a second later, is allowed. -/
theorem never_locked_out_clockMovedBack :
    ∃ reply, (fourPerSecondRequest.call Double.round clockMovedBack "").2 = .ok reply ∧
      reply.allowed = 0 ∧ reply.retryAfterUs ≤ 250000 ∧
      ∃ reply', (fourPerSecondRequest.call Double.round
          ((fourPerSecondRequest.call Double.round clockMovedBack "").1.advance 1250000
            fun _ => true) "").2 = .ok reply' ∧ reply'.allowed = 1 := by
  have hfl := Double.integerExact_round
  have hvalid : fourPerSecondRequest.Valid := ⟨by decide, by decide, by decide⟩
  have hnow := scriptNow_clock hfl clockMovedBack (by decide)
  obtain ⟨reply, hok, h⟩ :=
    never_locked_out clockMovedBack "" fourPerSecondRequest 1000000 hvalid (by decide) hnow
  have hlimited := congrArg Prod.snd clockMovedBack_call
  obtain rfl := Except.ok.inj (hlimited.symm.trans hok)
  refine ⟨_, hok, rfl, by decide, ?_⟩
  rcases h with hallowed | ⟨-, -, -, -, -, hretry⟩
  · exact absurd hallowed (by decide)
  · apply hretry _ .refl 1250000 (fun _ => true) "" 1250000
    · exact scriptNow_clock hfl _ (by simp [Server.advance])
    · decide
    · decide

end TowerRateTier.Redis
