import TowerRateTier.Lib.LuaNumber
import Mathlib.Logic.Function.Basic

/-!
# The Redis script

Model of `src/storage/gcra.lua` and of the Redis commands it runs. Redis runs
the whole script atomically, so one call is a function of the server's state.

Lua's numbers are doubles: each arithmetic operation is the exact one followed
by the rounding `fl`, and `Double.round` is the rounding of the real script. All
operands are below `2⁶⁴`, so no operation overflows. Only `tonumber` meets
numbers that are not finite.

* `decision_exact`, `decision_eq`: on natural numbers within `2⁵³` the script
  decides in exact arithmetic, whatever the rounding does beyond.
-/

namespace TowerRateTier.Redis

/-! ## The server -/

/-- What a key holds: a string, or a value of another type. -/
inductive Value where
  | string (s : String)
  | other
deriving DecidableEq, Repr

/-- A key with its expiry, in microseconds on the clock of the script. -/
structure Entry where
  value : Value
  expiresAt : Option ℕ
deriving DecidableEq, Repr

/-- The keyspace and the clock that `TIME` reads, in microseconds. -/
structure Server where
  keyspace : String → Option Entry
  timeUs : ℕ

/-- The reply to `GET`, as `redis.pcall` hands it to Lua. -/
inductive GetReply where
  | nil
  | bulk (s : String)
  | wrongType
deriving DecidableEq, Repr

namespace Server

/-- `GET key`. -/
def get (srv : Server) (key : String) : GetReply :=
  match srv.keyspace key with
  | none => .nil
  | some ⟨.string s, _⟩ => .bulk s
  | some ⟨.other, _⟩ => .wrongType

/-- A key with a string and a time to live in milliseconds. -/
def put (srv : Server) (key value : String) (ms : ℕ) : Server :=
  { srv with keyspace :=
      Function.update srv.keyspace key (some ⟨.string value, some (srv.timeUs + ms * 1000)⟩) }

/-- `SET key value PX ms`: replaces a value of any type, and rejects a time to
    live below one millisecond. -/
def set (srv : Server) (key value : String) (ms : ℤ) : Except String Server :=
  if ms < 1 then .error "ERR invalid expire time in 'set' command"
  else .ok (srv.put key value ms.toNat)

/-- `TIME`: seconds and microseconds, as two strings. -/
def time (srv : Server) : String × String :=
  (toString (srv.timeUs / 1000000), toString (srv.timeUs % 1000000))

end Server

/-- Model of `Reply` (`redis.rs` line 18), four `i64`. -/
structure Reply where
  allowed : ℤ
  remaining : ℤ
  retryAfterUs : ℤ
  resetAfterUs : ℤ
deriving DecidableEq, Repr

/-- The argument that Redis makes of a number passed to `redis.call`: exact for
    integers, and the script passes no other number. -/
def redisArg (n : ℚ) : String := toString ⌊n⌋

/-- The integer that Redis makes of a number the script returns: truncation. -/
def redisInteger (n : ℚ) : ℤ := if n < 0 then ⌈n⌉ else ⌊n⌋

/-! ## The script -/

/-- `MAX_EXACT` (line 70). -/
def maxExact : ℚ := 2 ^ 53

/-- The text of an error reply, `fail` (lines 72–74). -/
def fail (reason : String) : String := "ERR tower-rate-tier: " ++ reason

/-- The test of `exact_integer` on a number (lines 80–83). -/
def exactNumber : Lua.Number → Option ℚ
  | .fin n => if n < 0 ∨ n ≥ maxExact ∨ n ≠ ⌊n⌋ then none else some n
  | .inf _ => none
  | .nan => none

section Script

variable (fl : ℚ → ℚ)

/-- `exact_integer` on a string (lines 78–84). -/
def exactInteger (value : String) : Option ℚ := (Lua.tonumber fl value).bind exactNumber

/-- An argument check: `fail` unless the number is there and accepted. -/
def require (reason : String) (value : Option ℚ) (accept : ℚ → Bool) : Except String ℚ :=
  match value with
  | none => .error (fail reason)
  | some n => if accept n then .ok n else .error (fail reason)

/-- `now` (lines 103–112). -/
def scriptNow (srv : Server) (arg : String) : Option ℚ :=
  if arg = "" then
    match Lua.tonumber fl srv.time.1, Lua.tonumber fl srv.time.2 with
    | some (.fin seconds), some (.fin micros) =>
      exactNumber (.fin (fl (fl (seconds * 1000000) + micros)))
    | _, _ => none
  else exactInteger fl arg

/-- The arguments of a script call, after the checks. -/
structure Args where
  key : String
  emissionInterval : ℚ
  burstOffset : ℚ
  cost : ℚ
  now : ℚ

/-- The argument checks (lines 86–115). -/
def readArgs (srv : Server) (keys argv : List String) : Except String Args :=
  match keys, argv with
  | [key], [now, emissionInterval, burstOffset, cost] => do
    let emissionInterval ← require "invalid emission interval"
      (exactInteger fl emissionInterval) fun n => 1 ≤ n
    let burstOffset ← require "invalid burst offset"
      (exactInteger fl burstOffset) fun n => emissionInterval ≤ n
    let cost ← require "invalid cost" (exactInteger fl cost) fun _ => true
    let now ← require "invalid time" (scriptNow fl srv now) fun _ => true
    return { key, emissionInterval, burstOffset, cost, now }
  | _, _ => .error (fail "expected 1 key and 4 arguments")

/-- The stored TAT, and whether it was capped (lines 120–131). `math.floor`
    keeps an infinity, so only the two comparisons look at it. -/
def storedTat (srv : Server) (args : Args) : ℚ × Bool :=
  let stored :=
    match srv.get args.key with
    | .bulk s => Lua.tonumber fl s
    | .nil => none
    | .wrongType => none
  let cap := fl (args.now + args.burstOffset)
  match stored with
  | none => (args.now, false)
  | some .nan => (args.now, false)
  | some (.inf negative) => if negative then (args.now, false) else (cap, true)
  | some (.fin tat) =>
    if tat ≠ ⌊tat⌋ ∨ tat < args.now then (args.now, false)
    else if tat > cap then (cap, true)
    else (tat, false)

/-- `math.ceil(us / 1000)`. -/
def ceilMs (us : ℚ) : ℤ := ⌈fl (us / 1000)⌉

/-- `redis.call("SET", …)` followed by a `return`: an error of the command ends
    the script. -/
def setAndReturn (srv : Server) (key : String) (value : ℚ) (ms : ℤ) (reply : Reply) :
    Server × Except String Reply :=
  match srv.set key (redisArg value) ms with
  | .error err => (srv, .error err)
  | .ok srv' => (srv', .ok reply)

/-- The decision on a TAT (lines 133–152). -/
def decision (srv : Server) (args : Args) (tat : ℚ) (capped : Bool) :
    Server × Except String Reply :=
  let increment := fl (args.emissionInterval * args.cost)
  if increment > fl (maxExact - tat) then
    (srv, .error (fail "time values exceed the exact range of Lua numbers"))
  else
    let newTat := fl (tat + increment)
    let allowAt := fl (newTat - args.burstOffset)
    if allowAt > args.now then
      let reply : Reply :=
        { allowed := 0
          remaining := 0
          retryAfterUs := redisInteger (fl (allowAt - args.now))
          resetAfterUs := redisInteger (fl (tat - args.now)) }
      if capped then setAndReturn srv args.key tat (ceilMs fl (fl (tat - args.now))) reply
      else (srv, .ok reply)
    else
      let ahead := fl (newTat - args.now)
      let remaining := ⌊fl (fl (args.burstOffset - ahead) / args.emissionInterval)⌋
      let reply : Reply :=
        { allowed := 1
          remaining := redisInteger remaining
          retryAfterUs := 0
          resetAfterUs := redisInteger ahead }
      if newTat > args.now then setAndReturn srv args.key newTat (ceilMs fl ahead) reply
      else (srv, .ok reply)

/-- The whole script: the server after it and the reply or the error reply. -/
def gcra (srv : Server) (keys argv : List String) : Server × Except String Reply :=
  match readArgs fl srv keys argv with
  | .error err => (srv, .error err)
  | .ok args =>
    let (tat, capped) := storedTat fl srv args
    decision fl srv args tat capped

end Script

/-! ## The decision on natural numbers -/

@[simp] theorem redisArg_natCast (n : ℕ) : redisArg n = toString n := by
  rw [redisArg, Int.floor_natCast]; rfl

@[simp] theorem redisInteger_intCast (k : ℤ) : redisInteger k = k := by
  unfold redisInteger
  split_ifs <;> simp

@[simp] theorem redisInteger_natCast (n : ℕ) : redisInteger n = n :=
  redisInteger_intCast n

/-- A number of microseconds in milliseconds, rounded up. -/
def ttlMs (us : ℕ) : ℕ := us / 1000 + if 1000 ∣ us then 0 else 1

theorem le_ttlMs (us : ℕ) : us ≤ ttlMs us * 1000 := by
  unfold ttlMs
  split_ifs <;> omega

/-- A time to live is too long by less than a millisecond. -/
theorem ttlMs_lt {us : ℕ} (h : 0 < us) : (ttlMs us - 1) * 1000 < us := by
  unfold ttlMs
  split_ifs with hdvd <;> omega

theorem ttlMs_le (us : ℕ) : ttlMs us ≤ us / 1000 + 1 := by
  unfold ttlMs
  split_ifs <;> omega

theorem ttlMs_pos {us : ℕ} (h : 0 < us) : 1 ≤ ttlMs us := by
  have := le_ttlMs us
  omega

theorem ceilMs_natCast {fl : ℚ → ℚ} (hfl : Double.IntegerExact fl) {us : ℕ} (h : us < 2 ^ 53) :
    ceilMs fl us = ttlMs us := by
  have := hfl.ceil_div us 1000 h (by norm_num) (by norm_num)
  exact_mod_cast this

theorem setAndReturn_natCast (srv : Server) (key : String) (value ms : ℕ) (reply : Reply)
    (h : 1 ≤ ms) :
    setAndReturn srv key value ms reply = (srv.put key (toString value) ms, .ok reply) := by
  have : ¬ (ms : ℤ) < 1 := by omega
  simp [setAndReturn, Server.set, this]

/-- The reply to a limited request whose TAT is `tat`. -/
def limitedReply (ei bo cost now tat : ℕ) : Reply where
  allowed := 0
  remaining := 0
  retryAfterUs := ((tat + ei * cost - bo - now : ℕ) : ℤ)
  resetAfterUs := ((tat - now : ℕ) : ℤ)

/-- The reply to an allowed request whose new TAT is `newTat`. -/
def allowedReply (ei bo now newTat : ℕ) : Reply where
  allowed := 1
  remaining := (((bo - (newTat - now)) / ei : ℕ) : ℤ)
  retryAfterUs := 0
  resetAfterUs := ((newTat - now : ℕ) : ℤ)

/-- A TAT with its expiry is stored only when it is in the future. -/
def Server.store (srv : Server) (key : String) (now tat : ℕ) : Server :=
  srv.put key (toString tat) (ttlMs (tat - now))

/-- The room that the guard leaves above a TAT. -/
theorem fl_maxExact_sub {fl : ℚ → ℚ} (hfl : Double.IntegerExact fl) {tat : ℕ} (h : tat ≤ 2 ^ 53) :
    fl (maxExact - tat) = ((2 ^ 53 - tat : ℕ) : ℚ) := by
  have hsub := hfl.sub_natCast (le_refl (2 ^ 53)) h
  rw [maxExact]
  exact_mod_cast hsub

/-- Once the increment fits, every operation of the decision is exact. -/
theorem decision_exact {fl : ℚ → ℚ} (hfl : Double.IntegerExact fl) (srv : Server) (key : String)
    {ei bo now tat inc : ℕ} {cost : ℚ} {capped : Bool} (hei : 1 ≤ ei) (heb : ei ≤ bo)
    (hbo : bo < 2 ^ 53) (hnow : now ≤ tat) (htat : tat ≤ now + bo)
    (hcapped : capped = true → now < tat) (hinc : fl (ei * cost) = inc)
    (hmax : tat + inc ≤ 2 ^ 53) :
    decision fl srv ⟨key, ei, bo, cost, now⟩ tat capped =
      if now + bo < tat + inc then
        (if capped then srv.store key now tat else srv,
          .ok
            { allowed := 0
              remaining := 0
              retryAfterUs := ((tat + inc - bo - now : ℕ) : ℤ)
              resetAfterUs := ((tat - now : ℕ) : ℤ) })
      else
        (if now < tat + inc then srv.store key now (tat + inc) else srv,
          .ok (allowedReply ei bo now (tat + inc))) := by
  have hroom := fl_maxExact_sub hfl (show tat ≤ 2 ^ 53 by omega)
  have hnoerr : ¬ (inc : ℚ) > ((2 ^ 53 - tat : ℕ) : ℚ) := by
    rw [gt_iff_lt, Nat.cast_lt]; omega
  have hnew : fl ((tat : ℚ) + inc) = ((tat + inc : ℕ) : ℚ) := hfl.add_natCast hmax
  have hahead : fl (((tat + inc : ℕ) : ℚ) - now) = ((tat + inc - now : ℕ) : ℚ) :=
    hfl.sub_natCast hmax (by omega)
  -- the allow-at time is the only value that can be negative
  have hallow : fl (((tat + inc : ℕ) : ℚ) - bo) = (((tat + inc : ℕ) - bo : ℤ) : ℚ) :=
    hfl.sub_intCast (by rw [abs_le]; omega)
  have hcmp : (((tat + inc : ℕ) - bo : ℤ) : ℚ) > now ↔ now + bo < tat + inc := by
    rw [gt_iff_lt, ← Int.cast_natCast (R := ℚ) now, Int.cast_lt]; omega
  have hfut : ((tat + inc : ℕ) : ℚ) > now ↔ now < tat + inc := by
    rw [gt_iff_lt, Nat.cast_lt]
  unfold decision
  simp only [hinc, hroom, hnoerr, if_false, hnew, hallow, hahead, hcmp, hfut]
  by_cases hlim : now + bo < tat + inc
  · have hretry : fl (((tat + inc : ℕ) - bo : ℤ) - (now : ℚ)) =
        ((tat + inc - bo - now : ℕ) : ℚ) := by
      have hz : (((tat + inc : ℕ) - bo : ℤ) : ℚ) = ((tat + inc - bo : ℕ) : ℚ) := by
        rw [← Int.cast_natCast (R := ℚ) (tat + inc - bo), Nat.cast_sub (by omega)]
      rw [hz]; exact hfl.sub_natCast (by omega) (by omega)
    have hreset : fl ((tat : ℚ) - now) = ((tat - now : ℕ) : ℚ) :=
      hfl.sub_natCast (by omega) hnow
    rw [if_pos hlim, if_pos hlim]
    simp only [hretry, hreset, redisInteger_natCast, ceilMs_natCast hfl (show tat - now < 2 ^ 53 by omega)]
    split_ifs with hc
    · have := hcapped hc
      rw [setAndReturn_natCast _ _ _ _ _ (ttlMs_pos (by omega))]
      rfl
    · rfl
  · have hleft : fl ((bo : ℚ) - (tat + inc - now : ℕ)) =
        ((bo - (tat + inc - now) : ℕ) : ℚ) := hfl.sub_natCast (by omega) (by omega)
    have hrem := hfl.floor_div (bo - (tat + inc - now)) ei (by omega) hei (by omega)
    rw [if_neg hlim, if_neg hlim]
    simp only [hleft, hrem, redisInteger_natCast, redisInteger_intCast,
      ceilMs_natCast hfl (show tat + inc - now < 2 ^ 53 by omega)]
    split_ifs with hf
    · rw [setAndReturn_natCast _ _ _ _ _ (ttlMs_pos (by omega))]
      rfl
    · rfl

/-- Within `2⁵³` the increment is exact as well. -/
theorem decision_eq {fl : ℚ → ℚ} (hfl : Double.IntegerExact fl) (srv : Server) (key : String)
    {ei bo cost now tat : ℕ} {capped : Bool} (hei : 1 ≤ ei) (heb : ei ≤ bo) (hbo : bo < 2 ^ 53)
    (hnow : now ≤ tat) (htat : tat ≤ now + bo) (hcapped : capped = true → now < tat)
    (hmax : tat + ei * cost ≤ 2 ^ 53) :
    decision fl srv ⟨key, ei, bo, cost, now⟩ tat capped =
      if now + bo < tat + ei * cost then
        (if capped then srv.store key now tat else srv, .ok (limitedReply ei bo cost now tat))
      else
        (if now < tat + ei * cost then srv.store key now (tat + ei * cost) else srv,
          .ok (allowedReply ei bo now (tat + ei * cost))) :=
  decision_exact hfl srv key hei heb hbo hnow htat hcapped (hfl.mul_natCast (by omega)) hmax

/-! ## A call with numerals in range -/

theorem tonumber_natCast {fl : ℚ → ℚ} (hfl : Double.IntegerExact fl) {n : ℕ} (hn : n ≤ 2 ^ 53) :
    Lua.tonumber fl (toString n) = some (.fin n) := by
  have hlt : |(n : ℚ)| < 2 ^ 1024 := by
    rw [abs_of_nonneg (by positivity)]
    calc (n : ℚ) ≤ 2 ^ 53 := by exact_mod_cast hn
      _ < 2 ^ 1024 := pow_lt_pow_right₀ (by norm_num) (by norm_num)
  rw [Lua.tonumber_toString, Lua.Number.ofRat_eq_fin (hfl.natCast hn) hlt]

theorem exactNumber_natCast {n : ℕ} (hn : n < 2 ^ 53) : exactNumber (.fin n) = some (n : ℚ) := by
  have h0 : ¬ (n : ℚ) < 0 := not_lt.mpr (by positivity)
  have h1 : ¬ (n : ℚ) ≥ maxExact := by
    rw [ge_iff_le, not_le, maxExact]; exact_mod_cast hn
  simp [exactNumber, h0, h1]

theorem exactInteger_natCast {fl : ℚ → ℚ} (hfl : Double.IntegerExact fl) {n : ℕ}
    (hn : n < 2 ^ 53) : exactInteger fl (toString n) = some (n : ℚ) := by
  rw [exactInteger, tonumber_natCast hfl hn.le, Option.bind_some, exactNumber_natCast hn]

/-- With an empty argument the script reads the server's clock. -/
theorem scriptNow_clock {fl : ℚ → ℚ} (hfl : Double.IntegerExact fl) (srv : Server)
    (h : srv.timeUs < 2 ^ 53) : scriptNow fl srv "" = some (srv.timeUs : ℚ) := by
  have hmul : fl (((srv.timeUs / 1000000 : ℕ) : ℚ) * 1000000) =
      ((srv.timeUs / 1000000 * 1000000 : ℕ) : ℚ) := by
    exact_mod_cast hfl.mul_natCast (a := srv.timeUs / 1000000) (b := 1000000) (by omega)
  have hadd : fl (((srv.timeUs / 1000000 * 1000000 : ℕ) : ℚ) + (srv.timeUs % 1000000 : ℕ)) =
      (srv.timeUs : ℚ) := by
    rw [← Nat.cast_add, Nat.div_add_mod' srv.timeUs 1000000]; exact hfl.natCast h.le
  simp only [scriptNow, if_true, Server.time,
    tonumber_natCast hfl (show srv.timeUs / 1000000 ≤ 2 ^ 53 by omega),
    tonumber_natCast hfl (show srv.timeUs % 1000000 ≤ 2 ^ 53 by omega), hmul, hadd]
  exact exactNumber_natCast h

theorem scriptNow_natCast {fl : ℚ → ℚ} (hfl : Double.IntegerExact fl) (srv : Server) {n : ℕ}
    (hn : n < 2 ^ 53) : scriptNow fl srv (toString n) = some (n : ℚ) := by
  have hne : toString n ≠ "" := Nat.repr_ne_empty
  rw [scriptNow, if_neg hne, exactInteger_natCast hfl hn]

theorem require_some (reason : String) {n : ℚ} {accept : ℚ → Bool} (h : accept n = true) :
    require reason (some n) accept = .ok n := by
  simp [require, h]

theorem readArgs_eq {fl : ℚ → ℚ} (hfl : Double.IntegerExact fl) (srv : Server) (key arg : String)
    {ei bo cost now : ℕ} (hei : 1 ≤ ei) (heb : ei ≤ bo) (hbo : bo < 2 ^ 53) (hcost : cost < 2 ^ 53)
    (hnow : scriptNow fl srv arg = some (now : ℚ)) :
    readArgs fl srv [key] [arg, toString ei, toString bo, toString cost] =
      .ok ⟨key, ei, bo, cost, now⟩ := by
  have h1 : (1 : ℚ) ≤ ei := by exact_mod_cast hei
  have h2 : (ei : ℚ) ≤ bo := by exact_mod_cast heb
  simp only [readArgs, exactInteger_natCast hfl (show ei < 2 ^ 53 by omega),
    exactInteger_natCast hfl hbo, exactInteger_natCast hfl hcost, hnow]
  rw [require_some _ (by simpa using h1)]
  simp only [bind, Except.bind]
  rw [require_some _ (by simpa using h2)]
  rfl

/-- The number that the script reads from a key. -/
def storedNumber (fl : ℚ → ℚ) (entry : Option Entry) : Option Lua.Number :=
  match entry with
  | some ⟨.string s, _⟩ => Lua.tonumber fl s
  | some ⟨.other, _⟩ => none
  | none => none

/-- A natural number that is stored as its numeral is read back. -/
theorem storedNumber_natCast {fl : ℚ → ℚ} (hfl : Double.IntegerExact fl) {n : ℕ}
    (hn : n ≤ 2 ^ 53) (expiresAt : Option ℕ) :
    storedNumber fl (some ⟨.string (toString n), expiresAt⟩) = some (.fin n) := by
  show Lua.tonumber fl (toString n) = _
  exact tonumber_natCast hfl hn

/-- The TAT of `storedTat` by the number that the key holds. -/
theorem storedTat_eq_number (fl : ℚ → ℚ) (srv : Server) (args : Args) :
    storedTat fl srv args =
      match storedNumber fl (srv.keyspace args.key) with
      | none => (args.now, false)
      | some .nan => (args.now, false)
      | some (.inf negative) =>
        if negative then (args.now, false) else (fl (args.now + args.burstOffset), true)
      | some (.fin tat) =>
        if tat ≠ ⌊tat⌋ ∨ tat < args.now then (args.now, false)
        else if tat > fl (args.now + args.burstOffset) then
          (fl (args.now + args.burstOffset), true)
        else (tat, false) := by
  unfold storedTat Server.get storedNumber
  rcases srv.keyspace args.key with - | ⟨- | -, expiresAt⟩ <;> rfl

/-- The key is absent, or holds a TAT that the script stored and that expires no
    earlier than it is due. -/
inductive Holds : Option Entry → ℕ → Prop where
  | absent : Holds none 0
  | stored (tat expiresAt : ℕ) (h : tat ≤ expiresAt) :
      Holds (some ⟨.string (toString tat), some expiresAt⟩) tat

/-- What the script stores does not expire before it is due. -/
theorem holds_store (srv : Server) (key : String) {now tat : ℕ} (htime : srv.timeUs = now) :
    Holds ((srv.store key now tat).keyspace key) tat := by
  have := le_ttlMs (tat - now)
  simp only [Server.store, Server.put, Function.update_self]
  exact .stored tat _ (by omega)

/-- A TAT that the script stored is never capped while time goes forward. -/
theorem storedTat_eq {fl : ℚ → ℚ} (hfl : Double.IntegerExact fl) (srv : Server) {key : String}
    {x : ℕ} (hx : Holds (srv.keyspace key) x) {bo now : ℕ} (ei cost : ℚ) (hxb : x ≤ now + bo)
    (hmax : now + bo ≤ 2 ^ 53) :
    storedTat fl srv ⟨key, ei, bo, cost, now⟩ = (((max x now : ℕ) : ℚ), false) := by
  have hcap : fl ((now : ℚ) + bo) = ((now + bo : ℕ) : ℚ) := hfl.add_natCast hmax
  rw [storedTat_eq_number]
  simp only [hcap]
  generalize srv.keyspace key = entry at hx
  cases hx with
  | absent => rw [max_eq_right (Nat.zero_le now)]; rfl
  | stored _ expiresAt hexp =>
    have hnum := storedNumber_natCast hfl (show x ≤ 2 ^ 53 by omega) (some expiresAt)
    have hgt : ¬ (x : ℚ) > ((now + bo : ℕ) : ℚ) := by rw [gt_iff_lt, Nat.cast_lt]; omega
    simp only [hnum, Int.floor_natCast, Int.cast_natCast, ne_eq, not_true_eq_false, false_or,
      Nat.cast_lt, hgt, if_false]
    split_ifs with hlt
    · rw [max_eq_right hlt.le]
    · rw [max_eq_left (by omega)]

/-- **One call.** On a bucket that only the script has written, with arguments
    in range, the script is the GCRA in natural numbers. -/
theorem gcra_eq {fl : ℚ → ℚ} (hfl : Double.IntegerExact fl) (srv : Server) {key arg : String}
    {x : ℕ} (hx : Holds (srv.keyspace key) x) {ei bo cost now : ℕ} (hei : 1 ≤ ei) (heb : ei ≤ bo)
    (hcost : ei * cost ≤ bo) (hxb : x ≤ now + bo) (hmax : now + 2 * bo ≤ 2 ^ 53)
    (hnow : scriptNow fl srv arg = some (now : ℚ)) :
    gcra fl srv [key] [arg, toString ei, toString bo, toString cost] =
      let newTat := max x now + ei * cost
      if now + bo < newTat then (srv, .ok (limitedReply ei bo cost now (max x now)))
      else (if now < newTat then srv.store key now newTat else srv,
        .ok (allowedReply ei bo now newTat)) := by
  have hcost' : cost < 2 ^ 53 := by
    have : 1 * cost ≤ ei * cost := Nat.mul_le_mul_right _ hei
    omega
  have hdec : decision fl srv ⟨key, ei, bo, cost, now⟩ (max x now : ℕ) false = _ :=
    decision_eq hfl srv key hei heb (by omega) (le_max_right x now) (max_le hxb (by omega))
      (by simp) (by omega)
  rw [gcra, readArgs_eq hfl srv key arg hei heb (by omega) hcost' hnow]
  simp only [storedTat_eq hfl srv hx _ _ hxb (by omega), hdec]
  simp

end TowerRateTier.Redis
