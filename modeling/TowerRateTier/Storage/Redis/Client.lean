import TowerRateTier.Storage.Basic
import TowerRateTier.Storage.Redis.Script

/-!
# `RedisStorage`

Model of `src/storage/redis.rs`: the key and the arguments of a script call, and
the decision read from its reply. SHA-1 is a parameter. The connection is the
server itself: a check is the run of the script, and its reply arrives in time.

* `microsCeil_eq`: a whole number of microseconds is converted exactly.
* `decodeReply_limited`, `decodeReply_allowed`: the decision behind a reply.
-/

namespace TowerRateTier

/-! ## Digests -/

/-- Model of `sha1_smol::Digest`: 20 bytes. -/
structure Digest where
  bytes : List UInt8
  length_eq : bytes.length = 20

/-- `Display` of a digest: two lower-case hexadecimal digits a byte. -/
def Digest.display (d : Digest) : String :=
  .ofList (d.bytes.flatMap fun b => [(b.toNat / 16).digitChar, (b.toNat % 16).digitChar])

/-- The SHA-1 digest of `alice`. -/
def digestOfAlice : Digest :=
  ⟨[0x52, 0x2b, 0x27, 0x6a, 0x35, 0x6b, 0xdf, 0x39, 0x01, 0x3d, 0xfa, 0xbe,
    0xa2, 0xcd, 0x43, 0xe1, 0x41, 0xec, 0xc9, 0xe8], rfl⟩

/-- `hmac_sha1` (lines 241–257) over a SHA-1 function. The block has 64 bytes. -/
def hmacSha1 (sha1 : List UInt8 → Digest) (secret message : List UInt8) : Digest :=
  let block := 64
  let key := if secret.length > block then (sha1 secret).bytes else secret
  let key := key ++ List.replicate (block - key.length) 0
  let inner := sha1 (key.map (· ^^^ 0x36) ++ message)
  sha1 (key.map (· ^^^ 0x5c) ++ inner.bytes)

/-! ## Model -/

/-- Model of `RedisStorage` (lines 73–81), without its connection, the handle of
    the script and the timeout. -/
structure RedisStorage where
  keyPrefix : String
  hashUserIds : Bool
  keySecret : Option (List UInt8)
  clientClock : Bool
deriving DecidableEq, Repr

/-- Model of `ScriptCall` (lines 167–174). -/
structure ScriptCall where
  key : String
  now : String
  emissionInterval : UInt64
  burstOffset : UInt64
  cost : UInt32
deriving DecidableEq, Repr

/-- The arguments in the order in which the call sends them (lines 222–225). -/
def ScriptCall.argv (call : ScriptCall) : List String :=
  [call.now, toString call.emissionInterval, toString call.burstOffset, toString call.cost]

/-- `micros_ceil` (lines 260–262). -/
def microsCeil (nanos : Nanos) : UInt64 :=
  nanos / 1000 + if nanos % 1000 ≠ 0 then 1 else 0

/-- `decode_reply` (lines 265–283). A negative time counts as zero, and
    `remaining` is clamped to a `u32`. -/
def decodeReply (reply : Redis.Reply) (limit : UInt32) : Decision :=
  let micros (value : ℤ) : Duration := .fromMicros (UInt64.ofNat value.toNat)
  if reply.allowed = 1 then
    .ok
      { limit
        remaining := UInt32.ofNatClamp (max reply.remaining 0).toNat
        resetAfter := micros reply.resetAfterUs }
  else
    .error
      { limit
        retryAfter := micros reply.retryAfterUs
        resetAfter := micros reply.resetAfterUs }

/-- The `match` on the reply of the script (lines 229–231): an error reply is an
    error of the storage. -/
def invocationResult (reply : Except String Redis.Reply) (limit : UInt32) : StorageResult :=
  match reply with
  | .ok reply => .ok (decodeReply reply limit)
  | .error err => .error ⟨err⟩

namespace RedisStorage

/-- `RedisStorage::new` (lines 85–95). -/
def new : RedisStorage where
  keyPrefix := "trt:"
  hashUserIds := true
  keySecret := none
  clientClock := false

section Keys

variable (sha1 : List UInt8 → Digest) (st : RedisStorage)

/-- `RedisStorage::redis_key` (lines 146–162). -/
def redisKey (key : StorageKey) : String :=
  if st.hashUserIds then
    let userId := key.userId.toUTF8.toList
    let digest :=
      match st.keySecret with
      | some secret => hmacSha1 sha1 secret userId
      | none => sha1 userId
    st.keyPrefix ++ key.tier ++ ":" ++ digest.display
  else
    st.keyPrefix ++ toString key.tier.utf8ByteSize ++ ":" ++ key.tier ++ ":" ++ key.userId

/-- `RedisStorage::script_call` (lines 178–191). -/
def scriptCall (key : StorageKey) (quota : Quota) (cost : UInt32) (now : Nanos) : ScriptCall :=
  let emissionInterval := max (microsCeil quota.emissionIntervalNanos) 1
  { key := st.redisKey sha1 key
    now := if st.clientClock then toString (now / 1000) else ""
    emissionInterval
    burstOffset := emissionInterval.saturatingMul quota.maxBurst.toUInt64
    cost }

/-- `RedisStorage::check_and_update` (lines 210–237). -/
def checkAndUpdate (srv : Redis.Server) (key : StorageKey) (quota : Quota) (cost : UInt32)
    (now : Nanos) : Redis.Server × StorageResult :=
  let call := st.scriptCall sha1 key quota cost now
  let (srv', reply) := Redis.gcra Double.round srv [call.key] call.argv
  (srv', invocationResult reply quota.maxBurst)

/-- `RedisStorage` as a backend. -/
def storage : Storage Redis.Server := ⟨st.checkAndUpdate sha1⟩

end Keys

end RedisStorage

/-! ## Conversions -/

theorem toNat_microsCeil (nanos : Nanos) :
    (microsCeil nanos).toNat =
      nanos.toNat / 1000 + if nanos.toNat % 1000 ≠ 0 then 1 else 0 := by
  have hlt := nanos.toNat_lt
  have hdiv : (nanos / 1000).toNat = nanos.toNat / 1000 := UInt64.toNat_div ..
  have hmod : nanos % 1000 ≠ 0 ↔ nanos.toNat % 1000 ≠ 0 := by
    rw [ne_eq, ← UInt64.toNat_inj, UInt64.toNat_mod]
    rfl
  have hone : (if nanos % 1000 ≠ 0 then (1 : Nanos) else 0).toNat =
      if nanos.toNat % 1000 ≠ 0 then 1 else 0 := by
    rw [apply_ite UInt64.toNat, if_congr hmod rfl rfl]
    rfl
  rw [microsCeil, UInt64.toNat_add, hdiv, hone]
  apply Nat.mod_eq_of_lt
  split_ifs <;> omega

/-- A whole number of microseconds is converted exactly. -/
theorem microsCeil_eq {nanos : Nanos} (h : 1000 ∣ nanos.toNat) :
    (microsCeil nanos).toNat = nanos.toNat / 1000 := by
  have hz : nanos.toNat % 1000 = 0 := Nat.mod_eq_zero_of_dvd h
  rw [toNat_microsCeil, if_neg (not_not.mpr hz), Nat.add_zero]

/-- The conversion never shortens a duration. -/
theorem le_microsCeil (nanos : Nanos) : nanos.toNat ≤ 1000 * (microsCeil nanos).toNat := by
  rw [toNat_microsCeil]
  split_ifs <;> omega

theorem decodeReply_limited (limit : UInt32) (ei bo cost now tat : ℕ) :
    decodeReply (Redis.limitedReply ei bo cost now tat) limit =
      .error
        { limit
          retryAfter := .fromMicros (UInt64.ofNat (tat + ei * cost - bo - now))
          resetAfter := .fromMicros (UInt64.ofNat (tat - now)) } := by
  simp [decodeReply, Redis.limitedReply]

theorem decodeReply_allowed (limit : UInt32) (ei bo now newTat : ℕ) :
    decodeReply (Redis.allowedReply ei bo now newTat) limit =
      .ok
        { limit
          remaining := UInt32.ofNatClamp ((bo - (newTat - now)) / ei)
          resetAfter := .fromMicros (UInt64.ofNat (newTat - now)) } := by
  have hrem : (max (((bo - (newTat - now)) / ei : ℕ) : ℤ) 0).toNat =
      (bo - (newTat - now)) / ei := by
    rw [max_eq_left (Int.natCast_nonneg _), Int.toNat_natCast]
  simp only [decodeReply, Redis.allowedReply, if_true, hrem, Int.toNat_natCast]

end TowerRateTier
