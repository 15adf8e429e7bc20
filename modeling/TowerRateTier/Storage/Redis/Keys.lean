import TowerRateTier.Storage.Redis.Client
import TowerRateTier.Lib.Concatenation

/-!
# The keys of `RedisStorage`

`RedisStorage::redis_key` promises that distinct storage keys map to distinct
Redis keys. User ids and tier names are any strings: they may contain the
separator, digits, the prefix or the digest of another user id.

* `hashedKey_inj`: the hashed form ends with a digest of fixed length.
* `plainKey_inj`: the plain form is read from its first separator on, with the
  length of the tier name in bytes.
* `redis_key_injective`: so a storage never uses one Redis key for two storage
  keys, unless the digests of two user ids collide.
-/

namespace TowerRateTier

/-! ## Digests -/

theorem digitChar_inj : ∀ a < 16, ∀ b < 16, a.digitChar = b.digitChar → a = b := by
  decide

/-- Two digits tell a byte. -/
theorem displayByte_inj (b b' : UInt8)
    (h : [(b.toNat / 16).digitChar, (b.toNat % 16).digitChar] =
      [(b'.toNat / 16).digitChar, (b'.toNat % 16).digitChar]) : b = b' := by
  have hb := b.toNat_lt
  have hb' := b'.toNat_lt
  obtain ⟨hhigh, hlow⟩ := List.cons.inj h
  have h1 := digitChar_inj _ (by omega) _ (by omega) hhigh
  have h2 := digitChar_inj _ (by omega) _ (by omega) (List.cons.inj hlow).1
  rw [← UInt8.toNat_inj]
  omega

namespace Digest

/-- A digest is displayed as 40 digits. -/
theorem length_display (d : Digest) : d.display.toList.length = 40 := by
  rw [display, String.toList_ofList, List.length_flatMap]
  simp [d.length_eq]

theorem display_inj {d d' : Digest} (h : d.display = d'.display) : d = d' := by
  have hlists := String.toList_inj.mpr h
  rw [display, display, String.toList_ofList, String.toList_ofList] at hlists
  have hbytes : d.bytes = d'.bytes :=
    List.flatMap_inj_of_length (n := 2) (fun _ => rfl) (by decide) displayByte_inj hlists
  obtain ⟨bytes, length_eq⟩ := d
  subst hbytes
  rfl

end Digest

/-! ## The two forms of a key -/

/-- What stands before a digest is told from it by the length of the digest. -/
theorem append_display_inj {s s' : String} {d d' : Digest}
    (h : s ++ d.display = s' ++ d'.display) : s = s' ∧ d = d' := by
  have hlists := String.toList_inj.mpr h
  rw [String.toList_append, String.toList_append] at hlists
  obtain ⟨hs, hd⟩ :=
    List.append_inj' hlists (d.length_display.trans d'.length_display.symm)
  exact ⟨String.toList_inj.mp hs, Digest.display_inj (String.toList_inj.mp hd)⟩

theorem hashedKey_inj {keyPrefix tier tier' : String} {d d' : Digest}
    (h : keyPrefix ++ tier ++ ":" ++ d.display = keyPrefix ++ tier' ++ ":" ++ d'.display) :
    tier = tier' ∧ d = d' := by
  obtain ⟨hfront, hd⟩ := append_display_inj h
  have htier := (String.append_left_inj ":").mp hfront
  exact ⟨(String.append_right_inj keyPrefix).mp htier, hd⟩

/-- A decimal numeral ends at the first separator, and tells its number. -/
theorem toString_colon_inj {n n' : ℕ} {s s' : String}
    (h : toString n ++ (":" ++ s) = toString n' ++ (":" ++ s')) : n = n' ∧ s = s' := by
  have hcolon (n : ℕ) : ':' ∉ Nat.toDigits 10 n := by
    intro hmem
    exact absurd (Nat.isDigit_of_mem_toDigits (by decide) (by decide) hmem) (by decide)
  have hlists := String.toList_inj.mpr h
  simp only [String.toList_append, Nat.toString_eq_repr, Nat.toList_repr] at hlists
  obtain ⟨hdigits, hs⟩ := List.append_cons_inj (hcolon n) (hcolon n') hlists
  have hn : n = n' := by
    calc n = Nat.ofDigitChars 10 (Nat.toDigits 10 n) 0 := Nat.ofDigitChars_ten_toDigits.symm
      _ = Nat.ofDigitChars 10 (Nat.toDigits 10 n') 0 := by rw [hdigits]
      _ = n' := Nat.ofDigitChars_ten_toDigits
  exact ⟨hn, String.toList_inj.mp hs⟩

theorem plainKey_inj {keyPrefix tier tier' userId userId' : String}
    (h : keyPrefix ++ toString tier.utf8ByteSize ++ ":" ++ tier ++ ":" ++ userId =
      keyPrefix ++ toString tier'.utf8ByteSize ++ ":" ++ tier' ++ ":" ++ userId') :
    tier = tier' ∧ userId = userId' := by
  simp only [String.append_assoc] at h
  obtain ⟨hsize, hrest⟩ := toString_colon_inj ((String.append_right_inj keyPrefix).mp h)
  obtain ⟨htier, huser⟩ := String.append_inj_of_utf8ByteSize_eq hrest hsize
  exact ⟨htier, (String.append_right_inj ":").mp huser⟩

/-! ## Storage keys -/

namespace RedisStorage

variable (sha1 : List UInt8 → Digest) (st : RedisStorage)

/-- The digest of a user id in the hashed form: SHA-1, or HMAC-SHA1 under the secret. -/
def userDigest (userId : String) : Digest :=
  match st.keySecret with
  | some secret => hmacSha1 sha1 secret userId.toUTF8.toList
  | none => sha1 userId.toUTF8.toList

theorem redisKey_of_hashed (h : st.hashUserIds = true) (key : StorageKey) :
    st.redisKey sha1 key =
      st.keyPrefix ++ key.tier ++ ":" ++ (st.userDigest sha1 key.userId).display := by
  unfold redisKey
  rw [if_pos h]
  rfl

theorem redisKey_of_plain (h : st.hashUserIds = false) (key : StorageKey) :
    st.redisKey sha1 key =
      st.keyPrefix ++ toString key.tier.utf8ByteSize ++ ":" ++ key.tier ++ ":" ++ key.userId := by
  unfold redisKey
  rw [if_neg (by rw [h]; exact Bool.false_ne_true)]

end RedisStorage

/-- **Keys.** A storage maps two storage keys to one Redis key only if their user ids
    and their tier names are equal. In the hashed modes this assumes that the digests of
    these two user ids do not collide; with plain user ids it assumes nothing. -/
theorem redis_key_injective (sha1 : List UInt8 → Digest) (st : RedisStorage)
    (key₁ key₂ : StorageKey)
    (hdigest : st.hashUserIds = true →
      st.userDigest sha1 key₁.userId = st.userDigest sha1 key₂.userId →
        key₁.userId = key₂.userId) :
    st.redisKey sha1 key₁ = st.redisKey sha1 key₂ ↔
      key₁.userId = key₂.userId ∧ key₁.tier = key₂.tier := by
  constructor
  · intro h
    by_cases hmode : st.hashUserIds = true
    · rw [st.redisKey_of_hashed sha1 hmode, st.redisKey_of_hashed sha1 hmode] at h
      obtain ⟨htier, heq⟩ := hashedKey_inj h
      exact ⟨hdigest hmode heq, htier⟩
    · rw [Bool.not_eq_true] at hmode
      rw [st.redisKey_of_plain sha1 hmode, st.redisKey_of_plain sha1 hmode] at h
      obtain ⟨htier, huser⟩ := plainKey_inj h
      exact ⟨huser, htier⟩
  · rintro ⟨huser, htier⟩
    rw [StorageKey.ext huser htier]

/-- The SHA-1 digests of `a:b`, and of `a` otherwise. -/
def separatorDigest (message : List UInt8) : Digest :=
  if message = [0x61, 0x3a, 0x62] then
    ⟨[0xdc, 0xea, 0x6d, 0x9c, 0xcd, 0x3d, 0x20, 0xba, 0x15, 0x49, 0xf6, 0xd9,
      0xb5, 0xdd, 0xe6, 0x07, 0x42, 0x15, 0x88, 0x82], rfl⟩
  else
    ⟨[0x86, 0xf7, 0xe4, 0x37, 0xfa, 0xa5, 0xa7, 0xfc, 0xe1, 0x5d, 0x1d, 0xdc,
      0xb9, 0xea, 0xea, 0xea, 0x37, 0x76, 0x67, 0xb8], rfl⟩

/-- The user `a:b` of the tier `c` and the user `a` of the tier `b:c`. -/
theorem redis_key_injective_separators :
    RedisStorage.new.redisKey separatorDigest ⟨"a:b", "c"⟩ ≠
      RedisStorage.new.redisKey separatorDigest ⟨"a", "b:c"⟩ := by
  have hdiffer : RedisStorage.new.userDigest separatorDigest "a:b" ≠
      RedisStorage.new.userDigest separatorDigest "a" := by
    intro h
    have hbytes := congrArg Digest.bytes h
    revert hbytes
    decide +kernel
  intro h
  have hkeys := (redis_key_injective separatorDigest RedisStorage.new ⟨"a:b", "c"⟩ ⟨"a", "b:c"⟩
    fun _ heq => absurd heq hdiffer).mp h
  exact absurd hkeys.1 (by decide)

end TowerRateTier
