import TowerRateTier.Response
import TowerRateTier.Lib.Json

/-!
# The bodies of error responses

The bodies of `src/response.rs` are written by string formatting around
`escape_json_string`. Read as JSON they have exactly the members that the
format strings name, whatever the tier is called.

* `chars_escapeJsonString`: the escaped string stands for the string.
* `error_bodies_json`: the two bodies that carry a tier name.
-/

namespace TowerRateTier

open Json

/-! ## Escaping -/

theorem hexDigitValue_hexDigit : ∀ n < 16, hexDigitValue (hexDigit n) = some n := by
  decide

/-- Four digits of a code point below `0x100`. -/
theorem hexValue_hexDigit {n : ℕ} (h : n < 0x100) :
    hexValue '0' '0' (hexDigit (n / 16)) (hexDigit n) = some n := by
  have hlow : hexDigit n = hexDigit (n % 16) := by rw [hexDigit, hexDigit, Nat.mod_mod]
  have h1 := hexDigitValue_hexDigit (n / 16) (by omega)
  have h2 := hexDigitValue_hexDigit (n % 16) (by omega)
  have hzero : hexDigitValue '0' = some 0 := rfl
  rw [hlow, hexValue, hzero, h1, h2]
  simp only [Option.bind_eq_bind, Option.bind_some, Option.pure_def, Option.some.injEq]
  omega

theorem isControl_iff (c : Char) :
    isControl c = true ↔ c.toNat ≤ 0x1f ∨ 0x7f ≤ c.toNat ∧ c.toNat ≤ 0x9f := by
  simp [isControl, UInt32.le_iff_toNat_le]

/-- Each character is escaped to a `char` that stands for it. -/
theorem charText_escapeJsonChar (c : Char) : CharText (escapeJsonChar c) c := by
  unfold escapeJsonChar
  split_ifs with hquote hbackslash hcontrol
  · rw [hquote]
    exact CharText.escaped rfl
  · rw [hbackslash]
    exact CharText.escaped rfl
  · have hlt : c.toNat < 0x100 := by
      rcases (isControl_iff c).mp hcontrol with h | h <;> omega
    have htext := CharText.hex (hexValue_hexDigit hlt)
      (by simp [isHighSurrogate]; omega) (by simp [isLowSurrogate]; omega)
    rwa [Char.ofNat_toNat] at htext
  · apply CharText.unescaped
    have hnot := mt (isControl_iff c).mpr hcontrol
    have hle : 0x20 ≤ c.toNat := by omega
    simp [isUnescaped, hle, hquote, hbackslash]

/-- The escaped string stands for the string. -/
theorem chars_escapeJsonString (s : String) : Chars (escapeJsonString s).toList s.toList := by
  rw [escapeJsonString, String.toList_ofList]
  induction s.toList with
  | nil => exact Chars.nil
  | cons c cs ih =>
    rw [List.flatMap_cons]
    exact Chars.cons (charText_escapeJsonChar c) ih

/-! ## The bodies -/

/-- The two members that both bodies begin with. -/
theorem derives_errorMembers (message : String) (hmessage : message.toList.all isUnescaped = true)
    (tier : String) {ts : List Char} {ms : List (String × Value)} (h : Derives ts (.members ms)) :
    Derives
      (("\"error\":\"" ++ message ++ "\",\"tier\":\"" ++ escapeJsonString tier ++ "\",").toList ++ ts)
      (.members (("error", .string message) :: ("tier", .string tier) :: ms)) := by
  have herror : Derives _ (.member ("error", .string message)) :=
    derives_member (by decide) (derives_string (chars_self hmessage))
  have htier : Derives _ (.member ("tier", .string tier)) :=
    derives_member (by decide) (derives_string (chars_escapeJsonString tier))
  have hmembers := Derives.members herror (structural ',') (Derives.members htier (structural ',') h)
  simpa using hmembers

theorem text_rateLimitedResponse (limited : RateLimited) (tier : String) (now : SystemTime)
    (v : Value) :
    Text (rateLimitedResponse limited tier now).body.toList v ↔
      v = .object
        [("error", .string "rate limit exceeded"), ("tier", .string tier),
          ("retry_after", .number limited.retryAfterSecs.toNat)] := by
  have hlast : Derives _ (.member ("retry_after", .number limited.retryAfterSecs.toNat)) :=
    derives_member (by decide) (derives_natCast _)
  have hmembers := derives_errorMembers "rate limit exceeded" (by decide) tier
    (Derives.lastMember hlast)
  rw [← text_object_iff hmembers]
  simp [rateLimitedResponse]

theorem text_costExceedsLimitResponse (tier : String) (cost limit : UInt32) (v : Value) :
    Text (costExceedsLimitResponse tier cost limit).body.toList v ↔
      v = .object
        [("error", .string "request cost exceeds tier limit"), ("tier", .string tier),
          ("cost", .number cost.toNat), ("limit", .number limit.toNat)] := by
  have hcost : Derives _ (.member ("cost", .number cost.toNat)) :=
    derives_member (by decide) (derives_natCast _)
  have hlimit : Derives _ (.member ("limit", .number limit.toNat)) :=
    derives_member (by decide) (derives_natCast _)
  have hmembers := derives_errorMembers "request cost exceeds tier limit" (by decide)
    tier (Derives.members hcost (structural ',') (Derives.lastMember hlimit))
  rw [← text_object_iff hmembers]
  simp [costExceedsLimitResponse]

/-- **Error bodies.** For every tier name, the body of a rate limited response is a JSON
    text that stands for one value: an object whose members are the error, the tier and
    the number in `Retry-After`. The body of a response to a request that costs too much
    stands for the object of the error, the tier, the cost and the limit. -/
theorem error_bodies_json (tier : String) :
    (∀ (limited : RateLimited) (now : SystemTime), ∃ retryAfter : ℕ,
      (rateLimitedResponse limited tier now).headers.get "retry-after" =
        some (toString retryAfter) ∧
      ∀ v, Text (rateLimitedResponse limited tier now).body.toList v ↔
        v = .object
          [("error", .string "rate limit exceeded"), ("tier", .string tier),
            ("retry_after", .number retryAfter)]) ∧
    ∀ (cost limit : UInt32) (v : Value),
      Text (costExceedsLimitResponse tier cost limit).body.toList v ↔
        v = .object
          [("error", .string "request cost exceeds tier limit"), ("tier", .string tier),
            ("cost", .number cost.toNat), ("limit", .number limit.toNat)] :=
  ⟨fun limited now => ⟨limited.retryAfterSecs.toNat, rfl,
      text_rateLimitedResponse limited tier now⟩,
    text_costExceedsLimitResponse tier⟩

end TowerRateTier
