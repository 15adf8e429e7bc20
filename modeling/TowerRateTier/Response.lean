import TowerRateTier.Gcra

/-!
# Responses of the middleware

Model of `src/response.rs` and of what it uses of the `http` crate and of
`std::time::SystemTime`.

* `get_injectHeaders`: the headers that an allowed response carries.
-/

namespace TowerRateTier

/-! ## The `http` crate -/

/-- A status with the reason that `StatusCode::canonical_reason` gives for it. -/
structure StatusCode where
  code : ℕ
  canonicalReason : Option String
deriving DecidableEq, Repr

namespace StatusCode

/-- `StatusCode::FORBIDDEN`. -/
def forbidden : StatusCode := ⟨403, some "Forbidden"⟩

/-- `StatusCode::TOO_MANY_REQUESTS`. -/
def tooManyRequests : StatusCode := ⟨429, some "Too Many Requests"⟩

/-- `StatusCode::SERVICE_UNAVAILABLE`. -/
def serviceUnavailable : StatusCode := ⟨503, some "Service Unavailable"⟩

/-- `StatusCode::BAD_REQUEST`. -/
def badRequest : StatusCode := ⟨400, some "Bad Request"⟩

end StatusCode

/-- Headers in the order in which they were added; names are in lower case, as the
    crate normalises them. -/
abbrev HeaderMap := List (String × String)

namespace HeaderMap

/-- `HeaderMap::get`: the first value of a header. -/
def get (headers : HeaderMap) (name : String) : Option String := headers.lookup name

/-- `HeaderMap::insert` replaces all values of a header. -/
def insert (headers : HeaderMap) (name value : String) : HeaderMap :=
  headers.filter (fun h => h.1 ≠ name) ++ [(name, value)]

theorem lookup_filter_of_ne (headers : HeaderMap) {name name' : String} (h : name' ≠ name) :
    (headers.filter fun h => h.1 ≠ name).lookup name' = headers.lookup name' := by
  induction headers with
  | nil => rfl
  | cons header headers ih =>
    obtain ⟨k, v⟩ := header
    by_cases hk : k = name
    · subst hk
      have hb : (name' == k) = false := by simpa using h
      rw [List.filter_cons_of_neg (by simp), ih, List.lookup_cons, hb]
    · rw [List.filter_cons_of_pos (by simpa using hk), List.lookup_cons, List.lookup_cons, ih]

theorem lookup_filter_self (headers : HeaderMap) (name : String) :
    (headers.filter fun h => h.1 ≠ name).lookup name = none := by
  rw [List.lookup_eq_none_iff]
  intro h hmem
  have := (List.mem_filter.mp hmem).2
  simp only [ne_eq, decide_not, Bool.not_eq_eq_eq_not, Bool.not_true, decide_eq_false_iff_not] at this
  simpa using fun he => this he.symm

/-- `insert` sets its header and leaves the others as they are. -/
theorem get_insert (headers : HeaderMap) (name value name' : String) :
    (headers.insert name value).get name' =
      if name' = name then some value else headers.get name' := by
  unfold get insert
  rw [List.lookup_append]
  split_ifs with h
  · subst h
    rw [lookup_filter_self]
    simp
  · rw [lookup_filter_of_ne _ h]
    cases headers.lookup name' <;> simp [h]

end HeaderMap

/-- `Response<B>`. -/
structure Response (B : Type) where
  status : StatusCode
  headers : HeaderMap
  body : B
deriving Repr

/-- `Response::map`. -/
def Response.map {B C : Type} (resp : Response B) (f : B → C) : Response C :=
  { resp with body := f resp.body }

/-! ## Wall-clock time -/

/-- `SystemTime` in nanoseconds since the Unix epoch: a count of seconds in an `i64`
    and the nanoseconds within the second. -/
structure SystemTime where
  sinceEpoch : ℤ
  isLt : sinceEpoch < 2 ^ 63 * 10 ^ 9

namespace SystemTime

/-- `SystemTime::checked_add`. -/
def checkedAdd (t : SystemTime) (d : Duration) : Option SystemTime :=
  if h : t.sinceEpoch + d.asNanos < 2 ^ 63 * 10 ^ 9 then some ⟨t.sinceEpoch + d.asNanos, h⟩ else none

/-- `duration_since(UNIX_EPOCH)`; `none` before the epoch. -/
def durationSinceEpoch (t : SystemTime) : Option Duration :=
  if 0 ≤ t.sinceEpoch then
    some ⟨t.sinceEpoch.toNat, by have := t.isLt; omega⟩
  else none

end SystemTime

/-! ## Model of `src/response.rs` -/

/-- `canonical_reason` (lines 110–112). -/
def canonicalReason (status : StatusCode) : String :=
  status.canonicalReason.getD "request denied"

/-- `char::is_control`: the general category `Cc`. -/
def isControl (c : Char) : Bool := c.val ≤ 0x1f ∨ (0x7f ≤ c.val ∧ c.val ≤ 0x9f)

/-- One hexadecimal digit, in lower case. -/
def hexDigit (n : ℕ) : Char := Nat.digitChar (n % 16)

/-- The escape of one character. A control character is below `0x100`, so that
    `{:04x}` gives two zeros and two digits. -/
def escapeJsonChar (c : Char) : List Char :=
  if c = '"' then ['\\', '"']
  else if c = '\\' then ['\\', '\\']
  else if isControl c then ['\\', 'u', '0', '0', hexDigit (c.toNat / 16), hexDigit c.toNat]
  else [c]

/-- `escape_json_string` (lines 117–130). -/
def escapeJsonString (s : String) : String := String.ofList (s.toList.flatMap escapeJsonChar)

/-- The number in `reset_header_value` (lines 93–99). -/
def resetSecs (resetAfter : Duration) (now : SystemTime) : UInt64 :=
  match now.checkedAdd resetAfter with
  | some reset => (reset.durationSinceEpoch.map ceilSecs).getD 0
  | none => UInt64.ofNat (2 ^ 64 - 1)

/-- `reset_header_value` (lines 93–99). -/
def resetHeaderValue (resetAfter : Duration) (now : SystemTime) : String :=
  toString (resetSecs resetAfter now).toNat

/-- `inject_headers` (lines 12–20). -/
def injectHeaders {B : Type} (response : Response B) (info : RateLimitInfo) (now : SystemTime) :
    Response B :=
  { response with
    headers := ((response.headers.insert "x-ratelimit-limit" (toString info.limit.toNat)).insert
      "x-ratelimit-remaining" (toString info.remaining.toNat)).insert
      "x-ratelimit-reset" (resetHeaderValue info.resetAfter now) }

/-- An allowed response carries the three rate limit headers, and its other headers are
    those of the inner service. -/
theorem get_injectHeaders {B : Type} (response : Response B) (info : RateLimitInfo)
    (now : SystemTime) (name : String) :
    (injectHeaders response info now).headers.get name =
      if name = "x-ratelimit-reset" then some (resetHeaderValue info.resetAfter now)
      else if name = "x-ratelimit-remaining" then some (toString info.remaining.toNat)
      else if name = "x-ratelimit-limit" then some (toString info.limit.toNat)
      else response.headers.get name := by
  simp only [injectHeaders, HeaderMap.get_insert]

/-- `rate_limited_response` (lines 27–52). -/
def rateLimitedResponse (limited : RateLimited) (tier : String) (now : SystemTime) :
    Response String :=
  let retryAfterSecs := toString limited.retryAfterSecs.toNat
  { status := .tooManyRequests
    headers :=
      [("content-type", "application/json"), ("retry-after", retryAfterSecs),
        ("x-ratelimit-limit", toString limited.limit.toNat), ("x-ratelimit-remaining", "0"),
        ("x-ratelimit-reset", resetHeaderValue limited.resetAfter now)]
    body := "\x7b\"error\":\"rate limit exceeded\",\"tier\":\"" ++ escapeJsonString tier ++
      "\",\"retry_after\":" ++ retryAfterSecs ++ "\x7d" }

/-- `cost_exceeds_limit_response` (lines 56–68). -/
def costExceedsLimitResponse (tier : String) (cost limit : UInt32) : Response String where
  status := .forbidden
  headers := [("content-type", "application/json")]
  body := "\x7b\"error\":\"request cost exceeds tier limit\",\"tier\":\"" ++ escapeJsonString tier ++
    "\",\"cost\":" ++ toString cost.toNat ++ ",\"limit\":" ++ toString limit.toNat ++ "\x7d"

/-- `deny_response` (lines 72–78). -/
def denyResponse (status : StatusCode) : Response String where
  status := status
  headers := [("content-type", "application/json")]
  body := "\x7b\"error\":\"" ++ canonicalReason status ++ "\"\x7d"

/-- `storage_error_response` (lines 81–87). -/
def storageErrorResponse : Response String where
  status := .serviceUnavailable
  headers := [("content-type", "application/json")]
  body := "\x7b\"error\":\"service unavailable\"\x7d"

/-- `bad_request_response` (lines 102–108). -/
def badRequestResponse : Response String where
  status := .badRequest
  headers := [("content-type", "application/json")]
  body := "\x7b\"error\":\"failed to read request body\"\x7d"

end TowerRateTier
