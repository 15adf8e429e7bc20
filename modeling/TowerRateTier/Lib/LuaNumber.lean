import TowerRateTier.Lib.Double
import Mathlib.Data.List.TakeWhile

/-!
# Numbers of Lua 5.1 and their numerals

`tonumber` on a string is C's `strtod` followed by optional white space: decimal
and hexadecimal numerals with a fraction and an exponent, `inf`, `infinity` and
`nan`, in any case. The conversion is correctly rounded, so it is the exact
value of the numeral followed by a rounding `fl`, which is `Double.round` for
the doubles of Lua 5.1.

Characters that are not ASCII never take part in a numeral, so a byte string may
be given by any characters that agree with it on ASCII.

* `tonumber_toString`: a decimal numeral of a natural number is read as that
  number, rounded.
-/

namespace Lua

/-- A Lua number. The sign of a zero is left out: only a division by it shows
    that sign. -/
inductive Number where
  | nan
  | inf (negative : Bool)
  | fin (value : ℚ)
deriving DecidableEq

namespace Number

def neg : Number → Number
  | nan => nan
  | inf negative => inf (!negative)
  | fin value => fin (-value)

/-- The rounded value, or an infinity when it is out of range. -/
def ofRat (fl : ℚ → ℚ) (x : ℚ) : Number :=
  if 2 ^ 1024 ≤ |fl x| then inf (decide (fl x < 0)) else fin (fl x)

theorem ofRat_eq_fin {fl : ℚ → ℚ} {x : ℚ} (hfl : fl x = x) (hx : |x| < 2 ^ 1024) :
    ofRat fl x = fin x := by
  rw [ofRat, hfl, if_neg (not_le.mpr hx)]

end Number

/-! ## `strtod` -/

/-- `isspace` of the C locale. -/
def isSpace (c : Char) : Bool := c == ' ' || (9 ≤ c.toNat && c.toNat ≤ 13)

def isHexDigit (c : Char) : Bool :=
  c.isDigit || ('a' ≤ c.toLower && c.toLower ≤ 'f')

/-- The value of a decimal or hexadecimal digit. -/
def digitValue (c : Char) : ℕ :=
  if c.isDigit then c.toNat - '0'.toNat else c.toLower.toNat - 'a'.toNat + 10

def ofDigits (base : ℕ) (digits : List Char) : ℕ :=
  digits.foldl (fun n c => base * n + digitValue c) 0

/-- An optional sign, `true` for a minus. -/
def sign : List Char → Bool × List Char
  | '-' :: cs => (true, cs)
  | '+' :: cs => (false, cs)
  | cs => (false, cs)

/-- Digits with an optional radix character, at least one digit in all. -/
def mantissa (isDigit : Char → Bool) (base : ℕ) (cs : List Char) : Option (ℚ × List Char) :=
  let (whole, rest) := cs.span isDigit
  let (fraction, rest) :=
    match rest with
    | '.' :: rest' => rest'.span isDigit
    | _ => ([], rest)
  if whole = [] ∧ fraction = [] then none
  else some ((ofDigits base (whole ++ fraction) : ℚ) / base ^ fraction.length, rest)

/-- An optional exponent part. Without a digit it is not part of the numeral. -/
def exponent (marker : Char) (cs : List Char) : ℤ × List Char :=
  match cs with
  | c :: cs' =>
    if c.toLower = marker then
      let (negative, rest) := sign cs'
      let (digits, rest) := rest.span Char.isDigit
      if digits = [] then (0, cs)
      else (if negative then -(ofDigits 10 digits : ℤ) else ofDigits 10 digits, rest)
    else (0, cs)
  | [] => (0, [])

def scaled (radix : ℚ) (marker : Char) : ℚ × List Char → ℚ × List Char
  | (value, rest) =>
    let (e, rest) := exponent marker rest
    (value * radix ^ e, rest)

def decimal (cs : List Char) : Option (ℚ × List Char) :=
  (mantissa Char.isDigit 10 cs).map (scaled 10 'e')

/-- `0x` without a digit after it is the numeral `0`. -/
def hexadecimal (cs : List Char) : Option (ℚ × List Char) :=
  match cs with
  | '0' :: x :: cs' =>
    if x.toLower = 'x' then
      match mantissa isHexDigit 16 cs' with
      | some m => some (scaled 2 'p' m)
      | none => decimal cs
    else decimal cs
  | _ => decimal cs

/-- `inf`, `infinity`, `nan` and `nan(…)`. -/
def special (cs : List Char) : Option (Number × List Char) :=
  let lower := cs.map Char.toLower
  if ['i', 'n', 'f', 'i', 'n', 'i', 't', 'y'].isPrefixOf lower then some (.inf false, cs.drop 8)
  else if ['i', 'n', 'f'].isPrefixOf lower then some (.inf false, cs.drop 3)
  else if ['n', 'a', 'n'].isPrefixOf lower then
    let rest := cs.drop 3
    match rest with
    | '(' :: rest' =>
      match (rest'.span fun c => c.isAlphanum || c == '_').2 with
      | ')' :: rest'' => some (.nan, rest'')
      | _ => some (.nan, rest)
    | _ => some (.nan, rest)
  else none

/-- C's `strtod` on a string without leading white space: the number and what
    follows the numeral. -/
def strtod (fl : ℚ → ℚ) (cs : List Char) : Option (Number × List Char) :=
  let (negative, cs) := sign cs
  match special cs with
  | some (n, rest) => some (if negative then n.neg else n, rest)
  | none =>
    (hexadecimal cs).map fun (value, rest) =>
      (Number.ofRat fl (if negative then -value else value), rest)

/-- `tonumber` on a string. Lua hands `strtod` a C string, which ends at the
    first NUL; its own second attempt, for C libraries that do not know
    hexadecimal numerals, never succeeds after this `strtod`. -/
def tonumber (fl : ℚ → ℚ) (s : String) : Option Number :=
  let cs := s.toList.takeWhile (· ≠ '\x00')
  match strtod fl (cs.dropWhile isSpace) with
  | some (n, rest) => if rest.all isSpace then some n else none
  | none => none

/-! ## Decimal numerals of naturals -/

theorem toLower_of_isDigit {c : Char} (h : c.isDigit) : c.toLower = c := by
  simp only [Char.isDigit, Bool.and_eq_true, decide_eq_true_eq] at h
  have hupper : ¬ 'A'.val ≤ c.val := by grind
  exact dif_neg fun hu => hupper hu.1

theorem ofDigits_toDigits (n : ℕ) : ofDigits 10 (Nat.toDigits 10 n) = n := by
  have hfold : ∀ (ds : List Char) (k : ℕ), (∀ c ∈ ds, c.isDigit) →
      ds.foldl (fun n c => 10 * n + digitValue c) k = Nat.ofDigitChars 10 ds k := by
    intro ds
    induction ds with
    | nil => intro k _; simp
    | cons d ds ih =>
      intro k h
      have hd := h d (List.mem_cons_self ..)
      rw [List.foldl_cons, Nat.ofDigitChars_cons, ih _ fun c hc => h c (List.mem_cons_of_mem _ hc),
        digitValue, if_pos hd]
  rw [ofDigits, hfold _ _ fun c hc => Nat.isDigit_of_mem_toDigits (by norm_num) (by norm_num) hc]
  exact Nat.ofDigitChars_ten_toDigits

theorem span_isDigit {ds : List Char} (h : ∀ c ∈ ds, c.isDigit) :
    ds.span Char.isDigit = (ds, []) := by
  rw [List.span_eq_takeWhile_dropWhile, List.takeWhile_eq_self_iff.mpr h,
    List.dropWhile_eq_nil_iff.mpr h]

theorem decimal_digits {ds : List Char} (hne : ds ≠ []) (h : ∀ c ∈ ds, c.isDigit) :
    decimal ds = some ((ofDigits 10 ds : ℚ), []) := by
  simp only [decimal, mantissa, span_isDigit h]
  simp [hne, scaled, exponent]

theorem isDigit_ne {c d : Char} (h : c.isDigit) (hd : d.isDigit = false) : c ≠ d := by
  intro e
  rw [e, hd] at h
  exact absurd h (by decide)

theorem isSpace_of_isDigit {c : Char} (h : c.isDigit) : isSpace c = false := by
  have hne : c ≠ ' ' := isDigit_ne h rfl
  have h48 : 48 ≤ c.toNat := by
    simp only [Char.isDigit, Bool.and_eq_true, decide_eq_true_eq, ge_iff_le,
      UInt32.le_iff_toNat_le] at h
    exact h.1
  have h13 : ¬ c.toNat ≤ 13 := by omega
  simp [isSpace, hne, h13]

/-- A list of digits has no sign, is none of the special numerals and has no
    hexadecimal prefix. -/
theorem strtod_digits (fl : ℚ → ℚ) {ds : List Char} (hne : ds ≠ []) (h : ∀ c ∈ ds, c.isDigit) :
    strtod fl ds = some (Number.ofRat fl (ofDigits 10 ds), []) := by
  have hdec := decimal_digits hne h
  obtain ⟨d, ds, rfl⟩ := List.exists_cons_of_ne_nil hne
  have hd := h d (List.mem_cons_self ..)
  have hsign : sign (d :: ds) = (false, d :: ds) := by
    unfold sign
    split
    · next heq => exact absurd (List.cons.inj heq).1 (isDigit_ne hd rfl)
    · next heq => exact absurd (List.cons.inj heq).1 (isDigit_ne hd rfl)
    · rfl
  have hspecial : special (d :: ds) = none := by
    have hi := (isDigit_ne hd (d := 'i') rfl).symm
    have hn := (isDigit_ne hd (d := 'n') rfl).symm
    simp [special, toLower_of_isDigit hd, hi, hn]
  have hhex : hexadecimal (d :: ds) = decimal (d :: ds) := by
    unfold hexadecimal
    split
    · next x cs' heq =>
      have hx : x.isDigit := h x (by rw [heq]; simp)
      rw [toLower_of_isDigit hx, if_neg (isDigit_ne hx rfl), heq]
    · rfl
  simp [strtod, hsign, hspecial, hhex, hdec]

/-- A decimal numeral of a natural number is read as that number, rounded. -/
theorem tonumber_toString (fl : ℚ → ℚ) (n : ℕ) :
    tonumber fl (toString n) = some (Number.ofRat fl n) := by
  have hdig : ∀ c ∈ Nat.toDigits 10 n, c.isDigit := fun c hc =>
    Nat.isDigit_of_mem_toDigits (by norm_num) (by norm_num) hc
  have hnul : (Nat.toDigits 10 n).takeWhile (· ≠ '\x00') = Nat.toDigits 10 n :=
    List.takeWhile_eq_self_iff.mpr fun c hc => by
      simpa using isDigit_ne (hdig c hc) rfl
  have hspace : (Nat.toDigits 10 n).dropWhile isSpace = Nat.toDigits 10 n := by
    obtain ⟨d, ds, hds⟩ := List.exists_cons_of_ne_nil (Nat.toDigits_ne_nil (n := n) (b := 10))
    rw [hds, List.dropWhile_cons_of_neg (by simp [isSpace_of_isDigit (hdig d (by simp [hds]))])]
  simp only [tonumber, Nat.toString_eq_repr, Nat.toList_repr, hnul, hspace,
    strtod_digits fl Nat.toDigits_ne_nil hdig, ofDigits_toDigits]
  rfl

end Lua
