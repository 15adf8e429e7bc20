import Mathlib.Data.List.DropRight
import Mathlib.Data.List.TakeWhile
import Mathlib.Data.Nat.Notation
import Mathlib.Data.Rat.Defs
import Mathlib.Algebra.Field.Rat

/-!
# The JSON grammar

The grammar of RFC 8259 as a relation between a text and the value it stands
for. Objects keep their members in the order of the text, duplicates included,
so that a value says exactly which members a text has.

A text is a list of Unicode characters. An escaped surrogate that is not half of
a pair stands for no character, so a string with one has no value here.

* `Text.unique`: a text stands for at most one value.
* `Derives.complete`: `readValue` reads what the grammar derives.
* `text_object_iff`: what a compact text of an object stands for.
-/

namespace Json

/-! ## Values -/

/-- A JSON value. -/
inductive Value where
  | null
  | bool (b : Bool)
  | number (n : ℚ)
  | string (s : String)
  | array (elements : List Value)
  | object (members : List (String × Value))

/-! ## Strings -/

/-- `unescaped`: anything but a quotation mark, a backslash and the controls up to U+001F. -/
def isUnescaped (c : Char) : Bool := 0x20 ≤ c.toNat && c ≠ '"' && c ≠ '\\'

/-- The character that a two-character escape stands for. -/
def simpleEscape (c : Char) : Option Char :=
  if c = '"' then some '"'
  else if c = '\\' then some '\\'
  else if c = '/' then some '/'
  else if c = 'b' then some '\x08'
  else if c = 'f' then some '\x0c'
  else if c = 'n' then some '\n'
  else if c = 'r' then some '\r'
  else if c = 't' then some '\t'
  else none

/-- The value of a hexadecimal digit. -/
def hexDigitValue (c : Char) : Option ℕ :=
  if c.isDigit then some (c.toNat - '0'.toNat)
  else if 'a' ≤ c ∧ c ≤ 'f' then some (c.toNat - 'a'.toNat + 10)
  else if 'A' ≤ c ∧ c ≤ 'F' then some (c.toNat - 'A'.toNat + 10)
  else none

/-- `4HEXDIG`. -/
def hexValue (a b c d : Char) : Option ℕ := do
  let a ← hexDigitValue a
  let b ← hexDigitValue b
  let c ← hexDigitValue c
  let d ← hexDigitValue d
  return ((a * 16 + b) * 16 + c) * 16 + d

def isHighSurrogate (n : ℕ) : Bool := 0xd800 ≤ n && n < 0xdc00

def isLowSurrogate (n : ℕ) : Bool := 0xdc00 ≤ n && n < 0xe000

/-- `char`, with the character it stands for. -/
inductive CharText : List Char → Char → Prop where
  | unescaped {c : Char} (h : isUnescaped c = true) : CharText [c] c
  | escaped {e c : Char} (h : simpleEscape e = some c) : CharText ['\\', e] c
  | hex {a b c d : Char} {n : ℕ} (h : hexValue a b c d = some n) (hn : isHighSurrogate n = false)
      (hn' : isLowSurrogate n = false) : CharText ['\\', 'u', a, b, c, d] (Char.ofNat n)
  | pair {a b c d a' b' c' d' : Char} {n n' : ℕ} (h : hexValue a b c d = some n)
      (h' : hexValue a' b' c' d' = some n') (hn : isHighSurrogate n = true)
      (hn' : isLowSurrogate n' = true) :
      CharText ['\\', 'u', a, b, c, d, '\\', 'u', a', b', c', d']
        (Char.ofNat (0x10000 + (n - 0xd800) * 0x400 + (n' - 0xdc00)))

/-- `*char`, with the string it stands for. -/
inductive Chars : List Char → List Char → Prop where
  | nil : Chars [] []
  | cons {t ts : List Char} {c : Char} {cs : List Char} (h : CharText t c) (hs : Chars ts cs) :
      Chars (t ++ ts) (c :: cs)

/-- Reads one `char`. -/
def readChar : List Char → Option (Char × List Char)
  | '\\' :: 'u' :: a :: b :: c :: d :: rest =>
    (hexValue a b c d).bind fun n =>
      if isHighSurrogate n then
        match rest with
        | '\\' :: 'u' :: a' :: b' :: c' :: d' :: rest' =>
          (hexValue a' b' c' d').bind fun n' =>
            if isLowSurrogate n' then
              some (Char.ofNat (0x10000 + (n - 0xd800) * 0x400 + (n' - 0xdc00)), rest')
            else none
        | _ => none
      else if isLowSurrogate n then none
      else some (Char.ofNat n, rest)
  | '\\' :: e :: rest => (simpleEscape e).map fun c => (c, rest)
  | c :: rest => if isUnescaped c then some (c, rest) else none
  | [] => none

/-- Reads the characters of a string and its closing quotation mark. -/
def readChars : ℕ → List Char → Option (List Char × List Char)
  | 0, _ => none
  | fuel + 1, text =>
    if text.head? = some '"' then some ([], text.tail)
    else (readChar text).bind fun p => (readChars fuel p.2).map fun q => (p.1 :: q.1, q.2)

theorem readChar_complete {t : List Char} {c : Char} (h : CharText t c) (rest : List Char) :
    readChar (t ++ rest) = some (c, rest) := by
  induction h with
  | @unescaped c h =>
    have hc : c ≠ '\\' := by
      rintro rfl
      exact absurd h (by decide)
    simp [readChar, h, hc]
  | @escaped e c h =>
    have he : e ≠ 'u' := by
      rintro rfl
      simp [simpleEscape] at h
    simp [readChar, h, he]
  | hex h hn hn' => simp [readChar, h, hn, hn']
  | pair h h' hn hn' => simp [readChar, h, h', hn, hn']

/-- A `char` does not begin with a quotation mark. -/
theorem CharText.head_ne {t : List Char} {c : Char} (h : CharText t c) (rest : List Char) :
    (t ++ rest).head? ≠ some '"' := by
  induction h with
  | @unescaped c h =>
    intro he
    obtain rfl : c = '"' := by simpa using he
    exact absurd h (by decide)
  | escaped | hex | pair => simp

theorem readChars_complete {t cs : List Char} (h : Chars t cs) (rest : List Char) (fuel : ℕ) :
    readChars (cs.length + 1 + fuel) (t ++ '"' :: rest) = some (cs, rest) := by
  induction h with
  | nil => rw [Nat.add_comm]; rfl
  | @cons t ts c cs h _ ih =>
    have hfuel : (c :: cs).length + 1 + fuel = (cs.length + 1 + fuel) + 1 := by
      simp only [List.length_cons]; omega
    rw [hfuel, readChars, List.append_assoc, if_neg (h.head_ne _), readChar_complete h]
    simp [ih]

/-! ## Numbers -/

/-- The characters of numbers. -/
def isNumberChar (c : Char) : Bool :=
  c.isDigit || c = '-' || c = '+' || c = '.' || c = 'e' || c = 'E'

/-- `[ minus ]`. -/
def readMinus : List Char → ℚ × List Char
  | '-' :: rest => (-1, rest)
  | rest => (1, rest)

/-- `int`: no leading zeros. -/
def isInt (ds : List Char) : Bool := ds = ['0'] || (ds ≠ [] && ds.head? ≠ some '0')

/-- `[ frac ]`. -/
def readFrac : List Char → Option (ℚ × List Char)
  | '.' :: rest =>
    let ds := rest.takeWhile Char.isDigit
    if ds = [] then none
    else some ((Nat.ofDigitChars 10 ds 0 : ℚ) / 10 ^ ds.length, rest.dropWhile Char.isDigit)
  | rest => some (0, rest)

/-- `[ minus / plus ]`, `true` for a minus. -/
def readSign : List Char → Bool × List Char
  | '-' :: rest => (true, rest)
  | '+' :: rest => (false, rest)
  | rest => (false, rest)

/-- `[ exp ]`. -/
def readExp : List Char → Option (ℤ × List Char)
  | e :: rest =>
    if e = 'e' ∨ e = 'E' then
      let ds := (readSign rest).2.takeWhile Char.isDigit
      let n : ℤ := Nat.ofDigitChars 10 ds 0
      if ds = [] then none
      else some (if (readSign rest).1 then -n else n, (readSign rest).2.dropWhile Char.isDigit)
    else some (0, e :: rest)
  | [] => some (0, [])

/-- `number = [ minus ] int [ frac ] [ exp ]`, with its value. -/
def numberValue (text : List Char) : Option ℚ :=
  let (sign, rest) := readMinus text
  let ds := rest.takeWhile Char.isDigit
  if isInt ds then
    (readFrac (rest.dropWhile Char.isDigit)).bind fun frac =>
      (readExp frac.2).bind fun exp =>
        if exp.2 = [] then some (sign * (Nat.ofDigitChars 10 ds 0 + frac.1) * 10 ^ exp.1) else none
  else none

/-- What is read of a number is made of its characters. -/
def Consumes (text rest : List Char) : Prop :=
  ∃ t, text = t ++ rest ∧ ∀ c ∈ t, isNumberChar c = true

namespace Consumes

theorem refl (text : List Char) : Consumes text text :=
  ⟨[], rfl, fun _ hc => absurd hc List.not_mem_nil⟩

theorem cons {c : Char} (h : isNumberChar c = true) (text : List Char) : Consumes (c :: text) text := by
  refine ⟨[c], rfl, ?_⟩
  intro x hx
  rw [List.mem_singleton.mp hx]
  exact h

theorem trans {text rest rest' : List Char} (h : Consumes text rest) (h' : Consumes rest rest') :
    Consumes text rest' := by
  obtain ⟨t, rfl, ht⟩ := h
  obtain ⟨t', rfl, ht'⟩ := h'
  refine ⟨t ++ t', (List.append_assoc ..).symm, ?_⟩
  intro c hc
  rcases List.mem_append.mp hc with hc | hc
  · exact ht c hc
  · exact ht' c hc

theorem digits (text : List Char) : Consumes text (text.dropWhile Char.isDigit) := by
  refine ⟨text.takeWhile Char.isDigit, List.takeWhile_append_dropWhile.symm, ?_⟩
  intro c hc
  simp [isNumberChar, List.mem_takeWhile_imp hc]

theorem minus (text : List Char) : Consumes text (readMinus text).2 := by
  unfold readMinus
  split
  · exact cons (by decide) _
  · exact refl _

theorem sign (text : List Char) : Consumes text (readSign text).2 := by
  unfold readSign
  split
  · exact cons (by decide) _
  · exact cons (by decide) _
  · exact refl _

theorem frac {text : List Char} {p : ℚ × List Char} (h : readFrac text = some p) :
    Consumes text p.2 := by
  unfold readFrac at h
  split at h
  · simp only at h
    split_ifs at h
    rw [← Option.some.inj h]
    exact (cons (by decide) _).trans (digits _)
  · rw [← Option.some.inj h]
    exact refl _

theorem exp {text : List Char} {p : ℤ × List Char} (h : readExp text = some p) :
    Consumes text p.2 := by
  unfold readExp at h
  split at h
  · next e rest =>
    by_cases he : e = 'e' ∨ e = 'E'
    · have hchar : isNumberChar e = true := by rcases he with rfl | rfl <;> decide
      simp only [if_pos he, Option.ite_none_left_eq_some] at h
      rw [← Option.some.inj h.2]
      exact (cons hchar rest).trans ((sign rest).trans (digits _))
    · rw [if_neg he] at h
      rw [← Option.some.inj h]
      exact refl _
  · rw [← Option.some.inj h]
    exact refl _

end Consumes

theorem isNumberChar_of_numberValue {text : List Char} {n : ℚ} (h : numberValue text = some n) :
    ∀ c ∈ text, isNumberChar c = true := by
  unfold numberValue at h
  simp only at h
  split_ifs at h
  obtain ⟨frac, hfrac, h⟩ := Option.bind_eq_some_iff.mp h
  obtain ⟨exp, hexp, h⟩ := Option.bind_eq_some_iff.mp h
  split_ifs at h with hrest
  have hall : Consumes text exp.2 :=
    (Consumes.minus text).trans ((Consumes.digits _).trans
      ((Consumes.frac hfrac).trans (Consumes.exp hexp)))
  obtain ⟨t, rfl, ht⟩ := hall
  rw [hrest, List.append_nil]
  exact ht

/-- A decimal numeral has no leading zeros. -/
theorem head_toDigits_ne {n : ℕ} (h : 0 < n) : (Nat.toDigits 10 n).head? ≠ some '0' := by
  induction n using Nat.strong_induction_on with
  | _ n ih =>
    rcases Nat.lt_or_ge n 10 with hlt | hge
    · rw [Nat.toDigits_of_lt_base hlt, List.head?_cons, ne_eq, Option.some.injEq,
        Nat.digitChar_eq_zero]
      omega
    · rw [Nat.toDigits_of_base_le (by decide) hge,
        List.head?_append_of_ne_nil _ Nat.toDigits_ne_nil]
      exact ih (n / 10) (by omega) (by omega)

theorem isInt_toDigits (n : ℕ) : isInt (Nat.toDigits 10 n) = true := by
  rcases Nat.eq_zero_or_pos n with rfl | hpos
  · rfl
  · simp [isInt, Nat.toDigits_ne_nil, head_toDigits_ne hpos]

/-- The decimal numeral of a natural number. -/
theorem numberValue_toDigits (n : ℕ) : numberValue (Nat.toDigits 10 n) = some (n : ℚ) := by
  have hdigit : ∀ c ∈ Nat.toDigits 10 n, c.isDigit = true := fun c hc =>
    Nat.isDigit_of_mem_toDigits (by decide) (by decide) hc
  have hminus : readMinus (Nat.toDigits 10 n) = (1, Nat.toDigits 10 n) := by
    unfold readMinus
    split
    · next heq => exact absurd (hdigit '-' (by simp [heq])) (by decide)
    · rfl
  have htake := List.takeWhile_eq_self_iff.mpr hdigit
  have hdrop := List.dropWhile_eq_nil_iff.mpr hdigit
  simp [numberValue, hminus, htake, hdrop, isInt_toDigits, readFrac, readExp,
    Nat.ofDigitChars_ten_toDigits]

/-! ## White space -/

/-- `ws`. -/
def isWs (c : Char) : Bool := c = ' ' || c = '\t' || c = '\n' || c = '\r'

def skipWs (text : List Char) : List Char := text.dropWhile isWs

/-- A structural character with the white space around it. -/
inductive Structural (c : Char) : List Char → Prop where
  | mk {l r : List Char} (hl : ∀ x ∈ l, isWs x = true) (hr : ∀ x ∈ r, isWs x = true) :
      Structural c (l ++ c :: r)

theorem structural (c : Char) : Structural c [c] :=
  Structural.mk (l := []) (r := []) (by simp) (by simp)

theorem skipWs_append {l : List Char} (hl : ∀ x ∈ l, isWs x = true) (text : List Char) :
    skipWs (l ++ text) = skipWs text :=
  List.dropWhile_append_of_pos hl

theorem skipWs_cons {c : Char} (h : isWs c = false) (text : List Char) :
    skipWs (c :: text) = c :: text :=
  List.dropWhile_cons_of_neg (by simp [h])

theorem skipWs_skipWs (text : List Char) : skipWs (skipWs text) = skipWs text :=
  List.dropWhile_idempotent isWs text

theorem isWs_of_isNumberChar {c : Char} (h : isNumberChar c = true) : isWs c = false := by
  by_contra hws
  rw [Bool.not_eq_false] at hws
  have hcases : ((c = ' ' ∨ c = '\t') ∨ c = '\n') ∨ c = '\r' := by simpa [isWs] using hws
  rcases hcases with ((rfl | rfl) | rfl) | rfl <;> exact absurd h (by decide)

/-- What is left of a text after a structural character. -/
theorem Structural.skipWs_eq {c : Char} {t : List Char} (h : Structural c t) (hc : isWs c = false)
    (rest : List Char) :
    ∃ rest', skipWs (t ++ rest) = c :: rest' ∧ skipWs rest' = skipWs rest := by
  obtain ⟨hl, hr⟩ := h
  rename_i l r
  refine ⟨r ++ rest, ?_, skipWs_append hr rest⟩
  rw [List.append_assoc, skipWs_append hl, List.cons_append, skipWs_cons hc]

/-- A text that does not go on with a character of a number. -/
def EndsNumber (text : List Char) : Prop := ∀ c ∈ text.head?, isNumberChar c = false

theorem endsNumber_cons {c : Char} (h : isNumberChar c = false) (text : List Char) :
    EndsNumber (c :: text) := by
  intro x hx
  obtain rfl : c = x := by simpa using hx
  exact h

theorem Structural.endsNumber {c : Char} {t : List Char} (h : Structural c t)
    (hc : isNumberChar c = false) (rest : List Char) : EndsNumber (t ++ rest) := by
  obtain ⟨hl, hr⟩ := h
  rename_i l r
  rw [List.append_assoc]
  cases l with
  | nil => exact endsNumber_cons hc _
  | cons x l =>
    apply endsNumber_cons
    by_contra hx
    rw [Bool.not_eq_false] at hx
    have hws := hl x List.mem_cons_self
    rw [isWs_of_isNumberChar hx] at hws
    exact Bool.false_ne_true hws

/-! ## The grammar -/

/-- What a part of a text stands for: a value, the elements of an array, a member or
    the members of an object. -/
inductive Node where
  | value (v : Value)
  | elements (vs : List Value)
  | member (m : String × Value)
  | members (ms : List (String × Value))

/-- The productions `value`, `value *( value-separator value )`, `member` and
    `member *( value-separator member )`. -/
inductive Derives : List Char → Node → Prop where
  | null : Derives ['n', 'u', 'l', 'l'] (.value .null)
  | true : Derives ['t', 'r', 'u', 'e'] (.value (.bool Bool.true))
  | false : Derives ['f', 'a', 'l', 's', 'e'] (.value (.bool Bool.false))
  | number {t : List Char} {n : ℚ} (h : numberValue t = some n) : Derives t (.value (.number n))
  | string {t cs : List Char} (h : Chars t cs) :
      Derives ('"' :: t ++ ['"']) (.value (.string (.ofList cs)))
  | emptyArray {l r : List Char} (hl : Structural '[' l) (hr : Structural ']' r) :
      Derives (l ++ r) (.value (.array []))
  | array {l t r : List Char} {vs : List Value} (hl : Structural '[' l) (h : Derives t (.elements vs))
      (hr : Structural ']' r) : Derives (l ++ t ++ r) (.value (.array vs))
  | emptyObject {l r : List Char} (hl : Structural '\x7b' l) (hr : Structural '\x7d' r) :
      Derives (l ++ r) (.value (.object []))
  | object {l t r : List Char} {ms : List (String × Value)} (hl : Structural '\x7b' l)
      (h : Derives t (.members ms)) (hr : Structural '\x7d' r) :
      Derives (l ++ t ++ r) (.value (.object ms))
  | element {t : List Char} {v : Value} (h : Derives t (.value v)) : Derives t (.elements [v])
  | elements {t sep ts : List Char} {v : Value} {vs : List Value} (h : Derives t (.value v))
      (hsep : Structural ',' sep) (hs : Derives ts (.elements vs)) :
      Derives (t ++ sep ++ ts) (.elements (v :: vs))
  | member {name colon t : List Char} {cs : List Char} {v : Value} (hname : Chars name cs)
      (hcolon : Structural ':' colon) (h : Derives t (.value v)) :
      Derives ('"' :: name ++ ['"'] ++ colon ++ t) (.member (.ofList cs, v))
  | lastMember {t : List Char} {m : String × Value} (h : Derives t (.member m)) :
      Derives t (.members [m])
  | members {t sep ts : List Char} {m : String × Value} {ms : List (String × Value)}
      (h : Derives t (.member m)) (hsep : Structural ',' sep) (hs : Derives ts (.members ms)) :
      Derives (t ++ sep ++ ts) (.members (m :: ms))

/-- `JSON-text = ws value ws`. -/
inductive Text : List Char → Value → Prop where
  | mk {l t r : List Char} {v : Value} (hl : ∀ x ∈ l, isWs x = true) (h : Derives t (.value v))
      (hr : ∀ x ∈ r, isWs x = true) : Text (l ++ t ++ r) v

/-! ## Reading a value -/

/-- Reads a structural character, and the white space after it. -/
def expect (c : Char) (text : List Char) : Option (List Char) :=
  if text.head? = some c then some (skipWs text.tail) else none

/-- Reads a string and the white space after it. -/
def readString (fuel : ℕ) (text : List Char) : Option (String × List Char) :=
  if text.head? = some '"' then
    (readChars fuel text.tail).map fun p => (.ofList p.1, skipWs p.2)
  else none

/-- Reads a value that is no array and no object. -/
def readScalar (fuel : ℕ) (text : List Char) : Option (Value × List Char) :=
  if ['n', 'u', 'l', 'l'].isPrefixOf text then some (.null, skipWs (text.drop 4))
  else if ['t', 'r', 'u', 'e'].isPrefixOf text then some (.bool true, skipWs (text.drop 4))
  else if ['f', 'a', 'l', 's', 'e'].isPrefixOf text then some (.bool false, skipWs (text.drop 5))
  else
    ((readString fuel text).map fun p => (.string p.1, p.2)).or
      ((numberValue (text.takeWhile isNumberChar)).map fun n =>
        (.number n, skipWs (text.dropWhile isNumberChar)))

mutual

def readValue : ℕ → List Char → Option (Value × List Char)
  | 0, _ => none
  | fuel + 1, text =>
    if (skipWs text).head? = some '[' then
      ((readElements fuel (skipWs text).tail).bind fun p =>
        (expect ']' p.2).map fun rest => (.array p.1, rest)).or
        ((expect ']' (skipWs (skipWs text).tail)).map fun rest => (.array [], rest))
    else if (skipWs text).head? = some '\x7b' then
      ((readMembers fuel (skipWs text).tail).bind fun p =>
        (expect '\x7d' p.2).map fun rest => (.object p.1, rest)).or
        ((expect '\x7d' (skipWs (skipWs text).tail)).map fun rest => (.object [], rest))
    else readScalar fuel (skipWs text)

def readElements : ℕ → List Char → Option (List Value × List Char)
  | 0, _ => none
  | fuel + 1, text =>
    (readValue fuel text).bind fun p =>
      if p.2.head? = some ',' then
        (readElements fuel p.2.tail).map fun q => (p.1 :: q.1, q.2)
      else some ([p.1], p.2)

def readMember : ℕ → List Char → Option ((String × Value) × List Char)
  | 0, _ => none
  | fuel + 1, text =>
    (readString fuel (skipWs text)).bind fun name =>
      (expect ':' name.2).bind fun rest =>
        (readValue fuel rest).map fun p => ((name.1, p.1), p.2)

def readMembers : ℕ → List Char → Option (List (String × Value) × List Char)
  | 0, _ => none
  | fuel + 1, text =>
    (readMember fuel text).bind fun p =>
      if p.2.head? = some ',' then
        (readMembers fuel p.2.tail).map fun q => (p.1 :: q.1, q.2)
      else some ([p.1], p.2)

end

/-! ## Everything derivable is read -/

/-- The readers skip white space at the front. -/
theorem readValue_congr {text text' : List Char} (h : skipWs text = skipWs text') (fuel : ℕ) :
    readValue fuel text = readValue fuel text' := by
  cases fuel with
  | zero => rfl
  | succ fuel => simp only [readValue, h]

theorem readElements_congr {text text' : List Char} (h : skipWs text = skipWs text') (fuel : ℕ) :
    readElements fuel text = readElements fuel text' := by
  cases fuel with
  | zero => rfl
  | succ fuel => simp only [readElements, readValue_congr h]

theorem readMember_congr {text text' : List Char} (h : skipWs text = skipWs text') (fuel : ℕ) :
    readMember fuel text = readMember fuel text' := by
  cases fuel with
  | zero => rfl
  | succ fuel => simp only [readMember, h]

theorem readMembers_congr {text text' : List Char} (h : skipWs text = skipWs text') (fuel : ℕ) :
    readMembers fuel text = readMembers fuel text' := by
  cases fuel with
  | zero => rfl
  | succ fuel => simp only [readMembers, readMember_congr h]

theorem expect_cons (c : Char) (text : List Char) : expect c (c :: text) = some (skipWs text) := by
  simp [expect]

theorem readString_complete {t cs : List Char} (h : Chars t cs) (rest : List Char) (fuel : ℕ) :
    readString (cs.length + 1 + fuel) ('"' :: t ++ ['"'] ++ rest) =
      some (.ofList cs, skipWs rest) := by
  have hchars := readChars_complete h rest fuel
  simp [readString, hchars]

theorem ne_of_isNumberChar {c d : Char} (hc : isNumberChar c = true) (hd : isNumberChar d = false) :
    c ≠ d := by
  rintro rfl
  rw [hc] at hd
  exact Bool.false_ne_true hd.symm

theorem ne_nil_of_numberValue {t : List Char} {n : ℚ} (h : numberValue t = some n) : t ≠ [] := by
  rintro rfl
  simp [numberValue, readMinus, isInt] at h

/-- A number ends where its characters end. -/
theorem readScalar_number {t rest : List Char} {n : ℚ} (h : numberValue t = some n)
    (hrest : EndsNumber rest) (fuel : ℕ) :
    readScalar fuel (t ++ rest) = some (.number n, skipWs rest) := by
  have hchars := isNumberChar_of_numberValue h
  have hnone : rest.takeWhile isNumberChar = [] ∧ rest.dropWhile isNumberChar = rest := by
    cases rest with
    | nil => exact ⟨rfl, rfl⟩
    | cons c rest =>
      have hc := hrest c (by simp)
      exact ⟨List.takeWhile_cons_of_neg (by simp [hc]), List.dropWhile_cons_of_neg (by simp [hc])⟩
  obtain ⟨c, t, rfl⟩ := List.exists_cons_of_ne_nil (ne_nil_of_numberValue h)
  have hc := hchars c List.mem_cons_self
  have hquote : c ≠ '"' := ne_of_isNumberChar hc (by decide)
  have hn := (ne_of_isNumberChar hc (d := 'n') (by decide)).symm
  have ht := (ne_of_isNumberChar hc (d := 't') (by decide)).symm
  have hf := (ne_of_isNumberChar hc (d := 'f') (by decide)).symm
  rw [readScalar, List.takeWhile_append_of_pos hchars, List.dropWhile_append_of_pos hchars,
    hnone.1, hnone.2, List.append_nil, h]
  simp [readString, hquote, hn, ht, hf]

/-- Neither array nor object. -/
theorem readValue_scalar {c : Char} (hws : isWs c = false) (harray : c ≠ '[') (hobject : c ≠ '\x7b')
    (text : List Char) (fuel : ℕ) : readValue (fuel + 1) (c :: text) = readScalar fuel (c :: text) := by
  simp [readValue, skipWs_cons hws, harray, hobject]

/-- No element begins with a closing bracket. -/
theorem readElements_close (text : List Char) (fuel : ℕ) : readElements fuel (']' :: text) = none := by
  match fuel with
  | 0 => rfl
  | 1 => rfl
  | fuel + 2 =>
    rw [readElements, readValue_scalar (by decide) (by decide) (by decide)]
    simp [readScalar, readString, isNumberChar, numberValue, readMinus, isInt]

theorem readMembers_close (text : List Char) (fuel : ℕ) :
    readMembers fuel ('\x7d' :: text) = none := by
  match fuel with
  | 0 => rfl
  | 1 => rfl
  | fuel + 2 => simp [readMembers, readMember, skipWs_cons, isWs, readString]

/-- Enough fuel reads a part of a text, whatever follows it. -/
def Node.Reads (text : List Char) : Node → Prop
  | .value v => ∀ rest, EndsNumber rest →
      ∃ n, ∀ fuel, readValue (n + fuel) (text ++ rest) = some (v, skipWs rest)
  | .elements vs => ∀ rest, EndsNumber rest → (skipWs rest).head? ≠ some ',' →
      ∃ n, ∀ fuel, readElements (n + fuel) (text ++ rest) = some (vs, skipWs rest)
  | .member m => ∀ rest, EndsNumber rest →
      ∃ n, ∀ fuel, readMember (n + fuel) (text ++ rest) = some (m, skipWs rest)
  | .members ms => ∀ rest, EndsNumber rest → (skipWs rest).head? ≠ some ',' →
      ∃ n, ∀ fuel, readMembers (n + fuel) (text ++ rest) = some (ms, skipWs rest)

section Reads

variable {t l r : List Char}

theorem reads_number {n : ℚ} (h : numberValue t = some n) : (Node.value (.number n)).Reads t := by
  intro rest hrest
  obtain ⟨c, t', rfl⟩ := List.exists_cons_of_ne_nil (ne_nil_of_numberValue h)
  have hc := isNumberChar_of_numberValue h c List.mem_cons_self
  refine ⟨1, fun fuel => ?_⟩
  rw [Nat.add_comm, List.cons_append, readValue_scalar (isWs_of_isNumberChar hc)
    (ne_of_isNumberChar hc (by decide)) (ne_of_isNumberChar hc (by decide))]
  exact readScalar_number h hrest fuel

theorem reads_string {cs : List Char} (h : Chars t cs) :
    (Node.value (.string (.ofList cs))).Reads ('"' :: t ++ ['"']) := by
  intro rest _
  refine ⟨cs.length + 1 + 1, fun fuel => ?_⟩
  have hfuel : cs.length + 1 + 1 + fuel = (cs.length + 1 + fuel) + 1 := by omega
  have hstring := readString_complete h rest fuel
  rw [hfuel]
  simp only [List.cons_append, List.append_assoc, List.nil_append] at hstring ⊢
  rw [readValue_scalar (by decide) (by decide) (by decide)]
  simp [readScalar, hstring]

theorem reads_emptyArray (hl : Structural '[' l) (hr : Structural ']' r) :
    (Node.value (.array [])).Reads (l ++ r) := by
  intro rest _
  obtain ⟨l', hl', hafter⟩ := hl.skipWs_eq (by decide) (r ++ rest)
  obtain ⟨r', hr', hafter'⟩ := hr.skipWs_eq (by decide) rest
  rw [hr'] at hafter
  have hnone (fuel : ℕ) : readElements fuel l' = none := by
    rw [readElements_congr (hafter.trans (skipWs_cons (by decide) r').symm)]
    exact readElements_close r' fuel
  refine ⟨1, fun fuel => ?_⟩
  rw [Nat.add_comm, List.append_assoc, readValue, hl']
  simp [hnone, hafter, expect_cons, hafter']

theorem reads_emptyObject (hl : Structural '\x7b' l) (hr : Structural '\x7d' r) :
    (Node.value (.object [])).Reads (l ++ r) := by
  intro rest _
  obtain ⟨l', hl', hafter⟩ := hl.skipWs_eq (by decide) (r ++ rest)
  obtain ⟨r', hr', hafter'⟩ := hr.skipWs_eq (by decide) rest
  rw [hr'] at hafter
  have hnone (fuel : ℕ) : readMembers fuel l' = none := by
    rw [readMembers_congr (hafter.trans (skipWs_cons (by decide) r').symm)]
    exact readMembers_close r' fuel
  refine ⟨1, fun fuel => ?_⟩
  rw [Nat.add_comm, List.append_assoc, readValue, hl']
  simp [hnone, hafter, expect_cons, hafter']

theorem reads_array {vs : List Value} (hl : Structural '[' l) (h : (Node.elements vs).Reads t)
    (hr : Structural ']' r) : (Node.value (.array vs)).Reads (l ++ t ++ r) := by
  intro rest _
  obtain ⟨l', hl', hafter⟩ := hl.skipWs_eq (by decide) (t ++ (r ++ rest))
  obtain ⟨r', hr', hafter'⟩ := hr.skipWs_eq (by decide) rest
  obtain ⟨n, hn⟩ := h (r ++ rest) (hr.endsNumber (by decide) rest) (by simp [hr'])
  refine ⟨n + 1, fun fuel => ?_⟩
  rw [Nat.add_right_comm, List.append_assoc, List.append_assoc, readValue, hl']
  simp [readElements_congr hafter, hn, hr', expect_cons, hafter']

theorem reads_object {ms : List (String × Value)} (hl : Structural '\x7b' l)
    (h : (Node.members ms).Reads t) (hr : Structural '\x7d' r) :
    (Node.value (.object ms)).Reads (l ++ t ++ r) := by
  intro rest _
  obtain ⟨l', hl', hafter⟩ := hl.skipWs_eq (by decide) (t ++ (r ++ rest))
  obtain ⟨r', hr', hafter'⟩ := hr.skipWs_eq (by decide) rest
  obtain ⟨n, hn⟩ := h (r ++ rest) (hr.endsNumber (by decide) rest) (by simp [hr'])
  refine ⟨n + 1, fun fuel => ?_⟩
  rw [Nat.add_right_comm, List.append_assoc, List.append_assoc, readValue, hl']
  simp [readMembers_congr hafter, hn, hr', expect_cons, hafter']

theorem reads_element {v : Value} (h : (Node.value v).Reads t) : (Node.elements [v]).Reads t := by
  intro rest hrest hcomma
  obtain ⟨n, hn⟩ := h rest hrest
  refine ⟨n + 1, fun fuel => ?_⟩
  rw [Nat.add_right_comm, readElements, hn]
  simp [hcomma]

theorem reads_elements {v : Value} {vs : List Value} (h : (Node.value v).Reads t)
    (hl : Structural ',' l) (hs : (Node.elements vs).Reads r) :
    (Node.elements (v :: vs)).Reads (t ++ l ++ r) := by
  intro rest hrest hcomma
  obtain ⟨l', hl', hafter⟩ := hl.skipWs_eq (by decide) (r ++ rest)
  obtain ⟨n, hn⟩ := h (l ++ (r ++ rest)) (hl.endsNumber (by decide) _)
  obtain ⟨m, hm⟩ := hs rest hrest hcomma
  refine ⟨n + m + 1, fun fuel => ?_⟩
  have hvalue := hn (m + fuel)
  have helements := hm (n + fuel)
  rw [← Nat.add_assoc] at hvalue
  rw [Nat.add_left_comm, ← Nat.add_assoc] at helements
  rw [Nat.add_right_comm, List.append_assoc, List.append_assoc, readElements, hvalue]
  simp [hl', readElements_congr hafter, helements]

theorem reads_member {cs : List Char} {v : Value} (hname : Chars r cs) (hl : Structural ':' l)
    (h : (Node.value v).Reads t) :
    (Node.member (.ofList cs, v)).Reads ('"' :: r ++ ['"'] ++ l ++ t) := by
  intro rest hrest
  obtain ⟨l', hl', hafter⟩ := hl.skipWs_eq (by decide) (t ++ rest)
  obtain ⟨n, hn⟩ := h rest hrest
  refine ⟨cs.length + 1 + n + 1, fun fuel => ?_⟩
  have hstring := readString_complete hname (l ++ (t ++ rest)) (n + fuel)
  have hvalue := hn (cs.length + 1 + fuel)
  rw [← Nat.add_assoc] at hstring
  rw [Nat.add_left_comm, ← Nat.add_assoc] at hvalue
  rw [Nat.add_right_comm, readMember]
  simp only [List.cons_append, List.append_assoc, List.nil_append] at hstring ⊢
  rw [skipWs_cons (by decide), hstring]
  simp only [Option.bind_some, hl', expect_cons, hafter, readValue_congr (skipWs_skipWs _), hvalue,
    Option.map_some]

theorem reads_lastMember {m : String × Value} (h : (Node.member m).Reads t) :
    (Node.members [m]).Reads t := by
  intro rest hrest hcomma
  obtain ⟨n, hn⟩ := h rest hrest
  refine ⟨n + 1, fun fuel => ?_⟩
  rw [Nat.add_right_comm, readMembers, hn]
  simp [hcomma]

theorem reads_members {m : String × Value} {ms : List (String × Value)} (h : (Node.member m).Reads t)
    (hl : Structural ',' l) (hs : (Node.members ms).Reads r) :
    (Node.members (m :: ms)).Reads (t ++ l ++ r) := by
  intro rest hrest hcomma
  obtain ⟨l', hl', hafter⟩ := hl.skipWs_eq (by decide) (r ++ rest)
  obtain ⟨n, hn⟩ := h (l ++ (r ++ rest)) (hl.endsNumber (by decide) _)
  obtain ⟨k, hk⟩ := hs rest hrest hcomma
  refine ⟨n + k + 1, fun fuel => ?_⟩
  have hmember := hn (k + fuel)
  have hmembers := hk (n + fuel)
  rw [← Nat.add_assoc] at hmember
  rw [Nat.add_left_comm, ← Nat.add_assoc] at hmembers
  rw [Nat.add_right_comm, List.append_assoc, List.append_assoc, readMembers, hmember]
  simp [hl', readMembers_congr hafter, hmembers]

end Reads

/-- **Completeness.** What the grammar derives is read. -/
theorem Derives.complete {text : List Char} {node : Node} (h : Derives text node) :
    node.Reads text := by
  induction h with
  | null | true | false =>
    intro rest _
    refine ⟨1, fun fuel => ?_⟩
    rw [Nat.add_comm, List.cons_append, readValue_scalar (by decide) (by decide) (by decide)]
    simp [readScalar]
  | number h => exact reads_number h
  | string h => exact reads_string h
  | emptyArray hl hr => exact reads_emptyArray hl hr
  | array hl _ hr ih => exact reads_array hl ih hr
  | emptyObject hl hr => exact reads_emptyObject hl hr
  | object hl _ hr ih => exact reads_object hl ih hr
  | element _ ih => exact reads_element ih
  | elements _ hsep _ ih ihs => exact reads_elements ih hsep ihs
  | member hname hcolon _ ih => exact reads_member hname hcolon ih
  | lastMember _ ih => exact reads_lastMember ih
  | members _ hsep _ ih ihs => exact reads_members ih hsep ihs

theorem Text.complete {text : List Char} {v : Value} (h : Text text v) :
    ∃ n, ∀ fuel, readValue (n + fuel) text = some (v, []) := by
  obtain ⟨hl, h, hr⟩ := h
  rename_i l t r
  have hends : EndsNumber r := by
    intro c hc
    by_contra hnumber
    rw [Bool.not_eq_false] at hnumber
    have hws := hr c (List.mem_of_mem_head? hc)
    rw [isWs_of_isNumberChar hnumber] at hws
    exact Bool.false_ne_true hws
  have hnil : skipWs r = [] := List.dropWhile_eq_nil_iff.mpr hr
  obtain ⟨n, hn⟩ := h.complete r hends
  refine ⟨n, fun fuel => ?_⟩
  rw [List.append_assoc, readValue_congr (skipWs_append hl _), hn, hnil]

/-- **Unambiguity.** A text stands for at most one value. -/
theorem Text.unique {text : List Char} {v v' : Value} (h : Text text v) (h' : Text text v') :
    v = v' := by
  obtain ⟨n, hn⟩ := h.complete
  obtain ⟨n', hn'⟩ := h'.complete
  have hread := hn n'
  rw [Nat.add_comm, hn' n] at hread
  exact (Prod.mk.inj (Option.some.inj hread)).1.symm

/-! ## Compact texts -/

/-- A text without anything to escape stands for itself. -/
theorem chars_self {cs : List Char} (h : cs.all isUnescaped = true) : Chars cs cs := by
  induction cs with
  | nil => exact Chars.nil
  | cons c cs ih =>
    rw [List.all_cons, Bool.and_eq_true] at h
    exact Chars.cons (CharText.unescaped h.1) (ih h.2)

/-- A member whose name has nothing to escape. -/
theorem derives_member {name : String} {t : List Char} {v : Value}
    (hname : name.toList.all isUnescaped = true) (h : Derives t (.value v)) :
    Derives ('"' :: name.toList ++ ['"'] ++ [':'] ++ t) (.member (name, v)) := by
  have hmember := Derives.member (chars_self hname) (structural ':') h
  rwa [String.ofList_toList] at hmember

theorem derives_string {t : List Char} {s : String} (h : Chars t s.toList) :
    Derives ('"' :: t ++ ['"']) (.value (.string s)) := by
  have hstring := Derives.string h
  rwa [String.ofList_toList] at hstring

theorem derives_natCast (n : ℕ) : Derives (toString n).toList (.value (.number n)) := by
  rw [Nat.toString_eq_repr, Nat.toList_repr]
  exact Derives.number (numberValue_toDigits n)

/-- An object without white space, and nothing else. -/
theorem text_object_iff {ts : List Char} {ms : List (String × Value)} (h : Derives ts (.members ms))
    (v : Value) : Text ('\x7b' :: ts ++ ['\x7d']) v ↔ v = .object ms := by
  have hobject := Derives.object (structural '\x7b') h (structural '\x7d')
  have htext : Text ('\x7b' :: ts ++ ['\x7d']) (.object ms) := by
    simpa using Text.mk (l := []) (r := []) (by simp) hobject (by simp)
  constructor
  · intro hv
    exact hv.unique htext
  · rintro rfl
    exact htext

end Json
