import Mathlib.Data.List.Basic
import Mathlib.Data.Nat.Notation

/-!
# Concatenations that can be taken apart

Ways to join strings so that the parts can be told from the whole: at the first
separator, by blocks of one length, or by a length in bytes that is known.

* `List.append_cons_inj`: what comes before the first separator.
* `List.flatMap_inj_of_length`: blocks of one length.
* `String.append_inj_of_utf8ByteSize_eq`: prefixes with equally many bytes.
-/

namespace List

variable {α β : Type}

/-- Two lists without the separator are told apart by what comes before it. -/
theorem append_cons_inj {sep : α} {l l' r r' : List α} (hl : sep ∉ l) (hl' : sep ∉ l')
    (h : l ++ sep :: r = l' ++ sep :: r') : l = l' ∧ r = r' := by
  induction l generalizing l' with
  | nil =>
    cases l' with
    | nil => exact ⟨rfl, (cons.inj h).2⟩
    | cons x l' =>
      obtain rfl : sep = x := (cons.inj h).1
      exact absurd mem_cons_self hl'
  | cons x l ih =>
    cases l' with
    | nil =>
      obtain rfl : x = sep := (cons.inj h).1
      exact absurd mem_cons_self hl
    | cons x' l' =>
      obtain ⟨rfl, htail⟩ := cons.inj h
      obtain ⟨rfl, hr⟩ := ih (fun hx => hl (mem_cons_of_mem x hx))
        (fun hx => hl' (mem_cons_of_mem x hx)) htail
      exact ⟨rfl, hr⟩

/-- Blocks of one positive length are told apart by their positions. -/
theorem flatMap_inj_of_length {f : α → List β} {n : ℕ} (hlen : ∀ x, (f x).length = n) (hn : 0 < n)
    (hf : ∀ x y, f x = f y → x = y) {l l' : List α} (h : l.flatMap f = l'.flatMap f) : l = l' := by
  have hnil (x : α) (xs : List α) : (x :: xs).flatMap f ≠ [] := by
    intro hx
    rw [flatMap_cons, append_eq_nil_iff] at hx
    have := hlen x
    rw [hx.1, length_nil] at this
    omega
  induction l generalizing l' with
  | nil =>
    cases l' with
    | nil => rfl
    | cons x l' => exact absurd h.symm (hnil x l')
  | cons x l ih =>
    cases l' with
    | nil => exact absurd h (hnil x l)
    | cons x' l' =>
      rw [flatMap_cons, flatMap_cons] at h
      obtain ⟨hhead, htail⟩ := append_inj h ((hlen x).trans (hlen x').symm)
      rw [hf x x' hhead, ih htail]

end List

namespace String

/-- Prefixes with equally many bytes are equal. -/
theorem append_inj_of_utf8ByteSize_eq {s s' t t' : String} (h : s ++ t = s' ++ t')
    (hsize : s.utf8ByteSize = s'.utf8ByteSize) : s = s' ∧ t = t' := by
  have hlists : s.toList ++ t.toList = s'.toList ++ t'.toList := by
    rw [← toList_append, h, toList_append]
  -- one is a prefix of the other, and what it lacks has no bytes
  have hlonger {a a' : String} {m : List Char} (ha : a.toList = a'.toList ++ m)
      (hsize : a.utf8ByteSize = a'.utf8ByteSize) : a = a' := by
    have heq : a = a' ++ ofList m := by
      rw [← toList_inj, toList_append, toList_ofList, ha]
    rw [heq, utf8ByteSize_append] at hsize
    have hempty : ofList m = "" := utf8ByteSize_eq_zero_iff.mp (by omega)
    rw [heq, hempty, append_empty]
  have hs : s = s' := by
    rcases List.append_eq_append_iff.mp hlists with ⟨m, hm, -⟩ | ⟨m, hm, -⟩
    · exact (hlonger hm hsize.symm).symm
    · exact hlonger hm hsize
  subst hs
  exact ⟨rfl, (append_right_inj s).mp h⟩

end String
