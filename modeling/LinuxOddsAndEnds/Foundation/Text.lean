import Mathlib.Data.List.TakeWhile
import Mathlib.Data.Int.Notation

/-!
# Lines and numbers of a text

A text is read line by line, and a number is read from the beginning of a line as the C
library does it: white space, a sign, and as many digits as there are. What was printed
without leading zeros is read back.
-/

namespace LinuxOddsAndEnds.Foundation

section Lines

/-- The lines of a text that goes on from `line`; an empty rest is no line. -/
def linesFrom (line : List Char) : List Char → List (List Char)
  | [] => if line = [] then [] else [line]
  | c :: text => if c = '\n' then line :: linesFrom [] text else linesFrom (line ++ [c]) text

def lines (text : List Char) : List (List Char) := linesFrom [] text

theorem linesFrom_append {first rest : List Char} (line : List Char) (h : '\n' ∉ first) :
    linesFrom line (first ++ '\n' :: rest) = (line ++ first) :: lines rest := by
  induction first generalizing line with
  | nil => simp [linesFrom, lines]
  | cons c first ih =>
    have hc : c ≠ '\n' := by
      rintro rfl
      exact h List.mem_cons_self
    have hfirst : '\n' ∉ first := fun hmem => h (List.mem_cons_of_mem _ hmem)
    rw [List.cons_append, linesFrom, if_neg hc, ih _ hfirst, List.append_assoc]
    rfl

theorem lines_append {first rest : List Char} (h : '\n' ∉ first) :
    lines (first ++ '\n' :: rest) = first :: lines rest :=
  linesFrom_append [] h

end Lines

section Numbers

def isSpace (c : Char) : Bool :=
  c = ' ' ∨ c = '\t' ∨ c = '\n' ∨ c = '\x0b' ∨ c = '\x0c' ∨ c = '\r'

/-- The number that the leading digits make; without a digit there is none. -/
def readNat (text : List Char) : Option ℕ :=
  if text.takeWhile Char.isDigit = [] then none
  else some (Nat.ofDigitChars 10 (text.takeWhile Char.isDigit) 0)

def readSigned : List Char → Option ℤ
  | '-' :: text => (readNat text).map fun n => -(n : ℤ)
  | '+' :: text => (readNat text).map Nat.cast
  | text => (readNat text).map Nat.cast

def readInt (text : List Char) : Option ℤ := readSigned (text.dropWhile isSpace)

variable {n : ℕ} {rest : List Char}

theorem takeWhile_toDigits (n : ℕ) (h : ∀ c ∈ rest.head?, c.isDigit = false) :
    (Nat.toDigits 10 n ++ rest).takeWhile Char.isDigit = Nat.toDigits 10 n := by
  have hdigits : ∀ c ∈ Nat.toDigits 10 n, c.isDigit = true := fun c hc =>
    Nat.isDigit_of_mem_toDigits (by decide) (by decide) hc
  rw [List.takeWhile_append_of_pos hdigits]
  cases rest with
  | nil => simp
  | cons c rest => simp [h c rfl]

theorem readNat_toDigits (n : ℕ) (h : ∀ c ∈ rest.head?, c.isDigit = false) :
    readNat (Nat.toDigits 10 n ++ rest) = some n := by
  rw [readNat, takeWhile_toDigits n h, if_neg Nat.toDigits_ne_nil, Nat.ofDigitChars_ten_toDigits]

theorem ne_of_isDigit {c : Char} (hc : c.isDigit = true) :
    c ≠ '-' ∧ c ≠ '+' ∧ isSpace c = false := by
  have hne : ∀ d : Char, d.isDigit = false → c ≠ d := by
    rintro d hd rfl
    rw [hc] at hd
    cases hd
  refine ⟨hne _ (by decide), hne _ (by decide), decide_eq_false ?_⟩
  simp only [not_or]
  exact ⟨hne _ (by decide), hne _ (by decide), hne _ (by decide), hne _ (by decide),
    hne _ (by decide), hne _ (by decide)⟩

theorem readInt_of_isDigit {c : Char} {text : List Char} (hc : c.isDigit = true) :
    readInt (c :: text) = (readNat (c :: text)).map Nat.cast := by
  obtain ⟨hminus, hplus, hspace⟩ := ne_of_isDigit hc
  rw [readInt, List.dropWhile_cons_of_neg (by simp [hspace]), readSigned]
  · rintro text' h
    exact hminus (List.cons.inj h).1
  · rintro text' h
    exact hplus (List.cons.inj h).1

theorem readInt_toDigits (n : ℕ) (h : ∀ c ∈ rest.head?, c.isDigit = false) :
    readInt (Nat.toDigits 10 n ++ rest) = some (n : ℤ) := by
  have hread := readNat_toDigits n h
  obtain ⟨c, digits, hdigits⟩ := List.exists_cons_of_ne_nil (Nat.toDigits_ne_nil (n := n) (b := 10))
  have hc : c.isDigit = true :=
    Nat.isDigit_of_mem_toDigits (by decide) (by decide) (hdigits ▸ List.mem_cons_self)
  rw [hdigits, List.cons_append] at hread ⊢
  rw [readInt_of_isDigit hc, hread]
  rfl

theorem readInt_minus_toDigits (n : ℕ) (h : ∀ c ∈ rest.head?, c.isDigit = false) :
    readInt ('-' :: (Nat.toDigits 10 n ++ rest)) = some (-(n : ℤ)) := by
  rw [readInt, List.dropWhile_cons_of_neg (by decide), readSigned, readNat_toDigits n h]
  rfl

end Numbers

end LinuxOddsAndEnds.Foundation
