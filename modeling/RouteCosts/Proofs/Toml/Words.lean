import Mathlib.Data.List.Basic
import RouteCosts.Toml.Number
import RouteCosts.Toml.Writer

/-!
# Words read back

A whole number is written with the digits of base ten. They begin with a zero only if it is all
there is (`head?_toDigits_ne`), so they are read as that number (`integer?_toDigits`), and they are
no point in time (`isMoment_of_isDigit`). A number is thus read back from the word that is written
for it, up to the end of its line (`wordReader_integer`), and so is a truth value.
-/

namespace RouteCosts.Toml

/-! ### Digits -/

section Digits
variable {digits : List Char} (hd : ∀ c ∈ digits, c.isDigit = true)
include hd

theorem digitRun?_of_isDigit (hne : digits ≠ []) : digitRun? Char.isDigit digits = some digits := by
  have hsplit : Text.split '_' digits = [digits] :=
    Text.split_of_not_mem (Text.not_mem_of_forall hd rfl)
  have hall : digits.all Char.isDigit = true := List.all_eq_true.2 hd
  simp [digitRun?, hsplit, hall, hne]

theorem inBase_ten : inBase 10 digits = Nat.ofDigitChars 10 digits 0 := by
  rw [inBase, Nat.ofDigitChars_eq_foldl]
  refine List.foldl_ext _ _ _ fun n c hc => ?_
  rw [HostAddress.hexDigit?, if_pos (hd c hc), Option.getD_some, Nat.mul_comm]

/-- Digits are a whole number, if they do not begin with a zero or are nothing but one. -/
theorem integer?_of_isDigit (hne : digits ≠ []) (hz : digits.head? = some '0' → digits = ['0']) :
    integer? digits = within64 (Nat.ofDigitChars 10 digits 0) := by
  rw [← inBase_ten hd]
  cases digits with
  | nil => exact absurd rfl hne
  | cons c rest =>
    by_cases hc : c = '0'
    · subst hc
      rw [hz rfl]
      rfl
    · have hplus : c ≠ '+' := (List.ne_of_not_mem_cons (Text.not_mem_of_forall hd rfl)).symm
      have hminus : c ≠ '-' := (List.ne_of_not_mem_cons (Text.not_mem_of_forall hd rfl)).symm
      have hrun := digitRun?_of_isDigit hd hne
      simp [integer?, sign, wholeDigits?, hc, hplus, hminus, hrun]

theorem isDate_of_isDigit : isDate digits = false := by
  have hdash : '-' ∉ digits := Text.not_mem_of_forall hd rfl
  unfold isDate
  split
  · exact absurd (by simp) hdash
  · rfl

/-- Digits are no point in time: there are no signs between them. -/
theorem isMoment_of_isDigit : isMoment digits = false := by
  have hclock : timeOfDay? digits = none := by
    have hcolon : ':' ∉ digits := Text.not_mem_of_forall hd rfl
    have : clock? digits = none := by
      unfold clock?
      split
      · exact absurd (by simp) hcolon
      · rfl
    rw [timeOfDay?, this]
  have hdrop (c : Char) (time : List Char) (h : digits.drop 10 = c :: time) : c.isDigit = true :=
    hd c (List.mem_of_mem_drop (h ▸ List.mem_cons_self))
  rw [isMoment, isDate_of_isDigit hd, hclock]
  split
  · next h => exact absurd (hdrop _ _ h) (by decide)
  · next h => exact absurd (hdrop _ _ h) (by decide)
  · rfl

theorem wordValue?_of_isDigit {n : Int} (h : integer? digits = some n) :
    wordValue? digits = some (.integer n) := by
  have htrue : digits ≠ ['t', 'r', 'u', 'e'] := by
    rintro rfl
    exact absurd (hd 't' List.mem_cons_self) (by decide)
  have hfalse : digits ≠ ['f', 'a', 'l', 's', 'e'] := by
    rintro rfl
    exact absurd (hd 'f' List.mem_cons_self) (by decide)
  simp [wordValue?, htrue, hfalse, isMoment_of_isDigit hd, h]

end Digits

/-! ### Whole numbers -/

theorem isDigit_of_mem_toDigits {n : Nat} {c : Char} (h : c ∈ Nat.toDigits 10 n) :
    c.isDigit = true :=
  Nat.isDigit_of_mem_toDigits (by decide) (by decide) h

/-- By induction on the digits from the last one. -/
theorem head?_toDigits_ne {n : Nat} (h : 0 < n) : (Nat.toDigits 10 n).head? ≠ some '0' := by
  induction n using Nat.strongRecOn with
  | ind n ih =>
    rw [Nat.toDigits_eq_if (by decide)]
    split
    · simp only [List.head?_cons, ne_eq, Option.some.injEq, Nat.digitChar_eq_zero]
      omega
    · rw [List.head?_append_of_ne_nil _ Nat.toDigits_ne_nil]
      exact ih (n / 10) (by omega) (by omega)

theorem maxInteger_eq : maxInteger = 9223372036854775807 := by decide

theorem within64_of_le {n : Nat} (h : n ≤ maxInteger) : within64 n = some (n : Int) := by
  rw [maxInteger_eq] at h
  have hmin : Int64.minValue.toInt = -9223372036854775808 := by decide
  have hmax : Int64.maxValue.toInt = 9223372036854775807 := by decide
  rw [within64, hmin, hmax, if_pos (by omega)]

/-- **The digits of a number are read as that number.** -/
theorem integer?_toDigits {n : Nat} (h : n ≤ maxInteger) :
    integer? (Nat.toDigits 10 n) = some (n : Int) := by
  rw [integer?_of_isDigit (fun _ => isDigit_of_mem_toDigits) Nat.toDigits_ne_nil,
    Nat.ofDigitChars_ten_toDigits, within64_of_le h]
  intro hz
  rcases Nat.eq_zero_or_pos n with rfl | hn
  · exact Nat.toDigits_zero 10
  · exact absurd hz (head?_toDigits_ne hn)

/-! ### Words at the end of a line -/

theorem wordReader_append {word : List Char} {value : Value}
    (hw : ∀ c ∈ word, isWordChar c = true) (hd : isDate word = false)
    (hv : wordValue? word = some value) (rest : List Char) :
    wordReader (word ++ '\n' :: rest) = some (value, '\n' :: rest) := by
  have htake : (word ++ '\n' :: rest).takeWhile isWordChar = word := by
    rw [List.takeWhile_append_of_pos hw, List.takeWhile_cons_of_neg (by decide), List.append_nil]
  have hdrop : (word ++ '\n' :: rest).dropWhile isWordChar = '\n' :: rest := by
    rw [List.dropWhile_append_of_pos hw, List.dropWhile_cons_of_neg (by decide)]
  simp [wordReader, htake, hdrop, hd, hv]

theorem wordReader_integer {n : Nat} (h : n ≤ maxInteger) (rest : List Char) :
    wordReader (Nat.toDigits 10 n ++ '\n' :: rest) = some (.integer n, '\n' :: rest) := by
  have hdigits (c : Char) (hc : c ∈ Nat.toDigits 10 n) : c.isDigit = true :=
    isDigit_of_mem_toDigits hc
  refine wordReader_append (fun c hc => ?_) (isDate_of_isDigit hdigits)
    (wordValue?_of_isDigit hdigits (integer?_toDigits h)) rest
  simp [isWordChar, Char.isAlphanum, hdigits c hc]

theorem wordReader_true (rest : List Char) :
    wordReader (['t', 'r', 'u', 'e'] ++ '\n' :: rest) = some (.boolean true, '\n' :: rest) :=
  wordReader_append (List.all_eq_true.1 rfl) rfl rfl rest

theorem wordReader_false (rest : List Char) :
    wordReader (['f', 'a', 'l', 's', 'e'] ++ '\n' :: rest) =
      some (.boolean false, '\n' :: rest) :=
  wordReader_append (List.all_eq_true.1 rfl) rfl rfl rest

end RouteCosts.Toml
