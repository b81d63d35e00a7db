import Mathlib.Data.Nat.Digits.Defs

/-! Decimal texts of machine integers: what `itoa` writes, `atoi` reads back. -/

namespace Fire2.Decimal

/-- `strconv.Itoa`. -/
def itoa : Int → String
  | .ofNat n => String.ofList (Nat.toDigits 10 n)
  | .negSucc n => String.ofList ('-' :: Nat.toDigits 10 (n + 1))

def signed : List Char → Bool × List Char
  | '-' :: ds => (true, ds)
  | '+' :: ds => (false, ds)
  | ds => (false, ds)

def int64 (n : Int) : Prop := -2 ^ 63 ≤ n ∧ n < 2 ^ 63

instance (n : Int) : Decidable (int64 n) := inferInstanceAs (Decidable (_ ∧ _))

/-- `strconv.Atoi` where an int has 64 bits. -/
def atoi (s : String) : Option Int :=
  let (negative, ds) := signed s.toList
  if ds = [] ∨ ds.all Char.isDigit = false then none
  else
    let n : Int := Nat.ofDigitChars 10 ds 0
    let n := if negative then -n else n
    if int64 n then some n else none

theorem toDigits_isDigit {n : Nat} {c : Char} (h : c ∈ Nat.toDigits 10 n) : c.isDigit = true :=
  Nat.isDigit_of_mem_toDigits (by decide) (by decide) h

theorem all_isDigit (n : Nat) : (Nat.toDigits 10 n).all Char.isDigit = true :=
  List.all_eq_true.2 fun _ => toDigits_isDigit

theorem signed_toDigits (n : Nat) : signed (Nat.toDigits 10 n) = (false, Nat.toDigits 10 n) := by
  unfold signed
  split
  · rename_i ds eq
    have : Char.isDigit '-' = true := toDigits_isDigit (n := n) (by rw [eq]; simp)
    cases this
  · rename_i ds eq
    have : Char.isDigit '+' = true := toDigits_isDigit (n := n) (by rw [eq]; simp)
    cases this
  · rfl

theorem atoi_itoa {n : Int} (h : int64 n) : atoi (itoa n) = some n := by
  cases n with
  | ofNat n =>
    have nonempty : Nat.toDigits 10 n ≠ [] := Nat.toDigits_ne_nil
    simp only [atoi, itoa, String.toList_ofList, signed_toDigits, all_isDigit,
      Nat.ofDigitChars_ten_toDigits]
    simpa [nonempty] using h
  | negSucc n =>
    have nonempty : Nat.toDigits 10 (n + 1) ≠ [] := Nat.toDigits_ne_nil
    simp only [atoi, itoa, String.toList_ofList, signed, all_isDigit,
      Nat.ofDigitChars_ten_toDigits]
    have same : -((n + 1 : Nat) : Int) = Int.negSucc n := rfl
    simp only [nonempty, Bool.true_eq_false, or_self, if_false, if_true, same, h]

theorem itoa_chars {n : Int} {c : Char} (h : c ∈ (itoa n).toList) : c = '-' ∨ c.isDigit = true := by
  cases n with
  | ofNat n =>
    rw [itoa, String.toList_ofList] at h
    exact .inr (toDigits_isDigit h)
  | negSucc n =>
    rw [itoa, String.toList_ofList, List.mem_cons] at h
    exact h.imp_right toDigits_isDigit

theorem itoa_ne_nil (n : Int) : (itoa n).toList ≠ [] := by
  cases n with
  | ofNat n => simp [itoa, Nat.toDigits_ne_nil]
  | negSucc n => simp [itoa]

end Fire2.Decimal
