import Mathlib.Algebra.Group.Nat.Defs
import Mathlib.Data.Nat.Find
import Mathlib.Data.List.TakeWhile

/-!
# Whole numbers as doubles

A number of JavaScript is a double: 53 bits and an exponent, and what lies between two of them is
rounded to the nearer one, to the even one from the middle. Whole numbers up to 2^53 are exact.
`String` writes the fewest digits that `Number` reads as the same double.
-/

namespace PracticalMicroservice.Foundations

/-! ## Rounding -/

/-- The distance of the doubles at a whole number. -/
def ulp (n : Nat) : Nat := 2 ^ (n.log2 + 1 - 53)

/-- The double that is nearest to a whole number. -/
def double (n : Nat) : Nat :=
  let q := n / ulp n
  let r := n % ulp n
  (if 2 * r < ulp n ∨ (2 * r = ulp n ∧ q % 2 = 0) then q else q + 1) * ulp n

/-- The number is one that a double holds. -/
def IsDouble (n : Nat) : Prop := double n = n

instance : DecidablePred IsDouble := fun n => inferInstanceAs (Decidable (double n = n))

variable {n : Nat}

theorem ulp_pos (n : Nat) : 0 < ulp n := Nat.two_pow_pos _

theorem double_of_lt (h : n < 2 ^ 53) : double n = n := by
  have hlog : n.log2 + 1 - 53 = 0 := by
    by_cases h0 : n = 0
    · simp [h0]
    · have := (Nat.log2_lt h0).mpr h
      omega
  have hulp : ulp n = 1 := by
    unfold ulp
    rw [hlog, Nat.pow_zero]
  unfold double
  simp [hulp, Nat.mod_one]

theorem double_zero : double 0 = 0 := double_of_lt (Nat.two_pow_pos 53)

/-- The rounding does not cross the power of two below a number, which is a double itself. -/
theorem pow_log2_le_double (h : n ≠ 0) : 2 ^ n.log2 ≤ double n := by
  have hsplit : 2 ^ n.log2 = 2 ^ (n.log2 - (n.log2 + 1 - 53)) * ulp n := by
    unfold ulp
    rw [← Nat.pow_add]
    congr 1
    omega
  have hq : 2 ^ (n.log2 - (n.log2 + 1 - 53)) ≤ n / ulp n := by
    rw [Nat.le_div_iff_mul_le (ulp_pos n), ← hsplit]
    exact Nat.log2_self_le h
  rw [hsplit]
  unfold double
  refine Nat.mul_le_mul_right _ (hq.trans ?_)
  split
  · exact le_refl _
  · exact Nat.le_succ _

theorem double_pos (h : 0 < n) : 0 < double n :=
  (Nat.two_pow_pos _).trans_le (pow_log2_le_double (Nat.pos_iff_ne_zero.mp h))

@[simp] theorem double_pos_iff : 0 < double n ↔ 0 < n := by
  refine ⟨fun h => Nat.pos_of_ne_zero fun h0 => ?_, double_pos⟩
  rw [h0, double_zero] at h
  omega

/-- What is rounded to a number below 2^53 was that number. -/
theorem eq_of_double_lt (h : double n < 2 ^ 53) : double n = n := by
  by_cases hn : n < 2 ^ 53
  · exact double_of_lt hn
  · have h0 : n ≠ 0 := fun h0 => hn (h0 ▸ Nat.two_pow_pos 53)
    have hlog : 53 ≤ n.log2 := (Nat.le_log2 h0).mpr (not_lt.mp hn)
    have hpow : 2 ^ 53 ≤ 2 ^ n.log2 := Nat.pow_le_pow_right (by omega) hlog
    have := pow_log2_le_double h0
    omega

/-! ## Texts -/

/-- The multiples of a step on both sides of a number, the nearer one first. -/
def neighbours (step n : Nat) : List Nat :=
  let below := n / step * step
  if 2 * (n % step) < step ∨ (2 * (n % step) = step ∧ n / step % 2 = 0) then [below, below + step]
  else [below + step, below]

/-- A number with `zeros` zeros at its end that is read as the double `n`. -/
def decimal (n zeros : Nat) : Option Nat :=
  (neighbours (10 ^ zeros) n).find? fun m => double m = n

/-- The most zeros such a number can have. -/
def zeros (n : Nat) : Nat :=
  Nat.findGreatest (fun zeros => (decimal n zeros).isSome) (Nat.toDigits 10 n).length

/-- The number with the fewest digits that is read as `n`. -/
def shortest (n : Nat) : Nat := (decimal n (zeros n)).getD n

/-- `String(n)`: the digits and their zeros, or from 10^21 on one digit, the others behind a point,
and a power of ten. -/
def stringOf (n : Nat) : String :=
  let digits := Nat.toDigits 10 (shortest n / 10 ^ zeros n)
  if digits.length + zeros n ≤ 21 then toString (shortest n)
  else
    let fraction := if digits.tail = [] then [] else '.' :: digits.tail
    String.ofList (digits.take 1 ++ fraction ++
      'e' :: '+' :: Nat.toDigits 10 (digits.tail.length + zeros n))

/-- The digits of an exponent, none where there is no exponent. -/
def exponentOf : List Char → Option (List Char)
  | [] => some []
  | 'e' :: '+' :: digits => some digits
  | _ => none

/-- `Number(raw)` of what `String` writes of a whole number: digits, a fraction of no more of them
than an exponent makes up for. -/
def numberOf (raw : String) : Option Nat := do
  let mantissa := raw.toList.takeWhile (· != 'e')
  let exponent ← exponentOf (raw.toList.dropWhile (· != 'e'))
  let whole := mantissa.takeWhile (· != '.')
  let fraction := (mantissa.dropWhile (· != '.')).tail
  let power := Nat.ofDigitChars 10 exponent 0
  if whole ≠ [] ∧ (whole ++ fraction ++ exponent).all Char.isDigit ∧ fraction.length ≤ power then
    some (double (Nat.ofDigitChars 10 (whole ++ fraction) 0 * 10 ^ (power - fraction.length)))
  else none

theorem isDigit_toDigits (n : Nat) : ∀ c ∈ Nat.toDigits 10 n, c.isDigit = true := fun _ hc =>
  Nat.isDigit_of_mem_toDigits (by decide) (by decide) hc

/-- Digits are neither a point nor the mark of an exponent. -/
theorem ne_of_isDigit {c d : Char} (hc : c.isDigit = true) (hd : d.isDigit = false) :
    (c != d) = true := by
  refine bne_iff_ne.mpr fun h => ?_
  rw [h, hd] at hc
  cases hc

theorem decimal_eq_some {zeros m : Nat} (h : decimal n zeros = some m) :
    double m = n ∧ 10 ^ zeros ∣ m := by
  unfold decimal at h
  have hsome := List.find?_some h
  refine ⟨of_decide_eq_true hsome, ?_⟩
  have hmem := List.mem_of_find?_eq_some h
  have hbelow : 10 ^ zeros ∣ n / 10 ^ zeros * 10 ^ zeros := Nat.dvd_mul_left _ _
  have habove := Nat.dvd_add hbelow (Nat.dvd_refl (10 ^ zeros))
  have hor : m = n / 10 ^ zeros * 10 ^ zeros ∨ m = n / 10 ^ zeros * 10 ^ zeros + 10 ^ zeros := by
    unfold neighbours at hmem
    split at hmem
    · simpa using hmem
    · exact Or.symm (by simpa using hmem)
  rcases hor with rfl | rfl
  · exact hbelow
  · exact habove

/-- Without zeros there is the number itself. -/
theorem decimal_zero (h : IsDouble n) : decimal n 0 = some n := by
  have hnear : neighbours (10 ^ 0) n = [n, n + 1] := by
    simp [neighbours, Nat.mod_one]
  have hself : (decide (double n = n)) = true := decide_eq_true h
  unfold decimal
  rw [hnear, List.find?_cons, hself]

/-- What is written is read as the double it was written for, and has the zeros it should. -/
theorem shortest_spec (h : IsDouble n) :
    double (shortest n) = n ∧ shortest n / 10 ^ zeros n * 10 ^ zeros n = shortest n := by
  have hsome : (decimal n (zeros n)).isSome = true := by
    refine Nat.findGreatest_spec (P := fun zeros => (decimal n zeros).isSome = true)
      (Nat.zero_le _) ?_
    rw [decimal_zero h]
    rfl
  obtain ⟨m, hm⟩ := Option.isSome_iff_exists.mp hsome
  have hshortest : shortest n = m := by
    unfold shortest
    rw [hm]
    rfl
  obtain ⟨hdouble, hzeros⟩ := decimal_eq_some hm
  rw [hshortest]
  exact ⟨hdouble, Nat.div_mul_cancel hzeros⟩

/-- Reading digits alone. -/
theorem numberOf_digits {raw : String} {digits : List Char} (hraw : raw.toList = digits)
    (hne : digits ≠ []) (hdigits : ∀ c ∈ digits, c.isDigit = true) :
    numberOf raw = some (double (Nat.ofDigitChars 10 digits 0)) := by
  have he : ∀ c ∈ digits, (c != 'e') = true := fun c hc => ne_of_isDigit (hdigits c hc) rfl
  have hp : ∀ c ∈ digits, (c != '.') = true := fun c hc => ne_of_isDigit (hdigits c hc) rfl
  have hnone : exponentOf [] = some [] := rfl
  have hall : (digits ++ [] ++ []).all Char.isDigit = true := by
    rw [List.append_nil, List.append_nil]
    exact List.all_eq_true.mpr hdigits
  unfold numberOf
  rw [hraw, List.takeWhile_eq_self_iff.mpr he, List.dropWhile_eq_nil_iff.mpr he, hnone,
    Option.bind_eq_bind, Option.bind_some]
  dsimp only
  rw [List.takeWhile_eq_self_iff.mpr hp, List.dropWhile_eq_nil_iff.mpr hp, List.tail_nil,
    if_pos ⟨hne, hall, Nat.zero_le _⟩]
  simp

section Mantissa

variable {first : Char} {rest : List Char}

/-- What stands before an exponent: a digit, and the others behind a point. -/
def mantissa (first : Char) (rest : List Char) : List Char :=
  [first] ++ (if rest = [] then [] else '.' :: rest)

/-- An exponent is not mistaken for a part of it. -/
theorem ne_of_mem_mantissa (hdigits : ∀ c ∈ first :: rest, c.isDigit = true) :
    ∀ c ∈ mantissa first rest, (c != 'e') = true := by
  intro c hc
  rcases List.mem_append.mp hc with hc | hc
  · rw [List.mem_singleton.mp hc]
    exact ne_of_isDigit (hdigits first List.mem_cons_self) rfl
  · split at hc
    · cases hc
    · rcases List.mem_cons.mp hc with rfl | hc
      · rfl
      · exact ne_of_isDigit (hdigits c (List.mem_cons_of_mem _ hc)) rfl

theorem ne_point (hfirst : first.isDigit = true) : ∀ c ∈ [first], (c != '.') = true := by
  intro c hc
  rw [List.mem_singleton.mp hc]
  exact ne_of_isDigit hfirst rfl

theorem takeWhile_mantissa (hfirst : first.isDigit = true) :
    (mantissa first rest).takeWhile (· != '.') = [first] := by
  unfold mantissa
  rw [List.takeWhile_append_of_pos (ne_point hfirst)]
  split
  · rfl
  · simp

theorem dropWhile_mantissa (hfirst : first.isDigit = true) :
    ((mantissa first rest).dropWhile (· != '.')).tail = rest := by
  unfold mantissa
  rw [List.dropWhile_append_of_pos (ne_point hfirst)]
  split
  · rename_i hnil
    rw [hnil]
    rfl
  · simp

/-- Reading digits with a fraction and an exponent. -/
theorem numberOf_exponent {raw : String} {exponent : List Char} {zeros : Nat}
    (hraw : raw.toList = mantissa first rest ++ 'e' :: '+' :: exponent)
    (hdigits : ∀ c ∈ first :: rest, c.isDigit = true)
    (hexponent : ∀ c ∈ exponent, c.isDigit = true)
    (hpower : Nat.ofDigitChars 10 exponent 0 = rest.length + zeros) :
    numberOf raw = some (double (Nat.ofDigitChars 10 (first :: rest) 0 * 10 ^ zeros)) := by
  have hfirst : first.isDigit = true := hdigits first List.mem_cons_self
  have htake : (mantissa first rest ++ 'e' :: '+' :: exponent).takeWhile (· != 'e') =
      mantissa first rest := by
    rw [List.takeWhile_append_of_pos (ne_of_mem_mantissa hdigits)]
    simp
  have hdrop : (mantissa first rest ++ 'e' :: '+' :: exponent).dropWhile (· != 'e') =
      'e' :: '+' :: exponent := by
    rw [List.dropWhile_append_of_pos (ne_of_mem_mantissa hdigits)]
    simp
  have hall : ([first] ++ rest ++ exponent).all Char.isDigit = true := by
    refine List.all_eq_true.mpr fun c hc => ?_
    rcases List.mem_append.mp hc with hc | hc
    · exact hdigits c hc
    · exact hexponent c hc
  have hread : exponentOf ('e' :: '+' :: exponent) = some exponent := rfl
  have hle : rest.length ≤ Nat.ofDigitChars 10 exponent 0 := by omega
  have hzeros : Nat.ofDigitChars 10 exponent 0 - rest.length = zeros := by omega
  unfold numberOf
  rw [hraw, htake, hdrop, hread, Option.bind_eq_bind, Option.bind_some]
  dsimp only
  rw [takeWhile_mantissa hfirst, dropWhile_mantissa hfirst,
    if_pos ⟨List.cons_ne_nil _ _, hall, hle⟩, hzeros]
  rfl

end Mantissa

/-- `Number` reads what `String` writes. -/
theorem numberOf_stringOf (h : IsDouble n) : numberOf (stringOf n) = some n := by
  obtain ⟨hdouble, hzeros⟩ := shortest_spec h
  set digits := Nat.toDigits 10 (shortest n / 10 ^ zeros n) with hdef
  unfold stringOf
  rw [← hdef]
  dsimp only
  split
  · have hraw : (toString (shortest n)).toList = Nat.toDigits 10 (shortest n) := by
      rw [Nat.toString_eq_ofList_toDigits, String.toList_ofList]
    rw [numberOf_digits hraw Nat.toDigits_ne_nil (isDigit_toDigits _),
      Nat.ofDigitChars_ten_toDigits, hdouble]
  · have hnumber : Nat.ofDigitChars 10 digits 0 = shortest n / 10 ^ zeros n := by
      rw [hdef, Nat.ofDigitChars_ten_toDigits]
    have hdigits : ∀ c ∈ digits, c.isDigit = true := isDigit_toDigits _
    obtain ⟨first, rest, hcons⟩ := List.exists_cons_of_ne_nil
      (show digits ≠ [] from Nat.toDigits_ne_nil)
    rw [hcons] at hnumber hdigits ⊢
    have hread := numberOf_exponent (String.toList_ofList ..) hdigits (isDigit_toDigits _)
      (Nat.ofDigitChars_ten_toDigits (n := rest.length + zeros n))
    rw [hnumber, hzeros, hdouble] at hread
    exact hread

end PracticalMicroservice.Foundations
