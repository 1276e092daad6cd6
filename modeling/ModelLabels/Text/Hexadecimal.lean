/-! # Hexadecimal numerals

Numbers are written to base sixteen with lower-case digits and at least a given number of them.
`value_padded` says that the number can be read back, so no two numbers are written alike:
`padded_injective`.
-/

namespace ModelLabels.Hexadecimal
set_option autoImplicit false

/-- The digit of a number below sixteen. -/
def digit (d : Nat) : Char :=
  if d < 10 then Char.ofNat (0x30 + d) else Char.ofNat (0x57 + d)

/-- The number a digit stands for. -/
def digitValue (c : Char) : Nat := if c.toNat < 0x40 then c.toNat - 0x30 else c.toNat - 0x57

/-- The digits of a number, the last one first. -/
def reversedDigits (n : Nat) : List Char :=
  if n < 16 then [digit n] else digit (n % 16) :: reversedDigits (n / 16)
termination_by n
decreasing_by omega

/-- A number with at least `width` digits. -/
def padded (width n : Nat) : List Char :=
  let digits := reversedDigits n
  List.replicate (width - digits.length) '0' ++ digits.reverse

/-- The number that digits stand for, the last digit first. -/
def reversedValue : List Char → Nat
  | [] => 0
  | c :: cs => digitValue c + 16 * reversedValue cs

theorem digitValue_digit {d : Nat} (h : d < 16) : digitValue (digit d) = d := by
  have all : ∀ e ∈ List.range 16, digitValue (digit e) = e := by decide
  exact all d (List.mem_range.2 h)

theorem reversedValue_reversedDigits (n : Nat) : reversedValue (reversedDigits n) = n := by
  fun_induction reversedDigits n with
  | case1 n h => simp [reversedValue, digitValue_digit h]
  | case2 n h ih =>
    rw [reversedValue, ih, digitValue_digit (Nat.mod_lt n (by omega))]
    omega

theorem reversedValue_append_zeros (cs : List Char) (k : Nat) :
    reversedValue (cs ++ List.replicate k '0') = reversedValue cs := by
  induction cs with
  | nil =>
    induction k with
    | zero => rfl
    | succ k ih =>
      rw [List.nil_append] at ih ⊢
      rw [List.replicate_succ]
      change digitValue '0' + 16 * reversedValue (List.replicate k '0') = 0
      rw [ih]
      decide
  | cons c cs ih => rw [List.cons_append, reversedValue, reversedValue, ih]

/-- The number can be read back from its numeral. -/
theorem value_padded (width n : Nat) : reversedValue (padded width n).reverse = n := by
  simp only [padded, List.reverse_append, List.reverse_reverse, List.reverse_replicate,
    reversedValue_append_zeros, reversedValue_reversedDigits]

/-- No two numbers are written alike. -/
theorem padded_injective {width n k : Nat} (h : padded width n = padded width k) : n = k := by
  rw [← value_padded width n, h, value_padded]

end ModelLabels.Hexadecimal
