import JobOperator.Text.Blank
import JobOperator.Text.Decimal
import Mathlib.Algebra.Group.Nat.Defs
import Mathlib.Data.List.Induction

/-!
Digits and the number that they denote: of a numeral, which has no zeros in front, and of a numeral with
zeros in front, however many or up to a width.
-/

namespace JobOperator.Decimal

theorem toNat_of_isDigit {c : Char} (h : c.isDigit = true) : 48 ≤ c.toNat ∧ c.toNat ≤ 57 := by
  simp only [Char.isDigit, Bool.and_eq_true, decide_eq_true_eq, UInt32.le_iff_toNat_le] at h
  exact h

theorem isBlank_of_isDigit {c : Char} (h : c.isDigit = true) : Text.isBlank c = false := by
  have hc := toNat_of_isDigit h
  simp [Text.isBlank]
  omega

/-! ### Values -/

theorem value_append (as bs : List Char) :
    value (as ++ bs) = 10 ^ bs.length * value as + value bs := by
  simp only [value, Nat.ofDigitChars_append]
  exact Nat.ofDigitChars_eq_ofDigitChars_zero

theorem value_zeros (n : Nat) : value (List.replicate n '0') = 0 := by
  simp [value]

theorem value_lt {digits : List Char} (h : ∀ c ∈ digits, c.isDigit = true) :
    value digits < 10 ^ digits.length := by
  induction digits with
  | nil => decide
  | cons c rest ih =>
    have hc : c.toNat - '0'.toNat < 10 := by
      have hd := toNat_of_isDigit (h c List.mem_cons_self)
      have hzero : '0'.toNat = 48 := rfl
      omega
    have hrest := ih fun c hc => h c (List.mem_cons_of_mem _ hc)
    have hvalue : value (c :: rest) = 10 ^ rest.length * (c.toNat - '0'.toNat) + value rest := by
      rw [← List.singleton_append, value_append]
      simp [value, Nat.ofDigitChars_cons]
    have hmul : 10 ^ rest.length * (c.toNat - '0'.toNat) ≤ 10 ^ rest.length * 9 :=
      Nat.mul_le_mul_left _ (by omega)
    rw [hvalue, List.length_cons, Nat.pow_succ]
    omega

/-! ### Numerals -/

theorem ofNat_ne_nil (n : Nat) : ofNat n ≠ [] := Nat.toDigits_ne_nil

/-- Only the numeral of zero starts with a zero. -/
theorem eq_nil_of_ofNat_eq_zero_cons {n : Nat} {digits : List Char} (h : ofNat n = '0' :: digits) :
    digits = [] := by
  cases digits with
  | nil => rfl
  | cons d rest =>
    -- without its zero the numeral has the same value, and too few digits for it
    have hvalue : n = value (d :: rest) := by
      rw [← value_ofNat n, h]
      rfl
    have hlt : n < 10 ^ (d :: rest).length := by
      rw [hvalue]
      exact value_lt fun c hc => isDigit_of_mem_ofNat (h ▸ List.mem_cons_of_mem '0' hc)
    have hlen : (ofNat n).length ≤ (d :: rest).length :=
      (Nat.length_toDigits_le_iff (by decide) (Nat.succ_pos _)).2 hlt
    rw [h, List.length_cons] at hlen
    omega

theorem toList_toString (n : Int) : (toString n).toList = ofInt n := by
  cases n with
  | ofNat n =>
    have hn : ¬ Int.ofNat n < 0 := by simp
    rw [ofInt, if_neg hn]
    exact String.toList_ofList
  | negSucc n =>
    rw [ofInt, if_pos (Int.negSucc_lt_zero n)]
    exact String.toList_append.trans (congrArg ('-' :: ·) String.toList_ofList)

/-! ### Zeros in front -/

theorem isDigit_of_mem_zeros_append {zeros n : Nat} {c : Char}
    (h : c ∈ List.replicate zeros '0' ++ ofNat n) : c.isDigit = true := by
  rcases List.mem_append.1 h with h | h
  · rw [List.eq_of_mem_replicate h]
    decide
  · exact isDigit_of_mem_ofNat h

theorem exists_digitChar {c : Char} (h : c.isDigit = true) : ∃ d < 10, c = Nat.digitChar d := by
  have hc := toNat_of_isDigit h
  refine ⟨c.toNat - 48, by omega, ?_⟩
  apply Char.toNat_inj.1
  rw [Nat.toNat_digitChar_of_lt_ten (by omega)]
  omega

/-- Digits are a numeral with zeros in front. -/
theorem isDigits_iff {digits : List Char} :
    isDigits digits = true ↔
      ∃ zeros number, digits = List.replicate zeros '0' ++ ofNat number := by
  simp only [isDigits, Bool.and_eq_true, Bool.not_eq_true', List.isEmpty_eq_false_iff,
    List.all_eq_true]
  constructor
  · rintro ⟨hne, hdigits⟩
    -- a numeral grows at its end
    induction digits using List.reverseRecOn with
    | nil => exact absurd rfl hne
    | append_singleton before c ih =>
      obtain ⟨d, hd, rfl⟩ := exists_digitChar (hdigits c (by simp))
      have hlast : ofNat d = [Nat.digitChar d] := Nat.toDigits_of_lt_base hd
      by_cases hbefore : before = []
      · refine ⟨0, d, ?_⟩
        rw [hbefore, hlast]
        rfl
      · obtain ⟨zeros, n, rfl⟩ := ih hbefore fun c hc => hdigits c (List.mem_append_left _ hc)
        rw [List.append_assoc, ← hlast]
        by_cases hn : n = 0
        · -- the numeral of zero is one more zero in front
          refine ⟨zeros + 1, d, ?_⟩
          rw [hn, List.replicate_succ', List.append_assoc]
          rfl
        · refine ⟨zeros, 10 * n + d, ?_⟩
          apply congrArg (List.replicate zeros '0' ++ ·)
          exact Nat.toDigits_append_toDigits (by decide) (by omega) hd
  · rintro ⟨zeros, number, rfl⟩
    refine ⟨List.append_ne_nil_of_right_ne_nil _ (ofNat_ne_nil number), fun c hc => ?_⟩
    exact isDigit_of_mem_zeros_append hc

theorem isDigits_ofNat (n : Nat) : isDigits (ofNat n) = true := isDigits_iff.2 ⟨0, n, rfl⟩

/-- A numeral with zeros in front is no numeral. -/
theorem zeros_append_eq_ofNat_iff {zeros m n : Nat} :
    List.replicate zeros '0' ++ ofNat m = ofNat n ↔ zeros = 0 ∧ m = n := by
  constructor
  · intro h
    have hvalue := congrArg value h
    rw [value_append, value_zeros, Nat.mul_zero, Nat.zero_add, value_ofNat, value_ofNat] at hvalue
    have hlength := congrArg List.length h
    rw [hvalue, List.length_append, List.length_replicate] at hlength
    exact ⟨by omega, hvalue⟩
  · rintro ⟨rfl, rfl⟩
    rfl

@[simp] theorem value_padded (width n : Nat) : value (padded width n) = n := by
  rw [padded, value_append, value_zeros, Nat.mul_zero, Nat.zero_add, value_ofNat]

theorem isDigit_of_mem_padded {width n : Nat} {c : Char} (h : c ∈ padded width n) :
    c.isDigit = true :=
  isDigit_of_mem_zeros_append h

theorem length_padded {width n : Nat} (hw : 0 < width) (hn : n < 10 ^ width) :
    (padded width n).length = width := by
  have hlen : (ofNat n).length ≤ width := (Nat.length_toDigits_le_iff (by decide) hw).2 hn
  simp only [padded, List.length_append, List.length_replicate]
  omega

theorem padded_ne_nil (width n : Nat) : padded width n ≠ [] :=
  List.append_ne_nil_of_right_ne_nil _ (ofNat_ne_nil n)

end JobOperator.Decimal
