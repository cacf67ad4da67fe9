import JobOperator.Text.Base64

/-! Base64 is read back: bytes are decoded from their encoding. -/

namespace JobOperator.Base64

theorem sextet?_symbol {n : Nat} (h : n < 64) : sextet? (symbol n) = some n := by
  have hall : ∀ n : Fin 64, sextet? (symbol n) = some n.val := by decide
  exact hall ⟨n, h⟩

theorem symbol_ne_padding {n : Nat} (h : n < 64) : symbol n ≠ '=' := by
  have hall : ∀ n : Fin 64, symbol n ≠ '=' := by decide
  exact hall ⟨n, h⟩

/-- A group without padding is read as three bytes. -/
theorem decode_group {p q r s : Char} {rest : List Char} (hs : s ≠ '=') :
    decode (p :: q :: r :: s :: rest) =
      (decodeThree p q r s).bind fun bytes => (decode rest).map (bytes ++ ·) := by
  rw [decode]
  · cases decodeThree p q r s with
    | none => rfl
    | some bytes => cases decode rest <;> rfl
  · exact fun _ h _ => hs h
  · exact fun h _ => hs h

theorem decode_encode (bytes : List UInt8) : decode (encode bytes) = some bytes := by
  fun_induction encode bytes with
  | case1 => rfl
  | case2 a n =>
    have hn : n < 256 := a.toNat_lt
    have hp : n / 4 * 4 + n % 4 * 16 / 16 = n := by omega
    have hlow : n % 4 * 16 % 16 = 0 := by omega
    rw [decode, decodeOne, sextet?_symbol (by omega), sextet?_symbol (by omega)]
    simp only [bind, Option.bind, if_pos hlow, hp, n, UInt8.ofNat_toNat]
  | case3 a b m n =>
    have hm : m < 256 := a.toNat_lt
    have hn : n < 256 := b.toNat_lt
    have hp : m / 4 * 4 + (m % 4 * 16 + n / 16) / 16 = m := by omega
    have hq : (m % 4 * 16 + n / 16) % 16 * 16 + n % 16 * 4 / 4 = n := by omega
    have hlow : n % 16 * 4 % 4 = 0 := by omega
    rw [decode, decodeTwo, sextet?_symbol (by omega), sextet?_symbol (by omega),
      sextet?_symbol (by omega)]
    · simp only [bind, Option.bind, if_pos hlow, hp, hq, m, n, UInt8.ofNat_toNat]
    · exact fun h => symbol_ne_padding (by omega) h
  | case4 a b c rest m n k ih =>
    have hm : m < 256 := a.toNat_lt
    have hn : n < 256 := b.toNat_lt
    have hk : k < 256 := c.toNat_lt
    have hp : m / 4 * 4 + (m % 4 * 16 + n / 16) / 16 = m := by omega
    have hq : (m % 4 * 16 + n / 16) % 16 * 16 + (n % 16 * 4 + k / 64) / 4 = n := by omega
    have hr : (n % 16 * 4 + k / 64) % 4 * 64 + k % 64 = k := by omega
    rw [decode_group (symbol_ne_padding (by omega)), ih, decodeThree, sextet?_symbol (by omega),
      sextet?_symbol (by omega), sextet?_symbol (by omega), sextet?_symbol (by omega)]
    simp only [bind, Option.bind, pure, hp, hq, hr, m, n, k, UInt8.ofNat_toNat, Option.map_some,
      List.cons_append, List.nil_append]

end JobOperator.Base64
