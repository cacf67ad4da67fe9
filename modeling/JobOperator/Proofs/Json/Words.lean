import JobOperator.Json.Printer
import JobOperator.Json.Token
import JobOperator.Proofs.Text.Decimal
import Mathlib.Data.List.TakeDrop

/-!
The words of a text as it is printed. A quoted text is one word, whatever characters it holds, and so
are the digits of an integer of 64 bits; each word ends where the next begins.
-/

namespace JobOperator.Json.Token

/-! ### Strings -/

theorem hexUnit?_control {c : Char} (h : c < ' ') :
    hexUnit? '0' '0' (hexDigit (c.toNat / 16)) (hexDigit (c.toNat % 16)) = some c.toNat := by
  have hall : ∀ n : Fin 32,
      hexUnit? '0' '0' (hexDigit (n.val / 16)) (hexDigit (n.val % 16)) = some n.val := by decide
  have hc : c.toNat < 32 := h
  exact hall ⟨c.toNat, hc⟩

/-- A piece that denotes one character, wherever it stands. -/
def Piece.Denotes (piece : Piece) (c : Char) : Prop :=
  ∀ ending chars rest, denote ending chars (piece :: rest) = denote ending (c :: chars) rest

theorem Piece.char_denotes (c : Char) : (Piece.char c).Denotes c := fun _ _ _ => rfl

theorem Piece.unit_denotes {c : Char} (h : c < ' ') : (Piece.unit c.toNat).Denotes c := by
  intro ending chars rest
  have hc : c.toNat < 32 := h
  have hhigh : isHighSurrogate c.toNat = false := by
    simp only [isHighSurrogate, Bool.and_eq_false_iff, decide_eq_false_iff_not]
    omega
  have hlow : isLowSurrogate c.toNat = false := by
    simp only [isLowSurrogate, Bool.and_eq_false_iff, decide_eq_false_iff_not]
    omega
  rw [denote.eq_def]
  simp only [hhigh, hlow, Bool.false_eq_true, if_false, Char.ofNat_toNat]

/-- An escaped character is read as one piece. -/
theorem stringBody_escapeChar (pieces : List Piece) (c : Char) (rest : List Char) :
    ∃ piece : Piece, stringBody pieces (escapeChar c ++ rest) = stringBody (piece :: pieces) rest ∧
      piece.Denotes c := by
  unfold escapeChar
  split
  -- the characters with an escape of their own come first; any other is a control or stands as it is
  case h_8 =>
    split
    · rename_i hcontrol
      refine ⟨.unit c.toNat, ?_, Piece.unit_denotes hcontrol⟩
      simp only [List.cons_append, List.nil_append]
      rw [stringBody]
      simp only [hexUnit?_control hcontrol]
    · rename_i hplain
      refine ⟨.char c, ?_, Piece.char_denotes c⟩
      simp only [List.cons_append, List.nil_append]
      rw [stringBody]
      · rw [if_neg hplain]
      all_goals simp_all
  all_goals exact ⟨_, rfl, Piece.char_denotes _⟩

/-- A quoted text is read up to its closing quote, as pieces that denote it. -/
theorem stringBody_quoted (pieces : List Piece) (chars rest : List Char) :
    ∃ read : List Piece,
      stringBody pieces (chars.flatMap escapeChar ++ '"' :: rest) =
        ⟨read.reverse ++ pieces, none, rest⟩ ∧
      ∀ ending before, denote ending before read = .ok (before.reverse ++ chars) := by
  induction chars generalizing pieces with
  | nil => exact ⟨[], by simp [stringBody], by simp [denote]⟩
  | cons c chars ih =>
    obtain ⟨piece, hpiece, hdenotes⟩ :=
      stringBody_escapeChar pieces c (chars.flatMap escapeChar ++ '"' :: rest)
    obtain ⟨read, hread, hchars⟩ := ih (piece :: pieces)
    refine ⟨piece :: read, ?_, fun ending before => ?_⟩
    · rw [List.flatMap_cons, List.append_assoc, hpiece, hread, List.reverse_cons, List.append_assoc]
      rfl
    · rw [hdenotes, hchars, List.reverse_cons, List.append_assoc]
      rfl

theorem toList_quote (s : String) :
    (quote s).toList = '"' :: (s.toList.flatMap escapeChar ++ ['"']) := by
  rw [quote, String.toList_ofList]
  rfl

theorem scanString_quoted (s : String) (rest : List Char) :
    scanString (s.toList.flatMap escapeChar ++ '"' :: rest) = (.str s, rest) := by
  obtain ⟨read, hread, hchars⟩ := stringBody_quoted [] s.toList rest
  simp only [scanString, hread, List.append_nil, List.reverse_reverse, hchars, List.reverse_nil,
    List.nil_append, String.ofList_toList]

/-! ### Integers -/

/-- What may stand after a value: nothing, or the comma or bracket that ends it. -/
def EndsValue (rest : List Char) : Prop := ∀ c ∈ rest.head?, c = ',' ∨ c = ']' ∨ c = '\x7d'

theorem endsValue_cons {c : Char} {rest : List Char} (h : c = ',' ∨ c = ']' ∨ c = '\x7d') :
    EndsValue (c :: rest) := by
  rintro _ ⟨⟩
  exact h

/-- An integer that is written as digits and read from them: it has 64 bits, with a sign or without. -/
def FitsWord (n : Int) : Prop := Int64.minValue.toInt ≤ n ∧ n < UInt64.size

/-- Digits end where a value does. -/
theorem span_digits {rest : List Char} (n : Nat) (h : EndsValue rest) :
    (Decimal.ofNat n ++ rest).span Char.isDigit = (Decimal.ofNat n, rest) := by
  have hdigits : ∀ c ∈ Decimal.ofNat n, c.isDigit = true :=
    fun _ => Decimal.isDigit_of_mem_ofNat
  have hstop : rest.takeWhile Char.isDigit = [] ∧ rest.dropWhile Char.isDigit = rest := by
    cases rest with
    | nil => exact ⟨rfl, rfl⟩
    | cons c rest =>
      have hc : c.isDigit = false := by
        rcases h c rfl with rfl | rfl | rfl <;> rfl
      exact ⟨List.takeWhile_cons_of_neg (by simp [hc]), List.dropWhile_cons_of_neg (by simp [hc])⟩
  rw [List.span_eq_takeWhile_dropWhile, List.takeWhile_append_of_pos hdigits,
    List.dropWhile_append_of_pos hdigits, hstop.1, hstop.2, List.append_nil]

theorem someDigits_ofNat {rest : List Char} (n : Nat) (h : EndsValue rest) :
    someDigits (Decimal.ofNat n ++ rest) = .ok (Decimal.ofNat n, rest) := by
  rw [someDigits, span_digits n h]
  split
  · rename_i heq
    exact absurd (congrArg Prod.fst heq) (Decimal.ofNat_ne_nil n)
  · rename_i heq
    exact absurd (congrArg Prod.fst heq) (Decimal.ofNat_ne_nil n)
  · rfl

theorem no_leading_zero (n : Nat) :
    ((Decimal.ofNat n).head? = some '0' && (Decimal.ofNat n).length > 1) = false := by
  cases h : Decimal.ofNat n with
  | nil => rfl
  | cons c digits =>
    by_cases hc : c = '0'
    · subst hc
      rw [Decimal.eq_nil_of_ofNat_eq_zero_cons h]
      rfl
    · simp [hc]

/-- Digits are read as the integer with their sign. -/
theorem scanNumber_ofNat {rest : List Char} {negative : Bool} {n : Nat} {value : Int}
    (hvalue : (if negative then -(n : Int) else n) = value) (hsign : negative = true → value ≠ 0)
    (hfits : FitsWord value) (hrest : EndsValue rest) :
    scanNumber negative (Decimal.ofNat n ++ rest) = (.num (.int value), rest) := by
  have hinteger : (!(negative && value == 0) && decide (Int64.minValue.toInt ≤ value) &&
      decide (value < UInt64.size)) = true := by
    simp only [Bool.and_eq_true, decide_eq_true_eq, Bool.not_eq_true', Bool.and_eq_false_imp,
      beq_eq_false_iff_ne]
    exact ⟨⟨hsign, hfits.1⟩, hfits.2⟩
  have hnumber : number negative (Decimal.ofNat n) none none 0 = .num (.int value) := by
    simp only [number, Decimal.value_ofNat, hvalue, Option.isNone_none, Bool.true_and, hinteger,
      if_true]
  simp only [scanNumber, someDigits_ofNat n hrest, no_leading_zero, bind, Except.bind, pure,
    Except.pure, Bool.false_eq_true, if_false]
  cases rest with
  | nil => simp only [hnumber]
  | cons c rest =>
    rcases hrest c rfl with rfl | rfl | rfl <;> simp [hnumber]

theorem isBlank_digit {c : Char} (h : c.isDigit = true) : isBlank c = false := by
  have hc := Decimal.toNat_of_isDigit h
  simp only [isBlank, Bool.or_eq_false_iff, decide_eq_false_iff_not]
  refine ⟨⟨⟨?_, ?_⟩, ?_⟩, ?_⟩ <;> rintro rfl <;> simp at hc

theorem scanOne_digit {c : Char} (h : c.isDigit = true) (text : List Char) :
    scanOne c text = scanNumber false (c :: text) := by
  unfold scanOne
  split
  case h_12 => rw [if_pos h]
  all_goals cases h

/-! ### One word after the other -/

/-- Words that are read off a text, and the text after them. As many steps as the text has characters
are enough to read on. -/
def Scans (text : List Char) (words : List Token) (rest : List Char) : Prop :=
  ∀ fuel found, text.length ≤ fuel → ∃ fuel', rest.length ≤ fuel' ∧
    scanFrom fuel found text = scanFrom fuel' (words.reverse ++ found) rest

variable {text rest : List Char} {words : List Token}

theorem Scans.one {c : Char} {word : Token} (hblank : isBlank c = false)
    (hword : scanOne c text = (word, rest)) (hlen : rest.length ≤ text.length) :
    Scans (c :: text) [word] rest := by
  intro fuel found hfuel
  cases fuel with
  | zero => simp at hfuel
  | succ fuel =>
    rw [List.length_cons] at hfuel
    refine ⟨fuel, by omega, ?_⟩
    simp only [scanFrom, hblank, Bool.false_eq_true, if_false, hword]
    rfl

theorem Scans.append {middle : List Char} {others : List Token} (h : Scans text words middle)
    (hothers : Scans middle others rest) : Scans text (words ++ others) rest := by
  intro fuel found hfuel
  obtain ⟨fuel', hfuel', heq⟩ := h fuel found hfuel
  obtain ⟨fuel'', hfuel'', heq'⟩ := hothers fuel' _ hfuel'
  refine ⟨fuel'', hfuel'', ?_⟩
  rw [heq, heq', List.reverse_append, List.append_assoc]

theorem Scans.mark {c : Char} {word : Token} (hblank : isBlank c = false)
    (hword : ∀ text, scanOne c text = (word, text)) (h : Scans text words rest) :
    Scans (c :: text) (word :: words) rest :=
  (Scans.one hblank (hword text) (Nat.le_refl _)).append h

theorem Scans.scan_eq (h : Scans text words []) : scan text = words := by
  obtain ⟨fuel, -, heq⟩ := h text.length [] (Nat.le_refl _)
  rw [scan, heq, List.append_nil]
  cases fuel <;> exact List.reverse_reverse words

/-- A quoted text is one word. -/
theorem scans_quote (s : String) (rest : List Char) :
    Scans ((quote s).toList ++ rest) [.str s] rest := by
  rw [toList_quote, List.cons_append, List.append_assoc]
  refine Scans.one rfl (scanString_quoted s rest) ?_
  simp only [List.length_append]
  omega

/-- The digits of an integer are one word. -/
theorem scans_int {n : Int} (hfits : FitsWord n) (hrest : EndsValue rest) :
    Scans ((toString n).toList ++ rest) [.num (.int n)] rest := by
  rw [Decimal.toList_toString, Decimal.ofInt]
  by_cases hneg : n < 0
  · -- the sign is the first character of the word
    rw [if_pos hneg, List.cons_append]
    have hvalue : (if true then -(n.natAbs : Int) else n.natAbs) = n := by
      rw [if_pos rfl]
      omega
    exact Scans.one rfl (scanNumber_ofNat hvalue (fun _ => Int.ne_of_lt hneg) hfits hrest) (by simp)
  · rw [if_neg hneg]
    have hvalue : (if false then -(n.natAbs : Int) else n.natAbs) = n := by
      rw [if_neg Bool.false_ne_true]
      omega
    have hscan := scanNumber_ofNat hvalue (fun h => absurd h Bool.false_ne_true) hfits hrest
    cases hdigits : Decimal.ofNat n.natAbs with
    | nil => exact absurd hdigits (Decimal.ofNat_ne_nil _)
    | cons c digits =>
      have hc : c.isDigit = true := Decimal.isDigit_of_mem_ofNat (hdigits ▸ List.mem_cons_self)
      rw [hdigits, List.cons_append, ← scanOne_digit hc] at hscan
      exact Scans.one (isBlank_digit hc) hscan (by simp)

end JobOperator.Json.Token
