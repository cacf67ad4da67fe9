import JobOperator.Instant.Timestamp
import JobOperator.Proofs.Instant.Calendar
import JobOperator.Proofs.Text.Decimal

/-!
Reading back what was written as a timestamp. Each part of a timestamp ends before a character that
is no digit, so it is read on its own; the parts together give the point in time again.
-/

namespace JobOperator.Instant

/-- What a point in time must be for a timestamp to denote it: the nanoseconds are those of one
second or of a leap second, which ends a minute, and the year can be named. -/
structure Valid (instant : Instant) : Prop where
  nano : instant.nano < 2 * nanosPerSecond
  leap : nanosPerSecond ≤ instant.nano → instant.second % 60 = 59
  year : isYearInRange (Date.ofDayNumber (instant.second / 86400)).year = true

/-! ### Parts of a timestamp -/

/-- Whether a text does not start with a digit. -/
def NoDigitFirst (text : List Char) : Prop := ∀ c ∈ text.head?, c.isDigit = false

variable {digits rest : List Char}

theorem noDigitFirst_cons {c : Char} (h : c.isDigit = false) : NoDigitFirst (c :: rest) := by
  simp [NoDigitFirst, h]

theorem takeDigits_append {limit : Nat} (hd : ∀ c ∈ digits, c.isDigit = true)
    (hl : digits.length ≤ limit) (hr : NoDigitFirst rest) :
    takeDigits limit (digits ++ rest) = (digits, rest) := by
  induction digits generalizing limit with
  | nil =>
    cases limit with
    | zero => rfl
    | succ limit =>
      cases rest with
      | nil => rfl
      | cons c rest =>
        have hc : c.isDigit = false := hr c rfl
        simp [takeDigits, hc]
  | cons c digits ih =>
    cases limit with
    | zero => simp at hl
    | succ limit =>
      have hc := hd c List.mem_cons_self
      simp only [List.cons_append, takeDigits, hc, if_true,
        ih (fun c hc => hd c (List.mem_cons_of_mem _ hc)) (Nat.le_of_succ_le_succ hl)]

theorem trimStart_cons {c : Char} (h : Text.isBlank c = false) :
    Text.trimStart (c :: rest) = c :: rest := by
  simp [Text.trimStart, h]

theorem padded_eq_cons (width n : Nat) :
    ∃ c digits, Decimal.padded width n = c :: digits ∧ c.isDigit = true := by
  cases h : Decimal.padded width n with
  | nil => exact absurd h (Decimal.padded_ne_nil width n)
  | cons c digits =>
    exact ⟨c, digits, rfl, Decimal.isDigit_of_mem_padded (h ▸ List.mem_cons_self)⟩

theorem trimStart_padded (width n : Nat) (rest : List Char) :
    Text.trimStart (Decimal.padded width n ++ rest) = Decimal.padded width n ++ rest := by
  obtain ⟨c, digits, h, hc⟩ := padded_eq_cons width n
  rw [h, List.cons_append, trimStart_cons (Decimal.isBlank_of_isDigit hc)]

theorem takeDigits_padded {limit width n : Nat} (h : (Decimal.padded width n).length ≤ limit)
    (hr : NoDigitFirst rest) :
    takeDigits limit (Decimal.padded width n ++ rest) = (Decimal.padded width n, rest) :=
  takeDigits_append (fun _ hc => Decimal.isDigit_of_mem_padded hc) h hr

theorem readNumber_padded {limit width n : Nat} (h : (Decimal.padded width n).length ≤ limit)
    (hr : NoDigitFirst rest) :
    readNumber limit (Decimal.padded width n ++ rest) = some (n, rest) := by
  rw [readNumber, trimStart_padded, takeDigits_padded h hr]
  split
  · rename_i h
    exact absurd (congrArg Prod.fst h) (Decimal.padded_ne_nil width n)
  · rename_i h
    cases h
    rw [Decimal.value_padded]

theorem readPart_padded (low : Nat) {high n : Nat} (h : low ≤ n ∧ n ≤ high) (hhigh : high < 100)
    (hr : NoDigitFirst rest) :
    readPart low high (Decimal.padded 2 n ++ rest) = some (n, rest) := by
  have hlen : (Decimal.padded 2 n).length ≤ 2 :=
    Nat.le_of_eq (Decimal.length_padded (by decide) (by omega))
  simp only [readPart, readNumber_padded hlen hr]
  exact if_pos h

theorem readMark_self (mark : Char) (h : Text.isBlank mark = false) (rest : List Char) :
    readMark mark (mark :: rest) = some rest := by
  simp [readMark, Text.trimStart, h]

/-! ### Years -/

theorem readYear_write (year : Int) (hr : NoDigitFirst rest) :
    readYear (writeYear year ++ rest) = some (year, rest) := by
  simp only [writeYear]
  by_cases h : 0 ≤ year ∧ year ≤ 9999
  · have hlen : (Decimal.padded 4 year.toNat).length ≤ 4 :=
      Nat.le_of_eq (Decimal.length_padded (by decide) (by omega))
    have hread := readNumber_padded hlen hr
    have htoNat : (year.toNat : Int) = year := by omega
    obtain ⟨c, digits, hc, hdigit⟩ := padded_eq_cons 4 year.toNat
    rw [if_pos h, readYear, trimStart_padded]
    split
    · rename_i htext
      rw [hc] at htext
      cases htext
      exact absurd hdigit (by decide)
    · rename_i htext
      rw [hc] at htext
      cases htext
      exact absurd hdigit (by decide)
    · simp only [hread, Option.map_some, htoNat]
  · have htake : takeDigits (Decimal.padded 4 year.natAbs ++ rest).length
        (Decimal.padded 4 year.natAbs ++ rest) = (Decimal.padded 4 year.natAbs, rest) :=
      takeDigits_padded (by rw [List.length_append]; omega) hr
    obtain ⟨c, digits, hc, -⟩ := padded_eq_cons 4 year.natAbs
    have hvalue := Decimal.value_padded 4 year.natAbs
    rw [hc] at hvalue
    rw [if_neg h]
    by_cases hneg : year < 0
    · rw [if_pos hneg, List.cons_append, readYear, trimStart_cons (by decide)]
      simp only [htake]
      simp only [hc, hvalue, Option.some.injEq, Prod.mk.injEq, and_true]
      omega
    · rw [if_neg hneg, List.cons_append, readYear, trimStart_cons (by decide)]
      simp only [htake]
      simp only [hc, hvalue, Option.some.injEq, Prod.mk.injEq, and_true]
      omega

/-! ### Fractions -/

theorem readFraction_padded {width n : Nat} (hw : 0 < width) (hw9 : width ≤ 9)
    (hn : n < 10 ^ width) :
    readFraction ('.' :: (Decimal.padded width n ++ ['Z'])) =
      some (n * 10 ^ (9 - width), ['Z']) := by
  have hlen := Decimal.length_padded hw hn
  have htake : takeDigits 9 (Decimal.padded width n ++ ['Z']) = (Decimal.padded width n, ['Z']) :=
    takeDigits_padded (by rw [hlen]; exact hw9) (by simp [NoDigitFirst])
  have hvalue : Decimal.value (Decimal.padded width n ++ List.replicate (9 - width) '0') =
      n * 10 ^ (9 - width) := by
    rw [Decimal.value_append, Decimal.value_zeros, Decimal.value_padded, List.length_replicate,
      Nat.add_zero, Nat.mul_comm]
  simp only [readFraction, htake]
  split
  · rename_i h
    exact absurd (congrArg Prod.fst h) (Decimal.padded_ne_nil width n)
  · rename_i h
    cases h
    rw [hlen, hvalue]
    simp

theorem readFraction_write {nano : Nat} (h : nano < nanosPerSecond) :
    readFraction (writeFraction nano ++ ['Z']) = some (nano, ['Z']) := by
  have hnano : nano < 1000000000 := h
  simp only [writeFraction]
  split
  · subst nano
    rfl
  · split
    · rw [List.cons_append, readFraction_padded (by decide) (by decide) (by omega)]
      simp only [Option.some.injEq, Prod.mk.injEq, and_true]
      omega
    · split
      · rw [List.cons_append, readFraction_padded (by decide) (by decide) (by omega)]
        simp only [Option.some.injEq, Prod.mk.injEq, and_true]
        omega
      · rw [List.cons_append, readFraction_padded (by decide) (by decide) (by omega)]
        simp only [Option.some.injEq, Prod.mk.injEq, and_true]
        omega

theorem noDigitFirst_writeFraction (nano : Nat) : NoDigitFirst (writeFraction nano ++ ['Z']) := by
  simp only [writeFraction]
  split
  · simp [NoDigitFirst]
  · split
    · simp [NoDigitFirst]
    · split <;> simp [NoDigitFirst]

/-! ### Whole timestamps -/

/-- A reader that reads something hands it on. -/
theorem bind_of_eq_some {α β : Type} {o : Option α} {a : α} {f : α → Option β} (h : o = some a) :
    o.bind f = f a := by
  rw [h, Option.bind_some]

/-- The text of a date and a time of day in UTC denotes that time of that day. -/
theorem read_parts (date : Date) (hour minute second nano : Nat)
    (hmonth : 1 ≤ date.month ∧ date.month ≤ 12) (hday : 1 ≤ date.day ∧ date.day ≤ 31)
    (hexists : date.Exists) (hyear : isYearInRange date.year = true)
    (hagain : isYearInRange (Date.ofDayNumber date.dayNumber).year = true)
    (hhour : hour ≤ 23) (hminute : minute ≤ 59) (hsecond : second ≤ 60)
    (hnano : nano < nanosPerSecond) :
    read (writeYear date.year ++ '-' :: (Decimal.padded 2 date.month ++
      '-' :: (Decimal.padded 2 date.day ++ 'T' :: (Decimal.padded 2 hour ++
      ':' :: (Decimal.padded 2 minute ++ ':' :: (Decimal.padded 2 second ++
      (writeFraction nano ++ ['Z']))))))) =
    some
      { second := date.dayNumber * 86400 + (hour * 3600 + minute * 60 + (min second 59 : Nat))
        nano := if second = 60 then nano + nanosPerSecond else nano } := by
  have hdash (rest) : NoDigitFirst ('-' :: rest) := noDigitFirst_cons (by decide)
  have hcolon (rest) : NoDigitFirst (':' :: rest) := noDigitFirst_cons (by decide)
  have ht (rest) : NoDigitFirst ('T' :: rest) := noDigitFirst_cons (by decide)
  have hoffset : readOffset (Text.trimStart ['Z']) = some (0, []) := rfl
  have hempty : (Text.trimStart []).isEmpty = true := rfl
  have hofDay : (date.dayNumber * 86400 +
      ((hour : Int) * 3600 + minute * 60 + (min second 59 : Nat))) / 86400 = date.dayNumber := by
    omega
  rw [← hofDay] at hagain
  unfold read
  -- one reader after the other: a rewrite of all of them at once would go through the rest of the
  -- chain again for each
  refine (bind_of_eq_some (readYear_write _ (hdash _))).trans ?_
  refine (bind_of_eq_some (readMark_self '-' (by decide) _)).trans ?_
  refine (bind_of_eq_some (readPart_padded 1 hmonth (by decide) (hdash _))).trans ?_
  refine (bind_of_eq_some (readMark_self '-' (by decide) _)).trans ?_
  refine (bind_of_eq_some (readPart_padded 1 hday (by decide) (ht _))).trans ?_
  refine (bind_of_eq_some (readPart_padded 0 ⟨Nat.zero_le _, hhour⟩ (by decide) (hcolon _))).trans ?_
  refine (bind_of_eq_some (readMark_self ':' (by decide) _)).trans ?_
  refine (bind_of_eq_some (readPart_padded 0 ⟨Nat.zero_le _, hminute⟩ (by decide) (hcolon _))).trans ?_
  refine (bind_of_eq_some (readMark_self ':' (by decide) _)).trans ?_
  refine (bind_of_eq_some (readPart_padded 0 ⟨Nat.zero_le _, hsecond⟩ (by decide)
    (noDigitFirst_writeFraction nano))).trans ?_
  refine (bind_of_eq_some (readFraction_write hnano)).trans ?_
  refine (bind_of_eq_some hoffset).trans ?_
  simp only [hempty, hexists, hyear, decide_true, Bool.and_true, Bool.true_and, Int.sub_zero]
  exact if_pos hagain

/-- A timestamp denotes the point in time that it was written for. -/
theorem read_write {instant : Instant} (h : instant.Valid) : read instant.write = some instant := by
  obtain ⟨second, nano⟩ := instant
  obtain ⟨hnano, hleap, hyear⟩ := h
  simp only at hnano hleap hyear
  have hbillion : nanosPerSecond = 1000000000 := rfl
  obtain ⟨n, hn⟩ : ∃ n, n = second / 86400 := ⟨_, rfl⟩
  obtain ⟨ofDay, hofDay⟩ : ∃ s, s = (second % 86400).toNat := ⟨_, rfl⟩
  rw [← hn] at hyear
  have hnumber := Date.dayNumber_ofDayNumber n
  have hday := read_parts (Date.ofDayNumber n) (ofDay / 3600) (ofDay / 60 % 60)
    (ofDay % 60 + if nanosPerSecond ≤ nano then 1 else 0)
    (if nanosPerSecond ≤ nano then nano - nanosPerSecond else nano)
    (Date.month_ofDayNumber n) (Date.day_ofDayNumber n) (Date.exists_ofDayNumber n) hyear
    (by rw [hnumber]; exact hyear) (by omega) (by omega)
    (by split <;> omega) (by split <;> omega)
  simp only [write, List.append_assoc, List.cons_append, ← hofDay, ← hn, hday, hnumber]
  simp only [Option.some.injEq, Instant.mk.injEq]
  by_cases hle : nanosPerSecond ≤ nano
  · have hlast := hleap hle
    have hsixty : ofDay % 60 + 1 = 60 := by omega
    rw [if_pos hle, if_pos hle, if_pos hsixty]
    omega
  · have hno : ¬ ofDay % 60 + 0 = 60 := by omega
    rw [if_neg hle, if_neg hle, if_neg hno]
    omega

/-! ### What timestamps denote -/

theorem takeDigits_isDigit {limit : Nat} {text : List Char} :
    ∀ c ∈ (takeDigits limit text).1, c.isDigit = true := by
  fun_induction takeDigits limit text <;> simp_all

theorem takeDigits_length_le {limit : Nat} {text : List Char} :
    (takeDigits limit text).1.length ≤ limit := by
  fun_induction takeDigits limit text <;> simp_all

theorem readFraction_lt {text : List Char} {nano : Nat} {rest : List Char}
    (h : readFraction text = some (nano, rest)) : nano < nanosPerSecond := by
  unfold readFraction at h
  split at h
  · rename_i fraction
    split at h
    · cases h
    · rename_i digits rest' hne htake
      cases h
      have hdigits : ∀ c ∈ digits, c.isDigit = true := by
        simpa [htake] using @takeDigits_isDigit 9 fraction
      have hlen : digits.length ≤ 9 := by
        simpa [htake] using @takeDigits_length_le 9 fraction
      have hlt : Decimal.value (digits ++ List.replicate (9 - digits.length) '0') <
          10 ^ (digits ++ List.replicate (9 - digits.length) '0').length := by
        refine Decimal.value_lt fun c hc => ?_
        rcases List.mem_append.1 hc with hc | hc
        · exact hdigits c hc
        · rw [List.eq_of_mem_replicate hc]
          decide
      have hnine : (digits ++ List.replicate (9 - digits.length) '0').length = 9 := by
        rw [List.length_append, List.length_replicate]
        omega
      rw [hnine] at hlt
      exact hlt
  · cases h
    decide

theorem readOffsetSize_mod {text : List Char} {offset : Int} {rest : List Char}
    (h : readOffsetSize text = some (offset, rest)) : offset % 60 = 0 := by
  simp only [readOffsetSize, Option.bind_eq_bind, Option.bind_eq_some_iff] at h
  obtain ⟨hours, -, minutes, -, h⟩ := h
  split at h
  · cases h
    omega
  · cases h

theorem readOffset_mod {text : List Char} {offset : Int} {rest : List Char}
    (h : readOffset text = some (offset, rest)) : offset % 60 = 0 := by
  unfold readOffset at h
  split at h
  · cases h
    rfl
  · split at h
    · cases h
      rfl
    · cases h
      rfl
    · exact readOffsetSize_mod h
    all_goals
      first
      | cases h
      | obtain ⟨⟨n, rest'⟩, hn, hneg⟩ := Option.map_eq_some_iff.1 h
        cases hneg
        have := readOffsetSize_mod hn
        omega

theorem valid_of_parts {day offset : Int} {hour minute second nano : Nat}
    (hnano : nano < nanosPerSecond) (hoffset : offset % 60 = 0)
    (hyear : isYearInRange (Date.ofDayNumber
      ((day * 86400 + (hour * 3600 + minute * 60 + (min second 59 : Nat)) - offset) / 86400)).year =
        true) :
    Valid
      { second := day * 86400 + (hour * 3600 + minute * 60 + (min second 59 : Nat)) - offset
        nano := if second = 60 then nano + nanosPerSecond else nano } := by
  constructor
  · simp only
    split <;> omega
  · simp only
    split
    · intro _
      omega
    · intro h
      omega
  · exact hyear

/-- A timestamp denotes a point in time that has a timestamp. -/
theorem valid_of_read {text : List Char} {instant : Instant} (h : read text = some instant) :
    instant.Valid := by
  unfold read at h
  obtain ⟨⟨year, _⟩, -, h⟩ := Option.bind_eq_some_iff.1 h
  obtain ⟨_, -, h⟩ := Option.bind_eq_some_iff.1 h
  obtain ⟨⟨month, _⟩, -, h⟩ := Option.bind_eq_some_iff.1 h
  obtain ⟨_, -, h⟩ := Option.bind_eq_some_iff.1 h
  obtain ⟨⟨day, rest⟩, -, h⟩ := Option.bind_eq_some_iff.1 h
  dsimp only at h
  split at h
  case h_4 => cases h
  all_goals
    obtain ⟨_, -, h⟩ := Option.bind_eq_some_iff.1 h
    obtain ⟨⟨hour, _⟩, -, h⟩ := Option.bind_eq_some_iff.1 h
    obtain ⟨_, -, h⟩ := Option.bind_eq_some_iff.1 h
    obtain ⟨⟨minute, _⟩, -, h⟩ := Option.bind_eq_some_iff.1 h
    obtain ⟨_, -, h⟩ := Option.bind_eq_some_iff.1 h
    obtain ⟨⟨second, _⟩, -, h⟩ := Option.bind_eq_some_iff.1 h
    obtain ⟨⟨nano, _⟩, hnano, h⟩ := Option.bind_eq_some_iff.1 h
    obtain ⟨⟨offset, _⟩, hoffset, h⟩ := Option.bind_eq_some_iff.1 h
    dsimp only at h
    split at h
    · rename_i hc
      have hyear := (Bool.and_eq_true_iff.1 hc).2
      cases h
      exact valid_of_parts (readFraction_lt hnano) (readOffset_mod hoffset) hyear
    · cases h

end JobOperator.Instant
