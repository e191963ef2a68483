import Geocast.Decimal.Numeral
import Mathlib.Tactic

/-! # Numerals read back

`Numeral.read` finds a numeral again in front of any text that does not carry it on
(`Numeral.read_chars`). This holds of the written form alone, whether or not the numeral stands for
a double. -/

namespace Geocast

namespace Digit

theorem ofChar?_toChar (d : Digit) : ofChar? d.toChar = some d := by
  revert d
  decide

theorem toChar_ne_minus (d : Digit) : d.toChar ≠ '-' := by
  revert d
  decide

/-- A text that does not begin with a digit. -/
def Ends (rest : List Char) : Prop := ∀ c ∈ rest.head?, ofChar? c = none

theorem span_append (ds : List Digit) {rest : List Char} (h : Ends rest) :
    span (ds.map toChar ++ rest) = (ds, rest) := by
  induction ds with
  | nil =>
    cases rest with
    | nil => rfl
    | cons c cs => simp only [List.map_nil, List.nil_append, span, h c rfl]
  | cons d ds ih => simp only [List.map_cons, List.cons_append, span, ofChar?_toChar, ih]

/-! ## The digits of a number -/

theorem ofNat_of_lt {n : Nat} (h : n < 10) : ofNat n = [⟨n, h⟩] := by
  unfold ofNat decimalDigits
  rw [Nat.toDigits_of_lt_base h]
  exact congrArg (·.toList) (ofChar?_toChar ⟨n, h⟩)

theorem ofNat_of_le {n : Nat} (h : 10 ≤ n) :
    ofNat n = ofNat (n / 10) ++ [⟨n % 10, Nat.mod_lt n (by decide)⟩] := by
  unfold ofNat decimalDigits
  rw [Nat.toDigits_of_base_le (by decide) h, List.filterMap_append]
  exact congrArg (_ ++ Option.toList ·) (ofChar?_toChar ⟨n % 10, Nat.mod_lt n (by decide)⟩)

theorem map_toChar_ofNat (n : Nat) : (ofNat n).map toChar = decimalDigits n := by
  induction n using Nat.strongRecOn with
  | ind n ih =>
    unfold decimalDigits at *
    rcases Nat.lt_or_ge n 10 with h | h
    · rw [ofNat_of_lt h, Nat.toDigits_of_lt_base h]
      rfl
    · rw [ofNat_of_le h, List.map_append, ih (n / 10) (by omega),
        Nat.toDigits_of_base_le (by decide) h]
      rfl

theorem value_ofNat (n : Nat) : value (ofNat n) = n := by
  induction n using Nat.strongRecOn with
  | ind n ih =>
    rcases Nat.lt_or_ge n 10 with h | h
    · rw [ofNat_of_lt h]
      exact Nat.zero_add n
    · rw [ofNat_of_le h]
      unfold value at *
      rw [List.foldl_append, ih (n / 10) (by omega)]
      exact Nat.div_add_mod n 10

/-- No number is written with a leading zero. -/
theorem ofNat_head {n : Nat} (hn : n ≠ 0) : ∃ d ds, ofNat n = d :: ds ∧ d ≠ 0 := by
  induction n using Nat.strongRecOn with
  | ind n ih =>
    rcases Nat.lt_or_ge n 10 with h | h
    · exact ⟨_, _, ofNat_of_lt h, fun h0 => hn (congrArg Fin.val h0)⟩
    · obtain ⟨d, ds, hds, hd⟩ := ih (n / 10) (by omega) (by omega)
      exact ⟨d, ds ++ [_], by rw [ofNat_of_le h, hds]; rfl, hd⟩

/-- The first digit of a number. -/
theorem ofNat_eq_cons (n : Nat) : ∃ d ds, ofNat n = d :: ds := by
  rcases Nat.lt_or_ge n 10 with h | h
  · exact ⟨_, _, ofNat_of_lt h⟩
  · obtain ⟨d, ds, hds, -⟩ := ofNat_head (n := n) (by omega)
    exact ⟨d, ds, hds⟩

theorem decimalDigits_eq_cons (n : Nat) : ∃ d cs, decimalDigits n = toChar d :: cs := by
  obtain ⟨d, ds, hds⟩ := ofNat_eq_cons n
  exact ⟨d, ds.map toChar, by rw [← map_toChar_ofNat, hds]; rfl⟩

end Digit

namespace Numeral

/-- A text that cannot carry on a numeral in front of it. -/
def Ends (rest : List Char) : Prop :=
  ∀ c ∈ rest.head?, Digit.ofChar? c = none ∧ c ≠ '.' ∧ c ≠ 'e' ∧ c ≠ 'E'

theorem Ends.digits {rest : List Char} (h : Ends rest) : Digit.Ends rest := fun c hc => (h c hc).1

theorem readWhole_append (n : Nat) {rest : List Char} (h : Digit.Ends rest) :
    readWhole (decimalDigits n ++ rest) = some (n, rest) := by
  unfold readWhole
  rw [← Digit.map_toChar_ofNat, Digit.span_append _ h]
  have hvalue := Digit.value_ofNat n
  rcases hn : Digit.ofNat n with - | ⟨d, - | ⟨d', ds⟩⟩
  · obtain ⟨d, ds, hds⟩ := Digit.ofNat_eq_cons n
    simp [hn] at hds
  · rw [hn] at hvalue
    exact congrArg (fun m => some (m, rest)) ((Nat.zero_add _).symm.trans hvalue)
  · have hd : d ≠ 0 := by
      rcases Nat.eq_zero_or_pos n with rfl | hpos
      · simp [Digit.ofNat_of_lt] at hn
      · obtain ⟨_, _, hds, hd⟩ := Digit.ofNat_head hpos.ne'
        rw [hn] at hds
        cases hds
        exact hd
    rw [hn] at hvalue
    simp only [if_neg hd, hvalue]

/-- The point of a numeral with the digits after it. -/
def fractionChars (ds : List Digit) : List Char :=
  if ds.isEmpty then [] else '.' :: ds.map Digit.toChar

/-- The exponent of a numeral with its mark. -/
def exponentChars : Option Int → List Char
  | none => []
  | some (.ofNat e) => 'e' :: '+' :: decimalDigits e
  | some (.negSucc e) => 'e' :: '-' :: decimalDigits (e + 1)

theorem chars_append (n : Numeral) (rest : List Char) :
    n.chars ++ rest = (if n.negative then ['-'] else []) ++ (decimalDigits n.whole
      ++ (fractionChars n.fraction ++ (exponentChars n.exponent ++ rest))) := by
  simp only [← List.append_assoc]
  rfl

theorem readExponent_append (e : Option Int) {rest : List Char} (h : Ends rest) :
    readExponent (exponentChars e ++ rest) = some (e, rest) := by
  have hdigits (n : Nat) : Digit.span (decimalDigits n ++ rest) = (Digit.ofNat n, rest) := by
    rw [← Digit.map_toChar_ofNat, Digit.span_append _ h.digits]
  rcases e with - | (e | e)
  · rcases rest with - | ⟨c, cs⟩
    · rfl
    · obtain ⟨-, -, he, hE⟩ := h c rfl
      simp [exponentChars, readExponent, he, hE]
  · obtain ⟨d, ds, hds⟩ := Digit.ofNat_eq_cons e
    have hvalue := Digit.value_ofNat e
    rw [hds] at hvalue
    simp [exponentChars, readExponent, hdigits, hds, hvalue]
  · obtain ⟨d, ds, hds⟩ := Digit.ofNat_eq_cons (e + 1)
    have hvalue := Digit.value_ofNat (e + 1)
    rw [hds] at hvalue
    simp [exponentChars, readExponent, hdigits, hds, hvalue]
    omega

theorem exponentChars_ends (e : Option Int) {rest : List Char} (h : Ends rest) :
    ∀ c ∈ (exponentChars e ++ rest).head?, Digit.ofChar? c = none ∧ c ≠ '.' := by
  intro c hc
  rcases e with - | (e | e)
  · exact ⟨(h c hc).1, (h c hc).2.1⟩
  all_goals
    cases hc
    decide

theorem readFraction_append (ds : List Digit) {rest : List Char}
    (h : ∀ c ∈ rest.head?, Digit.ofChar? c = none ∧ c ≠ '.') :
    readFraction (fractionChars ds ++ rest) = some (ds, rest) := by
  rcases ds with - | ⟨d, ds⟩
  · rcases rest with - | ⟨c, cs⟩
    · rfl
    · have hc := (h c rfl).2
      simp [fractionChars, readFraction, hc]
  · have hspan := Digit.span_append (d :: ds) fun c hc => (h c hc).1
    simp only [List.map_cons, List.cons_append] at hspan
    simp [fractionChars, readFraction, hspan]

theorem fractionChars_ends (ds : List Digit) {rest : List Char}
    (h : ∀ c ∈ rest.head?, Digit.ofChar? c = none ∧ c ≠ '.') :
    Digit.Ends (fractionChars ds ++ rest) := by
  intro c hc
  rcases ds with - | ⟨d, ds⟩
  · exact (h c hc).1
  · cases hc
    decide

/-- A numeral is read back in front of any text that does not carry it on. -/
theorem read_chars (n : Numeral) {rest : List Char} (h : Ends rest) :
    read (n.chars ++ rest) = some (n, rest) := by
  obtain ⟨negative, whole, fraction, exponent⟩ := n
  have hafter := exponentChars_ends exponent h
  have hwhole := readWhole_append whole (fractionChars_ends fraction hafter)
  have hfraction := readFraction_append fraction hafter
  have hexponent := readExponent_append exponent h
  rw [chars_append]
  unfold read
  cases negative with
  | true =>
    simp only [if_true, List.cons_append, List.nil_append, hwhole, hfraction, hexponent,
      Option.bind_eq_bind, Option.bind_some]
    rfl
  | false =>
    -- Without a sign the first character is a digit, so that no sign is read either.
    have hfirst : ∀ cs, decimalDigits whole ++ (fractionChars fraction
        ++ (exponentChars exponent ++ rest)) ≠ '-' :: cs := by
      obtain ⟨d, ds, hds⟩ := Digit.decimalDigits_eq_cons whole
      rw [hds]
      exact fun cs hcs => Digit.toChar_ne_minus d (List.cons_eq_cons.1 hcs).1
    simp only [Bool.false_eq_true, if_false, List.nil_append, hwhole, hfraction, hexponent,
      Option.bind_eq_bind, Option.bind_some]
    rfl

/-- The characters that a numeral may begin with. -/
def firstChars : List Char := ['-', '0', '1', '2', '3', '4', '5', '6', '7', '8', '9']

theorem chars_head (n : Numeral) : ∃ c ∈ firstChars, ∃ cs, n.chars = c :: cs := by
  obtain ⟨negative, whole, fraction, exponent⟩ := n
  cases negative with
  | true => exact ⟨'-', by decide, _, rfl⟩
  | false =>
    obtain ⟨d, cs, hd⟩ := Digit.decimalDigits_eq_cons whole
    refine ⟨d.toChar, ?_, _, by rw [← List.append_nil (chars _), chars_append, hd]; rfl⟩
    clear hd
    revert d
    decide

end Numeral

end Geocast
