import Geocast.Json.Reader
import Geocast.Json.Writer
import Geocast.Proofs.Decimal.Reading

/-! # Written values read back

`Json.parse` inverts `Json.render` on sound values (`Json.parse_render`). The readers are followed
along the values: each finds what its writer wrote and leaves the text behind it. A number is the
only value that the text behind it could carry on. -/

namespace Geocast

namespace Json

/-! ## Strings -/

theorem hex4?_control : ∀ n < 0x20,
    hex4? '0' '0' (Nat.digitChar (n / 16)) (Nat.digitChar (n % 16)) = some n := by
  decide

/-- The units of a character that is not escaped. -/
theorem readUnits_plain {c : Char} (cs : List Char) (hquote : c ≠ '"') (hslash : c ≠ '\\')
    (hcontrol : ¬ c.toNat < 0x20) :
    readUnits (c :: cs) = do
      let (us, rest) ← readUnits cs
      return (c.toNat :: us, rest) := by
  rw [readUnits.eq_def]
  split
  · simp_all
  · simp_all
  · simp_all
  · simp_all
  · next h =>
    cases h
    simp [hslash, hcontrol]

theorem readUnits_escape (c : Char) (cs : List Char) :
    readUnits (escape c ++ cs) = do
      let (us, rest) ← readUnits cs
      return (c.toNat :: us, rest) := by
  unfold escape
  iterate 7
    split
    · next h =>
      subst h
      rfl
  split
  · next h =>
    simp only [List.cons_append, List.nil_append, readUnits, hex4?_control c.toNat h]
    rfl
  · next hcontrol => exact readUnits_plain cs ‹_› ‹_› hcontrol

theorem readUnits_escaped (s rest : List Char) :
    readUnits (s.flatMap escape ++ '"' :: rest) = some (s.map Char.toNat, rest) := by
  induction s with
  | nil => simp [readUnits]
  | cons c s ih => rw [List.flatMap_cons, List.append_assoc, readUnits_escape, ih]; rfl

theorem isSurrogate_toNat (c : Char) :
    isHighSurrogate c.toNat = false ∧ isLowSurrogate c.toNat = false := by
  have hvalid : c.toNat < 0xD800 ∨ 0xDFFF < c.toNat ∧ c.toNat < 0x110000 := c.valid
  simp only [isHighSurrogate, isLowSurrogate, Bool.and_eq_false_iff, decide_eq_false_iff_not]
  omega

theorem assemble_toNat (s : List Char) : assemble (s.map Char.toNat) = some s := by
  induction s with
  | nil => rfl
  | cons c s ih =>
    obtain ⟨hhigh, hlow⟩ := isSurrogate_toNat c
    cases s with
    | nil => simp [assemble, hhigh, hlow]
    | cons d s =>
      simp only [List.map_cons] at ih ⊢
      simp [assemble, hhigh, hlow, ih]

theorem readString_quoted (s : String) (rest : List Char) :
    readString (s.toList.flatMap escape ++ '"' :: rest) = some (some s, rest) := by
  unfold readString
  rw [readUnits_escaped]
  simp [assemble_toNat]

theorem stringChars_append (s : String) (cs : List Char) :
    stringChars (some s) ++ cs = '"' :: (s.toList.flatMap escape ++ '"' :: cs) := by
  simp [stringChars, quoted]

/-! ## The heads of written values -/

theorem skipBlanks_cons {c : Char} (cs : List Char) (h : isBlank c = false) :
    skipBlanks (c :: cs) = c :: cs := by
  simp [skipBlanks, h]

/-- No written value begins with a blank or with a closing bracket. -/
theorem chars_head (v : Json) :
    ∃ c cs, v.chars = c :: cs ∧ isBlank c = false ∧ c ≠ ']' := by
  cases v with
  | bool b => cases b <;> exact ⟨_, _, rfl, by decide, by decide⟩
  | number n =>
    obtain ⟨c, hc, cs, h⟩ := n.chars_head
    have hfirst := List.all_eq_true.1
      (by decide : Numeral.firstChars.all fun c => !isBlank c && c != ']') c hc
    exact ⟨c, cs, h, by simpa using hfirst⟩
  | _ => exact ⟨_, _, rfl, by decide, by decide⟩

theorem readValue_number (n : Numeral) (fuel : Nat) {rest : List Char} (h : Numeral.Ends rest) :
    readValue (fuel + 1) (n.chars ++ rest) = some (.number n, rest) := by
  have hread := Numeral.read_chars n h
  obtain ⟨c, hc, cs, hchars⟩ := n.chars_head
  obtain ⟨hblank, hother⟩ : isBlank c = false ∧ c ∉ ['n', 't', 'f', '"', '[', '\x7b'] := by
    have hfirst := List.all_eq_true.1 (by decide : Numeral.firstChars.all fun c =>
      !isBlank c && decide (c ∉ ['n', 't', 'f', '"', '[', '\x7b'])) c hc
    simpa using hfirst
  rw [hchars, List.cons_append] at hread ⊢
  unfold readValue
  rw [skipBlanks_cons _ hblank]
  split
  iterate 6
    simp_all
  · rw [hread]
    rfl

theorem chars_length_pos (v : Json) : 0 < v.chars.length := by
  obtain ⟨c, cs, h, -⟩ := v.chars_head
  rw [h]
  exact Nat.succ_pos _

theorem moreItemChars_cons (v : Json) (vs : List Json) :
    moreItemChars (v :: vs) = ',' :: itemChars (v :: vs) := by
  simp only [moreItemChars, itemChars]

theorem moreItemChars_length_pos (vs : List Json) : 0 < (moreItemChars vs).length := by
  cases vs <;> exact Nat.succ_pos _

theorem moreMemberChars_cons (m : Option String × Json) (ms : List (Option String × Json)) :
    moreMemberChars (m :: ms) = ',' :: memberChars (m :: ms) := by
  simp only [moreMemberChars, memberChars]

theorem moreMemberChars_length_pos (ms : List (Option String × Json)) :
    0 < (moreMemberChars ms).length := by
  cases ms <;> exact Nat.succ_pos _

theorem moreItemChars_ends (vs : List Json) (rest : List Char) :
    Numeral.Ends (moreItemChars vs ++ rest) := by
  cases vs <;> exact fun c hc => by cases hc; decide

theorem moreMemberChars_ends (ms : List (Option String × Json)) (rest : List Char) :
    Numeral.Ends (moreMemberChars ms ++ rest) := by
  cases ms <;> exact fun c hc => by cases hc; decide

/-! ## Values -/

mutual

theorem readValue_chars (v : Json) (fuel : Nat) {d : Nat} {rest : List Char} (hv : v.isSound d)
    (hfuel : 2 * v.chars.length ≤ fuel) (hrest : Numeral.Ends rest) :
    readValue fuel (v.chars ++ rest) = some (v, rest) := by
  obtain ⟨fuel, rfl⟩ : ∃ n, fuel = n + 1 := Nat.exists_eq_succ_of_ne_zero (by
    have := v.chars_length_pos
    omega)
  match v with
  | .null => rfl
  | .bool true => rfl
  | .bool false => rfl
  | .number n => exact readValue_number n fuel hrest
  | .string none => cases hv
  | .string (some s) =>
    show readValue (fuel + 1) (stringChars (some s) ++ rest) = _
    rw [stringChars_append]
    unfold readValue
    rw [skipBlanks_cons _ (by decide)]
    simp only [readString_quoted]
    rfl
  | .array [] => rfl
  | .array (v :: vs) =>
    simp only [isSound, Bool.and_eq_true] at hv
    simp only [chars, List.length_cons] at hfuel
    have hitems := readItems_chars v vs fuel rest hv.2 (by omega)
    obtain ⟨c, cs, hc, hblank, hbracket⟩ := v.chars_head
    show readValue (fuel + 1) ('[' :: (itemChars (v :: vs) ++ rest)) = _
    rw [itemChars, hc, List.cons_append, List.cons_append] at hitems ⊢
    unfold readValue
    rw [skipBlanks_cons _ (by decide)]
    simp only [skipBlanks_cons _ hblank]
    split
    · next h => exact absurd (List.cons_eq_cons.1 h).1 hbracket
    · rw [hitems]
      rfl
  | .object [] => rfl
  | .object ((name, v) :: ms) =>
    simp only [isSound, Bool.and_eq_true] at hv
    simp only [chars, List.length_cons] at hfuel
    have hmembers := readMembers_chars name v ms fuel rest hv.2 (by omega)
    show readValue (fuel + 1) ('\x7b' :: (memberChars ((name, v) :: ms) ++ rest)) = _
    unfold readValue
    rw [skipBlanks_cons _ (by decide)]
    obtain ⟨cs, hcs⟩ : ∃ cs, memberChars ((name, v) :: ms) = '"' :: cs := ⟨_, rfl⟩
    rw [hcs, List.cons_append] at hmembers ⊢
    simp only [skipBlanks_cons (c := '"') _ rfl]
    split
    · next h => exact absurd (List.cons_eq_cons.1 h).1 (by decide)
    · rw [hmembers]
      rfl
termination_by fuel

theorem readItems_chars (v : Json) (vs : List Json) (fuel : Nat) (rest : List Char) {d : Nat}
    (hv : soundItems d (v :: vs)) (hfuel : 2 * (itemChars (v :: vs)).length ≤ fuel) :
    readItems fuel (itemChars (v :: vs) ++ rest) = some (v :: vs, rest) := by
  simp only [soundItems, Bool.and_eq_true] at hv
  simp only [itemChars, List.length_append] at hfuel
  obtain ⟨fuel, rfl⟩ : ∃ n, fuel = n + 1 := Nat.exists_eq_succ_of_ne_zero (by
    have := v.chars_length_pos
    omega)
  have hmore := moreItemChars_length_pos vs
  have hvalue := readValue_chars v fuel hv.1 (by omega) (moreItemChars_ends vs rest)
  rw [itemChars, List.append_assoc]
  unfold readItems
  rw [hvalue]
  match vs with
  | [] => rfl
  | w :: ws =>
    rw [moreItemChars_cons] at hfuel ⊢
    have hmore := readItems_chars w ws fuel rest hv.2 (by
      simp only [List.length_cons] at hfuel
      omega)
    simp only [Option.bind_eq_bind, Option.bind_some, List.cons_append,
      skipBlanks_cons (c := ',') _ rfl, hmore]
    rfl
termination_by fuel

theorem readMembers_chars (name : Option String) (v : Json) (ms : List (Option String × Json))
    (fuel : Nat) (rest : List Char) {d : Nat} (hv : soundMembers d ((name, v) :: ms))
    (hfuel : 2 * (memberChars ((name, v) :: ms)).length ≤ fuel) :
    readMembers fuel (memberChars ((name, v) :: ms) ++ rest) = some ((name, v) :: ms, rest) := by
  simp only [soundMembers, Bool.and_eq_true] at hv
  simp only [memberChars, List.length_append, List.length_cons] at hfuel
  obtain ⟨name, rfl⟩ := Option.isSome_iff_exists.1 hv.1.1
  obtain ⟨fuel, rfl⟩ : ∃ n, fuel = n + 1 := Nat.exists_eq_succ_of_ne_zero (by
    omega)
  have hmore := moreMemberChars_length_pos ms
  have hvalue := readValue_chars v fuel hv.1.2 (by omega) (moreMemberChars_ends ms rest)
  rw [memberChars, List.append_assoc, stringChars_append]
  unfold readMembers
  simp only [skipBlanks_cons (c := '"') _ rfl, readString_quoted, Option.bind_eq_bind,
    Option.bind_some, List.cons_append, skipBlanks_cons (c := ':') _ rfl, List.append_assoc, hvalue]
  match ms with
  | [] => rfl
  | (name', w) :: ws =>
    rw [moreMemberChars_cons] at hfuel ⊢
    have hmore := readMembers_chars name' w ws fuel rest hv.2 (by
      simp only [List.length_cons] at hfuel
      omega)
    simp only [List.cons_append, skipBlanks_cons (c := ',') _ rfl, hmore]
    rfl
termination_by fuel

end

/-- A sound value is found again in its text. -/
theorem parse_render {v : Json} {d : Nat} (hv : v.isSound d) : parse v.render = some v := by
  have hends : Numeral.Ends [] := nofun
  have hread := readValue_chars v (2 * v.chars.length + 1) hv (by omega) hends
  rw [List.append_nil] at hread
  simp only [parse, render, String.toList_ofList, hread]
  rfl

/-- A number is found again in its text, whether or not it has a double. -/
theorem parse_render_number (n : Numeral) : parse (render (.number n)) = some (.number n) := by
  have hends : Numeral.Ends [] := nofun
  have hread := readValue_number n (2 * n.chars.length) hends
  rw [List.append_nil] at hread
  simp only [parse, render, chars, String.toList_ofList, hread]
  rfl

end Json

end Geocast
