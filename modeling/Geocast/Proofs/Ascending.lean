import Geocast.Ascending
import Mathlib.Data.String.Basic
import Mathlib.Tactic

/-! # The order of ascending lists

`ascending` puts the different texts of a list into strictly ascending order and loses none
(`pairwise_ascending`, `mem_ascending`), so its result depends on the members of the list alone
(`ascending_congr`). Texts are compared by their code points; `bytes_lt_bytes` shows that comparing
the bytes of their UTF-8 encodings comes to the same. -/

namespace Geocast

theorem mem_insertAscending {s t : String} {l : List String} :
    s ∈ insertAscending t l ↔ s = t ∨ s ∈ l := by
  induction l with
  | nil => simp [insertAscending]
  | cons u l ih =>
    simp only [insertAscending]
    split
    · simp
    · split
      · next h => subst h; simp
      · simp only [List.mem_cons, ih, or_left_comm]

theorem pairwise_insertAscending {t : String} {l : List String} (h : l.Pairwise (· < ·)) :
    (insertAscending t l).Pairwise (· < ·) := by
  induction l with
  | nil => simp [insertAscending]
  | cons u l ih =>
    have ⟨hu, hl⟩ := List.pairwise_cons.1 h
    simp only [insertAscending]
    split
    · next htu =>
      refine List.pairwise_cons.2 ⟨fun s hs => ?_, h⟩
      rcases List.mem_cons.1 hs with rfl | hs
      · exact htu
      · exact htu.trans (hu s hs)
    · next htu =>
      split
      · exact h
      · next hne =>
        refine List.pairwise_cons.2 ⟨fun s hs => ?_, ih hl⟩
        rcases mem_insertAscending.1 hs with rfl | hs
        · exact lt_of_le_of_ne (not_lt.1 htu) (Ne.symm hne)
        · exact hu s hs

theorem mem_ascending {s : String} {l : List String} : s ∈ ascending l ↔ s ∈ l := by
  induction l with
  | nil => rfl
  | cons t l ih =>
    rw [ascending, List.foldr_cons, mem_insertAscending, List.mem_cons]
    exact or_congr_right ih

theorem pairwise_ascending (l : List String) : (ascending l).Pairwise (· < ·) := by
  induction l with
  | nil => exact .nil
  | cons t l ih => exact pairwise_insertAscending ih

/-- Ascending lists with the same members are equal. -/
theorem ascending_congr {l l' : List String} (h : ∀ s, s ∈ l ↔ s ∈ l') :
    ascending l = ascending l' := by
  have hnodup (l : List String) : (ascending l).Nodup := (pairwise_ascending l).imp ne_of_lt
  refine List.Perm.eq_of_pairwise' (pairwise_ascending l) (pairwise_ascending l') ?_
  rw [List.perm_ext_iff_of_nodup (hnodup l) (hnodup l')]
  exact fun s => by rw [mem_ascending, mem_ascending, h]

/-! ## The order of bytes -/

/-- The bytes of a text in UTF-8. -/
def bytes (s : String) : List UInt8 := s.toUTF8.data.toList

theorem bytes_eq_flatMap (s : String) : bytes s = s.toList.flatMap String.utf8EncodeChar := by
  rw [bytes, String.toUTF8, ← String.utf8Encode_toList, List.utf8Encode]
  simp

/-- The bytes of a lesser code point decide against those of a greater one, whatever follows. -/
theorem utf8EncodeChar_append_lt {c d : Char} (h : c < d) (r r' : List UInt8) :
    String.utf8EncodeChar c ++ r < String.utf8EncodeChar d ++ r' := by
  have hlt : c.val.toNat < d.val.toNat := UInt32.lt_iff_toNat_lt.1 h
  have hd : d.val.toNat < 0x110000 := by
    have := d.valid
    simp only [UInt32.isValidChar, Nat.isValidChar] at this
    omega
  simp only [String.utf8EncodeChar]
  generalize c.val.toNat = v at *
  generalize d.val.toNat = w at *
  have hnext (x : Nat) : (x % 64 + 128) % 256 = x % 64 + 128 := by omega
  by_cases hv : v ≤ 0xffff
  · repeat' split
    all_goals
      simp only [List.cons_append, List.nil_append, List.cons_lt_cons_iff, UInt8.lt_iff_toNat_lt,
        ← UInt8.toNat_inj, UInt8.toNat_ofNat', hnext]
      omega
  · -- both take four bytes, and `omega` needs the digits to base 64 in place of the quotients
    have hfirst {x : Nat} (hx : x < 0x110000) :
        (x / 262144 % 8 + 240) % 256 = x / 262144 + 240 := by omega
    have hdigits (x : Nat) :
        x = ((x / 262144 * 64 + x / 4096 % 64) * 64 + x / 64 % 64) * 64 + x % 64 := by omega
    have hv₀ := hdigits v
    have hw₀ := hdigits w
    rw [if_neg, if_neg, if_neg, if_neg, if_neg, if_neg]
    · simp only [List.cons_append, List.nil_append, List.cons_lt_cons_iff, UInt8.lt_iff_toNat_lt,
        ← UInt8.toNat_inj, UInt8.toNat_ofNat', hnext, hfirst hd, hfirst (hlt.trans hd)]
      have hv₂ := Nat.mod_lt (v / 4096) (show 0 < 64 by decide)
      have hw₂ := Nat.mod_lt (w / 4096) (show 0 < 64 by decide)
      generalize v / 262144 = v₃, v / 4096 % 64 = v₂, v / 64 % 64 = v₁ at *
      generalize w / 262144 = w₃, w / 4096 % 64 = w₂ at *
      omega
    all_goals omega

theorem flatMap_utf8EncodeChar_lt {l l' : List Char} (h : l < l') :
    l.flatMap String.utf8EncodeChar < l'.flatMap String.utf8EncodeChar := by
  induction h with
  | nil =>
    rw [List.flatMap_cons]
    obtain ⟨b, r, hb⟩ := List.exists_cons_of_ne_nil (String.utf8EncodeChar_ne_nil (c := ‹_›))
    rw [hb]
    exact .nil
  | rel h => exact utf8EncodeChar_append_lt h ..
  | cons _ ih => exact List.append_left_lt ih

theorem bytes_lt_bytes {s t : String} (h : s < t) : bytes s < bytes t := by
  rw [bytes_eq_flatMap, bytes_eq_flatMap]
  exact flatMap_utf8EncodeChar_lt h

end Geocast
