import Mathlib.Data.Char
import Mathlib.Data.String.Basic

namespace CampusQuery

def utf8Bytes (s : String) : List UInt8 := s.toUTF8.data.toList

theorem utf8Bytes_eq (s : String) : utf8Bytes s = s.toList.flatMap String.utf8EncodeChar := by
  have h : s.toUTF8 = s.toList.utf8Encode := by
    rw [String.toUTF8_eq_toByteArray, ← String.toByteArray_ofList, String.ofList_toList]
  rw [utf8Bytes, h, List.utf8Encode, List.toList_data_toByteArray]

theorem ofNat_cons_lt {a b : ℕ} (ha : a < 256) (hb : b < 256) {xs ys : List UInt8} :
    UInt8.ofNat a :: xs < UInt8.ofNat b :: ys ↔ a < b ∨ a = b ∧ xs < ys := by
  have heq : UInt8.ofNat a = UInt8.ofNat b ↔ a = b := by
    rw [← UInt8.toNat_inj, UInt8.toNat_ofNat_of_lt' ha, UInt8.toNat_ofNat_of_lt' hb]
  rw [List.cons_lt_cons_iff, UInt8.ofNat_lt_iff_lt ha hb, heq]

/-- Of two numbers in base sixty-four, the smaller has the smaller front or the same front and the
smaller last digit. -/
theorem front_lt_or_digit_lt {v w : ℕ} (h : v < w) :
    v / 64 < w / 64 ∨ v / 64 = w / 64 ∧ v % 64 < w % 64 := by
  omega

theorem utf8EncodeChar_ne_nil (c : Char) : String.utf8EncodeChar c ≠ [] := by
  unfold String.utf8EncodeChar
  dsimp only
  split_ifs <;> exact List.cons_ne_nil _ _

/-- Whatever comes behind them, two characters are told apart by their first different bytes. -/
theorem utf8EncodeChar_append_lt {c d : Char} (h : c < d) (xs ys : List UInt8) :
    String.utf8EncodeChar c ++ xs < String.utf8EncodeChar d ++ ys := by
  have hlt : c.val.toNat < d.val.toNat := h
  have hmax : d.val.toNat < 1114112 := by
    have hvalid := d.valid
    simp only [UInt32.isValidChar, Nat.isValidChar] at hvalid
    omega
  unfold String.utf8EncodeChar
  generalize c.val.toNat = v at hlt ⊢
  generalize d.val.toNat = w at hlt hmax ⊢
  dsimp only
  -- The number of bytes shows in the first of them.
  split_ifs <;>
    simp (disch := omega) only [List.cons_append, List.nil_append, ofNat_cons_lt] <;> try omega
  -- Left are two characters of four bytes.
  have htwo (n : ℕ) : n / 4096 = n / 64 / 64 := by omega
  have hthree (n : ℕ) : n / 262144 = n / 64 / 64 / 64 := by omega
  have hv : v / 64 / 64 / 64 < 8 := by omega
  have hw : w / 64 / 64 / 64 < 8 := by omega
  rw [htwo, htwo, hthree, hthree]
  rcases front_lt_or_digit_lt hlt with hfront | ⟨hfront, hdigit⟩
  · rcases front_lt_or_digit_lt hfront with hfront | ⟨hfront, hdigit⟩
    · rcases front_lt_or_digit_lt hfront with hfront | ⟨hfront, hdigit⟩ <;> omega
    · omega
  · omega

theorem utf8Bytes_lt {s t : String} (h : s < t) : utf8Bytes s < utf8Bytes t := by
  rw [String.lt_iff_toList_lt] at h
  rw [utf8Bytes_eq, utf8Bytes_eq]
  generalize s.toList = cs at h ⊢
  generalize t.toList = ds at h ⊢
  induction h with
  | @nil d ds =>
    obtain ⟨b, bs, hd⟩ := List.exists_cons_of_ne_nil (utf8EncodeChar_ne_nil d)
    rw [List.flatMap_nil, List.flatMap_cons, hd, List.cons_append]
    exact List.nil_lt_cons b _
  | rel h => exact utf8EncodeChar_append_lt h _ _
  | cons h ih => exact List.append_left_lt ih

end CampusQuery
