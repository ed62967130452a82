import Mathlib.Data.List.Lex
import Mathlib.Data.String.Basic

namespace ParticipantTrust

-- The bytes of a text in UTF-8.
def utf8Bytes (text : String) : List UInt8 := text.toUTF8.data.toList

theorem utf8Bytes_eq (text : String) :
    utf8Bytes text = text.toList.flatMap String.utf8EncodeChar := by
  obtain ⟨chars, rfl⟩ : ∃ chars, text = String.ofList chars := ⟨_, String.ofList_toList.symm⟩
  simp [utf8Bytes, String.toUTF8, List.utf8Encode]

-- A byte decides, or it is the same in both and the rest does.
theorem cons_lt_cons_of_le (a b : Nat) (xs ys : List UInt8) (hab : a ≤ b) (hb : b < 256)
    (hrest : a = b → xs < ys) : UInt8.ofNat a :: xs < UInt8.ofNat b :: ys := by
  rw [List.cons_lt_cons_iff]
  rcases hab.eq_or_lt with heq | hlt
  · exact .inr ⟨by rw [heq], hrest heq⟩
  · left
    rw [UInt8.lt_iff_toNat_lt, UInt8.toNat_ofNat', UInt8.toNat_ofNat']
    omega

-- First bytes tell the lengths of encodings apart, and within one length the digits in base 64 stand
-- highest first, up to four of them.
theorem utf8EncodeChar_append_lt {c d : Char} (h : c < d) (xs ys : List UInt8) :
    String.utf8EncodeChar c ++ xs < String.utf8EncodeChar d ++ ys := by
  have hlt : c.val.toNat < d.val.toNat := UInt32.lt_iff_toNat_lt.mp h
  have hmax : d.val.toNat < 0x110000 := by
    rcases d.valid with hd | hd <;> omega
  simp only [String.utf8EncodeChar]
  generalize c.val.toNat = v at hlt ⊢
  generalize d.val.toNat = w at hlt hmax ⊢
  split_ifs
  all_goals
    refine cons_lt_cons_of_le _ _ _ _ (by omega) (by omega) fun hfirst => ?_
    first
    | omega
    | refine cons_lt_cons_of_le _ _ _ _ (by omega) (by omega) fun hsecond => ?_
  all_goals first
    | omega
    | refine cons_lt_cons_of_le _ _ _ _ (by omega) (by omega) fun hthird => ?_
  all_goals first
    | omega
    | exact cons_lt_cons_of_le _ _ _ _ (by omega) (by omega) fun hfourth => by omega

theorem flatMap_utf8EncodeChar_lt (chars chars' : List Char) (h : chars < chars') :
    chars.flatMap String.utf8EncodeChar < chars'.flatMap String.utf8EncodeChar := by
  induction chars generalizing chars' with
  | nil =>
      cases chars' with
      | nil => exact absurd h (List.lt_irrefl [])
      | cons d chars' =>
          obtain ⟨byte, bytes, hd⟩ := List.exists_cons_of_ne_nil (String.utf8EncodeChar_ne_nil (c := d))
          rw [List.flatMap_nil, List.flatMap_cons, hd]
          exact List.nil_lt_cons _ _
  | cons c chars ih =>
      cases chars' with
      | nil => exact absurd h (List.not_lt_nil _)
      | cons d chars' =>
          rw [List.flatMap_cons, List.flatMap_cons]
          rcases List.cons_lt_cons_iff.mp h with hlt | ⟨rfl, hrest⟩
          · exact utf8EncodeChar_append_lt hlt _ _
          · exact List.append_left_lt (ih chars' hrest)

-- The order of texts is the order of their bytes.
theorem utf8Bytes_lt_iff (a b : String) : utf8Bytes a < utf8Bytes b ↔ a < b := by
  rw [utf8Bytes_eq, utf8Bytes_eq, String.lt_iff_toList_lt]
  refine ⟨fun h => ?_, flatMap_utf8EncodeChar_lt _ _⟩
  rcases lt_trichotomy a.toList b.toList with hlt | heq | hgt
  · exact hlt
  · rw [heq] at h
    exact absurd h (List.lt_irrefl _)
  · exact absurd h (List.lt_asymm (flatMap_utf8EncodeChar_lt _ _ hgt))

end ParticipantTrust
