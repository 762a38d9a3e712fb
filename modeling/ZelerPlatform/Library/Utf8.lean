import Mathlib.Data.List.Basic
import Mathlib.Data.String.Basic
import Mathlib.Order.Compare

/-!
# The order of encoded texts

The bytes of two texts in UTF-8 compare as the texts do by code points.
-/

namespace Utf8

/-- The bytes of a code point. -/
def charBytes (c : Char) : List Nat :=
  let n := c.toNat
  if n < 0x80 then [n]
  else if n < 0x800 then [0xC0 + n / 64, 0x80 + n % 64]
  else if n < 0x10000 then [0xE0 + n / 4096, 0x80 + n / 64 % 64, 0x80 + n % 64]
  else [0xF0 + n / 262144, 0x80 + n / 4096 % 64, 0x80 + n / 64 % 64, 0x80 + n % 64]

/-- The bytes of a text. -/
def bytes (s : String) : List Nat := s.toList.flatMap charBytes

variable {c d : Char} {xs ys : List Char}

/-- The bytes of a smaller code point come first, whatever follows both. -/
theorem charBytes_lt (h : c < d) (xs ys : List Nat) : charBytes c ++ xs < charBytes d ++ ys := by
  have hlt : c.toNat < d.toNat := h
  unfold charBytes
  simp only
  split_ifs <;> simp only [List.cons_append, List.nil_append, List.cons_lt_cons_iff] <;> omega

theorem charBytes_ne_nil (c : Char) : charBytes c ≠ [] := by
  unfold charBytes
  simp only
  split_ifs <;> exact List.cons_ne_nil _ _

theorem flatMap_charBytes_lt (h : xs < ys) : xs.flatMap charBytes < ys.flatMap charBytes := by
  induction ys generalizing xs with
  | nil => exact absurd h (List.not_lt_nil xs)
  | cons d ys ih =>
      cases xs with
      | nil =>
          rw [List.flatMap_nil, List.flatMap_cons]
          cases hbytes : charBytes d with
          | nil => exact absurd hbytes (charBytes_ne_nil d)
          | cons byte rest => exact List.nil_lt_cons _ _
      | cons c xs =>
          rw [List.flatMap_cons, List.flatMap_cons]
          rcases List.cons_lt_cons_iff.mp h with hlt | ⟨rfl, hlt⟩
          · exact charBytes_lt hlt _ _
          · exact List.append_left_lt (ih hlt)

theorem bytes_strictMono : StrictMono bytes := fun _ _ h =>
  flatMap_charBytes_lt (String.lt_iff_toList_lt.mp h)

/-- Texts compare by their bytes as by their code points. -/
theorem bytes_lt_iff (s t : String) : bytes s < bytes t ↔ s < t := bytes_strictMono.lt_iff_lt

theorem cmp_bytes (s t : String) : cmp (bytes s) (bytes t) = cmp s t := by
  rw [cmp, cmpUsing, cmp, cmpUsing]
  simp only [bytes_lt_iff]

end Utf8
