import BlockScript.Colour.Basic
import BlockScript.Proofs.Text.Trim
import Mathlib.Tactic.IntervalCases

namespace BlockScript

/-! # The text of a colour

A colour is written with `#` and hexadecimal digits alone (`Colour.mem_chars`), and reading this
text gives the colour back (`Colour.parse?_chars`). So no two colours have the same text.
-/

theorem hexValue?_hexDigit {n : Nat} (h : n < 16) : hexValue? (hexDigit n) = some n := by
  interval_cases n <;> decide

theorem isBlank_hexDigit {n : Nat} (h : n < 16) : isBlank (hexDigit n) = false := by
  interval_cases n <;> decide

namespace Colour

variable {c : Colour} {ch : Char}

/-- The digits of a byte are read as the byte. -/
theorem byteOf_hexPair (byte : UInt8) : byteOf (byte.toNat / 16) (byte.toNat % 16) = byte := by
  rw [byteOf, Nat.div_add_mod, UInt8.ofNat_toNat]

theorem mapM_hexPair_append (byte : UInt8) {rest : List Char} {values : List Nat}
    (h : rest.mapM hexValue? = some values) : (hexPair byte ++ rest).mapM hexValue? =
      some (byte.toNat / 16 :: byte.toNat % 16 :: values) := by
  have hlow : byte.toNat % 16 < 16 := Nat.mod_lt _ (by decide)
  have hhigh : byte.toNat / 16 < 16 := by
    have hbyte := byte.toNat_lt
    omega
  simp [hexPair, hexValue?_hexDigit hlow, hexValue?_hexDigit hhigh, h]

theorem mem_hexPair {byte : UInt8} (h : ch ∈ hexPair byte) : ∃ n < 16, ch = hexDigit n := by
  have hbyte := byte.toNat_lt
  rcases List.mem_cons.mp h with rfl | h
  · exact ⟨byte.toNat / 16, by omega, rfl⟩
  · exact ⟨byte.toNat % 16, by omega, List.mem_singleton.mp h⟩

theorem mem_chars (h : ch ∈ c.chars) : ch = '#' ∨ ∃ n < 16, ch = hexDigit n := by
  rw [chars, List.mem_cons, List.mem_append, List.mem_append, List.mem_append] at h
  rcases h with h | ((h | h) | h) | h
  · exact Or.inl h
  · exact Or.inr (mem_hexPair h)
  · exact Or.inr (mem_hexPair h)
  · exact Or.inr (mem_hexPair h)
  · split_ifs at h
    · cases h
    · exact Or.inr (mem_hexPair h)

theorem isBlank_of_mem_chars (h : ch ∈ c.chars) : isBlank ch = false := by
  rcases mem_chars h with rfl | ⟨n, hn, rfl⟩
  · decide
  · exact isBlank_hexDigit hn

/-- The digits of a colour: those of its bytes, the last byte only where it is not opaque. -/
def digits (c : Colour) : List Char :=
  hexPair c.r ++ (hexPair c.g ++ (hexPair c.b ++ if c.a = 255 then [] else hexPair c.a))

theorem chars_eq (c : Colour) : c.chars = '#' :: c.digits := by
  simp only [chars, digits, List.append_assoc]

theorem ofDigits?_digits (c : Colour) : (c.digits.mapM hexValue?).bind ofDigits? = some c := by
  obtain ⟨r, g, b, a⟩ := c
  rw [digits]
  split_ifs with hopaque
  · obtain rfl : a = 255 := hopaque
    rw [mapM_hexPair_append r (mapM_hexPair_append g (mapM_hexPair_append b rfl))]
    simp [ofDigits?, byteOf_hexPair]
  · have halpha := mapM_hexPair_append a (List.mapM_nil (m := Option))
    rw [List.append_nil] at halpha
    rw [mapM_hexPair_append r (mapM_hexPair_append g (mapM_hexPair_append b halpha))]
    simp [ofDigits?, byteOf_hexPair]

/-- Reading the text of a colour gives the colour. -/
theorem parse?_chars (c : Colour) : parse? c.chars = some c := by
  have htrim : trim c.chars = c.chars := trim_of_forall_not_isBlank fun _ => isBlank_of_mem_chars
  rw [parse?, htrim, chars_eq]
  exact ofDigits?_digits c

theorem text_injective {c c' : Colour} (h : c.text = c'.text) : c = c' := by
  have hchars : c.chars = c'.chars := String.ofList_injective h
  have hread := parse?_chars c
  rw [hchars, parse?_chars] at hread
  exact (Option.some.inj hread).symm

end Colour

end BlockScript
