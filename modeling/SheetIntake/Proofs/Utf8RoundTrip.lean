import Mathlib.Data.List.Basic
import SheetIntake.Text.Utf8

/-!
# Decoding what was encoded

The bytes of a text are decoded as the text. A character takes one to four bytes; the first of them
tells how many follow and bounds the second one, which rules out the codes that no character has.

* `decodeUtf8Chars_utf8Char` — one character.
* `decodeUtf8_encodeUtf8` — a text.
-/

namespace SheetIntake.Text

/-- No character has a code between the two bounds: those are the halves of a pair of units. -/
theorem toNat_char_cases (c : Char) : c.toNat < 0xd800 ∨ 0xe000 ≤ c.toNat ∧ c.toNat < 0x110000 := by
  rcases c.valid with h | ⟨hlow, hhigh⟩
  · exact .inl h
  · exact .inr ⟨hlow, hhigh⟩

theorem toNat_byte {n : Nat} (h : n < 256) : (UInt8.ofNat n).toNat = n := by
  simpa using h

section

variable {position : Nat} {rest : List UInt8} {cs : List Char} {n : Nat}

theorem decodeUtf8Chars_lead {c : Char} {more bits low high : Nat} (hn : n < 256)
    (hlead : utf8Lead n = some (more, bits, low, high))
    (htail : utf8Tail low high more 1 bits rest = .ok c.toNat)
    (hrest : decodeUtf8Chars (position + 1) more rest = .ok cs) :
    decodeUtf8Chars position 0 (UInt8.ofNat n :: rest) = .ok (c :: cs) := by
  rw [decodeUtf8Chars, toNat_byte hn, hlead]
  dsimp only
  rw [htail]
  dsimp only
  rw [hrest, Char.ofNat_toNat]

theorem utf8Tail_byte {low high more done code : Nat} (hn : n < 256) (hlow : low ≤ n)
    (hhigh : n ≤ high) : utf8Tail low high (more + 1) done code (UInt8.ofNat n :: rest) =
      utf8Tail 0x80 0xbf more (done + 1) (64 * code + (n - 0x80)) rest := by
  rw [utf8Tail, toNat_byte hn, if_pos ⟨hlow, hhigh⟩]

theorem utf8Lead_one (h : n < 0x80) : utf8Lead n = some (0, n, 0, 0) := if_pos h

theorem utf8Lead_two (hlow : 0xc2 ≤ n) (hhigh : n < 0xe0) :
    utf8Lead n = some (1, n - 0xc0, 0x80, 0xbf) := by
  unfold utf8Lead
  rw [if_neg (by omega), if_neg (by omega), if_pos hhigh]

theorem utf8Lead_three (hlow : 0xe0 ≤ n) (hhigh : n < 0xf0) :
    utf8Lead n = some (2, n - 0xe0, if n = 0xe0 then 0xa0 else 0x80,
      if n = 0xed then 0x9f else 0xbf) := by
  unfold utf8Lead
  rw [if_neg (by omega), if_neg (by omega), if_neg (by omega), if_pos hhigh]

theorem utf8Lead_four (hlow : 0xf0 ≤ n) (hhigh : n < 0xf5) :
    utf8Lead n = some (3, n - 0xf0, if n = 0xf0 then 0x90 else 0x80,
      if n = 0xf4 then 0x8f else 0xbf) := by
  unfold utf8Lead
  rw [if_neg (by omega), if_neg (by omega), if_neg (by omega), if_neg (by omega), if_pos hhigh]

theorem decodeUtf8Chars_utf8Char (c : Char)
    (h : ∀ position, decodeUtf8Chars position 0 rest = .ok cs) :
    decodeUtf8Chars position 0 (utf8Char c ++ rest) = .ok (c :: cs) := by
  have hvalid := toNat_char_cases c
  unfold utf8Char
  dsimp only
  split
  · next hone => exact decodeUtf8Chars_lead (by omega) (utf8Lead_one hone) rfl (h _)
  split
  · simp only [List.cons_append, List.nil_append]
    refine decodeUtf8Chars_lead (by omega) (utf8Lead_two (by omega) (by omega)) ?_ (h _)
    rw [utf8Tail_byte (by omega) (by omega) (by omega), utf8Tail]
    refine congrArg Except.ok ?_
    omega
  split
  · simp only [List.cons_append, List.nil_append]
    refine decodeUtf8Chars_lead (by omega) (utf8Lead_three (by omega) (by omega)) ?_ (h _)
    rw [utf8Tail_byte (by omega) (by split <;> omega) (by split <;> omega),
      utf8Tail_byte (by omega) (by omega) (by omega), utf8Tail]
    refine congrArg Except.ok ?_
    omega
  · simp only [List.cons_append, List.nil_append]
    refine decodeUtf8Chars_lead (by omega) (utf8Lead_four (by omega) (by omega)) ?_ (h _)
    rw [utf8Tail_byte (by omega) (by split <;> omega) (by split <;> omega),
      utf8Tail_byte (by omega) (by omega) (by omega),
      utf8Tail_byte (by omega) (by omega) (by omega), utf8Tail]
    refine congrArg Except.ok ?_
    omega

end

theorem decodeUtf8Chars_flatMap (position : Nat) (cs : List Char) :
    decodeUtf8Chars position 0 (cs.flatMap utf8Char) = .ok cs := by
  induction cs generalizing position with
  | nil => rfl
  | cons c cs ih => exact decodeUtf8Chars_utf8Char c ih

theorem decodeUtf8_encodeUtf8 (s : String) : decodeUtf8 (encodeUtf8 s) = .ok s := by
  unfold decodeUtf8 encodeUtf8
  rw [decodeUtf8Chars_flatMap]
  exact congrArg Except.ok String.ofList_toList

end SheetIntake.Text
