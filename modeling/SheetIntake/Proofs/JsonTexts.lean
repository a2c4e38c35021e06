import SheetIntake.Json.Reader
import SheetIntake.Json.Writer
import SheetIntake.Proofs.Utf8RoundTrip

/-!
# Texts in JSON

A text is read back from its written form, whether characters outside the basic set are escaped or
not. A character beyond the first plane is escaped as two units, of which the reader keeps the first
until the second one comes.
-/

namespace SheetIntake.Json

open Text

/-! ## Units -/

theorem hexValue?_hexDigit {n : Nat} (h : n < 16) : hexValue? (hexDigit n) = some n := by
  have hall : ∀ n < 16, hexValue? (hexDigit n) = some n := by decide
  exact hall n h

theorem unitEscape_eq (n : Nat) :
    unitEscape n = ['\\', 'u', hexDigit (n / 16 / 16 / 16 % 16), hexDigit (n / 16 / 16 % 16),
      hexDigit (n / 16 % 16), hexDigit (n % 16)] := rfl

theorem unit?_hexDigits {n : Nat} (h : n < 0x10000) :
    unit? (hexDigit (n / 16 / 16 / 16 % 16)) (hexDigit (n / 16 / 16 % 16)) (hexDigit (n / 16 % 16))
      (hexDigit (n % 16)) = some n := by
  unfold unit?
  rw [hexValue?_hexDigit (Nat.mod_lt _ (by decide)), hexValue?_hexDigit (Nat.mod_lt _ (by decide)),
    hexValue?_hexDigit (Nat.mod_lt _ (by decide)), hexValue?_hexDigit (Nat.mod_lt _ (by decide))]
  simp only [Option.some.injEq]
  omega

variable {start position : Nat} {pending : Option Nat} {done rest : List Char}

theorem readText_unitEscape {n : Nat} (h : n < 0x10000) (hrest : rest ≠ []) :
    readText start position pending done (unitEscape n ++ rest) =
      readText start (position + 6) (addUnit pending done n).1 (addUnit pending done n).2 rest := by
  obtain ⟨e, tail, rfl⟩ := List.exists_cons_of_ne_nil hrest
  rw [unitEscape_eq]
  simp only [List.cons_append, List.nil_append]
  rw [readText]
  simp only [unit?_hexDigits h]

/-! ## Characters -/

theorem addUnit_char (c : Char) (h : c.toNat < 0x10000) :
    addUnit none done c.toNat = (none, c :: done) := by
  have hcases := toNat_char_cases c
  unfold addUnit
  rw [if_neg (by omega), if_neg (by omega), Char.ofNat_toNat]
  rfl

theorem addUnit_high {n : Nat} (hlow : 0xd800 ≤ n) (hhigh : n < 0xdc00) :
    addUnit none done n = (some n, done) := by
  unfold addUnit
  rw [if_pos ⟨hlow, hhigh⟩]
  rfl

theorem addUnit_low {high n : Nat} (hlow : 0xdc00 ≤ n) (hhigh : n < 0xe000) :
    addUnit (some high) done n =
      (none, Char.ofNat (0x10000 + (high - 0xd800) * 1024 + (n - 0xdc00)) :: done) := by
  unfold addUnit
  rw [if_neg (by omega), if_pos ⟨hlow, hhigh⟩]

theorem readText_charEscape (c : Char) (hrest : rest ≠ []) :
    ∃ next, readText start position none done (charEscape c ++ rest) =
      readText start next none (c :: done) rest := by
  have hcases := toNat_char_cases c
  unfold charEscape
  dsimp only
  split
  · next h =>
    rw [readText_unitEscape h hrest, addUnit_char c h]
    exact ⟨_, rfl⟩
  · -- the units of a pair, which add up to the character
    have hsum : 0x10000 + (0xd800 + (c.toNat - 0x10000) / 1024 - 0xd800) * 1024
        + (0xdc00 + (c.toNat - 0x10000) % 1024 - 0xdc00) = c.toNat := by omega
    rw [List.append_assoc, readText_unitEscape (by omega) (by simp [unitEscape]),
      addUnit_high (by omega) (by omega), readText_unitEscape (by omega) hrest,
      addUnit_low (by omega) (by omega), hsum, Char.ofNat_toNat]
    exact ⟨_, rfl⟩

theorem readText_quote : readText start position none done ('"' :: rest) =
      .ok (String.ofList done.reverse, ⟨position + 1, rest⟩) := by
  rfl

theorem readText_escape {c e : Char} (hu : c ≠ 'u') (he : escaped? c = some e) :
    readText start position none done ('\\' :: c :: rest) =
      readText start (position + 2) none (e :: done) rest := by
  rw [readText]
  · simp only [he]
    rfl
  · exact hu

theorem readText_plain {c : Char} (hquote : c ≠ '"') (hbackslash : c ≠ '\\')
    (hcontrol : ¬ c.toNat < 32) : readText start position none done (c :: rest) =
      readText start (position + 1) none (c :: done) rest := by
  rw [readText]
  · rw [if_neg hcontrol]
    rfl
  · exact hquote
  · exact fun _ h => absurd h hbackslash
  · exact fun h => absurd h hbackslash
  · exact fun _ _ h => absurd h hbackslash

theorem readText_textChar (layout : Layout) (c : Char) (hrest : rest ≠ []) :
    ∃ next, readText start position none done (textChar layout c ++ rest) =
      readText start next none (c :: done) rest := by
  unfold textChar
  split
  · next h =>
    refine ⟨_, readText_escape ?_ ?_⟩
    · rcases h with rfl | rfl <;> decide
    · rcases h with rfl | rfl <;> rfl
  iterate 3
    split
    · next h => subst h; exact ⟨_, readText_escape (by decide) rfl⟩
  iterate 2
    split
    · next h =>
      rw [← Char.ofNat_toNat c, h]
      exact ⟨_, readText_escape (by decide) rfl⟩
  split
  · exact readText_charEscape c hrest
  · next hspecial _ _ _ _ _ hplain =>
    rw [not_or] at hspecial hplain
    exact ⟨_, readText_plain hspecial.1 hspecial.2 hplain.1⟩

/-! ## Texts -/

theorem readText_chars (layout : Layout) (cs : List Char) :
    ∃ next, readText start position none done (cs.flatMap (textChar layout) ++ '"' :: rest) =
      .ok (String.ofList (done.reverse ++ cs), ⟨next, rest⟩) := by
  induction cs generalizing position done with
  | nil => exact ⟨_, by rw [List.append_nil]; exact readText_quote⟩
  | cons c cs ih =>
    obtain ⟨next, hnext⟩ : ∃ next, readText start position none done
        (textChar layout c ++ (cs.flatMap (textChar layout) ++ '"' :: rest)) =
          readText start next none (c :: done) (cs.flatMap (textChar layout) ++ '"' :: rest) :=
      readText_textChar layout c (by simp)
    obtain ⟨last, hlast⟩ := @ih next (c :: done)
    rw [List.flatMap_cons, List.append_assoc, hnext, hlast, List.reverse_cons, List.append_assoc]
    exact ⟨_, rfl⟩

theorem toList_textForm (layout : Layout) (s : String) :
    (textForm layout s).toList = '"' :: (s.toList.flatMap (textChar layout) ++ ['"']) :=
  String.toList_ofList

theorem readText_textForm (start position : Nat) (layout : Layout) (s : String) (rest : List Char) :
    ∃ next, readText start position none [] ((textForm layout s).toList.tail ++ rest) =
      .ok (s, ⟨next, rest⟩) := by
  obtain ⟨next, hnext⟩ : ∃ next, readText start position none []
      (s.toList.flatMap (textChar layout) ++ '"' :: rest) =
        .ok (String.ofList ([].reverse ++ s.toList), ⟨next, rest⟩) := readText_chars layout s.toList
  rw [toList_textForm, List.tail_cons, List.append_assoc]
  exact ⟨next, by simpa using hnext⟩

end SheetIntake.Json
