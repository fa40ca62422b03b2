import Lifecycle.Json.Reader
import Mathlib.Data.Option.Basic
import Mathlib.Tactic.SplitIfs

/-!
# String literals read back

The text of a string literal denotes the string it was written for, whatever
follows it: each character stands as one piece, escaped or not, and no written
literal holds half a character.
-/

namespace Lifecycle.Json

namespace Quoted

theorem hexValue?_hexDigit : ∀ n < 16, hexValue? (hexDigit n) = some n := by
  decide

/-- The four-digit escape of a control character has its code. -/
theorem code?_of_control {c : Char} (h : c.toNat < 32) :
    code? '0' '0' (hexDigit (c.toNat / 16)) (hexDigit (c.toNat % 16)) = some c.toNat := by
  have hhigh := hexValue?_hexDigit (c.toNat / 16) (by omega)
  have hlow := hexValue?_hexDigit (c.toNat % 16) (by omega)
  have hzero : hexValue? '0' = some 0 := rfl
  rw [code?, hhigh, hlow, hzero]
  exact congrArg some (by omega)

/-- The code of a control character is none of half a character. -/
theorem Piece.ofCode_of_control {c : Char} (h : c.toNat < 32) : ofCode c.toNat = .char c := by
  rw [ofCode, if_neg (by omega), Char.ofNat_toNat]

/-- However a character is written, it is read as that character. -/
theorem scan_encodeChar (c : Char) (rest : List Char) :
    scan (encodeChar c ++ rest) = (scan rest).map fun read => (.char c :: read.1, read.2) := by
  have hpair : ∀ {x : Option (List Piece × List Char)} {piece : Piece},
      (do let read ← x; return (piece :: read.1, read.2)) =
        x.map fun read => (piece :: read.1, read.2) := by
    intro x piece
    cases x <;> rfl
  have hletter : ∀ e c, e ≠ 'u' → unescape? e = some c →
      scan ('\\' :: e :: rest) = (scan rest).map fun read => (.char c :: read.1, read.2) := by
    intro e c hne he
    rw [scan.eq_4 _ _ (by rintro _ _ _ _ _ rfl _; exact hne rfl), he]
    exact hpair
  unfold encodeChar
  split_ifs with hquote hslash hn hr ht hb hf hcontrol
  · exact hletter _ _ (by decide) (by rw [hquote]; rfl)
  · exact hletter _ _ (by decide) (by rw [hslash]; rfl)
  · exact hletter _ _ (by decide) (by rw [hn]; rfl)
  · exact hletter _ _ (by decide) (by rw [hr]; rfl)
  · exact hletter _ _ (by decide) (by rw [ht]; rfl)
  · exact hletter _ _ (by decide) (by rw [hb]; rfl)
  · exact hletter _ _ (by decide) (by rw [hf]; rfl)
  · simp only [List.cons_append, List.nil_append]
    rw [scan, code?_of_control hcontrol]
    simp only [Option.bind_eq_bind, Option.bind_some, Piece.ofCode_of_control hcontrol]
    exact hpair
  · have hplain : guard (c ≠ '\\' ∧ 32 ≤ c.toNat) = some () :=
      (Option.guard_eq_some' ()).mpr ⟨hslash, by omega⟩
    rw [List.singleton_append, scan.eq_5 _ _ hquote (by rintro _ _ _ _ _ rfl _; exact hslash rfl)
      (by rintro _ _ rfl _; exact hslash rfl), hplain]
    exact hpair

/-- A literal is read up to its closing quote, character by character. -/
theorem scan_encode (cs rest : List Char) :
    scan (cs.flatMap encodeChar ++ '"' :: rest) = some (cs.map .char, rest) := by
  induction cs with
  | nil => rw [List.flatMap_nil, List.nil_append, scan, List.map_nil]
  | cons c cs ih => rw [List.flatMap_cons, List.append_assoc, scan_encodeChar, ih]; rfl

/-- Whole characters denote themselves. -/
theorem join_map_char (cs : List Char) : join (cs.map .char) = some cs := by
  induction cs with
  | nil => rfl
  | cons c cs ih => rw [List.map_cons, join, ih]; rfl

end Quoted

namespace Reader

/-- The rest of a string literal after its opening quote denotes the string. -/
theorem literal_encode (s : String) (rest : List Char) :
    literal (s.toList.flatMap Quoted.encodeChar ++ '"' :: rest) = some (some s, rest) := by
  rw [literal, Quoted.scan_encode]
  simp [Quoted.join_map_char]

end Reader

end Lifecycle.Json
