import Lifecycle.Proofs.Json.Layout
import Lifecycle.Proofs.Json.Literal

/-!
# Written documents read back

Every written document is a JSON text (`Document.read?_text`). It is read as the
document itself, except that a float is read as the number that its digits denote and
what has no text of its own is read as null (`Document.reread`).
-/

namespace Lifecycle.Json

/-- What the text of a number is read as. -/
def Number.reread : Number → Document
  | .integer n => .number (.integer n)
  | .float x =>
    match floatNumeral? x with
    | none => .null
    | some numeral => ((numeral.value?).map .number).getD .unreadable

namespace Document

mutual

/-- What the text of a document is read as. -/
def reread : Document → Document
  | .number n => n.reread
  | .array items => .array (rereadItems items)
  | .object members => .object (rereadMembers members)
  | .unreadable => .null
  | d => d

/-- What the texts of items are read as. -/
def rereadItems : List Document → List Document
  | [] => []
  | item :: items => item.reread :: rereadItems items

/-- What the texts of members are read as. -/
def rereadMembers : List (String × Document) → List (String × Document)
  | [] => []
  | (key, value) :: members => (key, value.reread) :: rereadMembers members

end

end Document

namespace Reader

/-- The text starts like a value: with none of the blanks and closing signs. -/
def Opens (text : List Char) : Prop :=
  ∃ c rest, text = c :: rest ∧ isBlank c = false ∧ c ≠ ']' ∧ c ≠ '\x7d'

theorem Opens.append {text : List Char} (h : Opens text) (rest : List Char) :
    Opens (text ++ rest) := by
  obtain ⟨c, cs, rfl, hc⟩ := h
  exact ⟨c, cs ++ rest, rfl, hc⟩

theorem Opens.skip_eq {text : List Char} (h : Opens text) : skip text = text := by
  obtain ⟨c, cs, rfl, hc, _⟩ := h
  exact List.dropWhile_cons_of_neg (by simp [hc])

theorem Opens.pos {text : List Char} (h : Opens text) : 0 < text.length := by
  obtain ⟨c, cs, rfl, _⟩ := h
  exact Nat.succ_pos _

/-- Text that starts with a minus sign or a digit is a numeral. -/
theorem value_of_numeral {fuel : Nat} {c : Char} {text : List Char}
    (h : c = '-' ∨ c.isDigit = true) : value (fuel + 1) (c :: text) = numeral (c :: text) := by
  have hne : ∀ d : Char, d ≠ '-' → d.isDigit = false → c ≠ d := by
    rintro d hminus hdigit rfl
    rcases h with h | h
    · exact hminus h
    · rw [hdigit] at h
      cases h
  rw [value]
  simp only [hne '"' (by decide) rfl, hne '[' (by decide) rfl, hne '\x7b' (by decide) rfl,
    hne 'n' (by decide) rfl, hne 't' (by decide) rfl, hne 'f' (by decide) rfl, if_false]

/-- A numeral starts with a minus sign or a digit. -/
theorem exists_chars_numeral {n : Numeral} (h : n.WellFormed) :
    ∃ c rest, n.chars = c :: rest ∧ (c = '-' ∨ c.isDigit = true) := by
  obtain ⟨negative, whole, fraction, exponent⟩ := n
  obtain ⟨c, rest, hwhole⟩ := List.exists_cons_of_ne_nil h.whole.1
  simp only at hwhole
  have hdigit : c.isDigit = true := h.whole.2 c (by simp [hwhole])
  cases negative with
  | true => exact ⟨_, _, rfl, .inl rfl⟩
  | false => exact ⟨c, _, by simp [Numeral.chars, hwhole]; rfl, .inr hdigit⟩

theorem opens_numeral {n : Numeral} (h : n.WellFormed) : Opens n.chars := by
  obtain ⟨c, rest, hchars, hc⟩ := exists_chars_numeral h
  refine ⟨c, rest, hchars, ?_⟩
  rcases hc with rfl | hdigit
  · decide
  · have hne : ∀ d : Char, d.isDigit = false → c ≠ d := by
      rintro d hd rfl
      rw [hd] at hdigit
      cases hdigit
    refine ⟨?_, hne _ rfl, hne _ rfl⟩
    simp [isBlank, hne ' ' rfl, hne '\n' rfl, hne '\t' rfl, hne '\r' rfl]

/-- A numeral is read as the number it denotes. -/
theorem value_numeral {n : Numeral} (h : n.WellFormed) (fuel : Nat) {rest : List Char}
    (hrest : Numeral.Stops rest) :
    value (fuel + 1) (n.chars ++ rest) = some (((n.value?).map .number).getD .unreadable, rest) := by
  obtain ⟨c, cs, hchars, hc⟩ := exists_chars_numeral h
  rw [hchars, List.cons_append, value_of_numeral hc, ← List.cons_append, ← hchars, numeral,
    Numeral.scan_chars h hrest]
  cases hvalue : n.value? <;>
    simp [hvalue]

end Reader

namespace Number

/-- The text of a number starts like a value. -/
theorem opens_chars (n : Number) : Reader.Opens n.chars := by
  cases n with
  | integer n =>
    rw [chars, ← n.chars_numeral]
    exact Reader.opens_numeral n.wellFormed_numeral
  | float x =>
    rw [chars, floatChars?_eq]
    cases hnumeral : floatNumeral? x with
    | none => exact ⟨'n', _, rfl, by decide⟩
    | some n => exact Reader.opens_numeral (wellFormed_floatNumeral hnumeral)

/-- The text of a number is read as `reread` says. -/
theorem value_chars (n : Number) (fuel : Nat) {rest : List Char} (hrest : Numeral.Stops rest) :
    Reader.value (fuel + 1) (n.chars ++ rest) = some (n.reread, rest) := by
  cases n with
  | integer n =>
    rw [chars, ← n.chars_numeral, Reader.value_numeral n.wellFormed_numeral fuel hrest,
      n.value?_numeral]
    rfl
  | float x =>
    rw [chars, floatChars?_eq, reread]
    cases hnumeral : floatNumeral? x with
    | none => simp [Reader.value, Reader.expect]
    | some n => exact Reader.value_numeral (wellFormed_floatNumeral hnumeral) fuel hrest

end Number

namespace Document

/-- The text of a document starts like a value. -/
theorem opens_chars (d : Document) : Reader.Opens d.chars := by
  cases d with
  | bool b => cases b <;> exact ⟨_, _, rfl, by decide⟩
  | number n => exact n.opens_chars
  | _ => exact ⟨_, _, rfl, by decide⟩

end Document

namespace Reader

open Document

section Steps

variable {fuel : Nat} {text more rest : List Char}

theorem value_string (h : literal text = some (some s, rest)) :
    value (fuel + 1) ('"' :: text) = some (.string s, rest) := by
  rw [value]
  simp [h]

theorem value_array_nil : value (fuel + 1) ('[' :: ']' :: rest) = some (.array [], rest) := by
  rw [value]
  simp [skip, isBlank]

theorem value_array {list : List Document} (hopens : Opens text)
    (h : items fuel text = some (list, rest)) :
    value (fuel + 1) ('[' :: text) = some (.array list, rest) := by
  obtain ⟨c, cs, rfl, _, hbracket, _⟩ := id hopens
  have hne : ∀ text, c :: cs ≠ ']' :: text := by
    rintro _ heq
    exact hbracket (List.cons.inj heq).1
  rw [value, if_neg (by decide), if_pos rfl, hopens.skip_eq]
  split
  · next heq => exact absurd heq (hne _)
  · rw [h]
    rfl

theorem value_object_nil : value (fuel + 1) ('\x7b' :: '\x7d' :: rest) = some (.object [], rest) := by
  rw [value]
  simp [skip, isBlank]

theorem value_object {list : List (String × Document)} (hopens : Opens text)
    (h : members fuel text = some (some list, rest)) :
    value (fuel + 1) ('\x7b' :: text) = some (.object list, rest) := by
  obtain ⟨c, cs, rfl, _, _, hbrace⟩ := id hopens
  have hne : ∀ text, c :: cs ≠ '\x7d' :: text := by
    rintro _ heq
    exact hbrace (List.cons.inj heq).1
  rw [value, if_neg (by decide), if_neg (by decide), if_pos rfl, hopens.skip_eq]
  split
  · next heq => exact absurd heq (hne _)
  · rw [h]
    rfl

theorem items_last {first : Document} (h : value fuel text = some (first, ']' :: rest)) :
    items (fuel + 1) text = some ([first], rest) := by
  rw [items, h]
  simp [skip, isBlank]

theorem items_cons {first : Document} {others : List Document} (hopens : Opens more)
    (hfirst : value fuel text = some (first, ',' :: more))
    (hothers : items fuel more = some (others, rest)) :
    items (fuel + 1) text = some (first :: others, rest) := by
  have hcomma : skip (',' :: more) = ',' :: more := by simp [skip, isBlank]
  rw [items, hfirst]
  simp [hcomma, hopens.skip_eq, hothers]

theorem members_last {key : String} {first : Document}
    (hopens : Opens text) (h : value fuel text = some (first, '\x7d' :: rest)) :
    members (fuel + 1) (Quoted.encode key ++ ':' :: text) = some (some [(key, first)], rest) := by
  have hcolon : skip (':' :: text) = ':' :: text := by simp [skip, isBlank]
  have hbrace : skip ('\x7d' :: rest) = '\x7d' :: rest := by simp [skip, isBlank]
  rw [Quoted.encode, List.append_assoc, List.cons_append, List.singleton_append, members]
  simp [literal_encode, hcolon, hopens.skip_eq, h, hbrace]

theorem members_cons {key : String} {first : Document} {others : List (String × Document)}
    (hopens : Opens text) (hmore : Opens more)
    (hfirst : value fuel text = some (first, ',' :: more))
    (hothers : members fuel more = some (some others, rest)) :
    members (fuel + 1) (Quoted.encode key ++ ':' :: text) =
      some (some ((key, first) :: others), rest) := by
  have hcolon : skip (':' :: text) = ':' :: text := by simp [skip, isBlank]
  have hcomma : skip (',' :: more) = ',' :: more := by simp [skip, isBlank]
  rw [Quoted.encode, List.append_assoc, List.cons_append, List.singleton_append, members]
  simp [literal_encode, hcolon, hopens.skip_eq, hfirst, hcomma, hmore.skip_eq, hothers]

end Steps

theorem opens_items (item : Document) (items : List Document) :
    Opens (charsOfItems (item :: items)) := by
  cases items with
  | nil => exact item.opens_chars
  | cons => exact item.opens_chars.append _

theorem opens_members (member : String × Document) (members : List (String × Document)) :
    Opens (charsOfMembers (member :: members)) := by
  cases members with
  | nil => exact ⟨_, _, rfl, by decide⟩
  | cons => exact ⟨_, _, rfl, by decide⟩

mutual

/-- The text of a document is read as `reread` says, whatever follows it. -/
theorem value_chars (d : Document) {fuel : Nat} (hfuel : d.chars.length ≤ fuel) {rest : List Char}
    (hrest : Numeral.Stops rest) : value fuel (d.chars ++ rest) = some (d.reread, rest) := by
  have hpos := d.opens_chars.pos
  obtain ⟨fuel, rfl⟩ : ∃ less, fuel = less + 1 := ⟨fuel - 1, by omega⟩
  match d with
  | .null => simp [chars, value, expect, reread]
  | .bool true => simp [chars, value, expect, reread]
  | .bool false => simp [chars, value, expect, reread]
  | .number n => exact n.value_chars fuel hrest
  | .string s =>
    rw [chars, Quoted.encode, List.append_assoc, List.cons_append, List.singleton_append]
    exact value_string (literal_encode s rest)
  | .array [] => exact value_array_nil
  | .array (item :: others) =>
    simp only [chars, List.length_append, List.length_cons, List.length_nil] at hfuel
    rw [chars, List.append_assoc, List.cons_append, List.singleton_append]
    exact value_array ((opens_items item others).append _) (items_chars item others (by omega) rest)
  | .object [] => exact value_object_nil
  | .object (member :: others) =>
    simp only [chars, List.length_append, List.length_cons, List.length_nil] at hfuel
    rw [chars, List.append_assoc, List.cons_append, List.singleton_append]
    exact value_object ((opens_members member others).append _)
      (members_chars member others (by omega) rest)
  | .unreadable => simp [chars, value, expect, reread]
termination_by fuel

/-- The texts of items are read as `rereadItems` says, up to the closing bracket. -/
theorem items_chars (item : Document) (others : List Document) {fuel : Nat}
    (hfuel : (charsOfItems (item :: others)).length + 1 ≤ fuel) (rest : List Char) :
    items fuel (charsOfItems (item :: others) ++ ']' :: rest) =
      some (rereadItems (item :: others), rest) := by
  obtain ⟨fuel, rfl⟩ : ∃ less, fuel = less + 1 := ⟨fuel - 1, by omega⟩
  match others with
  | [] =>
    simp only [charsOfItems] at hfuel
    exact items_last (value_chars item (by omega) (Numeral.stops_cons (by decide)))
  | next :: others =>
    simp only [charsOfItems, List.length_append, List.length_cons] at hfuel
    rw [charsOfItems, List.append_assoc, List.cons_append]
    · exact items_cons ((opens_items next others).append _)
        (value_chars item (by omega) (Numeral.stops_cons (by decide)))
        (items_chars next others (by omega) rest)
    · exact nofun
termination_by fuel

/-- The texts of members are read as `rereadMembers` says, up to the closing brace. -/
theorem members_chars (member : String × Document) (others : List (String × Document)) {fuel : Nat}
    (hfuel : (charsOfMembers (member :: others)).length + 1 ≤ fuel) (rest : List Char) :
    members fuel (charsOfMembers (member :: others) ++ '\x7d' :: rest) =
      some (some (rereadMembers (member :: others)), rest) := by
  obtain ⟨fuel, rfl⟩ : ∃ less, fuel = less + 1 := ⟨fuel - 1, by omega⟩
  obtain ⟨key, first⟩ := member
  match others with
  | [] =>
    simp only [charsOfMembers, List.length_append, List.length_cons] at hfuel
    rw [charsOfMembers, List.append_assoc, List.cons_append]
    exact members_last (first.opens_chars.append _)
      (value_chars first (by omega) (Numeral.stops_cons (by decide)))
  | next :: others =>
    simp only [charsOfMembers, List.length_append, List.length_cons] at hfuel
    rw [charsOfMembers, List.append_assoc, List.append_assoc, List.cons_append, List.cons_append]
    · exact members_cons (first.opens_chars.append _) ((opens_members next others).append _)
        (value_chars first (by omega) (Numeral.stops_cons (by decide)))
        (members_chars next others (by omega) rest)
    · exact nofun
termination_by fuel

end

end Reader

/-- Every written document is a JSON text. -/
theorem Document.read?_text (d : Document) : read? d.text.toList = some d.reread := by
  have hread := Reader.value_chars d (Nat.le_succ _) Numeral.stops_nil
  rw [List.append_nil] at hread
  rw [text, String.toList_ofList, read?, d.opens_chars.skip_eq, hread]
  rfl

end Lifecycle.Json
