import Mathlib.Tactic.SplitIfs
import PaneCompletion.Json.Printer
import PaneCompletion.Json.Reader

/-!
# Strings read back

A string that has been written is read back as itself, whatever follows its closing quote
(`readString_stringText`). Most characters are read back one by one. Those that are escaped by their
UTF-16 units are not: the reader holds the units of escapes that stand side by side, and makes
characters of them only where something else comes. So the induction over the text has what is held
so far as a parameter (`readString_flatMap_charText`), and rests on units that belong to a character
making that character whatever stands around them (`charsOfUnits_append`).

1. units;
2. escapes;
3. strings.
-/

namespace PaneCompletion.Json

/-! ## Units -/

/-- The UTF-16 units of a character. -/
def unitsOfChar (c : Char) : List Nat :=
  if c.toNat < 0x10000 then [c.toNat]
  else [0xD800 + (c.toNat - 0x10000) / 1024, 0xDC00 + (c.toNat - 0x10000) % 1024]

/-- The UTF-16 units of a text. -/
def unitsOf (text : Text) : List Nat := text.flatMap unitsOfChar

theorem toNat_lt_or_ge (c : Char) : c.toNat < 0xD800 ∨ 0xE000 ≤ c.toNat ∧ c.toNat < 0x110000 := by
  have hvalid : c.toNat.isValidChar := c.valid
  simp only [Nat.isValidChar] at hvalid
  omega

theorem unitsOfChar_lt (c : Char) : ∀ unit ∈ unitsOfChar c, unit < 0x10000 := by
  have hrange := toNat_lt_or_ge c
  unfold unitsOfChar
  split_ifs with hbmp
  · simpa using hbmp
  · simp only [List.forall_mem_cons, List.not_mem_nil, false_implies, implies_true, and_true]
    omega

theorem charsOfUnits_append (c : Char) (units : List Nat) :
    charsOfUnits (unitsOfChar c ++ units) = c :: charsOfUnits units := by
  have hrange := toNat_lt_or_ge c
  unfold unitsOfChar
  split_ifs with hbmp
  · have hhigh : isHigh c.toNat = false := by
      simp only [isHigh, Bool.and_eq_false_iff, decide_eq_false_iff_not]
      omega
    have hlow : isLow c.toNat = false := by
      simp only [isLow, Bool.and_eq_false_iff, decide_eq_false_iff_not]
      omega
    have hchar : unitChar c.toNat = c := by simp [unitChar, hhigh, hlow]
    cases units <;> simp [charsOfUnits, hhigh, hchar]
  · have hhigh : isHigh (0xD800 + (c.toNat - 0x10000) / 1024) = true := by
      simp only [isHigh, Bool.and_eq_true, decide_eq_true_eq]
      omega
    have hlow : isLow (0xDC00 + (c.toNat - 0x10000) % 1024) = true := by
      simp only [isLow, Bool.and_eq_true, decide_eq_true_eq]
      omega
    have hnumber : 0x10000 + (0xD800 + (c.toNat - 0x10000) / 1024 - 0xD800) * 1024 +
        (0xDC00 + (c.toNat - 0x10000) % 1024 - 0xDC00) = c.toNat := by omega
    simp only [List.cons_append, List.nil_append, charsOfUnits, hhigh, hlow, Bool.and_self,
      if_true, hnumber, Char.ofNat_toNat]

theorem charsOfUnits_unitsOf (text : Text) : charsOfUnits (unitsOf text) = text := by
  induction text with
  | nil => rfl
  | cons c rest ih => rw [unitsOf, List.flatMap_cons, charsOfUnits_append, ← unitsOf, ih]

/-! ## Escapes -/

theorem hexValue?_hexDigit (n : Nat) : hexValue? (hexDigit n) = some (n % 16) := by
  have hdigits : ∀ d < 16, hexValue? (Nat.digitChar d) = some d := by decide
  exact hdigits (n % 16) (Nat.mod_lt n (by decide))

theorem unit?_hexDigits {n : Nat} (h : n < 0x10000) :
    unit? (hexDigit (n / 4096)) (hexDigit (n / 256)) (hexDigit (n / 16)) (hexDigit n) = some n := by
  simp only [unit?, hexValue?_hexDigit, Option.pure_def, Option.bind_eq_bind, Option.bind_some]
  congr 1
  omega

theorem readString_unitEscape {n : Nat} (h : n < 0x10000) (units : List Nat) (rest : Text) :
    readString units (unitEscape n ++ rest) = readString (n :: units) rest := by
  simp only [unitEscape, List.cons_append, List.nil_append, readString, unit?_hexDigits h]

theorem readString_escape {c e : Char} (hunit : e ≠ 'u') (hescape : escape? e = some c)
    (units : List Nat) {rest text after : Text} (hrest : readString [] rest = some (text, after)) :
    readString units ('\\' :: e :: rest) =
      some (charsOfUnits units.reverse ++ c :: text, after) := by
  rw [readString, hescape, hrest]
  rintro _ _ _ _ _ heq -
  exact hunit heq

theorem readString_plain {c : Char} (hquote : c ≠ '"') (hback : c ≠ '\\')
    (hprinted : 0x20 ≤ c.toNat) (units : List Nat) {rest text after : Text}
    (hrest : readString [] rest = some (text, after)) :
    readString units (c :: rest) = some (charsOfUnits units.reverse ++ c :: text, after) := by
  rw [readString, if_neg (by rw [not_or]; exact ⟨hback, by omega⟩), hrest]
  · exact hquote
  · rintro _ _ _ _ _ heq -
    exact hback heq
  · rintro _ _ heq -
    exact hback heq

/-- What may be written for a character in a string: the character itself, a backslash and one
character, or its units. -/
inductive Spelling (c : Char) : Text → Prop
  | plain (hquote : c ≠ '"') (hback : c ≠ '\\') (hprinted : 0x20 ≤ c.toNat ∧ c.toNat < 0x7F) :
      Spelling c [c]
  | escape {e : Char} (hprinted : e.toNat < 0x7F) (hunit : e ≠ 'u') (hescape : escape? e = some c) :
      Spelling c ['\\', e]
  | units : Spelling c ((unitsOfChar c).flatMap unitEscape)

theorem spelling_charText (c : Char) : Spelling c (charText c) := by
  simp only [charText]
  split_ifs with hquote hback hline hreturn htab hbackspace hfeed hprinted hbmp
  · exact .escape (by decide) (by decide) (by rw [hquote]; rfl)
  · exact .escape (by decide) (by decide) (by rw [hback]; rfl)
  · exact .escape (by decide) (by decide) (by rw [hline]; rfl)
  · exact .escape (by decide) (by decide) (by rw [hreturn]; rfl)
  · exact .escape (by decide) (by decide) (by rw [htab]; rfl)
  · exact .escape (by decide) (by decide) (by rw [hbackspace]; rfl)
  · exact .escape (by decide) (by decide) (by rw [hfeed]; rfl)
  · exact .plain hquote hback hprinted
  · have hunits : unitEscape c.toNat = (unitsOfChar c).flatMap unitEscape := by
      simp [unitsOfChar, hbmp]
    exact hunits ▸ .units
  · have hunits : unitEscape (0xD800 + (c.toNat - 0x10000) / 1024) ++
        unitEscape (0xDC00 + (c.toNat - 0x10000) % 1024) =
          (unitsOfChar c).flatMap unitEscape := by
      simp [unitsOfChar, hbmp]
    exact hunits ▸ .units

/-! ## Strings -/

/-- Units side by side are held until something else comes. -/
theorem readString_units {units : List Nat} (hunits : ∀ unit ∈ units, unit < 0x10000)
    (held : List Nat) (rest : Text) :
    readString held (units.flatMap unitEscape ++ rest) =
      readString (units.reverse ++ held) rest := by
  induction units generalizing held with
  | nil => rfl
  | cons unit units ih =>
    obtain ⟨hunit, hmore⟩ := List.forall_mem_cons.mp hunits
    rw [List.flatMap_cons, List.append_assoc, readString_unitEscape hunit, ih hmore]
    simp

theorem readString_flatMap_charText (held text rest : Text) :
    readString (unitsOf held).reverse (text.flatMap charText ++ '"' :: rest) =
      some (held ++ text, rest) := by
  induction text generalizing held with
  | nil => simp [readString, charsOfUnits_unitsOf]
  | cons c text ih =>
    have hnone : readString [] (text.flatMap charText ++ '"' :: rest) = some (text, rest) := ih []
    rw [List.flatMap_cons, List.append_assoc]
    have hspelling := spelling_charText c
    generalize charText c = chunk at hspelling ⊢
    cases hspelling with
    | plain hquote hback hprinted =>
      rw [List.singleton_append, readString_plain hquote hback hprinted.1 _ hnone,
        List.reverse_reverse, charsOfUnits_unitsOf]
    | escape _ hunit hescape =>
      rw [List.cons_append, List.singleton_append, readString_escape hunit hescape _ hnone,
        List.reverse_reverse, charsOfUnits_unitsOf]
    | units =>
      have hmore : (unitsOfChar c).reverse ++ (unitsOf held).reverse =
          (unitsOf (held ++ [c])).reverse := by simp [unitsOf]
      rw [readString_units (unitsOfChar_lt c), hmore, ih (held ++ [c])]
      simp

/-- A string is read back up to its closing quote. -/
theorem readString_stringText (text rest : Text) :
    ∃ inside, stringText text ++ rest = '"' :: inside ∧ readString [] inside = some (text, rest) :=
  ⟨text.flatMap charText ++ '"' :: rest, by simp [stringText],
    readString_flatMap_charText [] text rest⟩

theorem lt_of_mem_unitEscape {unit : Nat} {d : Char} (h : d ∈ unitEscape unit) :
    d.toNat < 0x7F := by
  have hdigits : ∀ digit < 16, (Nat.digitChar digit).toNat < 0x7F := by decide
  have hhex : ∀ n, (hexDigit n).toNat < 0x7F :=
    fun n => hdigits (n % 16) (Nat.mod_lt n (by decide))
  simp only [unitEscape, List.mem_cons, List.not_mem_nil, or_false] at h
  rcases h with rfl | rfl | rfl | rfl | rfl | rfl
  · decide
  · decide
  · exact hhex _
  · exact hhex _
  · exact hhex _
  · exact hhex _

/-- What is written for a character is ASCII. -/
theorem lt_of_mem_charText {c d : Char} (h : d ∈ charText c) : d.toNat < 0x7F := by
  have hspelling := spelling_charText c
  generalize charText c = chunk at hspelling h
  cases hspelling with
  | plain _ _ hprinted => exact List.mem_singleton.mp h ▸ hprinted.2
  | escape hprinted _ _ =>
    rw [List.mem_cons, List.mem_singleton] at h
    rcases h with rfl | rfl
    · decide
    · exact hprinted
  | units =>
    obtain ⟨unit, -, hd⟩ := List.mem_flatMap.mp h
    exact lt_of_mem_unitEscape hd

end PaneCompletion.Json
