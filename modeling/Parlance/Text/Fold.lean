/-!
# Letter case

Words are compared either exactly or with the case of the ASCII letters
ignored; other letters always count as they are.
-/

set_option autoImplicit false

namespace Parlance.Text

/-- The characters of a text with the ASCII capitals made small. -/
def folded (text : String) : List Char :=
  text.toList.map Char.toLower

/-- The text with the ASCII capitals made small. -/
def smallLetters (text : String) : String :=
  String.ofList (folded text)

/-- Equal up to the case of ASCII letters. -/
def sameFolded (a b : String) : Bool :=
  folded a == folded b

/-- Equal, exactly or up to the case of ASCII letters. -/
def sameWord (exact : Bool) (a b : String) : Bool :=
  if exact then a == b else sameFolded a b

/-- The text begins with `start`, up to the case of ASCII letters. -/
def beginsFolded (start text : String) : Bool :=
  (folded start).isPrefixOf (folded text)

/-! ## Laws -/

theorem sameFolded_iff {a b : String} : sameFolded a b = true ↔ folded a = folded b := by
  simp [sameFolded]

theorem sameFolded_refl (a : String) : sameFolded a a = true := by
  simp [sameFolded]

theorem sameFolded_comm (a b : String) : sameFolded a b = sameFolded b a := by
  rw [Bool.eq_iff_iff, sameFolded_iff, sameFolded_iff, eq_comm]

theorem sameFolded_trans {a b c : String} (hab : sameFolded a b = true)
    (hbc : sameFolded b c = true) : sameFolded a c = true := by
  rw [sameFolded_iff] at *
  exact hab.trans hbc

theorem sameWord_refl (exact : Bool) (a : String) : sameWord exact a a = true := by
  cases exact <;> simp [sameWord, sameFolded_refl]

theorem beginsFolded_empty (text : String) : beginsFolded "" text = true := by
  simp [beginsFolded, folded]

end Parlance.Text
