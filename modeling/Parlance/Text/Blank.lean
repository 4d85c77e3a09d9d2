/-!
# Blanks

Blank characters are the twenty-five of the Unicode property `White_Space`.
A line is cut at them into words, and a text is trimmed of them.
-/

set_option autoImplicit false

namespace Parlance.Text

/-! ## The property -/

/-- White space in the sense of the Unicode property of that name. -/
def isBlank (c : Char) : Bool :=
  let n := c.toNat
  (9 ≤ n && n ≤ 13) || n == 0x20 || n == 0x85 || n == 0xA0 || n == 0x1680 ||
    (0x2000 ≤ n && n ≤ 0x200A) || n == 0x2028 || n == 0x2029 || n == 0x202F ||
    n == 0x205F || n == 0x3000

/-- Some character of the text is blank. -/
def hasBlank (text : String) : Bool :=
  text.toList.any isBlank

/-- Every character of the text is blank; so the empty text is. -/
def allBlank (text : String) : Bool :=
  text.toList.all isBlank

/-! ## Cutting and trimming -/

/-- The stretches between the characters that `p` picks, empty ones included:
one more than there are such characters. -/
def fields (p : Char → Bool) : List Char → List (List Char)
  | [] => [[]]
  | c :: cs =>
    if p c then
      [] :: fields p cs
    else
      match fields p cs with
      | [] => [[c]]
      | w :: ws => (c :: w) :: ws

/-- The stretches without blanks, none of them empty. -/
def words (line : String) : List String :=
  ((fields isBlank line.toList).filter fun w => !w.isEmpty).map String.ofList

/-- The text without the blanks at its end. -/
def trimEnd (text : String) : String :=
  String.ofList (text.toList.reverse.dropWhile isBlank).reverse

/-- The text is empty or its last character is blank. -/
def endsBlank (text : String) : Bool :=
  match text.toList.getLast? with
  | none => true
  | some c => isBlank c

/-! ## Laws -/

theorem fields_ne_nil (p : Char → Bool) (cs : List Char) : fields p cs ≠ [] := by
  induction cs with
  | nil => simp [fields]
  | cons c cs _ =>
    unfold fields
    split
    · simp
    · split <;> simp

end Parlance.Text
