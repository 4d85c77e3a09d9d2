import Parlance.Text.CaseTable

/-!
# Small letters

The full lower-case form of a text, for letters of every script. Each capital
has its small letter wherever it stands, with two exceptions: a dotted capital
I becomes two characters, and a capital sigma that ends a word becomes the
final sigma.
-/

set_option autoImplicit false

namespace Parlance.Text

/-! ## Single letters -/

/-- The small letter of a capital beyond ASCII, from its range. -/
def smallByRange (n : Nat) : Option Nat :=
  (capitalRanges.find? fun (first, last, stride, _) =>
    first ≤ n && n ≤ last && (n - first) % stride == 0).map fun (_, _, _, distance) =>
      ((n : Int) + distance).toNat

/-- The lower-case form of one character, wherever it stands. -/
def smallForm (c : Char) : List Char :=
  if c.toNat < 128 then [c.toLower]
  else if c.toNat = 0x130 then ['i', Char.ofNat 0x307]
  else
    match smallByRange c.toNat with
    | some n => [Char.ofNat n]
    | none => [c]

/-! ## The final sigma -/

/-- Some range holds the character. -/
def inRanges (ranges : List (Nat × Nat)) (c : Char) : Bool :=
  ranges.any fun (first, last) => first ≤ c.toNat && c.toNat ≤ last

/-- Going through the characters, the first that is not passed over has case. -/
def meetsCased (cs : List Char) : Bool :=
  match cs.dropWhile (inRanges passedRanges) with
  | [] => false
  | c :: _ => inRanges casedRanges c

/-- The form of a capital sigma between what stands before it, last character
first, and what follows. -/
def sigmaForm (before behind : List Char) : Char :=
  if meetsCased before && !meetsCased behind then 'ς' else 'σ'

/-! ## Texts -/

/-- Lower-case form of the rest of a text, given what stands before it, last
character first. -/
def lowerFrom (before : List Char) : List Char → List Char
  | [] => []
  | c :: cs =>
    (if c = 'Σ' then [sigmaForm before cs] else smallForm c) ++ lowerFrom (c :: before) cs

/-- The lower-case form of a text. -/
def lower (text : String) : String :=
  String.ofList (lowerFrom [] text.toList)

end Parlance.Text
