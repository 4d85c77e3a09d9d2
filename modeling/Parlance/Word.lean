/-!
# Words

The sizes of the machine words in which whole numbers are kept.
-/

set_option autoImplicit false

namespace Parlance.Word

/-- How many numbers a word of 64 bits can tell apart. -/
def size : Nat := 0x10000000000000000

/-- Half of that: signed words lie below it, and not below its negative. -/
def half : Nat := 0x8000000000000000

end Parlance.Word
