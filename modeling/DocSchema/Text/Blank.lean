import DocSchema.Text.CharSet

/-!
# White space

The characters that separate, of every script, and trimming by them.
-/

namespace DocSchema.Text

/-- The white-space characters: 25 of them, six below the code point 128. -/
def blanks : CharSet := [
  (9, 13), (32, 32), (133, 133), (160, 160), (5760, 5760), (8192, 8202), (8232, 8233), (8239, 8239),
  (8287, 8287), (12288, 12288)]

def isBlank (c : Char) : Bool := blanks.has c

def trimStart (cs : List Char) : List Char := cs.dropWhile isBlank

def trimEnd (cs : List Char) : List Char := (cs.reverse.dropWhile isBlank).reverse

def trim (cs : List Char) : List Char := trimEnd (trimStart cs)

end DocSchema.Text
