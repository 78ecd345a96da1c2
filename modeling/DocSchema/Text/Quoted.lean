import DocSchema.Text.InvisibleTable

/-!
# Quoted text

Two ways to put a text between quotes. `json` escapes the quote, the backslash and the controls
below the blank, and leaves every other character as it is. `inspected` is meant for reading: it
shows a character as itself only if it has a glyph of its own, and names every other one by its code
point.
-/

namespace DocSchema.Text.Quoted

/-- A digit of base sixteen, in lower case. -/
def hexDigit (n : Nat) : Char :=
  if n < 10 then Char.ofNat (48 + n) else Char.ofNat (87 + n)

/-- A number in base sixteen, without leading zeros. -/
def hex (n : Nat) : List Char :=
  if n < 16 then [hexDigit n] else hex (n / 16) ++ [hexDigit (n % 16)]
termination_by n
decreasing_by omega

/-- The written form of one character in JSON. -/
def jsonChar (c : Char) : List Char :=
  if c = '"' then ['\\', '"']
  else if c = '\\' then ['\\', '\\']
  else if c.toNat = 8 then ['\\', 'b']
  else if c.toNat = 9 then ['\\', 't']
  else if c.toNat = 10 then ['\\', 'n']
  else if c.toNat = 12 then ['\\', 'f']
  else if c.toNat = 13 then ['\\', 'r']
  else if c.toNat < 32 then
    ['\\', 'u', '0', '0', hexDigit (c.toNat / 16), hexDigit (c.toNat % 16)]
  else [c]

def json (cs : List Char) : List Char := '"' :: (cs.flatMap jsonChar ++ ['"'])

/-- The written form of one character in an inspected text. -/
def inspectedChar (c : Char) : List Char :=
  if c = '"' then ['\\', '"']
  else if c = '\\' then ['\\', '\\']
  else if c.toNat = 0 then ['\\', '0']
  else if c.toNat = 9 then ['\\', 't']
  else if c.toNat = 10 then ['\\', 'n']
  else if c.toNat = 13 then ['\\', 'r']
  else if extending.has c || invisible.has c then
    ['\\', 'u', '\x7b'] ++ hex c.toNat ++ ['\x7d']
  else [c]

def inspected (cs : List Char) : List Char := '"' :: (cs.flatMap inspectedChar ++ ['"'])

end DocSchema.Text.Quoted
