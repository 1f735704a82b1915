import TreeLowering.Text.Shown
set_option autoImplicit false

/-!
# Text: quoted characters and strings

A quoted string shows its characters as they are, apart from the quote, the
backslash, a few controls with a letter of their own, and the characters that
are not shown as themselves.  A quoted character shows printable ASCII only.
-/

namespace TreeLowering.Text

/-- Lower-case hexadecimal digits, without leading zeros. -/
def hex (n : Nat) : List Char := Nat.toDigits 16 n

/-- The escape that spells a character by its code point. -/
def codeEscape (c : Char) : List Char := ['\\', 'u', '\x7b'] ++ hex c.toNat ++ ['\x7d']

/-- A character inside a quoted string. -/
def escapeInString (c : Char) : List Char :=
  if c = '\x00' then ['\\', '0']
  else if c = '\t' then ['\\', 't']
  else if c = '\r' then ['\\', 'r']
  else if c = '\n' then ['\\', 'n']
  else if c = '"' then ['\\', '"']
  else if c = '\\' then ['\\', '\\']
  else if isShown c then [c]
  else codeEscape c

/-- A quoted string. -/
def quote (s : String) : String :=
  String.ofList (['"'] ++ s.toList.flatMap escapeInString ++ ['"'])

/-- A character inside a quoted character. -/
def escapeInChar (c : Char) : List Char :=
  if c = '\t' then ['\\', 't']
  else if c = '\r' then ['\\', 'r']
  else if c = '\n' then ['\\', 'n']
  else if c = '\'' then ['\\', '\'']
  else if c = '"' then ['\\', '"']
  else if c = '\\' then ['\\', '\\']
  else if 0x20 ≤ c.toNat && c.toNat ≤ 0x7e then [c]
  else codeEscape c

/-- A quoted character. -/
def quoteChar (c : Char) : String := String.ofList (['\''] ++ escapeInChar c ++ ['\''])

end TreeLowering.Text
