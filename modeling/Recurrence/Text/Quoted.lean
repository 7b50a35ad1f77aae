import Recurrence.Text.Unprintable

/-!
# Quoted text

Text between double quotes: the quote and the backslash are escaped, so are the tab, the ends of
line and the null character, and a character without a glyph of its own is written by its number.
-/

namespace Recurrence.Text

set_option autoImplicit false

def quotedChar (c : Char) : List Char :=
  match c with
  | '"' => ['\\', '"']
  | '\\' => ['\\', '\\']
  | '\t' => ['\\', 't']
  | '\r' => ['\\', 'r']
  | '\n' => ['\\', 'n']
  | '\x00' => ['\\', '0']
  | _ =>
    if isUnprintable c then ['\\', 'u', '\x7b'] ++ Nat.toDigits 16 c.toNat ++ ['\x7d'] else [c]

def quoted (cs : List Char) : List Char :=
  '"' :: cs.flatMap quotedChar ++ ['"']

end Recurrence.Text
