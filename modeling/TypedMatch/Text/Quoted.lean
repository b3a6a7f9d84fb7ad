import TypedMatch.Text.Coded

/-!
# Quoted text

A text stands between double quotes.  The double quote, the backslash and four controls are written
with a backslash; every other character without a form of its own is written as its code, in lower
case hexadecimal digits between braces.  A single quote needs nothing.
-/

set_option autoImplicit false

namespace TypedMatch.Text

def escape (character : Char) : List Char :=
  match character with
  | '\x00' => ['\\', '0']
  | '\t' => ['\\', 't']
  | '\r' => ['\\', 'r']
  | '\n' => ['\\', 'n']
  | '"' => ['\\', '"']
  | '\\' => ['\\', '\\']
  | plain =>
      if isCoded plain then
        ['\\', 'u', '\x7b'] ++ Nat.toDigits 16 plain.toNat ++ ['\x7d']
      else
        [plain]

def quoted (text : String) : String :=
  String.ofList ('"' :: (text.toList.flatMap escape ++ ['"']))

theorem toList_quoted (text : String) :
    (quoted text).toList = '"' :: (text.toList.flatMap escape ++ ['"']) := by
  simp [quoted]

end TypedMatch.Text
