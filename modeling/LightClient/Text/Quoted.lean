import LightClient.Text.Unprintable

/-!
# Quoted text

Messages show foreign text between quotes, so that its ends and its invisible characters can be
seen. The quote itself and the backslash are marked by a backslash, NUL, tab, line feed and carriage
return have letters of their own, and any other unprintable character is written by its code point.
-/
namespace LightClient.Text

/-- How a character is written between two `quote` characters. -/
def escape (quote c : Char) : List Char :=
  if c = quote ∨ c = '\\' then ['\\', c]
  else if c = '\x00' then ['\\', '0']
  else if c = '\t' then ['\\', 't']
  else if c = '\n' then ['\\', 'n']
  else if c = '\r' then ['\\', 'r']
  else if isUnprintable c then '\\' :: 'u' :: '\x7b' :: Nat.toDigits 16 c.toNat ++ ['\x7d']
  else [c]

/-- A text between double quotes. -/
def quoted (text : String) : String :=
  String.ofList ('\x22' :: text.toList.flatMap (escape '\x22') ++ ['\x22'])

/-- A character between single quotes. -/
def quotedChar (c : Char) : String :=
  String.ofList ('\x27' :: escape '\x27' c ++ ['\x27'])

end LightClient.Text
