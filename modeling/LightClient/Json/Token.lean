import LightClient.Binary64.Shortest
import LightClient.Json.Numeral

/-!
# Tokens of a JSON text

A JSON text is cut into punctuation, texts and other literals. `Token.scan` reads a text and
`Token.render` writes one token; a written text has no blanks between its tokens.
-/
namespace LightClient.Json

/-- A piece of a JSON text. -/
inductive Token where
  | openArray
  | closeArray
  | openObject
  | closeObject
  | comma
  | colon
  /-- A text between quotes, or nothing if half of a surrogate pair occurs in it. -/
  | text (value : Option String)
  /-- Any other value that is a single token. -/
  | literal (value : Json)

namespace Token

/-- What the scanner is in the middle of. What it has read of a token is kept in reverse. -/
inductive Mode where
  | between
  | word (letters : List Char)
  | numeral (chars : List Char)
  | text (codes : List Nat)
  | escape (codes : List Nat)
  /-- Inside a four-digit escape of which `missing + 1` digits are still to come. -/
  | unicode (codes : List Nat) (value missing : Nat)

/-- The code points of a text from codes in reverse, where an escaped surrogate pair is one. -/
def joinPairs (after : List Char) : List Nat → Option (List Char)
  | [] => some after
  | code :: rest =>
    if code < 0xd800 ∨ 0xe000 ≤ code then joinPairs (Char.ofNat code :: after) rest
    else match rest with
      | high :: rest =>
        if 0xdc00 ≤ code ∧ 0xd800 ≤ high ∧ high < 0xdc00 then
          joinPairs (Char.ofNat (0x10000 + 0x400 * (high - 0xd800) + (code - 0xdc00)) :: after) rest
        else none
      | [] => none

/-- The text token for codes in reverse. -/
def ofCodes (codes : List Nat) : Token := .text ((joinPairs [] codes).map String.ofList)

/-- The literal that a word stands for. -/
def ofWord? (letters : List Char) : Option Token :=
  if letters = "null".toList then some (.literal .null)
  else if letters = "true".toList then some (.literal (.bool true))
  else if letters = "false".toList then some (.literal (.bool false))
  else none

/-- The literal that a numeral stands for. -/
def ofNumeral? (chars : List Char) : Option Token :=
  (Numeral.ofChars? chars).map fun x => .literal x.value

/-- Whether a character can stand in a numeral. -/
def isNumeralChar (c : Char) : Bool :=
  c.isDigit || c == '-' || c == '+' || c == '.' || c == 'e' || c == 'E'

/-- What a character does outside any token: it is blank, is a token, or starts one. -/
def start? (done : List Token) (c : Char) : Option (List Token × Mode) :=
  if c = ' ' ∨ c = '\t' ∨ c = '\n' ∨ c = '\r' then some (done, .between)
  else if c = '[' then some (.openArray :: done, .between)
  else if c = ']' then some (.closeArray :: done, .between)
  else if c = '\x7b' then some (.openObject :: done, .between)
  else if c = '\x7d' then some (.closeObject :: done, .between)
  else if c = ',' then some (.comma :: done, .between)
  else if c = ':' then some (.colon :: done, .between)
  else if c = '\x22' then some (done, .text [])
  else if c.isDigit ∨ c = '-' then some (done, .numeral [c])
  else if c.isAlpha then some (done, .word [c])
  else none

/-- The code that a one-letter escape stands for. -/
def escapeCode? (c : Char) : Option Nat :=
  if c = '\x22' ∨ c = '\\' ∨ c = '/' then some c.toNat
  else if c = 'b' then some 8
  else if c = 't' then some 9
  else if c = 'n' then some 10
  else if c = 'f' then some 12
  else if c = 'r' then some 13
  else none

/-- The value of a hexadecimal digit. -/
def hexValue? (c : Char) : Option Nat :=
  if c.isDigit then some (c.toNat - 48)
  else if 97 ≤ c.toNat ∧ c.toNat ≤ 102 then some (c.toNat - 87)
  else if 65 ≤ c.toNat ∧ c.toNat ≤ 70 then some (c.toNat - 55)
  else none

/-- One step of the scanner; `done` holds the finished tokens in reverse. -/
def step? (done : List Token) (mode : Mode) (c : Char) : Option (List Token × Mode) :=
  match mode with
  | .between => start? done c
  | .word letters =>
    if c.isAlpha then some (done, .word (c :: letters))
    else (ofWord? letters.reverse).bind fun token => start? (token :: done) c
  | .numeral chars =>
    if isNumeralChar c then some (done, .numeral (c :: chars))
    else (ofNumeral? chars.reverse).bind fun token => start? (token :: done) c
  | .text codes =>
    if c = '\x22' then some (ofCodes codes :: done, .between)
    else if c = '\\' then some (done, .escape codes)
    else if c.toNat < 0x20 then none
    else some (done, .text (c.toNat :: codes))
  | .escape codes =>
    if c = 'u' then some (done, .unicode codes 0 3)
    else (escapeCode? c).map fun code => (done, .text (code :: codes))
  | .unicode codes value missing =>
    (hexValue? c).map fun digit =>
      match missing with
      | 0 => (done, .text ((16 * value + digit) :: codes))
      | missing + 1 => (done, .unicode codes (16 * value + digit) missing)

/-- The finished tokens in reverse when the text ends, unless it ends within a text. -/
def finish? (done : List Token) : Mode → Option (List Token)
  | .between => some done
  | .word letters => (ofWord? letters.reverse).map (· :: done)
  | .numeral chars => (ofNumeral? chars.reverse).map (· :: done)
  | .text _ => none
  | .escape _ => none
  | .unicode _ _ _ => none

/-- Scans the rest of a text and returns all tokens in reverse. -/
def scanFrom (done : List Token) (mode : Mode) : List Char → Option (List Token)
  | [] => finish? done mode
  | c :: rest =>
    match step? done mode c with
    | some (done, mode) => scanFrom done mode rest
    | none => none

/-- The tokens of a text, if it consists of tokens and blanks. -/
def scan (text : List Char) : Option (List Token) := (scanFrom [] .between text).map List.reverse

/-- How a character is written within a text. -/
def renderChar (c : Char) : List Char :=
  if c = '\x22' ∨ c = '\\' then ['\\', c]
  else if c = '\n' then ['\\', 'n']
  else if c = '\r' then ['\\', 'r']
  else if c = '\t' then ['\\', 't']
  else if c.toNat = 8 then ['\\', 'b']
  else if c.toNat = 12 then ['\\', 'f']
  else if c.toNat < 0x20 then
    ['\\', 'u', '0', '0', Nat.digitChar (c.toNat / 16), Nat.digitChar (c.toNat % 16)]
  else [c]

/-- A text between quotes. -/
def renderText (text : String) : List Char := '\x22' :: text.toList.flatMap renderChar ++ ['\x22']

/-- The written form of a token. What cannot be read is written as null. -/
def render : Token → List Char
  | openArray => ['[']
  | closeArray => [']']
  | openObject => ['\x7b']
  | closeObject => ['\x7d']
  | comma => [',']
  | colon => [':']
  | text (some value) => renderText value
  | literal (.bool true) => "true".toList
  | literal (.bool false) => "false".toList
  | literal (.integer n) => (toString n).toList
  | literal (.decimal x) => x.text
  | _ => "null".toList

end Token

end LightClient.Json
