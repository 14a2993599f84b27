/-!
# Blank characters and trimming

The blank characters are those with the Unicode property `White_Space`: the ASCII blanks, the next
line, the no-break and ideographic spaces, and the typographic ones. The zero-width space and the
information separators are not among them.
-/
namespace LightClient.Text

/-- First and last code points of the runs of blank characters. -/
def blankRanges : List (Nat × Nat) :=
  [(0x9, 0xd), (0x20, 0x20), (0x85, 0x85), (0xa0, 0xa0), (0x1680, 0x1680), (0x2000, 0x200a),
    (0x2028, 0x2029), (0x202f, 0x202f), (0x205f, 0x205f), (0x3000, 0x3000)]

/-- Whether a character is blank. -/
def isBlank (c : Char) : Bool :=
  blankRanges.any fun (first, last) => first ≤ c.toNat && c.toNat ≤ last

/-- The list without its longest suffix of elements that satisfy `p`. -/
def dropEndWhile {α : Type} (p : α → Bool) (l : List α) : List α :=
  (l.reverse.dropWhile p).reverse

/-- The text without blanks at either end. -/
def trim (text : List Char) : List Char := dropEndWhile isBlank (text.dropWhile isBlank)

/-- Whether a text holds nothing but blanks. -/
def isBlankText (text : String) : Bool := (trim text.toList).isEmpty

end LightClient.Text
