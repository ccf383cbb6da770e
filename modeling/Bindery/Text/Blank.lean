/-
**Blank characters, trimming and words.**

What counts as blank is the Unicode property `White_Space`, at the ends of a text and between its
words alike.

* `trim` — a text without the blanks at its two ends.
* `words` — the maximal runs of characters that are not blank.
* `collapse` — the words of a text, one space between two of them.
-/

namespace Bindery.Text

/-- The Unicode property `White_Space`. -/
def isBlank (c : Char) : Bool :=
  let n := c.val
  (0x9 ≤ n && n ≤ 0xD) || n == 0x20 || n == 0x85 || n == 0xA0 || n == 0x1680 ||
    (0x2000 ≤ n && n ≤ 0x200A) || n == 0x2028 || n == 0x2029 || n == 0x202F || n == 0x205F ||
    n == 0x3000

/-- The characters from the first one that is not blank. -/
def trimStart (cs : List Char) : List Char := cs.dropWhile isBlank

/-- The characters up to the last one that is not blank. -/
def trimEnd (cs : List Char) : List Char := (cs.reverse.dropWhile isBlank).reverse

/-- The characters between the blanks at the two ends. -/
def trim (cs : List Char) : List Char := trimEnd (trimStart cs)

/-- The words of `cs`, where `word` is what is read so far of the word at the front. -/
def wordsFrom (word : List Char) : List Char → List (List Char)
  | [] => if word.isEmpty then [] else [word]
  | c :: cs =>
    if isBlank c then
      if word.isEmpty then wordsFrom [] cs else word :: wordsFrom [] cs
    else wordsFrom (word ++ [c]) cs

/-- The maximal runs of characters that are not blank, in order. -/
def words (cs : List Char) : List (List Char) := wordsFrom [] cs

/-- The words with one space between two of them. -/
def collapse (cs : List Char) : List Char := [' '].intercalate (words cs)

/-- `rest` when `cs` is `start` followed by `rest`. -/
def dropStart? (start : List Char) (cs : List Char) : Option (List Char) :=
  if start.isPrefixOf cs then some (cs.drop start.length) else none

/-- Writes `new` for every occurrence of the two characters `a`, `b`, from the left. -/
def replacePair (a b : Char) (new : List Char) : List Char → List Char
  | [] => []
  | [c] => [c]
  | c :: d :: cs =>
    if c = a ∧ d = b then new ++ replacePair a b new cs else c :: replacePair a b new (d :: cs)

end Bindery.Text
