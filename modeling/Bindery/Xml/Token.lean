/-
**The tokens of XML documents.**

A document is cut into tags and texts; comments and processing instructions are checked and left
out. References to characters are replaced; no other entities are known.

* `nextToken?` — the token at the front of a text and what stands behind it.
* `tokens?` — all tokens of a document, which may start with a declaration.
-/

import Bindery.Text.Blank
import Bindery.Xml.Character

namespace Bindery.Xml

/-! ## Tokens -/

/-- A name with the prefix in front of its colon; without a colon the prefix is empty. -/
structure QName where
  space : List Char
  localName : List Char
deriving BEq, DecidableEq

/-- A piece of a document. -/
inductive Token where
  | startTag (name : QName) (attributes : List (QName × List Char)) (isEmpty : Bool)
  | endTag (name : QName)
  /-- A text; it is blank when it is written with nothing but spaces. -/
  | text (characters : List Char) (isBlank : Bool)

/-! ## Parts of tokens -/

/-- What stands behind the spaces at the front. -/
def skipSpaces (cs : List Char) : List Char := cs.dropWhile isSpace

/-- What stands before and behind the first occurrence of `mark`. -/
def splitAtMark? (mark : List Char) : List Char → Option (List Char × List Char)
  | [] => none
  | c :: cs =>
    match Text.dropStart? mark (c :: cs) with
    | some rest => some ([], rest)
    | none => (splitAtMark? mark cs).map fun (before, rest) => (c :: before, rest)

/-- Whether `mark` occurs in a text. -/
def hasMark (mark cs : List Char) : Bool := (splitAtMark? mark cs).isSome

/-- The name at the front of a text. -/
def name? (cs : List Char) : Option (List Char × List Char) :=
  match cs with
  | [] => none
  | c :: _ =>
    if isNameStart c then some (cs.takeWhile isNamePart, cs.dropWhile isNamePart) else none

/-- Whether a text starts like a name, or is empty. -/
def startsLikeName (cs : List Char) : Bool :=
  match cs with
  | [] => true
  | c :: _ => isNameStart c

/-- The name at the front of a text, parted at its colon; it has one colon at most. -/
def qname? (cs : List Char) : Option (QName × List Char) :=
  let word := cs.takeWhile isNamePart
  let rest := cs.dropWhile isNamePart
  let before := word.takeWhile (· ≠ ':')
  let name : QName := match word.dropWhile (· ≠ ':') with
    | [] => ⟨[], word⟩
    | _ :: behind => ⟨before, behind⟩
  if name.localName.isEmpty || name.localName.contains ':' || !startsLikeName name.space ||
      !startsLikeName name.localName then none
  else some (name, rest)

/-- The number that digits of a base spell, if there are digits and no other characters. -/
def numeral? (base : Nat) (digit? : Char → Option Nat) (cs : List Char) : Option Nat :=
  if cs.isEmpty then none
  else cs.foldlM (fun n c => (digit? c).map fun d => base * n + d) 0

/-- The value of a decimal digit. -/
def decimalDigit? (c : Char) : Option Nat :=
  if c.isDigit then some (c.toNat - '0'.toNat) else none

/-- The value of a hexadecimal digit. -/
def hexadecimalDigit? (c : Char) : Option Nat :=
  if c.isDigit then some (c.toNat - '0'.toNat)
  else if 'a' ≤ c ∧ c ≤ 'f' then some (c.toNat - 'a'.toNat + 10)
  else if 'A' ≤ c ∧ c ≤ 'F' then some (c.toNat - 'A'.toNat + 10)
  else none

/-- The character of a code that fits into 32 bits; a code without a character stands for the
replacement character. -/
def codeChar? (code : Nat) : Option Char :=
  if 0x100000000 ≤ code then none
  else
    let c := if code.isValidChar then Char.ofNat code else '\uFFFD'
    if isDocumentChar c then some c else none

/-- The character that a reference stands for, given what stands between `&` and `;`. -/
def reference? (body : List Char) : Option Char :=
  match body with
  | '#' :: 'x' :: digits => (numeral? 16 hexadecimalDigit? digits).bind codeChar?
  | '#' :: digits => (numeral? 10 decimalDigit? digits).bind codeChar?
  | word =>
    ([("quot", '"'), ("amp", '&'), ("apos", '\''), ("lt", '<'), ("gt", '>')].find?
      fun entry => entry.1.toList == word).map Prod.snd

/-- Replaces the references in a text. `body` is what is read of a reference at the front; `inLine`
says that line breaks and tabs become spaces, as they do in the value of an attribute. -/
def resolve? (inLine : Bool) (body : Option (List Char)) : List Char → Option (List Char)
  | [] => if body.isSome then none else some []
  | c :: cs =>
    match body with
    | some read =>
      if c = ';' then do
        let meant ← reference? read
        return meant :: (← resolve? inLine none cs)
      else resolve? inLine (some (read ++ [c])) cs
    | none =>
      if c = '&' then resolve? inLine (some []) cs
      else if inLine ∧ c = '\r' ∧ cs.head? = some '\n' then resolve? inLine none cs
      else
        let kept := if inLine && (c == '\n' || c == '\r' || c == '\t') then ' ' else c
        (resolve? inLine none cs).map (kept :: ·)

/-- An attribute at the front of a text: a name, an equals sign and a quoted value. -/
def attributeAt? (cs : List Char) : Option ((QName × List Char) × List Char) := do
  let (name, rest) ← qname? cs
  let '=' :: rest := skipSpaces rest | none
  let quote :: rest := skipSpaces rest | none
  if quote ≠ '"' ∧ quote ≠ '\'' then none
  let value := rest.takeWhile fun c => c ≠ quote && c ≠ '<'
  let closing :: rest := rest.drop value.length | none
  if closing = quote ∧ value.all isDocumentChar then return ((name, value), rest) else none

/-- The attributes of a tag up to its end, and whether a slash stands there. Spaces separate them;
`fuel` bounds their number. -/
def attributesAt? (fuel : Nat) (cs : List Char) :
    Option (List (QName × List Char) × Bool × List Char) :=
  match skipSpaces cs with
  | '/' :: '>' :: rest => some ([], true, rest)
  | '>' :: rest => some ([], false, rest)
  | inner =>
    match fuel with
    | 0 => none
    | fuel + 1 =>
      if (cs.head?.map isSpace).getD false then do
        let ((name, raw), rest) ← attributeAt? inner
        let value ← resolve? true none raw
        let (attributes, isEmpty, rest) ← attributesAt? fuel rest
        return ((name, value) :: attributes, isEmpty, rest)
      else none

/-! ## One token -/

/-- Behind the opening of a comment: what stands behind the comment. -/
def comment? (cs : List Char) : Option (List Char) := do
  let (text, rest) ← splitAtMark? "-->".toList cs
  if text.all isDocumentChar && !hasMark "--".toList text && text.getLast? ≠ some '-' then
    some rest
  else none

/-- Behind the opening of a processing instruction: what stands behind the instruction. -/
def instruction? (cs : List Char) : Option (List Char) := do
  if "xml ".toList.isPrefixOf cs then none
  let (_, rest) ← name? cs
  let (text, rest) ← splitAtMark? "?>".toList (skipSpaces rest)
  if text.all isDocumentChar then some rest else none

/-- Behind the opening of a section of plain characters. -/
def plainSection? (cs : List Char) : Option (Token × List Char) := do
  let (text, rest) ← splitAtMark? "]]>".toList cs
  if text.all isDocumentChar then some (.text text false, rest) else none

/-- Behind the opening of an end tag. -/
def endTag? (cs : List Char) : Option (Token × List Char) := do
  let (name, rest) ← qname? cs
  let '>' :: rest := skipSpaces rest | none
  return (.endTag name, rest)

/-- Behind the opening of a start tag. -/
def startTag? (cs : List Char) : Option (Token × List Char) := do
  let (name, rest) ← qname? cs
  let (attributes, isEmpty, rest) ← attributesAt? rest.length rest
  return (.startTag name attributes isEmpty, rest)

/-- The text up to the next tag. -/
def text? (cs : List Char) : Option (Token × List Char) := do
  let raw := cs.takeWhile (· ≠ '<')
  if raw.all isDocumentChar && !hasMark "]]>".toList raw then
    return (.text (← resolve? false none raw) (raw.all isSpace), cs.drop raw.length)
  else none

/-- The token at the front of a text and what stands behind it; comments and processing
instructions give no token. -/
def nextToken? (cs : List Char) : Option (Option Token × List Char) :=
  let found := fun (found : Token × List Char) => (some found.1, found.2)
  match cs with
  | '<' :: '!' :: rest =>
    match Text.dropStart? "--".toList rest with
    | some rest => (comment? rest).map fun rest => (none, rest)
    | none => do
      let rest ← Text.dropStart? "[CDATA[".toList rest
      (plainSection? rest).map found
  | '<' :: '?' :: rest => (instruction? rest).map fun rest => (none, rest)
  | '<' :: '/' :: rest => (endTag? rest).map found
  | '<' :: rest => (startTag? rest).map found
  | _ => (text? cs).map found

/-! ## Whole documents -/

/-- The tokens of a text; `fuel` bounds their number. -/
def tokensFrom? (fuel : Nat) (cs : List Char) : Option (List Token) :=
  match cs, fuel with
  | [], _ => some []
  | _, 0 => none
  | cs, fuel + 1 => do
    let (token, rest) ← nextToken? cs
    return token.toList ++ (← tokensFrom? fuel rest)

/-- One part of a declaration: an attribute of the given name, if it is there. -/
def declared? (word : String) (cs : List Char) : Option (List Char) :=
  if word.toList.isPrefixOf cs then (attributeAt? cs).map Prod.snd else some cs

/-- The spaces that separate two parts of a declaration. -/
def separated? (cs : List Char) : Option (List Char) :=
  if (cs.head?.map isSpace).getD true || "?>".toList.isPrefixOf cs then some (skipSpaces cs)
  else none

/-- Behind the opening of a declaration: what stands behind the declaration. A version has to be
given; an encoding and the word `standalone` may follow. -/
def declaration? (cs : List Char) : Option (List Char) := do
  let rest := skipSpaces cs
  if !"version".toList.isPrefixOf rest then none
  let rest ← separated? (← declared? "version" rest)
  let afterEncoding ← declared? "encoding" rest
  let rest ← if afterEncoding.length = rest.length then some rest else separated? afterEncoding
  let rest ← declared? "standalone" rest
  Text.dropStart? "?>".toList (skipSpaces rest)

/-- The tokens of a document. It may start with a byte order mark and a declaration. -/
def tokens? (document : String) : Option (List Token) := do
  let cs := match document.toList with
    | '\uFEFF' :: rest => rest
    | all => all
  let body ← match Text.dropStart? "<?xml ".toList cs with
    | some rest => declaration? rest
    | none => some cs
  tokensFrom? body.length body

end Bindery.Xml
