/-
**Quoted text: the form that scripts use, and the form that messages use.**

In a script five characters are written with a backslash and all others as they are. In a message
whatever cannot be shown on one line is written as its code point as well.

* `quote` — the script form; `unescape?` reads the character behind a backslash.
* `unescape?_escapeLetter?` — the two agree.
* `showQuoted` — the message form.
-/

import Bindery.Text.Printable

namespace Bindery.Text

/-! ## In scripts -/

/-- The character that stands behind the backslash when `c` is written with one. -/
def escapeLetter? (c : Char) : Option Char :=
  if c = '"' then some '"'
  else if c = '\\' then some '\\'
  else if c = '\n' then some 'n'
  else if c = '\t' then some 't'
  else if c = '\r' then some 'r'
  else none

/-- The character that a backslash with `c` behind it stands for. -/
def unescape? (c : Char) : Option Char :=
  if c = 'n' then some '\n'
  else if c = 't' then some '\t'
  else if c = 'r' then some '\r'
  else if c = '"' then some '"'
  else if c = '\\' then some '\\'
  else none

theorem unescape?_escapeLetter? {c letter : Char} (escaped : escapeLetter? c = some letter) :
    unescape? letter = some c := by
  unfold escapeLetter? at escaped
  repeat' split at escaped
  all_goals simp_all
  all_goals subst_vars; decide

/-- A character as a script writes it inside quotes. -/
def escape (c : Char) : List Char :=
  match escapeLetter? c with
  | some letter => ['\\', letter]
  | none => [c]

/-- A text between quotes. -/
def quote (cs : List Char) : List Char := '"' :: cs.flatMap escape ++ ['"']

/-! ## In messages -/

/-- A character written as its code point. -/
def showCodePoint (c : Char) : List Char :=
  "\\u\x7b".toList ++ Nat.toDigits 16 c.toNat ++ ['\x7d']

/-- A character as a message shows it inside quotes. -/
def showInside (c : Char) : List Char :=
  if c = '\x00' then "\\0".toList
  else match escapeLetter? c with
    | some letter => ['\\', letter]
    | none => if extendsGrapheme c || !isPrintable c then showCodePoint c else [c]

/-- A text between quotes as a message shows it. -/
def showQuoted (cs : List Char) : List Char := '"' :: cs.flatMap showInside ++ ['"']

end Bindery.Text
