/-
**Templates: texts with placeholders.**

A placeholder is a key between two opening and two closing braces. The value of its key stands for
it, nothing when the key has none. An opening pair that is never closed is plain text.

* `substitute` — a template text with its placeholders filled.
* `Templates.load` — the templates in a folder.
-/

import Bindery.Files.Disk
import Bindery.OrderedMap
import Bindery.Text.Blank

namespace Bindery.Wrapper

/-! ## Values -/

/-- The values of keys. -/
abbrev Values := OrderedMap String

namespace Values

/-- The values with some of them written anew. -/
def set (values : Values) (pairs : List (String × String)) : Values :=
  pairs.foldl (fun values pair => values.insert pair.1 pair.2) values

/-- The value of a key; a key without one has the empty text. -/
def textOf (values : Values) (key : String) : String := (values.get? key).getD ""

end Values

/-! ## Placeholders -/

/-- What stands before the first two marks in a row, and what stands behind them. -/
def cutAtPair? (mark : Char) : List Char → Option (List Char × List Char)
  | [] => none
  | [_] => none
  | c :: d :: rest =>
    if c = mark ∧ d = mark then some ([], rest)
    else (cutAtPair? mark (d :: rest)).map fun (before, behind) => (c :: before, behind)

theorem length_of_cutAtPair? {mark : Char} {cs before behind : List Char}
    (cut : cutAtPair? mark cs = some (before, behind)) :
    before.length + behind.length + 2 = cs.length := by
  fun_induction cutAtPair? mark cs generalizing before behind with
  | case1 => simp at cut
  | case2 => simp at cut
  | case3 c d rest isPair => simp_all
  | case4 c d rest noPair ih =>
    obtain ⟨⟨inner, outer⟩, found, same⟩ := Option.map_eq_some_iff.mp cut
    have shorter := ih found
    simp only [Prod.mk.injEq] at same
    obtain ⟨rfl, rfl⟩ := same
    simp only [List.length_cons] at shorter ⊢
    omega

/-- A text with its placeholders filled. A value that was filled in is not read again. -/
def substitute (values : Values) (text : List Char) : List Char :=
  match _ : cutAtPair? '\x7b' text with
  | none => text
  | some (before, behind) =>
    match _ : cutAtPair? '\x7d' behind with
    | none => text
    | some (key, rest) =>
      before ++ (values.textOf (String.ofList (Text.trim key))).toList ++ substitute values rest
termination_by text.length
decreasing_by
  have outer := length_of_cutAtPair? ‹cutAtPair? _ text = _›
  have inner := length_of_cutAtPair? ‹cutAtPair? _ behind = _›
  omega

/-! ## Templates by name -/

/-- Template texts by name. -/
abbrev Templates := OrderedMap String

namespace Templates

/-- The template of a name with its placeholders filled; a missing one gives no text. -/
def render (templates : Templates) (name : String) (values : Values) : String :=
  match templates.get? name with
  | some text => String.ofList (substitute values text.toList)
  | none => ""

/-- The extension of template files; their stems are the names of the templates. -/
def extension : String := "tpl"

/-- The name of the template in a file, if it is a template file. -/
def nameOfFile? (file : String) : Option String :=
  if Path.extension? file = some extension then Path.stem? file else none

/-- The template in a file of a folder. -/
def readTemplate (tree : FileTree) (folder : String) (file name : String) :
    Except Failure (String × String) :=
  let path := Path.join folder file
  match tree.text? path with
  | some text => .ok (name, text)
  | none => .error (.failedTo .readTemplate path)

/-- The templates in a folder. -/
def load (folder : String) (tree : FileTree) : Except Failure Templates := do
  if !tree.isFolder folder then throw (.missingFolder folder)
  let files := (tree.names folder).filterMap fun file =>
    (nameOfFile? file).map fun name => (file, name)
  return .ofList (← files.mapM fun (file, name) => readTemplate tree folder file name)

end Templates

end Bindery.Wrapper
