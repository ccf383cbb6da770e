/-
**JSON values.**

A value keeps what the text of a document says: members in their order with repeated keys, and
numbers as they are spelt. A string with an unpaired surrogate escape has no text.
-/

namespace Bindery

/-- A JSON value. -/
inductive Json where
  | null
  | bool (value : Bool)
  | number (spelling : List Char)
  /-- A string; it has no text when an escape in it is half of a surrogate pair. -/
  | string (text : Option String)
  | array (items : List Json)
  | object (members : List (Option String × Json))
deriving Inhabited

namespace Json

/-- The string of a text. -/
def text (value : String) : Json := .string (some value)

/-- The object of members under plain keys. -/
def record (members : List (String × Json)) : Json :=
  .object (members.map fun (key, value) => (some key, value))

mutual

/-- How many containers stand around the innermost value, the value itself included. -/
def depth : Json → Nat
  | array items => depthOfItems items + 1
  | object members => depthOfMembers members + 1
  | _ => 0

/-- The greatest depth of some values. -/
def depthOfItems : List Json → Nat
  | [] => 0
  | item :: rest => max (depth item) (depthOfItems rest)

/-- The greatest depth of the values of some members. -/
def depthOfMembers : List (Option String × Json) → Nat
  | [] => 0
  | (_, value) :: rest => max (depth value) (depthOfMembers rest)

end

mutual

/-- Whether a property holds of a value and of every value and key inside it, where a key counts
as a string. -/
def everywhere (property : Json → Bool) : Json → Bool
  | array items => property (.array items) && everywhereInItems property items
  | object members => property (.object members) && everywhereInMembers property members
  | leaf => property leaf

/-- Whether a property holds everywhere in some values. -/
def everywhereInItems (property : Json → Bool) : List Json → Bool
  | [] => true
  | item :: rest => everywhere property item && everywhereInItems property rest

/-- Whether a property holds everywhere in some members. -/
def everywhereInMembers (property : Json → Bool) : List (Option String × Json) → Bool
  | [] => true
  | (key, value) :: rest =>
    property (.string key) && everywhere property value && everywhereInMembers property rest

end

end Json

end Bindery
