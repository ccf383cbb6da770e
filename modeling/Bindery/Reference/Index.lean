/-
**The index of a folder of reference documentation.**

The index lists compounds: header files, namespaces, classes and structs, each with a document of
its own. Compounds of other kinds do not count.

* `parseIndex` — the compounds of an index.
* `readIndex` — the compounds of a folder.
-/

import Bindery.Files.Disk
import Bindery.Xml.Read

namespace Bindery.Reference

open Xml

/-- The kinds of compounds. -/
inductive CompoundKind where
  | file
  | scope
  | classKind
  | structKind
deriving BEq, DecidableEq, Inhabited

namespace CompoundKind

/-- The kind of a word in the index. -/
def ofWord? : String → Option CompoundKind
  | "file" => some file
  | "namespace" => some scope
  | "class" => some classKind
  | "struct" => some structKind
  | _ => none

/-- The name of a kind. -/
def name : CompoundKind → String
  | file => "File"
  | scope => "Namespace"
  | classKind => "Class"
  | structKind => "Struct"

/-- Whether a compound of the kind describes a class. -/
def isClassLike : CompoundKind → Bool
  | classKind | structKind => true
  | _ => false

end CompoundKind

/-- An entry of the index. -/
structure Compound where
  refid : String
  kind : CompoundKind
  name : String
deriving BEq, DecidableEq, Inhabited

/-- The file that holds the document of a compound. -/
def Compound.documentName (compound : Compound) : String := compound.refid ++ ".xml"

/-- The entry of an element of the index, if it is one that counts. -/
def compound? (element : Element) : Option Compound := do
  let kind ← CompoundKind.ofWord? (← element.attribute? "kind")
  let refid ← element.attribute? "refid"
  return { refid, kind, name := element.childText "name" }

/-- What is wrong with a text that is no XML document. -/
def notXml : String := "the text is not an XML document"

/-- The compounds of an index, or what is wrong with it. -/
def parseIndex (text : String) : Except String (List Compound) :=
  match Xml.read? text with
  | none => .error notXml
  | some root =>
    if root.name = "doxygenindex" then .ok ((root.children "compound").filterMap compound?)
    else .error ("expected <doxygenindex>, found <" ++ root.name ++ ">")

/-- The compounds of a folder. -/
def readIndex (folder : String) (tree : FileTree) : Except Failure (List Compound) := do
  if !tree.isFolder folder then throw (.missingFolder folder)
  let path := Path.join folder "index.xml"
  if !tree.isFile path then throw (.missingIndex path)
  (parseIndex (← tree.textOrFail path)).mapError (.malformed path)

end Bindery.Reference
