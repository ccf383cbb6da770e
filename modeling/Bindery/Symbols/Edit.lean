/-
**Edits: the steps in which a symbol table is filled.**

An edit switches a header or puts one element into a scope. Every source of definitions becomes a
list of edits, and a table is what they leave when they are applied in order.
-/

import Bindery.Symbols.Table

namespace Bindery.Symbols

/-- Something that a scope can take in. -/
inductive Element where
  | constant (constant : Constant)
  | enumeration (enumeration : Enumeration)
  | typeAlias (newAlias : TypedName)
  | globalVariable (newVariable : TypedName)
  | function (function : Function)
  | classDefinition (newClass : Class)

/-- The name under which a scope keeps an element. -/
def Element.name : Element → String
  | .constant c => c.name
  | .enumeration e => e.name
  | .typeAlias a => a.name
  | .globalVariable v => v.name
  | .function f => f.name
  | .classDefinition c => c.name

/-- One step. -/
inductive Edit where
  /-- Switches a header on or off. -/
  | enable (header : String) (enabled : Bool)
  /-- Puts an element into a scope of a header. -/
  | add (header scope : String) (element : Element)

namespace Table

/-- Puts an element into a scope. -/
def add (table : Table) (header scope : String) : Element → Table
  | .constant c => table.addConstant c header scope
  | .enumeration e => table.addEnumeration e header scope
  | .typeAlias a => table.addAlias a header scope
  | .globalVariable v => table.addVariable v header scope
  | .function f => table.addFunction f header scope
  | .classDefinition c => table.addClass c header scope

/-- The table behind one step. -/
def apply (table : Table) : Edit → Table
  | .enable header enabled => table.setEnabled header enabled
  | .add header scope element => table.add header scope element

/-- The table behind all steps. -/
def applyAll (table : Table) (edits : List Edit) : Table := edits.foldl apply table

theorem applyAll_append (table : Table) (first second : List Edit) :
    table.applyAll (first ++ second) = (table.applyAll first).applyAll second :=
  List.foldl_append ..

end Table

end Bindery.Symbols
