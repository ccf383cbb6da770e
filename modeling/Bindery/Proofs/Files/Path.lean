/-
**The parts of a path inside a folder.**

The path of a file in a folder has the parts of the folder and the name of the file behind them,
however the folder is spelt.

* `Path.components_join` — the parts of the joined path.
* `Path.components_ne_nil` — only the empty path has no part.
* `Path.components_of_ending` — the last part of a path with an extension has the extension.
-/

import Bindery.Files.Path

namespace Bindery.Path

theorem piecesFrom_append (piece before behind : List Char) :
    piecesFrom piece (before ++ '/' :: behind) = piecesFrom piece before ++ pieces behind := by
  induction before generalizing piece with
  | nil => rfl
  | cons c rest ih =>
    by_cases isSlash : c = '/'
    · simp [piecesFrom, isSlash, ih]
    · simp [piecesFrom, isSlash, ih]

theorem pieces_append (before behind : List Char) :
    pieces (before ++ '/' :: behind) = pieces before ++ pieces behind :=
  piecesFrom_append [] before behind

theorem piecesFrom_of_noSlash {name : List Char} (noSlash : '/' ∉ name) (piece : List Char) :
    piecesFrom piece name = [piece ++ name] := by
  induction name generalizing piece with
  | nil => rw [piecesFrom, List.append_nil]
  | cons c rest ih =>
    rw [List.mem_cons, not_or] at noSlash
    rw [piecesFrom, if_neg (Ne.symm noSlash.1), ih noSlash.2, List.append_assoc,
      List.singleton_append]

theorem pieces_ne_nil (path : List Char) : pieces path ≠ [] := by
  have ofPiece : ∀ (path piece : List Char), piecesFrom piece path ≠ [] := by
    intro path
    induction path with
    | nil => simp [piecesFrom]
    | cons c rest ih =>
      intro piece
      rw [piecesFrom]
      split
      · simp
      · exact ih _
  exact ofPiece path []

/-- Only the empty path is one empty piece. -/
theorem pieces_eq_empty_iff (path : List Char) : pieces path = [[]] ↔ path = [] := by
  have ofPiece : ∀ (path piece : List Char), piecesFrom piece path = [[]] →
      piece = [] ∧ path = [] := by
    intro path
    induction path with
    | nil =>
      intro piece same
      exact ⟨List.head_eq_of_cons_eq same, rfl⟩
    | cons c rest ih =>
      intro piece same
      rw [piecesFrom] at same
      split at same
      · exact absurd (List.tail_eq_of_cons_eq same) (pieces_ne_nil rest)
      · simpa using (ih _ same).1
  constructor
  · exact fun same => (ofPiece path [] same).2
  · rintro rfl
    rfl

/-- The parts of the pieces of a path. -/
def componentsOf : List (List Char) → List Component
  | [] => []
  | first :: rest => firstComponents first rest.isEmpty ++ rest.filterMap component?

theorem components_eq (path : String) : components path = componentsOf (pieces path.toList) := by
  unfold components componentsOf
  cases pieces path.toList <;> rfl

/-- A slash at the start is a part of its own. -/
theorem componentsOf_root {rest : List (List Char)} (isAny : rest ≠ []) :
    componentsOf ([] :: rest) = .root :: rest.filterMap component? := by
  obtain ⟨first, others, rfl⟩ := List.exists_cons_of_ne_nil isAny
  rfl

/-- Further pieces add their parts, if the first piece is not the whole of an empty path. -/
theorem componentsOf_append {parts : List (List Char)} (isAny : parts ≠ [])
    (notEmpty : parts ≠ [[]]) (others : List (List Char)) :
    componentsOf (parts ++ others) = componentsOf parts ++ others.filterMap component? := by
  obtain ⟨first, rest, rfl⟩ := List.exists_cons_of_ne_nil isAny
  have sameFirst : firstComponents first (rest ++ others).isEmpty =
      firstComponents first rest.isEmpty := by
    cases rest with
    | nil =>
      have isAnyFirst : first.isEmpty = false := by
        rw [List.isEmpty_eq_false_iff]
        rintro rfl
        exact notEmpty rfl
      simp [firstComponents, isAnyFirst]
    | cons other more => rfl
  rw [List.cons_append, componentsOf, componentsOf, sameFirst, List.filterMap_append,
    List.append_assoc]

/-! ### Paths of names -/

/-- The text of a part that is a name. -/
def nameOf? : Component → Option String
  | .name text => some text
  | _ => none

/-- Every part of a path is a name. -/
def IsOrdinary (path : String) : Prop := ∀ part ∈ components path, (nameOf? part).isSome = true

instance (path : String) : Decidable (IsOrdinary path) :=
  inferInstanceAs (Decidable (∀ part ∈ components path, (nameOf? part).isSome = true))

/-- The names among the parts of a path. -/
def names (path : String) : List String := (components path).filterMap nameOf?

namespace IsOrdinary

variable {path : String}

theorem components_eq_map (ordinary : IsOrdinary path) :
    components path = (names path).map .name := by
  unfold IsOrdinary at ordinary
  rw [names]
  generalize components path = parts at ordinary
  induction parts with
  | nil => rfl
  | cons part rest ih =>
    rw [List.forall_mem_cons] at ordinary
    cases part with
    | name text => exact congrArg (Component.name text :: ·) (ih ordinary.2)
    | root => cases ordinary.1
    | current => cases ordinary.1
    | parent => cases ordinary.1

/-- The first piece of a path of names counts as the others do. -/
theorem componentsOf_pieces (ordinary : IsOrdinary path) :
    components path = (pieces path.toList).filterMap component? := by
  unfold IsOrdinary at ordinary
  rw [components_eq] at ordinary ⊢
  cases parts : pieces path.toList with
  | nil => rfl
  | cons first rest =>
    have sameFirst : firstComponents first rest.isEmpty = (component? first).toList := by
      have areNames := fun part isFirst => ordinary part (by
        rw [parts, componentsOf]
        exact List.mem_append_left _ isFirst)
      by_cases isEmpty : first = []
      · subst isEmpty
        cases rest with
        | nil => rfl
        | cons other more => exact absurd (areNames .root (List.mem_singleton_self _)) (by decide)
      · by_cases isDot : first = ['.']
        · subst isDot
          exact absurd (areNames .current (List.mem_singleton_self _)) (by decide)
        · rw [firstComponents, if_neg (by simpa using isEmpty), if_neg isDot]
    rw [componentsOf, sameFirst, List.filterMap_cons]
    cases component? first <;> rfl

theorem head?_ne (ordinary : IsOrdinary path) : path.toList.head? ≠ some '/' := by
  intro isRoot
  obtain ⟨rest, isPath⟩ := List.head?_eq_some_iff.mp isRoot
  unfold IsOrdinary at ordinary
  rw [components_eq, isPath] at ordinary
  have isFirst : pieces ('/' :: rest) = [] :: pieces rest := rfl
  rw [isFirst, componentsOf_root (pieces_ne_nil rest)] at ordinary
  exact absurd (ordinary .root (List.mem_cons_self ..)) (by decide)

end IsOrdinary

/-- A name that is one part of a path. -/
structure IsPlain (name : String) : Prop where
  noSlash : '/' ∉ name.toList
  counts : component? name.toList = some (.name name)

namespace IsPlain

instance (name : String) : Decidable (IsPlain name) :=
  decidable_of_iff ('/' ∉ name.toList ∧ component? name.toList = some (.name name))
    ⟨fun ⟨noSlash, counts⟩ => ⟨noSlash, counts⟩, fun plain => ⟨plain.noSlash, plain.counts⟩⟩

variable {name : String}

theorem head?_ne (plain : IsPlain name) : name.toList.head? ≠ some '/' :=
  fun isRoot => plain.noSlash (List.mem_of_mem_head? isRoot)

theorem pieces_eq (plain : IsPlain name) : pieces name.toList = [name.toList] :=
  piecesFrom_of_noSlash plain.noSlash []

theorem isVoidPiece_eq (plain : IsPlain name) : isVoidPiece name.toList = false := by
  have counts := plain.counts
  unfold component? at counts
  split at counts
  next => simp at counts
  next notVoid => exact Bool.not_eq_true _ ▸ notVoid

theorem firstComponents_eq (plain : IsPlain name) (isOnly : Bool) :
    firstComponents name.toList isOnly = [.name name] := by
  have notVoid := plain.isVoidPiece_eq
  rw [isVoidPiece, Bool.or_eq_false_iff] at notVoid
  rw [firstComponents, if_neg (by simp [notVoid.1]), if_neg (by simpa using notVoid.2),
    plain.counts]
  rfl

theorem components_eq (plain : IsPlain name) : components name = [.name name] := by
  rw [Path.components_eq, plain.pieces_eq, componentsOf, plain.firstComponents_eq]
  rfl

theorem isOrdinary (plain : IsPlain name) : IsOrdinary name := by
  unfold IsOrdinary
  rw [plain.components_eq]
  simp [nameOf?]

end IsPlain

/-- The pieces of a joined path: behind a slash that ends the folder, or behind a new one. -/
theorem pieces_join (folder : String) {inner : String}
    (isRelative : inner.toList.head? ≠ some '/') :
    folder = "" ∧ pieces (join folder inner).toList = pieces inner.toList ∨
      (∃ before, folder.toList = before ++ ['/'] ∧
        pieces (join folder inner).toList = pieces before ++ pieces inner.toList) ∨
      folder ≠ "" ∧
        pieces (join folder inner).toList = pieces folder.toList ++ pieces inner.toList := by
  rw [join, if_neg isRelative]
  by_cases isClosed : folder.isEmpty = true ∨ folder.toList.getLast? = some '/'
  · rw [if_pos isClosed, String.toList_append]
    rcases isClosed with isEmpty | isSlash
    · rw [String.isEmpty_iff.mp isEmpty]
      exact .inl ⟨rfl, rfl⟩
    · obtain ⟨before, isBefore⟩ := List.getLast?_eq_some_iff.mp isSlash
      refine .inr (.inl ⟨before, isBefore, ?_⟩)
      rw [isBefore, List.append_assoc, List.singleton_append, pieces_append]
  · rw [if_neg isClosed, String.toList_append, String.toList_append, List.append_assoc]
    rw [not_or] at isClosed
    exact .inr (.inr ⟨fun isEmpty => isClosed.1 (String.isEmpty_iff.mpr isEmpty),
      pieces_append ..⟩)

/-- A path of names in a folder has the parts of the folder and its own names. -/
theorem components_join_of_ordinary (folder : String) {inner : String}
    (ordinary : IsOrdinary inner) :
    components (join folder inner) = components folder ++ components inner := by
  rw [ordinary.componentsOf_pieces, components_eq, components_eq folder]
  rcases pieces_join folder ordinary.head?_ne with
    ⟨rfl, parts⟩ | ⟨before, isBefore, parts⟩ | ⟨isAny, parts⟩
  · rw [parts, ← components_eq, ordinary.componentsOf_pieces]
    rfl
  · rw [parts, isBefore, pieces_append]
    by_cases isRoot : pieces before = [[]]
    · rw [isRoot, List.singleton_append, componentsOf_root (pieces_ne_nil _)]
      rfl
    · rw [componentsOf_append (pieces_ne_nil _) isRoot]
      show _ = componentsOf (pieces before ++ [[]]) ++ _
      rw [componentsOf_append (pieces_ne_nil _) isRoot]
      simp [component?, isVoidPiece]
  · have notEmpty : pieces folder.toList ≠ [[]] := by
      rw [Ne, pieces_eq_empty_iff]
      exact fun isEmpty => isAny (String.toList_eq_nil_iff.mp isEmpty)
    rw [parts, componentsOf_append (pieces_ne_nil _) notEmpty]

/-- A file in a folder has the parts of the folder and its own name. -/
theorem components_join (folder : String) {name : String} (plain : IsPlain name) :
    components (join folder name) = components folder ++ [.name name] := by
  rw [components_join_of_ordinary folder plain.isOrdinary, plain.components_eq]

/-- Only the empty path has no part. -/
theorem components_ne_nil {path : String} (notEmpty : path ≠ "") : components path ≠ [] := by
  rw [components_eq]
  cases parts : pieces path.toList with
  | nil => exact absurd parts (pieces_ne_nil _)
  | cons first rest =>
    intro isNil
    rw [componentsOf, List.append_eq_nil_iff] at isNil
    unfold firstComponents at isNil
    by_cases isEmpty : first.isEmpty = true
    · rw [if_pos isEmpty] at isNil
      have noRest : rest = [] := by simpa using isNil.1
      rw [noRest, List.isEmpty_iff.mp isEmpty] at parts
      exact notEmpty (String.toList_eq_nil_iff.mp ((pieces_eq_empty_iff _).mp parts))
    · rw [if_neg isEmpty] at isNil
      by_cases isDot : first = ['.']
      · simp [isDot] at isNil
      · rw [if_neg isDot] at isNil
        have isVoid : isVoidPiece first = false := by simp [isVoidPiece, isEmpty, isDot]
        unfold component? at isNil
        rw [isVoid] at isNil
        by_cases isParent : first = ['.', '.'] <;> simp [isParent] at isNil

/-- What a path ends in without a slash, its last piece ends in. -/
theorem piecesFrom_of_ending {ending : List Char} (noSlash : '/' ∉ ending)
    (path piece : List Char) :
    ∃ before last, piecesFrom piece (path ++ ending) = before ++ [last ++ ending] := by
  induction path generalizing piece with
  | nil => exact ⟨[], piece, piecesFrom_of_noSlash noSlash piece⟩
  | cons c rest ih =>
    by_cases isSlash : c = '/'
    · obtain ⟨before, last, parts⟩ := ih []
      exact ⟨piece :: before, last, by simp [piecesFrom, isSlash, parts]⟩
    · obtain ⟨before, last, parts⟩ := ih (piece ++ [c])
      exact ⟨before, last, by simp [piecesFrom, isSlash, parts]⟩

/-- A path that ends in enough characters, none of them a slash, ends in a name that does. -/
theorem components_of_ending {path : String} {ending : List Char} (noSlash : '/' ∉ ending)
    (long : 2 < ending.length) (ends : ending <:+ path.toList) :
    ∃ before name, components path = before ++ [.name name] ∧ ending <:+ name.toList := by
  obtain ⟨front, whole⟩ := ends
  obtain ⟨before, last, parts⟩ := piecesFrom_of_ending noSlash front []
  have isLong : 2 < (last ++ ending).length := by
    rw [List.length_append]
    omega
  have isVoid : isVoidPiece (last ++ ending) = false := by
    rw [isVoidPiece, Bool.or_eq_false_iff, List.isEmpty_eq_false_iff, beq_eq_false_iff_ne]
    constructor <;> intro same <;> simp [same] at isLong
  have counts : component? (last ++ ending) = some (.name (String.ofList (last ++ ending))) := by
    have noParent : last ++ ending ≠ ['.', '.'] := by
      intro same
      simp [same] at isLong
    simp [component?, isVoid, noParent]
  have isName : ending <:+ (String.ofList (last ++ ending)).toList := by
    rw [@String.toList_ofList (last ++ ending)]
    exact List.suffix_append ..
  rw [components_eq, ← whole, pieces, parts]
  cases before with
  | nil =>
    refine ⟨[], _, ?_, isName⟩
    rw [isVoidPiece, Bool.or_eq_false_iff] at isVoid
    rw [List.nil_append, componentsOf, firstComponents, if_neg (by simp [isVoid.1]),
      if_neg (by simpa using isVoid.2), counts]
    rfl
  | cons first rest =>
    refine ⟨firstComponents first (rest ++ [last ++ ending]).isEmpty ++
      rest.filterMap component?, _, ?_, isName⟩
    rw [List.cons_append, componentsOf, List.filterMap_append, List.filterMap_cons, counts,
      List.append_assoc]
    rfl

/-- A path that ends with a name asks for no folder. -/
theorem asksForFolder_join (folder : String) {name : String} (plain : IsPlain name) :
    asksForFolder (join folder name) = false := by
  have isLast : ∃ before, pieces (join folder name).toList = before ++ [name.toList] := by
    rw [← plain.pieces_eq]
    rcases pieces_join folder plain.head?_ne with ⟨_, parts⟩ | ⟨before, _, parts⟩ | ⟨_, parts⟩
    · exact ⟨[], parts⟩
    · exact ⟨_, parts⟩
    · exact ⟨_, parts⟩
  obtain ⟨before, parts⟩ := isLast
  rw [asksForFolder, parts, List.reverse_append]
  cases before.reverse with
  | nil => rfl
  | cons first rest => exact plain.isVoidPiece_eq

end Bindery.Path
