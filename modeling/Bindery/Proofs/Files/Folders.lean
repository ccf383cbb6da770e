/-
**Files below a folder, by location.**

A path of names in a folder leads below the location of the folder, along its names. In a tree in
which everything stands in a folder, what can be read there is what stands there, and a file can be
written there once the folders on the way are made.

* `FileTree.IsProper` — everything stands in a folder.
* `FileTree.OutputFolder` — a folder that is there or can be made.
* `FileTree.OutputFolder.text?_iff` — what is read at a path is what stands at its location.
* `FileTree.OutputFolder.writes` — what writing a file below the folder leaves.
-/

import Bindery.Proofs.Files.Parent
import Bindery.Proofs.Files.Rewriting

namespace Bindery.FileTree

/-! ### Ways -/

/-- The location that names lead to. -/
def below (base : Location) (names : List String) : Location := names.reverse ++ base

theorem below_cons (base : Location) (name : String) (names : List String) :
    below base (name :: names) = below (name :: base) names := by
  simp [below]

theorem below_concat (base : Location) (names : List String) (name : String) :
    below base (names ++ [name]) = name :: below base names := by
  simp [below]

theorem below_inj {base : Location} {names others : List String}
    (same : below base names = below base others) : names = others :=
  List.reverse_inj.mp (List.append_cancel_right same)

/-- Folders stand on the way along the names; what stands at its end is left open. -/
def HasWay (tree : FileTree) (here : Location) (names : List String) : Prop :=
  ∀ outer, outer <+: names → outer ≠ names → tree.isFolderAt (below here outer) = true

theorem hasWay_cons_iff {tree : FileTree} {here : Location} {name : String} {names : List String} :
    tree.HasWay here (name :: names) ↔
      tree.isFolderAt here = true ∧ tree.HasWay (name :: here) names := by
  constructor
  · intro way
    refine ⟨way [] List.nil_prefix (List.cons_ne_nil _ _).symm, fun outer isOuter isInner => ?_⟩
    rw [← below_cons]
    exact way _ ((List.prefix_cons_inj name).mpr isOuter) fun same => isInner (List.cons.inj same).2
  · rintro ⟨isFolder, way⟩ outer isOuter isInner
    rcases List.prefix_cons_iff.mp isOuter with rfl | ⟨rest, rfl, isRest⟩
    · exact isFolder
    · rw [below_cons]
      exact way rest isRest fun same => isInner (by rw [same])

/-- What stands at the end of a way stands in a folder. -/
theorem HasWay.holder {tree : FileTree} {here : Location} {names : List String}
    (way : tree.HasWay here names) (named : names ≠ []) :
    ∃ name holder, below here names = name :: holder ∧ tree.isFolderAt holder = true := by
  obtain ⟨outer, last, rfl⟩ := (List.eq_nil_or_concat names).resolve_left named
  rw [List.concat_eq_append] at way ⊢
  exact ⟨last, below here outer, below_concat ..,
    way outer (List.prefix_append ..) (by simp)⟩

/-- Names lead somewhere along folders, if they are names that may be borne. -/
theorem foldlM_enter_names {tree : FileTree} {here location : Location} {names : List String} :
    (names.map Component.name).foldlM tree.enter here = some location ↔
      location = below here names ∧ (∀ name ∈ names, isName name = true) ∧
        tree.HasWay here names := by
  induction names generalizing here with
  | nil =>
    have noWay : tree.HasWay here [] := fun outer isOuter isInner =>
      absurd (List.prefix_nil.mp isOuter) isInner
    constructor
    · intro isHere
      exact ⟨(Option.some.inj isHere).symm, by simp, noWay⟩
    · rintro ⟨rfl, -, -⟩
      rfl
  | cons name rest ih =>
    rw [List.map_cons, List.foldlM_cons, Option.bind_eq_bind, Option.bind_eq_some_iff,
      below_cons, List.forall_mem_cons, hasWay_cons_iff]
    constructor
    · rintro ⟨next, enters, leads⟩
      rw [enter] at enters
      split at enters
      next both =>
        obtain rfl := Option.some.inj enters
        obtain ⟨isLocation, areNames, way⟩ := ih.mp leads
        obtain ⟨isFolder, short⟩ := Bool.and_eq_true_iff.mp both
        exact ⟨isLocation, ⟨short, areNames⟩, isFolder, way⟩
      next => cases enters
    · rintro ⟨isLocation, ⟨short, areNames⟩, isFolder, way⟩
      exact ⟨name :: here, by simp [enter, isFolder, short], ih.mpr ⟨isLocation, areNames, way⟩⟩

/-! ### Trees in which everything stands in a folder -/

/-- Everything but the root stands in a folder. -/
def IsProper (tree : FileTree) : Prop :=
  ∀ name here node, tree.at? (name :: here) = some node → tree.isFolderAt here = true

namespace IsProper

variable {tree : FileTree}

/-- Whether a tree is proper shows in its entries. -/
theorem of_entries (inFolders : ∀ entry ∈ tree.entries, tree.isFolderAt entry.1.tail = true) :
    tree.IsProper := by
  intro name here node isThere
  rw [at?, if_neg (by simp)] at isThere
  obtain ⟨entry, found, -⟩ := Option.map_eq_some_iff.mp isThere
  have isEntry := inFolders entry (List.mem_of_find?_eq_some found)
  have isKey : entry.1 = name :: here := by simpa using List.find?_some found
  rwa [isKey] at isEntry

/-- Folders stand on the way to whatever is there. -/
theorem hasWay (proper : tree.IsProper) {base : Location} {names : List String} {node : Node}
    (isThere : tree.at? (below base names) = some node) : tree.HasWay base names := by
  induction names using List.reverseRecOn generalizing node with
  | nil => exact fun outer isOuter isInner => absurd (List.prefix_nil.mp isOuter) isInner
  | append_singleton names last ih =>
    rw [below_concat] at isThere
    have isFolder := proper _ _ _ isThere
    intro outer isOuter isInner
    rcases List.prefix_concat_iff.mp isOuter with same | isOuter
    · exact absurd same isInner
    · by_cases isAll : outer = names
      · exact isAll ▸ isFolder
      · exact ih ((isFolderAt_iff ..).mp isFolder) outer isOuter isAll

/-- A tree stays proper when something new comes into a folder. -/
theorem set (proper : tree.IsProper) {name : String} {here : Location} {node : Node}
    (isFolder : tree.isFolderAt here = true)
    (isFree : tree.isFolderAt (name :: here) = true → node = .folder) :
    (tree.set (name :: here) node).IsProper := by
  have notRoot : name :: here ≠ [] := List.cons_ne_nil _ _
  have folders : ∀ location, tree.isFolderAt location = true →
      (tree.set (name :: here) node).isFolderAt location = true := by
    intro location isThere
    rw [isFolderAt_iff, at?_set notRoot]
    split
    next isHere => rw [isFree (isHere ▸ isThere)]
    next => exact (isFolderAt_iff ..).mp isThere
  intro other holder found isFound
  rw [at?_set notRoot] at isFound
  split at isFound
  next isHere =>
    obtain ⟨-, rfl⟩ := List.cons.inj isHere
    exact folders _ isFolder
  next => exact folders _ (proper _ _ _ isFound)

end IsProper

/-! ### Making folders -/

/-- Nothing but folders comes in when folders are made. -/
theorem at?_makeFoldersFrom {tree made : FileTree} {here : Location} {parts : List Component}
    {isMade : Bool} (makes : tree.makeFoldersFrom here parts = (made, isMade)) {location : Location}
    {node : Node} (isThere : made.at? location = some node) :
    tree.at? location = some node ∨ node = .folder := by
  induction parts generalizing tree here with
  | nil =>
    obtain ⟨rfl, -⟩ := Prod.mk.inj makes
    exact .inl isThere
  | cons part rest ih =>
    rw [makeFoldersFrom] at makes
    split at makes
    next =>
      obtain ⟨rfl, -⟩ := Prod.mk.inj makes
      exact .inl isThere
    next next _ =>
      split at makes
      next => exact ih makes
      next =>
        obtain ⟨rfl, -⟩ := Prod.mk.inj makes
        exact .inl isThere
      next isFree =>
        have notRoot : next ≠ [] := by
          rintro rfl
          cases isFree
        rcases ih makes with isOld | isFolder
        · rw [at?_set notRoot] at isOld
          split at isOld
          next => exact .inr (Option.some.inj isOld).symm
          next => exact .inl isOld
        · exact .inr isFolder

/-- Where no folder stands behind a part of a path, the part is a name. -/
theorem IsProper.name_of_enter {tree : FileTree} (proper : tree.IsProper) {here next : Location}
    {part : Component} (enters : tree.enter here part = some next)
    (noFolder : tree.isFolderAt next ≠ true) :
    ∃ name, part = .name name ∧ next = name :: here ∧ tree.isFolderAt here = true := by
  cases part with
  | root =>
    obtain rfl := Option.some.inj enters
    exact absurd rfl noFolder
  | current =>
    obtain ⟨isFolder, same⟩ := Option.ite_none_right_eq_some.mp enters
    obtain rfl := Option.some.inj same
    exact absurd isFolder noFolder
  | parent =>
    obtain ⟨isFolder, same⟩ := Option.ite_none_right_eq_some.mp enters
    obtain rfl := Option.some.inj same
    cases here with
    | nil => exact absurd isFolder noFolder
    | cons name rest =>
      exact absurd (proper _ _ _ ((isFolderAt_iff ..).mp isFolder)) noFolder
  | name text =>
    obtain ⟨both, same⟩ := Option.ite_none_right_eq_some.mp enters
    exact ⟨text, rfl, (Option.some.inj same).symm, (Bool.and_eq_true_iff.mp both).1⟩

/-- A tree stays proper when folders are made. -/
theorem IsProper.makeFoldersFrom {tree made : FileTree} (proper : tree.IsProper) {here : Location}
    {parts : List Component} {isMade : Bool}
    (makes : tree.makeFoldersFrom here parts = (made, isMade)) : made.IsProper := by
  induction parts generalizing tree here with
  | nil =>
    obtain ⟨rfl, -⟩ := Prod.mk.inj makes
    exact proper
  | cons part rest ih =>
    rw [FileTree.makeFoldersFrom] at makes
    split at makes
    next =>
      obtain ⟨rfl, -⟩ := Prod.mk.inj makes
      exact proper
    next next enters =>
      split at makes
      next => exact ih proper makes
      next =>
        obtain ⟨rfl, -⟩ := Prod.mk.inj makes
        exact proper
      next isFree =>
        have noFolder : tree.isFolderAt next ≠ true := by simp [isFolderAt_iff, isFree]
        obtain ⟨name, -, rfl, isFolder⟩ := proper.name_of_enter enters noFolder
        exact ih (proper.set isFolder fun _ => rfl) makes

/-- Making folders changes no file. -/
theorem files_makeFolders {tree made : FileTree} {folder : String} {isMade : Bool}
    (makes : tree.makeFolders folder = (made, isMade)) {location : Location} {content : Content} :
    made.at? location = some (.file content) ↔ tree.at? location = some (.file content) := by
  refine ⟨fun isThere => ?_, (extends_makeFolders makes).at? _ _⟩
  unfold makeFolders at makes
  split at makes
  next => exact (at?_makeFoldersFrom makes isThere).resolve_right nofun
  next =>
    obtain ⟨rfl, -⟩ := Prod.mk.inj makes
    exact isThere

theorem IsProper.makeFolders {tree made : FileTree} (proper : tree.IsProper) {folder : String}
    {isMade : Bool} (makes : tree.makeFolders folder = (made, isMade)) : made.IsProper := by
  unfold FileTree.makeFolders at makes
  split at makes
  next => exact proper.makeFoldersFrom makes
  next =>
    obtain ⟨rfl, -⟩ := Prod.mk.inj makes
    exact proper

/-- Unless a file is in the way, a folder is there or is made; the others are made from it on. -/
theorem makeFoldersFrom_name {tree : FileTree} {here : Location} {name : String}
    (isFolder : tree.isFolderAt here = true) (short : isName name = true)
    (noFile : ∀ content, tree.at? (name :: here) ≠ some (.file content))
    (parts : List Component) :
    ∃ after : FileTree, tree.makeFoldersFrom here (.name name :: parts) =
        after.makeFoldersFrom (name :: here) parts ∧
      ∀ location, after.at? location =
        if name :: here = location then some .folder else tree.at? location := by
  have enters : tree.enter here (.name name) = some (name :: here) := by
    simp [enter, isFolder, short]
  rw [makeFoldersFrom, enters]
  cases isThere : tree.at? (name :: here) with
  | none =>
    refine ⟨tree.set (name :: here) .folder, by simp only [isThere], ?_⟩
    exact at?_set (List.cons_ne_nil _ _) tree .folder
  | some node =>
    cases node with
    | file content => exact absurd isThere (noFile content)
    | folder =>
      refine ⟨tree, by simp only [isThere], fun location => ?_⟩
      split
      next isHere => rw [← isHere, isThere]
      next => rfl

/-- Folders are made along names unless a file is in the way, and only there. -/
theorem makeFoldersFrom_names {tree : FileTree} {here : Location} {names : List String}
    (isFolder : tree.isFolderAt here = true) (areNames : ∀ name ∈ names, isName name = true)
    (noFile : ∀ outer, outer <+: names → ∀ content,
      tree.at? (below here outer) ≠ some (.file content)) :
    ∃ made, tree.makeFoldersFrom here (names.map .name) = (made, true) ∧
      ∀ location, made.isFolderAt location = true →
        tree.isFolderAt location = true ∨
          ∃ outer, outer <+: names ∧ location = below here outer := by
  induction names generalizing tree here with
  | nil => exact ⟨tree, rfl, fun location => .inl⟩
  | cons name rest ih =>
    rw [List.forall_mem_cons] at areNames
    have isStart {outer : List String} (isOuter : outer <+: rest) :
        name :: outer <+: name :: rest :=
      (List.prefix_cons_inj name).mpr isOuter
    obtain ⟨after, same, atAfter⟩ := makeFoldersFrom_name isFolder areNames.1
      (noFile [name] (isStart List.nil_prefix)) (rest.map .name)
    have isNext : after.isFolderAt (name :: here) = true := by
      rw [isFolderAt_iff, atAfter, if_pos rfl]
    obtain ⟨made, makes, onlyThese⟩ := ih isNext areNames.2 fun outer isOuter content => by
      rw [atAfter, ← below_cons]
      split
      next => exact nofun
      next => exact noFile _ (isStart isOuter) content
    refine ⟨made, same.trans makes, fun location isThere => ?_⟩
    rcases onlyThese location isThere with isAfter | ⟨outer, isOuter, rfl⟩
    · rw [isFolderAt_iff, atAfter] at isAfter
      split at isAfter
      next isHere => exact .inr ⟨[name], isStart List.nil_prefix, isHere.symm⟩
      next => exact .inl ((isFolderAt_iff ..).mpr isAfter)
    · exact .inr ⟨name :: outer, isStart isOuter, (below_cons ..).symm⟩

/-- The folders that were made along names are there. -/
theorem isFolderAt_makeFoldersFrom_names {tree made : FileTree} {here : Location}
    {names : List String} (makes : tree.makeFoldersFrom here (names.map .name) = (made, true))
    (isFolder : made.isFolderAt here = true) {outer : List String} (isOuter : outer <+: names) :
    made.isFolderAt (below here outer) = true := by
  obtain ⟨location, leads, isLast⟩ := makeFoldersFrom_eq_true makes
  obtain ⟨rfl, -, way⟩ := foldlM_enter_names.mp leads
  by_cases isAll : outer = names
  · exact isAll ▸ isLast (.inl isFolder)
  · exact way outer isOuter isAll

/-- Folders are made one part of a path after the other. -/
theorem makeFoldersFrom_append {tree made : FileTree} {here base : Location}
    {parts others : List Component} (makes : tree.makeFoldersFrom here parts = (made, true))
    (leads : parts.foldlM made.enter here = some base) :
    tree.makeFoldersFrom here (parts ++ others) = made.makeFoldersFrom base others := by
  induction parts generalizing tree here with
  | nil =>
    obtain ⟨rfl, -⟩ := Prod.mk.inj makes
    obtain rfl := Option.some.inj leads
    rfl
  | cons part rest ih =>
    have kept := (extends_makeFoldersFrom makes).keepsFolders
    rw [List.cons_append, makeFoldersFrom]
    rw [makeFoldersFrom] at makes
    cases enters : tree.enter here part with
    | none => simp [enters] at makes
    | some next =>
      rw [List.foldlM_cons, kept.enter enters] at leads
      cases isThere : tree.at? next with
      | none =>
        simp only [enters, isThere] at makes ⊢
        exact ih makes leads
      | some node =>
        cases node with
        | file content => simp [enters, isThere] at makes
        | folder =>
          simp only [enters, isThere] at makes ⊢
          exact ih makes leads

/-! ### Folders in front of a file -/

/-- Where a path goes on, there is a folder, unless it starts anew at the root. -/
theorem isFolderAt_of_enter {tree : FileTree} {here next : Location} {part : Component}
    (enters : tree.enter here part = some next) (notRoot : part ≠ .root) :
    tree.isFolderAt here = true := by
  cases part with
  | root => exact absurd rfl notRoot
  | current => exact (Option.ite_none_right_eq_some.mp enters).1
  | parent => exact (Option.ite_none_right_eq_some.mp enters).1
  | name text => exact (Bool.and_eq_true_iff.mp (Option.ite_none_right_eq_some.mp enters).1).1

/-- The folders on the way to something are there. -/
theorem makeFoldersFrom_of_leads {tree : FileTree} {here location : Location}
    {parts : List Component} {last : Component} (noRoot : .root ∉ (parts ++ [last]).tail)
    (leads : (parts ++ [last]).foldlM tree.enter here = some location) :
    tree.makeFoldersFrom here parts = (tree, true) := by
  induction parts generalizing here with
  | nil => rfl
  | cons part rest ih =>
    rw [List.cons_append, List.foldlM_cons] at leads
    obtain ⟨next, enters, leadsOn⟩ := Option.bind_eq_some_iff.mp leads
    rw [List.cons_append, List.tail_cons] at noRoot
    have isFolder : tree.isFolderAt next = true := by
      obtain ⟨second, others, areMore⟩ :=
        List.exists_cons_of_ne_nil (show rest ++ [last] ≠ [] by simp)
      rw [areMore, List.foldlM_cons] at leadsOn
      obtain ⟨_, entersOn, -⟩ := Option.bind_eq_some_iff.mp leadsOn
      exact isFolderAt_of_enter entersOn fun isRoot => noRoot (by simp [areMore, isRoot])
    rw [makeFoldersFrom, enters]
    simp only [(isFolderAt_iff ..).mp isFolder]
    exact ih (fun isLater => noRoot (List.mem_of_mem_tail isLater)) leadsOn

/-- A path that leads to no folder ends in a name, which stands in a folder. -/
theorem IsProper.name_of_locate? {tree : FileTree} (proper : tree.IsProper) {path : String}
    {location : Location} (isThere : tree.locate? path = some location)
    (noFolder : tree.isFolderAt location = false) :
    isPath path = true ∧ ∃ before name here,
      Path.components path = before ++ [.name name] ∧
        (Path.components path).foldlM tree.enter tree.working = some location ∧
        location = name :: here ∧ tree.isFolderAt here = true := by
  unfold locate? at isThere
  split at isThere
  next => cases isThere
  next isNoPath =>
    obtain ⟨notEmpty, accepted⟩ : path ≠ "" ∧ isPath path = true := by simpa using isNoPath
    obtain ⟨before, last, areParts⟩ :=
      (List.eq_nil_or_concat (Path.components path)).resolve_left (Path.components_ne_nil notEmpty)
    rw [List.concat_eq_append] at areParts
    have leads := isThere
    rw [areParts, List.foldlM_append] at leads
    obtain ⟨here, -, leadsOn⟩ := Option.bind_eq_some_iff.mp leads
    have isLast : tree.enter here last = some location := by simpa using leadsOn
    obtain ⟨name, rfl, isLocation, isFolder⟩ :=
      proper.name_of_enter isLast (Bool.eq_false_iff.mp noFolder)
    exact ⟨accepted, before, name, here, areParts, isThere, isLocation, isFolder⟩

/-- The folders in front of a file that can be read are there. -/
theorem IsProper.makeFolders_parent {tree : FileTree} (proper : tree.IsProper) {path text : String}
    (isText : tree.text? path = some text) :
    ∃ parent, Path.parent? path = some parent ∧ tree.makeFolders parent = (tree, true) := by
  obtain ⟨location, isThere, isFile, isClosed⟩ := text?_eq_some_iff.mp isText
  have noFolder : tree.isFolderAt location = false := by
    rw [isFolderAt, isFile]
    rfl
  obtain ⟨accepted, before, name, -, areParts, leads, -⟩ := proper.name_of_locate? isThere noFolder
  obtain ⟨parent, isParent, parentParts, isStart⟩ := Path.parent?_of_name isClosed areParts
  have noRoot := Path.root_notMem_tail path
  rw [areParts] at leads noRoot
  refine ⟨parent, isParent, ?_⟩
  rw [FileTree.makeFolders, if_pos (isPath_of_isStart isStart accepted), parentParts]
  exact makeFoldersFrom_of_leads noRoot leads

/-! ### Files below a folder -/

/-- A path of names in a folder leads along the names, from where the folder is. -/
theorem locate?_join_of_ordinary {tree : FileTree} {folder path : String} {location : Location}
    (ordinary : Path.IsOrdinary path)
    (isThere : tree.locate? (Path.join folder path) = some location) :
    isPath (Path.join folder path) = true ∧ ∃ base,
      (Path.components folder).foldlM tree.enter tree.working = some base ∧
        location = below base (Path.names path) ∧ ∀ name ∈ Path.names path, isName name = true := by
  unfold locate? at isThere
  split at isThere
  next => cases isThere
  next isNoPath =>
    have accepted : Path.join folder path ≠ "" ∧ isPath (Path.join folder path) = true := by
      simpa using isNoPath
    rw [Path.components_join_of_ordinary folder ordinary, ordinary.components_eq_map,
      List.foldlM_append] at isThere
    obtain ⟨base, leads, along⟩ := Option.bind_eq_some_iff.mp isThere
    obtain ⟨isLocation, areNames, -⟩ := foldlM_enter_names.mp along
    exact ⟨accepted.2, base, leads, isLocation, areNames⟩

/-- A folder is there at a location, or can be made where nothing stands. -/
structure OutputFolder (tree made : FileTree) (folder : String) (base : Location) : Prop where
  makes : tree.makeFolders folder = (made, true)
  leads : (Path.components folder).foldlM made.enter made.working = some base
  isFolder : made.isFolderAt base = true
  isNew : made = tree ∨ tree.at? base = none

/-- Nothing is in the way of a file below a folder: no file where a folder should be, and no folder
in its own place. -/
structure IsClear (tree : FileTree) (base : Location) (names : List String) : Prop where
  noFile : ∀ outer, outer <+: names → outer ≠ names → ∀ content,
    tree.at? (below base outer) ≠ some (.file content)
  noFolder : tree.isFolderAt (below base names) = false

/-- Whether nothing is in the way shows at the starts of the names. -/
theorem IsClear.of_inits {tree : FileTree} {base : Location} {names : List String}
    (onTheWay : ∀ outer ∈ names.inits, outer ≠ names →
      tree.at? (below base outer) = some .folder ∨ tree.at? (below base outer) = none)
    (noFolder : tree.isFolderAt (below base names) = false) : tree.IsClear base names := by
  refine ⟨fun outer isOuter isInner content isFile => ?_, noFolder⟩
  rcases onTheWay outer ((List.mem_inits ..).mpr isOuter) isInner with isFolder | isFree
  · exact nomatch isFolder.symm.trans isFile
  · exact nomatch isFree.symm.trans isFile

/-- The file system takes the path of a file in a folder: neither the path nor a name in it is too
long, and the path does not end as only the path of a folder may. -/
structure TakesPath (folder path : String) : Prop where
  isPath : isPath (Path.join folder path) = true
  areNames : ∀ name ∈ Path.names path, isName name = true
  noFolder : Path.asksForFolder (Path.join folder path) = false

instance (folder path : String) : Decidable (TakesPath folder path) :=
  decidable_of_iff (FileTree.isPath (Path.join folder path) = true ∧
      (∀ name ∈ Path.names path, isName name = true) ∧
      Path.asksForFolder (Path.join folder path) = false)
    ⟨fun ⟨isPath, areNames, noFolder⟩ => ⟨isPath, areNames, noFolder⟩,
      fun takes => ⟨takes.isPath, takes.areNames, takes.noFolder⟩⟩

namespace OutputFolder

variable {tree made other : FileTree} {folder path text : String} {base : Location}

theorem extends_made (output : OutputFolder tree made folder base) : Extends tree made :=
  extends_makeFolders output.makes

/-- Once the folder is made, it stays the folder as long as no folder is taken away. -/
theorem again (output : OutputFolder tree made folder base) (kept : KeepsFolders made other) :
    OutputFolder other other folder base where
  makes := makeFolders_again output.makes kept
  leads := by
    rw [kept.working]
    exact kept.foldlM_enter output.leads
  isFolder := kept.isFolderAt _ output.isFolder
  isNew := .inl rfl

/-- A path that leads somewhere in the folder leads below its location. -/
theorem locate?_join (output : OutputFolder tree made folder base)
    (ordinary : Path.IsOrdinary path) {location : Location}
    (isThere : tree.locate? (Path.join folder path) = some location) :
    location = below base (Path.names path) := by
  obtain ⟨-, here, leads, isLocation, -⟩ := locate?_join_of_ordinary ordinary isThere
  have grown := output.extends_made
  have isBase := output.leads
  rw [grown.working, grown.keepsFolders.foldlM_enter leads] at isBase
  obtain rfl := Option.some.inj isBase
  exact isLocation

/-- A path in the folder leads below its location if there are folders on the way. -/
theorem locate?_of_hasWay (output : OutputFolder tree tree folder base)
    (ordinary : Path.IsOrdinary path) (named : Path.names path ≠ []) (takes : TakesPath folder path)
    (way : tree.HasWay base (Path.names path)) :
    tree.locate? (Path.join folder path) = some (below base (Path.names path)) := by
  have areParts := Path.components_join_of_ordinary folder ordinary
  rw [ordinary.components_eq_map] at areParts
  have isAny : Path.join folder path ≠ "" := by
    intro isEmpty
    rw [isEmpty, show Path.components "" = [] from by decide] at areParts
    exact named (List.map_eq_nil_iff.mp (List.append_eq_nil_iff.mp areParts.symm).2)
  rw [FileTree.locate?, if_neg (by simp [isAny, takes.isPath]), areParts, List.foldlM_append,
    output.leads]
  exact foldlM_enter_names.mpr ⟨rfl, takes.areNames, way⟩

/-- What is read at a path in the folder is what stands at its location. -/
theorem text?_iff (output : OutputFolder tree made folder base) (proper : tree.IsProper)
    (ordinary : Path.IsOrdinary path) (named : Path.names path ≠ [])
    (takes : TakesPath folder path) :
    tree.text? (Path.join folder path) = some text ↔
      tree.at? (below base (Path.names path)) = some (.file (.text text)) := by
  rw [text?_eq_some_iff]
  constructor
  · rintro ⟨location, isThere, isFile, -⟩
    obtain rfl := output.locate?_join ordinary isThere
    exact isFile
  · intro isFile
    have way := proper.hasWay isFile
    have isFolder : tree.isFolderAt base = true := way [] List.nil_prefix named.symm
    have isThere : made = tree := output.isNew.resolve_right fun isFree => by
      rw [isFolderAt_iff, isFree] at isFolder
      cases isFolder
    subst isThere
    exact ⟨_, output.locate?_of_hasWay ordinary named takes way, isFile, takes.noFolder⟩

/-- The folders on the way to a file below the folder can be made, and nothing else comes in. -/
theorem makes_way (output : OutputFolder tree made folder base)
    (ordinary : Path.IsOrdinary path) (named : Path.names path ≠ []) (takes : TakesPath folder path)
    (clear : made.IsClear base (Path.names path)) :
    ∃ parent ready, Path.parent? (Path.join folder path) = some parent ∧
      tree.makeFolders parent = (ready, true) ∧ KeepsFolders made ready ∧
      ready.HasWay base (Path.names path) ∧
      ∀ location, ready.isFolderAt location = true → made.isFolderAt location = true ∨
        ∃ outer, outer <+: Path.names path ∧ outer ≠ Path.names path ∧
          location = below base outer := by
  obtain ⟨outer, last, areNames⟩ := (List.eq_nil_or_concat (Path.names path)).resolve_left named
  rw [List.concat_eq_append] at areNames
  have areParts := Path.components_join_of_ordinary folder ordinary
  rw [ordinary.components_eq_map, areNames, List.map_append, ← List.append_assoc] at areParts
  obtain ⟨parent, isParent, parentParts, isStart⟩ :=
    Path.parent?_of_name takes.noFolder areParts
  have isInner : ∀ {inner : List String}, inner <+: outer → inner <+: Path.names path ∧
      inner ≠ Path.names path := by
    intro inner isInner
    rw [areNames]
    refine ⟨isInner.trans (List.prefix_append ..), fun same => ?_⟩
    have short := isInner.length_le
    rw [same, List.length_append, List.length_singleton] at short
    omega
  obtain ⟨ready, makes, onlyThese⟩ := @makeFoldersFrom_names made base outer output.isFolder
    (fun name isName => takes.areNames name ((isInner List.prefix_rfl).1.subset isName))
    (fun inner isPrefix => clear.noFile inner (isInner isPrefix).1 (isInner isPrefix).2)
  have kept := (extends_makeFoldersFrom makes).keepsFolders
  have makesFolder := output.makes
  rw [makeFolders] at makesFolder
  split at makesFolder
  next =>
    have leads := output.leads
    rw [output.extends_made.working] at leads
    refine ⟨parent, ready, isParent, ?_, kept, fun inner isPrefix isProperPrefix => ?_, ?_⟩
    · rw [makeFolders, if_pos (isPath_of_isStart isStart takes.isPath), parentParts,
        makeFoldersFrom_append makesFolder leads, makes]
    · rw [areNames] at isPrefix isProperPrefix
      exact isFolderAt_makeFoldersFrom_names makes (kept.isFolderAt _ output.isFolder)
        ((List.prefix_concat_iff.mp isPrefix).resolve_left isProperPrefix)
    · intro location isThere
      refine (onlyThese location isThere).imp_right fun ⟨inner, isPrefix, isHere⟩ => ?_
      exact ⟨inner, (isInner isPrefix).1, (isInner isPrefix).2, isHere⟩
  next => cases makesFolder

/-- What writing a file below the folder leaves: the file, the folders on the way to it, and
everything else as it was. -/
theorem writes (output : OutputFolder tree made folder base) (proper : tree.IsProper)
    (ordinary : Path.IsOrdinary path) (named : Path.names path ≠ []) (takes : TakesPath folder path)
    (clear : made.IsClear base (Path.names path)) (text : String) :
    ∃ parent ready changed, Path.parent? (Path.join folder path) = some parent ∧
      tree.makeFolders parent = (ready, true) ∧
      ready.writeFile? (Path.join folder path) (.text text) = some changed ∧
      changed.IsProper ∧ OutputFolder changed changed folder base ∧
      (∀ location content, changed.at? location = some (.file content) ↔
        if below base (Path.names path) = location then content = .text text
        else tree.at? location = some (.file content)) ∧
      ∀ location, changed.isFolderAt location = true → made.isFolderAt location = true ∨
        ∃ outer, outer <+: Path.names path ∧ outer ≠ Path.names path ∧
          location = below base outer := by
  obtain ⟨parent, ready, isParent, makes, kept, way, onlyThese⟩ :=
    output.makes_way ordinary named takes clear
  obtain ⟨name, here, isTarget, isHolder⟩ := way.holder named
  have isThere := (output.again kept).locate?_of_hasWay ordinary named takes way
  have isFree : ready.isFolderAt (below base (Path.names path)) = false := by
    rw [← Bool.not_eq_true]
    intro isFolder
    rcases onlyThese _ isFolder with isOld | ⟨outer, -, isInner, same⟩
    · exact absurd isOld (Bool.eq_false_iff.mp clear.noFolder)
    · exact isInner (below_inj same).symm
  have notRoot : below base (Path.names path) ≠ [] := by
    rw [isTarget]
    exact List.cons_ne_nil _ _
  have folders : ∀ location, (ready.set (below base (Path.names path))
      (.file (.text text))).isFolderAt location = ready.isFolderAt location := by
    intro location
    rw [isFolderAt, at?_set notRoot]
    split
    next isHere => exact (isHere ▸ isFree).symm
    next => rfl
  refine ⟨parent, ready, ready.set (below base (Path.names path)) (.file (.text text)), isParent,
    makes, ?_, ?_, ?_, fun location content => ?_, fun location isFolder => ?_⟩
  · simp [writeFile?, isThere, takes.noFolder, isFree]
  · rw [isTarget] at isFree ⊢
    refine (proper.makeFolders makes).set isHolder fun isFolder => ?_
    rw [isFree] at isFolder
    cases isFolder
  · exact output.again
      (kept.trans ⟨rfl, fun location isFolder => (folders location).trans isFolder⟩)
  · rw [at?_set notRoot]
    split
    next => simp [eq_comm]
    next => exact files_makeFolders makes
  · exact onlyThese location ((folders location).symm.trans isFolder)

end OutputFolder

end Bindery.FileTree
