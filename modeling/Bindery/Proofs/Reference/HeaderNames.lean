/-
**Which headers lose the root folder from their names.**

A header is known by its path from the root folder. The folder is taken off as a text: whatever
starts with the characters of the root loses them, whether or not a part of the path ends there, and
a root with more slashes at its end than the path has there is not found at all.

* `IsNamedFrom` — the name of a header by the folder in which it lies.
* `OnlyStartsAs`, `MissesSlashes` — the paths whose headers are named otherwise.
* `headerName_isNamedFrom_iff` — there are no others, and everything in a header is filed by its
  name.
-/

import Mathlib.Data.List.DropRight
import Bindery.Proofs.Symbols.Spelling
import Bindery.Reference.Finding

namespace Bindery.Reference

open Symbols Xml

/-! ### Slashes -/

/-- A text without the slashes at its start. -/
def afterSlashes (cs : List Char) : List Char := cs.dropWhile (· = '/')

theorem afterSlashes_replicate_append (count : Nat) (cs : List Char) :
    afterSlashes (List.replicate count '/' ++ cs) = afterSlashes cs := by
  induction count with
  | zero => rfl
  | succ count ih => exact ih

/-- What stands behind another character than a slash stays. -/
theorem afterSlashes_append {front : List Char} (part : ∃ c ∈ front, c ≠ '/') (cs : List Char) :
    afterSlashes (front ++ cs) = afterSlashes front ++ cs ∧ 0 < (afterSlashes front).length := by
  obtain ⟨c, isIn, noSlash⟩ := part
  have notEmpty : afterSlashes front ≠ [] := by
    intro isEmpty
    have isSlash := List.dropWhile_eq_nil_iff.mp isEmpty c isIn
    exact noSlash (by simpa using isSlash)
  refine ⟨?_, List.length_pos_iff.mpr notEmpty⟩
  rw [afterSlashes, List.dropWhile_append, if_neg (by simpa [afterSlashes] using notEmpty)]
  rfl

theorem length_afterSlashes_le (cs : List Char) : (afterSlashes cs).length ≤ cs.length :=
  (List.dropWhile_suffix _).length_le

/-! ### Folders -/

/-- The folder of a root. Its slashes go forward, and those at its end do not count. -/
def rootFolder (root : String) : List Char := (forwardSlashes root.toList).rdropWhile (· = '/')

/-- A path lies in the folder of a root, and goes on there with the rest. -/
def LiesIn (root path : String) (rest : List Char) : Prop :=
  forwardSlashes path.toList = rootFolder root ++ '/' :: rest

/-- A header in the folder of a root is named by its path from there. All other headers are named by
the whole path; of the root itself nothing is said. -/
structure IsNamedFrom (root path name : String) : Prop where
  inside : ∀ rest, LiesIn root path rest → name = String.ofList (afterSlashes rest)
  outside : (¬ ∃ rest, LiesIn root path rest) →
    forwardSlashes path.toList ≠ forwardSlashes root.toList →
      name = String.ofList (afterSlashes (forwardSlashes path.toList))

/-- A root ends inside a part of the path: it has no slash at its end, and another character follows
it there. -/
structure OnlyStartsAs (root path : String) (next : Char) (rest : List Char) : Prop where
  whole : forwardSlashes path.toList = rootFolder root ++ next :: rest
  isOther : next ≠ '/'
  noSlash : forwardSlashes root.toList = rootFolder root

/-- A path lies in the folder of a root that is written with more slashes than it has there. -/
structure MissesSlashes (root path : String) : Prop where
  liesIn : ∃ rest, LiesIn root path rest
  isShort : ¬ forwardSlashes root.toList <+: forwardSlashes path.toList

section Root

variable {root path : String}

/-- A root is its folder with some slashes behind it. -/
theorem exists_slashes (root : String) :
    ∃ count, forwardSlashes root.toList = rootFolder root ++ List.replicate count '/' := by
  refine ⟨((forwardSlashes root.toList).rtakeWhile (· = '/')).length, ?_⟩
  have areSlashes : (forwardSlashes root.toList).rtakeWhile (· = '/') =
      List.replicate ((forwardSlashes root.toList).rtakeWhile (· = '/')).length '/' := by
    refine List.eq_replicate_iff.mpr ⟨rfl, fun c isIn => ?_⟩
    simpa using List.mem_rtakeWhile_imp isIn
  rw [← areSlashes]
  exact (List.rdropWhile_append_rtakeWhile ..).symm

/-- A folder that is not the root of all paths has a part. -/
theorem exists_part (isFolder : rootFolder root ≠ []) : ∃ c ∈ rootFolder root, c ≠ '/' :=
  ⟨_, List.getLast_mem isFolder, fun isSlash =>
    List.rdropWhile_last_not _ _ isFolder (decide_eq_true isSlash)⟩

/-- The name that goes on behind a folder is shorter than the whole path. -/
theorem length_lt_afterSlashes (isFolder : rootFolder root ≠ []) (rest : List Char) :
    rest.length < (afterSlashes (rootFolder root ++ rest)).length := by
  obtain ⟨keeps, isLong⟩ := afterSlashes_append (exists_part isFolder) rest
  rw [keeps, List.length_append]
  omega

/-! ### Names -/

theorem headerName_of_append {rest : List Char}
    (whole : forwardSlashes path.toList = forwardSlashes root.toList ++ rest) :
    headerName root path = String.ofList (afterSlashes rest) := by
  have dropped : Text.dropStart? (forwardSlashes root.toList) (forwardSlashes path.toList) =
      some rest := by
    rw [Text.dropStart?, whole, if_pos (by simp), List.drop_left]
  simp only [headerName, dropped, Option.getD_some, afterSlashes]

theorem headerName_of_not_start
    (unmarked : ¬ forwardSlashes root.toList <+: forwardSlashes path.toList) :
    headerName root path = String.ofList (afterSlashes (forwardSlashes path.toList)) := by
  simp only [headerName, Text.dropStart?_of_not_prefix unmarked, Option.getD_none, afterSlashes]

/-- In the folder of a root, a header is named from there unless slashes are missing. -/
theorem headerName_eq_inside_iff {rest : List Char} (liesIn : LiesIn root path rest) :
    headerName root path = String.ofList (afterSlashes rest) ↔
      rootFolder root = [] ∨ forwardSlashes root.toList <+: forwardSlashes path.toList := by
  by_cases isPrefix : forwardSlashes root.toList <+: forwardSlashes path.toList
  · refine iff_of_true ?_ (.inr isPrefix)
    obtain ⟨behind, whole⟩ := isPrefix
    obtain ⟨count, isRoot⟩ := exists_slashes root
    rw [headerName_of_append whole.symm]
    have sameRest : List.replicate count '/' ++ behind = '/' :: rest := by
      rw [isRoot, liesIn, List.append_assoc] at whole
      exact List.append_cancel_left whole
    calc String.ofList (afterSlashes behind)
        = String.ofList (afterSlashes (List.replicate count '/' ++ behind)) := by
          rw [afterSlashes_replicate_append]
      _ = String.ofList (afterSlashes rest) := by rw [sameRest]; rfl
  · rw [headerName_of_not_start isPrefix, String.ofList_inj, or_iff_left isPrefix, liesIn]
    refine ⟨fun same => ?_, fun isEmpty => by rw [isEmpty]; rfl⟩
    by_contra isFolder
    have isLonger := length_lt_afterSlashes isFolder ('/' :: rest)
    have isShorter := length_afterSlashes_le rest
    rw [same, List.length_cons] at isLonger
    omega

/-- Outside the folder of a root, a header is named by its whole path unless the root ends inside a
part of it. -/
theorem headerName_eq_outside_iff (outside : ¬ ∃ rest, LiesIn root path rest)
    (notRoot : forwardSlashes path.toList ≠ forwardSlashes root.toList) :
    headerName root path = String.ofList (afterSlashes (forwardSlashes path.toList)) ↔
      rootFolder root = [] ∨ ¬ ∃ next rest, OnlyStartsAs root path next rest := by
  by_cases isPrefix : forwardSlashes root.toList <+: forwardSlashes path.toList
  · obtain ⟨behind, whole⟩ := isPrefix
    obtain ⟨count, isRoot⟩ := exists_slashes root
    obtain ⟨next, rest, rfl⟩ : ∃ next rest, behind = next :: rest := by
      refine List.exists_cons_of_ne_nil fun isEmpty => notRoot ?_
      rw [← whole, isEmpty, List.append_nil]
    obtain rfl : count = 0 := by
      refine Nat.eq_zero_of_not_pos fun positive => outside ?_
      obtain ⟨fewer, rfl⟩ := Nat.exists_eq_add_one.mpr positive
      exact ⟨List.replicate fewer '/' ++ next :: rest, by
        rw [LiesIn, ← whole, isRoot, List.replicate_succ]
        simp⟩
    rw [List.replicate_zero, List.append_nil] at isRoot
    have isOther : next ≠ '/' := fun isSlash =>
      outside ⟨rest, by rw [LiesIn, ← whole, isRoot, isSlash]⟩
    have starts : OnlyStartsAs root path next rest := ⟨isRoot ▸ whole.symm, isOther, isRoot⟩
    have named : headerName root path = String.ofList (next :: rest) := by
      rw [headerName_of_append whole.symm, afterSlashes, List.dropWhile_cons_of_neg (by simpa)]
    have isFound : ¬ (¬ ∃ next rest, OnlyStartsAs root path next rest) :=
      fun none => none ⟨next, rest, starts⟩
    rw [named, starts.whole, String.ofList_inj, or_iff_left isFound]
    refine ⟨fun same => ?_, fun isEmpty => ?_⟩
    · by_contra isFolder
      have isLonger := length_lt_afterSlashes isFolder (next :: rest)
      rw [← same] at isLonger
      exact Nat.lt_irrefl _ isLonger
    · rw [isEmpty, List.nil_append, afterSlashes, List.dropWhile_cons_of_neg (by simpa)]
  · refine iff_of_true (headerName_of_not_start isPrefix) (.inr ?_)
    rintro ⟨next, rest, starts⟩
    exact isPrefix ⟨next :: rest, by rw [starts.noSlash, starts.whole]⟩

theorem OnlyStartsAs.outside {next : Char} {rest : List Char}
    (starts : OnlyStartsAs root path next rest) : ¬ ∃ inner, LiesIn root path inner := by
  rintro ⟨inner, liesIn⟩
  have same := List.append_cancel_left (starts.whole.symm.trans liesIn)
  exact starts.isOther (List.cons.inj same).1

theorem OnlyStartsAs.notRoot {next : Char} {rest : List Char}
    (starts : OnlyStartsAs root path next rest) :
    forwardSlashes path.toList ≠ forwardSlashes root.toList := by
  rw [starts.whole, starts.noSlash]
  simp

end Root

/-! ### What is filed -/

/-- The header under which a contribution is filed; a warning has none. -/
def Finding.header? : Finding → Option String
  | .element header _ _ | .overload header _ _ => some header
  | .warning _ => none

/-- A contribution is a warning, or is filed under a header. -/
def Finding.IsFiledUnder (header : String) (finding : Finding) : Prop :=
  ∀ other, finding.header? = some other → other = header

section Filed

variable (member : Xml.Element) (name header scope : String)

theorem isFiledUnder_definitionFindings :
    ∀ finding ∈ definitionFindings member name header scope, finding.IsFiledUnder header := by
  intro finding isFinding other isOther
  unfold definitionFindings at isFinding
  extract_lets value at isFinding
  split_ifs at isFinding
  · cases isFinding
  all_goals
    rw [List.mem_singleton] at isFinding
    subst isFinding
    cases isOther
  rfl

theorem isFiledUnder_enumerationFindings :
    ∀ finding ∈ enumerationFindings member name header scope, finding.IsFiledUnder header := by
  intro finding isFinding other isOther
  unfold enumerationFindings at isFinding
  split at isFinding
  · obtain ⟨option, -, isOption⟩ := List.mem_filterMap.mp isFinding
    obtain ⟨_, -, rfl⟩ := Option.map_eq_some_iff.mp isOption
    cases isOther
    rfl
  · rw [List.mem_singleton] at isFinding
    subst isFinding
    cases isOther
    rfl

theorem isFiledUnder_typeOf :
    ∀ finding ∈ (typeOf member name header).2, finding.IsFiledUnder header := by
  intro finding isFinding other isOther
  unfold typeOf at isFinding
  simp only at isFinding
  split_ifs at isFinding
  · rw [List.mem_singleton] at isFinding
    subst isFinding
    cases isOther
  · cases isFinding

end Filed

/-- Behind warnings, what a member is read as is filed. -/
theorem isFiledUnder_of_mem_append {header : String} {warnings : List Finding}
    {found finding : Finding} (isFinding : finding ∈ warnings ++ [found])
    (ofWarnings : ∀ warning ∈ warnings, warning.IsFiledUnder header)
    (isFound : found.header? = some header) : finding.IsFiledUnder header := by
  rcases List.mem_append.mp isFinding with isWarning | isLast
  · exact ofWarnings finding isWarning
  · rw [List.mem_singleton.mp isLast]
    exact fun other isOther => Option.some.inj (isOther.symm.trans isFound)

/-- What a member contributes is filed under its header. -/
theorem isFiledUnder_memberFindings (options : Options) (scope fallback : String)
    (member : Xml.Element) :
    ∀ finding ∈ memberFindings options scope fallback member,
      finding.IsFiledUnder (headerOf options member fallback) := by
  intro finding isFinding
  unfold memberFindings at isFinding
  extract_lets header name at isFinding
  split at isFinding
  · cases isFinding
  split at isFinding
  next => exact isFiledUnder_definitionFindings _ _ _ _ finding isFinding
  next => exact isFiledUnder_enumerationFindings _ _ _ _ finding isFinding
  next =>
    have ofWarnings := isFiledUnder_typeOf member name header
    rcases typeOf member name header with ⟨type, warnings⟩
    dsimp only at isFinding
    exact isFiledUnder_of_mem_append isFinding ofWarnings rfl
  next =>
    have ofWarnings := isFiledUnder_typeOf member name header
    rcases typeOf member name header with ⟨type, warnings⟩
    dsimp only at isFinding
    exact isFiledUnder_of_mem_append isFinding ofWarnings rfl
  next =>
    split at isFinding
    next =>
      rw [List.mem_singleton.mp isFinding]
      exact nofun
    next overload warnings _ =>
      refine isFiledUnder_of_mem_append isFinding (fun warning isWarning => ?_) rfl
      obtain ⟨_, -, rfl⟩ := List.mem_map.mp isWarning
      exact nofun
  next => cases isFinding

/-! ### Main statement -/

/-- **The root folder is taken off as a text.** A header has the name that its folder gives it
exactly if the root does not end inside a part of its path, and is not written with more slashes
than the path has there; where the root has no part at all, every name is right. In the first case
the name goes on where the root ends, in the second one the path stays whole. Whatever its name is,
the members at a path are filed under it. -/
theorem headerName_isNamedFrom_iff (root path : String) :
    (IsNamedFrom root path (headerName root path) ↔
      rootFolder root = [] ∨
        (¬ ∃ next rest, OnlyStartsAs root path next rest) ∧ ¬ MissesSlashes root path) ∧
      (∀ next rest, OnlyStartsAs root path next rest →
        headerName root path = String.ofList (next :: rest)) ∧
      (MissesSlashes root path →
        headerName root path = String.ofList (afterSlashes (forwardSlashes path.toList))) ∧
      ∀ (options : Options) (scope fallback : String) (member : Xml.Element),
        options.headersRoot = root → location? member = some path →
          ∀ finding ∈ memberFindings options scope fallback member,
            finding.IsFiledUnder (headerName root path) := by
  refine ⟨⟨fun isNamed => ?_, fun isRight => ⟨fun rest liesIn => ?_, fun outside notRoot => ?_⟩⟩,
    fun next rest starts => ?_, fun misses => headerName_of_not_start misses.isShort, ?_⟩
  · by_cases isEmpty : rootFolder root = []
    · exact .inl isEmpty
    · refine .inr ⟨?_, ?_⟩
      · rintro ⟨next, rest, starts⟩
        have whole := isNamed.outside starts.outside starts.notRoot
        rw [headerName_eq_outside_iff starts.outside starts.notRoot] at whole
        exact whole.resolve_left isEmpty ⟨next, rest, starts⟩
      · rintro ⟨⟨rest, liesIn⟩, isShort⟩
        have inner := (headerName_eq_inside_iff liesIn).mp (isNamed.inside rest liesIn)
        exact isShort (inner.resolve_left isEmpty)
  · rw [headerName_eq_inside_iff liesIn]
    refine isRight.imp_right fun others => ?_
    by_contra isShort
    exact others.2 ⟨⟨rest, liesIn⟩, isShort⟩
  · rw [headerName_eq_outside_iff outside notRoot]
    exact isRight.imp_right And.left
  · have whole : forwardSlashes path.toList = forwardSlashes root.toList ++ next :: rest := by
      rw [starts.noSlash, starts.whole]
    rw [headerName_of_append whole, afterSlashes,
      List.dropWhile_cons_of_neg (by simpa using starts.isOther)]
  · rintro options scope fallback member rfl isLocated
    have isHeader : headerOf options member fallback = headerName options.headersRoot path := by
      rw [headerOf, isLocated]
    exact isHeader ▸ isFiledUnder_memberFindings options scope fallback member

/-- A header beside the root folder loses the characters of the root from its name. -/
theorem not_isNamedFrom_sibling :
    OnlyStartsAs "include" "include2/x.h" '2' "/x.h".toList ∧
      headerName "include" "include2/x.h" = "2/x.h" ∧
      ¬ IsNamedFrom "include" "include2/x.h" (headerName "include" "include2/x.h") := by
  have starts : OnlyStartsAs "include" "include2/x.h" '2' "/x.h".toList :=
    ⟨by decide, by decide, by decide⟩
  have isName : headerName "include" "include2/x.h" = "2/x.h" := by decide
  refine ⟨starts, isName, fun isNamed => ?_⟩
  have whole := isNamed.outside starts.outside starts.notRoot
  rw [isName] at whole
  exact absurd whole (by decide)

end Bindery.Reference
