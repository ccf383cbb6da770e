/-
**Values that differ in the order of members only.**

What is read from an object is looked up under its keys, so it does not depend on the order in which
the members stand, as long as no key stands twice. The items of an array keep their order, also
where the array is a record.

* `Reordered` — two values with the same members in any order, in every object in them.
* `matches_map?`, `fields?_of_reordered` — maps and records of reordered values.
* `everywhere_of_reordered`, `depth_of_reordered` — what is said of a value as a whole.
-/

import Mathlib.Data.List.Forall2
import Bindery.Proofs.Json.Records
import Bindery.Proofs.MatchingMaps

namespace Bindery.Json

/-! ### Reordered values -/

/-- Two values differ only in the order of the members of their objects, in which no key stands
twice. -/
inductive Reordered : Json → Json → Prop
  | null : Reordered .null .null
  | bool (value : Bool) : Reordered (.bool value) (.bool value)
  | number (spelling : List Char) : Reordered (.number spelling) (.number spelling)
  | string (text : Option String) : Reordered (.string text) (.string text)
  | array {items others : List Json} (sameLength : items.length = others.length)
      (each : ∀ index (isItem : index < items.length) (isOther : index < others.length),
        Reordered (items.get ⟨index, isItem⟩) (others.get ⟨index, isOther⟩)) :
      Reordered (.array items) (.array others)
  | object {members moved others : List (Option String × Json)}
      (distinct : (members.filterMap Prod.fst).Nodup) (order : members.Perm moved)
      (sameKeys : moved.map Prod.fst = others.map Prod.fst)
      (each : ∀ index (isMember : index < moved.length) (isOther : index < others.length),
        Reordered (moved.get ⟨index, isMember⟩).2 (others.get ⟨index, isOther⟩).2) :
      Reordered (.object members) (.object others)

variable {first second : Json}

/-- Members with related values under the same keys, in any order. -/
theorem exists_member_of_forall₂ {related : Json → Json → Prop}
    {members moved others : List (Option String × Json)} (order : members.Perm moved)
    (sameKeys : moved.map Prod.fst = others.map Prod.fst)
    (each : ∀ index (isMember : index < moved.length) (isOther : index < others.length),
      related (moved.get ⟨index, isMember⟩).2 (others.get ⟨index, isOther⟩).2) :
    (∀ member ∈ members, ∃ other ∈ others, member.1 = other.1 ∧ related member.2 other.2) ∧
      ∀ other ∈ others, ∃ member ∈ members, member.1 = other.1 ∧ related member.2 other.2 := by
  have sameLength : moved.length = others.length := by
    simpa using congrArg List.length sameKeys
  have keyAt : ∀ index (isMember : index < moved.length) (isOther : index < others.length),
      (moved.get ⟨index, isMember⟩).1 = (others.get ⟨index, isOther⟩).1 := by
    intro index isMember isOther
    have sameAt := congrArg (·[index]?) sameKeys
    simpa [isMember, isOther] using sameAt
  constructor
  · intro member isMember
    obtain ⟨⟨index, isIndex⟩, rfl⟩ := List.mem_iff_get.mp (order.mem_iff.mp isMember)
    have isOther := sameLength ▸ isIndex
    exact ⟨_, List.get_mem others ⟨index, isOther⟩, keyAt index isIndex isOther,
      each index isIndex isOther⟩
  · intro other isOther
    obtain ⟨⟨index, isIndex⟩, rfl⟩ := List.mem_iff_get.mp isOther
    have isMember : index < moved.length := sameLength ▸ isIndex
    exact ⟨_, order.mem_iff.mpr (List.get_mem moved ⟨index, isMember⟩),
      keyAt index isMember isIndex, each index isMember isIndex⟩

/-! ### Values as a whole -/

theorem depthOfMembers_le_iff {members : List (Option String × Json)} {bound : Nat} :
    depthOfMembers members ≤ bound ↔ ∀ member ∈ members, member.2.depth ≤ bound := by
  induction members with
  | nil => simp [depthOfMembers]
  | cons member rest ih =>
    rw [depthOfMembers, Nat.max_le, ih, List.forall_mem_cons]

theorem everywhereInMembers_iff {property : Json → Bool} {members : List (Option String × Json)} :
    everywhereInMembers property members = true ↔
      ∀ member ∈ members, property (.string member.1) = true ∧
        member.2.everywhere property = true := by
  induction members with
  | nil => simp [everywhereInMembers]
  | cons member rest ih =>
    rw [everywhereInMembers, Bool.and_eq_true, Bool.and_eq_true, ih, List.forall_mem_cons]

theorem depth_of_reordered (same : Reordered first second) : first.depth = second.depth := by
  induction same with
  | null | bool | number | string => rfl
  | @array items others sameLength reordered ih =>
    have each : List.Forall₂ (fun item other => item.depth = other.depth) items others :=
      List.forall₂_iff_get.mpr ⟨sameLength, ih⟩
    have sameDepth : depthOfItems items = depthOfItems others := by
      clear ih reordered sameLength
      induction each with
      | nil => rfl
      | cons sameFirst _ ih => rw [depthOfItems, depthOfItems, sameFirst, ih]
    rw [depth, depth, sameDepth]
  | object _ order sameKeys _ ih =>
    obtain ⟨forth, back⟩ := @exists_member_of_forall₂ (fun value other => value.depth = other.depth)
      _ _ _ order sameKeys ih
    have bounds : ∀ members : List (Option String × Json), ∀ member ∈ members,
        member.2.depth ≤ depthOfMembers members :=
      fun _ => depthOfMembers_le_iff.mp (Nat.le_refl _)
    rw [depth, depth, Nat.add_right_cancel_iff]
    refine Nat.le_antisymm (depthOfMembers_le_iff.mpr ?_) (depthOfMembers_le_iff.mpr ?_)
    · intro member isMember
      obtain ⟨other, isOther, _, sameDepth⟩ := forth member isMember
      exact sameDepth ▸ bounds _ other isOther
    · intro other isOther
      obtain ⟨member, isMember, _, sameDepth⟩ := back other isOther
      exact sameDepth ▸ bounds _ member isMember

/-- A property that does not see the order of members holds everywhere in both values or in
neither. -/
theorem everywhere_of_reordered {property : Json → Bool}
    (isBlind : ∀ value other, Reordered value other → property value = property other)
    (same : Reordered first second) : first.everywhere property = second.everywhere property := by
  induction same with
  | null | bool | number | string => rfl
  | @array items others sameLength each ih =>
    have eachEverywhere : List.Forall₂
        (fun item other => item.everywhere property = other.everywhere property) items others :=
      List.forall₂_iff_get.mpr ⟨sameLength, ih⟩
    have sameItems : everywhereInItems property items = everywhereInItems property others := by
      clear ih each sameLength
      induction eachEverywhere with
      | nil => rfl
      | cons sameFirst _ ih => rw [everywhereInItems, everywhereInItems, sameFirst, ih]
    rw [everywhere, everywhere, sameItems, isBlind _ _ (.array sameLength each)]
  | object distinct order sameKeys each ih =>
    obtain ⟨forth, back⟩ := @exists_member_of_forall₂
      (fun value other => value.everywhere property = other.everywhere property) _ _ _ order
      sameKeys ih
    rw [everywhere, everywhere, isBlind _ _ (.object distinct order sameKeys each)]
    refine congrArg (_ && ·) (Bool.eq_iff_iff.mpr ?_)
    rw [everywhereInMembers_iff, everywhereInMembers_iff]
    constructor
    · intro holds other isOther
      obtain ⟨member, isMember, sameKey, sameValue⟩ := back other isOther
      exact sameKey ▸ sameValue ▸ holds member isMember
    · intro holds member isMember
      obtain ⟨other, isOther, sameKey, sameValue⟩ := forth member isMember
      exact sameKey ▸ sameValue ▸ holds other isOther

/-! ### Members -/

/-- An object has members just when each of its keys has a text. -/
theorem members?_eq_some_iff {value : Json} {plain : List (String × Json)} :
    value.members? = some plain ↔ value = record plain := by
  constructor
  · cases value with
    | object members =>
      intro arePlain
      refine congrArg object ?_
      show members = _
      replace arePlain : members.mapM (fun member : Option String × Json =>
        member.1.map fun text => (text, member.2)) = some plain := arePlain
      induction members generalizing plain with
      | nil =>
        obtain rfl := Option.some.inj arePlain
        rfl
      | cons member rest ih =>
        obtain ⟨key, value⟩ := member
        simp only [List.mapM_cons, Option.bind_eq_bind, Option.bind_eq_some_iff,
          Option.map_eq_some_iff] at arePlain
        obtain ⟨_, ⟨text, rfl, rfl⟩, others, areOthers, isPlain⟩ := arePlain
        obtain rfl := Option.some.inj isPlain
        rw [List.map_cons, ← ih areOthers]
    | _ => exact nofun
  · rintro rfl
    exact members?_record plain

/-- Whatever a map holds was read from a member under its name. -/
theorem exists_member_of_map? {α : Type} {read : String → Json → Option α} {json : Json}
    {m : OrderedMap α} (isMap : map? read json = some m) :
    m.Forall fun key item => ∃ members value, json = record members ∧ (key, value) ∈ members ∧
      read key value = some item := by
  simp only [map?, Option.bind_eq_bind, Option.bind_eq_some_iff] at isMap
  obtain ⟨members, areMembers, pairs, arePairs, isMap⟩ := isMap
  obtain rfl := Option.some.inj isMap
  refine .of_pairs fun pair isPair => ?_
  obtain ⟨⟨key, value⟩, isMember, isRead⟩ := read_of_mem_mapM arePairs pair isPair
  obtain ⟨item, isItem, rfl⟩ := Option.map_eq_some_iff.mp isRead
  exact ⟨members, value, members?_eq_some_iff.mp areMembers, isMember, isItem⟩

theorem exists_members?_iff {members : List (Option String × Json)} :
    (∃ plain, (object members).members? = some plain) ↔ ∀ member ∈ members, member.1 ≠ none := by
  constructor
  · rintro ⟨plain, isPlain⟩ member isMember
    obtain rfl := object.inj (members?_eq_some_iff.mp isPlain)
    obtain ⟨pair, _, rfl⟩ := List.mem_map.mp isMember
    exact nofun
  · intro haveTexts
    induction members with
    | nil => exact ⟨[], rfl⟩
    | cons member rest ih =>
      obtain ⟨key, value⟩ := member
      rw [List.forall_mem_cons] at haveTexts
      obtain ⟨plain, isPlain⟩ := ih haveTexts.2
      obtain ⟨text, rfl⟩ := Option.ne_none_iff_exists'.mp haveTexts.1
      have isRest := object.inj (members?_eq_some_iff.mp isPlain)
      refine ⟨(text, value) :: plain, members?_eq_some_iff.mpr ?_⟩
      rw [record, List.map_cons, ← isRest]

theorem filterMap_keys (plain : List (String × Json)) :
    (plain.map fun (key, value) => (some key, value)).filterMap Prod.fst = plain.map Prod.fst := by
  rw [List.filterMap_map]
  show plain.filterMap (some ∘ Prod.fst) = _
  rw [List.filterMap_eq_map]

theorem mem_members {plain : List (String × Json)} {key : Option String} {value : Json} :
    (key, value) ∈ plain.map (fun (key, value) => (some key, value)) ↔
      ∃ text, key = some text ∧ (text, value) ∈ plain := by
  simp only [List.mem_map, Prod.mk.injEq, Prod.exists]
  constructor
  · rintro ⟨text, _, isPair, rfl, rfl⟩
    exact ⟨text, rfl, isPair⟩
  · rintro ⟨text, rfl, isPair⟩
    exact ⟨text, value, isPair, rfl, rfl⟩

/-- Objects with reordered values under the same plain keys, which are put in another order. -/
theorem reordered_record {members moved others : List (String × Json)}
    (distinct : (members.map Prod.fst).Nodup) (order : members.Perm moved)
    (each : List.Forall₂ (fun member other => member.1 = other.1 ∧ Reordered member.2 other.2)
      moved others) : Reordered (record members) (record others) := by
  have eachMember : List.Forall₂
      (fun member other => member.1 = other.1 ∧ Reordered member.2 other.2)
      (moved.map fun (key, value) => (some key, value))
      (others.map fun (key, value) => (some key, value)) := by
    rw [List.forall₂_map_left_iff, List.forall₂_map_right_iff]
    exact each.imp fun _ _ same => ⟨congrArg some same.1, same.2⟩
  obtain ⟨_, atIndex⟩ := List.forall₂_iff_get.mp eachMember
  refine .object (filterMap_keys members ▸ distinct) (order.map _) ?_
    fun index isMember isOther => (atIndex index isMember isOther).2
  rw [← List.forall₂_eq_eq_eq, List.forall₂_map_left_iff, List.forall₂_map_right_iff]
  exact eachMember.imp fun _ _ same => same.1

/-- Where the keys of one object have texts, those of the other have them too. -/
theorem exists_members?_of_reordered (same : Reordered first second) :
    (∃ plain, first.members? = some plain) ↔ ∃ plain, second.members? = some plain := by
  cases same with
  | null | bool | number | string | array => exact ⟨nofun, nofun⟩
  | object _ order sameKeys each =>
    obtain ⟨forth, back⟩ := exists_member_of_forall₂ order sameKeys each
    rw [exists_members?_iff, exists_members?_iff]
    constructor
    · intro haveTexts other isOther
      obtain ⟨member, isMember, sameKey, _⟩ := back other isOther
      exact sameKey ▸ haveTexts member isMember
    · intro haveTexts member isMember
      obtain ⟨other, isOther, sameKey, _⟩ := forth member isMember
      exact sameKey ▸ haveTexts other isOther

/-- The keys of the other object are as distinct. -/
theorem nodup_keys_of_perm {members moved others : List (Option String × Json)}
    (distinct : (members.filterMap Prod.fst).Nodup) (order : members.Perm moved)
    (sameKeys : moved.map Prod.fst = others.map Prod.fst) : (others.filterMap Prod.fst).Nodup := by
  have byKeys : ∀ members : List (Option String × Json),
      members.filterMap Prod.fst = (members.map Prod.fst).filterMap id := by
    intro members
    rw [List.filterMap_map, Function.id_comp]
  rw [byKeys, ← sameKeys, ← byKeys]
  exact (order.filterMap _).nodup distinct

theorem pairsMatch_of_reordered {plain others : List (String × Json)}
    (same : Reordered (record plain) (record others)) : PairsMatch Reordered plain others := by
  generalize isFirst : record plain = first, isSecond : record others = second at same
  cases same with
  | null | bool | number | string | array => cases isFirst
  | object distinct order sameKeys each =>
    obtain rfl := object.inj isFirst
    obtain rfl := object.inj isSecond
    obtain ⟨forth, back⟩ := exists_member_of_forall₂ order sameKeys each
    have otherDistinct := nodup_keys_of_perm distinct order sameKeys
    rw [filterMap_keys] at distinct otherDistinct
    refine .of_mem distinct otherDistinct (fun key value isPair => ?_) fun key other isPair => ?_
    · obtain ⟨⟨otherKey, other⟩, isOther, sameKey, isReordered⟩ :=
        forth (some key, value) (mem_members.mpr ⟨key, rfl, isPair⟩)
      obtain ⟨text, rfl, isOtherPair⟩ := mem_members.mp isOther
      exact ⟨other, Option.some.inj sameKey ▸ isOtherPair, isReordered⟩
    · obtain ⟨⟨memberKey, value⟩, isMember, sameKey, isReordered⟩ :=
        back (some key, other) (mem_members.mpr ⟨key, rfl, isPair⟩)
      obtain ⟨text, rfl, isMemberPair⟩ := mem_members.mp isMember
      exact ⟨value, Option.some.inj sameKey ▸ isMemberPair, isReordered⟩

/-- Reordered objects have matching members, or both have a key without a text. -/
theorem members?_of_reordered (same : Reordered first second) :
    Option.Rel (PairsMatch Reordered) first.members? second.members? := by
  have bothPlain := exists_members?_of_reordered same
  cases arePlain : first.members? with
  | none =>
    have noOthers : second.members? = none := by
      rw [Option.eq_none_iff_forall_ne_some]
      intro others areOthers
      obtain ⟨plain, isPlain⟩ := bothPlain.mpr ⟨others, areOthers⟩
      cases arePlain.symm.trans isPlain
    rw [noOthers]
    exact .none
  | some plain =>
    obtain ⟨others, areOthers⟩ := bothPlain.mp ⟨plain, arePlain⟩
    rw [areOthers]
    rw [members?_eq_some_iff.mp arePlain, members?_eq_some_iff.mp areOthers] at same
    exact .some (pairsMatch_of_reordered same)

/-! ### Readers -/

/-- A reader that does not see the order of members. -/
def IsBlind {α : Type} (read : Json → Option α) : Prop :=
  ∀ value other, Reordered value other → read value = read other

theorem isBlind_text? : IsBlind Json.text? := by
  rintro _ _ (_ | _) <;> rfl

theorem isBlind_bool? : IsBlind Json.bool? := by
  rintro _ _ (_ | _) <;> rfl

theorem isBlind_list? {α : Type} {read : Json → Option α} (isBlind : IsBlind read) :
    IsBlind (list? read) := by
  intro value other same
  cases same with
  | null | bool | number | string | object => rfl
  | @array items others sameLength each =>
    have eachItem := List.forall₂_iff_get.mpr ⟨sameLength, each⟩
    show items.mapM read = others.mapM read
    clear each sameLength
    induction eachItem with
    | nil => rfl
    | cons sameFirst _ ih => rw [List.mapM_cons, List.mapM_cons, isBlind _ _ sameFirst, ih]

/-- The maps of reordered objects match when their values do. -/
theorem matches_map? {α β : Type} {target : α → β → Prop} {read : String → Json → Option α}
    {otherRead : String → Json → Option β}
    (each : ∀ key value other, Reordered value other →
      Option.Rel target (read key value) (otherRead key other))
    (same : Reordered first second) :
    Option.Rel (OrderedMap.Matches target) (map? read first) (map? otherRead second) := by
  have asPairs : ∀ {γ : Type} (read : String → Json → Option γ) (value : Json),
      map? read value = (value.members?.bind (readPairs read)).map OrderedMap.ofList := by
    intro γ read value
    rw [map?]
    cases value.members? with
    | none => rfl
    | some members =>
      show (readPairs read members).bind _ = (readPairs read members).map _
      cases readPairs read members <;> rfl
  rw [asPairs, asPairs]
  refine optionRel_map ?_ fun pairs others => OrderedMap.Matches.of_pairs
  exact optionRel_bind (members?_of_reordered same) fun pairs others isMatch => isMatch.read each

/-! ### Fields of records -/

/-- Two records have reordered values in the same fields. -/
def Fields.Match (fields others : Fields) : Prop :=
  ∀ name, Option.Rel Reordered (lookupPair name fields.values) (lookupPair name others.values)

/-- The fields of a record whose members have plain keys. -/
def fieldsOfMembers (names : List String) (members : List (String × Json)) : Option Fields :=
  let known := members.filter fun member => names.contains member.1
  if (known.map Prod.fst).Nodup then some ⟨known⟩ else none

theorem fields?_object (names : List String) (members : List (Option String × Json)) :
    (object members).fields? names = (object members).members?.bind (fieldsOfMembers names) := rfl

/-- Matching members make the same fields. -/
theorem fieldsOfMembers_of_match (names : List String) {members others : List (String × Json)}
    (isMatch : PairsMatch Reordered members others) :
    Option.Rel Fields.Match (fieldsOfMembers names members) (fieldsOfMembers names others) := by
  have known := isMatch.filter names.contains
  rw [fieldsOfMembers, fieldsOfMembers, if_pos known.distinct, if_pos known.otherDistinct]
  exact .some known.each

/-- Reordered records have the same fields, be they objects or arrays, or neither is a record. -/
theorem fields?_of_reordered (names : List String) (same : Reordered first second) :
    Option.Rel Fields.Match (first.fields? names) (second.fields? names) := by
  cases same with
  | null | bool | number | string => exact .none
  | @array items others sameLength each =>
    have eachItem := List.forall₂_iff_get.mpr ⟨sameLength, each⟩
    have eachField : ∀ names : List String, Fields.Match ⟨names.zip items⟩ ⟨names.zip others⟩ := by
      clear each sameLength
      induction eachItem with
      | nil =>
        intro names name
        simp only [List.zip_nil_right, lookupPair]
        exact .none
      | cons sameFirst _ ih =>
        rintro (_ | ⟨own, names⟩) name
        · exact .none
        · show Option.Rel _ (if own = name then _ else _) (if own = name then _ else _)
          split
          · exact .some sameFirst
          · exact ih names name
    rw [fields?, fields?, sameLength]
    split
    · exact .some (eachField names)
    · exact .none
  | object distinct order sameKeys each =>
    have isMatch := members?_of_reordered (.object distinct order sameKeys each)
    rw [fields?_object, fields?_object]
    exact optionRel_bind isMatch fun _ _ => fieldsOfMembers_of_match names

namespace Fields.Match

variable {fields others : Fields} (isMatch : fields.Match others) (name : String)

include isMatch

theorem required? {α : Type} {read : Json → Option α} (isBlind : IsBlind read) :
    fields.required? name read = others.required? name read := by
  have sameField := isMatch name
  rw [Fields.required?, Fields.required?]
  generalize lookupPair name fields.values = value, lookupPair name others.values = other
    at sameField
  cases sameField with
  | some isReordered => exact isBlind _ _ isReordered
  | none => rfl

theorem orElse? {α : Type} {read : Json → Option α} (isBlind : IsBlind read) (missing : α) :
    fields.orElse? name read missing = others.orElse? name read missing := by
  have sameField := isMatch name
  rw [Fields.orElse?, Fields.orElse?]
  generalize lookupPair name fields.values = value, lookupPair name others.values = other
    at sameField
  cases sameField with
  | some isReordered => exact isBlind _ _ isReordered
  | none => rfl

theorem text? : fields.text? name = others.text? name := isMatch.orElse? name isBlind_text? ""

theorem flag? : fields.flag? name = others.flag? name := isMatch.orElse? name isBlind_bool? false

end Fields.Match

/-- A record is read blindly if its fields are. -/
theorem isBlind_fields {α : Type} (names : List String) {read : Fields → Option α}
    (each : ∀ fields others, Fields.Match fields others → read fields = read others) :
    IsBlind fun value => (value.fields? names).bind read := by
  intro value other same
  have isMatch := fields?_of_reordered names same
  dsimp only
  generalize value.fields? names = fields, other.fields? names = others at isMatch
  cases isMatch with
  | some isMatch => exact each _ _ isMatch
  | none => rfl

end Bindery.Json
