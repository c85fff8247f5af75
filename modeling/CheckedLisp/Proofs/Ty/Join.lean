import CheckedLisp.Proofs.Ty.Spelling

/-! Members are told apart by their texts, and texts tell types. So a join depends only on which
types are joined, as far as types are compared: neither on their order, nor on how often each stands
there, nor on whether some of them were joined before. -/
namespace CheckedLisp.Ty

/-- The type itself is in normal form, whatever its parts are: a union has two or more
members, in the order of their texts, and none of them is `any` or a union. -/
def Flat : Ty → Prop
  | union members => 2 ≤ members.length ∧ Sorted members ∧
      ∀ member ∈ members, member.isAny = false ∧ member.isUnion = false
  | _ => True

/-- All members of types; without types, unit alone. -/
def allMembers (tys : List Ty) : List Ty := if tys.isEmpty then [unit] else tys.flatMap members

/-- Each type of one list is equal to one of the other. -/
def SameTypes (tys others : List Ty) : Prop :=
  (∀ ty ∈ tys, ∃ other ∈ others, (ty == other) = true) ∧
    ∀ other ∈ others, ∃ ty ∈ tys, (other == ty) = true

section

variable {ty : Ty} {tys others : List Ty}

theorem Flat.members_ne_nil (flat : ty.Flat) : ty.members ≠ [] := by
  cases ty with
  | union parts =>
    intro none
    change parts = [] at none
    have several := flat.1
    rw [none] at several
    simp at several
  | _ => exact List.cons_ne_nil _ _

theorem Flat.member {member : Ty} (flat : ty.Flat) (definite : ty.isAny = false) (inside : member ∈ ty.members) :
    member.isAny = false ∧ member.isUnion = false := by
  cases ty with
  | union parts => exact flat.2.2 member inside
  | any => cases definite
  | _ =>
    rw [List.mem_singleton.1 inside]
    exact ⟨rfl, rfl⟩

theorem isAny_iff : ty.isAny = true ↔ ty = .any := by
  constructor
  · exact eq_any_of_isAny
  · rintro rfl
    rfl

theorem any_isAny_iff : tys.any isAny = true ↔ .any ∈ tys := by
  simp [List.any_eq_true, isAny_iff]

theorem any_isAny_eq_false (definite : .any ∉ tys) : tys.any isAny = false := by
  rw [Bool.eq_false_iff]
  exact fun found => definite (any_isAny_iff.1 found)

theorem join_of_any_mem (inside : .any ∈ tys) : join tys = .any := by
  rw [join, if_pos (any_isAny_iff.2 inside)]

/-- What stays of the members of flat types is neither `any` nor a union. -/
theorem single_of_insertAll {member : Ty} (flat : ∀ ty ∈ tys, ty.Flat) (definite : .any ∉ tys)
    (inside : member ∈ insertAll (tys.flatMap members) []) :
    member.isAny = false ∧ member.isUnion = false := by
  rcases mem_of_mem_insertAll inside with inTys | inNone
  · obtain ⟨ty, here, inTy⟩ := List.mem_flatMap.1 inTys
    have notAny : ty.isAny = false := by
      rw [Bool.eq_false_iff]
      exact fun isAny => definite (isAny_iff.1 isAny ▸ here)
    exact (flat ty here).member notAny inTy
  · cases inNone

theorem members_join (flat : ∀ ty ∈ tys, ty.Flat) (definite : .any ∉ tys) (nonempty : tys ≠ []) :
    (join tys).members = insertAll (tys.flatMap members) [] := by
  rw [join_eq (any_isAny_eq_false definite)]
  apply members_ofMembers
  · obtain ⟨ty, here⟩ := List.exists_mem_of_ne_nil _ nonempty
    obtain ⟨member, inTy⟩ := List.exists_mem_of_ne_nil _ (flat ty here).members_ne_nil
    have found : member.text ∈ (insertAll (tys.flatMap members) []).map text := by
      rw [text_mem_insertAll]
      exact .inl (List.mem_map_of_mem (List.mem_flatMap.2 ⟨ty, here, inTy⟩))
    intro none
    rw [none] at found
    cases found
  · intro member inside
    exact (single_of_insertAll flat definite inside).2

/-- The members of a join have the texts that the members of its parts have. -/
theorem text_mem_join (flat : ∀ ty ∈ tys, ty.Flat) (definite : .any ∉ tys) {text : String} :
    text ∈ (join tys).members.map Ty.text ↔ text ∈ (allMembers tys).map Ty.text := by
  cases tys with
  | nil => rfl
  | cons ty tys =>
    rw [members_join flat definite (List.cons_ne_nil _ _), text_mem_insertAll]
    simp [allMembers]

theorem sorted_join (flat : ∀ ty ∈ tys, ty.Flat) (definite : .any ∉ tys) : Sorted (join tys).members := by
  cases tys with
  | nil => exact List.pairwise_singleton _ _
  | cons ty tys =>
    rw [members_join flat definite (List.cons_ne_nil _ _)]
    exact sorted_insertAll .nil

theorem join_eq_any_iff (flat : ∀ ty ∈ tys, ty.Flat) : join tys = .any ↔ .any ∈ tys := by
  constructor
  · intro isAny
    by_contra definite
    rw [join_eq (any_isAny_eq_false definite)] at isAny
    cases found : insertAll (tys.flatMap members) [] with
    | nil =>
      rw [found] at isAny
      cases isAny
    | cons member rest =>
      have single := single_of_insertAll flat definite (found ▸ List.mem_cons_self)
      rw [found] at isAny
      cases rest with
      | nil =>
        rw [show member = .any from isAny] at single
        cases single.1
      | cons => cases isAny
  · exact join_of_any_mem

theorem Sorted.texts_eq {found found' : List Ty} (sorted : Sorted found) (sorted' : Sorted found')
    (same : ∀ text, text ∈ found.map Ty.text ↔ text ∈ found'.map Ty.text) :
    found.map Ty.text = found'.map Ty.text := by
  have increasing : (found.map Ty.text).Pairwise (· < ·) := List.pairwise_map.2 sorted
  have increasing' : (found'.map Ty.text).Pairwise (· < ·) := List.pairwise_map.2 sorted'
  have apart : ∀ {a b : String}, a < b → a ≠ b := by
    rintro a _ before rfl
    exact String.lt_irrefl a before
  have perm : (found.map Ty.text).Perm (found'.map Ty.text) :=
    (List.perm_ext_iff_of_nodup (increasing.imp apart) (increasing'.imp apart)).2 same
  apply perm.eq_of_pairwise _ increasing increasing'
  intro a b _ _ before after
  exact absurd after (String.lt_asymm before)

theorem texts_eq_map (tys : List Ty) : texts tys = tys.map text := by
  induction tys with
  | nil => rfl
  | cons ty tys ih => rw [texts, ih, List.map_cons]

theorem text_ofMembers {found found' : List Ty} (same : found.map Ty.text = found'.map Ty.text) :
    (ofMembers found).text = (ofMembers found').text := by
  match found, found' with
  | [], [] => rfl
  | [member], [member'] => exact (List.cons.inj same).1
  | _ :: _ :: _, _ :: _ :: _ => simp only [ofMembers, text, texts_eq_map, same]
  | [], _ :: _ | _ :: _, [] | [_], _ :: _ :: _ | _ :: _ :: _, [_] => simp at same

/-- A join depends only on the texts of all members. -/
theorem text_join_congr (definite : .any ∉ tys) (definite' : .any ∉ others)
    (same : ∀ text, text ∈ (tys.flatMap members).map Ty.text ↔ text ∈ (others.flatMap members).map Ty.text) :
    (join tys).text = (join others).text := by
  rw [join_eq (any_isAny_eq_false definite), join_eq (any_isAny_eq_false definite')]
  apply text_ofMembers
  apply Sorted.texts_eq (sorted_insertAll .nil) (sorted_insertAll .nil)
  intro text
  simpa only [text_mem_insertAll, List.map_nil, List.not_mem_nil, or_false] using same text

theorem members_bare (ty : Ty) : ty.bare.members = ty.members.map bare := by
  cases ty with
  | union parts => exact bareAll_eq_map parts
  | _ => rfl

/-- Equal types have members with the same texts. -/
theorem texts_members_of_beq {a b : Ty} (same : (a == b) = true) :
    a.members.map text = b.members.map text := by
  have texts (ty : Ty) : ty.members.map text = ty.bare.members.map text := by
    simp [members_bare, text_bare]
  rw [texts a, texts b, beq_iff.1 same]

theorem any_mem_of_sameTypes (same : SameTypes tys others) (inside : .any ∈ tys) : .any ∈ others := by
  obtain ⟨other, here, equal⟩ := same.1 .any inside
  have isAny : other.isAny = true := by
    rw [← isAny_bare, ← beq_iff.1 equal]
    rfl
  exact isAny_iff.1 isAny ▸ here

theorem SameTypes.symm (same : SameTypes tys others) : SameTypes others tys := ⟨same.2, same.1⟩

theorem text_mem_of_sameTypes (same : SameTypes tys others) {text : String}
    (inside : text ∈ (tys.flatMap members).map Ty.text) : text ∈ (others.flatMap members).map Ty.text := by
  obtain ⟨member, found, rfl⟩ := List.mem_map.1 inside
  obtain ⟨ty, here, inTy⟩ := List.mem_flatMap.1 found
  obtain ⟨other, there, equal⟩ := same.1 ty here
  have shown : member.text ∈ other.members.map Ty.text := by
    rw [← texts_members_of_beq equal]
    exact List.mem_map_of_mem inTy
  obtain ⟨member', inOther, sameText⟩ := List.mem_map.1 shown
  rw [← sameText]
  exact List.mem_map_of_mem (List.mem_flatMap.2 ⟨other, there, inOther⟩)

theorem text_join_of_sameTypes (same : SameTypes tys others) : (join tys).text = (join others).text := by
  by_cases found : .any ∈ tys
  · have found' := any_mem_of_sameTypes same found
    rw [join_of_any_mem found, join_of_any_mem found']
  · have definite' : .any ∉ others := fun found' => found (any_mem_of_sameTypes same.symm found')
    apply text_join_congr found definite'
    intro text
    exact ⟨text_mem_of_sameTypes same, text_mem_of_sameTypes same.symm⟩

/-- What was joined before may as well be joined at once. -/
theorem text_join_nested {before after : List Ty} (flat : ∀ ty ∈ tys, ty.Flat) (nonempty : tys ≠ []) :
    (join (before ++ [join tys] ++ after)).text = (join (before ++ tys ++ after)).text := by
  have inner := join_eq_any_iff flat
  have outer : .any ∈ before ++ [join tys] ++ after ↔ .any ∈ before ++ tys ++ after := by
    simp only [List.mem_append, List.mem_singleton, ← inner, eq_comm]
  by_cases found : .any ∈ before ++ tys ++ after
  · rw [join_of_any_mem found, join_of_any_mem (outer.2 found)]
  · apply text_join_congr (fun found' => found (outer.1 found')) found
    have definite : .any ∉ tys := fun inside => found (by simp [inside])
    have joined (text : String) : text ∈ (join tys).members.map Ty.text ↔
        text ∈ (tys.flatMap members).map Ty.text := by
      rw [text_mem_join flat definite, allMembers, if_neg (by simpa using nonempty)]
    intro text
    simp only [List.flatMap_append, List.flatMap_cons, List.flatMap_nil, List.append_nil, List.map_append,
      List.mem_append, joined]

end

/-- The algebra of joins. A join is `any` exactly when it joins `any`; else its members are
the different types among all members of its parts. So it depends only on the types that are
joined, in any order and number, and joins may be nested. Equal joins have equal texts. -/
theorem join_algebra {tys : List Ty} (flat : ∀ ty ∈ tys, ty.Flat) :
    (join tys = .any ↔ .any ∈ tys) ∧
    (.any ∉ tys → (join tys).members.Pairwise (fun a b => (a == b) = false) ∧
      ∀ ty : Ty, (∃ member ∈ (join tys).members, (member == ty) = true) ↔
        ∃ member ∈ allMembers tys, (member == ty) = true) ∧
    (∀ others : List Ty, SameTypes tys others → (join tys == join others) = true) ∧
    (tys ≠ [] → ∀ before after : List Ty,
      (join (before ++ [join tys] ++ after) == join (before ++ tys ++ after)) = true) ∧
    ∀ others : List Ty, (join tys == join others) = true ↔ (join tys).text = (join others).text := by
  refine ⟨join_eq_any_iff flat, ?_, ?_, ?_, ?_⟩
  · intro definite
    constructor
    · apply (sorted_join flat definite).imp
      intro a b before
      rw [Bool.eq_false_iff]
      intro equal
      rw [(text_eq_iff a b).2 equal] at before
      exact String.lt_irrefl _ before
    · intro ty
      have shown : ty.text ∈ (join tys).members.map Ty.text ↔ ty.text ∈ (allMembers tys).map Ty.text :=
        text_mem_join flat definite
      simpa only [List.mem_map, text_eq_iff] using shown
  · intro others same
    exact (text_eq_iff _ _).1 (text_join_of_sameTypes same)
  · intro nonempty before after
    exact (text_eq_iff _ _).1 (text_join_nested flat nonempty)
  · intro others
    exact (text_eq_iff _ _).symm

/-- A union, a type that is left open, and functions that differ only in what a newer
signature hides. -/
def mixed : List Ty :=
  [.union [.bool, .int], .ellipsis, .function [.int] .bool, .callable (.declared [.int] .bool) [.declared [] .any],
    .bool]

theorem join_algebra_mixed : (∀ ty ∈ mixed, ty.Flat) ∧ join mixed ≠ .any ∧
    (join mixed == join mixed.reverse) = true ∧
    (join ([.string] ++ [join mixed] ++ [.int]) == join ([.string] ++ mixed ++ [.int])) = true := by
  have flat : ∀ ty ∈ mixed, ty.Flat := by
    have sorted : Sorted [.bool, .int] := List.pairwise_pair.2 (by decide +kernel)
    simp [mixed, Flat, function, sorted, isAny, isUnion]
  obtain ⟨absorbs, -, reordered, nested, -⟩ := join_algebra flat
  refine ⟨flat, ?_, ?_, ?_⟩
  · rw [Ne, absorbs]
    simp [mixed, function]
  · apply reordered
    simp only [SameTypes, List.mem_reverse]
    exact ⟨fun ty here => ⟨ty, here, beq_iff.2 rfl⟩, fun ty here => ⟨ty, here, beq_iff.2 rfl⟩⟩
  · exact nested (by simp [mixed]) [.string] [.int]

end CheckedLisp.Ty
