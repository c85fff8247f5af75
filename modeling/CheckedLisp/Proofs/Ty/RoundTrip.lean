import CheckedLisp.Proofs.Text.Spaced
import CheckedLisp.Proofs.Ty.Normal
import CheckedLisp.Proofs.Ty.Reading

/-! The text of a type in normal form is an annotation, and it denotes the type as far as types are
compared: the newest signatures, and of these the parameters and the result. So types in normal form
are equal exactly when their texts are. -/
namespace CheckedLisp

namespace Ty

mutual

/-- A type as its text shows it: functions have one signature, and calls the type that it
declares. -/
def bare : Ty → Ty
  | callable newest _ => callable (bareSignature newest) []
  | union members => union (bareAll members)
  | variadic element => variadic (bare element)
  | unit => unit
  | bool => bool
  | int => int
  | float => float
  | string => string
  | any => any
  | ellipsis => ellipsis

def bareAll : List Ty → List Ty
  | [] => []
  | ty :: tys => bare ty :: bareAll tys

def bareSignature : Signature Ty → Signature Ty
  | ⟨params, ret, _⟩ => .declared (bareAll params) (bare ret)

end

theorem bareAll_eq_map (tys : List Ty) : bareAll tys = tys.map bare := by
  induction tys with
  | nil => rfl
  | cons ty tys ih => rw [bareAll, ih, List.map_cons]

mutual

theorem text_bare : ∀ ty : Ty, ty.bare.text = ty.text
  | callable newest _ => by rw [bare, text, text, signatureText_bare newest]
  | union members => by rw [bare, text, text, texts_bareAll members]
  | variadic element => by rw [bare, text, text, text_bare element]
  | unit | bool | int | float | string | any | ellipsis => rfl

theorem texts_bareAll : ∀ tys : List Ty, texts (bareAll tys) = texts tys
  | [] => rfl
  | ty :: tys => by rw [bareAll, texts, texts, text_bare ty, texts_bareAll tys]

theorem signatureText_bare : ∀ s : Signature Ty, signatureText (bareSignature s) = signatureText s
  | ⟨params, ret, _⟩ => by
    rw [bareSignature, Signature.declared, signatureText, signatureText, texts_bareAll params, text_bare ret]

end

mutual

/-- Types are equal when what is compared of them is. -/
theorem equal_iff : ∀ a b : Ty, equal a b = true ↔ a.bare = b.bare
  | callable newest _, b => by
    cases b with
    | callable other _ => simp [equal, bare, equalSignatures_iff newest other]
    | _ => simp [equal, bare]
  | union members, b => by
    cases b with
    | union others => simp [equal, bare, equalLists_iff members others]
    | _ => simp [equal, bare]
  | variadic element, b => by
    cases b with
    | variadic other => simp [equal, bare, equal_iff element other]
    | _ => simp [equal, bare]
  | unit, b | bool, b | int, b | float, b | string, b | any, b | ellipsis, b => by
    cases b <;> simp [equal, bare]

theorem equalLists_iff : ∀ as bs : List Ty, equalLists as bs = true ↔ bareAll as = bareAll bs
  | [], bs => by cases bs <;> simp [equalLists, bareAll]
  | a :: as, bs => by
    cases bs with
    | nil => simp [equalLists, bareAll]
    | cons b bs => simp [equalLists, bareAll, equal_iff a b, equalLists_iff as bs]

theorem equalSignatures_iff : ∀ s t : Signature Ty,
    equalSignatures s t = true ↔ bareSignature s = bareSignature t
  | ⟨params, ret, _⟩, ⟨params', ret', _⟩ => by
    simp [equalSignatures, bareSignature, Signature.declared, equalLists_iff params params', equal_iff ret ret']

end

mutual

theorem bare_bare : ∀ ty : Ty, ty.bare.bare = ty.bare
  | callable newest _ => by simp only [bare, bareSignature_bare newest]
  | union members => by simp only [bare, bareAll_bareAll members]
  | variadic element => by simp only [bare, bare_bare element]
  | unit | bool | int | float | string | any | ellipsis => rfl

theorem bareAll_bareAll : ∀ tys : List Ty, bareAll (bareAll tys) = bareAll tys
  | [] => rfl
  | ty :: tys => by simp only [bareAll, bare_bare ty, bareAll_bareAll tys]

theorem bareSignature_bare : ∀ s : Signature Ty, bareSignature (bareSignature s) = bareSignature s
  | ⟨params, ret, _⟩ => by
    simp only [bareSignature, Signature.declared, bareAll_bareAll params, bare_bare ret]

end

theorem beq_iff {a b : Ty} : (a == b) = true ↔ a.bare = b.bare := equal_iff a b

section Normal

variable {rules : Signature Ty → Prop} {ty : Ty} {tys : List Ty}

theorem isAny_bare (ty : Ty) : ty.bare.isAny = ty.isAny := by cases ty <;> rfl

theorem isUnion_bare (ty : Ty) : ty.bare.isUnion = ty.isUnion := by cases ty <;> rfl

theorem sorted_bareAll (sorted : Sorted tys) : Sorted (bareAll tys) := by
  unfold Sorted at *
  simpa only [bareAll_eq_map, List.pairwise_map, text_bare] using sorted

theorem simple_bareAll (simple : ∀ ty ∈ tys, ty.isAny = false ∧ ty.isUnion = false) :
    ∀ ty ∈ bareAll tys, ty.isAny = false ∧ ty.isUnion = false := by
  simpa only [bareAll_eq_map, List.forall_mem_map, isAny_bare, isUnion_bare] using simple

/-- Older signatures and rules are no part of normal form. -/
theorem NormalUnder.bare (normal : ty.NormalUnder rules) : ty.bare.Normal := by
  induction normal with
  | unit => exact .unit
  | bool => exact .bool
  | int => exact .int
  | float => exact .float
  | string => exact .string
  | any => exact .any
  | @callable newest older _ _ _ params ret =>
    obtain ⟨_, _, _⟩ := newest
    refine NormalUnder.callable (fun _ _ => trivial) ?_ ?_
    all_goals
      intro s only
      rw [List.mem_singleton.1 only]
    · simpa only [bareSignature, Signature.declared, bareAll_eq_map, List.forall_mem_map] using
        params _ List.mem_cons_self
    · exact ret _ List.mem_cons_self
  | @union members several sorted simple _ each =>
    apply NormalUnder.union _ (sorted_bareAll sorted) (simple_bareAll simple)
    · simpa only [bareAll_eq_map, List.forall_mem_map] using each
    · simpa only [bareAll_eq_map, List.length_map] using several
  | variadic _ inner => exact .variadic inner

/-- Members in normal form are their own join. -/
theorem join_eq_union (several : 2 ≤ tys.length) (sorted : Sorted tys)
    (simple : ∀ ty ∈ tys, ty.isAny = false ∧ ty.isUnion = false) : join tys = union tys := by
  have definite : tys.any isAny = false := by
    rw [List.any_eq_false]
    intro ty inside
    simp [(simple ty inside).1]
  have flat : tys.flatMap members = tys := by
    calc tys.flatMap members = tys.flatMap fun ty => [ty] :=
          List.flatMap_congr fun ty inside => members_of_isUnion (simple ty inside).2
      _ = tys := List.flatMap_singleton' tys
  have kept : insertAll tys [] = tys := insertAll_eq_of_covers sorted .nil (by simp)
  rw [join_eq definite, flat, kept]
  match tys, several with
  | _ :: _ :: _, _ => rfl

end Normal

end Ty

namespace TypeText

/-- Wherever the text stands, if no word goes on behind it, it is split into tokens with
these lexemes. -/
def Spells (text : String) (read : List Lexeme) : Prop :=
  ∀ position rest tokens, (∀ c ∈ rest.head?, isPlain c = false) →
    Splits (position + text.toList.length) rest tokens →
      ∃ own, lexemes own = read ∧ Splits position (text.toList ++ rest) (own ++ tokens)

section Spelling

variable {text more : String} {read others : List Lexeme} {texts : List String} {parts : List (List Lexeme)}

theorem spells_nil : Spells "" [] := by
  intro position rest tokens _ splits
  exact ⟨[], rfl, splits⟩

theorem spells_word (nonempty : text ≠ "") (plain : ∀ c ∈ text.toList, isPlain c) :
    Spells text [.word text] := by
  intro position rest tokens ends splits
  refine ⟨[⟨.word text, position⟩], rfl, ?_⟩
  have word := Splits.word (by simpa using nonempty) plain ends splits
  simpa using word

theorem Spells.spaced (first : Spells text read) (second : Spells more others) :
    Spells (text ++ " " ++ more) (read ++ others) := by
  intro position rest tokens ends splits
  have length : position + (text ++ " " ++ more).toList.length =
      position + text.toList.length + 1 + more.toList.length := by
    simp only [String.toList_append, List.length_append, show " ".toList.length = 1 from rfl]
    omega
  rw [length] at splits
  obtain ⟨later, rfl, splits⟩ := second _ _ _ ends splits
  have blank : Splits (position + text.toList.length) (' ' :: (more.toList ++ rest)) (later ++ tokens) :=
    .blank (by decide) splits
  obtain ⟨own, rfl, splits⟩ := first _ _ _ (by simp [isPlain]; decide) blank
  exact ⟨own ++ later, List.map_append, by simpa using splits⟩

theorem spells_parens (each : List.Forall₂ Spells texts parts) :
    Spells (Text.parens texts) (.opening :: (parts.flatten ++ [.closing])) := by
  intro position rest tokens ends splits
  have inside : Spells (" ".intercalate texts) parts.flatten := Text.spells_intercalate spells_nil Spells.spaced each
  have length : position + (Text.parens texts).toList.length =
      position + 1 + (" ".intercalate texts).toList.length + 1 := by
    simp [Text.parens]
    omega
  rw [length] at splits
  obtain ⟨own, same, splits⟩ := inside _ _ _ (by simp [isPlain]) (.closing splits)
  refine ⟨⟨.opening, position⟩ :: (own ++ [⟨.closing, position + 1 + (" ".intercalate texts).toList.length⟩]), ?_, ?_⟩
  · simp [lexemes, ← same]
  · simpa [Text.parens] using Splits.opening splits

/-- A text that spells a derivation is read as what it derives. -/
theorem read_of_spells {ty : Ty} (spells : Spells text read) (derived : Derives read ty) :
    TypeText.read text = .ok ty := by
  obtain ⟨own, rfl, splits⟩ := spells 1 [] [] (by simp) .nil
  rw [List.append_nil, List.append_nil] at splits
  rw [read_eq_ok, ← splits_iff.1 splits]
  exact derived

end Spelling

section Normal

variable {ty : Ty} {tys : List Ty}

/-- The words of the grammar are words of a text. -/
theorem spells_of_known {name : String} (known : name ∈ atoms.map (·.1) ++ heads) : Spells name [.word name] := by
  have plain : (atoms.map (·.1) ++ heads).all fun name => name != "" && name.toList.all isPlain := by decide
  have word := List.all_eq_true.1 plain name known
  simp only [Bool.and_eq_true, bne_iff_ne, List.all_eq_true] at word
  exact spells_word word.1 word.2

theorem exists_of_atom {name : String} (known : (name, ty) ∈ atoms) : ∃ read, Spells name read ∧ Derives read ty :=
  ⟨_, spells_of_known (List.mem_append_left _ (List.mem_map_of_mem known)), .atom known⟩

theorem exists_of_each (each : ∀ ty ∈ tys, ∃ read, Spells ty.text read ∧ Derives read ty.bare) :
    ∃ parts, List.Forall₂ Spells (Ty.texts tys) parts ∧ DerivesAll parts.flatten (Ty.bareAll tys) := by
  induction tys with
  | nil => exact ⟨[], .nil, .nil⟩
  | cons ty tys ih =>
    obtain ⟨first, others⟩ := List.forall_mem_cons.1 each
    obtain ⟨read, spells, derived⟩ := first
    obtain ⟨parts, spellsAll, derivedAll⟩ := ih others
    exact ⟨read :: parts, .cons spells spellsAll, .cons derived derivedAll⟩

/-- The text of a type in normal form is an annotation for what it shows. -/
theorem exists_of_normal (normal : ty.Normal) : ∃ read, Spells ty.text read ∧ Derives read ty.bare := by
  induction normal with
  | unit | bool | int | float | string | any => exact exists_of_atom (by simp [atoms, Ty.bare, Ty.text])
  | @callable newest older _ _ _ params ret =>
    obtain ⟨newParams, newRet, _⟩ := newest
    obtain ⟨parts, spellsParams, derivedParams⟩ := exists_of_each (params _ List.mem_cons_self)
    obtain ⟨read, spellsRet, derivedRet⟩ := ret _ List.mem_cons_self
    have head := spells_of_known (show "Callable" ∈ _ by decide)
    refine ⟨_, spells_parens (.cons head (.cons (spells_parens spellsParams) (.cons spellsRet .nil))), ?_⟩
    simpa [Ty.bare, Ty.bareSignature, Ty.function] using Derives.callable derivedParams derivedRet
  | @union members several sorted simple _ each =>
    obtain ⟨parts, spells, derived⟩ := exists_of_each each
    have head := spells_of_known (show "Union" ∈ _ by decide)
    have joined : Ty.join (Ty.bareAll members) = .union (Ty.bareAll members) := by
      apply Ty.join_eq_union _ (Ty.sorted_bareAll sorted) (Ty.simple_bareAll simple)
      simpa only [Ty.bareAll_eq_map, List.length_map] using several
    refine ⟨_, spells_parens (.cons head spells), ?_⟩
    rw [Ty.bare, ← joined]
    simpa using Derives.union derived
  | variadic _ inner =>
    obtain ⟨read, spells, derived⟩ := inner
    have head := spells_of_known (show "Variadic" ∈ _ by decide)
    refine ⟨_, spells_parens (.cons head (.cons spells .nil)), ?_⟩
    simpa [Ty.bare] using Derives.variadic derived

theorem read_of_normal (normal : ty.bare.Normal) : read ty.text = .ok ty.bare := by
  obtain ⟨found, spells, derived⟩ := exists_of_normal normal
  rw [ty.text_bare] at spells
  rw [ty.bare_bare] at derived
  exact read_of_spells spells derived

end Normal

/-- Reading undoes writing. The text of a type in normal form reads back as an equal type
with the same text, and so types in normal form have the same text exactly when they are
equal. Signatures that a newer one hides need not be normal. -/
theorem read_text {ty : Ty} (normal : ty.bare.Normal) :
    (read ty.text = .ok ty.bare ∧ (ty.bare == ty) = true ∧ ty.bare.text = ty.text) ∧
      ∀ other : Ty, other.bare.Normal → (ty.text = other.text ↔ (ty == other) = true) := by
  refine ⟨⟨read_of_normal normal, Ty.beq_iff.2 ty.bare_bare, ty.text_bare⟩, ?_⟩
  intro other normal'
  rw [Ty.beq_iff]
  constructor
  · intro same
    have found := read_of_normal normal
    rw [same, read_of_normal normal'] at found
    exact (Except.ok.inj found).symm
  · intro same
    rw [← ty.text_bare, same, other.text_bare]

/-- A function with an older signature, a union and a variadic among its parameters. -/
def overloaded : Ty :=
  .callable ⟨[.union [.int, .string], .variadic (.function [] .any)], .bool, .firstArgument⟩
    [.declared [.any] .any]

theorem read_text_overloaded : overloaded.bare.Normal ∧
    read "(Callable ((Union Int String) (Variadic (Callable () Any))) Bool)" = .ok overloaded.bare ∧
    (overloaded.bare == overloaded) = true := by
  have union : (Ty.union [.int, .string]).Normal := by
    apply Ty.NormalUnder.union (by decide)
    · exact List.pairwise_pair.2 (by decide +kernel)
    · simp [Ty.isAny, Ty.isUnion]
    · simp [Ty.NormalUnder.int, Ty.NormalUnder.string]
  have inner : (Ty.variadic (.function [] .any)).Normal := by
    apply Ty.NormalUnder.variadic
    apply Ty.NormalUnder.callable <;> simp [Signature.declared, Ty.NormalUnder.any]
  have normal : overloaded.Normal := by
    apply Ty.NormalUnder.callable
    · simp
    · simp [union, inner, Signature.declared, Ty.NormalUnder.any]
    · simp [Signature.declared, Ty.NormalUnder.any, Ty.NormalUnder.bool]
  have text : overloaded.text = "(Callable ((Union Int String) (Variadic (Callable () Any))) Bool)" := by
    decide +kernel
  rw [← text]
  exact ⟨normal.bare, (read_text normal.bare).1.1, (read_text normal.bare).1.2.1⟩

end TypeText

end CheckedLisp
