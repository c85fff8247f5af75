import CheckedLisp.Proofs.Ty.RoundTrip

/-! Not every type can be read back: annotations have no word for what is left open, and their
unions are joined. But every text still splits into lexemes in one way, and the lexemes of a type
show where it ends. So two types have the same text exactly when they are equal, in normal form or
not. -/
namespace CheckedLisp

namespace TypeText

mutual

/-- The lexemes of a type's text. -/
def spelling : Ty → List Lexeme
  | .unit => [.word "Unit"]
  | .bool => [.word "Bool"]
  | .int => [.word "Int"]
  | .float => [.word "Float64"]
  | .string => [.word "String"]
  | .any => [.word "Any"]
  | .ellipsis => [.word "..."]
  | .callable newest _ => signatureSpelling newest
  | .union members => .opening :: .word "Union" :: (spellings members ++ [.closing])
  | .variadic element => .opening :: .word "Variadic" :: (spelling element ++ [.closing])

def spellings : List Ty → List Lexeme
  | [] => []
  | ty :: tys => spelling ty ++ spellings tys

def signatureSpelling : Signature Ty → List Lexeme
  | ⟨params, ret, _⟩ =>
    .opening :: .word "Callable" :: .opening :: (spellings params ++ .closing :: (spelling ret ++ [.closing]))

end

theorem spellings_eq_flatten (tys : List Ty) : spellings tys = (tys.map spelling).flatten := by
  induction tys with
  | nil => rfl
  | cons ty tys ih => rw [spellings, ih, List.map_cons, List.flatten_cons]

theorem spells_atom {name : String} (atom : name ∈ "..." :: (atoms.map (·.1) ++ heads)) :
    Spells name [.word name] := by
  rcases List.mem_cons.1 atom with rfl | known
  · exact spells_word (by decide) (List.all_eq_true.1 (by decide))
  · exact spells_of_known known

mutual

theorem spells_text : ∀ ty : Ty, Spells ty.text (spelling ty)
  | .unit | .bool | .int | .float | .string | .any | .ellipsis => spells_atom (by decide)
  | .callable newest _ => spells_signatureText newest
  | .union members => by
    have head : Spells "Union" [.word "Union"] := spells_atom (by decide)
    have spells := spells_parens (.cons head (spells_texts members))
    simpa [Ty.text, spelling, spellings_eq_flatten] using spells
  | .variadic element => by
    have head : Spells "Variadic" [.word "Variadic"] := spells_atom (by decide)
    have spells := spells_parens (.cons head (.cons (spells_text element) .nil))
    simpa [Ty.text, spelling] using spells

theorem spells_texts : ∀ tys : List Ty, List.Forall₂ Spells (Ty.texts tys) (tys.map spelling)
  | [] => .nil
  | ty :: tys => .cons (spells_text ty) (spells_texts tys)

theorem spells_signatureText : ∀ s : Signature Ty, Spells (Ty.signatureText s) (signatureSpelling s)
  | ⟨params, ret, _⟩ => by
    have head : Spells "Callable" [.word "Callable"] := spells_atom (by decide)
    have inside := spells_parens (spells_texts params)
    have spells := spells_parens (.cons head (.cons inside (.cons (spells_text ret) .nil)))
    simpa [Ty.signatureText, signatureSpelling, spellings_eq_flatten] using spells

end

/-- No type begins with a closing bracket. -/
theorem spelling_append_ne_closing (ty : Ty) (rest others : List Lexeme) :
    spelling ty ++ rest ≠ .closing :: others := by
  cases ty with
  | callable newest older =>
    obtain ⟨params, ret, rule⟩ := newest
    simp [spelling, signatureSpelling]
  | _ => simp [spelling]

mutual

/-- The lexemes of a type show what is compared of it, and where it ends. -/
theorem spelling_cancel : ∀ (a b : Ty) (rest rest' : List Lexeme),
    spelling a ++ rest = spelling b ++ rest' → a.bare = b.bare ∧ rest = rest'
  | .callable newest _, b, rest, rest' => by
    obtain ⟨params, ret, _⟩ := newest
    intro same
    cases b with
    | callable other _ =>
      obtain ⟨sameBare, sameRest⟩ := signatureSpelling_cancel _ other rest rest' same
      exact ⟨by rw [Ty.bare, Ty.bare, sameBare], sameRest⟩
    | _ => simp [spelling, signatureSpelling] at same
  | .union members, b, rest, rest' => by
    intro same
    cases b with
    | union others =>
      simp only [spelling, List.cons_append, List.append_assoc, List.cons.injEq, true_and, List.nil_append] at same
      obtain ⟨sameBare, sameRest⟩ := spellings_cancel members others rest rest' same
      exact ⟨by rw [Ty.bare, Ty.bare, sameBare], sameRest⟩
    | callable other _ =>
      obtain ⟨_, _, _⟩ := other
      simp [spelling, signatureSpelling] at same
    | _ => simp [spelling] at same
  | .variadic element, b, rest, rest' => by
    intro same
    cases b with
    | variadic other =>
      simp only [spelling, List.cons_append, List.append_assoc, List.cons.injEq, true_and, List.nil_append] at same
      obtain ⟨sameBare, sameRest⟩ := spelling_cancel element other _ _ same
      exact ⟨by rw [Ty.bare, Ty.bare, sameBare], (List.cons.inj sameRest).2⟩
    | callable other _ =>
      obtain ⟨_, _, _⟩ := other
      simp [spelling, signatureSpelling] at same
    | _ => simp [spelling] at same
  | .unit, b, rest, rest' | .bool, b, rest, rest' | .int, b, rest, rest' | .float, b, rest, rest'
  | .string, b, rest, rest' | .any, b, rest, rest' | .ellipsis, b, rest, rest' => by
    intro same
    cases b with
    | callable other _ =>
      obtain ⟨_, _, _⟩ := other
      simp [spelling, signatureSpelling] at same
    | _ => simp_all [spelling]

theorem spellings_cancel : ∀ (as bs : List Ty) (rest rest' : List Lexeme),
    spellings as ++ .closing :: rest = spellings bs ++ .closing :: rest' →
      Ty.bareAll as = Ty.bareAll bs ∧ rest = rest'
  | [], [], rest, rest', same => ⟨rfl, (List.cons.inj same).2⟩
  | [], b :: bs, rest, rest', same => by
    rw [spellings, spellings, List.append_assoc] at same
    exact absurd same.symm (spelling_append_ne_closing b _ _)
  | a :: as, [], rest, rest', same => by
    rw [spellings, spellings, List.append_assoc] at same
    exact absurd same (spelling_append_ne_closing a _ _)
  | a :: as, b :: bs, rest, rest', same => by
    rw [spellings, spellings, List.append_assoc, List.append_assoc] at same
    obtain ⟨sameFirst, sameOthers⟩ := spelling_cancel a b _ _ same
    obtain ⟨sameBare, sameRest⟩ := spellings_cancel as bs rest rest' sameOthers
    exact ⟨by rw [Ty.bareAll, Ty.bareAll, sameFirst, sameBare], sameRest⟩

theorem signatureSpelling_cancel : ∀ (s t : Signature Ty) (rest rest' : List Lexeme),
    signatureSpelling s ++ rest = signatureSpelling t ++ rest' →
      Ty.bareSignature s = Ty.bareSignature t ∧ rest = rest'
  | ⟨params, ret, _⟩, ⟨params', ret', _⟩, rest, rest' => by
    intro same
    simp only [signatureSpelling, List.cons_append, List.append_assoc, List.cons.injEq, true_and,
      List.nil_append] at same
    obtain ⟨sameParams, sameOthers⟩ := spellings_cancel params params' _ _ same
    obtain ⟨sameRet, sameRest⟩ := spelling_cancel ret ret' _ _ sameOthers
    refine ⟨?_, (List.cons.inj sameRest).2⟩
    rw [Ty.bareSignature, Ty.bareSignature, sameParams, sameRet]

end

/-- A text spells one list of lexemes. -/
theorem Spells.unique {text : String} {read read' : List Lexeme} (spells : Spells text read)
    (spells' : Spells text read') : read = read' := by
  obtain ⟨own, rfl, splits⟩ := spells 1 [] [] (by simp) .nil
  obtain ⟨own', rfl, splits'⟩ := spells' 1 [] [] (by simp) .nil
  simp only [List.append_nil, splits_iff] at splits splits'
  rw [splits, splits']

end TypeText

namespace Ty

/-- Types have the same text exactly when they are equal. -/
theorem text_eq_iff (a b : Ty) : a.text = b.text ↔ (a == b) = true := by
  rw [beq_iff]
  constructor
  · intro same
    have spells := TypeText.spells_text a
    rw [same] at spells
    have spelled := spells.unique (TypeText.spells_text b)
    exact (TypeText.spelling_cancel a b [] [] (congrArg (· ++ []) spelled)).1
  · intro same
    rw [← a.text_bare, same, b.text_bare]

end Ty

end CheckedLisp
