import CheckedLisp.Proofs.Check.Success
import CheckedLisp.Proofs.Check.Visits
import CheckedLisp.Proofs.Ty.Reading
import CheckedLisp.Proofs.Ty.RoundTrip
import Mathlib.Data.List.TakeWhile

/-! A line of a doc string that begins like a function type is a function type or a fault. Its first
word is `Callable` or a longer word, which is the head of no type. So a lambda whose doc string has
such a line has the type that the line declares, or no type. -/
namespace CheckedLisp

namespace TypeText

/-- The lines of a doc string that begin like a function type, without the blanks around
them. -/
def signatureLines (doc : String) : List (List Char) :=
  ((Text.lines doc.toList).map Text.trim).filter isSignature

/-- The doc string has one such line, and it is this function type. -/
def Declares (doc : String) (params : List Ty) (ret : Ty) : Prop :=
  ∃ line, signatureLines doc = [line] ∧ read (String.ofList line) = .ok (.function params ret)

section

variable {doc : String} {ty ret : Ty} {params : List Ty} {line : List Char}

/-- Characters of a word that a text begins with belong to its first word. -/
theorem exists_word_of_plain {start : List Char} (nonempty : start ≠ []) (plain : ∀ c ∈ start, isPlain c)
    (position : Nat) (cs : List Char) : ∃ more tokens, tokensFrom position [] (start ++ cs) =
      ⟨.word (String.ofList (start ++ more)), position⟩ :: tokens := by
  have whole : ∀ c ∈ start ++ cs.takeWhile isPlain, isPlain c := by
    intro c here
    rcases List.mem_append.1 here with here | here
    · exact plain c here
    · exact List.mem_takeWhile_imp here
  have ends : ∀ c ∈ (cs.dropWhile isPlain).head?, isPlain c = false := by
    intro c first
    simpa [Option.mem_def.1 first] using List.head?_dropWhile_not isPlain cs
  have word := wordBefore_of_ne_nil position
    (List.reverse_ne_nil_iff.2 (List.append_ne_nil_of_left_ne_nil nonempty (cs.takeWhile isPlain)))
  rw [List.length_reverse, List.reverse_reverse] at word
  refine ⟨cs.takeWhile isPlain, tokensFrom (position + (start ++ cs.takeWhile isPlain).length) []
    (cs.dropWhile isPlain), ?_⟩
  conv_lhs => rw [← List.takeWhile_append_dropWhile (p := isPlain) (l := cs), ← List.append_assoc]
  rw [tokensFrom_plain whole, tokensFrom_ends ends, List.append_nil, word]
  rfl

/-- A line that begins like a function type begins with a bracket and a word like
`Callable`. -/
theorem lexemes_of_isSignature (begins : isSignature line = true) :
    ∃ more rest, lexemes (tokensFrom 1 [] line) =
      .opening :: .word (String.ofList ("Callable".toList ++ more)) :: rest := by
  obtain ⟨cs, rfl⟩ := List.isPrefixOf_iff_prefix.1 begins
  have plain : ∀ c ∈ "Callable".toList, isPlain c := List.all_eq_true.1 (by decide)
  obtain ⟨more, tokens, split⟩ := exists_word_of_plain (by decide) plain 2 cs
  have opening : tokensFrom 1 [] ("(Callable".toList ++ cs) =
      ⟨.opening, 1⟩ :: tokensFrom 2 [] ("Callable".toList ++ cs) := rfl
  exact ⟨more, lexemes tokens, by rw [opening, split]; rfl⟩

/-- No other head of a type begins like `Callable`. -/
theorem exists_function_of_derives {more : List Char} {rest : List Lexeme}
    (derived : Derives (.opening :: .word (String.ofList ("Callable".toList ++ more)) :: rest) ty) :
    ∃ params ret, ty = .function params ret := by
  generalize named : String.ofList ("Callable".toList ++ more) = head at derived
  have chars : head.toList = "Callable".toList ++ more := by rw [← named, String.toList_ofList]
  cases derived with
  | callable => exact ⟨_, _, rfl⟩
  | union | variadic => cases chars

theorem exists_function_of_read (begins : isSignature line = true) (done : read (String.ofList line) = .ok ty) :
    ∃ params ret, ty = .function params ret := by
  have derived := read_eq_ok.1 done
  rw [String.toList_ofList] at derived
  obtain ⟨more, rest, split⟩ := lexemes_of_isSignature begins
  rw [split] at derived
  exact exists_function_of_derives derived

/-- Without a line that begins like a function type nothing is declared. -/
theorem ofDoc_eq_none : ofDoc doc = .ok none ↔ signatureLines doc = [] := by
  constructor
  · intro nothing
    unfold ofDoc at nothing
    split at nothing
    · next none => exact none
    · next line _ => cases done : read (String.ofList line) <;> simp [done, Except.map] at nothing
    · cases nothing
  · intro none
    rw [signatureLines] at none
    simp only [ofDoc, none]

/-- What is declared is a function. -/
theorem ofDoc_eq_some : ofDoc doc = .ok (some ty) ↔
    ∃ params ret, ty = .function params ret ∧ Declares doc params ret := by
  constructor
  · intro found
    unfold ofDoc at found
    split at found
    · cases found
    · next line only =>
      cases done : read (String.ofList line) with
      | error fault => simp [done, Except.map] at found
      | ok own =>
        rw [done] at found
        cases found
        have begins : isSignature line = true := (List.mem_filter.1 (only ▸ List.mem_singleton_self line)).2
        obtain ⟨params, ret, rfl⟩ := exists_function_of_read begins done
        exact ⟨params, ret, rfl, line, only, done⟩
    · cases found
  · rintro ⟨params, ret, rfl, line, only, done⟩
    rw [signatureLines] at only
    simp only [ofDoc, only, done]
    rfl

/-- A doc string declares the type whose text is its one line that begins like a function type. -/
theorem ofDoc_of_text {cs : List Char} (normal : ty.Declared) (plain : ty.bare = ty)
    (only : ((Text.lines cs).map Text.trim).filter isSignature = [ty.text.toList]) :
    ofDoc (String.ofList cs) = .ok (some ty) := by
  have found : read ty.text = .ok ty := by
    have own := read_of_normal normal.bare
    rwa [plain] at own
  simp only [ofDoc, String.toList_ofList, only, String.ofList_toList, found]
  rfl

end

end TypeText

namespace TypeHeap

/-- The documented functions have the types that their doc strings declare. -/
theorem ofDoc_docs :
    List.Forall₂ (fun doc entry => doc.1 = entry.1 ∧ TypeText.ofDoc doc.2 = .ok (some entry.2)) docs documented := by
  have normal := declared_documented
  simp only [documented, List.forall_mem_cons] at normal
  obtain ⟨same, negated, display, newline, cons, car, cdr, list, length, append, reverse, isNull, eval, -⟩ := normal
  have declares {name : String} {cs : List Char} {ty : Ty} (normal : ty.Declared) (plain : ty.bare = ty)
      (only : ((Text.lines cs).map Text.trim).filter TypeText.isSignature = [ty.text.toList]) :
      name = name ∧ TypeText.ofDoc (String.ofList cs) = .ok (some ty) :=
    ⟨rfl, TypeText.ofDoc_of_text normal plain only⟩
  refine .cons (declares same rfl ?_) <| .cons (declares negated rfl ?_) <| .cons (declares display rfl ?_) <|
    .cons (declares newline rfl ?_) <| .cons (declares cons rfl ?_) <| .cons (declares car rfl ?_) <|
    .cons (declares cdr rfl ?_) <| .cons (declares list rfl ?_) <| .cons (declares length rfl ?_) <|
    .cons (declares append rfl ?_) <| .cons (declares reverse rfl ?_) <| .cons (declares isNull rfl ?_) <|
    .cons (declares eval rfl ?_) .nil
  all_goals decide

end TypeHeap

namespace Check

open TypeText

variable {s : Scope} {c c' : Checker} {span : Span} {self : Option String} {params : List Name} {doc : String}
  {ty : Ty}

/-- The doc string declares one plain type for each parameter, and a result. -/
structure Annotates (doc : String) (params : List Name) (tys : List Ty) (ret : Ty) : Prop where
  declares : Declares doc tys ret
  count : tys.length = params.length
  plain : ∀ ty ∈ tys, ty.isVariadic = false

theorem declaresNone_iff : DeclaresNone (some doc) ↔ signatureLines doc = [] := by
  rw [← ofDoc_eq_none]
  constructor
  · intro none
    obtain ⟨found, result, data⟩ := none doc rfl
    cases found with
    | none => exact result
    | some ty =>
      obtain ⟨tys, ret, rfl, -⟩ := ofDoc_eq_some.1 result
      cases data _ rfl
  · rintro none _ ⟨⟩
    exact ⟨_, none, by simp⟩

/-- The types of the parameters and the result, if the doc string declares them. -/
theorem signature_of_doc {found : List Ty × Option Ty} : signature span params (some doc) c = .ok found c' ↔
    c' = c ∧ ((signatureLines doc = [] ∧ found = (params.map fun _ => .any, none)) ∨
      ∃ tys ret, Annotates doc params tys ret ∧ found = (tys, some ret)) := by
  rw [signature_ok, declaresNone_iff]
  refine and_congr_right fun _ => or_congr_right ?_
  constructor
  · rintro ⟨_, newest, older, ⟨⟩, result, count, plain, rfl⟩
    obtain ⟨tys, ret, ⟨⟩, declares⟩ := ofDoc_eq_some.1 result
    exact ⟨tys, ret, ⟨declares, count, plain⟩, rfl⟩
  · rintro ⟨tys, ret, ⟨declares, count, plain⟩, rfl⟩
    have result := ofDoc_eq_some.2 ⟨tys, ret, rfl, declares⟩
    exact ⟨doc, .declared tys ret, [], rfl, result, count, plain, rfl⟩

/-- The type of a lambda with this doc string, if `inferred` is what its body has and returns. -/
def GivenDoc (doc : String) (params : List Name) (inferred ty : Ty) : Prop :=
  (signatureLines doc = [] ∧ ty = .function (params.map fun _ => .any) inferred) ∨
    ∃ tys ret, Annotates doc params tys ret ∧ inferred.same ret = true ∧ ty = .function tys ret

theorem result?_of_doc {opening : Opening} {returned : List Ty} {last : Ty}
    (opens : openLambda s self span params (some doc) c = .ok opening c') :
    opening.result? returned last = some ty ↔ GivenDoc doc params (.join (returned ++ [last])) ty := by
  obtain ⟨tys, declared, outer, c₁, read, -, -, rfl⟩ := openLambda_ok.1 opens
  constructor
  · intro given
    obtain ⟨-, ⟨none, same⟩ | ⟨own, ret, annotates, same⟩⟩ := signature_of_doc.1 read
    · cases same
      exact .inl ⟨none, (Option.some.inj given).symm⟩
    · cases same
      simp only [Opening.result?] at given
      split at given
      · next fits => exact .inr ⟨tys, ret, annotates, fits, (Option.some.inj given).symm⟩
      · cases given
  · rintro (⟨none, rfl⟩ | ⟨own, ret, annotates, fits, rfl⟩)
    · cases read.symm.trans (signature_of_doc.2 ⟨rfl, .inl ⟨none, rfl⟩⟩)
      rfl
    · cases read.symm.trans (signature_of_doc.2 ⟨rfl, .inr ⟨own, ret, annotates, rfl⟩⟩)
      simp only [Opening.result?, fits, if_true]

/-- A declared signature is used. What a doc string declares is a function. The parameters of
a lambda with a doc string have the type `any` only if no line begins like a function type.
Otherwise just one line does; it is a function type with one plain type for each parameter;
what the body has and returns fits its result; and it is the type of the lambda. -/
theorem declaration_used :
    (∀ doc ty, ofDoc doc = .ok (some ty) → ty.isCallable = true) ∧
    ∀ s self span params doc body c ty c',
      lambda s self span params (some doc) (fun frame => node frame body) c = .ok ty c' ↔
        ∃ opening c₁ last c₂, openLambda s self span params (some doc) c = .ok opening c₁ ∧
          node opening.frame body c₁ = .ok last c₂ ∧
          ((signatureLines doc = [] ∧
              ty = .function (params.map fun _ => .any) (.join (c₂.heap.returns opening.frame ++ [last]))) ∨
            ∃ tys ret, Annotates doc params tys ret ∧
              (Ty.join (c₂.heap.returns opening.frame ++ [last])).same ret = true ∧ ty = .function tys ret) ∧
          c' = { c₂ with heap := c₂.heap.clearReturns opening.frame } := by
  constructor
  · intro doc ty found
    obtain ⟨params, ret, rfl, -⟩ := ofDoc_eq_some.1 found
    rfl
  · intro s self span params doc body c ty c'
    rw [lambda_ok]
    constructor
    · rintro ⟨opening, c₁, last, c₂, opens, checkedBody, given, rfl⟩
      exact ⟨opening, c₁, last, c₂, opens, checkedBody, (result?_of_doc opens).1 given, rfl⟩
    · rintro ⟨opening, c₁, last, c₂, opens, checkedBody, given, rfl⟩
      exact ⟨opening, c₁, last, c₂, opens, checkedBody, (result?_of_doc opens).2 given, rfl⟩

/-- A function that gives back its number, with its type in the second line. -/
theorem declaration_used_second_line :
    let place := Span.point .first
    let doc := "The same number.\n  (Callable (Int) Int)"
    (∃ ty, ofDoc doc = .ok (some ty) ∧ ty.isCallable = true) ∧
    ∃ ty c', lambda TypeHeap.globalScope none place [⟨"n", place⟩] (some doc)
        (fun frame => node frame (.atom place (.symbol "n"))) .start = .ok ty c' ∧
      ty.text = "(Callable (Int) Int)" ∧
      ∃ tys ret, Annotates doc [⟨"n", place⟩] tys ret ∧ ty = .function tys ret := by
  intro place doc
  have lines : signatureLines doc = ["(Callable (Int) Int)".toList] := by decide +kernel
  let visit : Visit :=
    ⟨TypeHeap.globalScope, .lambda place [⟨"n", place⟩] (some doc) (.atom place (.symbol "n")), .start⟩
  have text : visit.ty?.map Ty.text = some "(Callable (Int) Int)" := by decide +kernel
  obtain ⟨ty, checked⟩ := visit.exists_ok (by decide +kernel)
  rw [Visit.ty?, checked] at text
  obtain ⟨-, checkedLambda⟩ := node_lambda_ok.1 checked
  obtain ⟨_, _, _, _, -, -, ⟨none, -⟩ | ⟨tys, ret, annotates, -, same⟩, -⟩ :=
    (declaration_used.2 _ _ _ _ _ _ _ _ _).1 checkedLambda
  · cases lines.symm.trans none
  · have found : ofDoc doc = .ok (some (.function tys ret)) := ofDoc_eq_some.2 ⟨tys, ret, rfl, annotates.declares⟩
    refine ⟨⟨_, found, declaration_used.1 doc _ found⟩, ty, _, checkedLambda, Option.some.inj text, ?_⟩
    exact ⟨tys, ret, annotates, same⟩

end Check

end CheckedLisp
