import CheckedLisp.Node.Printer
import CheckedLisp.Proofs.Text.Spaced
import CheckedLisp.Token.Scan

/-! A text lexes as some kinds of tokens when scanning it, with an end or a delimiter behind it,
adds tokens of these kinds and no error. Where the tokens stand is left open. Texts that lex may be
put in a row with spaces between them, and in parentheses. -/
namespace CheckedLisp.Scan

/-- What may follow an atom. -/
def Ends (rest : List Char) : Prop := ∀ c ∈ rest.head?, isDelimiter c

def Lexes (text : String) (kinds : List Token.Kind) : Prop :=
  ∀ (src : Source) (p : Position) (before : List Token) (rest : List Char), Ends rest →
    ∃ (p' : Position) (tokens : List Token), tokens.map (·.kind) = kinds ∧
      run src .gap p (text.toList ++ rest) ⟨before, .empty⟩ =
        run src .gap p' rest ⟨tokens.reverse ++ before, .empty⟩

theorem lexes_nil : Lexes "" [] := by
  intro src p before rest _
  exact ⟨p, [], rfl, rfl⟩

theorem ends_cons {c : Char} (delimits : isDelimiter c) (rest : List Char) : Ends (c :: rest) := by
  rintro d ⟨⟩
  exact delimits

/-- A space parts two texts. -/
theorem Lexes.spaced {text more : String} {kinds others : List Token.Kind} (first : Lexes text kinds)
    (second : Lexes more others) : Lexes (text ++ " " ++ more) (kinds ++ others) := by
  intro src p before rest ends
  obtain ⟨p₁, tokens, rfl, scanned⟩ :=
    first src p before (' ' :: (more.toList ++ rest)) (ends_cons rfl _)
  obtain ⟨p₂, tokens', rfl, scanned'⟩ :=
    second src (p₁.advance ' ') (tokens.reverse ++ before) rest ends
  refine ⟨p₂, tokens ++ tokens', List.map_append, ?_⟩
  have blank : run src .gap p₁ (' ' :: (more.toList ++ rest)) ⟨tokens.reverse ++ before, .empty⟩ =
      run src .gap (p₁.advance ' ') (more.toList ++ rest) ⟨tokens.reverse ++ before, .empty⟩ := rfl
  simpa [blank, scanned'] using scanned

theorem lexes_intercalate {texts : List String} {parts : List (List Token.Kind)}
    (each : List.Forall₂ Lexes texts parts) : Lexes (" ".intercalate texts) parts.flatten :=
  Text.spells_intercalate lexes_nil Lexes.spaced each

/-- The kinds of the tokens of a parenthesized text. -/
def bracketed (parts : List (List Token.Kind)) : List Token.Kind := .opening :: (parts.flatten ++ [.closing])

theorem lexes_parens {texts : List String} {parts : List (List Token.Kind)}
    (each : List.Forall₂ Lexes texts parts) : Lexes (Text.parens texts) (bracketed parts) := by
  intro src p before rest ends
  let opening : Token := ⟨.opening, .upTo p (p.advance '(')⟩
  obtain ⟨p₁, tokens, kinds, scanned⟩ :=
    lexes_intercalate each src (p.advance '(') (opening :: before) (')' :: rest) (ends_cons rfl _)
  let closing : Token := ⟨.closing, .upTo p₁ (p₁.advance ')')⟩
  refine ⟨p₁.advance ')', opening :: (tokens ++ [closing]), ?_, ?_⟩
  · simp [bracketed, kinds, opening, closing]
  · have opened : run src .gap p ('(' :: ((" ".intercalate texts).toList ++ (')' :: rest))) ⟨before, .empty⟩ =
        run src .gap (p.advance '(') ((" ".intercalate texts).toList ++ (')' :: rest))
          ⟨opening :: before, .empty⟩ := rfl
    have closed : run src .gap p₁ (')' :: rest) ⟨tokens.reverse ++ opening :: before, .empty⟩ =
        run src .gap (p₁.advance ')') rest ⟨closing :: (tokens.reverse ++ opening :: before), .empty⟩ := rfl
    have spelled : (Text.parens texts).toList ++ rest =
        '(' :: ((" ".intercalate texts).toList ++ (')' :: rest)) := by simp [Text.parens]
    rw [spelled, opened, scanned, closed]
    simp

/-- Inside a string, the escapes of a text are undone up to the closing quote. -/
theorem run_string (src : Source) (start : Position) (r : Result) (text : List Char) (rest read : List Char)
    (p : Position) :
    ∃ p', run src (.string start read) p (text.flatMap Text.escapeChar ++ '"' :: rest) r =
      run src .gap p' rest
        (r.push (.atom (.string (String.ofList (read.reverse ++ text)))) (.upTo start p')) := by
  induction text generalizing read p with
  | nil => exact ⟨p.advance '"', by simp [run]⟩
  | cons c text ih =>
    rw [List.flatMap_cons, List.append_assoc]
    rcases Text.escapeChar_cases c with ⟨same, notQuote, notSlash⟩ | ⟨d, escaped, undone⟩
    · obtain ⟨p', scanned⟩ := ih (c :: read) (p.advance c)
      refine ⟨p', ?_⟩
      rw [same]
      simpa [run, notQuote, notSlash] using scanned
    · obtain ⟨p', scanned⟩ := ih (c :: read) ((p.advance '\\').advance d)
      refine ⟨p', ?_⟩
      rw [escaped]
      simpa [run, undone] using scanned

theorem lexes_quoted (text : String) : Lexes (Text.quoted text) [.atom (.string text)] := by
  intro src p before rest _
  obtain ⟨p', scanned⟩ := run_string src p ⟨before, .empty⟩ text.toList rest [] (p.advance '"')
  refine ⟨p', [⟨.atom (.string text), .upTo p p'⟩], rfl, ?_⟩
  have opened : run src .gap p ('"' :: (text.toList.flatMap Text.escapeChar ++ '"' :: rest)) ⟨before, .empty⟩ =
      run src (.string p []) (p.advance '"') (text.toList.flatMap Text.escapeChar ++ '"' :: rest)
        ⟨before, .empty⟩ := rfl
  have spelled : (Text.quoted text).toList ++ rest =
      '"' :: (text.toList.flatMap Text.escapeChar ++ '"' :: rest) := by simp [Text.quoted]
  rw [spelled, opened, scanned]
  simp [Result.push]

/-- Characters that are no delimiters prolong an atom. -/
theorem run_atom (src : Source) (start : Position) (r : Result) {text : List Char}
    (plain : ∀ c ∈ text, isDelimiter c = false) (rest read : List Char) (p : Position) :
    ∃ p', run src (.atom start read) p (text ++ rest) r =
      run src (.atom start (text.reverse ++ read)) p' rest r := by
  induction text generalizing read p with
  | nil => exact ⟨p, rfl⟩
  | cons c text ih =>
    obtain ⟨first, others⟩ := List.forall_mem_cons.1 plain
    obtain ⟨p', scanned⟩ := ih others (c :: read) (p.advance c)
    exact ⟨p', by simpa [run, first] using scanned⟩

/-- Before a delimiter or the end, an atom is over. -/
theorem run_atom_ends (src : Source) (start p : Position) (read : List Char) {rest : List Char} (r : Result)
    (ends : Ends rest) :
    run src (.atom start read) p rest r = run src .gap p rest (r.endAtom src start p read) := by
  cases rest with
  | nil => simp [run, Result.close]
  | cons c rest =>
    have delimits : isDelimiter c = true := ends c rfl
    simp [run, delimits]

theorem enter_of_not_isDelimiter {c : Char} (plain : isDelimiter c = false) (r : Result) (p : Position) :
    r.enter p c = (.atom p [c], r) := by
  simp only [isDelimiter, Bool.or_eq_false_iff, beq_eq_false_iff_ne] at plain
  simp [Result.enter, plain]

theorem lexes_atom {text : String} {atom : Atom} (plain : text.toList.all fun c => !isDelimiter c)
    (some : text ≠ "") (classified : Atom.classify text.toList = .ok atom) :
    Lexes text [.atom atom] := by
  intro src p before rest ends
  obtain ⟨c, cs, spelled⟩ : ∃ c cs, text.toList = c :: cs :=
    List.exists_cons_of_ne_nil fun none => some (String.toList_eq_nil_iff.1 none)
  rw [spelled] at plain classified ⊢
  simp only [List.all_cons, Bool.and_eq_true, Bool.not_eq_true', List.all_eq_true] at plain
  obtain ⟨first, others⟩ := plain
  obtain ⟨p', scanned⟩ := run_atom src p ⟨before, .empty⟩ others rest [c] (p.advance c)
  refine ⟨p', [⟨.atom atom, .upTo p p'⟩], rfl, ?_⟩
  have begun : run src .gap p (c :: (cs ++ rest)) ⟨before, .empty⟩ =
      run src (.atom p [c]) (p.advance c) (cs ++ rest) ⟨before, .empty⟩ := by
    simp [run, enter_of_not_isDelimiter first, Collector.isFull, Collector.empty, Collector.capacity]
  rw [List.cons_append, begun, scanned, run_atom_ends src p p' _ _ ends]
  simp [Result.endAtom, classified, Result.push]

end CheckedLisp.Scan
