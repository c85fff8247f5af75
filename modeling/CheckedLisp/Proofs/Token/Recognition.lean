import CheckedLisp.Proofs.Token.Derivation

/-! Scanning and spelling go through a source in step: after each character, what the mode of the
scan still has to find is what the grammar still has to derive. So a source is scanned without an
error exactly when the grammar derives the kinds of its tokens. -/
namespace CheckedLisp.Lexical

open Scan

/-- Scanning only adds tokens and errors. -/
structure Grows (r r' : Result) : Prop where
  tokens : ∃ new, r'.tokens = new ++ r.tokens
  total : r.errors.total ≤ r'.errors.total

section Growth

variable (r : Result) (src : Source) (start p : Position) (read : List Char)

theorem Grows.refl : Grows r r := ⟨⟨[], rfl⟩, Nat.le_refl _⟩

theorem Grows.trans {r r' r'' : Result} (first : Grows r r') (second : Grows r' r'') : Grows r r'' := by
  obtain ⟨new, extended⟩ := first.tokens
  obtain ⟨new', extended'⟩ := second.tokens
  exact ⟨⟨new' ++ new, by rw [extended', extended, List.append_assoc]⟩, Nat.le_trans first.total second.total⟩

theorem grows_push (kind : Token.Kind) (span : Span) : Grows r (r.push kind span) :=
  ⟨⟨[⟨kind, span⟩], rfl⟩, Nat.le_refl _⟩

theorem grows_fail (span : Span) (fault : Token.Fault) : Grows r (r.fail src span fault) :=
  ⟨⟨[], rfl⟩, Nat.le_succ _⟩

theorem grows_endAtom : Grows r (r.endAtom src start p read) := by
  unfold Result.endAtom
  split
  · exact grows_push r _ _
  · exact grows_fail r src _ _

theorem grows_enter (c : Char) : Grows r (r.enter p c).2 := by
  unfold Result.enter
  dsimp only
  repeat' split
  all_goals first | exact .refl r | exact grows_push r _ _

theorem grows_close (mode : Mode) : Grows r (r.close src p mode) := by
  cases mode with
  | gap | comment => exact .refl r
  | atom start read => exact grows_endAtom r src start p read
  | string | escape => exact grows_fail r src _ _

theorem grows_run (mode : Mode) (cs : List Char) : Grows r (run src mode p cs r) := by
  fun_induction run src mode p cs r with
  | case1 mode p r => exact (grows_close r src p mode).trans (grows_push _ _ _)
  | case2 p c cs r => exact grows_push r _ _
  | case3 p c cs r room mode r' entered ih =>
    have grown := grows_enter r p c
    rw [entered] at grown
    exact grown.trans ih
  | case5 start read p c cs r => exact (grows_endAtom r src start p read).trans (grows_push _ _ _)
  | case6 start read p c cs r delimits ended room mode r' entered ih =>
    have grown := grows_enter ended p c
    rw [entered] at grown
    exact ((grows_endAtom r src start p read).trans grown).trans ih
  | case8 start read p cs r ih => exact (grows_push r _ _).trans ih
  | case12 start read slash p c cs r unknown ih => exact (grows_fail r src _ _).trans ih
  | _ => assumption

end Growth

/-- A scan that ends without an error, with tokens of the given kinds behind those before. -/
def Gives (r : Result) (before : List Token) (kinds : List Token.Kind) : Prop :=
  r.errors.total = 0 ∧ r.tokens.map (·.kind) = .finish :: (kinds.reverse ++ before.map (·.kind))

/-- What the rest of a source must spell, by the mode of the scan. -/
def Continues : Mode → List Char → List Token.Kind → Prop
  | .gap => Spelling false
  | .comment => InComment
  | .atom _ read => InWord read
  | .string _ read => InString read
  | .escape _ read _ => InEscape read

/-- The mode is one that a scan can be in. -/
def Sane : Mode → Prop
  | .atom _ read => read ≠ [] ∧ ∀ c ∈ read, isDelimiter c = false
  | _ => True

section Steps

variable {src : Source} {mode : Mode} {start p : Position} {c : Char} {cs read : List Char}
  {before : List Token} {kinds : List Token.Kind}

theorem gives_finish (tokens : List Token) :
    Gives (Result.finish ⟨tokens ++ before, .empty⟩ p) before kinds ↔
      kinds.reverse = tokens.map (·.kind) := by
  simp [Gives, Result.finish, Result.push, Collector.empty, eq_comm]

theorem not_gives {r : Result} (failed : 0 < r.errors.total) : ¬ Gives (run src mode p cs r) before kinds := by
  rintro ⟨clean, -⟩
  have grown := (grows_run r src p mode cs).total
  omega

/-- A token that is pushed is the first of those to come. -/
theorem gives_push (token : Token) (going : token.kind ≠ .finish) :
    Gives (run src mode p cs ⟨token :: before, .empty⟩) before kinds ↔
      ∃ others, kinds = token.kind :: others ∧
        Gives (run src mode p cs ⟨token :: before, .empty⟩) (token :: before) others := by
  obtain ⟨new, extended⟩ := (grows_run ⟨token :: before, .empty⟩ src p mode cs).tokens
  generalize run src mode p cs ⟨token :: before, .empty⟩ = out at extended
  simp only [Gives, extended, List.map_append, List.map_cons]
  constructor
  · rintro ⟨clean, same⟩
    have cancelled : new.map (·.kind) ++ [token.kind] = .finish :: kinds.reverse := by
      apply List.append_cancel_right
      simpa using same
    cases kinds with
    | nil =>
      have single := List.append_eq_singleton_iff.1 cancelled
      simp [going] at single
    | cons kind others =>
      rw [List.reverse_cons, ← List.cons_append] at cancelled
      obtain ⟨newKinds, last⟩ := List.append_inj' cancelled rfl
      cases last
      exact ⟨others, rfl, clean, by simp [newKinds]⟩
  · rintro ⟨others, rfl, clean, same⟩
    exact ⟨clean, by simpa using same⟩

theorem spells_iff_classify {atom : Atom} (sane : Sane (.atom start read)) :
    Spells read.reverse atom ↔ Atom.classify read.reverse = .ok atom := by
  refine ⟨classify_of_spells, spells_of_classify ?_ ?_⟩
  · simpa using sane.1
  · simpa using sane.2

variable (ih : ∀ (mode : Mode) (p : Position) (before : List Token) (kinds : List Token.Kind), Sane mode →
  (Gives (run src mode p cs ⟨before, .empty⟩) before kinds ↔ Continues mode cs kinds))

include ih

theorem gives_mark {kind : Token.Kind} {span : Span} (going : kind ≠ .finish) :
    Gives (run src .gap p cs (Result.push ⟨before, .empty⟩ kind span)) before kinds ↔
      ∃ others, kinds = kind :: others ∧ Spelling false cs others := by
  refine (gives_push ⟨kind, span⟩ going).trans ?_
  simp only [ih .gap p _ _ trivial, Continues]

theorem gives_gap :
    Gives (run src .gap p (c :: cs) ⟨before, .empty⟩) before kinds ↔ Spelling false (c :: cs) kinds := by
  have entered : run src .gap p (c :: cs) ⟨before, .empty⟩ =
      run src (Result.enter ⟨before, .empty⟩ p c).1 (p.advance c) cs (Result.enter ⟨before, .empty⟩ p c).2 := rfl
  rw [entered, spelling_cons]
  unfold Onward Result.enter
  dsimp only
  by_cases blank : Text.isBlank c
  · simp only [blank, if_true]
    exact ih .gap _ _ _ trivial
  by_cases comment : c = ';'
  · subst comment
    exact ih .comment _ _ _ trivial
  by_cases opening : c = '('
  · subst opening
    exact gives_mark ih (by rintro ⟨⟩)
  by_cases closing : c = ')'
  · subst closing
    exact gives_mark ih (by rintro ⟨⟩)
  by_cases quote : c = '\''
  · subst quote
    exact gives_mark ih (by rintro ⟨⟩)
  by_cases string : c = '"'
  · subst string
    exact ih (.string p []) _ _ _ trivial
  · have plain : isDelimiter c = false :=
      not_isDelimiter_iff.2 ⟨by simpa using blank, comment, opening, closing, quote, string⟩
    simp only [blank, comment, opening, closing, quote, string, if_false, true_and]
    exact ih (.atom p [c]) _ _ _ ⟨by simp, by simpa using plain⟩

theorem gives_comment :
    Gives (run src .comment p (c :: cs) ⟨before, .empty⟩) before kinds ↔ InComment (c :: cs) kinds := by
  rw [inComment_cons, run]
  by_cases newline : c = '\n'
  · simp only [newline, if_true]
    exact ih .gap _ _ _ trivial
  · simp only [newline, if_false]
    exact ih .comment _ _ _ trivial

/-- A delimiter ends the word before it and is then read as if nothing were open. -/
theorem gives_word (sane : Sane (.atom start read)) :
    Gives (run src (.atom start read) p (c :: cs) ⟨before, .empty⟩) before kinds ↔
      InWord read (c :: cs) kinds := by
  cases delimits : isDelimiter c with
  | true =>
    have ended : run src (.atom start read) p (c :: cs) ⟨before, .empty⟩ =
        run src .gap p (c :: cs) (Result.endAtom ⟨before, .empty⟩ src start p read) := by
      simp [run, delimits]
    rw [ended, inWord_delimiter delimits, Result.endAtom]
    cases classified : Atom.classify read.reverse with
    | ok atom =>
      simp only [Result.push, gives_push ⟨.atom atom, _⟩ (by rintro ⟨⟩), gives_gap ih,
        spells_iff_classify sane, classified, Except.ok.injEq]
      constructor
      · rintro ⟨others, rfl, spelling⟩
        exact ⟨atom, others, rfl, rfl, spelling⟩
      · rintro ⟨_, others, rfl, rfl, spelling⟩
        exact ⟨others, rfl, spelling⟩
    | error fault =>
      simp only [spells_iff_classify sane, classified]
      constructor
      · exact fun gives => absurd gives (not_gives (Nat.succ_pos 0))
      · rintro ⟨_, _, ⟨⟩, _⟩
  | false =>
    have prolonged : run src (.atom start read) p (c :: cs) ⟨before, .empty⟩ =
        run src (.atom start (c :: read)) (p.advance c) cs ⟨before, .empty⟩ := by
      simp [run, delimits]
    rw [prolonged, inWord_plain delimits]
    refine ih (.atom start (c :: read)) _ _ _ ⟨by simp, ?_⟩
    exact List.forall_mem_cons.2 ⟨delimits, sane.2⟩

theorem gives_string :
    Gives (run src (.string start read) p (c :: cs) ⟨before, .empty⟩) before kinds ↔
      InString read (c :: cs) kinds := by
  by_cases quote : c = '"'
  · subst quote
    rw [inString_quote]
    exact gives_mark ih (by rintro ⟨⟩)
  by_cases slash : c = '\\'
  · subst slash
    rw [inString_slash]
    exact ih (.escape start read p) _ _ _ trivial
  · rw [inString_plain quote slash]
    simp only [run, quote, slash, if_false]
    exact ih (.string start (c :: read)) _ _ _ trivial

theorem gives_escape {slash : Position} :
    Gives (run src (.escape start read slash) p (c :: cs) ⟨before, .empty⟩) before kinds ↔
      InEscape read (c :: cs) kinds := by
  rw [inEscape_cons, run]
  cases known : Text.unescape? c with
  | some d =>
    simp only [Option.some.injEq, exists_eq_left']
    exact ih (.string start (d :: read)) _ _ _ trivial
  | none =>
    constructor
    · exact fun gives => absurd gives (not_gives (Nat.succ_pos 0))
    · rintro ⟨_, ⟨⟩, _⟩

end Steps

/-- At the end of the source, only a gap, a comment or a word may be open. -/
theorem gives_nil {src : Source} {mode : Mode} {p : Position} {before : List Token}
    {kinds : List Token.Kind} (sane : Sane mode) :
    Gives (run src mode p [] ⟨before, .empty⟩) before kinds ↔ Continues mode [] kinds := by
  have none : Gives (Result.finish ⟨before, .empty⟩ p) before kinds ↔ kinds = [] :=
    (gives_finish []).trans List.reverse_eq_nil_iff
  have unterminated {r : Result} (failed : 0 < r.errors.total) : ¬ Gives (r.finish p) before kinds := by
    rintro ⟨clean, -⟩
    have kept : (r.finish p).errors.total = r.errors.total := rfl
    omega
  cases mode with
  | gap => exact none.trans spelling_nil.symm
  | comment => exact none.trans inComment_nil.symm
  | atom start read =>
    show Gives (Result.finish (Result.endAtom _ src start p read) p) before kinds ↔ InWord read [] kinds
    rw [inWord_nil, Result.endAtom]
    simp only [spells_iff_classify sane]
    cases classified : Atom.classify read.reverse with
    | ok atom =>
      refine (gives_finish [⟨.atom atom, .upTo start p⟩]).trans ?_
      simp only [List.map_cons, List.map_nil, Except.ok.injEq, exists_eq_left']
      rw [List.reverse_eq_iff, List.reverse_singleton]
    | error fault =>
      constructor
      · exact fun gives => absurd gives (unterminated (Nat.succ_pos 0))
      · rintro ⟨_, ⟨⟩, _⟩
  | string start read =>
    exact ⟨fun gives => absurd gives (unterminated (Nat.succ_pos 0)), fun inside => absurd inside not_inString_nil⟩
  | escape start read slash =>
    exact ⟨fun gives => absurd gives (unterminated (Nat.succ_pos 0)), fun inside => absurd inside not_inEscape_nil⟩

theorem gives_run (src : Source) (cs : List Char) (mode : Mode) (p : Position) (before : List Token)
    (kinds : List Token.Kind) (sane : Sane mode) :
    Gives (run src mode p cs ⟨before, .empty⟩) before kinds ↔ Continues mode cs kinds := by
  induction cs generalizing mode p before kinds with
  | nil => exact gives_nil sane
  | cons c cs ih =>
    cases mode with
    | gap => exact gives_gap ih
    | comment => exact gives_comment ih
    | atom start read => exact gives_word ih sane
    | string start read => exact gives_string ih
    | escape start read slash => exact gives_escape ih

/-- Scanning accepts exactly the lexical grammar: it reports no error and finds tokens of some
kinds, the end behind them, if and only if the text spells these kinds. -/
theorem tokens_exact (src : Source) (kinds : List Token.Kind) :
    (src.tokens.2.hasErrors = false ∧ src.tokens.1.map (·.kind) = kinds ++ [.finish]) ↔
      Spelling false src.text.toList kinds := by
  have scanned : _ ↔ Spelling false src.text.toList kinds :=
    gives_run src src.text.toList .gap .first [] kinds trivial
  rw [← scanned]
  simp only [Source.tokens, Gives, Collector.hasErrors, List.map_reverse, List.reverse_eq_iff,
    decide_eq_false_iff_not, Nat.pos_iff_ne_zero, not_not, List.reverse_append, List.reverse_singleton,
    List.singleton_append, List.map_nil, List.append_nil]

end CheckedLisp.Lexical
