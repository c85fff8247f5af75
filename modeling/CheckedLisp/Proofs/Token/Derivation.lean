import CheckedLisp.Proofs.Token.Classification

/-! What the first character of a text says about a derivation, where no lexeme is open and inside a
comment, a word and a string. Each equation moves one character to the left. -/
namespace CheckedLisp.Lexical

section Derivations

variable {after : Bool} {c : Char} {cs read : List Char} {kinds : List Token.Kind}

/-- What is left of a source inside a comment. -/
def InComment (cs : List Char) (kinds : List Token.Kind) : Prop :=
  ∃ body rest, cs = body ++ rest ∧ '\n' ∉ body ∧ (∀ c ∈ rest.head?, c = '\n') ∧ Spelling false rest kinds

/-- What is left inside a word; `read` is its first part, the latest character first. -/
def InWord (read cs : List Char) (kinds : List Token.Kind) : Prop :=
  ∃ text rest atom others, cs = text ++ rest ∧ Spells (read.reverse ++ text) atom ∧
    kinds = .atom atom :: others ∧ Spelling true rest others

/-- What is left inside a string; `read` is its first part, the latest character first. -/
def InString (read cs : List Char) (kinds : List Token.Kind) : Prop :=
  ∃ body text rest others, cs = body ++ '"' :: rest ∧ Encodes body text ∧
    kinds = .atom (.string (String.ofList (read.reverse ++ text))) :: others ∧ Spelling false rest others

/-- What is left behind a backslash. -/
def InEscape (read cs : List Char) (kinds : List Token.Kind) : Prop :=
  ∃ mark c rest, cs = mark :: rest ∧ (mark, c) ∈ escapes ∧ InString (c :: read) rest kinds

theorem Gap.cons_cases {rest : List Char} (gap : Gap (c :: cs) rest) :
    (Text.isBlank c ∧ Gap cs rest) ∨
      (c = ';' ∧ ∃ body others, cs = body ++ others ∧ '\n' ∉ body ∧
        (∀ d ∈ (others ++ rest).head?, d = '\n') ∧ Gap others rest) := by
  cases gap with
  | blank blank others => exact .inl ⟨blank, others⟩
  | comment oneLine stops others => exact .inr ⟨rfl, _, _, rfl, oneLine, stops, others⟩

/-- The first character of a spelling belongs to a gap or starts a lexeme. -/
theorem Spelling.cons_cases (spelling : Spelling after (c :: cs) kinds) :
    (Text.isBlank c ∧ Spelling false cs kinds) ∨ (c = ';' ∧ InComment cs kinds) ∨
      ∃ text rest kind others, c :: cs = text ++ rest ∧ kinds = kind :: others ∧ Lexeme text kind ∧
        (after → isWord kind = false) ∧ Spelling (isWord kind) rest others := by
  generalize spelled : c :: cs = all at spelling
  cases spelling with
  | finish ends =>
    subst spelled
    rcases ends.cons_cases with ⟨blank, others⟩ | ⟨rfl, body, others, rfl, oneLine, stops, ends⟩
    · exact .inl ⟨blank, .finish others⟩
    · rw [List.append_nil] at stops
      exact .inr (.inl ⟨rfl, body, others, rfl, oneLine, stops, .finish ends⟩)
  | @lexeme _ gap text rest kind others parts lexeme apart spelling =>
    cases gap with
    | nil =>
      refine .inr (.inr ⟨text, rest, kind, others, rfl, rfl, lexeme, ?_, spelling⟩)
      intro behind
      by_contra word
      exact apart behind (by simpa using word) rfl
    | cons d gap =>
      cases spelled
      rcases parts.cons_cases with ⟨blank, parts⟩ | ⟨rfl, body, later, rfl, oneLine, stops, parts⟩
      · exact .inl ⟨blank, .lexeme parts lexeme (by rintro ⟨⟩) spelling⟩
      · refine .inr (.inl ⟨rfl, body, later ++ (text ++ rest), by simp, oneLine, stops, ?_⟩)
        exact .lexeme parts lexeme (by rintro ⟨⟩) spelling

/-- A gap in front of a spelling parts it from whatever stands before. -/
theorem Spelling.behind (spelling : Spelling false cs kinds) (front : List Char) (nonempty : front ≠ [])
    (parts : ∀ gap rest, gap ++ rest = cs → Gap gap rest → Gap (front ++ gap) rest) :
    Spelling after (front ++ cs) kinds := by
  cases spelling with
  | finish ends => exact .finish (parts _ [] (List.append_nil _) ends)
  | @lexeme _ gap text rest kind kinds here lexeme apart others =>
    rw [← List.append_assoc]
    exact .lexeme (parts gap _ rfl here) lexeme (by simp [nonempty]) others

theorem spelling_nil : Spelling after [] kinds ↔ kinds = [] := by
  constructor
  · intro spelling
    generalize spelled : [] = all at spelling
    cases spelling with
    | finish => rfl
    | lexeme parts lexeme =>
      obtain ⟨-, none⟩ := List.append_eq_nil_iff.1 spelled.symm
      obtain ⟨rfl, rfl⟩ := List.append_eq_nil_iff.1 none
      cases lexeme with
      | word spelled => exact absurd rfl spelled.ne_nil
  · rintro rfl
    exact .finish .nil

theorem isWord_of_spells {text : List Char} {atom : Atom} (spelled : Spells text atom) :
    isWord (.atom atom) = true := by
  cases spelled <;> rfl

theorem not_isDelimiter_iff : isDelimiter c = false ↔
    Text.isBlank c = false ∧ c ≠ ';' ∧ c ≠ '(' ∧ c ≠ ')' ∧ c ≠ '\'' ∧ c ≠ '"' := by
  simp only [isDelimiter, Bool.or_eq_false_iff, beq_eq_false_iff_ne]
  tauto

/-- What a character does to the rest of the derivation, where no lexeme is open. -/
def Onward (after : Bool) (c : Char) (cs : List Char) (kinds : List Token.Kind) : Prop :=
  let marked (kind : Token.Kind) := ∃ others, kinds = kind :: others ∧ Spelling false cs others
  if Text.isBlank c then Spelling false cs kinds
  else if c = ';' then InComment cs kinds
  else if c = '(' then marked .opening
  else if c = ')' then marked .closing
  else if c = '\'' then marked .quote
  else if c = '"' then InString [] cs kinds
  else after = false ∧ InWord [c] cs kinds

theorem onward_of_lexeme {text rest : List Char} {kind : Token.Kind} {others : List Token.Kind}
    (first : c :: cs = text ++ rest) (lexeme : Lexeme text kind) (apart : after → isWord kind = false)
    (spelling : Spelling (isWord kind) rest others) : Onward after c cs (kind :: others) := by
  cases lexeme with
  | opening | closing | quote =>
    cases first
    exact ⟨others, rfl, spelling⟩
  | @string body content encoded =>
    cases first
    exact ⟨body, content, rest, others, by simp, encoded, rfl, spelling⟩
  | @word text atom spelled =>
    obtain ⟨d, ds, rfl⟩ := List.exists_cons_of_ne_nil spelled.ne_nil
    cases first
    have plain := not_isDelimiter_iff.1 (spelled.plain c List.mem_cons_self)
    rw [isWord_of_spells spelled] at apart spelling
    have alone : after = false := by simpa using apart
    simp only [Onward, plain, if_false, Bool.false_eq_true]
    exact ⟨alone, ds, rest, atom, others, rfl, spelled, rfl, spelling⟩

theorem spelling_cons : Spelling after (c :: cs) kinds ↔ Onward after c cs kinds := by
  constructor
  · intro spelling
    rcases spelling.cons_cases with ⟨blank, others⟩ | ⟨rfl, comment⟩ |
      ⟨text, rest, kind, others, first, rfl, lexeme, apart, others⟩
    · simpa only [Onward, blank, if_true] using others
    · exact comment
    · exact onward_of_lexeme first lexeme apart others
  · unfold Onward
    dsimp only
    intro onward
    split at onward
    · next blank => exact onward.behind [c] (by simp) fun _ _ _ gap => .blank blank gap
    split at onward
    · next comment =>
      subst comment
      obtain ⟨body, rest, rfl, oneLine, stops, spelling⟩ := onward
      refine spelling.behind (';' :: body) (by simp) ?_
      rintro gap others rfl parts
      exact .comment oneLine stops parts
    split at onward
    · next mark =>
      subst mark
      obtain ⟨others, rfl, spelling⟩ := onward
      exact .lexeme .nil .opening (by rintro - ⟨⟩) spelling
    split at onward
    · next mark =>
      subst mark
      obtain ⟨others, rfl, spelling⟩ := onward
      exact .lexeme .nil .closing (by rintro - ⟨⟩) spelling
    split at onward
    · next mark =>
      subst mark
      obtain ⟨others, rfl, spelling⟩ := onward
      exact .lexeme .nil .quote (by rintro - ⟨⟩) spelling
    split at onward
    · next mark =>
      subst mark
      obtain ⟨body, content, rest, others, rfl, encoded, rfl, spelling⟩ := onward
      have spelled : Spelling after _ _ := .lexeme .nil (.string encoded) (by rintro - ⟨⟩) spelling
      simpa using spelled
    · obtain ⟨rfl, text, rest, atom, others, rfl, spelled, rfl, spelling⟩ := onward
      rw [← isWord_of_spells spelled] at spelling
      exact .lexeme .nil (.word spelled) (by rintro ⟨⟩) spelling

/-- Before a delimiter it does not matter whether a word ends there. -/
theorem spelling_delimiter (delimits : isDelimiter c = true) :
    Spelling after (c :: cs) kinds ↔ Spelling false (c :: cs) kinds := by
  rw [spelling_cons, spelling_cons]
  by_cases plain : Text.isBlank c = false ∧ c ≠ ';' ∧ c ≠ '(' ∧ c ≠ ')' ∧ c ≠ '\'' ∧ c ≠ '"'
  · rw [not_isDelimiter_iff.2 plain] at delimits
    cases delimits
  · unfold Onward
    grind

theorem not_spelling_true (plain : isDelimiter c = false) : ¬ Spelling true (c :: cs) kinds := by
  have plain := not_isDelimiter_iff.1 plain
  rw [spelling_cons]
  simp [Onward, plain]

theorem inWord_nil : InWord read [] kinds ↔ ∃ atom, Spells read.reverse atom ∧ kinds = [.atom atom] := by
  constructor
  · rintro ⟨text, rest, atom, others, none, spelled, rfl, spelling⟩
    obtain ⟨rfl, rfl⟩ := List.append_eq_nil_iff.1 none.symm
    rw [spelling_nil] at spelling
    rw [List.append_nil] at spelled
    exact ⟨atom, spelled, by rw [spelling]⟩
  · rintro ⟨atom, spelled, rfl⟩
    exact ⟨[], [], atom, [], rfl, by simpa using spelled, rfl, spelling_nil.2 rfl⟩

theorem inWord_delimiter (delimits : isDelimiter c = true) : InWord read (c :: cs) kinds ↔
    ∃ atom others, Spells read.reverse atom ∧ kinds = .atom atom :: others ∧ Spelling false (c :: cs) others := by
  constructor
  · rintro ⟨text, rest, atom, others, same, spelled, rfl, spelling⟩
    cases text with
    | nil =>
      cases same
      rw [List.append_nil] at spelled
      exact ⟨atom, others, spelled, rfl, (spelling_delimiter delimits).1 spelling⟩
    | cons d text =>
      cases same
      rw [spelled.plain c (by simp)] at delimits
      cases delimits
  · rintro ⟨atom, others, spelled, rfl, spelling⟩
    exact ⟨[], c :: cs, atom, others, rfl, by simpa using spelled, rfl, (spelling_delimiter delimits).2 spelling⟩

theorem inWord_plain (plain : isDelimiter c = false) :
    InWord read (c :: cs) kinds ↔ InWord (c :: read) cs kinds := by
  constructor
  · rintro ⟨text, rest, atom, others, same, spelled, rfl, spelling⟩
    cases text with
    | nil =>
      cases same
      exact absurd spelling (not_spelling_true plain)
    | cons d text =>
      cases same
      exact ⟨text, rest, atom, others, rfl, by simpa using spelled, rfl, spelling⟩
  · rintro ⟨text, rest, atom, others, rfl, spelled, rfl, spelling⟩
    exact ⟨c :: text, rest, atom, others, rfl, by simpa using spelled, rfl, spelling⟩

theorem inComment_nil : InComment [] kinds ↔ kinds = [] := by
  constructor
  · rintro ⟨body, rest, none, -, -, spelling⟩
    obtain ⟨rfl, rfl⟩ := List.append_eq_nil_iff.1 none.symm
    exact spelling_nil.1 spelling
  · rintro rfl
    exact ⟨[], [], rfl, by simp, by simp, spelling_nil.2 rfl⟩

theorem inComment_cons :
    InComment (c :: cs) kinds ↔ if c = '\n' then Spelling false cs kinds else InComment cs kinds := by
  have newline : Spelling false ('\n' :: cs) kinds ↔ Spelling false cs kinds := spelling_cons
  constructor
  · rintro ⟨body, rest, same, oneLine, stops, spelling⟩
    cases body with
    | nil =>
      cases same
      obtain rfl : c = '\n' := stops c rfl
      exact newline.1 spelling
    | cons d body =>
      cases same
      rw [List.mem_cons, not_or] at oneLine
      rw [if_neg (Ne.symm oneLine.1)]
      exact ⟨body, rest, rfl, oneLine.2, stops, spelling⟩
  · split
    · next first =>
      subst first
      intro spelling
      exact ⟨[], '\n' :: cs, rfl, by simp, by simp, newline.2 spelling⟩
    · next first =>
      rintro ⟨body, rest, rfl, oneLine, stops, spelling⟩
      exact ⟨c :: body, rest, rfl, by simp [oneLine, Ne.symm first], stops, spelling⟩

theorem mem_escapes {mark d : Char} : (mark, d) ∈ escapes ↔ Text.unescape? mark = some d := by
  simp only [escapes, List.mem_cons, Prod.mk.injEq, List.not_mem_nil, or_false]
  unfold Text.unescape?
  split <;> grind

theorem not_inString_nil : ¬ InString read [] kinds := by
  rintro ⟨body, text, rest, others, none, -⟩
  simp at none

theorem not_inEscape_nil : ¬ InEscape read [] kinds := by
  rintro ⟨mark, c, rest, ⟨⟩, -⟩

theorem inEscape_cons : InEscape read (c :: cs) kinds ↔
    ∃ d, Text.unescape? c = some d ∧ InString (d :: read) cs kinds := by
  constructor
  · rintro ⟨mark, d, rest, ⟨⟩, known, inside⟩
    exact ⟨d, mem_escapes.1 known, inside⟩
  · rintro ⟨d, known, inside⟩
    exact ⟨c, d, cs, rfl, mem_escapes.2 known, inside⟩

theorem inString_quote : InString read ('"' :: cs) kinds ↔
    ∃ others, kinds = .atom (.string (String.ofList read.reverse)) :: others ∧ Spelling false cs others := by
  constructor
  · rintro ⟨body, text, rest, others, same, encoded, rfl, spelling⟩
    cases encoded with
    | nil =>
      cases same
      exact ⟨others, by simp, spelling⟩
    | plain notQuote => 
      cases same
      exact absurd rfl notQuote
    | escape => cases same
  · rintro ⟨others, rfl, spelling⟩
    exact ⟨[], [], cs, others, rfl, .nil, by simp, spelling⟩

theorem inString_slash : InString read ('\\' :: cs) kinds ↔ InEscape read cs kinds := by
  constructor
  · rintro ⟨body, text, rest, others, same, encoded, rfl, spelling⟩
    cases encoded with
    | nil => cases same
    | plain _ notSlash =>
      cases same
      exact absurd rfl notSlash
    | @escape mark d body text known encoded =>
      cases same
      exact ⟨mark, d, _, rfl, known, body, text, rest, others, rfl, encoded, by simp, spelling⟩
  · rintro ⟨mark, d, _, rfl, known, body, text, rest, others, rfl, encoded, rfl, spelling⟩
    exact ⟨'\\' :: mark :: body, d :: text, rest, others, rfl, .escape known encoded, by simp, spelling⟩

theorem inString_plain (notQuote : c ≠ '"') (notSlash : c ≠ '\\') :
    InString read (c :: cs) kinds ↔ InString (c :: read) cs kinds := by
  constructor
  · rintro ⟨body, text, rest, others, same, encoded, rfl, spelling⟩
    cases encoded with
    | nil =>
      cases same
      exact absurd rfl notQuote
    | @plain _ body text _ _ encoded =>
      cases same
      exact ⟨body, text, rest, others, rfl, encoded, by simp, spelling⟩
    | escape =>
      cases same
      exact absurd rfl notSlash
  · rintro ⟨body, text, rest, others, rfl, encoded, rfl, spelling⟩
    exact ⟨c :: body, c :: text, rest, others, rfl, .plain notQuote notSlash encoded, by simp, spelling⟩

end Derivations

end CheckedLisp.Lexical
