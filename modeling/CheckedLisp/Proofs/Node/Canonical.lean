import CheckedLisp.Node.Fault
import CheckedLisp.Proofs.Token.Lexing
import CheckedLisp.Proofs.Token.Classification

/-! The nodes whose text says all there is to say about them: their literals and names are spelled
as literals and names are read, and no form looks like another one. The text of a canonical node is
scanned as the tokens of its forms. -/
namespace CheckedLisp

open Scan Lexical

/-- A text that is read as a symbol. -/
def isSymbol (name : String) : Bool :=
  name ≠ "" && name.toList.all (fun c => !isDelimiter c) && name.toList.head? ≠ some '#' &&
    !(Atom.unsigned name.toList).head?.any Char.isDigit

namespace Atom

/-- Integers are spelled `-?[0-9]+` and floats `-?[0-9]+\.[0-9]+`. -/
def Canonical : Atom → Prop
  | bool _ => True
  | int digits => Text.isDigits (unsigned digits.toList)
  | float digits => ∃ whole fraction, unsigned digits.toList = whole ++ '.' :: fraction ∧
      Text.isDigits whole ∧ Text.isDigits fraction
  | string _ => True
  | symbol name => isSymbol name

end Atom

namespace Node

mutual

/-- `inLambda` says whether some function encloses the node. -/
def Canonical (inLambda : Bool) : Node → Prop
  | unit _ => True
  | atom _ value => value.Canonical
  | block _ forms => AllCanonical inLambda forms
  | call _ callee args =>
    (∀ span (keyword : Keyword), callee ≠ .atom span (.symbol keyword.name)) ∧
      Canonical inLambda callee ∧ AllCanonical inLambda args
  | conditional _ cases otherwise =>
    cases ≠ [] ∧ (2 ≤ cases.length → ∀ case ∈ cases, ∀ span, case.1 ≠ .atom span (.symbol "else")) ∧
      CasesCanonical inLambda cases ∧ Canonical inLambda otherwise
  | loop _ predicate body => Canonical inLambda predicate ∧ Canonical inLambda body
  | define _ name value => isSymbol name.text ∧ Canonical inLambda value
  | assign _ name value => isSymbol name.text ∧ Canonical inLambda value
  | lambda _ params _ body =>
    (∀ name ∈ params, isSymbol name.text) ∧ (params.map (·.text)).Nodup ∧ Canonical true body
  | quote _ inner => Canonical inLambda inner
  | ret _ value => inLambda = true ∧ Canonical inLambda value

def AllCanonical (inLambda : Bool) : List Node → Prop
  | [] => True
  | node :: nodes => Canonical inLambda node ∧ AllCanonical inLambda nodes

def CasesCanonical (inLambda : Bool) : List (Node × Node) → Prop
  | [] => True
  | (predicate, body) :: cases =>
    Canonical inLambda predicate ∧ Canonical inLambda body ∧ CasesCanonical inLambda cases

end

mutual

/-- What every node that is read satisfies: a canonical node, but for how its forms look. -/
def WellFormed (inLambda : Bool) : Node → Prop
  | unit _ => True
  | atom _ value => value.Canonical
  | block _ forms => AllWellFormed inLambda forms
  | call _ callee args => WellFormed inLambda callee ∧ AllWellFormed inLambda args
  | conditional _ cases otherwise =>
    cases ≠ [] ∧ CasesWellFormed inLambda cases ∧ WellFormed inLambda otherwise
  | loop _ predicate body => WellFormed inLambda predicate ∧ WellFormed inLambda body
  | define _ name value => isSymbol name.text ∧ WellFormed inLambda value
  | assign _ name value => isSymbol name.text ∧ WellFormed inLambda value
  | lambda _ params _ body =>
    (∀ name ∈ params, isSymbol name.text) ∧ (params.map (·.text)).Nodup ∧ WellFormed true body
  | quote _ inner => WellFormed inLambda inner
  | ret _ value => inLambda = true ∧ WellFormed inLambda value

def AllWellFormed (inLambda : Bool) : List Node → Prop
  | [] => True
  | node :: nodes => WellFormed inLambda node ∧ AllWellFormed inLambda nodes

def CasesWellFormed (inLambda : Bool) : List (Node × Node) → Prop
  | [] => True
  | (predicate, body) :: cases =>
    WellFormed inLambda predicate ∧ WellFormed inLambda body ∧ CasesWellFormed inLambda cases

end

/-- The name that a node is. -/
def symbol? : Node → Option String
  | atom _ (.symbol name) => some name
  | _ => none

theorem symbol?_eq_some {node : Node} {name : String} :
    node.symbol? = some name ↔ ∃ span, node = .atom span (.symbol name) := by
  constructor
  · intro found
    unfold symbol? at found
    split at found
    · next span _ =>
      cases found
      exact ⟨span, rfl⟩
    · cases found
  · rintro ⟨span, rfl⟩
    rfl

mutual

/-- No call looks like a form with a keyword, and no case like an `else` clause. -/
def Unambiguous : Node → Prop
  | unit _ | atom _ _ => True
  | block _ forms => AllUnambiguous forms
  | call _ callee args =>
    (∀ keyword : Keyword, callee.symbol? ≠ some keyword.name) ∧ Unambiguous callee ∧ AllUnambiguous args
  | conditional _ cases otherwise =>
    (2 ≤ cases.length → ∀ case ∈ cases, case.1.symbol? ≠ some "else") ∧
      CasesUnambiguous cases ∧ Unambiguous otherwise
  | loop _ predicate body => Unambiguous predicate ∧ Unambiguous body
  | define _ _ value | assign _ _ value | ret _ value => Unambiguous value
  | lambda _ _ _ body => Unambiguous body
  | quote _ inner => Unambiguous inner

def AllUnambiguous : List Node → Prop
  | [] => True
  | node :: nodes => Unambiguous node ∧ AllUnambiguous nodes

def CasesUnambiguous : List (Node × Node) → Prop
  | [] => True
  | (predicate, body) :: cases => Unambiguous predicate ∧ Unambiguous body ∧ CasesUnambiguous cases

end

theorem symbol?_ne {node : Node} {name : String} :
    node.symbol? ≠ some name ↔ ∀ span, node ≠ .atom span (.symbol name) := by
  rw [Ne, symbol?_eq_some, not_exists]

mutual

theorem canonical_iff (inLambda : Bool) : ∀ node : Node,
    node.Canonical inLambda ↔ node.WellFormed inLambda ∧ node.Unambiguous
  | .unit _ | .atom _ _ => by simp [Canonical, WellFormed, Unambiguous]
  | .block _ forms => by
    simp only [Canonical, WellFormed, Unambiguous, allCanonical_iff inLambda forms]
  | .call _ callee args => by
    simp only [Canonical, WellFormed, Unambiguous, symbol?_ne, canonical_iff inLambda callee,
      allCanonical_iff inLambda args]
    grind
  | .conditional _ cases otherwise => by
    simp only [Canonical, WellFormed, Unambiguous, symbol?_ne, canonical_iff inLambda otherwise,
      casesCanonical_iff inLambda cases]
    grind
  | .loop _ predicate body => by
    simp only [Canonical, WellFormed, Unambiguous, canonical_iff inLambda predicate,
      canonical_iff inLambda body]
    grind
  | .define _ name value | .assign _ name value => by
    simp only [Canonical, WellFormed, Unambiguous, canonical_iff inLambda value, and_assoc]
  | .lambda _ params _ body => by
    simp only [Canonical, WellFormed, Unambiguous, canonical_iff true body, and_assoc]
  | .quote _ inner => by
    simp only [Canonical, WellFormed, Unambiguous, canonical_iff inLambda inner]
  | .ret _ value => by
    simp only [Canonical, WellFormed, Unambiguous, canonical_iff inLambda value, and_assoc]

theorem allCanonical_iff (inLambda : Bool) : ∀ nodes : List Node,
    AllCanonical inLambda nodes ↔ AllWellFormed inLambda nodes ∧ AllUnambiguous nodes
  | [] => by simp [AllCanonical, AllWellFormed, AllUnambiguous]
  | node :: nodes => by
    simp only [AllCanonical, AllWellFormed, AllUnambiguous, canonical_iff inLambda node,
      allCanonical_iff inLambda nodes]
    grind

theorem casesCanonical_iff (inLambda : Bool) : ∀ cases : List (Node × Node),
    CasesCanonical inLambda cases ↔ CasesWellFormed inLambda cases ∧ CasesUnambiguous cases
  | [] => by simp [CasesCanonical, CasesWellFormed, CasesUnambiguous]
  | (predicate, body) :: cases => by
    simp only [CasesCanonical, CasesWellFormed, CasesUnambiguous, canonical_iff inLambda predicate,
      canonical_iff inLambda body, casesCanonical_iff inLambda cases]
    grind

end

end Node

namespace Atom

theorem spells_symbol {name : String} (symbol : isSymbol name) : Spells name.toList (.symbol name) := by
  simp only [isSymbol, Bool.and_eq_true, decide_eq_true_eq, Bool.not_eq_true', List.all_eq_true] at symbol
  obtain ⟨⟨⟨nonempty, plain⟩, unmarked⟩, wordy⟩ := symbol
  have spelled := Spells.symbol (mt String.toList_eq_nil_iff.1 nonempty) plain unmarked
    (by simp [startsNumber_iff, wordy])
  rwa [String.ofList_toList] at spelled

/-- A canonical atom is spelled by its text. -/
theorem spells_text {a : Atom} (canonical : a.Canonical) (word : ∀ content, a ≠ .string content) :
    Spells a.text.toList a := by
  cases a with
  | bool value => cases value <;> constructor
  | int digits =>
    obtain ⟨sign, signed, spelled⟩ := exists_sign digits.toList
    have spells := Spells.int signed canonical
    rwa [← spelled, String.ofList_toList] at spells
  | float digits =>
    obtain ⟨whole, fraction, parts, before, behind⟩ := canonical
    obtain ⟨sign, signed, spelled⟩ := exists_sign digits.toList
    have spells := Spells.float signed before behind
    rwa [← parts, ← spelled, String.ofList_toList] at spells
  | string content => exact absurd rfl (word content)
  | symbol name => exact spells_symbol canonical

theorem canonical_of_spells {cs : List Char} {a : Atom} (spelled : Spells cs a) : a.Canonical := by
  cases spelled with
  | yes => trivial
  | no => trivial
  | int signed whole =>
    show Text.isDigits (unsigned (String.ofList _).toList)
    rwa [String.toList_ofList, (numeric_int signed whole).2]
  | float signed before behind =>
    refine ⟨_, _, ?_, before, behind⟩
    rw [String.toList_ofList, (numeric_float signed before behind).2]
  | symbol nonempty plain unmarked other =>
    rw [startsNumber_iff] at other
    show isSymbol (String.ofList cs) = true
    simpa [isSymbol, nonempty, unmarked, other] using plain

theorem lexes_of_spells {text : String} {a : Atom} (spelled : Spells text.toList a) :
    Lexes text [.atom a] := by
  refine lexes_atom ?_ ?_ (classify_of_spells spelled)
  · simpa using spelled.plain
  · exact mt String.toList_eq_nil_iff.2 spelled.ne_nil

theorem lexes_symbol {name : String} (symbol : isSymbol name) : Lexes name [.atom (.symbol name)] :=
  lexes_of_spells (spells_symbol symbol)

theorem lexes_text {a : Atom} (canonical : a.Canonical) : Lexes a.text [.atom a] := by
  cases a with
  | string content => exact lexes_quoted content
  | _ => exact lexes_of_spells (spells_text canonical (by rintro _ ⟨⟩))

end Atom

namespace Node

def word (text : String) : Token.Kind := .atom (.symbol text)

def docKinds : Option String → List (List Token.Kind)
  | none => []
  | some doc => [[.atom (.string doc)]]

mutual

/-- The kinds of the tokens that the text of a node is made of. -/
def kinds : Node → List Token.Kind
  | unit _ => bracketed []
  | atom _ value => [.atom value]
  | block _ forms => bracketed ([word "begin"] :: kindsEach forms)
  | call _ callee args => bracketed (kinds callee :: kindsEach args)
  | conditional _ [(predicate, body)] otherwise =>
    bracketed [[word "if"], kinds predicate, kinds body, kinds otherwise]
  | conditional _ cases otherwise =>
    bracketed ([word "cond"] :: (caseKinds cases ++ [bracketed [[word "else"], kinds otherwise]]))
  | loop _ predicate body => bracketed [[word "while"], kinds predicate, kinds body]
  | define _ name value => bracketed [[word "define"], [word name.text], kinds value]
  | assign _ name value => bracketed [[word "set!"], [word name.text], kinds value]
  | lambda _ params doc body =>
    bracketed ([[word "lambda"], bracketed (params.map fun name => [word name.text])] ++ docKinds doc ++
      [kinds body])
  | quote _ inner => bracketed [[word "quote"], kinds inner]
  | ret _ value => bracketed [[word "return!"], kinds value]

def kindsEach : List Node → List (List Token.Kind)
  | [] => []
  | node :: nodes => kinds node :: kindsEach nodes

def caseKinds : List (Node × Node) → List (List Token.Kind)
  | [] => []
  | (predicate, body) :: cases => bracketed [kinds predicate, kinds body] :: caseKinds cases

end

theorem lexes_keyword (keyword : Keyword) : Lexes keyword.name [word keyword.name] := by
  cases keyword <;> exact Atom.lexes_symbol rfl

theorem lexes_else : Lexes "else" [word "else"] :=
  Atom.lexes_symbol rfl

theorem lexes_params {params : List Name} (symbols : ∀ name ∈ params, isSymbol name.text) :
    List.Forall₂ Lexes (params.map (·.text)) (params.map fun name => [word name.text]) := by
  induction params with
  | nil => exact .nil
  | cons name params ih =>
    obtain ⟨first, others⟩ := List.forall_mem_cons.1 symbols
    exact .cons (Atom.lexes_symbol first) (ih others)

theorem lexes_doc (doc : Option String) : List.Forall₂ Lexes (docTexts doc) (docKinds doc) := by
  cases doc with
  | none => exact .nil
  | some text => exact .cons (lexes_quoted text) .nil

mutual

/-- The text of a well-formed node is scanned as the tokens of its forms. -/
theorem lexes_of_wellFormed {inLambda : Bool} : ∀ {node : Node}, node.WellFormed inLambda →
    Lexes node.text node.kinds
  | .unit _, _ => by
    rw [text, kinds]
    exact lexes_parens .nil
  | .atom _ value, wellFormed => by
    rw [text, kinds]
    exact Atom.lexes_text wellFormed
  | .block _ forms, wellFormed => by
    rw [text, kinds]
    exact lexes_parens (.cons (lexes_keyword .sequence) (lexes_texts wellFormed))
  | .call _ callee args, ⟨head, rest⟩ => by
    rw [text, kinds]
    exact lexes_parens (.cons (lexes_of_wellFormed head) (lexes_texts rest))
  | .conditional _ [] _, ⟨nonempty, _⟩ => absurd rfl nonempty
  | .conditional _ [(predicate, body)] otherwise, ⟨_, ⟨first, second, _⟩, third⟩ => by
    rw [text, kinds]
    exact lexes_parens (.cons (lexes_keyword .choice) (.cons (lexes_of_wellFormed first)
      (.cons (lexes_of_wellFormed second) (.cons (lexes_of_wellFormed third) .nil))))
  | .conditional _ (first :: second :: cases) otherwise, ⟨_, each, last⟩ => by
    have clause := lexes_parens (.cons lexes_else (.cons (lexes_of_wellFormed last) .nil))
    rw [text, kinds]
    · exact lexes_parens (.cons (lexes_keyword .cases)
        (List.rel_append (lexes_caseTexts each) (.cons clause .nil)))
    · rintro _ _ ⟨⟩
    · rintro _ _ ⟨⟩
  | .loop _ predicate body, ⟨first, second⟩ => by
    rw [text, kinds]
    exact lexes_parens (.cons (lexes_keyword .loop) (.cons (lexes_of_wellFormed first)
      (.cons (lexes_of_wellFormed second) .nil)))
  | .define _ name value, ⟨symbol, wellFormed⟩ => by
    rw [text, kinds]
    exact lexes_parens (.cons (lexes_keyword .define) (.cons (Atom.lexes_symbol symbol)
      (.cons (lexes_of_wellFormed wellFormed) .nil)))
  | .assign _ name value, ⟨symbol, wellFormed⟩ => by
    rw [text, kinds]
    exact lexes_parens (.cons (lexes_keyword .assign) (.cons (Atom.lexes_symbol symbol)
      (.cons (lexes_of_wellFormed wellFormed) .nil)))
  | .lambda _ params doc body, ⟨symbols, _, wellFormed⟩ => by
    have head := List.Forall₂.cons (lexes_keyword .lambda)
      (.cons (lexes_parens (lexes_params symbols)) .nil)
    rw [text, kinds]
    exact lexes_parens (List.rel_append (List.rel_append head (lexes_doc doc))
      (.cons (lexes_of_wellFormed wellFormed) .nil))
  | .quote _ inner, wellFormed => by
    rw [text, kinds]
    exact lexes_parens (.cons (lexes_keyword .quote) (.cons (lexes_of_wellFormed wellFormed) .nil))
  | .ret _ value, ⟨_, wellFormed⟩ => by
    rw [text, kinds]
    exact lexes_parens (.cons (lexes_keyword .ret) (.cons (lexes_of_wellFormed wellFormed) .nil))

theorem lexes_texts {inLambda : Bool} : ∀ {nodes : List Node}, AllWellFormed inLambda nodes →
    List.Forall₂ Lexes (texts nodes) (kindsEach nodes)
  | [], _ => .nil
  | _ :: _, ⟨first, others⟩ => .cons (lexes_of_wellFormed first) (lexes_texts others)

theorem lexes_caseTexts {inLambda : Bool} : ∀ {cases : List (Node × Node)}, CasesWellFormed inLambda cases →
    List.Forall₂ Lexes (caseTexts cases) (caseKinds cases)
  | [], _ => .nil
  | (_, _) :: _, ⟨predicate, body, others⟩ =>
    .cons (lexes_parens (.cons (lexes_of_wellFormed predicate) (.cons (lexes_of_wellFormed body) .nil)))
      (lexes_caseTexts others)

end

theorem lexes_text {inLambda : Bool} {node : Node} (canonical : node.Canonical inLambda) :
    Lexes node.text node.kinds :=
  lexes_of_wellFormed ((canonical_iff inLambda node).1 canonical).1

end Node

end CheckedLisp
