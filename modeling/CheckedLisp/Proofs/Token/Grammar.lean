import CheckedLisp.Token.Scan

/-! The lexical grammar,

    Source  = Gap (Lexeme Gap)*
    Gap     = (blank | ; character*)*
    Lexeme  = ( | ) | ' | " (character | \" | \\ | \n | \t)* " | Word
    Word    = #t | #f | -?[0-9]+ | -?[0-9]+\.[0-9]+ | symbol

as relations between characters and the kinds of tokens that they spell. A comment runs up to a
newline or to the end of the source, and two words never touch. -/
namespace CheckedLisp.Lexical

/-- The marks that may follow a backslash, each with what it stands for. -/
def escapes : List (Char × Char) := [('"', '"'), ('\\', '\\'), ('n', '\n'), ('t', '\t')]

/-- `Encodes body text`: between quotes, `body` stands for `text`. -/
inductive Encodes : List Char → List Char → Prop
  | nil : Encodes [] []
  | plain {c body text} (notQuote : c ≠ '"') (notSlash : c ≠ '\\') (others : Encodes body text) :
    Encodes (c :: body) (c :: text)
  | escape {mark c body text} (known : (mark, c) ∈ escapes) (others : Encodes body text) :
    Encodes ('\\' :: mark :: body) (c :: text)

def IsSign (cs : List Char) : Prop := cs = [] ∨ cs = ['-']

/-- A digit comes first, or a minus sign and then a digit. -/
def StartsNumber (cs : List Char) : Prop :=
  ∃ sign digit rest, IsSign sign ∧ digit.isDigit ∧ cs = sign ++ digit :: rest

/-- What stands between delimiters. -/
inductive Spells : List Char → Atom → Prop
  | yes : Spells ['#', 't'] (.bool true)
  | no : Spells ['#', 'f'] (.bool false)
  | int {sign digits} (signed : IsSign sign) (whole : Text.isDigits digits) :
    Spells (sign ++ digits) (.int (String.ofList (sign ++ digits)))
  | float {sign whole fraction} (signed : IsSign sign) (before : Text.isDigits whole)
    (behind : Text.isDigits fraction) :
    Spells (sign ++ (whole ++ '.' :: fraction)) (.float (String.ofList (sign ++ (whole ++ '.' :: fraction))))
  | symbol {cs} (nonempty : cs ≠ []) (plain : ∀ c ∈ cs, isDelimiter c = false)
    (unmarked : cs.head? ≠ some '#') (other : ¬ StartsNumber cs) :
    Spells cs (.symbol (String.ofList cs))

inductive Lexeme : List Char → Token.Kind → Prop
  | opening : Lexeme ['('] .opening
  | closing : Lexeme [')'] .closing
  | quote : Lexeme ['\''] .quote
  | string {body text} (encoded : Encodes body text) :
    Lexeme ('"' :: (body ++ ['"'])) (.atom (.string (String.ofList text)))
  | word {cs atom} (spelled : Spells cs atom) : Lexeme cs (.atom atom)

/-- Only words need something between them. -/
def isWord : Token.Kind → Bool
  | .atom (.string _) => false
  | .atom _ => true
  | _ => false

/-- `Gap gap rest`: before `rest`, the characters `gap` say nothing. -/
inductive Gap : List Char → List Char → Prop
  | nil {rest} : Gap [] rest
  | blank {c gap rest} (blank : Text.isBlank c) (others : Gap gap rest) : Gap (c :: gap) rest
  | comment {body gap rest} (oneLine : '\n' ∉ body) (stops : ∀ c ∈ (gap ++ rest).head?, c = '\n')
    (others : Gap gap rest) : Gap (';' :: (body ++ gap)) rest

/-- `Spelling after text kinds`: behind a word, if `after` says so, the text spells tokens of
these kinds. -/
inductive Spelling : Bool → List Char → List Token.Kind → Prop
  | finish {after : Bool} {gap} (ends : Gap gap []) : Spelling after gap []
  | lexeme {after : Bool} {gap text rest kind kinds} (parts : Gap gap (text ++ rest)) (spelled : Lexeme text kind)
    (apart : after → isWord kind → gap ≠ []) (others : Spelling (isWord kind) rest kinds) :
    Spelling after (gap ++ (text ++ rest)) (kind :: kinds)

end CheckedLisp.Lexical
