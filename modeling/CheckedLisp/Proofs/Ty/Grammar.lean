import CheckedLisp.Ty.Reader

/-! The grammar of annotations,

    Type     = Atom | Callable | Union | Variadic
    Callable = ( Callable ( Type* ) Type )
    Union    = ( Union Type* )
    Variadic = ( Variadic Type )
    Atom     = Any | Bool | Float64 | Int | String | Unit

as a relation between lexemes and the type that they denote, and the lexemes of a text with their
places. -/
namespace CheckedLisp.TypeText

def atoms : List (String × Ty) :=
  [("Any", .any), ("Bool", .bool), ("Float64", .float), ("Int", .int), ("String", .string), ("Unit", .unit)]

def heads : List String := ["Callable", "Union", "Variadic"]

mutual

inductive Derives : List Lexeme → Ty → Prop
  | atom {name ty} (known : (name, ty) ∈ atoms) : Derives [.word name] ty
  | callable {params result tys ty} (derivedParams : DerivesAll params tys) (derived : Derives result ty) :
    Derives (.opening :: .word "Callable" :: .opening :: (params ++ .closing :: (result ++ [.closing])))
      (.function tys ty)
  | union {members tys} (derived : DerivesAll members tys) :
    Derives (.opening :: .word "Union" :: (members ++ [.closing])) (.join tys)
  | variadic {element ty} (derived : Derives element ty) :
    Derives (.opening :: .word "Variadic" :: (element ++ [.closing])) (.variadic ty)

inductive DerivesAll : List Lexeme → List Ty → Prop
  | nil : DerivesAll [] []
  | cons {first rest ty tys} (derived : Derives first ty) (others : DerivesAll rest tys) :
    DerivesAll (first ++ rest) (ty :: tys)

end

/-- The characters that words are made of. -/
def isPlain (c : Char) : Bool := c ≠ '(' && c ≠ ')' && !Text.isBlank c

/-- `Splits position cs tokens`: the characters, the first of them at `position`, consist of
these tokens and of blanks. A word is as long as it can be. -/
inductive Splits : Nat → List Char → List Token → Prop
  | nil {position} : Splits position [] []
  | blank {position c cs tokens} (blank : Text.isBlank c) (others : Splits (position + 1) cs tokens) :
    Splits position (c :: cs) tokens
  | opening {position cs tokens} (others : Splits (position + 1) cs tokens) :
    Splits position ('(' :: cs) (⟨.opening, position⟩ :: tokens)
  | closing {position cs tokens} (others : Splits (position + 1) cs tokens) :
    Splits position (')' :: cs) (⟨.closing, position⟩ :: tokens)
  | word {position word rest tokens} (nonempty : word ≠ []) (plain : ∀ c ∈ word, isPlain c)
    (ends : ∀ c ∈ rest.head?, isPlain c = false) (others : Splits (position + word.length) rest tokens) :
    Splits position (word ++ rest) (⟨.word (String.ofList word), position⟩ :: tokens)

def lexemes (tokens : List Token) : List Lexeme := tokens.map (·.lexeme)

/-- A whole annotation and its end. -/
def Sentence (read : List Lexeme) : Prop := ∃ body ty, read = body ++ [.finish] ∧ Derives body ty

/-- What some annotation begins with. -/
def Possible (read : List Lexeme) : Prop := ∃ more, Sentence (read ++ more)

/-- A type may be named next, or the head of a compound type may stand there. -/
def ExpectsName (read : List Lexeme) : Prop :=
  ∃ name ∈ atoms.map (·.1) ++ heads, Possible (read ++ [.word name])

/-- The first of the tokens with which no annotation begins. -/
structure FirstImpossible (tokens before : List Token) (token : Token) : Prop where
  here : before ++ [token] <+: tokens
  possible : ∀ earlier, earlier <+: before → Possible (lexemes earlier)
  impossible : ¬ Possible (lexemes (before ++ [token]))

def Fault.position? : Fault → Option Nat
  | unknownType position _ | expected position _ _ => some position
  | several _ => none

end CheckedLisp.TypeText
