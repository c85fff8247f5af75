import CheckedLisp.Diagnostic.Collector
import CheckedLisp.Text.Blank
import CheckedLisp.Text.Quoted
import CheckedLisp.Token.Atom

/-! A source is read one character at a time. The mode says what the characters before belong to: a
gap, a comment, an atom or a string. A malformed lexeme gives an error and no token, and scanning
goes on behind it until the collector is full. -/
namespace CheckedLisp

/-- Blanks, brackets, quote marks and the start of a comment end an atom. -/
def isDelimiter (c : Char) : Bool :=
  Text.isBlank c || c == '(' || c == ')' || c == '\'' || c == '"' || c == ';'

namespace Scan

inductive Mode where
  | gap
  | comment
  /-- Inside an atom; `read` holds its characters, the latest first. -/
  | atom (start : Position) (read : List Char)
  /-- Inside a string; `read` holds its decoded characters, the latest first. -/
  | string (start : Position) (read : List Char)
  /-- After a backslash inside a string. -/
  | escape (start : Position) (read : List Char) (slash : Position)
  deriving DecidableEq, Repr

/-- Tokens found so far, the latest first, and the errors beside them. -/
structure Result where
  tokens : List Token
  errors : Diagnostics

namespace Result

def push (r : Result) (kind : Token.Kind) (span : Span) : Result :=
  ⟨⟨kind, span⟩ :: r.tokens, r.errors⟩

def fail (r : Result) (src : Source) (span : Span) (fault : Token.Fault) : Result :=
  ⟨r.tokens, r.errors.push (src.report span fault.code fault.message)⟩

def finish (r : Result) (p : Position) : Result := r.push .finish (.point p)

/-- Adds the atom with the characters `read`, the latest first, that ends before `p`. -/
def endAtom (r : Result) (src : Source) (start p : Position) (read : List Char) : Result :=
  match Atom.classify read.reverse with
  | .ok atom => r.push (.atom atom) (.upTo start p)
  | .error fault => r.fail src (.upTo start p) fault

/-- Reads `c` at `p`, where no lexeme is open. -/
def enter (r : Result) (p : Position) (c : Char) : Mode × Result :=
  let here := Span.upTo p (p.advance c)
  if Text.isBlank c then (.gap, r)
  else if c = ';' then (.comment, r)
  else if c = '(' then (.gap, r.push .opening here)
  else if c = ')' then (.gap, r.push .closing here)
  else if c = '\'' then (.gap, r.push .quote here)
  else if c = '"' then (.string p [], r)
  else (.atom p [c], r)

/-- Ends what is open when the source ends at `p`. -/
def close (r : Result) (src : Source) (p : Position) : Mode → Result
  | .gap | .comment => r
  | .atom start read => r.endAtom src start p read
  | .string start _ | .escape start _ _ => r.fail src (.upTo start p) .unterminatedString

end Result

/-- Scans the rest of a source from `p`. Whether the collector is full matters only
between lexemes. -/
def run (src : Source) : Mode → Position → List Char → Result → Result
  | mode, p, [], r => (r.close src p mode).finish p
  | .gap, p, c :: cs, r =>
    if r.errors.isFull then r.finish p
    else
      let (mode, r) := r.enter p c
      run src mode (p.advance c) cs r
  | .comment, p, c :: cs, r => run src (if c = '\n' then .gap else .comment) (p.advance c) cs r
  | .atom start read, p, c :: cs, r =>
    if isDelimiter c then
      let r := r.endAtom src start p read
      if r.errors.isFull then r.finish p
      else
        let (mode, r) := r.enter p c
        run src mode (p.advance c) cs r
    else run src (.atom start (c :: read)) (p.advance c) cs r
  | .string start read, p, c :: cs, r =>
    if c = '"' then
      run src .gap (p.advance c) cs
        (r.push (.atom (.string (String.ofList read.reverse))) (.upTo start (p.advance c)))
    else if c = '\\' then run src (.escape start read p) (p.advance c) cs r
    else run src (.string start (c :: read)) (p.advance c) cs r
  | .escape start read slash, p, c :: cs, r =>
    match Text.unescape? c with
    | some d => run src (.string start (d :: read)) (p.advance c) cs r
    | none =>
      run src (.string start (c :: read)) (p.advance c) cs
        (r.fail src (.upTo slash (p.advance c)) (.unknownEscape c))

end Scan

/-- The tokens of a source, the last of them its end, and the errors found on the way. -/
def Source.tokens (src : Source) : List Token × Diagnostics :=
  let r := Scan.run src .gap .first src.text.toList ⟨[], .empty⟩
  (r.tokens.reverse, r.errors)

end CheckedLisp
