import CheckedLisp.Token.Basic

/-! Tokens are first grouped by their brackets alone, before any form is looked at. Every token list
has its trees: a list that is never closed is closed by the end, and a `)` or an end that stands
where an expression should is a tree of its own. -/
namespace CheckedLisp

/-- What ends a list: its bracket, or the end of the tokens. -/
inductive Stop where
  | closing (span : Span)
  | finish (span : Span)
  deriving DecidableEq, Repr

namespace Stop

def span : Stop → Span
  | closing s | finish s => s

def kind : Stop → Token.Kind
  | closing _ => .closing
  | finish _ => .finish

/-- The first end among the tokens. Without one they end where a source begins. -/
def ofTokens (tokens : List Token) : Stop :=
  .finish (((tokens.find? (·.kind = .finish)).map (·.span)).getD (.point .first))

end Stop

inductive Tree where
  | atom (span : Span) (value : Atom)
  | quote (mark : Span) (inner : Tree)
  | list (opener : Span) (items : List Tree) (stop : Stop)
  /-- No expression: it was expected before `stop`. -/
  | stray (stop : Stop)

namespace Tree

/-- The first token of a tree. -/
def lead : Tree → Token
  | atom span value => ⟨.atom value, span⟩
  | quote mark _ => ⟨.quote, mark⟩
  | list opener _ _ => ⟨.opening, opener⟩
  | stray stop => ⟨stop.kind, stop.span⟩

/-- A quote mark or a bracket that waits for what belongs to it. -/
inductive Pending where
  | quote (mark : Span)
  /-- The items are held the latest first. -/
  | list (opener : Span) (items : List Tree)

/-- What has been read: the open brackets and quote marks, innermost first, and the
finished top-level trees, the latest first. -/
structure Reading where
  pending : List Pending
  done : List Tree

namespace Reading

def start : Reading := ⟨[], []⟩

/-- Hands a finished tree to what waits for it. -/
def attach (tree : Tree) : List Pending → List Tree → Reading
  | [], done => ⟨[], tree :: done⟩
  | .quote mark :: pending, done => attach (.quote mark tree) pending done
  | .list opener items :: pending, done => ⟨.list opener (tree :: items) :: pending, done⟩

def add (r : Reading) (tree : Tree) : Reading := attach tree r.pending r.done

/-- Gives a quote mark with nothing to quote the stop in front of it. -/
def settle (r : Reading) (stop : Stop) : Reading :=
  match r.pending with
  | .quote _ :: _ => r.add (.stray stop)
  | _ => r

/-- Reads a `)`. -/
def close (r : Reading) (stop : Stop) : Reading :=
  let r := r.settle stop
  match r.pending with
  | .list opener items :: pending => attach (.list opener items.reverse stop) pending r.done
  | _ => r.add (.stray stop)

/-- Closes all that is open; `inner` is the tree that has just been closed. -/
def unwind (stop : Stop) : Option Tree → List Pending → List Tree → List Tree
  | inner, [], done => inner.toList ++ done
  | inner, .quote mark :: pending, done =>
    unwind stop (some (.quote mark (inner.getD (.stray stop)))) pending done
  | inner, .list opener items :: pending, done =>
    unwind stop (some (.list opener (inner.toList ++ items).reverse stop)) pending done

/-- All top-level trees, when the end is reached. -/
def trees (r : Reading) (stop : Stop) : List Tree := (unwind stop none r.pending r.done).reverse

/-- Reads one token that is not the end. -/
def feed (r : Reading) (token : Token) : Reading :=
  match token.kind with
  | .opening => ⟨.list token.span [] :: r.pending, r.done⟩
  | .closing => r.close (.closing token.span)
  | .quote => ⟨.quote token.span :: r.pending, r.done⟩
  | .atom value => r.add (.atom token.span value)
  | .finish => r

end Reading

/-- The trees of the tokens before the first end. -/
def ofTokens (tokens : List Token) : List Tree :=
  ((tokens.takeWhile (·.kind ≠ .finish)).foldl Reading.feed .start).trees (.ofTokens tokens)

end Tree

end CheckedLisp
