import CheckedLisp.Tree

/-! A tree is whole when each of its brackets was closed and each of its quote marks has something
to quote. Grouping by brackets and writing the brackets out again undo each other as long as all
trees are whole. -/
namespace CheckedLisp.Tree

mutual

/-- The tokens that a tree was read from. -/
def flatten : Tree → List Token
  | atom span value => [⟨.atom value, span⟩]
  | quote mark inner => ⟨.quote, mark⟩ :: inner.flatten
  | list opener items stop => ⟨.opening, opener⟩ :: (flattenAll items ++ [⟨stop.kind, stop.span⟩])
  | stray stop => [⟨stop.kind, stop.span⟩]

def flattenAll : List Tree → List Token
  | [] => []
  | tree :: trees => tree.flatten ++ flattenAll trees

end

mutual

def isWhole : Tree → Bool
  | atom _ _ => true
  | quote _ inner => inner.isWhole
  | list _ items (.closing _) => areWhole items
  | list _ _ (.finish _) => false
  | stray _ => false

def areWhole : List Tree → Bool
  | [] => true
  | tree :: trees => tree.isWhole && areWhole trees

end

theorem flattenAll_append (first second : List Tree) :
    flattenAll (first ++ second) = flattenAll first ++ flattenAll second := by
  induction first with
  | nil => rfl
  | cons tree trees ih => simp [flattenAll, ih]

theorem areWhole_append (first second : List Tree) :
    areWhole (first ++ second) = (areWhole first && areWhole second) := by
  induction first with
  | nil => rfl
  | cons tree trees ih => simp [areWhole, ih, Bool.and_assoc]

theorem areWhole_reverse (trees : List Tree) : areWhole trees.reverse = areWhole trees := by
  induction trees with
  | nil => rfl
  | cons tree trees ih => simp [areWhole, areWhole_append, ih, Bool.and_comm]

mutual

theorem kind_ne_finish_of_isWhole : ∀ tree : Tree, tree.isWhole → ∀ token ∈ tree.flatten, token.kind ≠ .finish
  | .atom _ _, _ => by simp [flatten]
  | .quote _ inner, whole => by
    simpa [flatten] using kind_ne_finish_of_isWhole inner whole
  | .list _ items (.closing _), whole => by
    simpa [flatten, Stop.kind, or_imp, forall_and] using kind_ne_finish_of_areWhole items whole

theorem kind_ne_finish_of_areWhole : ∀ trees : List Tree, areWhole trees →
    ∀ token ∈ flattenAll trees, token.kind ≠ .finish
  | [], _ => by simp [flattenAll]
  | tree :: trees, whole => by
    simp only [areWhole, Bool.and_eq_true] at whole
    rw [flattenAll, List.forall_mem_append]
    exact ⟨kind_ne_finish_of_isWhole tree whole.1, kind_ne_finish_of_areWhole trees whole.2⟩

end

namespace Reading

mutual

/-- Feeding the tokens of a whole tree adds the tree. -/
theorem foldl_feed_flatten (r : Reading) : ∀ tree : Tree, tree.isWhole →
    tree.flatten.foldl feed r = r.add tree
  | .atom _ _, _ => rfl
  | .quote mark inner, whole => foldl_feed_flatten ⟨.quote mark :: r.pending, r.done⟩ inner whole
  | .list opener items (.closing close), whole => by
    have fed := foldl_feed_flattenAll opener [] r.pending r.done items whole
    rw [flatten, List.foldl_cons, List.foldl_append]
    show List.foldl feed (List.foldl feed ⟨.list opener [] :: r.pending, r.done⟩ (flattenAll items)) _ = _
    rw [fed, List.append_nil]
    simp [feed, Stop.kind, Stop.span, Reading.close, settle, add]

theorem foldl_feed_flattenAll (opener : Span) (before : List Tree) (pending : List Pending)
    (done : List Tree) : ∀ trees : List Tree, areWhole trees →
    (flattenAll trees).foldl feed ⟨.list opener before :: pending, done⟩ =
      ⟨.list opener (trees.reverse ++ before) :: pending, done⟩
  | [], _ => rfl
  | tree :: trees, whole => by
    simp only [areWhole, Bool.and_eq_true] at whole
    rw [flattenAll, List.foldl_append, foldl_feed_flatten _ tree whole.1]
    show (flattenAll trees).foldl feed ⟨.list opener (tree :: before) :: pending, done⟩ = _
    rw [foldl_feed_flattenAll opener (tree :: before) pending done trees whole.2]
    simp

end

theorem foldl_feed_top (done : List Tree) {trees : List Tree} (whole : areWhole trees) :
    (flattenAll trees).foldl feed ⟨[], done⟩ = ⟨[], trees.reverse ++ done⟩ := by
  induction trees generalizing done with
  | nil => rfl
  | cons tree trees ih =>
    simp only [areWhole, Bool.and_eq_true] at whole
    rw [flattenAll, List.foldl_append, foldl_feed_flatten _ tree whole.1]
    show (flattenAll trees).foldl feed ⟨[], tree :: done⟩ = _
    rw [ih (tree :: done) whole.2]
    simp

end Reading

theorem ofTokens_of_takeWhile {tokens : List Token} {trees : List Tree} (whole : areWhole trees)
    (same : tokens.takeWhile (·.kind ≠ .finish) = flattenAll trees) : ofTokens tokens = trees := by
  unfold ofTokens
  rw [same, Reading.start, Reading.foldl_feed_top [] whole]
  simp [Reading.trees, Reading.unwind]

namespace Pending

def tokens : Pending → List Token
  | quote mark => [⟨.quote, mark⟩]
  | list opener items => ⟨.opening, opener⟩ :: flattenAll items.reverse

def isWhole : Pending → Bool
  | quote _ => true
  | list _ items => areWhole items

end Pending

namespace Reading

/-- The tokens of what has been read, as far as it is whole. -/
def tokens (r : Reading) : List Token := flattenAll r.done.reverse ++ r.pending.reverse.flatMap Pending.tokens

def isWhole (r : Reading) : Bool := areWhole r.done && r.pending.all Pending.isWhole

theorem tokens_attach (tree : Tree) (pending : List Pending) (done : List Tree) :
    (attach tree pending done).tokens = tokens ⟨pending, done⟩ ++ tree.flatten := by
  induction pending generalizing tree with
  | nil => simp [attach, tokens, flattenAll_append, flattenAll]
  | cons first rest ih =>
    cases first with
    | quote mark =>
      rw [attach, ih]
      simp [tokens, Pending.tokens, flatten]
    | list opener items => simp [attach, tokens, Pending.tokens, flattenAll_append, flattenAll]

theorem isWhole_attach (tree : Tree) (pending : List Pending) (done : List Tree) :
    (attach tree pending done).isWhole = (tree.isWhole && isWhole ⟨pending, done⟩) := by
  induction pending generalizing tree with
  | nil => simp [attach, isWhole, areWhole]
  | cons first rest ih =>
    cases first with
    | quote mark =>
      rw [attach, ih]
      simp [isWhole, Pending.isWhole, Tree.isWhole]
    | list opener items =>
      simp only [attach, isWhole, Pending.isWhole, areWhole, List.all_cons]
      grind

theorem isWhole_add_stray (r : Reading) (stop : Stop) : (r.add (.stray stop)).isWhole = false := by
  simp [add, isWhole_attach, Tree.isWhole]

/-- A `)` keeps a reading whole only if it closes a list with no quote mark left open. -/
theorem pending_of_isWhole_close {r : Reading} {span : Span}
    (whole : (r.close (.closing span)).isWhole) :
    ∃ opener items pending, r.pending = .list opener items :: pending := by
  have strays := isWhole_add_stray r (.closing span)
  obtain ⟨pending, done⟩ := r
  match pending with
  | .list opener items :: pending => exact ⟨opener, items, pending, rfl⟩
  | [] =>
    have same : Reading.close ⟨[], done⟩ (.closing span) = add ⟨[], done⟩ (.stray (.closing span)) := rfl
    rw [same, strays] at whole
    cases whole
  | .quote mark :: pending =>
    simp only [Reading.close, settle] at whole
    generalize add ⟨.quote mark :: pending, done⟩ (.stray (.closing span)) = settled at whole strays
    split at whole
    · next opener items outer found =>
      obtain ⟨settledPending, settledDone⟩ := settled
      cases found
      rw [isWhole_attach, Tree.isWhole, areWhole_reverse] at whole
      simp only [isWhole, List.all_cons, Pending.isWhole] at whole strays
      grind
    · rw [isWhole_add_stray] at whole
      cases whole

theorem feed_of_isWhole {r : Reading} {token : Token} (going : token.kind ≠ .finish)
    (whole : (r.feed token).isWhole) : r.isWhole ∧ (r.feed token).tokens = r.tokens ++ [token] := by
  obtain ⟨kind, span⟩ := token
  cases kind with
  | opening => exact ⟨by simpa [feed, isWhole, Pending.isWhole, areWhole] using whole,
      by simp [feed, tokens, Pending.tokens, flattenAll]⟩
  | closing =>
    obtain ⟨opener, items, outer, found⟩ := pending_of_isWhole_close whole
    obtain ⟨pending, done⟩ := r
    cases found
    have closed : feed ⟨.list opener items :: outer, done⟩ ⟨.closing, span⟩ =
        attach (.list opener items.reverse (.closing span)) outer done := rfl
    rw [closed, isWhole_attach] at whole
    rw [closed, tokens_attach]
    constructor
    · simpa [isWhole, Pending.isWhole, Tree.isWhole, areWhole_reverse, Bool.and_left_comm] using whole
    · simp [tokens, Pending.tokens, flatten, Stop.kind, Stop.span]
  | quote => exact ⟨by simpa [feed, isWhole, Pending.isWhole] using whole,
      by simp [feed, tokens, Pending.tokens]⟩
  | atom value =>
    have added : feed r ⟨.atom value, span⟩ = attach (.atom span value) r.pending r.done := rfl
    rw [added, isWhole_attach] at whole
    rw [added, tokens_attach]
    exact ⟨by simpa [Tree.isWhole] using whole, rfl⟩
  | finish => exact absurd rfl going

theorem foldl_feed_of_isWhole {fed : List Token} (going : ∀ token ∈ fed, token.kind ≠ .finish)
    {r : Reading} (whole : (fed.foldl feed r).isWhole) :
    r.isWhole ∧ (fed.foldl feed r).tokens = r.tokens ++ fed := by
  induction fed generalizing r with
  | nil => simpa using whole
  | cons token fed ih =>
    obtain ⟨first, later⟩ := List.forall_mem_cons.1 going
    obtain ⟨here, read⟩ := ih later whole
    obtain ⟨start, fedOne⟩ := feed_of_isWhole first here
    refine ⟨start, ?_⟩
    rw [List.foldl_cons, read, fedOne, List.append_assoc]
    rfl

/-- What the end has to close is not whole. -/
theorem unwind_of_areWhole {span : Span} {inner : Option Tree} {pending : List Pending} {done : List Tree}
    (broken : ∀ tree ∈ inner, tree.isWhole = false)
    (whole : areWhole (unwind (.finish span) inner pending done)) :
    pending = [] ∧ inner = none := by
  induction pending generalizing inner with
  | nil =>
    cases inner with
    | none => exact ⟨rfl, rfl⟩
    | some tree =>
      simp [unwind, areWhole, broken tree rfl] at whole
  | cons first rest ih =>
    cases first with
    | quote mark =>
      have worse : ∀ tree ∈ some (Tree.quote mark (inner.getD (.stray (.finish span)))),
          tree.isWhole = false := by
        rintro tree ⟨⟩
        cases inner with
        | none => rfl
        | some tree => exact broken tree rfl
      exact absurd (ih worse whole).2 (by simp)
    | list opener items =>
      have worse : ∀ tree ∈ some (Tree.list opener (inner.toList ++ items).reverse (.finish span)),
          tree.isWhole = false := by
        rintro tree ⟨⟩
        rfl
      exact absurd (ih worse whole).2 (by simp)

end Reading

theorem flattenAll_ofTokens {tokens : List Token} (whole : areWhole (ofTokens tokens)) :
    flattenAll (ofTokens tokens) = tokens.takeWhile (·.kind ≠ .finish) := by
  unfold ofTokens Stop.ofTokens Reading.trees at whole ⊢
  have going : ∀ token ∈ tokens.takeWhile (·.kind ≠ .finish), token.kind ≠ .finish := by
    intro token inside
    simpa using List.all_eq_true.1 List.all_takeWhile token inside
  generalize tokens.takeWhile (·.kind ≠ .finish) = fed at going whole ⊢
  have read := Reading.foldl_feed_of_isWhole going (r := .start)
  generalize fed.foldl Reading.feed .start = r at read whole ⊢
  obtain ⟨pending, done⟩ := r
  rw [areWhole_reverse] at whole
  obtain ⟨rfl, -⟩ := Reading.unwind_of_areWhole (by simp) whole
  have all : Reading.isWhole ⟨[], done⟩ := by simpa [Reading.isWhole, Reading.unwind] using whole
  simpa [Reading.tokens, Reading.start, flattenAll, Reading.unwind] using (read all).2

end CheckedLisp.Tree
