import CheckedLisp.Proofs.Node.Derivation

/-! A malformed form costs its own tree only. The other trees keep their tokens, in the order in
which they stand, so the nodes of any tokens, with or without errors, derive from tokens that are
left when some are taken away. -/
namespace CheckedLisp

namespace Tree

/-- The tokens of a tree, if it is whole. -/
def kept (tree : Tree) : List Token := if tree.isWhole then tree.flatten else []

theorem kept_quote_sublist (mark : Span) (inner : Tree) :
    (quote mark inner).kept.Sublist (⟨.quote, mark⟩ :: inner.kept) := by
  unfold kept
  rw [isWhole, flatten]
  split <;> simp

theorem kept_stray (stop : Stop) : (stray stop).kept = [] := rfl

/-- The tokens of what is open, as far as it may still become whole. -/
def Pending.kept (waiting : Pending) : List Token := if waiting.isWhole then waiting.tokens else []

namespace Pending

theorem kept_list_cons_sublist (opener : Span) (tree : Tree) (items : List Tree) :
    (list opener (tree :: items)).kept.Sublist ((list opener items).kept ++ tree.kept) := by
  unfold kept Tree.kept
  rw [isWhole, areWhole]
  split
  · next whole =>
    rw [Bool.and_eq_true] at whole
    simp [whole, isWhole, tokens, flattenAll_append, flattenAll]
  · exact List.nil_sublist _

/-- A bracket that closes a list keeps what the list has kept. -/
theorem kept_closed_sublist (opener close : Span) (items : List Tree) :
    (Tree.list opener items.reverse (.closing close)).kept.Sublist
      ((list opener items).kept ++ [⟨.closing, close⟩]) := by
  unfold kept Tree.kept
  rw [isWhole, Tree.isWhole, areWhole_reverse]
  split
  · simp [flatten, tokens, Stop.kind, Stop.span]
  · exact List.nil_sublist _

end Pending

namespace Reading

def kept (r : Reading) : List Token := r.done.reverse.flatMap Tree.kept ++ r.pending.reverse.flatMap Pending.kept

theorem kept_cons (waiting : Pending) (pending : List Pending) (done : List Tree) :
    kept ⟨waiting :: pending, done⟩ = kept ⟨pending, done⟩ ++ waiting.kept := by
  simp [kept]

theorem kept_attach_sublist (tree : Tree) (pending : List Pending) (done : List Tree) :
    (attach tree pending done).kept.Sublist (kept ⟨pending, done⟩ ++ tree.kept) := by
  induction pending generalizing tree with
  | nil => simp [attach, kept]
  | cons waiting pending ih =>
    cases waiting with
    | quote mark =>
      rw [attach, kept_cons, List.append_assoc]
      exact (ih _).trans ((kept_quote_sublist mark tree).append_left _)
    | list opener items =>
      rw [attach, kept_cons, kept_cons, List.append_assoc]
      exact (Pending.kept_list_cons_sublist opener tree items).append_left _

theorem kept_add_stray_sublist (r : Reading) (stop : Stop) : (r.add (.stray stop)).kept.Sublist r.kept := by
  have attached := kept_attach_sublist (.stray stop) r.pending r.done
  rwa [kept_stray, List.append_nil] at attached

theorem kept_settle_sublist (r : Reading) (stop : Stop) : (r.settle stop).kept.Sublist r.kept := by
  unfold settle
  split
  · exact kept_add_stray_sublist r stop
  · exact .refl _

theorem kept_close_sublist (r : Reading) (close : Span) :
    (r.close (.closing close)).kept.Sublist (r.kept ++ [⟨.closing, close⟩]) := by
  have settled := kept_settle_sublist r (.closing close)
  unfold Reading.close
  dsimp only
  generalize r.settle (.closing close) = s at settled ⊢
  obtain ⟨pending, done⟩ := s
  split
  · next opener items outer found =>
    cases found
    have closed := Pending.kept_closed_sublist opener close items
    have attached := (kept_attach_sublist _ outer done).trans (closed.append_left _)
    rw [← List.append_assoc, ← kept_cons] at attached
    exact attached.trans (settled.append_right _)
  · exact (kept_add_stray_sublist _ _).trans (settled.trans (List.sublist_append_left _ _))

/-- A token adds itself or nothing. -/
theorem kept_feed_sublist (r : Reading) (token : Token) : (r.feed token).kept.Sublist (r.kept ++ [token]) := by
  obtain ⟨kind, span⟩ := token
  cases kind with
  | opening => simp [feed, kept, Pending.kept, Pending.isWhole, Pending.tokens, areWhole, flattenAll]
  | closing => exact kept_close_sublist r span
  | quote => simp [feed, kept, Pending.kept, Pending.isWhole, Pending.tokens]
  | atom value => exact kept_attach_sublist (.atom span value) r.pending r.done
  | finish => exact List.sublist_append_left _ _

theorem kept_foldl_feed_sublist (r : Reading) (tokens : List Token) :
    (tokens.foldl feed r).kept.Sublist (r.kept ++ tokens) := by
  induction tokens generalizing r with
  | nil => simp
  | cons token tokens ih =>
    have fed := (ih (r.feed token)).trans ((kept_feed_sublist r token).append_right tokens)
    rwa [List.append_assoc] at fed

/-- What the end closes keeps nothing. -/
theorem flatMap_kept_unwind {span : Span} {inner : Option Tree} (broken : ∀ tree ∈ inner, tree.isWhole = false)
    (pending : List Pending) (done : List Tree) :
    (unwind (.finish span) inner pending done).reverse.flatMap Tree.kept = done.reverse.flatMap Tree.kept := by
  induction pending generalizing inner with
  | nil =>
    cases inner with
    | none => rfl
    | some tree => simp [unwind, Tree.kept, broken tree rfl]
  | cons waiting pending ih =>
    cases waiting with
    | quote mark =>
      refine ih ?_
      rintro tree ⟨⟩
      cases inner with
      | none => rfl
      | some tree => exact broken tree rfl
    | list opener items =>
      refine ih ?_
      rintro tree ⟨⟩
      rfl

end Reading

/-- The whole trees of tokens keep the order of the tokens. -/
theorem kept_ofTokens_sublist (tokens : List Token) : ((ofTokens tokens).flatMap kept).Sublist tokens := by
  unfold ofTokens Stop.ofTokens Reading.trees
  rw [Reading.flatMap_kept_unwind (by simp)]
  have read := Reading.kept_foldl_feed_sublist .start (tokens.takeWhile (·.kind ≠ .finish))
  generalize (tokens.takeWhile (·.kind ≠ .finish)).foldl Reading.feed .start = r at read ⊢
  have top : (r.done.reverse.flatMap kept).Sublist r.kept := List.sublist_append_left _ _
  exact (top.trans read).trans (List.takeWhile_sublist _)

end Tree

namespace Grammar

theorem exists_sublist_of_trees (src : Source) (trees : List Tree) (errors : Diagnostics) :
    ∃ tokens, Exprs false tokens (src.nodesOfTrees trees errors).1 ∧ tokens.Sublist (trees.flatMap Tree.kept) := by
  induction trees generalizing errors with
  | nil => exact ⟨[], .nil, .refl _⟩
  | cons tree trees ih =>
    rw [Source.nodesOfTrees, List.flatMap_cons]
    split
    · exact ⟨[], .nil, List.nil_sublist _⟩
    · split
      · next node read =>
        obtain ⟨tokens, derived, sublist⟩ := ih errors
        obtain ⟨whole, first⟩ := expr_of_node false tree read
        refine ⟨tree.flatten ++ tokens, .cons first derived, ?_⟩
        rw [Tree.kept, if_pos whole]
        exact sublist.append_left _
      · next failure read =>
        obtain ⟨tokens, derived, sublist⟩ := ih _
        exact ⟨tokens, derived, sublist.trans (List.sublist_append_right _ _)⟩

/-- The nodes of any tokens derive from some of them. -/
theorem exists_sublist_exprs (src : Source) (tokens : List Token) :
    ∃ used, used.Sublist tokens ∧ Exprs false used (src.nodesOfTokens tokens).1 := by
  obtain ⟨used, derived, sublist⟩ := exists_sublist_of_trees src (Tree.ofTokens tokens) .empty
  exact ⟨used, sublist.trans (Tree.kept_ofTokens_sublist tokens), derived⟩

end Grammar

end CheckedLisp
