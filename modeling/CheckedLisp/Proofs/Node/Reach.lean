import CheckedLisp.Proofs.Node.Recovery

/-! Where the expression at some token ends is fixed by the brackets alone, whether or not it is
well formed: an atom is one token, a quote mark goes with what is behind it, and a list goes on to
its `)` or, without one, to the end. The trees of tokens divide them just so. -/
namespace CheckedLisp

namespace Tree

/-- The tokens up to the `)` of a list in which `depth` more brackets are open, the `)` included;
without such a `)`, those before the next end. -/
def toClose (depth : Nat) : List Token → Nat
  | [] => 0
  | token :: rest =>
    match token.kind with
    | .finish => 0
    | .opening => toClose (depth + 1) rest + 1
    | .closing => if depth = 0 then 1 else toClose (depth - 1) rest + 1
    | _ => toClose depth rest + 1

/-- The number of tokens of the expression that the tokens start with. -/
def extent : List Token → Nat
  | [] => 0
  | token :: rest =>
    match token.kind with
    | .atom _ => 1
    | .closing | .finish => 0
    | .quote => extent rest + 1
    | .opening => toClose 0 rest + 1

/-- Where the expression at position `i` ends. -/
def endOf (tokens : List Token) (i : Nat) : Nat := i + extent (tokens.drop i)

end Tree

namespace Stop

/-- The tokens start with the stop. -/
def Leads (stop : Stop) (tokens : List Token) : Prop := ∃ rest, tokens = ⟨stop.kind, stop.span⟩ :: rest

/-- What is left behind a list with that stop. The end is never gone over. -/
def Ends : Stop → List Token → List Token → Prop
  | closing span, tokens, rest => tokens = ⟨.closing, span⟩ :: rest
  | finish span, tokens, rest => rest = tokens ∧ (finish span).Leads tokens

theorem Ends.leads {stop : Stop} {tokens rest : List Token} (ends : stop.Ends tokens rest) : stop.Leads tokens := by
  cases stop with
  | closing span => exact ⟨rest, ends⟩
  | finish span => exact ends.2

theorem Leads.exists_ends {stop : Stop} {tokens : List Token} (leads : stop.Leads tokens) :
    ∃ rest, stop.Ends tokens rest := by
  cases stop with
  | closing span => exact leads
  | finish span => exact ⟨tokens, rfl, leads⟩

end Stop

namespace Tree

def isStray : Tree → Bool
  | stray _ => true
  | _ => false

/-- The trees directly inside a list. -/
def items : Tree → List Tree
  | list _ items _ => items
  | _ => []

mutual

/-- `tree.Reads tokens rest`: the tree is what the tokens start with, and `rest` is behind it.
Where an expression is missing, nothing is gone over. -/
def Reads : Tree → List Token → List Token → Prop
  | atom span value, tokens, rest => tokens = ⟨.atom value, span⟩ :: rest
  | quote mark inner, tokens, rest => ∃ behind, tokens = ⟨.quote, mark⟩ :: behind ∧ inner.Reads behind rest
  | list opener items stop, tokens, rest =>
    ∃ behind last, tokens = ⟨.opening, opener⟩ :: behind ∧ ReadsAll items behind last ∧ stop.Ends last rest
  | stray stop, tokens, rest => rest = tokens ∧ stop.Leads tokens

def ReadsAll : List Tree → List Token → List Token → Prop
  | [], tokens, rest => rest = tokens
  | tree :: trees, tokens, rest =>
    tree.isStray = false ∧ ∃ behind, tree.Reads tokens behind ∧ ReadsAll trees behind rest

end

/-- `rest` is reached without going over an end, and with as many brackets open as before. -/
structure Passes (tokens rest : List Token) : Prop where
  taken : ∃ taken, tokens = taken ++ rest ∧ ∀ token ∈ taken, token.kind ≠ .finish
  toClose : ∀ depth, toClose depth tokens + rest.length = toClose depth rest + tokens.length

namespace Passes

variable {tokens middle rest : List Token}

theorem refl (tokens : List Token) : Passes tokens tokens := ⟨⟨[], rfl, by simp⟩, fun _ => rfl⟩

theorem trans (first : Passes tokens middle) (second : Passes middle rest) : Passes tokens rest := by
  obtain ⟨taken, rfl, going⟩ := first.taken
  obtain ⟨taken', rfl, going'⟩ := second.taken
  refine ⟨⟨taken ++ taken', (List.append_assoc _ _ _).symm, List.forall_mem_append.2 ⟨going, going'⟩⟩, ?_⟩
  intro depth
  have here := first.toClose depth
  have there := second.toClose depth
  omega

theorem length_le (passes : Passes tokens rest) : rest.length ≤ tokens.length := by
  obtain ⟨taken, rfl, _⟩ := passes.taken
  rw [List.length_append]
  omega

theorem suffix (passes : Passes tokens rest) : rest <:+ tokens := by
  obtain ⟨taken, rfl, _⟩ := passes.taken
  exact List.suffix_append taken rest

/-- An atom or a quote mark opens and closes nothing. -/
theorem single {token : Token} (going : token.kind ≠ .finish) (plain : token.kind ≠ .opening)
    (plain' : token.kind ≠ .closing) (rest : List Token) : Passes (token :: rest) rest := by
  refine ⟨⟨[token], rfl, by simpa using going⟩, ?_⟩
  intro depth
  obtain ⟨kind, span⟩ := token
  cases kind <;> simp_all [Tree.toClose]
  all_goals omega

/-- A list leaves as many brackets open as there were. -/
theorem list {opener : Span} {behind last : List Token} {stop : Stop} (inside : Passes behind last)
    (ends : stop.Ends last rest) : Passes (⟨.opening, opener⟩ :: behind) rest := by
  obtain ⟨taken, rfl, going⟩ := inside.taken
  cases stop with
  | closing span =>
    obtain rfl : last = ⟨.closing, span⟩ :: rest := ends
    have going' : ∀ token ∈ ⟨.opening, opener⟩ :: taken ++ [⟨.closing, span⟩], token.kind ≠ .finish := by
      simpa [or_imp, forall_and] using going
    refine ⟨⟨_, by simp, going'⟩, ?_⟩
    intro depth
    have inner := inside.toClose (depth + 1)
    simp [Tree.toClose] at inner ⊢
    omega
  | finish span =>
    obtain ⟨rfl, after, rfl⟩ := ends
    refine ⟨⟨⟨.opening, opener⟩ :: taken, rfl, by simpa using going⟩, ?_⟩
    intro depth
    have inner := inside.toClose (depth + 1)
    simp [Tree.toClose, Stop.kind] at inner ⊢
    omega

end Passes

mutual

theorem passes_of_reads : ∀ (tree : Tree) {tokens rest : List Token}, tree.Reads tokens rest → Passes tokens rest
  | .atom span value, _, _, reads => by
    obtain rfl := reads
    exact .single (by simp) (by simp) (by simp) _
  | .quote mark inner, _, _, ⟨_, same, reads⟩ => by
    subst same
    exact (Passes.single (by simp) (by simp) (by simp) _).trans (passes_of_reads inner reads)
  | .list opener items stop, _, _, ⟨_, _, same, reads, ends⟩ => by
    subst same
    exact .list (passes_of_readsAll items reads) ends
  | .stray stop, _, _, ⟨same, _⟩ => same ▸ .refl _

theorem passes_of_readsAll : ∀ (trees : List Tree) {tokens rest : List Token}, ReadsAll trees tokens rest →
    Passes tokens rest
  | [], _, _, same => same ▸ .refl _
  | tree :: trees, _, _, ⟨_, _, reads, others⟩ =>
    (passes_of_reads tree reads).trans (passes_of_readsAll trees others)

end

theorem length_lt_of_reads {tree : Tree} {tokens rest : List Token} (expr : tree.isStray = false)
    (reads : tree.Reads tokens rest) : rest.length < tokens.length := by
  cases tree with
  | atom span value =>
    obtain rfl := reads
    simp
  | quote mark inner =>
    obtain ⟨behind, rfl, inside⟩ := reads
    have le := (passes_of_reads inner inside).length_le
    rw [List.length_cons]
    omega
  | list opener items stop =>
    obtain ⟨behind, last, rfl, inside, ends⟩ := reads
    have le := (passes_of_readsAll items inside).length_le
    cases stop with
    | closing span =>
      obtain rfl : last = ⟨.closing, span⟩ :: rest := ends
      rw [List.length_cons] at le ⊢
      omega
    | finish span =>
      obtain ⟨rfl, _⟩ := ends
      rw [List.length_cons]
      omega
  | stray stop => cases expr

/-- A tree takes as many tokens as the brackets say. -/
theorem extent_of_reads : ∀ (tree : Tree) {tokens rest : List Token}, tree.Reads tokens rest →
    extent tokens + rest.length = tokens.length
  | .atom span value, _, _, reads => by
    obtain rfl := reads
    simp only [extent, List.length_cons]
    omega
  | .quote mark inner, _, _, ⟨behind, same, reads⟩ => by
    subst same
    have inside := extent_of_reads inner reads
    simp only [extent, List.length_cons]
    omega
  | .list opener items (.closing span), _, rest, ⟨behind, _, same, reads, ends⟩ => by
    subst same
    obtain rfl := ends
    have inside := (passes_of_readsAll items reads).toClose 0
    simp only [toClose, if_pos, List.length_cons] at inside
    simp only [extent, List.length_cons]
    omega
  | .list opener items (.finish span), _, _, ⟨behind, _, same, reads, rfl, after, leads⟩ => by
    subst same leads
    have inside := (passes_of_readsAll items reads).toClose 0
    simp only [toClose, Stop.kind, List.length_cons] at inside
    simp only [extent, List.length_cons]
    omega
  | .stray stop, _, _, ⟨same, after, leads⟩ => by
    subst same leads
    cases stop <;> simp [extent, Stop.kind]

theorem drop_extent_of_reads {tree : Tree} {tokens rest : List Token} (reads : tree.Reads tokens rest) :
    tokens.drop (extent tokens) = rest := by
  have counted := extent_of_reads tree reads
  obtain ⟨taken, rfl⟩ := (passes_of_reads tree reads).suffix
  rw [List.length_append] at counted
  have all : extent (taken ++ rest) = taken.length := by omega
  rw [all, List.drop_left]

theorem drop_endOf_of_reads {tree : Tree} {tokens rest : List Token} {i : Nat}
    (reads : tree.Reads (tokens.drop i) rest) : tokens.drop (endOf tokens i) = rest := by
  rw [endOf, ← List.drop_drop, drop_extent_of_reads reads]

/-- There is an end among the tokens. -/
def Finishes (tokens : List Token) : Prop := ∃ token ∈ tokens, token.kind = .finish

theorem Passes.finishes {tokens rest : List Token} (passes : Passes tokens rest) (finishes : Finishes tokens) :
    Finishes rest := by
  obtain ⟨taken, rfl, going⟩ := passes.taken
  obtain ⟨token, member, isEnd⟩ := finishes
  rcases List.mem_append.1 member with inside | behind
  · exact absurd isEnd (going token inside)
  · exact ⟨token, behind, isEnd⟩

theorem head_of_reads {tree : Tree} {tokens rest : List Token} (reads : tree.Reads tokens rest) :
    ∃ behind, tokens = tree.lead :: behind := by
  cases tree with
  | atom span value => exact ⟨rest, reads⟩
  | quote mark inner =>
    obtain ⟨behind, same, _⟩ := reads
    exact ⟨behind, same⟩
  | list opener items stop =>
    obtain ⟨behind, _, same, _⟩ := reads
    exact ⟨behind, same⟩
  | stray stop => exact reads.2

/-- A row of trees up to the next stop, from the first tree on. -/
theorem exists_readsAll_cons {tree : Tree} {tokens rest : List Token} (expr : tree.isStray = false)
    (reads : tree.Reads tokens rest) (others : ∃ trees last stop, ReadsAll trees rest last ∧ Stop.Leads stop last) :
    ∃ trees last stop, ReadsAll trees tokens last ∧ Stop.Leads stop last := by
  obtain ⟨trees, last, stop, readsAll, leads⟩ := others
  exact ⟨tree :: trees, last, stop, ⟨expr, rest, reads, readsAll⟩, leads⟩

/-- Tokens with an end start with some tree, and with a row of trees up to some stop. An expression
leaves fewer tokens, and the end is among them. -/
theorem exists_reads {tokens : List Token} (finishes : Finishes tokens) :
    (∃ (tree : Tree) (rest : List Token), tree.Reads tokens rest) ∧
      ∃ trees last stop, ReadsAll trees tokens last ∧ Stop.Leads stop last := by
  induction size : tokens.length using Nat.strongRecOn generalizing tokens with
  | ind size' ih =>
    subst size
    have row : ∀ (tree : Tree) {rest : List Token}, tree.isStray = false → tree.Reads tokens rest →
        (∃ (tree : Tree) (rest : List Token), tree.Reads tokens rest) ∧
          ∃ trees last stop, ReadsAll trees tokens last ∧ Stop.Leads stop last := by
      intro tree rest expr reads
      have later := (passes_of_reads tree reads).finishes finishes
      exact ⟨⟨tree, rest, reads⟩,
        exists_readsAll_cons expr reads (ih _ (length_lt_of_reads expr reads) later rfl).2⟩
    match tokens with
    | [] =>
      obtain ⟨_, member, _⟩ := finishes
      cases member
    | ⟨.finish, span⟩ :: behind =>
      have leads : (Stop.finish span).Leads (⟨.finish, span⟩ :: behind) := ⟨behind, rfl⟩
      exact ⟨⟨.stray (.finish span), _, rfl, leads⟩, [], _, .finish span, rfl, leads⟩
    | ⟨.closing, span⟩ :: behind =>
      have leads : (Stop.closing span).Leads (⟨.closing, span⟩ :: behind) := ⟨behind, rfl⟩
      exact ⟨⟨.stray (.closing span), _, rfl, leads⟩, [], _, .closing span, rfl, leads⟩
    | ⟨.atom value, span⟩ :: behind => exact row (.atom span value) rfl rfl
    | ⟨.quote, mark⟩ :: behind =>
      have later := (Passes.single (by simp) (by simp) (by simp) behind).finishes finishes
      obtain ⟨⟨inner, rest, reads⟩, _⟩ := ih behind.length (Nat.lt_succ_self _) later rfl
      exact row (.quote mark inner) rfl ⟨behind, rfl, reads⟩
    | ⟨.opening, opener⟩ :: behind =>
      have later : Finishes behind := by
        obtain ⟨token, member, isEnd⟩ := finishes
        rcases List.mem_cons.1 member with rfl | inside
        · cases isEnd
        · exact ⟨token, inside, isEnd⟩
      obtain ⟨_, items, last, stop, readsAll, leads⟩ := ih behind.length (Nat.lt_succ_self _) later rfl
      obtain ⟨rest, ends⟩ := leads.exists_ends
      exact row (.list opener items stop) rfl ⟨behind, last, rfl, readsAll, ends⟩

namespace Reading

/-- All top-level trees, when `tokens` are still to be read. -/
def complete (r : Reading) (tokens : List Token) : List Tree :=
  ((tokens.takeWhile (·.kind ≠ .finish)).foldl feed r).trees (.ofTokens tokens)

theorem complete_cons (r : Reading) (token : Token) (going : token.kind ≠ .finish) (rest : List Token) :
    r.complete (token :: rest) = (r.feed token).complete rest := by
  simp [complete, Stop.ofTokens, going]

theorem complete_finish (r : Reading) {span : Span} {tokens : List Token} (leads : (Stop.finish span).Leads tokens) :
    r.complete tokens = r.trees (.finish span) := by
  obtain ⟨rest, rfl⟩ := leads
  simp [complete, Stop.ofTokens, Stop.kind, Stop.span]

/-- A tree that was handed on is closed as if it had just been closed. -/
theorem trees_attach (tree : Tree) (pending : List Pending) (done : List Tree) (stop : Stop) :
    (attach tree pending done).trees stop = (unwind stop (some tree) pending done).reverse := by
  induction pending generalizing tree with
  | nil => rfl
  | cons first rest ih =>
    cases first with
    | quote mark => exact ih (.quote mark tree)
    | list opener items => rfl

theorem settle_of_settled {r : Reading} (settled : r.Settled) (stop : Stop) : r.settle stop = r := by
  unfold settle
  split
  · next mark rest found =>
    have isList := settled (.quote mark) (by simp [found])
    cases isList
  · rfl

/-- A stop in front of a quote mark is what the quote mark has to do with. -/
theorem complete_settle {r : Reading} {stop : Stop} {tokens : List Token} (leads : stop.Leads tokens)
    (waiting : ∃ mark rest, r.pending = .quote mark :: rest) :
    r.complete tokens = (r.add (.stray stop)).complete tokens := by
  obtain ⟨mark, rest, found⟩ := waiting
  cases stop with
  | closing span =>
    obtain ⟨behind, rfl⟩ := leads
    have settles : r.settle (.closing span) = r.add (.stray (.closing span)) := by
      unfold settle
      rw [found]
    have settled := settled_settle r (.closing span)
    rw [settles] at settled
    rw [complete_cons _ _ (by simp [Stop.kind]), complete_cons _ _ (by simp [Stop.kind])]
    simp only [feed, Stop.kind, Stop.span, close]
    rw [settles, settle_of_settled settled.1]
  | finish span =>
    rw [complete_finish r leads, complete_finish _ leads, add, trees_attach, trees, found, unwind, unwind]
    rfl

mutual

/-- Reading on from the first token of a tree is reading on behind the tree with the tree added. -/
theorem complete_of_reads : ∀ (tree : Tree) (r : Reading) {tokens rest : List Token}, tree.Reads tokens rest →
    (tree.isStray = true → ∃ mark waiting, r.pending = .quote mark :: waiting) →
    r.complete tokens = (r.add tree).complete rest
  | .atom span value, r, _, _, reads, _ => by
    obtain rfl := reads
    exact complete_cons r _ (by simp) _
  | .quote mark inner, r, _, _, ⟨behind, same, reads⟩, _ => by
    subst same
    rw [complete_cons r _ (by simp)]
    exact complete_of_reads inner ⟨.quote mark :: r.pending, r.done⟩ reads fun _ => ⟨mark, r.pending, rfl⟩
  | .list opener items stop, r, _, rest, ⟨behind, last, same, reads, ends⟩, _ => by
    subst same
    rw [complete_cons r _ (by simp)]
    have inside := complete_of_readsAll items opener [] r.pending r.done reads
    rw [List.append_nil] at inside
    have opened : r.feed ⟨.opening, opener⟩ = ⟨.list opener [] :: r.pending, r.done⟩ := rfl
    rw [opened, inside]
    cases stop with
    | closing span =>
      obtain rfl := ends
      rw [complete_cons _ _ (by simp)]
      simp [feed, close, settle, add]
    | finish span =>
      obtain ⟨rfl, leads⟩ := ends
      rw [complete_finish _ leads, complete_finish _ leads, add, trees_attach, trees, unwind]
      simp
  | .stray stop, r, _, _, ⟨same, leads⟩, waiting => by
    subst same
    exact complete_settle leads (waiting rfl)

theorem complete_of_readsAll : ∀ (trees : List Tree) (opener : Span) (before : List Tree) (pending : List Pending)
    (done : List Tree) {tokens rest : List Token}, ReadsAll trees tokens rest →
    complete ⟨.list opener before :: pending, done⟩ tokens =
      complete ⟨.list opener (trees.reverse ++ before) :: pending, done⟩ rest
  | [], _, _, _, _, _, _, same => by
    subst same
    rfl
  | tree :: trees, opener, before, pending, done, _, _, ⟨expr, behind, reads, others⟩ => by
    rw [complete_of_reads tree _ reads (by rw [expr]; rintro ⟨⟩)]
    have later := complete_of_readsAll trees opener (tree :: before) pending done others
    rw [List.reverse_cons, List.append_assoc, List.singleton_append]
    exact later

end

theorem complete_behind (base : List Tree) (tokens : List Token) :
    complete ⟨[], base⟩ tokens = base.reverse ++ complete .start tokens := by
  have behind : (⟨[], base⟩ : Reading) = start.behind base := rfl
  rw [complete, behind, foldl_feed_behind, trees_behind, complete]

end Reading

/-- The top-level trees of tokens are the tree that they start with and those behind it. -/
theorem ofTokens_of_reads {tree : Tree} {tokens rest : List Token} (expr : tree.isStray = false)
    (reads : tree.Reads tokens rest) : ofTokens tokens = tree :: ofTokens rest := by
  have read := Reading.complete_of_reads tree .start reads (by rw [expr]; rintro ⟨⟩)
  exact read.trans (Reading.complete_behind [tree] rest)

theorem ofTokens_closing (span : Span) (rest : List Token) :
    ofTokens (⟨.closing, span⟩ :: rest) = .stray (.closing span) :: ofTokens rest := by
  have read := Reading.complete_cons .start ⟨.closing, span⟩ (by simp) rest
  exact read.trans (Reading.complete_behind [.stray (.closing span)] rest)

theorem ofTokens_of_finish {span : Span} {tokens : List Token} (leads : (Stop.finish span).Leads tokens) :
    ofTokens tokens = [] :=
  Reading.complete_finish .start leads

end Tree

end CheckedLisp
