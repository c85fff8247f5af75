import CheckedLisp.Node.Parse

/-! Tokens that close all they open are read as if nothing came before or after them: their trees,
and so their nodes and errors, stand beside those of the tokens around them. -/
namespace CheckedLisp

namespace Tree

/-- The number of open brackets behind a token. A `)` that closes nothing does not count. -/
def depthAfter (depth : Nat) (token : Token) : Nat :=
  match token.kind with
  | .opening => depth + 1
  | .closing => depth - 1
  | _ => depth

/-- Nothing is left open: no bracket, and no quote mark at the end. -/
def Complete (tokens : List Token) : Prop :=
  tokens.foldl depthAfter 0 = 0 ∧ ∀ last ∈ tokens.getLast?, last.kind ≠ .quote

def Pending.isList : Pending → Bool
  | quote _ => false
  | list _ _ => true

namespace Reading

def depth (r : Reading) : Nat := r.pending.countP Pending.isList

/-- No quote mark waits for the next token. -/
def Settled (r : Reading) : Prop := ∀ waiting ∈ r.pending.head?, waiting.isList

theorem settled_attach (tree : Tree) (pending : List Pending) (done : List Tree) :
    (attach tree pending done).Settled ∧
      (attach tree pending done).depth = pending.countP Pending.isList := by
  induction pending generalizing tree with
  | nil => exact ⟨by rintro _ ⟨⟩, rfl⟩
  | cons first rest ih =>
    cases first with
    | quote mark => simpa [attach, Pending.isList] using ih (.quote mark tree)
    | list opener items =>
      constructor
      · rintro _ ⟨⟩
        rfl
      · simp [attach, depth, List.countP_cons, Pending.isList]

theorem settled_settle (r : Reading) (stop : Stop) :
    (r.settle stop).Settled ∧ (r.settle stop).depth = r.depth := by
  unfold settle
  split
  · exact settled_attach _ _ _
  · next other =>
    refine ⟨?_, rfl⟩
    intro waiting first
    cases waiting with
    | quote mark =>
      obtain ⟨rest, found⟩ := List.head?_eq_some_iff.1 first
      exact absurd found (other mark rest)
    | list opener items => rfl

/-- A `)` closes a bracket, if there is one to close. -/
theorem settled_close (r : Reading) (stop : Stop) :
    (r.close stop).Settled ∧ (r.close stop).depth = r.depth - 1 := by
  obtain ⟨settled, same⟩ := settled_settle r stop
  unfold Reading.close
  dsimp only
  generalize r.settle stop = r' at settled same
  rw [← same]
  split
  · next opener items pending found =>
    have ⟨after, counted⟩ := settled_attach (.list opener items.reverse stop) pending r'.done
    refine ⟨after, counted.trans ?_⟩
    simp [depth, found, List.countP_cons, Pending.isList]
  · next other =>
    have empty : r'.pending = [] := by
      match found : r'.pending with
      | [] => rfl
      | .quote mark :: rest =>
        have wrong := settled (.quote mark) (by simp [found])
        cases wrong
      | .list opener items :: rest => exact absurd found (other opener items rest)
    have ⟨after, counted⟩ := settled_attach (.stray stop) r'.pending r'.done
    exact ⟨after, counted.trans (by simp [depth, empty])⟩

theorem depth_feed (r : Reading) (token : Token) : (r.feed token).depth = depthAfter r.depth token := by
  obtain ⟨kind, span⟩ := token
  cases kind with
  | opening => simp [feed, depthAfter, depth, List.countP_cons, Pending.isList]
  | closing => exact (settled_close r _).2
  | quote => simp [feed, depthAfter, depth, Pending.isList]
  | atom value => exact (settled_attach _ _ _).2
  | finish => rfl

theorem settled_feed (r : Reading) {token : Token} (going : token.kind ≠ .finish)
    (plain : token.kind ≠ .quote) : (r.feed token).Settled := by
  obtain ⟨kind, span⟩ := token
  cases kind with
  | opening => rintro _ ⟨⟩; rfl
  | closing => exact (settled_close r _).1
  | quote => exact absurd rfl plain
  | atom value => exact (settled_attach _ _ _).1
  | finish => exact absurd rfl going

theorem depth_foldl_feed (r : Reading) (tokens : List Token) :
    (tokens.foldl feed r).depth = tokens.foldl depthAfter r.depth := by
  induction tokens generalizing r with
  | nil => rfl
  | cons token tokens ih => rw [List.foldl_cons, ih, depth_feed, List.foldl_cons]

theorem pending_of_complete {tokens : List Token} (going : ∀ token ∈ tokens, token.kind ≠ .finish)
    (complete : Complete tokens) : (tokens.foldl feed .start).pending = [] := by
  have flat : (tokens.foldl feed .start).depth = 0 := (depth_foldl_feed .start tokens).trans complete.1
  have settled : (tokens.foldl feed .start).Settled := by
    rcases List.eq_nil_or_concat tokens with rfl | ⟨init, last, rfl⟩
    · rintro _ ⟨⟩
    · rw [List.concat_eq_append] at going complete ⊢
      rw [List.foldl_append]
      exact settled_feed _ (going last (by simp)) (complete.2 last (by simp))
  generalize tokens.foldl feed .start = r at flat settled
  match found : r.pending with
  | [] => rfl
  | waiting :: rest =>
    have isList := settled waiting (by simp [found])
    simp [depth, found, isList] at flat

/-- The same reading, with finished trees before it. -/
def behind (r : Reading) (base : List Tree) : Reading := ⟨r.pending, r.done ++ base⟩

theorem attach_behind (tree : Tree) (pending : List Pending) (done base : List Tree) :
    attach tree pending (done ++ base) = (attach tree pending done).behind base := by
  induction pending generalizing tree with
  | nil => rfl
  | cons first rest ih =>
    cases first with
    | quote mark => exact ih (.quote mark tree)
    | list opener items => rfl

theorem settle_behind (r : Reading) (stop : Stop) (base : List Tree) :
    (r.behind base).settle stop = (r.settle stop).behind base := by
  obtain ⟨pending, done⟩ := r
  match pending with
  | .quote mark :: rest => exact attach_behind _ _ _ _
  | [] => rfl
  | .list opener items :: rest => rfl

theorem close_behind (r : Reading) (stop : Stop) (base : List Tree) :
    (r.behind base).close stop = (r.close stop).behind base := by
  unfold Reading.close
  rw [settle_behind]
  obtain ⟨pending, done⟩ := r.settle stop
  match pending with
  | .quote mark :: rest => exact attach_behind _ _ _ _
  | [] => rfl
  | .list opener items :: rest => exact attach_behind _ _ _ _

theorem feed_behind (r : Reading) (token : Token) (base : List Tree) :
    (r.behind base).feed token = (r.feed token).behind base := by
  obtain ⟨kind, span⟩ := token
  cases kind with
  | closing => exact close_behind r _ base
  | atom value => exact attach_behind _ _ _ _
  | _ => rfl

theorem foldl_feed_behind (r : Reading) (tokens : List Token) (base : List Tree) :
    tokens.foldl feed (r.behind base) = (tokens.foldl feed r).behind base := by
  induction tokens generalizing r with
  | nil => rfl
  | cons token tokens ih => rw [List.foldl_cons, feed_behind, ih, List.foldl_cons]

theorem unwind_append (stop : Stop) (inner : Option Tree) (pending : List Pending) (done base : List Tree) :
    unwind stop inner pending (done ++ base) = unwind stop inner pending done ++ base := by
  induction pending generalizing inner with
  | nil => simp [unwind]
  | cons first rest ih =>
    cases first with
    | quote mark => exact ih _
    | list opener items => exact ih _

theorem trees_behind (r : Reading) (stop : Stop) (base : List Tree) :
    (r.behind base).trees stop = base.reverse ++ r.trees stop := by
  simp [trees, behind, unwind_append]

end Reading

section

variable {first second : List Token} {finish finish' : Token}

theorem ofTokens_finish (going : ∀ token ∈ first, token.kind ≠ .finish) (ends : finish.kind = .finish) :
    ofTokens (first ++ [finish]) = (first.foldl Reading.feed .start).trees (.finish finish.span) := by
  have before : (first ++ [finish]).takeWhile (·.kind ≠ .finish) = first := by
    rw [List.takeWhile_append_of_pos (by simpa using going)]
    simp [ends]
  have found : (first ++ [finish]).find? (·.kind = .finish) = some finish := by
    rw [List.find?_append, List.find?_eq_none.2 (by simpa using going)]
    simp [ends]
  rw [ofTokens, before, Stop.ofTokens, found]
  rfl

/-- Complete tokens give their own trees, whatever follows them. -/
theorem ofTokens_append (going : ∀ token ∈ first ++ second, token.kind ≠ .finish)
    (ends : finish.kind = .finish) (ends' : finish'.kind = .finish) (complete : Complete first) :
    ofTokens (first ++ second ++ [finish']) =
      ofTokens (first ++ [finish]) ++ ofTokens (second ++ [finish']) := by
  obtain ⟨goingFirst, goingSecond⟩ := List.forall_mem_append.1 going
  have empty := Reading.pending_of_complete goingFirst complete
  rw [ofTokens_finish going ends', ofTokens_finish goingFirst ends, ofTokens_finish goingSecond ends',
    List.foldl_append]
  generalize first.foldl Reading.feed .start = r at empty
  obtain ⟨pending, done⟩ := r
  obtain rfl : pending = [] := empty
  have later := Reading.foldl_feed_behind .start second done
  rw [show Reading.behind .start done = ⟨[], done⟩ from rfl] at later
  rw [later, Reading.trees_behind]
  rfl

end

end Tree

namespace Source

variable (src : Source)

/-- The error of a tree that is no node. -/
def report? (tree : Tree) : Option Report :=
  match Form.node false tree with
  | .ok _ => none
  | .error failure => some (src.report failure.span failure.fault.code failure.fault.message)

theorem nodesOfTrees_of_full (trees : List Tree) {errors : Diagnostics} (full : errors.isFull = true) :
    src.nodesOfTrees trees errors = ([], errors) := by
  cases trees with
  | nil => rfl
  | cons tree rest => rw [nodesOfTrees, if_pos full]

section

variable {errors : List Report} {tree : Tree} {rest : List Tree}

theorem nodesOfTrees_full (full : Collector.capacity ≤ errors.length) (trees : List Tree) :
    src.nodesOfTrees trees (.ofList errors) = ([], .ofList errors) :=
  src.nodesOfTrees_of_full trees (decide_eq_true full)

theorem nodesOfTrees_ok {node : Node} (room : errors.length < Collector.capacity)
    (read : Form.node false tree = .ok node) :
    src.nodesOfTrees (tree :: rest) (.ofList errors) =
      (node :: (src.nodesOfTrees rest (.ofList errors)).1, (src.nodesOfTrees rest (.ofList errors)).2) := by
  have goes : ¬(Collector.ofList errors).isFull = true := by
    rw [Collector.isFull, decide_eq_true_eq]
    exact Nat.not_le.2 room
  rw [nodesOfTrees, if_neg goes, read]

theorem nodesOfTrees_error {failure : Form.Failure} (room : errors.length < Collector.capacity)
    (read : Form.node false tree = .error failure) :
    src.nodesOfTrees (tree :: rest) (.ofList errors) =
      src.nodesOfTrees rest
        (.ofList (errors ++ [src.report failure.span failure.fault.code failure.fault.message])) := by
  have goes : ¬(Collector.ofList errors).isFull = true := by
    rw [Collector.isFull, decide_eq_true_eq]
    exact Nat.not_le.2 room
  rw [nodesOfTrees, if_neg goes, read]
  exact congrArg _ (Collector.push_ofList _ _)

end

/-- As long as the collector has room, every tree is read and adds its node or its error. -/
theorem nodesOfTrees_of_room {errors : List Report} {trees : List Tree}
    (room : errors.length + (trees.filterMap src.report?).length < Collector.capacity) :
    src.nodesOfTrees trees (.ofList errors) =
      (trees.filterMap fun tree => (Form.node false tree).toOption,
        .ofList (errors ++ trees.filterMap src.report?)) := by
  induction trees generalizing errors with
  | nil => simp [nodesOfTrees]
  | cons tree rest ih =>
    have few : errors.length < Collector.capacity := by omega
    cases read : Form.node false tree with
    | ok node =>
      have silent : src.report? tree = none := by rw [report?, read]
      rw [List.filterMap_cons_none silent] at room ⊢
      rw [nodesOfTrees_ok src few read, ih room, List.filterMap_cons_some (by rw [read]; rfl)]
    | error failure =>
      have reported := show src.report? tree = some _ by rw [report?, read]
      rw [List.filterMap_cons_some reported] at room ⊢
      rw [nodesOfTrees_error src few read, ih (by simp at room ⊢; omega),
        List.filterMap_cons_none (by rw [read]; rfl), List.append_assoc, List.singleton_append]

/-- A count below the capacity is the count of all errors. -/
theorem room_of_total_lt {errors : List Report} {trees : List Tree}
    (few : (src.nodesOfTrees trees (.ofList errors)).2.total < Collector.capacity) :
    errors.length + (trees.filterMap src.report?).length < Collector.capacity := by
  induction trees generalizing errors with
  | nil => exact few
  | cons tree rest ih =>
    by_cases room : errors.length < Collector.capacity
    · cases read : Form.node false tree with
      | ok node =>
        have silent : src.report? tree = none := by rw [report?, read]
        rw [nodesOfTrees_ok src room read] at few
        rw [List.filterMap_cons_none silent]
        exact ih few
      | error failure =>
        have reported := show src.report? tree = some _ by rw [report?, read]
        rw [nodesOfTrees_error src room read] at few
        have counted := ih few
        rw [List.filterMap_cons_some reported]
        simp at counted ⊢
        omega
    · rw [nodesOfTrees_full src (Nat.not_lt.1 room)] at few
      exact absurd few room

section

variable {nodes nodes' : List Node} {errors errors' : Diagnostics}

theorem nodesOfTrees_append {trees others : List Tree} (read : src.nodesOfTrees trees .empty = (nodes, errors))
    (read' : src.nodesOfTrees others .empty = (nodes', errors'))
    (few : errors.total + errors'.total < Collector.capacity) :
    src.nodesOfTrees (trees ++ others) .empty =
      (nodes ++ nodes', ⟨errors.kept ++ errors'.kept, errors.total + errors'.total⟩) := by
  have start : (Collector.empty : Diagnostics) = .ofList [] := rfl
  rw [start] at read read' ⊢
  have room := src.room_of_total_lt (by rw [read]; exact Nat.lt_of_le_of_lt (Nat.le_add_right _ _) few)
  have room' := src.room_of_total_lt (by rw [read']; exact Nat.lt_of_le_of_lt (Nat.le_add_left _ _) few)
  rw [src.nodesOfTrees_of_room room] at read
  rw [src.nodesOfTrees_of_room room'] at read'
  cases read
  cases read'
  have together : ([] : List Report).length + ((trees ++ others).filterMap src.report?).length <
      Collector.capacity := by
    simpa [Collector.ofList] using few
  rw [src.nodesOfTrees_of_room together]
  simp only [List.length_nil, Nat.zero_add] at room room' together
  simp only [Collector.ofList, List.nil_append]
  rw [List.take_of_length_le (Nat.le_of_lt room), List.take_of_length_le (Nat.le_of_lt room'),
    List.take_of_length_le (Nat.le_of_lt together)]
  simp

/-- A form changes neither the nodes nor the errors of another, be it malformed or not:
tokens that leave nothing open and the tokens behind them are read as if each stood alone. -/
theorem nodesOfTokens_append {first second : List Token} {finish finish' : Token}
    (going : ∀ token ∈ first ++ second, token.kind ≠ .finish)
    (ends : finish.kind = .finish) (ends' : finish'.kind = .finish) (complete : Tree.Complete first)
    (read : src.nodesOfTokens (first ++ [finish]) = (nodes, errors))
    (read' : src.nodesOfTokens (second ++ [finish']) = (nodes', errors'))
    (few : errors.total + errors'.total < Collector.capacity) :
    src.nodesOfTokens (first ++ second ++ [finish']) =
      (nodes ++ nodes', ⟨errors.kept ++ errors'.kept, errors.total + errors'.total⟩) := by
  have split := Tree.ofTokens_append going ends ends' complete
  unfold nodesOfTokens at read read' ⊢
  rw [split]
  exact src.nodesOfTrees_append read read' few

end

/-- After `(if)` the tokens `)` and `y` are read as without it. -/
theorem nodesOfTokens_append_malformed :
    let src : Source := ⟨"s", "(if) ) y"⟩
    let token (kind : Token.Kind) : Token := ⟨kind, .point .first⟩
    let malformed := [token .opening, token (.atom (.symbol "if")), token .closing]
    let others := [token .closing, token (.atom (.symbol "y"))]
    ∃ error error', src.nodesOfTokens (malformed ++ [token .finish]) = ([], ⟨[error], 1⟩) ∧
      src.nodesOfTokens (others ++ [token .finish]) = ([.atom (.point .first) (.symbol "y")], ⟨[error'], 1⟩) ∧
      src.nodesOfTokens (malformed ++ others ++ [token .finish]) =
        ([.atom (.point .first) (.symbol "y")], ⟨[error, error'], 2⟩) := by
  intro src token malformed others
  have read : ∃ error, src.nodesOfTokens (malformed ++ [token .finish]) = ([], ⟨[error], 1⟩) := ⟨_, rfl⟩
  have read' : ∃ error, src.nodesOfTokens (others ++ [token .finish]) =
      ([.atom (.point .first) (.symbol "y")], ⟨[error], 1⟩) := ⟨_, rfl⟩
  obtain ⟨error, read⟩ := read
  obtain ⟨error', read'⟩ := read'
  refine ⟨error, error', read, read', ?_⟩
  have few : 1 + 1 < Collector.capacity := by decide
  exact src.nodesOfTokens_append (by decide) rfl rfl ⟨by decide, by decide⟩ read read' few

end Source

end CheckedLisp
