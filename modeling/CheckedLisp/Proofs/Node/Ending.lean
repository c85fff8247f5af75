import CheckedLisp.Proofs.Node.Tracking

/-! Each attempt at an expression ends where the brackets say that the expression does, be it a
success or not: after a success the cursor has gone over all of its tokens, and after an error in a
list the list is skipped. So reading a program by descent ends as well, and it gives the nodes and
errors of the trees. -/
namespace CheckedLisp.Descent

variable {src : Source} {tokens : List Token} {c : Cursor}

section Expressions

/-- An error in a list is followed by the bracket that closes the list: wherever the error was
found, the cursor goes back to the start of the list and skips it. -/
theorem tracks_list (finished : Finished tokens) (opener : Span) {trees : List Tree} (stop : Stop)
    (tracks : ∀ tree ∈ trees, TracksInside src tokens tree) : Tracks src tokens (.list opener trees stop) := by
  intro c rest reads
  have reached := Tree.drop_endOf_of_reads reads
  obtain ⟨behind, last, here, row, ends⟩ := reads
  obtain rfl : tokens.drop (c.position + 1) = behind := drop_succ here
  obtain ⟨position, reached', same⟩ := list_gives opener (c := c.move (c.position + 1)) tracks row ends
  rw [expression, peek_bind, tokenAt_eq here]
  dsimp only
  rw [get_bind, advance_bind here, bind_eq same]
  have answer : Form.node (c.move (c.position + 1)).inLambda (.list opener trees stop) =
    Form.node c.inLambda (.list opener trees stop) := rfl
  rw [answer] at reached' ⊢
  generalize Form.node c.inLambda (.list opener trees stop) = answer at reached' ⊢
  cases answer with
  | ok node => exact ⟨position, reached' rfl, rfl⟩
  | error failure =>
    refine ⟨_, reached, ?_⟩
    change (skipList tokens c.position >>= _) ((c.move position).report src failure) = _
    rw [bind_eq (skipList_eq finished here)]
    rfl

theorem tracks_quote (mark : Span) {inner : Tree} (tracks : Tracks src tokens inner) :
    Tracks src tokens (.quote mark inner) := by
  intro c rest reads
  obtain ⟨behind, here, reads⟩ := reads
  obtain rfl : tokens.drop (c.position + 1) = behind := drop_succ here
  obtain ⟨position, reached, same⟩ := tracks (c.move (c.position + 1)) rest reads
  rw [expression, peek_bind, tokenAt_eq here]
  dsimp only
  rw [advance_bind here, bind_eq same, Form.node]
  refine ⟨position, reached, ?_⟩
  have answer : Form.node (c.move (c.position + 1)).inLambda inner = Form.node c.inLambda inner := rfl
  rw [answer]
  cases Form.node c.inLambda inner <;> rfl

theorem tracks_atom (span : Span) (value : Atom) : Tracks src tokens (.atom span value) := by
  intro c rest reads
  rw [expression, peek_bind, tokenAt_eq reads]
  exact ⟨c.position + 1, drop_succ reads, advance_bind reads _⟩

theorem tracks_stray (stop : Stop) : Tracks src tokens (.stray stop) := by
  intro c rest reads
  obtain ⟨same, leads⟩ := reads
  exact ⟨c.position, same.symm, expression_stop leads⟩

mutual

/-- Every tree is read, and so is all that is directly inside it. -/
theorem tracks_tree (src : Source) (finished : Finished tokens) : ∀ tree : Tree, TracksInside src tokens tree
  | .atom span value => ⟨tracks_atom span value, by simp [Tree.items]⟩
  | .quote mark inner => ⟨tracks_quote mark (tracks_tree src finished inner).1, by simp [Tree.items]⟩
  | .list opener items stop =>
    have inside := tracks_trees src finished items
    ⟨tracks_list finished opener stop inside, fun item member => (inside item member).1⟩
  | .stray stop => ⟨tracks_stray stop, by simp [Tree.items]⟩

theorem tracks_trees (src : Source) (finished : Finished tokens) : ∀ (trees : List Tree), ∀ tree ∈ trees,
    TracksInside src tokens tree
  | [] => by simp
  | tree :: trees => List.forall_mem_cons.2 ⟨tracks_tree src finished tree, tracks_trees src finished trees⟩

end

theorem finishes_drop (finished : Finished tokens) {position : Nat} (inside : position < tokens.length) :
    Tree.Finishes (tokens.drop position) := by
  obtain ⟨span, last⟩ := finished
  refine ⟨⟨.finish, span⟩, List.mem_of_getLast? ?_, rfl⟩
  rw [List.getLast?_drop, if_neg (Nat.not_le.2 inside), last]

/-- Where the tokens go on, the position is known from what is in front of it. -/
theorem position_unique {first second : Nat} {rest : List Token} (here : tokens.drop first = rest)
    (here' : tokens.drop second = rest) (more : rest ≠ []) : first = second := by
  have left := congrArg List.length here
  have left' := congrArg List.length here'
  have some := List.length_pos_iff.2 more
  rw [List.length_drop] at left left'
  omega

/-- The position of the cursor is the one that the brackets say. -/
theorem expression_eq (src : Source) (finished : Finished tokens) {tree : Tree} {rest : List Token}
    (reads : tree.Reads (tokens.drop c.position) rest) :
    expression src tokens c = some (outcome src c (Tree.endOf tokens c.position) (Form.node c.inLambda tree)) := by
  obtain ⟨_, here⟩ := Tree.head_of_reads reads
  have finishes := finishes_drop finished (lt_length here)
  obtain ⟨token, member, _⟩ := (Tree.passes_of_reads tree reads).finishes finishes
  obtain ⟨position, reached, same⟩ := (tracks_tree src finished tree).1 c rest reads
  rw [same, position_unique reached (Tree.drop_endOf_of_reads reads) (List.ne_nil_of_mem member)]

end Expressions

section Programs

/-- In front of anything but the end there is an expression, or a `)` that closes nothing. -/
theorem exists_tree (finished : Finished tokens) {position : Nat}
    (going : (tokenAt tokens position).kind ≠ .finish) :
    ∃ (tree : Tree) (rest : List Token), tree.Reads (tokens.drop position) rest ∧
      ((∃ span, tree = .stray (.closing span)) ∨ tree.isStray = false) := by
  have inside : position < tokens.length := by
    refine Nat.lt_of_not_le ?_
    intro past
    exact going (kind_tokenAt_of_drop_eq_nil finished (List.drop_eq_nil_of_le past))
  obtain ⟨⟨tree, rest, reads⟩, _⟩ := Tree.exists_reads (finishes_drop finished inside)
  refine ⟨tree, rest, reads, ?_⟩
  obtain ⟨_, here⟩ := Tree.head_of_reads reads
  rw [tokenAt_eq here] at going
  cases tree with
  | stray stop =>
    cases stop with
    | closing span => exact .inl ⟨span, rfl⟩
    | finish span => exact absurd rfl going
  | _ => exact .inr rfl

theorem head?_ofTokens {tree : Tree} {rest : List Token} (reads : tree.Reads tokens rest)
    (kind : (∃ span, tree = .stray (.closing span)) ∨ tree.isStray = false) :
    (Tree.ofTokens tokens).head? = some tree := by
  rcases kind with ⟨span, rfl⟩ | expr
  · obtain ⟨behind, same⟩ := Tree.head_of_reads reads
    have closing := Tree.ofTokens_closing span behind
    rw [same, Tree.lead, Stop.kind, Stop.span, closing]
    rfl
  · rw [Tree.ofTokens_of_reads expr reads]
    rfl

theorem ofTokens_of_atEnd {position : Nat} (atEnd : (tokenAt tokens position).kind = .finish) :
    Tree.ofTokens (tokens.drop position) = [] := by
  match here : tokens.drop position with
  | [] => rfl
  | ⟨kind, span⟩ :: behind =>
    obtain rfl : kind = .finish := by rw [← atEnd, tokenAt_eq here]
    have leads : (Stop.finish span).Leads (⟨.finish, span⟩ :: behind) := ⟨behind, rfl⟩
    exact Tree.ofTokens_of_finish leads

theorem program_stop (stops : (tokenAt tokens c.position).kind = .finish ∨ c.errors.isFull = true) :
    program src tokens c = some ([], c) := by
  rw [program, peek_bind, get_bind, if_pos stops]
  rfl

theorem program_closing (room : ¬c.errors.isFull = true) {span : Span} {behind : List Token}
    (here : tokens.drop c.position = ⟨.closing, span⟩ :: behind) :
    program src tokens c =
      program src tokens ((c.report src (Form.strayed (.closing span))).move (c.position + 1)) := by
  conv => lhs; rw [program]
  rw [peek_bind, get_bind, tokenAt_eq here, if_neg (by simp [room]), if_pos rfl, modify_bind]
  exact advance_bind (c := c.report src (Form.strayed (.closing span))) here _

theorem program_expression (finished : Finished tokens) (room : ¬c.errors.isFull = true) {tree : Tree}
    {rest : List Token} (reads : tree.Reads (tokens.drop c.position) rest) (expr : tree.isStray = false) :
    program src tokens c =
      match Form.node c.inLambda tree with
      | .ok node =>
        (program src tokens (c.move (Tree.endOf tokens c.position))).map fun (nodes, c') => (node :: nodes, c')
      | .error failure => program src tokens ((c.move (Tree.endOf tokens c.position)).report src failure) := by
  obtain ⟨_, here⟩ := Tree.head_of_reads reads
  have going : ¬(tree.lead.kind = .finish ∨ c.errors.isFull = true) := by
    cases tree with
    | stray stop => cases expr
    | _ => simp [Tree.lead, room]
  conv => lhs; rw [program]
  rw [peek_bind, get_bind, tokenAt_eq here, if_neg going, if_neg (lead_ne_closing expr),
    bind_eq (expression_eq src finished reads)]
  cases Form.node c.inLambda tree with
  | ok node =>
    change (program src tokens (c.move (Tree.endOf tokens c.position))).bind _ = _
    cases program src tokens (c.move (Tree.endOf tokens c.position)) <;> rfl
  | error failure => rfl

/-- Reading all top-level expressions by descent ends, with the nodes and errors of the trees. Each
round goes over some tokens: those of an expression, or a `)` that closes nothing. -/
theorem program_eq (src : Source) (finished : Finished tokens) {nodes : List Node} {errors : Diagnostics} (c : Cursor)
    (outside : c.inLambda = false)
    (read : src.nodesOfTrees (Tree.ofTokens (tokens.drop c.position)) c.errors = (nodes, errors)) :
    ∃ c', program src tokens c = some (nodes, c') ∧ c'.errors = errors := by
  induction size : (tokens.drop c.position).length using Nat.strongRecOn generalizing c nodes with
  | ind size' ih =>
    subst size
    by_cases full : c.errors.isFull = true
    · rw [src.nodesOfTrees_of_full _ full] at read
      cases read
      exact ⟨c, program_stop (.inr full), rfl⟩
    by_cases atEnd : (tokenAt tokens c.position).kind = .finish
    · rw [ofTokens_of_atEnd atEnd] at read
      cases read
      exact ⟨c, program_stop (.inl atEnd), rfl⟩
    obtain ⟨tree, rest, reads, ⟨span, rfl⟩ | expr⟩ := exists_tree finished atEnd
    · obtain ⟨behind, here⟩ := Tree.head_of_reads reads
      rw [here, Tree.lead, Stop.kind, Stop.span, Tree.ofTokens_closing, Source.nodesOfTrees, if_neg full] at read
      have shorter : (tokens.drop (c.position + 1)).length < (tokens.drop c.position).length := by
        rw [drop_succ here, here]
        exact Nat.lt_succ_self _
      rw [program_closing full here]
      refine ih _ shorter ((c.report src (Form.strayed (.closing span))).move (c.position + 1)) outside ?_ rfl
      rw [Cursor.position_move, drop_succ here]
      exact read
    · have behind := Tree.drop_endOf_of_reads reads
      rw [Tree.ofTokens_of_reads expr reads, Source.nodesOfTrees, if_neg full, ← behind] at read
      have shorter : (tokens.drop (Tree.endOf tokens c.position)).length < (tokens.drop c.position).length := by
        rw [behind]
        exact Tree.length_lt_of_reads expr reads
      rw [program_expression finished full reads expr, outside]
      cases answer : Form.node false tree with
      | ok node =>
        rw [answer] at read
        obtain ⟨rfl, rfl⟩ := Prod.mk.inj read
        obtain ⟨c', later, kept⟩ := ih _ shorter (c.move (Tree.endOf tokens c.position)) outside rfl rfl
        refine ⟨c', ?_, kept⟩
        dsimp only
        rw [later]
        rfl
      | error failure =>
        rw [answer] at read
        exact ih _ shorter ((c.move (Tree.endOf tokens c.position)).report src failure) outside read rfl

/-- No error was dropped, and there was room for each of them. -/
def Lossless (errors : Diagnostics) : Prop :=
  errors.kept.length = errors.total ∧ errors.total ≤ Collector.capacity

theorem Lossless.push {errors : Diagnostics} (lossless : Lossless errors) (room : ¬errors.isFull = true)
    (report : Report) : Lossless (errors.push report) := by
  obtain ⟨all, _⟩ := lossless
  have few : errors.total < Collector.capacity := by simpa [Collector.isFull] using room
  constructor
  · rw [Collector.push, if_pos (by omega), List.length_append, all]
    rfl
  · exact few

theorem lossless_nodesOfTrees (src : Source) (trees : List Tree) {errors : Diagnostics} (lossless : Lossless errors) :
    Lossless (src.nodesOfTrees trees errors).2 := by
  induction trees generalizing errors with
  | nil => exact lossless
  | cons tree trees ih =>
    by_cases full : errors.isFull = true
    · rw [src.nodesOfTrees_of_full _ full]
      exact lossless
    · rw [Source.nodesOfTrees, if_neg full]
      cases Form.node false tree with
      | ok node => exact ih lossless
      | error failure => exact ih (lossless.push full _)

/-- Every attempt at an expression ends. It ends where the brackets say that the expression
does, in as many lambdas as before, and it has reported one error if it gives no node and none
if it gives one. So reading all of the tokens ends too, with no more errors than are kept. -/
theorem attempts_end (src : Source) (finished : Finished tokens) :
    (∀ (c : Cursor) (token : Token), tokens[c.position]? = some token → token.kind ≠ .finish →
      ∃ tree ∈ (Tree.ofTokens (tokens.drop c.position)).head?, ∃ result c',
        expression src tokens c = some (result, c') ∧
          c'.position = Tree.endOf tokens c.position ∧ c'.depth = c.depth ∧
          match Form.node (0 < c.depth) tree with
          | .ok node => result = some node ∧ c'.errors = c.errors
          | .error failure => result = none ∧ c'.errors =
              c.errors.push (src.report failure.span failure.fault.code failure.fault.message)) ∧
      ∃ nodes c', program src tokens .start = some (nodes, c') ∧ src.nodesOfTokens tokens = (nodes, c'.errors) ∧
        c'.errors.total ≤ Collector.capacity ∧ c'.errors.kept.length = c'.errors.total := by
  constructor
  · intro c token here going
    have atToken : tokenAt tokens c.position = token := by
      rw [tokenAt, here]
      rfl
    obtain ⟨tree, rest, reads, kind⟩ := exists_tree finished (atToken ▸ going)
    refine ⟨tree, head?_ofTokens reads kind, _, _, expression_eq src finished reads, ?_⟩
    unfold Cursor.inLambda
    cases Form.node (0 < c.depth) tree with
    | ok node => exact ⟨rfl, rfl, rfl, rfl⟩
    | error failure => exact ⟨rfl, rfl, rfl, rfl⟩
  · cases read : src.nodesOfTokens tokens with
    | mk nodes errors =>
      obtain ⟨c', ran, rfl⟩ := program_eq src finished .start rfl read
      have lossless : Lossless (src.nodesOfTokens tokens).2 := lossless_nodesOfTrees src _ ⟨rfl, Nat.zero_le _⟩
      rw [read] at lossless
      exact ⟨nodes, c', ran, rfl, lossless.2, lossless.1⟩

/-- Reading `(f (if) y) )` from the start ends behind the list, though the error is inside it. -/
theorem attempts_end_inner :
    let src : Source := ⟨"s", "(f (if) y) )"⟩
    let token (kind : Token.Kind) : Token := ⟨kind, .point .first⟩
    let symbol (name : String) := token (.atom (.symbol name))
    let tokens := [token .opening, symbol "f", token .opening, symbol "if", token .closing, symbol "y",
      token .closing, token .closing, token .finish]
    Finished tokens ∧
      (∃ report c', expression src tokens .start = some (none, c') ∧ c'.position = 7 ∧ c'.errors = ⟨[report], 1⟩) ∧
      ∃ c', program src tokens .start = some ([], c') ∧ c'.errors.total = 2 := by
  intro src token symbol tokens
  have finished : Finished tokens := ⟨.point .first, rfl⟩
  obtain ⟨attempt, nodes, c', ran, read, _⟩ := attempts_end src finished
  refine ⟨finished, ?_, ?_⟩
  · obtain ⟨tree, first, result, c', ran, ended, _, answer⟩ := attempt .start (token .opening) rfl (by decide)
    cases first
    obtain ⟨rfl, kept⟩ := answer
    exact ⟨_, c', ran, ended, kept⟩
  · have total : (src.nodesOfTokens tokens).2.total = 2 := by decide
    have none : (src.nodesOfTokens tokens).1 = [] := rfl
    rw [read] at total none
    subst none
    exact ⟨c', ran, total⟩

end Programs

end CheckedLisp.Descent
