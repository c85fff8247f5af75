import CheckedLisp.Proofs.Token.Derivation
import CheckedLisp.Proofs.Token.Layout

/-! Scanning lays out the text that it has read. Its mode says which lexeme is open behind the
layout; when the lexeme ends, the layout goes on with a token or with a piece that is left out. So
what holds of layouts holds of the tokens of a source. -/
namespace CheckedLisp

theorem Collector.forall_mem_push {α : Type} {P : α → Prop} {c : Collector α} {last : α}
    (each : ∀ error ∈ c.kept, P error) (holds : P last) : ∀ error ∈ (c.push last).kept, P error := by
  unfold push
  dsimp only
  split
  · simpa [or_imp, forall_and] using ⟨each, holds⟩
  · exact each

namespace Lexical

open Scan

/-- The report points forward, quotes the line where it starts, and counts no further than
the source goes. -/
structure Faithful (src : Source) (report : Report) : Prop where
  forward : report.span.start ≤ report.span.stop
  quotes : src.line report.span.start.line = some report.quotedLine
  within : report.span.Within (src.text.length + 1)

/-- What a scan has found when it has read `before`. -/
structure Found (src : Source) (before rest : List Char) (r : Result) : Prop where
  laid : ∃ clean, (r.errors.total = 0 → clean = true) ∧ Layout src.text.toList clean before rest r.tokens
  reported : ∀ report ∈ r.errors.kept, Faithful src report

section Reports

variable {src : Source} {before rest outer piece after : List Char} {r : Result}

theorem length_toList_eq (split : src.text.toList = outer ++ (piece ++ after)) :
    src.text.length = outer.length + (piece.length + after.length) := by
  rw [← String.length_toList, split]
  simp

theorem faithful_report (split : src.text.toList = outer ++ (piece ++ after)) (nonempty : piece ≠ [])
    (code : Code) (message : String) :
    Faithful src (src.report (.upTo (.behind outer) (.behind (outer ++ piece))) code message) := by
  have line := Source.line_behind split
  have length := length_toList_eq split
  constructor
  · exact Position.le_before_of_lt (Position.behind_lt outer nonempty)
  · simp only [Source.report, Report.ofCode, Span.upTo, line, Option.getD_some]
  · refine ⟨Position.within_behind (by omega), Position.within_before (Position.within_behind ?_) (by omega)⟩
    simp only [List.length_append]
    omega

/-- A report does not change what is laid out. -/
theorem Found.fail (found : Found src before rest r) (split : src.text.toList = outer ++ (piece ++ after))
    (nonempty : piece ≠ []) (fault : Token.Fault) :
    Found src before rest (r.fail src (.upTo (.behind outer) (.behind (outer ++ piece))) fault) := by
  obtain ⟨clean, -, laid⟩ := found.laid
  exact ⟨⟨clean, by simp [Result.fail, Collector.push], laid⟩,
    Collector.forall_mem_push found.reported (faithful_report split nonempty _ _)⟩

theorem Found.text_eq (found : Found src before rest r) : src.text.toList = before ++ rest := by
  obtain ⟨clean, -, laid⟩ := found.laid
  exact laid.text_eq

/-- A piece that is no lexeme is reported and left out. -/
theorem Found.malformed (found : Found src before (piece ++ rest) r) (nonempty : piece ≠ []) (fault : Token.Fault) :
    Found src (before ++ piece) rest
      (r.fail src (.upTo (.behind before) (.behind (before ++ piece))) fault) := by
  obtain ⟨clean, -, laid⟩ := found.laid
  exact ⟨⟨false, by simp [Result.fail, Collector.push], laid.malformed⟩,
    (found.fail found.text_eq nonempty fault).reported⟩

theorem Found.blank {c : Char} (found : Found src before (c :: rest) r) (blank : Text.isBlank c) :
    Found src (before ++ [c]) rest r := by
  obtain ⟨clean, whole, laid⟩ := found.laid
  exact ⟨⟨clean, whole, laid.blank blank⟩, found.reported⟩

theorem Found.comment {body : List Char} (found : Found src before (';' :: (body ++ rest)) r)
    (oneLine : '\n' ∉ body) : Found src (before ++ ';' :: body) rest r := by
  obtain ⟨clean, whole, laid⟩ := found.laid
  exact ⟨⟨clean, whole, laid.comment oneLine⟩, found.reported⟩

theorem Found.token {lexeme : List Char} {kind : Token.Kind} (found : Found src before (lexeme ++ rest) r)
    (written : Written lexeme kind) (apart : isWord kind → Delimits before.getLast? ∧ Delimits rest.head?) :
    Found src (before ++ lexeme) rest (r.push kind (.upTo (.behind before) (.behind (before ++ lexeme)))) := by
  obtain ⟨clean, whole, laid⟩ := found.laid
  rw [← written.spanOf_eq]
  exact ⟨⟨clean, whole, laid.token written apart⟩, found.reported⟩

end Reports

theorem Decodes.append {body text more others : List Char} (first : Decodes body text)
    (second : Decodes more others) : Decodes (body ++ more) (text ++ others) := by
  induction first with
  | nil => exact second
  | plain notQuote notSlash _ ih => exact .plain notQuote notSlash ih
  | escape known _ ih => exact .escape known ih
  | unknown unknown _ ih => exact .unknown unknown ih

/-- What a mode says when `before` has been read: the text is laid out up to the lexeme that
is open, and the mode holds the part of the lexeme that has been read. -/
def Holds (src : Source) (before rest : List Char) (r : Result) : Mode → Prop
  | .gap => Found src before rest r ∧ Delimits before.getLast?
  | .comment => ∃ outer body, before = outer ++ ';' :: body ∧ '\n' ∉ body ∧
    Found src outer (';' :: (body ++ rest)) r
  | .atom start read => ∃ outer, before = outer ++ read.reverse ∧ start = .behind outer ∧ read ≠ [] ∧
    (∀ c ∈ read, isDelimiter c = false) ∧ Delimits outer.getLast? ∧ Found src outer (read.reverse ++ rest) r
  | .string start read => ∃ outer body, before = outer ++ '"' :: body ∧ start = .behind outer ∧
    Decodes body read.reverse ∧ Found src outer ('"' :: (body ++ rest)) r
  | .escape start read slash => ∃ outer body, before = outer ++ '"' :: (body ++ ['\\']) ∧ start = .behind outer ∧
    slash = .behind (outer ++ '"' :: body) ∧ Decodes body read.reverse ∧
    Found src outer ('"' :: (body ++ '\\' :: rest)) r

section Modes

variable {src : Source} {before rest read : List Char} {c : Char} {r : Result} {start slash : Position}

theorem delimits_snoc (delimiter : isDelimiter c) : Delimits (before ++ [c]).getLast? := by
  simpa [Delimits] using delimiter

/-- A word that ends before a delimiter is a token or is left out. -/
theorem found_endAtom (holds : Holds src before rest r (.atom start read)) (ends : Delimits rest.head?) :
    Found src before rest (r.endAtom src start (.behind before) read) := by
  obtain ⟨outer, rfl, rfl, nonempty, plain, apart, found⟩ := holds
  have nonempty : read.reverse ≠ [] := by simpa using nonempty
  unfold Result.endAtom
  split
  · next atom classified =>
    have spelled : Spells read.reverse atom :=
      spells_of_classify nonempty (fun c inside => plain c (List.mem_reverse.1 inside)) classified
    exact found.token (.lexeme (.word spelled)) fun _ => ⟨apart, ends⟩
  · next fault _ => exact found.malformed nonempty fault

theorem found_mark {kind : Token.Kind} (found : Found src before (c :: rest) r) (mark : Lexeme [c] kind)
    (delimiter : isDelimiter c) (noWord : isWord kind = false) :
    Holds src (before ++ [c]) rest
      (r.push kind (.upTo (.behind before) ((Position.behind before).advance c))) .gap := by
  rw [← Position.behind_snoc]
  refine ⟨found.token (.lexeme mark) ?_, delimits_snoc delimiter⟩
  rw [noWord]
  rintro ⟨⟩

theorem holds_enter (found : Found src before (c :: rest) r)
    (apart : Delimits before.getLast? ∨ isDelimiter c) :
    Holds src (before ++ [c]) rest (r.enter (.behind before) c).2 (r.enter (.behind before) c).1 := by
  unfold Result.enter
  dsimp only
  split
  · next blank => exact ⟨found.blank blank, delimits_snoc (by simp [isDelimiter, blank])⟩
  split
  · next semicolon =>
    subst semicolon
    exact ⟨before, [], rfl, by simp, found⟩
  split
  · next mark =>
    subst mark
    exact found_mark found .opening rfl rfl
  split
  · next mark =>
    subst mark
    exact found_mark found .closing rfl rfl
  split
  · next mark =>
    subst mark
    exact found_mark found .quote rfl rfl
  split
  · next mark =>
    subst mark
    exact ⟨before, [], rfl, rfl, .nil, found⟩
  · have plain : isDelimiter c = false := not_isDelimiter_iff.2 (by simp_all)
    have apart : Delimits before.getLast? := by simpa [plain] using apart
    exact ⟨before, rfl, rfl, by simp, by simpa using plain, apart, found⟩

theorem holds_comment (holds : Holds src before (c :: rest) r .comment) :
    Holds src (before ++ [c]) rest r (if c = '\n' then .gap else .comment) := by
  obtain ⟨outer, body, rfl, oneLine, found⟩ := holds
  split
  · next newline =>
    subst newline
    exact ⟨(found.comment oneLine).blank rfl, delimits_snoc rfl⟩
  · next other =>
    refine ⟨outer, body ++ [c], by simp, ?_, by simpa using found⟩
    simpa [oneLine] using Ne.symm other

theorem holds_atom (holds : Holds src before (c :: rest) r (.atom start read)) (plain : isDelimiter c = false) :
    Holds src (before ++ [c]) rest r (.atom start (c :: read)) := by
  obtain ⟨outer, rfl, rfl, -, others, apart, found⟩ := holds
  exact ⟨outer, by simp, rfl, by simp, by simpa using ⟨plain, others⟩, apart, by simpa using found⟩

theorem holds_string (holds : Holds src before (c :: rest) r (.string start read)) (notQuote : c ≠ '"')
    (notSlash : c ≠ '\\') : Holds src (before ++ [c]) rest r (.string start (c :: read)) := by
  obtain ⟨outer, body, rfl, rfl, decoded, found⟩ := holds
  refine ⟨outer, body ++ [c], by simp, rfl, ?_, by simpa using found⟩
  rw [List.reverse_cons]
  exact decoded.append (.plain notQuote notSlash .nil)

theorem holds_slash (holds : Holds src before ('\\' :: rest) r (.string start read)) :
    Holds src (before ++ ['\\']) rest r (.escape start read (.behind before)) := by
  obtain ⟨outer, body, rfl, rfl, decoded, found⟩ := holds
  exact ⟨outer, body, by simp, rfl, rfl, decoded, found⟩

/-- A string that ends is a token, whatever stands in it. -/
theorem holds_quote (holds : Holds src before ('"' :: rest) r (.string start read)) :
    Holds src (before ++ ['"']) rest
      (r.push (.atom (.string (String.ofList read.reverse))) (.upTo start ((Position.behind before).advance '"')))
      .gap := by
  obtain ⟨outer, body, rfl, rfl, decoded, found⟩ := holds
  have found : Found src outer (('"' :: (body ++ ['"'])) ++ rest) r := by simpa using found
  have token := found.token (.string decoded) (by rintro ⟨⟩)
  refine ⟨?_, delimits_snoc rfl⟩
  rw [← Position.behind_snoc]
  simpa using token

theorem holds_escape {d : Char} (holds : Holds src before (c :: rest) r (.escape start read slash))
    (decodes : Decodes ['\\', c] [d]) : Holds src (before ++ [c]) rest r (.string start (d :: read)) := by
  obtain ⟨outer, body, rfl, rfl, -, decoded, found⟩ := holds
  refine ⟨outer, body ++ ['\\', c], by simp, rfl, ?_, by simpa using found⟩
  rw [List.reverse_cons]
  exact decoded.append decodes

/-- An escape that is not known is reported, and the string goes on. -/
theorem holds_fail (holds : Holds src before (c :: rest) r (.escape start read slash)) (fault : Token.Fault) :
    Holds src before (c :: rest) (r.fail src (.upTo slash ((Position.behind before).advance c)) fault)
      (.escape start read slash) := by
  obtain ⟨outer, body, rfl, rfl, rfl, decoded, found⟩ := holds
  refine ⟨outer, body, rfl, rfl, rfl, decoded, ?_⟩
  have split : src.text.toList = (outer ++ '"' :: body) ++ (['\\', c] ++ rest) := by simp [found.text_eq]
  have failed := found.fail split (by simp) fault
  rw [← Position.behind_snoc]
  simpa using failed

/-- What is open at the end of a source is ended there. -/
theorem found_close {mode : Mode} (holds : Holds src before [] r mode) :
    Found src before [] (r.close src (.behind before) mode) := by
  cases mode with
  | gap => exact holds.1
  | comment =>
    obtain ⟨outer, body, rfl, oneLine, found⟩ := holds
    exact found.comment oneLine
  | atom => exact found_endAtom holds (by simp [Delimits])
  | string =>
    obtain ⟨outer, body, rfl, rfl, -, found⟩ := holds
    have found : Found src outer (('"' :: body) ++ []) r := found
    exact found.malformed (by simp) _
  | escape =>
    obtain ⟨outer, body, rfl, rfl, -, -, found⟩ := holds
    have found : Found src outer (('"' :: (body ++ ['\\'])) ++ []) r := by simpa using found
    exact found.malformed (by simp) _

/-- A scan is over: behind the layout stands the token of the end, and without errors
nothing follows it. -/
structure Scanned (src : Source) (r : Result) : Prop where
  ended : ∃ before rest tokens clean, r.tokens = ⟨.finish, .point (.behind before)⟩ :: tokens ∧
    (r.errors.total = 0 → clean = true ∧ rest = []) ∧ Layout src.text.toList clean before rest tokens
  reported : ∀ report ∈ r.errors.kept, Faithful src report

theorem scanned_finish (found : Found src before rest r) (ends : r.errors.total = 0 → rest = []) :
    Scanned src (r.finish (.behind before)) := by
  obtain ⟨clean, whole, laid⟩ := found.laid
  exact ⟨⟨before, rest, r.tokens, clean, rfl, fun none => ⟨whole none, ends none⟩, laid⟩, found.reported⟩

/-- A full collector ends the scan wherever it is. -/
theorem scanned_full (found : Found src before rest r) (full : r.errors.isFull) :
    Scanned src (r.finish (.behind before)) := by
  refine scanned_finish found fun none => ?_
  simp [Collector.isFull, Collector.capacity, none] at full

theorem scanned_run {mode : Mode} (holds : Holds src before rest r mode) :
    Scanned src (run src mode (.behind before) rest r) := by
  induction rest generalizing before mode r with
  | nil => cases mode <;> exact scanned_finish (found_close holds) fun _ => rfl
  | cons c rest ih =>
    have onward {mode : Mode} {r : Result} (holds : Holds src (before ++ [c]) rest r mode) :
        Scanned src (run src mode ((Position.behind before).advance c) rest r) := by
      rw [← Position.behind_snoc]
      exact ih holds
    cases mode with
    | gap =>
      rw [run]
      split
      · next full => exact scanned_full holds.1 full
      · exact onward (holds_enter holds.1 (.inl holds.2))
    | comment =>
      rw [run]
      exact onward (holds_comment holds)
    | atom start read =>
      rw [run]
      split
      · next delimiter =>
        have found := found_endAtom holds (by simpa [Delimits] using delimiter)
        dsimp only
        split
        · next full => exact scanned_full found full
        · exact onward (holds_enter found (.inr delimiter))
      · next plain => exact onward (holds_atom holds (by simpa using plain))
    | string start read =>
      rw [run]
      split
      · next quote =>
        subst quote
        exact onward (holds_quote holds)
      split
      · next slash =>
        subst slash
        exact onward (holds_slash holds)
      · next notQuote notSlash => exact onward (holds_string holds notQuote notSlash)
    | escape start read slash =>
      rw [run]
      split
      · next d known => exact onward (holds_escape holds (.escape (mem_escapes.2 known) .nil))
      · next unknown =>
        have failed := holds_fail holds (.unknownEscape c)
        exact onward (holds_escape failed (.unknown (by simp [mem_escapes, unknown]) .nil))

end Modes

theorem scanned (src : Source) : Scanned src (run src .gap .first src.text.toList ⟨[], .empty⟩) := by
  have first : Found src [] src.text.toList ⟨[], .empty⟩ :=
    ⟨⟨true, fun _ => rfl, .start⟩, by simp [Collector.empty]⟩
  have holds : Holds src [] src.text.toList ⟨[], .empty⟩ .gap := ⟨first, by simp [Delimits]⟩
  exact scanned_run holds

/-- The tokens of a source, the latest first, are laid out in it; the last is its end. -/
theorem exists_layout (src : Source) : ∃ before rest tokens clean,
    src.tokens.1 = tokens.reverse ++ [⟨.finish, .point (.behind before)⟩] ∧
      (src.tokens.2.total = 0 → clean = true ∧ rest = []) ∧ Layout src.text.toList clean before rest tokens := by
  obtain ⟨before, rest, tokens, clean, same, whole, laid⟩ := (scanned src).ended
  exact ⟨before, rest, tokens, clean, by simp [Source.tokens, same], whole, laid⟩

/-- Tokens stand one behind the other. -/
structure Ordered (tokens : List Token) : Prop where
  forward : ∀ token ∈ tokens, token.span.start ≤ token.span.stop
  apart : tokens.Pairwise fun first second => first.span.stop < second.span.start

namespace Ordered

variable {tokens more : List Token} {token : Token}

theorem sublist (ordered : Ordered more) (sublist : tokens.Sublist more) : Ordered tokens :=
  ⟨fun token inside => ordered.forward token (sublist.subset inside), ordered.apart.sublist sublist⟩

theorem start_le {first : Token} (ordered : Ordered (first :: tokens)) (inside : token ∈ first :: tokens) :
    first.span.start ≤ token.span.start := by
  rcases List.mem_cons.1 inside with rfl | behind
  · exact Position.le_refl _
  · have forward := ordered.forward first List.mem_cons_self
    have apart := (List.pairwise_cons.1 ordered.apart).1 token behind
    exact Position.le_trans forward (Position.le_of_lt apart)

theorem stop_le {last : Token} (ordered : Ordered (tokens ++ [last])) (inside : token ∈ tokens ++ [last]) :
    token.span.stop ≤ last.span.stop := by
  rcases List.mem_append.1 inside with before | same
  · have forward := ordered.forward last (by simp)
    have apart := (List.pairwise_append.1 ordered.apart).2.2 token before last (by simp)
    exact Position.le_trans (Position.le_of_lt apart) forward
  · rw [List.mem_singleton.1 same]
    exact Position.le_refl _

end Ordered

theorem ordered_tokens (src : Source) : Ordered src.tokens.1 := by
  obtain ⟨before, rest, tokens, clean, same, -, laid⟩ := exists_layout src
  rw [same]
  constructor
  · intro token inside
    simp only [List.mem_append, List.mem_reverse, List.mem_singleton] at inside
    rcases inside with inside | rfl
    · exact (laid.stop_lt token inside).1
    · exact Position.le_refl _
  · rw [List.pairwise_append, List.pairwise_reverse]
    refine ⟨laid.pairwise, List.pairwise_singleton _ _, ?_⟩
    simp only [List.mem_reverse, List.mem_singleton, forall_eq]
    exact fun token inside => (laid.stop_lt token inside).2

/-- The span goes from the first to the last character of the lexeme of the token, and a
lexeme on one line is what this line has between the columns. -/
def Located (src : Source) (token : Token) : Prop :=
  ∃ outer lexeme after, src.text.toList = outer ++ (lexeme ++ after) ∧ Written lexeme token.kind ∧
    (isWord token.kind → Delimits outer.getLast? ∧ Delimits after.head?) ∧
    token.span.start = .behind outer ∧ token.span.stop = .behind (outer ++ lexeme.dropLast) ∧
    (token.span.start.line = token.span.stop.line → ∃ text, src.line token.span.start.line = some text ∧
      (text.toList.drop (token.span.start.column - 1)).take
        (token.span.stop.column + 1 - token.span.start.column) = lexeme)

theorem Layout.located {src : Source} {clean : Bool} {before rest : List Char} {tokens : List Token}
    (laid : Layout src.text.toList clean before rest tokens) : ∀ token ∈ tokens, Located src token := by
  intro token inside
  obtain ⟨outer, lexeme, after, split, written, same, apart⟩ := laid.exists_lexeme token inside
  refine ⟨outer, lexeme, after, split, written, apart, ?_⟩
  rw [same]
  exact ⟨rfl, rfl, slice_of_oneLine split written⟩

theorem Located.ne_finish {src : Source} {token : Token} (located : Located src token) : token.kind ≠ .finish := by
  obtain ⟨outer, lexeme, after, -, written, -⟩ := located
  exact written.ne_finish

theorem Located.within {src : Source} {token : Token} (located : Located src token) :
    token.span.Within (src.text.length + 1) := by
  obtain ⟨outer, lexeme, after, split, -, -, start, stop, -⟩ := located
  have length := length_toList_eq split
  have shorter := lexeme.length_dropLast
  constructor
  · rw [start]
    exact Position.within_behind (by omega)
  · rw [stop]
    exact Position.within_behind (by rw [List.length_append]; omega)

/-- Each token but the last, the end, stands where its lexeme does; without errors, there
is only trivia between them. Reports quote the line where they start. -/
theorem tokens_located (src : Source) :
    ∃ tokens finish, src.tokens.1 = tokens ++ [finish] ∧ finish.kind = .finish ∧
      (∀ token ∈ tokens, token.kind ≠ .finish ∧ Located src token) ∧
      (∀ token ∈ tokens ++ [finish],
        token.span.start ≤ token.span.stop ∧ token.span.Within (src.text.length + 1)) ∧
      ((tokens ++ [finish]).Pairwise fun first second => first.span.stop < second.span.start) ∧
      (src.tokens.2.total = 0 → ∀ before c rest, src.text.toList = before ++ c :: rest →
        Uncovered tokens (.behind before) → Trivial tokens before c) ∧
      ∀ report ∈ src.tokens.2.kept, Faithful src report := by
  have ordered := ordered_tokens src
  obtain ⟨before, rest, tokens, clean, same, whole, laid⟩ := exists_layout src
  rw [same] at ordered
  refine ⟨tokens.reverse, _, same, rfl, ?_, ?_, ordered.apart, ?_, (scanned src).reported⟩
  · intro token inside
    have located := laid.located token (List.mem_reverse.1 inside)
    exact ⟨located.ne_finish, located⟩
  · intro token inside
    refine ⟨ordered.forward token inside, ?_⟩
    rcases List.mem_append.1 inside with earlier | last
    · exact (laid.located token (List.mem_reverse.1 earlier)).within
    · have reached : before.length < src.text.length + 1 := by
        rw [← String.length_toList, laid.text_eq, List.length_append]
        omega
      rw [List.mem_singleton.1 last]
      exact ⟨Position.within_behind reached, Position.within_behind reached⟩
  · intro none outer c after split uncovered
    obtain ⟨rfl, rfl⟩ := whole none
    have reached : before = outer ++ c :: after := by
      rw [← split, laid.text_eq, List.append_nil]
    have known := laid.trivial_of_uncovered reached (by simpa [Uncovered] using uncovered)
    simpa [Trivial, Uncovered] using known

end Lexical

end CheckedLisp
