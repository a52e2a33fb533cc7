import Lox.Proofs.Reading.FaultOrder

/-!
# Rounds tile the tokens

Every round of reading a program begins where the one before it ended, and the last one ends with
the tokens. A round that succeeds takes a statement with its end. A round that fails takes all up to
the first boundary behind the token of its fault, which is the end of the source, the place behind a
semicolon or the place before a word that opens a statement. The token of the fault is passed over
before a boundary is looked for, so reading never resumes at it.
-/

namespace Lox

/-- The words that open a statement. -/
def Keyword.opening : List Keyword :=
  [.classWord, .funWord, .varWord, .forWord, .ifWord, .whileWord, .printWord, .returnWord]

/-- Reading may resume before the words that open a statement, and before no other token. -/
theorem Kind.opensStatement_iff (kind : Kind) :
    kind.opensStatement = true ↔ ∃ word ∈ Keyword.opening, kind = .keyword word := by
  cases kind with
  | keyword word =>
    cases word <;> simp [Kind.opensStatement, Keyword.opensStatement, Keyword.opening]
  | _ => simp [Kind.opensStatement]

/-- Reading may resume at a place of the source: it ends there, a word that opens a statement stands
there, or a semicolon stands right before it. -/
def IsBoundary (source : List Token) (place : Nat) : Prop :=
  (∃ token ∈ source[place]?,
    token.isEnd = true ∨ ∃ word ∈ Keyword.opening, token.kind = .keyword word) ∨
  ∃ token ∈ source[place - 1]?, token.kind = .semicolon

/-- The least boundary behind a place of the source. -/
structure FirstBoundary (source : List Token) (place next : Nat) : Prop where
  /-- The boundary is behind the place. -/
  behind : place < next
  /-- It is a boundary. -/
  isBoundary : IsBoundary source next
  /-- No boundary behind the place comes before it. -/
  least : ∀ other, place < other → IsBoundary source other → next ≤ other

/-- Whether the place between two tokens is a boundary depends on these two only. -/
theorem isBoundary_between (front : List Token) (passed next : Token) (more : List Token) :
    IsBoundary (front ++ passed :: next :: more) (front.length + 1) ↔
      passed.kind = .semicolon ∨ next.isEnd = true ∨ next.kind.opensStatement = true := by
  have hpassed : (front ++ passed :: next :: more)[front.length + 1 - 1]? = some passed := by simp
  have hnext : (front ++ passed :: next :: more)[front.length + 1]? = some next := by simp
  simp only [IsBoundary, hpassed, hnext, Option.mem_some_iff, Kind.opensStatement_iff,
    exists_eq_left']
  exact Or.comm

namespace Reader

/-- Passing over tokens ends at the first boundary behind the token passed first. -/
theorem boundaryAfter_first {stop : Token} (hstop : stop.isEnd = true) (front : List Token)
    (passed : Token) (others : List Token) (hothers : ∀ token ∈ others, token.isEnd = false) :
    ∃ skipped, others = skipped ++ boundaryAfter passed others ∧
      FirstBoundary (front ++ passed :: (others ++ [stop])) front.length
        (front.length + 1 + skipped.length) := by
  induction others generalizing front passed with
  | nil =>
    refine ⟨[], rfl, Nat.lt_succ_self _, ?_, fun other hlt _ => hlt⟩
    exact (isBoundary_between front passed stop []).mpr (.inr (.inl hstop))
  | cons token others ih =>
    obtain ⟨htoken, hothers⟩ := List.forall_mem_cons.mp hothers
    have hplace := isBoundary_between front passed token (others ++ [stop])
    by_cases hhere : passed.kind = .semicolon ∨ token.kind.opensStatement = true
    · refine ⟨[], (if_pos hhere).symm, Nat.lt_succ_self _, ?_, fun other hlt _ => hlt⟩
      exact hplace.mpr (hhere.imp_right .inr)
    · have hno : ¬ IsBoundary (front ++ passed :: token :: (others ++ [stop]))
          (front.length + 1) := by
        rw [hplace, htoken]
        simpa using hhere
      obtain ⟨skipped, hskipped, hfirst⟩ := ih (front ++ [passed]) token hothers
      have hnext : boundaryAfter passed (token :: others) = boundaryAfter token others :=
        if_neg hhere
      rw [List.length_append, List.length_singleton, List.append_assoc, List.singleton_append]
        at hfirst
      have hlength : front.length + 1 + (token :: skipped).length =
          front.length + 1 + 1 + skipped.length := by
        rw [List.length_cons]
        omega
      refine ⟨token :: skipped, by rw [hnext, List.cons_append, ← hskipped], ?_⟩
      rw [hlength]
      refine ⟨by omega, hfirst.isBoundary, fun other hlt hother => ?_⟩
      -- The place right behind the token passed is no boundary, so any other one is further on.
      have hne : other ≠ front.length + 1 := by
        rintro rfl
        exact hno hother
      exact hfirst.least other (by omega) hother

/-- Where tokens are left by a fault, reading resumes at the first boundary behind the first of
them. -/
theorem resume_first {stop : Token} (hstop : stop.isEnd = true) (front left : List Token)
    (hleft : ∀ token ∈ left, token.isEnd = false) :
    ∃ skipped, left = skipped ++ resume left ∧
      (left ≠ [] → skipped ≠ [] ∧ FirstBoundary (front ++ (left ++ [stop])) front.length
        (front.length + skipped.length)) := by
  cases left with
  | nil => exact ⟨[], rfl, fun hne => absurd rfl hne⟩
  | cons token others =>
    obtain ⟨-, hothers⟩ := List.forall_mem_cons.mp hleft
    obtain ⟨skipped, hskipped, hfirst⟩ := boundaryAfter_first hstop front token others hothers
    have hlength : front.length + (token :: skipped).length =
        front.length + 1 + skipped.length := by
      rw [List.length_cons]
      omega
    refine ⟨token :: skipped, congrArg (token :: ·) hskipped, fun _ => ?_⟩
    rw [hlength]
    exact ⟨List.cons_ne_nil _ _, hfirst⟩

/-- The next token is the end of the source exactly if nothing else is left. -/
theorem peek_isEnd_iff {stop : Token} (hstop : stop.isEnd = true) {left : List Token}
    (hleft : ∀ token ∈ left, token.isEnd = false) : (peek stop left).isEnd = true ↔ left = [] := by
  cases left with
  | nil => exact iff_of_true hstop rfl
  | cons token others =>
    have hno : (peek stop (token :: others)).isEnd = false := hleft token List.mem_cons_self
    rw [hno]
    exact iff_of_false Bool.false_ne_true (List.cons_ne_nil _ _)

end Reader

/-- The tokens of one round, and what the round made of them. -/
structure Tile where
  /-- The tokens from where the round began to where the next one begins. -/
  tokens : List Token
  /-- The statement that was read, or the fault. -/
  result : Except SyntaxFault Stmt

/-- The fault of a round that failed. -/
def Tile.fault? (tile : Tile) : Option SyntaxFault := Reader.fault? tile.result

/-- A round that begins at the place `start` takes the segment. Either it reads a statement, and the
segment is the whole of it, or it has a fault at some place, and then the segment goes on from there
to the first boundary. -/
inductive Covers (options : ReadingOptions) (stop : Token) (tokens : List Token) (start : Nat)
    (segment : List Token) : Except SyntaxFault Stmt → Prop where
  /-- A statement and its semicolon, which only the last statement may lack, and only where the
  options allow it. -/
  | statement {statement : Stmt} {taken : List Token}
      (hrun : Reader.statementRun options stop (tokens.drop start) =
        .accepted statement (tokens.drop (start + segment.length)))
      (hstatement : DerivesStatement statement taken)
      (hnesting : statement.nesting ≤ options.allowance)
      (hclosed : (∃ semicolon : Token, semicolon.kind = .semicolon ∧
          segment = taken ++ [semicolon]) ∨
        options.implicitSemicolon = true ∧ segment = taken ∧
          start + segment.length = tokens.length) :
      Covers options stop tokens start segment (.ok statement)
  /-- A fault at the token where reading stands when it stops. -/
  | fault {fault : SyntaxFault} {place : Nat} (hplace : start ≤ place)
      (hrun : Reader.statementRun options stop (tokens.drop start) =
        .refused fault (tokens.drop place))
      (htoken : (tokens ++ [stop])[place]? = some fault.token)
      (hend : fault.token.isEnd = true → start + segment.length = tokens.length)
      (hnext : fault.token.isEnd = false →
        FirstBoundary (tokens ++ [stop]) place (start + segment.length)) :
      Covers options stop tokens start segment (.error fault)

/-- From the place `start` on, the tiles cover the tokens one after the other to the end, and each
tile holds some. -/
inductive Tiling (options : ReadingOptions) (stop : Token) (tokens : List Token) :
    Nat → List Tile → Prop where
  /-- Nothing is left to cover. -/
  | done : Tiling options stop tokens tokens.length []
  /-- The tile of one round, and those of the rounds after it. -/
  | round {start : Nat} {tile : Tile} {tiles : List Tile} (hne : tile.tokens ≠ [])
      (htokens : tile.tokens <+: tokens.drop start)
      (hcovers : Covers options stop tokens start tile.tokens tile.result)
      (hrest : Tiling options stop tokens (start + tile.tokens.length) tiles) :
      Tiling options stop tokens start (tile :: tiles)

/-- Tiles that cover the tokens from a place on are the tokens from there on. -/
theorem Tiling.flatMap_tokens {options : ReadingOptions} {stop : Token} {tokens : List Token}
    {start : Nat} {tiles : List Tile} (h : Tiling options stop tokens start tiles) :
    tiles.flatMap Tile.tokens = tokens.drop start := by
  induction h with
  | done => rw [List.drop_length, List.flatMap_nil]
  | round hne htokens hcovers hrest ih =>
    obtain ⟨after, hafter⟩ := htokens
    rw [List.flatMap_cons, ih, ← List.drop_drop, ← hafter, List.drop_left]

/-- What one round takes comes before the tiles of the rounds after it. -/
theorem Tiling.prepend {options : ReadingOptions} {stop : Token}
    {tokens done segment after : List Token} {result : Except SyntaxFault Stmt} {tiles : List Tile}
    (hrest : Tiling options stop tokens (done ++ segment).length tiles) (hne : segment ≠ [])
    (htokens : tokens = done ++ (segment ++ after))
    (hcovers : Covers options stop tokens done.length segment result) :
    Tiling options stop tokens done.length (⟨segment, result⟩ :: tiles) := by
  refine .round hne ⟨after, ?_⟩ hcovers (List.length_append ▸ hrest)
  rw [htokens, List.drop_left]

namespace Reader

variable {options : ReadingOptions} {stop : Token} {tokens done : List Token}

/-- A round that succeeds takes a whole statement. -/
theorem covers_of_accepted {rest after : List Token} {statement : Stmt}
    (htokens : tokens = done ++ rest)
    (hrun : statementRun options stop rest = .accepted statement after) :
    ∃ segment, segment ≠ [] ∧ rest = segment ++ after ∧
      Covers options stop tokens done.length segment (.ok statement) := by
  obtain ⟨taken, ending, hrest, hstatement, hnesting, hends⟩ := statementRun_sound hrun
  have hstart : tokens.drop done.length = rest := by rw [htokens, List.drop_left]
  have hcovers : ∀ segment, rest = segment ++ after →
      ((∃ semicolon : Token, semicolon.kind = .semicolon ∧ segment = taken ++ [semicolon]) ∨
        options.implicitSemicolon = true ∧ segment = taken ∧
          done.length + segment.length = tokens.length) →
      Covers options stop tokens done.length segment (.ok statement) := by
    intro segment hsegment hclosed
    have hnext : tokens.drop (done.length + segment.length) = after := by
      rw [← List.drop_drop, hstart, hsegment, List.drop_left]
    exact .statement (by rw [hstart, hnext, hrun]) hstatement hnesting hclosed
  rcases hends with ⟨semicolon, hkind, rfl⟩ | ⟨himplicit, rfl, rfl⟩
  · have hsegment : rest = taken ++ [semicolon] ++ after := by
      rw [hrest, List.append_assoc, List.singleton_append]
    exact ⟨taken ++ [semicolon], by simp, hsegment,
      hcovers _ hsegment (.inl ⟨semicolon, hkind, rfl⟩)⟩
  · have hlength : done.length + taken.length = tokens.length := by
      rw [htokens, hrest, List.append_nil, List.length_append]
    exact ⟨taken, hstatement.ne_nil, hrest, hcovers _ hrest (.inr ⟨himplicit, rfl, hlength⟩)⟩

/-- A round that fails where all literals have a value stands at the token of its fault. -/
theorem stops_here {rest before left : List Token} {fault : SyntaxFault}
    (hvalues : ∀ token ∈ rest, ¬ token.LacksValue)
    (h : StopsAfter stop rest before fault left) :
    rest = before ++ left ∧ fault.token = peek stop left := by
  cases h with
  | here hrest htoken => exact ⟨hrest, htoken⟩
  | behind hrest hlacks => exact absurd hlacks (hvalues fault.token (by simp [hrest]))

/-- A round that fails takes everything up to the first boundary behind the token of its fault. -/
theorem covers_of_refused (hstop : stop.isEnd = true) {rest left : List Token}
    {fault : SyntaxFault} (htokens : tokens = done ++ rest) (hne : rest ≠ [])
    (hend : ∀ token ∈ rest, token.isEnd = false) (hvalues : ∀ token ∈ rest, ¬ token.LacksValue)
    (hrun : statementRun options stop rest = .refused fault left) :
    ∃ segment, segment ≠ [] ∧ rest = segment ++ resume left ∧
      Covers options stop tokens done.length segment (.error fault) := by
  obtain ⟨before, hstops, -⟩ := statementRun_halts options stop _ _ _ hrun
  obtain ⟨hrest, htoken⟩ := stops_here hvalues hstops
  have hstart : tokens.drop done.length = rest := by rw [htokens, List.drop_left]
  have hplace : tokens.drop (done.length + before.length) = left := by
    rw [← List.drop_drop, hstart, hrest, List.drop_left]
  have hfailed : statementRun options stop (tokens.drop done.length) =
      .refused fault (tokens.drop (done.length + before.length)) := by rw [hstart, hplace, hrun]
  have hsource : tokens ++ [stop] = done ++ before ++ (left ++ [stop]) := by
    rw [htokens, hrest]
    simp
  have hat : (tokens ++ [stop])[done.length + before.length]? = some fault.token := by
    rw [hsource, ← List.length_append, List.getElem?_append_right (Nat.le_refl _), Nat.sub_self,
      htoken]
    cases left <;> rfl
  have hleft : ∀ token ∈ left, token.isEnd = false := (List.forall_mem_append.mp (hrest ▸ hend)).2
  have hatEnd : fault.token.isEnd = true ↔ left = [] := htoken ▸ peek_isEnd_iff hstop hleft
  obtain ⟨skipped, hskipped, hfirst⟩ := resume_first hstop (done ++ before) left hleft
  have hlength : done.length + (before ++ skipped).length =
      (done ++ before).length + skipped.length := by
    rw [List.length_append, List.length_append, Nat.add_assoc]
  refine ⟨before ++ skipped, fun hnil => ?_, by rw [List.append_assoc, ← hskipped, hrest], ?_⟩
  · obtain ⟨hbefore, hnone⟩ := List.append_eq_nil_iff.mp hnil
    by_cases hend : left = []
    · exact hne (by rw [hrest, hbefore, hend, List.append_nil])
    · exact (hfirst hend).1 hnone
  · refine .fault (Nat.le_add_right _ _) hfailed hat (fun hyes => ?_) fun hno => ?_
    · -- Reading has come to the end of the source, and nothing is left to pass over.
      have hnil := hatEnd.mp hyes
      rw [hnil] at hskipped hrest
      obtain ⟨hnone, -⟩ := List.append_eq_nil_iff.mp hskipped.symm
      rw [hnone, List.append_nil, htokens, hrest, List.append_nil, List.length_append]
    · have hsome : left ≠ [] := fun hnil => Bool.eq_false_iff.mp hno (hatEnd.mpr hnil)
      rw [hlength, hsource, ← List.length_append]
      exact (hfirst hsome).2

/-- The rounds on what is left of the tokens tile it. -/
theorem program_tiling (options : ReadingOptions) (hstop : stop.isEnd = true)
    {rest : List Token} (htokens : tokens = done ++ rest)
    (hend : ∀ token ∈ rest, token.isEnd = false) (hvalues : ∀ token ∈ rest, ¬ token.LacksValue) :
    ∃ tiles, Tiling options stop tokens done.length tiles ∧
      tiles.map Tile.result = program options stop rest := by
  fun_induction program options stop rest generalizing done with
  | case1 =>
    rw [List.append_nil] at htokens
    rw [← htokens]
    exact ⟨[], .done, rfl⟩
  | case2 token others statement after hrun ih =>
    obtain ⟨segment, hne, hrest, hcovers⟩ := covers_of_accepted htokens hrun
    rw [hrest] at htokens hend hvalues
    obtain ⟨tiles, htiles, hresults⟩ := ih (by rw [htokens, List.append_assoc])
      (List.forall_mem_append.mp hend).2 (List.forall_mem_append.mp hvalues).2
    exact ⟨⟨segment, .ok statement⟩ :: tiles, htiles.prepend hne htokens hcovers,
      congrArg (Except.ok statement :: ·) hresults⟩
  | case3 token others fault left hrun ih =>
    obtain ⟨segment, hne, hrest, hcovers⟩ :=
      covers_of_refused hstop htokens (List.cons_ne_nil token others) hend hvalues hrun
    rw [hrest] at htokens hend hvalues
    obtain ⟨tiles, htiles, hresults⟩ := ih (by rw [htokens, List.append_assoc])
      (List.forall_mem_append.mp hend).2 (List.forall_mem_append.mp hvalues).2
    exact ⟨⟨segment, .error fault⟩ :: tiles, htiles.prepend hne htokens hcovers,
      congrArg (Except.error fault :: ·) hresults⟩

end Reader

namespace Parser

/-- Reading a program tiles its tokens: every round takes the segment that begins where the round
before it ended, and no token is left or taken twice. A segment is a whole statement, or it has one
fault and ends at the first boundary behind the token of that fault. The faults of the program are
those of the segments that have one, in order, so there are as many of them; and where there is
none, the statements are those of the segments. -/
theorem program_tiles (options : ReadingOptions) (tokens : List Token) (stop : Token)
    (hstop : stop.isEnd = true) (htokens : ∀ token ∈ tokens, token.isEnd = false)
    (hvalues : ∀ token ∈ tokens, ¬ token.LacksValue) :
    ∃ (parser : Parser) (tiles : List Tile),
      ofTokens options (tokens ++ [stop]) = .ok parser ∧
      Tiling options stop tokens 0 tiles ∧
      tiles.flatMap Tile.tokens = tokens ∧
      tiles.map Tile.result = Reader.program options stop tokens ∧
      parser.program.1.faults = tiles.filterMap Tile.fault? ∧
      parser.program.1.faults.length = tiles.countP (fun tile => tile.fault?.isSome) ∧
      (parser.program.1.faults = [] →
        parser.program.1.statements.map Except.ok = tiles.map Tile.result) := by
  obtain ⟨tiles, htiles, hresults⟩ :=
    Reader.program_tiling options hstop (List.nil_append tokens).symm htokens hvalues
  have hparser := ofTokens_append_end options hstop htokens
  have hflat : tiles.flatMap Tile.tokens = tokens := htiles.flatMap_tokens
  have hfaults : (program ⟨tokens ++ [stop], stop, tokens, options⟩).1.faults =
      tiles.filterMap Tile.fault? := by
    change (Reader.program options stop tokens).filterMap Reader.fault? = _
    rw [← hresults, List.filterMap_map]
    rfl
  refine ⟨_, tiles, hparser, htiles, hflat, hresults, hfaults, ?_, fun hnone => ?_⟩
  · rw [hfaults, List.length_filterMap_eq_countP]
  · rw [hresults]
    exact ((program_eq_iff _ _).mp (by rw [← hnone])).symm

/-- A declaration that lacks its name at another word for declarations is passed over together with
that word, and what is left is a round of its own that fails at the end of the source. -/
theorem program_tiles_declaration :
    ∃ tiles,
      Tiling ⟨1, false⟩ (Token.endOfSource 1)
        [⟨.keyword .varWord, "var".toList, .none, 1⟩, ⟨.keyword .varWord, "var".toList, .none, 1⟩,
          ⟨.identifier, ['a'], .none, 1⟩, ⟨.semicolon, [';'], .none, 1⟩,
          ⟨.keyword .printWord, "print".toList, .none, 1⟩] 0 tiles ∧
      tiles.map Tile.result =
        [.error ⟨⟨.keyword .varWord, "var".toList, .none, 1⟩, .expectedVariableName⟩,
          .error ⟨Token.endOfSource 1, .expectedExpression⟩] := by
  obtain ⟨-, tiles, -, htiles, -, hresults, -⟩ := program_tiles ⟨1, false⟩
    [⟨.keyword .varWord, "var".toList, .none, 1⟩, ⟨.keyword .varWord, "var".toList, .none, 1⟩,
      ⟨.identifier, ['a'], .none, 1⟩, ⟨.semicolon, [';'], .none, 1⟩,
      ⟨.keyword .printWord, "print".toList, .none, 1⟩] (Token.endOfSource 1) rfl (by decide)
    (by simp [Token.LacksValue])
  refine ⟨tiles, htiles, hresults.trans ?_⟩
  rw [Reader.program_refused rfl]
  change _ :: Reader.program ⟨1, false⟩ (Token.endOfSource 1)
    [⟨.keyword .printWord, "print".toList, .none, 1⟩] = _
  rw [Reader.program_refused rfl, Reader.resume, Reader.program]

end Parser

end Lox
