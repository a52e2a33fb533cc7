import Lox.Proofs.Cursor.Walk
import Lox.Proofs.Reading.Refusal

/-!
# Walks agree with readers

Ahead of a cursor that has not passed the end of the source there are tokens and then that end. From
any place among these tokens every walk with enough room has a result: it is that of the reader on
the tokens left before the end, the cursor is where the reader stopped, and as much is open as
before. The tokens beyond the end have no part in it.

The proofs follow the readers. Operands go by induction on what is left of the allowance, chains and
programs by the recursion of their readers.
-/

namespace Lox

namespace Cursor

/-- A cursor that was moved on by so many places, one after the other. -/
def moved (cursor : Cursor) (distance : Nat) : Cursor :=
  { cursor with
    current := cursor.current + distance
    trail := (List.range' (cursor.current + 1) distance).reverse ++ cursor.trail }

/-- A step moves a cursor on by one place more. -/
theorem step_moved (cursor : Cursor) (distance : Nat) :
    (cursor.moved distance).step = cursor.moved (distance + 1) := by
  have hplace : cursor.current + 1 + distance = cursor.current + distance + 1 := by omega
  simp [moved, step, List.range'_concat, hplace, Nat.add_assoc]

end Cursor

/-- What a reading came to. -/
def Reading.result {α : Type} : Reading α → Except SyntaxFault α
  | accepted value _ => .ok value
  | refused fault _ => .error fault

/-- What is ahead of a cursor that has not passed the end of the source. -/
structure Track (tokens : List Token) (origin : Cursor) where
  /-- The tokens before the end of the source. -/
  ahead : List Token
  /-- The end of the source. -/
  stop : Token
  /-- The tokens beyond it. -/
  beyond : List Token
  /-- All these follow one another from the cursor on. -/
  source : tokens.drop origin.current = ahead ++ stop :: beyond
  /-- The source ends there. -/
  stop_isEnd : stop.isEnd = true
  /-- It does not end before. -/
  ahead_isEnd : ∀ token ∈ ahead, token.isEnd = false

namespace Track

variable {tokens : List Token} {origin : Cursor} (track : Track tokens origin)

/-- The cursor once only these tokens are left before the end of the source. -/
def before (depth : Int) (rest : List Token) : Cursor :=
  { origin.moved (track.ahead.length - rest.length) with depth := depth }

variable {track} {rest : List Token} {token : Token} {depth : Int}

/-- There is a token at the cursor: the first of those left, or else the end of the source. -/
theorem getElem?_before (h : rest <:+ track.ahead) :
    tokens[(track.before depth rest).current]? = some (peek track.stop rest) := by
  obtain ⟨front, hfront⟩ := h
  have hlength : track.ahead.length - rest.length = front.length := by
    rw [← hfront, List.length_append, Nat.add_sub_cancel]
  change tokens[origin.current + (track.ahead.length - rest.length)]? = _
  rw [hlength, ← List.getElem?_drop, track.source, ← hfront, List.append_assoc,
    List.getElem?_append_right (Nat.le_refl _), Nat.sub_self]
  cases rest <;> rfl

/-- A step takes the first of the tokens left. -/
theorem step_before (h : token :: rest <:+ track.ahead) :
    (track.before depth (token :: rest)).step = track.before depth rest := by
  have hle := h.length_le
  rw [List.length_cons] at hle
  have hlength : track.ahead.length - rest.length =
      track.ahead.length - (token :: rest).length + 1 := by
    rw [List.length_cons]
    omega
  have hmoved := congrArg (fun cursor => Cursor.mk cursor.current depth cursor.trail)
    (origin.step_moved (track.ahead.length - (token :: rest).length))
  rw [← hlength] at hmoved
  exact hmoved

/-- The end of the source comes next exactly if no tokens are left before it. -/
theorem isEnd_peek (h : rest <:+ track.ahead) :
    (peek track.stop rest).isEnd = rest.isEmpty := by
  cases rest with
  | nil => exact track.stop_isEnd
  | cons token others => exact track.ahead_isEnd token (h.subset List.mem_cons_self)

/-- A walk does the same as a reader wherever it starts, and leaves as much open as it found. It
needs room for some calls, and for twelve more for each token that is left: so many follow one
another at most before one of them takes a token. -/
def Follows {α : Type} (track : Track tokens origin) (depth : Int) (calls : Nat)
    (walk : Nat → Walk (Except SyntaxFault α)) (run : List Token → Reading α) : Prop :=
  ∀ rest room, rest <:+ track.ahead → 12 * rest.length + calls ≤ room →
    (walk room).run (track.before depth rest) =
      some ((run rest).result, track.before depth (run rest).rest)

end Track

/-- A token of one of these kinds comes next. -/
def comesNext (kinds : List Kind) (rest : List Token) : Bool :=
  rest.head?.any fun token => token.kind ∈ kinds

/-- A token of another kind does not come next. -/
theorem comesNext_of_not_mem {kinds : List Kind} {token : Token} (h : token.kind ∉ kinds)
    (rest : List Token) : comesNext kinds (token :: rest) = false := decide_eq_false h

/-- The kinds that are looked for on a level are its operators. -/
theorem Level.mem_operators (level : Level) (kind : Kind) :
    kind ∈ level.operators ↔ level.has kind = true := by
  cases level <;> simp [Level.operators, Level.has, or_assoc]

namespace Walk

section Steps

variable {α β : Type} {walk : Walk α} {test : Walk Bool} {cursor after : Cursor}

/-- A walk that has a result is followed by the next one. -/
theorem run_bind_of {next : α → Walk β} {value : α} (h : walk.run cursor = some (value, after)) :
    (walk >>= next).run cursor = (next value).run after := by
  rw [StateT.run_bind, h]
  rfl

/-- A test that succeeds leads to the first branch. -/
theorem run_then {yes no : Walk β} (h : test.run cursor = some (true, after)) :
    (test >>= fun result => if result = true then yes else no).run cursor = yes.run after := by
  rw [run_bind_of h, if_pos rfl]

/-- A test that fails leads to the second branch. -/
theorem run_else {yes no : Walk β} (h : test.run cursor = some (false, after)) :
    (test >>= fun result => if result = true then yes else no).run cursor = no.run after := by
  rw [run_bind_of h, if_neg Bool.false_ne_true]

end Steps

variable {tokens : List Token} {origin : Cursor} {track : Track tokens origin}
  {rest : List Token} {token : Token} {depth : Int}

section Tokens

variable {kind : Kind} {kinds : List Kind} {allowance : Nat}

/-- There is a token at the cursor. -/
theorem peek_before (h : rest <:+ track.ahead) :
    (peek tokens).run (track.before depth rest) =
      some (Lox.peek track.stop rest, track.before depth rest) := by
  rw [peek, run_bind_of (by rfl)]
  change (liftM tokens[(track.before depth rest).current]? : Walk Token).run _ = _
  rw [Track.getElem?_before h]
  rfl

/-- There is a token before the cursor once one was taken. -/
theorem previous_before (h : token :: rest <:+ track.ahead) :
    (previous tokens).run (track.before depth rest) = some (token, track.before depth rest) := by
  have htoken : tokens[(track.before depth (token :: rest)).current]? = some token :=
    Track.getElem?_before h
  rw [← Track.step_before h, previous, run_bind_of (by rfl)]
  change (liftM tokens[(track.before depth (token :: rest)).current]? : Walk Token).run _ = _
  rw [htoken]
  rfl

/-- The cursor is at the end of the source exactly if no tokens are left before it. -/
theorem isAtEnd_before (h : rest <:+ track.ahead) :
    (isAtEnd tokens).run (track.before depth rest) =
      some (rest.isEmpty, track.before depth rest) := by
  rw [isAtEnd, run_bind_of (peek_before h), Track.isEnd_peek h]
  rfl

/-- Before the end of the source the cursor moves on. -/
theorem advance_before (h : token :: rest <:+ track.ahead) :
    (advance tokens).run (track.before depth (token :: rest)) =
      some (token, track.before depth rest) := by
  have hmove : (modify Cursor.step : Walk PUnit).run (track.before depth (token :: rest)) =
      some ((), track.before depth rest) := by
    rw [← Track.step_before h]
    rfl
  rw [advance, run_else (isAtEnd_before h), run_bind_of hmove, previous_before h]

/-- At the end of the source the cursor stays, and there is a token before it if it has taken one. -/
theorem advance_at_end (h : [token] <:+ track.ahead) :
    (advance tokens).run (track.before depth []) = some (token, track.before depth []) := by
  rw [advance, run_then (isAtEnd_before List.nil_suffix), previous_before h]

example : (advance [Token.endOfSource 1]).run Cursor.start = none := rfl

/-- A kind is looked for at the cursor. -/
theorem check_before (h : rest <:+ track.ahead) :
    (check tokens kind).run (track.before depth rest) =
      some (comesNext [kind] rest, track.before depth rest) := by
  rw [check]
  cases rest with
  | nil => exact run_then (isAtEnd_before h)
  | cons token others =>
    rw [run_else (isAtEnd_before h), run_bind_of (peek_before h)]
    simp only [comesNext, List.head?_cons, Option.any_some, List.mem_singleton]
    rfl

/-- A token of one of the kinds is taken. -/
theorem accept_of_mem (h : token :: rest <:+ track.ahead) (hkind : token.kind ∈ kinds) :
    (accept tokens kinds).run (track.before depth (token :: rest)) =
      some (true, track.before depth rest) := by
  induction kinds with
  | nil => cases hkind
  | cons kind kinds ih =>
    have hcheck : (check tokens kind).run (track.before depth (token :: rest)) = _ :=
      check_before h
    rw [accept]
    by_cases hfirst : token.kind = kind
    · have hnext : comesNext [kind] (token :: rest) = true :=
        decide_eq_true (List.mem_singleton.mpr hfirst)
      rw [hnext] at hcheck
      rw [run_then hcheck, run_bind_of (advance_before h)]
      rfl
    · rw [comesNext_of_not_mem (mt List.mem_singleton.mp hfirst)] at hcheck
      rw [run_else hcheck]
      exact ih ((List.mem_cons.mp hkind).resolve_left hfirst)

/-- Where no token of the kinds comes next, none is taken. -/
theorem accept_of_not (h : rest <:+ track.ahead) (hnext : comesNext kinds rest = false) :
    (accept tokens kinds).run (track.before depth rest) =
      some (false, track.before depth rest) := by
  induction kinds with
  | nil => rfl
  | cons kind kinds ih =>
    have hboth : comesNext [kind] rest = false ∧ comesNext kinds rest = false := by
      cases rest with
      | nil => exact ⟨rfl, rfl⟩
      | cons token others => simpa [comesNext] using hnext
    have hcheck : (check tokens kind).run (track.before depth rest) = _ := check_before h
    rw [hboth.1] at hcheck
    rw [accept, run_else hcheck]
    exact ih hboth.2

/-- A token of the kind that has to follow is taken. -/
theorem consume_of_eq (h : token :: rest <:+ track.ahead) (hkind : token.kind = kind)
    (cause : Cause) :
    (consume tokens kind cause).run (track.before depth (token :: rest)) =
      some (.ok token, track.before depth rest) := by
  have hcheck : (check tokens kind).run (track.before depth (token :: rest)) = _ := check_before h
  have hnext : comesNext [kind] (token :: rest) = true :=
    decide_eq_true (List.mem_singleton.mpr hkind)
  rw [hnext] at hcheck
  rw [consume, run_then hcheck, run_bind_of (advance_before h)]
  rfl

/-- Where the kind that has to follow is missing, the fault is at the cursor. -/
theorem consume_of_not (h : rest <:+ track.ahead) (hnext : comesNext [kind] rest = false)
    (cause : Cause) :
    (consume tokens kind cause).run (track.before depth rest) =
      some (.error ⟨Lox.peek track.stop rest, cause⟩, track.before depth rest) := by
  have hcheck : (check tokens kind).run (track.before depth rest) = _ := check_before h
  rw [hnext] at hcheck
  rw [consume, run_else hcheck, run_bind_of (peek_before h)]
  rfl

/-- Counting more or fewer as open does not move the cursor. -/
theorem deepen_before (track : Track tokens origin) (depth count : Int) (rest : List Token) :
    (modify fun cursor => cursor.deepen count : Walk PUnit).run (track.before depth rest) =
      some ((), track.before (depth + count) rest) := rfl

/-- Within the allowance something more may be opened. -/
theorem enter_of_lt (hdepth : depth < allowance) :
    (enter tokens allowance).run (track.before depth rest) =
      some (.ok (), track.before (depth + 1) rest) := by
  have hopen : (track.before (depth + 1) rest).depth = depth + 1 := rfl
  rw [enter, run_bind_of (deepen_before track depth 1 rest), run_bind_of (by rfl), hopen,
    if_neg (by omega)]
  rfl

/-- What is opened once the allowance is used up is a fault, and is counted all the same. -/
theorem enter_of_eq (h : rest <:+ track.ahead) (hdepth : depth = allowance) :
    (enter tokens allowance).run (track.before depth rest) =
      some (.error ⟨Lox.peek track.stop rest, .nestingTooDeep⟩, track.before (depth + 1) rest) := by
  have hopen : (track.before (depth + 1) rest).depth = depth + 1 := rfl
  rw [enter, run_bind_of (deepen_before track depth 1 rest), run_bind_of (by rfl), hopen,
    if_pos (by omega), run_bind_of (peek_before h)]
  rfl

/-- What was opened is closed again. -/
theorem leave_before (track : Track tokens origin) (depth : Int) (rest : List Token) :
    leave.run (track.before (depth + 1) rest) = some ((), track.before depth rest) := by
  have hdepth : depth + 1 + -1 = depth := by omega
  rw [leave, deepen_before, hdepth]

/-- An expression is closed as by the reader of its parenthesis. -/
theorem close_before (h : rest <:+ track.ahead) (value : Expr) :
    (close tokens value).run (track.before depth rest) =
      some ((Reader.closeRun track.stop value rest).result,
        track.before depth (Reader.closeRun track.stop value rest).rest) := by
  rw [close]
  cases rest with
  | nil =>
    rw [run_bind_of (consume_of_not h rfl _)]
    rfl
  | cons token others =>
    by_cases hkind : token.kind = .rightParen
    · rw [run_bind_of (consume_of_eq h hkind _), Reader.closeRun, if_pos hkind]
      rfl
    · have hnext := comesNext_of_not_mem (mt List.mem_singleton.mp hkind) others
      rw [run_bind_of (consume_of_not h hnext _), Reader.closeRun, if_neg hkind]
      rfl

end Tokens

section Expressions

variable {allowance calls room : Nat} {level : Level} {reader : Reader Expr}

/-- Reading on after a left operand agrees with its reader if the operands of the level do. -/
theorem chainFrom_follows
    (h : track.Follows depth calls (operand tokens allowance level) reader.run)
    (hcalls : calls ≤ 12) (left : Expr) :
    track.Follows depth 1 (chainFrom tokens allowance level left)
      (Reader.chainFrom level reader left) := by
  intro rest room hrest hroom
  fun_induction Reader.chainFrom level reader left rest generalizing room with
  | case1 left =>
    obtain ⟨room, rfl⟩ := Nat.exists_eq_add_one_of_ne_zero (show room ≠ 0 by omega)
    rw [chainFrom, run_else (accept_of_not hrest rfl)]
    rfl
  | case2 left token others hop right after htaken ih =>
    obtain ⟨room, rfl⟩ := Nat.exists_eq_add_one_of_ne_zero (show room ≠ 0 by omega)
    rw [List.length_cons] at hroom
    have hothers := (List.suffix_cons token others).trans hrest
    have hadvances := reader.advances others
    have hright := h others room hothers (by omega)
    rw [htaken] at hadvances hright
    have hshorter := hadvances.2
    rw [chainFrom, run_then (accept_of_mem hrest ((level.mem_operators _).mpr hop)),
      run_bind_of (previous_before hrest), run_bind_of hright]
    exact ih room (hadvances.1.trans hothers) (by omega)
  | case3 left token others hop fault after htaken =>
    obtain ⟨room, rfl⟩ := Nat.exists_eq_add_one_of_ne_zero (show room ≠ 0 by omega)
    rw [List.length_cons] at hroom
    have hright := h others room ((List.suffix_cons token others).trans hrest) (by omega)
    rw [htaken] at hright
    rw [chainFrom, run_then (accept_of_mem hrest ((level.mem_operators _).mpr hop)),
      run_bind_of (previous_before hrest), run_bind_of hright]
    rfl
  | case4 left token others hop =>
    obtain ⟨room, rfl⟩ := Nat.exists_eq_add_one_of_ne_zero (show room ≠ 0 by omega)
    have hnext := comesNext_of_not_mem (mt (level.mem_operators _).mp hop) others
    rw [chainFrom, run_else (accept_of_not hrest hnext)]
    rfl

/-- A chain agrees with its reader if the operands of the level do. -/
theorem chain_follows (h : track.Follows depth calls (operand tokens allowance level) reader.run)
    (hcalls : calls ≤ 12) :
    track.Follows depth (calls + 1) (chain tokens allowance level) (reader.chain level).run := by
  intro rest room hrest hroom
  obtain ⟨room, rfl⟩ := Nat.exists_eq_add_one_of_ne_zero (show room ≠ 0 by omega)
  have hadvances := reader.advances rest
  change _ = some ((Reader.chainRun level reader rest).result,
    track.before depth (Reader.chainRun level reader rest).rest)
  rw [chain, Reader.chainRun, run_bind_of (h rest room hrest (by omega))]
  cases hrun : reader.run rest with
  | refused fault after => rfl
  | accepted left after =>
    rw [hrun] at hadvances
    have hshorter := hadvances.2
    exact chainFrom_follows h hcalls left after room (hadvances.1.trans hrest) (by omega)

/-- The operands of a level agree with a reader if what they are read by does. -/
theorem operand_follows {next : Nat → Walk (Except SyntaxFault Expr)}
    (hnext : ∀ room, operand tokens allowance level (room + 1) = next room)
    (h : track.Follows depth calls next reader.run) :
    track.Follows depth (calls + 1) (operand tokens allowance level) reader.run := by
  intro rest room hrest hroom
  obtain ⟨room, rfl⟩ := Nat.exists_eq_add_one_of_ne_zero (show room ≠ 0 by omega)
  rw [hnext]
  exact h rest room hrest (by omega)

/-- An expression agrees with its reader if what stands between the operators does. -/
theorem levels_follows (h : track.Follows depth 3 (unary tokens allowance) reader.run) :
    track.Follows depth 11 (expression tokens allowance) reader.levels.run := by
  have hfactor : track.Follows depth 5 (chain tokens allowance .factor) (reader.chain .factor).run :=
    chain_follows (operand_follows (fun _ => rfl) h) (by decide)
  have hterm : track.Follows depth 7 (chain tokens allowance .term)
      ((reader.chain .factor).chain .term).run :=
    chain_follows (operand_follows (fun _ => rfl) hfactor) (by decide)
  have hcomparison : track.Follows depth 9 (chain tokens allowance .comparison)
      (((reader.chain .factor).chain .term).chain .comparison).run :=
    chain_follows (operand_follows (fun _ => rfl) hterm) (by decide)
  exact chain_follows (operand_follows (fun _ => rfl) hcomparison) (by decide)

/-- The reader of what is nested agrees with the walk one level deeper. It is missing once the
allowance is used up. -/
def Nests (track : Track tokens origin) (allowance : Nat) (depth : Int) :
    Option (Reader Expr) → Prop
  | none => depth = allowance
  | some reader =>
    depth < allowance ∧ track.Follows (depth + 1) 3 (unary tokens allowance) reader.run

variable {inner : Option (Reader Expr)}

/-- A unary operator and what stands after it are read as by the reader. Whether that is accepted,
refused or too deep, the operator is closed again. -/
theorem unary_of_isUnary (hinner : Nests track allowance depth inner)
    (h : token :: rest <:+ track.ahead) (hroom : 12 * rest.length + 3 ≤ room)
    (hkind : token.kind.isUnary = true) :
    (unary tokens allowance (room + 1)).run (track.before depth (token :: rest)) =
      some ((Reader.unaryRun track.stop token inner rest).result,
        track.before depth (Reader.unaryRun track.stop token inner rest).rest) := by
  have hmem : token.kind ∈ [Kind.bang, Kind.minus] := by simpa [Kind.isUnary] using hkind
  have hrest := (List.suffix_cons token rest).trans h
  rw [unary, run_then (accept_of_mem h hmem), run_bind_of (previous_before h)]
  cases inner with
  | none =>
    rw [run_bind_of (enter_of_eq hrest hinner)]
    dsimp only
    rw [pure_bind, run_bind_of (leave_before track depth rest)]
    rfl
  | some reader =>
    obtain ⟨hdepth, hfollows⟩ := hinner
    rw [run_bind_of (enter_of_lt hdepth)]
    dsimp only
    rw [run_bind_of (hfollows rest room hrest hroom), run_bind_of (leave_before track depth _)]
    simp only [Reader.unaryRun]
    cases reader.run rest <;> rfl

/-- An expression in parentheses is read as by the reader. Whether it is accepted, refused or too
deep, the parenthesis counts as closed again. -/
theorem grouping_of_leftParen (hinner : Nests track allowance depth inner)
    (h : token :: rest <:+ track.ahead) (hroom : 12 * rest.length + 11 ≤ room)
    (hkind : token.kind = .leftParen) :
    (grouping tokens allowance (room + 1)).run (track.before depth (token :: rest)) =
      some ((Reader.groupingRun track.stop inner rest).result,
        track.before depth (Reader.groupingRun track.stop inner rest).rest) := by
  have hrest := (List.suffix_cons token rest).trans h
  rw [grouping, run_then (accept_of_mem h (List.mem_singleton.mpr hkind))]
  cases inner with
  | none =>
    rw [run_bind_of (enter_of_eq hrest hinner)]
    dsimp only
    rw [pure_bind, run_bind_of (leave_before track depth rest)]
    rfl
  | some reader =>
    obtain ⟨hdepth, hfollows⟩ := hinner
    have hadvances := reader.levels.advances rest
    have hvalue := levels_follows hfollows rest room hrest hroom
    rw [expression] at hvalue
    rw [run_bind_of (enter_of_lt hdepth)]
    dsimp only
    simp only [Reader.groupingRun]
    cases hrun : reader.levels.run rest with
    | refused fault after =>
      rw [hrun] at hvalue
      rw [run_bind_of hvalue]
      dsimp only [Reading.result]
      rw [pure_bind, run_bind_of (leave_before track depth _)]
      rfl
    | accepted value after =>
      rw [hrun] at hvalue hadvances
      have hafter := hadvances.1.trans hrest
      rw [run_bind_of hvalue]
      dsimp only [Reading.result]
      exact (run_bind_of (close_before hafter value)).trans
        (run_bind_of (leave_before track depth _))

/-- Where no parenthesis is opened, an operand is missing at the cursor. -/
theorem grouping_of_not (h : rest <:+ track.ahead) (hnext : comesNext [.leftParen] rest = false) :
    (grouping tokens allowance (room + 1)).run (track.before depth rest) =
      some (.error ⟨Lox.peek track.stop rest, .expectedExpression⟩, track.before depth rest) := by
  rw [grouping, run_else (accept_of_not h hnext), run_bind_of (peek_before h)]
  rfl

/-- The kinds of tokens that are operands by themselves. -/
def atomic : List Kind :=
  [.keyword .falseWord, .keyword .trueWord, .keyword .nilWord, .number, .string, .identifier]

/-- Where no operand consists of one token, a parenthesis is looked for. -/
theorem primary_of_not_atomic (h : rest <:+ track.ahead) (hnext : comesNext atomic rest = false) :
    (primary tokens allowance (room + 1)).run (track.before depth rest) =
      (grouping tokens allowance room).run (track.before depth rest) := by
  have hno : ∀ kinds ⊆ atomic, (accept tokens kinds).run (track.before depth rest) =
      some (false, track.before depth rest) := by
    intro kinds hkinds
    refine accept_of_not h ?_
    cases rest with
    | nil => rfl
    | cons token others =>
      exact comesNext_of_not_mem (fun hmem => of_decide_eq_false hnext (hkinds hmem)) others
  rw [primary, run_else (hno _ (by decide)), run_else (hno _ (by decide)),
    run_else (hno _ (by decide)), run_else (hno _ (by decide)), run_else (hno _ (by decide))]

/-- An operand that consists of one token is read as by the reader. -/
theorem primary_of_atomic (h : token :: rest <:+ track.ahead) (hkind : token.kind ∈ atomic) :
    (primary tokens allowance (room + 1)).run (track.before depth (token :: rest)) =
      some ((Reader.operandRun track.stop inner (token :: rest)).result,
        track.before depth (Reader.operandRun track.stop inner (token :: rest)).rest) := by
  have hyes : ∀ kinds, token.kind ∈ kinds →
      (accept tokens kinds).run (track.before depth (token :: rest)) =
        some (true, track.before depth rest) := fun _ => accept_of_mem h
  have hno : ∀ kinds, token.kind ∉ kinds →
      (accept tokens kinds).run (track.before depth (token :: rest)) =
        some (false, track.before depth (token :: rest)) := fun _ hmem =>
    accept_of_not h (comesNext_of_not_mem hmem rest)
  have hunary : token.kind.isUnary = false := by
    have hall : atomic.all (fun kind => !kind.isUnary) = true := by decide
    simpa using List.all_eq_true.mp hall token.kind hkind
  simp only [Reader.operandRun, hunary, Bool.false_eq_true, if_false]
  rw [primary]
  simp only [atomic, List.mem_cons, List.not_mem_nil, or_false] at hkind
  rcases hkind with hword | hword | hword | hnumber | hstring | hname
  · rw [run_then (hyes _ (by simp [hword])), hword]
    rfl
  · rw [run_else (hno _ (by simp [hword])), run_then (hyes _ (by simp [hword])), hword]
    rfl
  · rw [run_else (hno _ (by simp [hword])), run_else (hno _ (by simp [hword])),
      run_then (hyes _ (by simp [hword])), hword]
    rfl
  · rw [run_else (hno _ (by simp [hnumber])), run_else (hno _ (by simp [hnumber])),
      run_else (hno _ (by simp [hnumber])), run_then (hyes _ (by simp [hnumber])),
      run_bind_of (previous_before h), hnumber]
    cases token.literal.value? <;> rfl
  · rw [run_else (hno _ (by simp [hstring])), run_else (hno _ (by simp [hstring])),
      run_else (hno _ (by simp [hstring])), run_then (hyes _ (by simp [hstring])),
      run_bind_of (previous_before h), hstring]
    cases token.literal.value? <;> rfl
  · rw [run_else (hno _ (by simp [hname])), run_else (hno _ (by simp [hname])),
      run_else (hno _ (by simp [hname])), run_else (hno _ (by simp [hname])),
      run_then (hyes _ (by simp [hname])), run_bind_of (previous_before h), hname]
    rfl

/-- A token that begins no operand is refused. -/
theorem operandRun_of_not {stop : Token} (hunary : ¬ token.kind.isUnary = true)
    (hatomic : token.kind ∉ atomic) (hparen : token.kind ≠ .leftParen) :
    Reader.operandRun stop inner (token :: rest) =
      .refused ⟨token, .expectedExpression⟩ (token :: rest) := by
  rw [Reader.operandRun, if_neg hunary]
  split <;> simp_all [atomic]

/-- What stands between the operators is read as by the reader if what is nested in it is. -/
theorem operandRun_follows (hinner : Nests track allowance depth inner) :
    track.Follows depth 3 (unary tokens allowance) (Reader.operandRun track.stop inner) := by
  intro rest room hrest hroom
  obtain ⟨room, rfl⟩ := Nat.exists_eq_add_of_le' (Nat.le_trans (Nat.le_add_left 3 _) hroom)
  cases rest with
  | nil =>
    rw [unary, run_else (accept_of_not hrest rfl), primary_of_not_atomic hrest rfl,
      grouping_of_not hrest rfl]
    rfl
  | cons token others =>
    rw [List.length_cons] at hroom
    by_cases hunary : token.kind.isUnary = true
    · rw [unary_of_isUnary hinner hrest (by omega) hunary, Reader.operandRun_unary hunary]
    · have hsign : token.kind ∉ [Kind.bang, Kind.minus] := by simpa [Kind.isUnary] using hunary
      rw [unary, run_else (accept_of_not hrest (comesNext_of_not_mem hsign others))]
      by_cases hatomic : token.kind ∈ atomic
      · exact primary_of_atomic hrest hatomic
      · rw [primary_of_not_atomic hrest (comesNext_of_not_mem hatomic others)]
        by_cases hparen : token.kind = .leftParen
        · rw [grouping_of_leftParen hinner hrest (by omega) hparen,
            Reader.operandRun_grouping hparen]
        · have hnext := comesNext_of_not_mem (mt List.mem_singleton.mp hparen) others
          rw [grouping_of_not hrest hnext, operandRun_of_not hunary hatomic hparen]
          rfl

/-- Operands are read as by their readers. The induction is on what is left of the allowance, which
is what may still be opened. -/
theorem unary_follows (track : Track tokens origin) (left : Nat)
    (hdepth : depth + left = allowance) :
    track.Follows depth 3 (unary tokens allowance) (Reader.operand track.stop left).run := by
  induction left generalizing depth with
  | zero =>
    have hused : depth = allowance := by simpa using hdepth
    have hinner : Nests track allowance depth none := hused
    exact operandRun_follows hinner
  | succ left ih =>
    have hinner : Nests track allowance depth (some (Reader.operand track.stop left)) :=
      ⟨by omega, ih (by omega)⟩
    exact operandRun_follows hinner

/-- Where nothing is open, expressions are read as by their reader. -/
theorem expression_follows (track : Track tokens origin) (allowance : Nat) :
    track.Follows 0 11 (expression tokens allowance)
      (Reader.expression track.stop allowance).run :=
  levels_follows (unary_follows track allowance (Int.zero_add _))

end Expressions

section Programs

variable {options : ReadingOptions} {room : Nat}

/-- A statement is closed as by its reader. -/
theorem endStatement_before (h : rest <:+ track.ahead) (cause : Cause) (statement : Stmt) :
    (endStatement tokens options cause statement).run (track.before depth rest) =
      some ((Reader.endRun options track.stop cause statement rest).result,
        track.before depth (Reader.endRun options track.stop cause statement rest).rest) := by
  rw [endStatement]
  cases rest with
  | nil =>
    rw [run_else (accept_of_not h rfl), Reader.endRun]
    dsimp only
    cases options.implicitSemicolon with
    | true =>
      simp only [if_true]
      rw [run_then (isAtEnd_before h)]
      rfl
    | false =>
      simp only [Bool.false_eq_true, if_false]
      rw [run_bind_of (peek_before h)]
      rfl
  | cons token others =>
    by_cases hkind : token.kind = .semicolon
    · rw [run_then (accept_of_mem h (List.mem_singleton.mpr hkind)), Reader.endRun, if_pos hkind]
      rfl
    · have hnext := comesNext_of_not_mem (mt List.mem_singleton.mp hkind) others
      rw [run_else (accept_of_not h hnext), Reader.endRun, if_neg hkind]
      dsimp only
      cases options.implicitSemicolon with
      | true =>
        simp only [if_true]
        rw [run_else (isAtEnd_before h), run_bind_of (peek_before h)]
        rfl
      | false =>
        simp only [Bool.false_eq_true, if_false]
        rw [run_bind_of (peek_before h)]
        rfl

/-- A statement made of an expression is read as by its reader. -/
theorem valueStatement_follows (track : Track tokens origin) (options : ReadingOptions)
    (cause : Cause) (make : Expr → Stmt) :
    track.Follows 0 11 (valueStatement tokens options cause make)
      (Reader.valueRun options track.stop cause make) := by
  intro rest room hrest hroom
  have hadvances := (Reader.expression track.stop options.allowance).advances rest
  have hvalue := expression_follows track options.allowance rest room hrest hroom
  rw [valueStatement, run_bind_of hvalue, Reader.valueRun]
  cases hrun : (Reader.expression track.stop options.allowance).run rest with
  | refused fault after => rfl
  | accepted value after =>
    rw [hrun] at hadvances
    exact endStatement_before (hadvances.1.trans hrest) cause (make value)

/-- What follows the word that opens a declaration is read as by its reader. -/
theorem declaration_follows (track : Track tokens origin) (options : ReadingOptions) :
    track.Follows 0 11 (declaration tokens options) (Reader.declarationRun options track.stop) := by
  intro rest room hrest hroom
  rw [declaration]
  cases rest with
  | nil =>
    rw [run_bind_of (consume_of_not hrest rfl _)]
    rfl
  | cons name others =>
    have hothers := (List.suffix_cons name others).trans hrest
    rw [List.length_cons] at hroom
    by_cases hname : name.kind = .identifier
    · rw [run_bind_of (consume_of_eq hrest hname _), Reader.declarationRun, if_pos hname]
      dsimp only
      cases others with
      | nil =>
        rw [run_else (accept_of_not hothers rfl)]
        exact endStatement_before hothers _ _
      | cons sign more =>
        rw [List.length_cons] at hroom
        by_cases hsign : sign.kind = .equal
        · rw [run_then (accept_of_mem hothers (List.mem_singleton.mpr hsign)),
            Reader.initializerRun, if_pos hsign]
          exact valueStatement_follows track options _ _ more room
            ((List.suffix_cons sign more).trans hothers) (by omega)
        · have hnext := comesNext_of_not_mem (mt List.mem_singleton.mp hsign) more
          rw [run_else (accept_of_not hothers hnext), Reader.initializerRun, if_neg hsign]
          exact endStatement_before hothers _ _
    · have hnext := comesNext_of_not_mem (mt List.mem_singleton.mp hname) others
      rw [run_bind_of (consume_of_not hrest hnext _), Reader.declarationRun, if_neg hname]
      rfl

/-- A statement is read as by its reader. -/
theorem statement_before (options : ReadingOptions) (h : token :: rest <:+ track.ahead)
    (hroom : 12 * (token :: rest).length + 11 ≤ room) :
    (statement tokens options room).run (track.before 0 (token :: rest)) =
      some ((Reader.statementRun options track.stop (token :: rest)).result,
        track.before 0 (Reader.statementRun options track.stop (token :: rest)).rest) := by
  have hrest := (List.suffix_cons token rest).trans h
  have hless : 12 * rest.length + 11 ≤ room := by
    rw [List.length_cons] at hroom
    omega
  rw [statement, Reader.statementRun]
  by_cases hvar : token.kind = .keyword .varWord
  · rw [run_then (accept_of_mem h (List.mem_singleton.mpr hvar)), if_pos hvar]
    exact declaration_follows track options rest room hrest hless
  · have hnoVar := comesNext_of_not_mem (mt List.mem_singleton.mp hvar) rest
    rw [run_else (accept_of_not h hnoVar), if_neg hvar]
    by_cases hprint : token.kind = .keyword .printWord
    · rw [run_then (accept_of_mem h (List.mem_singleton.mpr hprint)), if_pos hprint]
      exact valueStatement_follows track options _ _ rest room hrest hless
    · have hnoPrint := comesNext_of_not_mem (mt List.mem_singleton.mp hprint) rest
      rw [run_else (accept_of_not h hnoPrint), if_neg hprint]
      exact valueStatement_follows track options _ _ (token :: rest) room h hroom

/-- Passing over tokens ends where it does for the readers. -/
theorem skip_before (h : token :: rest <:+ track.ahead) (hroom : rest.length + 1 ≤ room) :
    (skip tokens room).run (track.before depth rest) =
      some ((), track.before depth (Reader.boundaryAfter token rest)) := by
  induction rest generalizing token room with
  | nil =>
    obtain ⟨room, rfl⟩ := Nat.exists_eq_add_one_of_ne_zero (show room ≠ 0 by omega)
    rw [skip, run_then (isAtEnd_before List.nil_suffix)]
    rfl
  | cons next others ih =>
    obtain ⟨room, rfl⟩ := Nat.exists_eq_add_one_of_ne_zero (show room ≠ 0 by omega)
    have hnext := (List.suffix_cons token (next :: others)).trans h
    have hpeek : Lox.peek track.stop (next :: others) = next := rfl
    rw [skip, run_else (isAtEnd_before hnext), run_bind_of (previous_before h),
      Reader.boundaryAfter]
    by_cases hsemicolon : token.kind = .semicolon
    · rw [if_pos hsemicolon, if_pos (.inl hsemicolon)]
      rfl
    · rw [if_neg hsemicolon, run_bind_of (peek_before hnext), hpeek]
      by_cases hopens : next.kind.opensStatement = true
      · rw [if_pos hopens, if_pos (.inr hopens)]
        rfl
      · rw [if_neg hopens, if_neg (not_or.mpr ⟨hsemicolon, hopens⟩),
          run_bind_of (advance_before hnext)]
        exact ih hnext (Nat.le_of_succ_le_succ hroom)

/-- After a fault the cursor moves to where reading resumes. It has taken a token by then unless one
is left to pass over, so there is a token before it. -/
theorem synchronize_before (hahead : track.ahead ≠ []) (h : rest <:+ track.ahead)
    (hroom : rest.length + 1 ≤ room) :
    (synchronize tokens room).run (track.before depth rest) =
      some ((), track.before depth (Reader.resume rest)) := by
  rw [synchronize]
  cases rest with
  | nil =>
    obtain ⟨front, last, hlast⟩ := (List.eq_nil_or_concat track.ahead).resolve_left hahead
    have hsuffix : [last] <:+ track.ahead := ⟨front, by rw [hlast, List.concat_eq_append]⟩
    rw [run_bind_of (advance_at_end hsuffix)]
    exact skip_before hsuffix hroom
  | cons token others =>
    rw [run_bind_of (advance_before h)]
    exact skip_before h (Nat.le_of_succ_le hroom)

/-- A round that accepts a statement ends where its reader does. -/
theorem round_of_accepted {statement : Stmt} {after : List Token}
    (h : token :: rest <:+ track.ahead) (hroom : 12 * (token :: rest).length + 11 ≤ room)
    (hrun : Reader.statementRun options track.stop (token :: rest) = .accepted statement after) :
    (round tokens options room).run (track.before 0 (token :: rest)) =
      some (.ok statement, track.before 0 after) := by
  have hstatement := statement_before options h hroom
  rw [hrun] at hstatement
  rw [round, run_bind_of hstatement]
  rfl

/-- A round with a fault ends where reading resumes. -/
theorem round_of_refused {fault : SyntaxFault} {left : List Token}
    (h : token :: rest <:+ track.ahead) (hroom : 12 * (token :: rest).length + 11 ≤ room)
    (hrun : Reader.statementRun options track.stop (token :: rest) = .refused fault left) :
    (round tokens options room).run (track.before 0 (token :: rest)) =
      some (.error fault, track.before 0 (Reader.resume left)) := by
  have hadvances := Reader.statementRun_advances options track.stop (token :: rest)
  have hstatement := statement_before options h hroom
  rw [hrun] at hadvances hstatement
  have hahead : track.ahead ≠ [] := List.ne_nil_of_mem (h.subset List.mem_cons_self)
  have hshorter : left.length ≤ (token :: rest).length := List.IsSuffix.length_le hadvances
  have hleft : left.length + 1 ≤ room := by omega
  rw [round, run_bind_of hstatement]
  exact run_bind_of (synchronize_before hahead (hadvances.trans h) hleft)

/-- The rounds are those of the readers, and the last one ends at the end of the source. The
induction is on the rounds of the readers, each of which leaves fewer tokens than it was given. -/
theorem rounds_before (h : rest <:+ track.ahead) (hroom : 12 * rest.length + 12 ≤ room)
    (statements : List Stmt) (faults : List SyntaxFault) :
    (rounds tokens options statements faults room).run (track.before 0 rest) =
      some ((statements ++ (Reader.program options track.stop rest).filterMap Except.toOption,
        faults ++ (Reader.program options track.stop rest).filterMap Reader.fault?),
        track.before 0 []) := by
  fun_induction Reader.program options track.stop rest generalizing statements faults room with
  | case1 =>
    obtain ⟨room, rfl⟩ := Nat.exists_eq_add_one_of_ne_zero (show room ≠ 0 by omega)
    rw [rounds, run_then (isAtEnd_before h), List.filterMap_nil, List.append_nil,
      List.filterMap_nil, List.append_nil]
    rfl
  | case2 token others statement after hrun ih =>
    obtain ⟨room, rfl⟩ := Nat.exists_eq_add_one_of_ne_zero (show room ≠ 0 by omega)
    have hadvances := Reader.statementRun_advances options track.stop (token :: others)
    rw [hrun] at hadvances
    have hshorter := hadvances.2
    rw [rounds, run_else (isAtEnd_before h), run_bind_of (round_of_accepted h (by omega) hrun)]
    refine (ih (hadvances.1.trans h) (by omega) _ _).trans ?_
    rw [List.append_assoc]
    rfl
  | case3 token others fault left hrun ih =>
    obtain ⟨room, rfl⟩ := Nat.exists_eq_add_one_of_ne_zero (show room ≠ 0 by omega)
    have hadvances := Reader.statementRun_advances options track.stop (token :: others)
    rw [hrun] at hadvances
    have hresume := (Reader.resume_suffix left).trans (hadvances.trans h)
    have hshorter := Reader.length_resume_lt hadvances
    rw [rounds, run_else (isAtEnd_before h), run_bind_of (round_of_refused h (by omega) hrun)]
    refine (ih hresume (by omega) _ _).trans ?_
    rw [List.append_assoc]
    rfl

end Programs

end Walk

end Lox
