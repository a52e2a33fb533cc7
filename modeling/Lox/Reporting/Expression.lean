import Lox.Reading.Expression
import Lox.Reporting.Basic

/-!
# Reporting while reading expressions

The readers of expressions with a sink that each of them hands on. Faults are found, and reported,
in three places: where an operand is missing, where a parenthesis is not closed and where nesting is
too deep.
-/

namespace Lox.ReportingReader

open Reading (refuse handOn handOn_reported)

/-- Read on after a left operand, as long as an operator of the level follows. -/
def chainFrom (level : Level) (operand : ReportingReader Expr) (left : Expr)
    (tokens : List Token) (sink : Sink) : Reading Expr × Sink :=
  match tokens with
  | [] => (.accepted left [], sink)
  | token :: rest =>
    if level.has token.kind then
      match _taken : operand.run rest sink with
      | (.accepted right after, later) =>
        chainFrom level operand (.binary left token right) after later
      | (.refused fault after, later) => (.refused fault after, later)
    else (.accepted left (token :: rest), sink)
termination_by tokens.length
decreasing_by
  have hadv := operand.advances rest sink
  rw [_taken] at hadv
  exact Nat.lt_succ_of_lt hadv.2

/-- Reading on after a left operand reports the fault of a later operand once. -/
theorem chainFrom_eq (level : Level) (operand : ReportingReader Expr) (left : Expr)
    (tokens : List Token) (sink : Sink) :
    chainFrom level operand left tokens sink =
      (Reader.chainFrom level operand.reader left tokens).reported sink := by
  fun_induction chainFrom level operand left tokens sink with
  | case1 left sink =>
    rw [Reader.chainFrom]
    rfl
  | case2 left sink token rest hop right after later htaken ih =>
    rw [operand.run_eq] at htaken
    rw [Reader.chainFrom, if_pos hop]
    split
    · rename_i other others hrun
      rw [hrun] at htaken
      cases htaken
      exact ih
    · rename_i fault others hrun
      rw [hrun] at htaken
      cases htaken
  | case3 left sink token rest hop fault after later htaken =>
    rw [operand.run_eq] at htaken
    rw [Reader.chainFrom, if_pos hop]
    split
    · rename_i other others hrun
      rw [hrun] at htaken
      cases htaken
    · rename_i other others hrun
      rw [hrun] at htaken
      cases htaken
      rfl
  | case4 left sink token rest hop =>
    rw [Reader.chainFrom, if_neg hop]
    rfl

/-- A chain reads its first operand and then reads on. -/
theorem chain_run (level : Level) (operand : Reader Expr) (tokens : List Token) :
    (operand.chain level).run tokens =
      (operand.run tokens).proceed (Reader.chainFrom level operand) := by
  change Reader.chainRun level operand tokens = _
  unfold Reader.chainRun
  cases operand.run tokens <;> rfl

/-- A chain of operands with operators of one level between them. -/
def chain (level : Level) (operand : ReportingReader Expr) : ReportingReader Expr where
  reader := operand.reader.chain level
  run tokens sink := handOn (chainFrom level operand) (operand.run tokens sink)
  run_eq tokens sink := by
    rw [operand.run_eq, handOn_reported (chainFrom_eq level operand), chain_run]

/-- The reader of an expression, given the reader of its operands. -/
def levels (operand : ReportingReader Expr) : ReportingReader Expr :=
  chain .equality (chain .comparison (chain .term (chain .factor operand)))

/-- Read what stands after a unary operator. -/
def unaryRun (stop operator : Token) (inner : Option (ReportingReader Expr))
    (tokens : List Token) (sink : Sink) : Reading Expr × Sink :=
  match inner with
  | none => refuse sink ⟨peek stop tokens, .nestingTooDeep⟩ tokens
  | some operand =>
    handOn (fun value rest sink => (.accepted (.unary operator value) rest, sink))
      (operand.run tokens sink)

/-- Read the closing parenthesis after an expression. -/
def closeRun (stop : Token) (value : Expr) (tokens : List Token) (sink : Sink) :
    Reading Expr × Sink :=
  match tokens with
  | [] => refuse sink ⟨stop, .expectedRightParen⟩ []
  | token :: rest =>
    if token.kind = .rightParen then (.accepted (.grouping value) rest, sink)
    else refuse sink ⟨token, .expectedRightParen⟩ (token :: rest)

/-- Read what stands after an opening parenthesis. -/
def groupingRun (stop : Token) (inner : Option (ReportingReader Expr)) (tokens : List Token)
    (sink : Sink) : Reading Expr × Sink :=
  match inner with
  | none => refuse sink ⟨peek stop tokens, .nestingTooDeep⟩ tokens
  | some operand => handOn (closeRun stop) (operand.levels.run tokens sink)

/-- Read one operand. The reader of what may be nested in it is missing once the allowance is used
up. -/
def operandRun (stop : Token) (inner : Option (ReportingReader Expr)) (tokens : List Token)
    (sink : Sink) : Reading Expr × Sink :=
  match tokens with
  | [] => refuse sink ⟨stop, .expectedExpression⟩ []
  | token :: rest =>
    if token.kind.isUnary then unaryRun stop token inner rest sink
    else
      match token.kind with
      | .keyword .falseWord => (.accepted (.literal (some (.bool false))) rest, sink)
      | .keyword .trueWord => (.accepted (.literal (some (.bool true))) rest, sink)
      | .keyword .nilWord => (.accepted (.literal (some .nil)) rest, sink)
      | .number | .string =>
        match token.literal.value? with
        | some value => (.accepted (.literal (some value)) rest, sink)
        | none => refuse sink ⟨token, .expectedExpression⟩ rest
      | .identifier => (.accepted (.reference token) rest, sink)
      | .leftParen => groupingRun stop inner rest sink
      | _ => refuse sink ⟨token, .expectedExpression⟩ (token :: rest)

/-- What follows a unary operator is reported once if it has a fault. -/
theorem unaryRun_eq (stop operator : Token) (inner : Option (ReportingReader Expr))
    (tokens : List Token) (sink : Sink) :
    unaryRun stop operator inner tokens sink =
      (Reader.unaryRun stop operator (inner.map reader) tokens).reported sink := by
  cases inner with
  | none => rfl
  | some operand =>
    simp only [unaryRun, operand.run_eq, Option.map_some, Reader.unaryRun]
    cases operand.reader.run tokens <;> rfl

/-- A closing parenthesis is reported once if it is missing. -/
theorem closeRun_eq (stop : Token) (value : Expr) (tokens : List Token) (sink : Sink) :
    closeRun stop value tokens sink = (Reader.closeRun stop value tokens).reported sink := by
  cases tokens with
  | nil => rfl
  | cons token rest =>
    simp only [closeRun, Reader.closeRun]
    split <;> rfl

/-- What follows an opening parenthesis is reported once if it has a fault. -/
theorem groupingRun_eq (stop : Token) (inner : Option (ReportingReader Expr))
    (tokens : List Token) (sink : Sink) :
    groupingRun stop inner tokens sink =
      (Reader.groupingRun stop (inner.map reader) tokens).reported sink := by
  cases inner with
  | none => rfl
  | some operand =>
    have hlevels : operand.levels.reader = operand.reader.levels := rfl
    simp only [groupingRun, operand.levels.run_eq, handOn_reported (closeRun_eq stop), hlevels,
      Option.map_some, Reader.groupingRun]
    cases operand.reader.levels.run tokens <;> rfl

/-- An operand is reported once if it has a fault. -/
theorem operandRun_eq (stop : Token) (inner : Option (ReportingReader Expr))
    (tokens : List Token) (sink : Sink) :
    operandRun stop inner tokens sink =
      (Reader.operandRun stop (inner.map reader) tokens).reported sink := by
  cases tokens with
  | nil => rfl
  | cons token rest =>
    simp only [operandRun, Reader.operandRun]
    split
    · exact unaryRun_eq stop token inner rest sink
    · generalize token.kind = kind
      cases kind with
      | keyword word => cases word <;> rfl
      | number => cases token.literal.value? <;> rfl
      | string => cases token.literal.value? <;> rfl
      | leftParen => exact groupingRun_eq stop inner rest sink
      | _ => rfl

/-- The reader of operands with the given allowance of nesting. -/
def operand (stop : Token) : Nat → ReportingReader Expr
  | 0 => ⟨Reader.operand stop 0, operandRun stop none, operandRun_eq stop none⟩
  | allowance + 1 =>
    ⟨⟨Reader.operandRun stop (some (operand stop allowance).reader),
        Reader.operandRun_advances stop (some (operand stop allowance).reader)⟩,
      operandRun stop (some (operand stop allowance)),
      operandRun_eq stop (some (operand stop allowance))⟩

/-- Apart from reports, operands are read as without them. -/
theorem operand_reader (stop : Token) (allowance : Nat) :
    (operand stop allowance).reader = Reader.operand stop allowance := by
  induction allowance with
  | zero => rfl
  | succ allowance ih => simp only [operand, Reader.operand, ih]

/-- The reader of expressions with the given allowance of nesting. -/
def expression (stop : Token) (allowance : Nat) : ReportingReader Expr :=
  (operand stop allowance).levels

/-- Apart from reports, expressions are read as without them. -/
theorem expression_reader (stop : Token) (allowance : Nat) :
    (expression stop allowance).reader = Reader.expression stop allowance := by
  change (operand stop allowance).reader.levels = _
  rw [operand_reader]
  rfl

/-- Reading an expression reports its fault once. -/
theorem expression_run (stop : Token) (allowance : Nat) (tokens : List Token) (sink : Sink) :
    (expression stop allowance).run tokens sink =
      ((Reader.expression stop allowance).run tokens).reported sink := by
  rw [(expression stop allowance).run_eq, expression_reader]

end Lox.ReportingReader
