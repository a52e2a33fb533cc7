import Lox.Proofs.Evaluation.Statement

/-!
# Safe evaluation

A tree is well-formed if its literals hold values and its operators are operators of the language.
Evaluating such a tree where all variables hold values ends with a value or with one of the faults
that its nodes can have: an operator has operands of the wrong kind, or a name is not declared. No
operator is unknown. Executing statements keeps variables holding values, so this is true of every
statement of a run.
-/

namespace Lox

/-- The operators that stand before an operand. -/
def Kind.unaryOperators : List Kind := [.bang, .minus]

/-- The operators that stand between two operands. -/
def Kind.binaryOperators : List Kind :=
  [.bangEqual, .equalEqual, .greater, .greaterEqual, .less, .lessEqual, .minus, .plus, .slash,
    .star]

/-- The causes that evaluation can have, whatever name they concern. -/
def Cause.ofEvaluation : List Cause :=
  [.operandNotNumber, .operandsNotNumbers, .operandsNotAlike, .undefinedVariable none]

/-- What is wrong with the operand of a unary operator, for the operators that do not take any. -/
def Kind.operandCause? : Kind → Option Cause
  | minus => some .operandNotNumber
  | _ => none

/-- What is wrong with the operands of a binary operator, for the operators that do not take any. -/
def Kind.operandsCause? : Kind → Option Cause
  | greater | greaterEqual | less | lessEqual | minus | slash | star => some .operandsNotNumbers
  | plus => some .operandsNotAlike
  | _ => none

/-- What is wrong with an operand is a cause of evaluation. -/
theorem Kind.operandCause?_general {kind : Kind} {cause : Cause}
    (h : kind.operandCause? = some cause) : cause.general ∈ Cause.ofEvaluation := by
  unfold Kind.operandCause? at h
  split at h <;> cases h
  decide

/-- What is wrong with two operands is a cause of evaluation. -/
theorem Kind.operandsCause?_general {kind : Kind} {cause : Cause}
    (h : kind.operandsCause? = some cause) : cause.general ∈ Cause.ofEvaluation := by
  unfold Kind.operandsCause? at h
  split at h <;> cases h <;> decide

/-- Apart from equality and sums, binary operators ask for numbers. -/
theorem Kind.operandsCause?_of_mem {kind : Kind} (hkind : kind ∈ Kind.binaryOperators)
    (hbang : kind ≠ .bangEqual) (hequal : kind ≠ .equalEqual) (hplus : kind ≠ .plus) :
    kind.operandsCause? = some .operandsNotNumbers := by
  cases kind <;> simp_all [Kind.binaryOperators, Kind.operandsCause?]

namespace Expr

/-- Literals hold values and operators are those of the language. -/
def WellFormed : Expr → Prop
  | literal value => value.isSome
  | grouping inner => inner.WellFormed
  | unary operator operand => operator.kind ∈ Kind.unaryOperators ∧ operand.WellFormed
  | binary left operator right =>
    left.WellFormed ∧ operator.kind ∈ Kind.binaryOperators ∧ right.WellFormed
  | reference name => name.kind = .identifier

/-- The faults that the nodes of a tree can have, in the order of evaluation. Each is at the token
of its node. -/
def possibleFaults : Expr → List RuntimeFault
  | literal _ => []
  | grouping inner => inner.possibleFaults
  | unary operator operand =>
    operand.possibleFaults ++ operator.kind.operandCause?.toList.map (⟨operator, ·⟩)
  | binary left operator right =>
    left.possibleFaults ++ right.possibleFaults ++
      operator.kind.operandsCause?.toList.map (⟨operator, ·⟩)
  | reference name => [⟨name, .undefinedVariable (some name.lexeme)⟩]

/-- No node of a tree has a fault with a cause that evaluation cannot have. -/
theorem possibleFaults_cause {tree : Expr} {fault : RuntimeFault}
    (hmem : fault ∈ tree.possibleFaults) : fault.cause.general ∈ Cause.ofEvaluation := by
  induction tree with
  | literal value => cases hmem
  | grouping inner ih => exact ih hmem
  | reference name =>
    rw [List.mem_singleton.mp hmem]
    have hcause : Cause.undefinedVariable none ∈ Cause.ofEvaluation := by decide
    exact hcause
  | unary operator operand ih =>
    rcases List.mem_append.mp hmem with hmem | hmem
    · exact ih hmem
    · obtain ⟨cause, hcause, rfl⟩ := List.mem_map.mp hmem
      exact Kind.operandCause?_general (Option.mem_toList.mp hcause)
  | binary left operator right ihleft ihright =>
    rcases List.mem_append.mp hmem with hmem | hmem
    · rcases List.mem_append.mp hmem with hmem | hmem
      · exact ihleft hmem
      · exact ihright hmem
    · obtain ⟨cause, hcause, rfl⟩ := List.mem_map.mp hmem
      exact Kind.operandsCause?_general (Option.mem_toList.mp hcause)

end Expr

/-- An evaluation ends with a value or with one of the faults. -/
def Yields (faults : List RuntimeFault) : Except RuntimeFault (Option Value) → Prop
  | .ok value => value.isSome
  | .error fault => fault ∈ faults

/-- More faults admit more evaluations. -/
theorem Yields.mono {faults others : List RuntimeFault}
    {result : Except RuntimeFault (Option Value)} (h : Yields faults result)
    (hsub : faults ⊆ others) : Yields others result := by
  cases result with
  | ok value => exact h
  | error fault => exact hsub h

namespace Operator

/-- A unary operator of the language yields a value or finds its operand to be no number. -/
theorem unary_yields {operator : Token} (hkind : operator.kind ∈ Kind.unaryOperators)
    (operand : Option Value) :
    Yields (operator.kind.operandCause?.toList.map (⟨operator, ·⟩))
      (Operator.unary operator operand) := by
  simp only [Kind.unaryOperators, List.mem_cons, List.not_mem_nil, or_false] at hkind
  unfold Operator.unary
  rcases hkind with hkind | hkind <;> rw [hkind]
  · rfl
  · dsimp only
    split
    · rfl
    · exact List.mem_singleton_self _

/-- Two numbers suffice for every operator that asks for numbers. -/
theorem onNumbers?_isSome {kind : Kind} (hkind : kind.operandsCause? = some .operandsNotNumbers)
    (x y : Float) : (onNumbers? kind x y).isSome := by
  cases kind <;> simp_all [Kind.operandsCause?, onNumbers?]

/-- A binary operator of the language yields a value or finds its operands to be of the wrong
kind. -/
theorem binary_yields {operator : Token} (hkind : operator.kind ∈ Kind.binaryOperators)
    (left right : Option Value) :
    Yields (operator.kind.operandsCause?.toList.map (⟨operator, ·⟩))
      (Operator.binary operator left right) := by
  unfold Operator.binary
  split
  · rfl
  · rfl
  · rename_i hplus
    rw [hplus]
    split
    · rfl
    · exact List.mem_singleton_self _
  · rename_i hbang hequal hplus
    have hcause := Kind.operandsCause?_of_mem hkind hbang hequal hplus
    split
    · rename_i x y
      obtain ⟨value, hvalue⟩ := Option.isSome_iff_exists.mp (onNumbers?_isSome hcause x y)
      rw [hvalue]
      rfl
    · rw [hcause]
      exact List.mem_singleton_self _

end Operator

namespace Environment

/-- All variables hold values. -/
def Holds (environment : Environment) : Prop :=
  ∀ binding ∈ environment.bindings, binding.2.isSome

/-- Where there is no variable, all variables hold values. -/
theorem holds_empty : empty.Holds := fun _ hmem => by cases hmem

/-- Binding a name to a value keeps all variables holding values. -/
theorem Holds.define {environment : Environment} (h : environment.Holds) (name : Text)
    {value : Option Value} (hvalue : value.isSome) : (environment.define name value).Holds := by
  intro binding hmem
  rcases Binding.mem_insert hmem with rfl | hmem
  · exact hvalue
  · exact h binding hmem

/-- A name that is bound has a value, and a name that is not bound is reported as it stands. -/
theorem Holds.read_yields {environment : Environment} (h : environment.Holds) (name : Token) :
    Yields (Expr.reference name).possibleFaults (environment.read name) := by
  unfold Environment.read
  split
  · rename_i value hget
    have hlookup := List.lookup_eq_some_iff.mp hget
    obtain ⟨before, after, hbindings, hnone⟩ := hlookup
    exact h (name.lexeme, value) (by rw [hbindings]; simp)
  · exact List.mem_singleton_self _

end Environment

/-- A well-formed tree evaluates to a value or with a fault that one of its nodes can have. -/
theorem Expr.WellFormed.eval_yields {tree : Expr} (htree : tree.WellFormed)
    {environment : Environment} (henv : environment.Holds) :
    Yields tree.possibleFaults (tree.eval environment) := by
  induction tree with
  | literal value => exact htree
  | grouping inner ih => exact ih htree
  | reference name => exact henv.read_yields name
  | unary operator operand ih =>
    obtain ⟨hkind, hoperand⟩ := htree
    have hvalue := ih hoperand
    simp only [eval]
    cases heval : operand.eval environment with
    | error fault =>
      rw [heval] at hvalue
      exact List.mem_append_left _ hvalue
    | ok value => exact (Operator.unary_yields hkind value).mono (List.subset_append_right _ _)
  | binary left operator right ihleft ihright =>
    obtain ⟨hleft, hkind, hright⟩ := htree
    have hleftValue := ihleft hleft
    have hrightValue := ihright hright
    simp only [eval]
    cases hevalLeft : left.eval environment with
    | error fault =>
      rw [hevalLeft] at hleftValue
      exact List.mem_append_left _ (List.mem_append_left _ hleftValue)
    | ok leftValue =>
      dsimp only
      cases hevalRight : right.eval environment with
      | error fault =>
        rw [hevalRight] at hrightValue
        exact List.mem_append_left _ (List.mem_append_right _ hrightValue)
      | ok rightValue =>
        exact (Operator.binary_yields hkind leftValue rightValue).mono
          (List.subset_append_right _ _)

namespace Stmt

/-- The expression of the statement is well-formed. -/
def WellFormed (statement : Stmt) : Prop := ∀ tree ∈ statement.expression?, tree.WellFormed

/-- The faults that the expression of a statement can have. -/
def possibleFaults (statement : Stmt) : List RuntimeFault :=
  statement.expression?.toList.flatMap Expr.possibleFaults

/-- The faults of a statement that has an expression are those of the expression. -/
theorem possibleFaults_eq {statement : Stmt} {tree : Expr} (h : statement.expression? = some tree) :
    statement.possibleFaults = tree.possibleFaults := by
  simp [possibleFaults, h]

end Stmt

/-- What can end an execution on a console: one of the faults of evaluation, a write if the console
stops taking them, and cancellation if the console asks for it. -/
def RunFault.Possible (console : Console) (faults : List RuntimeFault) : RunFault → Prop
  | runtime fault => fault ∈ faults ∧ fault.cause.general ∈ Cause.ofEvaluation
  | writeFailed => console.failAfter.isSome
  | cancelled => console.cancelAfter.isSome

/-- What is possible depends on the limits of the console, and more faults make more possible. -/
theorem RunFault.Possible.mono {console other : Console} {faults others : List RuntimeFault}
    {fault : RunFault} (h : fault.Possible console faults) (hlimits : console.SameLimits other)
    (hsub : faults ⊆ others) : fault.Possible other others := by
  cases fault with
  | runtime fault => exact ⟨hsub h.1, h.2⟩
  | writeFailed =>
    have hfails : console.failAfter.isSome := h
    rw [hlimits.1] at hfails
    exact hfails
  | cancelled =>
    have hcancels : console.cancelAfter.isSome := h
    rw [hlimits.2] at hcancels
    exact hcancels

/-- What executing one statement can end in: either way the expression of the statement has only
the faults of its nodes and only actual values. -/
structure Stmt.SafeIn (environment : Environment) (console : Console) (statement : Stmt) :
    Prop where
  /-- The expression evaluates to a value or with a fault of one of its nodes. -/
  evaluates : ∀ tree ∈ statement.expression?, Yields tree.possibleFaults (tree.eval environment)
  /-- The statement leaves a value and variables that hold values. -/
  effect : ∀ effect after, statement.execute environment console = (.ok effect, after) →
    effect.value.isSome ∧ effect.environment.Holds ∧ after.SameLimits console
  /-- The statement fails only as it can. -/
  fault : ∀ fault after, statement.execute environment console = (.error fault, after) →
    fault.Possible console statement.possibleFaults

/-- Where all variables hold values, a well-formed statement is safe. -/
theorem Stmt.WellFormed.safeIn {statement : Stmt} (hstatement : statement.WellFormed)
    {environment : Environment} (henv : environment.Holds) (console : Console) :
    statement.SafeIn environment console := by
  have hyields : ∀ tree ∈ statement.expression?,
      Yields tree.possibleFaults (tree.eval environment) :=
    fun tree htree => (hstatement tree htree).eval_yields henv
  have hcase := statement.executes_execute environment console
  refine ⟨hyields, ?_, ?_⟩
  · intro effect after hexecute
    rw [hexecute] at hcase
    cases hcase with
    | @evaluated tree value heval =>
      have hvalue := hyields tree rfl
      rw [heval] at hvalue
      exact ⟨hvalue, henv, rfl, rfl⟩
    | printed heval hwrite => exact ⟨rfl, henv, Console.sameLimits_of_write? hwrite⟩
    | declared name => exact ⟨rfl, henv.define name.lexeme rfl, rfl, rfl⟩
    | @defined name tree value heval =>
      have hvalue := hyields tree rfl
      rw [heval] at hvalue
      exact ⟨rfl, henv.define name.lexeme hvalue, rfl, rfl⟩
  · intro fault after hexecute
    rw [hexecute] at hcase
    cases hcase with
    | @failed _ tree fault htree heval =>
      have hmem := hyields tree htree
      rw [heval] at hmem
      rw [Stmt.possibleFaults_eq htree]
      exact ⟨hmem, Expr.possibleFaults_cause hmem⟩
    | unwritten heval hwrite => exact Console.failAfter_of_write? hwrite

namespace Execution

/-- An execution meets only variables that hold values, ends early only with a possible fault, and
ends complete only with a result of the given kind. -/
structure Safe {α : Type} (console : Console) (faults : List RuntimeFault)
    (complete : α → Prop) (execution : Execution α) : Prop where
  /-- After every statement all variables hold values. -/
  stored : ∀ index environment, .executed index environment ∈ execution.notices →
    environment.Holds
  /-- Only possible faults are given notice of. -/
  reported : ∀ fault, .failed fault ∈ execution.notices → fault.Possible console faults
  /-- Only possible faults end the execution. -/
  failed : ∀ fault, execution.outcome = .error fault → fault.Possible console faults
  /-- The result is of the given kind. -/
  completed : ∀ result, execution.outcome = .ok result → complete result

/-- What the text of a complete execution is: that of the actual value of the last statement, if
that is an expression, and nothing after other statements. -/
def EndsWith (text : Text) (statements : List Stmt) (result : Text) : Prop :=
  match statements.getLast? with
  | none => result = text
  | some (.expression tree) => ∃ environment value, environment.Holds ∧
      tree.eval environment = .ok (some value) ∧ result = value.text
  | some _ => result = []

/-- The text after a statement is that of a complete execution of the statement. -/
theorem endsWith_resultText {statement : Stmt} {environment : Environment} {console : Console}
    (henv : environment.Holds) (hsafe : statement.SafeIn environment console) {effect : Effect}
    {after : Console} (h : statement.execute environment console = (.ok effect, after))
    (text : Text) : EndsWith text [statement] (statement.resultText effect.value) := by
  have hcase := statement.executes_execute environment console
  have hvalue := (hsafe.effect effect after h).1
  rw [h] at hcase
  cases hcase with
  | @evaluated tree value heval =>
    obtain ⟨value, rfl⟩ := Option.isSome_iff_exists.mp hvalue
    exact ⟨environment, value, henv, heval, rfl⟩
  | printed heval hwrite => rfl
  | declared name => rfl
  | defined heval => rfl

/-- An execution that ends before any statement is safe if its outcome is. -/
theorem Safe.of_no_notice {α : Type} {console after : Console} {faults : List RuntimeFault}
    {complete : α → Prop} {outcome : Except RunFault α}
    (hfailed : ∀ fault, outcome = .error fault → fault.Possible console faults)
    (hcompleted : ∀ result, outcome = .ok result → complete result) :
    Safe console faults complete ⟨outcome, [], after⟩ := by
  refine ⟨fun index environment hmem => ?_, fun fault hmem => ?_, hfailed, hcompleted⟩
  · cases hmem
  · cases hmem

/-- An execution that ends with a possible fault and gives notice of it is safe. -/
theorem Safe.of_failure {α : Type} {console after : Console} {faults : List RuntimeFault}
    {complete : α → Prop} {fault : RunFault} (hfault : fault.Possible console faults) :
    Safe console faults complete ⟨.error fault, [.failed fault], after⟩ := by
  refine ⟨?_, ?_, ?_, ?_⟩
  · intro index environment hmem
    cases List.mem_singleton.mp hmem
  · intro other hmem
    cases List.mem_singleton.mp hmem
    exact hfault
  · intro other houtcome
    cases houtcome
    exact hfault
  · intro result houtcome
    cases houtcome

/-- A safe execution stays safe after a statement that leaves variables holding values. -/
theorem Safe.after_statement {α : Type} {console after : Console}
    {faults others : List RuntimeFault} {complete whole : α → Prop} {later : Execution α}
    {environment : Environment} (hlater : later.Safe after faults complete)
    (henv : environment.Holds) (hlimits : after.SameLimits console) (hsub : faults ⊆ others)
    (hwhole : ∀ result, complete result → whole result) (index : Nat) :
    Safe console others whole
      { later with notices := .executed index environment :: later.notices } := by
  refine ⟨?_, ?_, ?_, ?_⟩
  · intro place stored hmem
    rcases List.mem_cons.mp hmem with heq | hmem
    · cases heq
      exact henv
    · exact hlater.stored place stored hmem
  · intro fault hmem
    rcases List.mem_cons.mp hmem with heq | hmem
    · cases heq
    · exact (hlater.reported fault hmem).mono hlimits hsub
  · intro fault houtcome
    exact (hlater.failed fault houtcome).mono hlimits hsub
  · intro result houtcome
    exact hwhole result (hlater.completed result houtcome)

/-- What ends an execution of the statements after the first one ends one of all statements. -/
theorem EndsWith.cons {text text' result : Text} {statement : Stmt} {rest : List Stmt}
    (hfirst : EndsWith text [statement] text') (hrest : EndsWith text' rest result) :
    EndsWith text (statement :: rest) result := by
  cases rest with
  | nil =>
    have hresult : result = text' := hrest
    rw [hresult]
    exact hfirst
  | cons next others =>
    unfold EndsWith at hrest ⊢
    rw [List.getLast?_cons_cons]
    rw [List.getLast?_cons] at hrest ⊢
    generalize others.getLast?.getD next = last at hrest ⊢
    cases last <;> exact hrest

/-- Where all variables hold values, executing well-formed statements is safe. -/
theorem statementsFrom_safe {statements : List Stmt}
    (hstatements : ∀ statement ∈ statements, statement.WellFormed) {environment : Environment}
    (henv : environment.Holds) (index : Nat) (console : Console) (text : Text) :
    (statementsFrom index environment console text statements).Safe console
      (statements.flatMap Stmt.possibleFaults) (EndsWith text statements) := by
  fun_induction statementsFrom index environment console text statements with
  | case1 index environment console text =>
    refine .of_no_notice (fun fault houtcome => ?_) (fun result houtcome => ?_)
    · cases houtcome
    · cases houtcome
      rfl
  | case2 index environment console text statement rest hcancelled =>
    refine .of_no_notice (fun fault houtcome => ?_) (fun result houtcome => ?_)
    · cases houtcome
      exact Console.cancelAfter_of_cancelled hcancelled
    · cases houtcome
  | case3 index environment console text statement rest hcancelled fault after hexecute =>
    have hsafe := (hstatements statement List.mem_cons_self).safeIn henv console.checked
    have hfault := hsafe.fault fault after hexecute
    refine .of_failure (hfault.mono console.sameLimits_checked ?_)
    rw [List.flatMap_cons]
    exact List.subset_append_left _ _
  | case4 index environment console text statement rest hcancelled effect after hexecute later ih =>
    have hsafe := (hstatements statement List.mem_cons_self).safeIn henv console.checked
    obtain ⟨hvalue, hstored, hlimits⟩ := hsafe.effect effect after hexecute
    have hlater := ih (fun other hmem => hstatements other (List.mem_cons_of_mem _ hmem)) hstored
    have hfirst := endsWith_resultText henv hsafe hexecute text
    -- A check does not change the limits, so they are those of the console before it.
    have hkept : after.SameLimits console := hlimits
    refine hlater.after_statement hstored hkept ?_ (fun result => hfirst.cons) index
    rw [List.flatMap_cons]
    exact List.subset_append_right _ _

/-- Executing a well-formed program is safe. -/
theorem program_safe {statements : List Stmt}
    (hstatements : ∀ statement ∈ statements, statement.WellFormed) (console : Console) :
    (program console statements).Safe console (statements.flatMap Stmt.possibleFaults)
      (EndsWith [] statements) :=
  statementsFrom_safe hstatements Environment.holds_empty 0 console []

/-- Evaluating a well-formed expression is safe and, if complete, ends with a value. -/
theorem expression_safe {tree : Expr} (htree : tree.WellFormed) (console : Console) :
    (expression console tree).Safe console tree.possibleFaults (fun value => value.isSome) := by
  have hyields := htree.eval_yields Environment.holds_empty
  unfold expression
  split
  · rename_i hcancelled
    refine .of_no_notice (fun fault houtcome => ?_) (fun result houtcome => ?_)
    · cases houtcome
      exact Console.cancelAfter_of_cancelled hcancelled
    · cases houtcome
  · split
    · rename_i fault heval
      rw [heval] at hyields
      exact .of_failure ⟨hyields, Expr.possibleFaults_cause hyields⟩
    · rename_i value heval
      rw [heval] at hyields
      refine .of_no_notice (fun fault houtcome => ?_) (fun result houtcome => ?_)
      · cases houtcome
      · cases houtcome
        exact hyields

end Execution

end Lox
