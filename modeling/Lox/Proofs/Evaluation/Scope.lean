import Lox.Proofs.Evaluation.Undisturbed
import Mathlib.Data.List.Induction

/-!
# What variables mean

A call begins without variables, whatever the calls before it left. A declaration that is executed
binds its name to what its initializer evaluated to with the variables so far; nothing else binds a
name, and a statement that fails ends the call. So a name that is read means the last declaration of
this name among the statements that the call has executed, and nothing if there is none. Wherever
the name stands in the next statement, it can be replaced by that value.
-/

namespace Lox

/-- The first binding of a name counts. -/
theorem Binding.lookup_cons (name : Text) (binding : Binding) (rest : List Binding) :
    List.lookup name (binding :: rest) =
      if name = binding.1 then some binding.2 else rest.lookup name := by
  obtain ⟨bound, value⟩ := binding
  rw [List.lookup_cons]
  by_cases hname : name = bound
  · rw [if_pos hname, beq_iff_eq.mpr hname]
  · rw [if_neg hname, beq_false_of_ne hname]

/-- A name is bound to the last value it was given, and other names are left alone. -/
theorem Binding.lookup_insert (name other : Text) (value : Option Value)
    (bindings : List Binding) :
    (insert name value bindings).lookup other =
      if other = name then some value else bindings.lookup other := by
  fun_induction insert name value bindings with
  | case1 => exact lookup_cons other _ []
  | case2 binding rest hlt => exact lookup_cons other _ _
  | case3 binding rest hlt hname =>
    rw [lookup_cons, lookup_cons, ← hname]
    split <;> rfl
  | case4 binding rest hlt hname ih =>
    rw [lookup_cons, lookup_cons, ih]
    by_cases hbound : other = binding.1
    · rw [if_pos hbound, if_neg (hbound ▸ Ne.symm hname), if_pos hbound]
    · rw [if_neg hbound, if_neg hbound]

/-- So it is in an environment. -/
theorem Environment.get?_define (environment : Environment) (name other : Text)
    (value : Option Value) :
    (environment.define name value).get? other =
      if other = name then some value else environment.get? other :=
  Binding.lookup_insert name other value environment.bindings

namespace Environment

variable {environment : Environment} {name : Token}

/-- A name is read if it is bound. -/
theorem read_eq_ok_iff {value : Option Value} :
    environment.read name = .ok value ↔ environment.get? name.lexeme = some value := by
  unfold read
  cases environment.get? name.lexeme <;> simp

/-- Reading a name that is not bound fails and names it. -/
theorem read_eq_error_iff {fault : RuntimeFault} :
    environment.read name = .error fault ↔
      environment.get? name.lexeme = none ∧
        fault = ⟨name, .undefinedVariable (some name.lexeme)⟩ := by
  unfold read
  cases environment.get? name.lexeme <;> simp [eq_comm]

end Environment

/-- The expression with values in place of the names that stand for them. -/
def Expr.replacing (meaning : Text → Option (Option Value)) : Expr → Expr
  | literal value => literal value
  | grouping inner => grouping (inner.replacing meaning)
  | unary operator operand => unary operator (operand.replacing meaning)
  | binary left operator right =>
    binary (left.replacing meaning) operator (right.replacing meaning)
  | reference name =>
    match meaning name.lexeme with
    | some value => literal value
    | none => reference name

/-- An expression evaluates to the same with values in place of the names that are bound to them,
also where only names are bound that were bound before. -/
theorem Expr.eval_replacing {environment other : Environment}
    (h : ∀ name, environment.get? name = none → other.get? name = none) (tree : Expr) :
    (tree.replacing environment.get?).eval other = tree.eval environment := by
  induction tree with
  | literal value => rfl
  | grouping inner ih => exact ih
  | unary operator operand ih => rw [replacing, eval, eval, ih]
  | binary left operator right ihLeft ihRight => rw [replacing, eval, eval, ihLeft, ihRight]
  | reference name =>
    rw [replacing, eval, Environment.read]
    cases hbound : environment.get? name.lexeme with
    | some value => rfl
    | none =>
      change other.read name = _
      rw [Environment.read, h name.lexeme hbound]

/-- The statement with values in place of the names that stand for them. -/
def Stmt.replacing (meaning : Text → Option (Option Value)) : Stmt → Stmt
  | expression value => expression (value.replacing meaning)
  | print value => print (value.replacing meaning)
  | declaration name initializer => declaration name (initializer.map (Expr.replacing meaning))

/-- A statement does the same with values in place of the names that are bound to them. -/
theorem Stmt.execute_replacing (environment : Environment) (console : Console) (statement : Stmt) :
    (statement.replacing environment.get?).execute environment console =
      statement.execute environment console := by
  have heval : ∀ tree : Expr,
      (tree.replacing environment.get?).eval environment = tree.eval environment :=
    Expr.eval_replacing fun name hnone => hnone
  cases statement with
  | expression value => simp only [replacing, execute, heval]
  | print value => simp only [replacing, execute, heval]
  | declaration name initializer =>
    cases initializer with
    | none => rfl
    | some value => simp only [replacing, Option.map_some, execute, heval]

/-- Statements do the same with values in place of the names in the first of them. -/
theorem Execution.statementsFrom_replacing (index : Nat) (environment : Environment)
    (console : Console) (text : Text) (statement : Stmt) (rest : List Stmt) :
    statementsFrom index environment console text
        (statement.replacing environment.get? :: rest) =
      statementsFrom index environment console text (statement :: rest) := by
  have htext : ∀ value,
      (statement.replacing environment.get?).resultText value = statement.resultText value :=
    fun value => by cases statement <;> cases value <;> rfl
  simp only [statementsFrom, Stmt.execute_replacing, htext]

/-- A list with one more element splits at that element or before it. -/
theorem concat_eq_append_cons {α : Type} {before earlier later : List α} {last item : α}
    (h : before ++ [last] = earlier ++ item :: later) :
    (before = earlier ∧ last = item ∧ later = []) ∨
      ∃ others, later = others ++ [last] ∧ before = earlier ++ item :: others := by
  rcases List.eq_nil_or_concat later with rfl | ⟨others, final, rfl⟩
  · obtain ⟨hbefore, hlast⟩ := List.append_inj' h rfl
    exact .inl ⟨hbefore, (List.cons.inj hlast).1, rfl⟩
  · rw [List.concat_eq_append, ← List.cons_append, ← List.append_assoc] at h
    obtain ⟨hbefore, hlast⟩ := List.append_inj' h rfl
    exact .inr ⟨others, by rw [List.concat_eq_append, hlast], hbefore⟩

/-- The name that a statement declares. -/
def Stmt.declared? : Stmt → Option Text
  | declaration name _ => some name.lexeme
  | _ => none

/-- What a declaration gives its name: nil, if it has no initializer. -/
def Stmt.given (environment : Environment) (initializer : Option Expr) :
    Except RuntimeFault (Option Value) :=
  (initializer.getD (.literal (some .nil))).eval environment

/-- What a statement that is executed does to the variables. -/
theorem Stmt.environment_of_execute {environment : Environment} {console after : Console}
    {statement : Stmt} {effect : Effect}
    (h : statement.execute environment console = (.ok effect, after)) :
    (statement.declared? = none ∧ effect.environment = environment) ∨
      ∃ name initializer value, statement = .declaration name initializer ∧
        given environment initializer = .ok value ∧
        effect.environment = environment.define name.lexeme value := by
  have hexecutes := statement.executes_execute environment console
  rw [h] at hexecutes
  cases hexecutes with
  | evaluated heval => exact .inl ⟨rfl, rfl⟩
  | printed heval hwrite => exact .inl ⟨rfl, rfl⟩
  | declared name => exact .inr ⟨name, none, some .nil, rfl, rfl, rfl⟩
  | defined heval => exact .inr ⟨_, _, _, rfl, heval, rfl⟩

namespace Interpreter

variable (interpreter : Interpreter) (console : Console)

/-- The variables that a call has after statements that it executed. -/
def scope (before : List Stmt) : Environment :=
  (interpreter.interpret console before).2.environment

/-- The name is declared among the statements, and the last of its declarations gave it this
value. -/
def LastDeclared (before : List Stmt) (name : Text) (value : Option Value) : Prop :=
  ∃ earlier token initializer later,
    before = earlier ++ .declaration token initializer :: later ∧ token.lexeme = name ∧
      (∀ statement ∈ later, statement.declared? ≠ some name) ∧
      Stmt.given (interpreter.scope console earlier) initializer = .ok value

/-- The statements are executed to the end, with this text, and the call is not cancelled after
them. -/
def Completes (before : List Stmt) (text : Text) : Prop :=
  (interpreter.interpret console before).1.outcome = .ok text ∧
    (interpreter.interpret console before).1.console.cancelled = false

variable {interpreter : Interpreter} {console : Console} {before : List Stmt} {statement : Stmt}
  {name : Text} {value : Option Value}

/-- Another statement after the last declaration changes nothing. -/
theorem lastDeclared_concat_of_ne (h : statement.declared? ≠ some name) :
    interpreter.LastDeclared console (before ++ [statement]) name value ↔
      interpreter.LastDeclared console before name value := by
  constructor
  · rintro ⟨earlier, token, initializer, later, hsplit, hname, hlater, hvalue⟩
    rcases concat_eq_append_cons hsplit with ⟨-, rfl, -⟩ | ⟨others, rfl, hbefore⟩
    · exact absurd (congrArg some hname) h
    · rw [List.forall_mem_append] at hlater
      exact ⟨earlier, token, initializer, others, hbefore, hname, hlater.1, hvalue⟩
  · rintro ⟨earlier, token, initializer, later, rfl, hname, hlater, hvalue⟩
    refine ⟨earlier, token, initializer, later ++ [statement], by simp, hname, ?_, hvalue⟩
    rw [List.forall_mem_append, List.forall_mem_singleton]
    exact ⟨hlater, h⟩

/-- A declaration at the end is the last one. -/
theorem lastDeclared_concat_self (token : Token) (initializer : Option Expr) :
    interpreter.LastDeclared console (before ++ [.declaration token initializer]) token.lexeme
        value ↔
      Stmt.given (interpreter.scope console before) initializer = .ok value := by
  constructor
  · rintro ⟨earlier, other, given, later, hsplit, -, hlater, hvalue⟩
    rcases concat_eq_append_cons hsplit with ⟨rfl, hlast, -⟩ | ⟨others, rfl, -⟩
    · cases hlast
      exact hvalue
    · rw [List.forall_mem_append, List.forall_mem_singleton] at hlater
      exact absurd rfl hlater.2
  · intro h
    exact ⟨before, token, initializer, [], rfl, rfl, List.forall_mem_nil _, h⟩

/-- What is executed of the statements after others that were executed. -/
def later (interpreter : Interpreter) (console : Console) (before : List Stmt) (text : Text)
    (rest : List Stmt) : Execution Text :=
  Execution.statementsFrom before.length (interpreter.scope console before)
    (interpreter.interpret console before).1.console text rest

/-- A call goes on with the variables and the console that the statements before left. -/
theorem interpret_append_of_ok {text : Text}
    (h : (interpreter.interpret console before).1.outcome = .ok text) (rest : List Stmt) :
    (interpreter.interpret console (before ++ rest)).1 =
      { interpreter.later console before text rest with
        notices := (interpreter.interpret console before).1.notices ++
          (interpreter.later console before text rest).notices } := by
  have happend := Execution.statementsFrom_append_of_ok h rest
  rw [Nat.zero_add] at happend
  exact happend

/-- A call that ended early does not go on. -/
theorem interpret_append_of_error {fault : RunFault}
    (h : (interpreter.interpret console before).1.outcome = .error fault) (rest : List Stmt) :
    (interpreter.interpret console (before ++ rest)).1 =
      (interpreter.interpret console before).1 :=
  Execution.statementsFrom_append_of_error h rest

/-- The variables after more statements are what those left of the variables before. -/
theorem scope_append_of_ok {text : Text}
    (h : (interpreter.interpret console before).1.outcome = .ok text) (rest : List Stmt) :
    interpreter.scope console (before ++ rest) =
      (interpreter.later console before text rest).environmentAfter
        (interpreter.scope console before) := by
  have hleft : interpreter.scope console (before ++ rest) =
      (interpreter.interpret console (before ++ rest)).1.environmentAfter .empty := rfl
  rw [hleft, interpret_append_of_ok h, Execution.environmentAfter, List.foldl_append]
  rfl

/-- A call that executes one more statement has executed the ones before, and this one with the
variables that they left. -/
theorem interpret_concat_ok {text : Text}
    (h : (interpreter.interpret console (before ++ [statement])).1.outcome = .ok text) :
    (∃ first, (interpreter.interpret console before).1.outcome = .ok first) ∧
      ∃ console' after effect,
        statement.execute (interpreter.scope console before) console' = (.ok effect, after) ∧
          interpreter.scope console (before ++ [statement]) = effect.environment := by
  cases hfirst : (interpreter.interpret console before).1.outcome with
  | error fault =>
    rw [interpret_append_of_error hfirst, hfirst] at h
    cases h
  | ok first =>
    refine ⟨⟨first, rfl⟩, (interpreter.interpret console before).1.console.checked, ?_⟩
    have houtcome : (interpreter.later console before first [statement]).outcome = .ok text := by
      rw [interpret_append_of_ok hfirst] at h
      exact h
    rw [scope_append_of_ok hfirst]
    unfold later at houtcome ⊢
    cases hgoes : (interpreter.interpret console before).1.console.cancelled with
    | true =>
      rw [Execution.statementsFrom_cons_of_cancelled hgoes] at houtcome
      cases houtcome
    | false =>
      cases hexecute : statement.execute (interpreter.scope console before)
          (interpreter.interpret console before).1.console.checked with
      | mk result after =>
        cases result with
        | error fault =>
          rw [Execution.statementsFrom_cons_of_error hgoes hexecute] at houtcome
          cases houtcome
        | ok effect =>
          rw [Execution.statementsFrom_cons_of_ok hgoes hexecute]
          exact ⟨after, effect, rfl, rfl⟩

/-- After statements that were executed, a name is bound to what its last declaration gave it. -/
theorem scope_get?_eq_some_iff {text : Text}
    (h : (interpreter.interpret console before).1.outcome = .ok text) :
    (interpreter.scope console before).get? name = some value ↔
      interpreter.LastDeclared console before name value := by
  -- The last statement declares the name, or it leaves the name and its last declaration alone.
  induction before using List.reverseRecOn generalizing text value with
  | nil =>
    constructor
    · intro hbound
      cases hbound
    · rintro ⟨earlier, token, initializer, later, hsplit, -⟩
      exact absurd hsplit.symm (by simp)
  | append_singleton before statement ih =>
    obtain ⟨⟨first, hfirst⟩, console', after, effect, hexecute, hscope⟩ := interpret_concat_ok h
    rw [hscope]
    rcases Stmt.environment_of_execute hexecute with
      ⟨hnone, hsame⟩ | ⟨token, initializer, given, rfl, hgiven, hdefined⟩
    · rw [hsame, ih hfirst, lastDeclared_concat_of_ne (by rw [hnone]; nofun)]
    · rw [hdefined, Environment.get?_define]
      by_cases hname : name = token.lexeme
      · rw [if_pos hname, hname, lastDeclared_concat_self, hgiven, Option.some.injEq,
          Except.ok.injEq]
      · have hother : (Stmt.declaration token initializer).declared? ≠ some name :=
          fun heq => hname (Option.some.inj heq).symm
        rw [if_neg hname, ih hfirst, lastDeclared_concat_of_ne hother]

/-- After statements that were executed, a name is not bound exactly if none of them declares it. -/
theorem scope_get?_eq_none_iff {text : Text}
    (h : (interpreter.interpret console before).1.outcome = .ok text) :
    (interpreter.scope console before).get? name = none ↔
      ∀ statement ∈ before, statement.declared? ≠ some name := by
  induction before using List.reverseRecOn generalizing text with
  | nil => exact ⟨fun _ => List.forall_mem_nil _, fun _ => rfl⟩
  | append_singleton before statement ih =>
    obtain ⟨⟨first, hfirst⟩, console', after, effect, hexecute, hscope⟩ := interpret_concat_ok h
    rw [hscope, List.forall_mem_append, List.forall_mem_singleton]
    rcases Stmt.environment_of_execute hexecute with
      ⟨hnone, hsame⟩ | ⟨token, initializer, given, rfl, hgiven, hdefined⟩
    · rw [hsame, ih hfirst, hnone]
      simp
    · rw [hdefined, Environment.get?_define]
      by_cases hname : name = token.lexeme
      · simp [hname, Stmt.declared?]
      · rw [if_neg hname, ih hfirst]
        simp [Stmt.declared?, Ne.symm hname]

/-- A call that does not come to a statement ends as it does after the statements before it. -/
theorem interpret_of_not_completes (h : ¬ ∃ text, interpreter.Completes console before text)
    (statement : Stmt) (rest : List Stmt) :
    ∃ fault, (interpreter.interpret console (before ++ statement :: rest)).1 =
      { (interpreter.interpret console before).1 with outcome := .error fault } := by
  cases hfirst : (interpreter.interpret console before).1.outcome with
  | error fault =>
    refine ⟨fault, ?_⟩
    rw [interpret_append_of_error hfirst, ← hfirst]
  | ok text =>
    cases hcancelled : (interpreter.interpret console before).1.console.cancelled with
    | false => exact absurd ⟨text, hfirst, hcancelled⟩ h
    | true =>
      refine ⟨.cancelled, ?_⟩
      rw [interpret_append_of_ok hfirst, later,
        Execution.statementsFrom_cons_of_cancelled hcancelled, List.append_nil]

/-- The fault of reading a name that nothing is bound to. -/
def undefined (name : Token) : RuntimeFault := ⟨name, .undefinedVariable (some name.lexeme)⟩

/-- A call does the same with values in place of the names in a statement that it comes to. -/
theorem interpret_replacing {text : Text}
    (h : (interpreter.interpret console before).1.outcome = .ok text) (statement : Stmt)
    (rest : List Stmt) :
    (interpreter.interpret console
        (before ++ statement.replacing (interpreter.scope console before).get? :: rest)).1 =
      (interpreter.interpret console (before ++ statement :: rest)).1 := by
  rw [interpret_append_of_ok h, interpret_append_of_ok h, later, later,
    Execution.statementsFrom_replacing]

/-- Variables mean the last declaration before, of the same call, and nothing else. Whatever an
interpreter was used for, a call comes to a statement once the statements before it are executed,
and executes it with the variables that they left. There a name evaluates to the value that the last
of its declarations among those statements gave it, or it is undefined if there is none. So every
expression evaluates as it does without variables once the names are replaced by these values, and
the call does the same if they are replaced in the statement. A call that does not come to a
statement ends before. Where an expression is evaluated, all names are undefined. So neither kind of
call depends on the calls before it. -/
theorem reads_last_declaration (interpreter : Interpreter) (console : Console)
    (before : List Stmt) (statement : Stmt) (rest : List Stmt) :
    (∀ text, interpreter.Completes console before text →
      (interpreter.interpret console (before ++ statement :: rest)).1 =
          { interpreter.later console before text (statement :: rest) with
            notices := (interpreter.interpret console before).1.notices ++
              (interpreter.later console before text (statement :: rest)).notices } ∧
        (∀ name value, (Expr.reference name).eval (interpreter.scope console before) = .ok value ↔
          interpreter.LastDeclared console before name.lexeme value) ∧
        (∀ name fault,
          (Expr.reference name).eval (interpreter.scope console before) = .error fault ↔
            (∀ other ∈ before, other.declared? ≠ some name.lexeme) ∧ fault = undefined name) ∧
        ∃ meaning : Text → Option (Option Value),
          (∀ name value, meaning name = some value ↔
            interpreter.LastDeclared console before name value) ∧
          (∀ tree : Expr, tree.eval (interpreter.scope console before) =
            (tree.replacing meaning).eval .empty) ∧
          (interpreter.interpret console (before ++ statement :: rest)).1 =
            (interpreter.interpret console (before ++ statement.replacing meaning :: rest)).1) ∧
    ((¬ ∃ text, interpreter.Completes console before text) →
      ∃ fault, (interpreter.interpret console (before ++ statement :: rest)).1 =
        { (interpreter.interpret console before).1 with outcome := .error fault }) ∧
    (console.cancelled = false → ∃ environment : Environment,
      (∀ name, (Expr.reference name).eval environment = .error (undefined name)) ∧
      ∀ tree, (interpreter.evaluate console tree).1 =
        match tree.eval environment with
        | .error fault => ⟨.error (.runtime fault), [.failed (.runtime fault)], console.checked⟩
        | .ok value => ⟨.ok value, [], console.checked⟩) ∧
    ∀ other : Interpreter,
      other.interpret console (before ++ statement :: rest) =
          interpreter.interpret console (before ++ statement :: rest) ∧
        ∀ tree, (other.evaluate console tree).1 = (interpreter.evaluate console tree).1 := by
  refine ⟨?_, fun h => interpret_of_not_completes h statement rest, ?_, fun other => ⟨rfl, ?_⟩⟩
  · rintro text ⟨hexecuted, -⟩
    refine ⟨interpret_append_of_ok hexecuted _, fun name value => ?_, fun name fault => ?_,
      (interpreter.scope console before).get?, fun name value => ?_, fun tree => ?_, ?_⟩
    · rw [Expr.eval, Environment.read_eq_ok_iff, scope_get?_eq_some_iff hexecuted]
    · rw [Expr.eval, Environment.read_eq_error_iff, scope_get?_eq_none_iff hexecuted, undefined]
    · exact scope_get?_eq_some_iff hexecuted
    · exact (Expr.eval_replacing (fun name _ => rfl) tree).symm
    · exact (interpret_replacing hexecuted statement rest).symm
  · intro hgoes
    refine ⟨.empty, fun name => rfl, fun tree => ?_⟩
    rw [evaluate_fst, Execution.expression, hgoes]
    rfl
  · intro tree
    rw [evaluate_fst, evaluate_fst]

/-- The name of a variable. -/
def nameToken : Token := ⟨.identifier, ['x'], .none, 1⟩

/-- A variable with a string, and once more with that string and another one behind it. -/
def redeclaration : List Stmt :=
  [.declaration nameToken (some (.literal (some (.string ['a'])))),
    .declaration nameToken
      (some (.binary (.reference nameToken) ⟨.plus, ['+'], .none, 1⟩
        (.literal (some (.string ['b'])))))]

/-- An interpreter that an earlier call left with a value of the variable. -/
def usedInterpreter : Interpreter := ⟨Environment.empty.define ['x'] (some (.bool false))⟩

/-- The second declaration reads the value of the first and counts from then on. An expression does
not see the value that an earlier call left. -/
theorem reads_last_declaration_redeclaration :
    usedInterpreter.Completes {} (redeclaration.take 1) [] ∧
      usedInterpreter.LastDeclared {} (redeclaration.take 1) ['x'] (some (.string ['a'])) ∧
      usedInterpreter.Completes {} redeclaration [] ∧
      (Expr.reference nameToken).eval (usedInterpreter.scope {} redeclaration) =
        .ok (some (.string ['a', 'b'])) ∧
      usedInterpreter.LastDeclared {} redeclaration ['x'] (some (.string ['a', 'b'])) ∧
      ({} : Console).cancelled = false ∧
      (usedInterpreter.evaluate {} (.reference nameToken)).1.outcome =
        .error (.runtime (undefined nameToken)) := by
  have hfirst : usedInterpreter.Completes {} (redeclaration.take 1) [] := ⟨rfl, rfl⟩
  have hboth : usedInterpreter.Completes {} redeclaration [] := ⟨rfl, rfl⟩
  have hreads : (Expr.reference nameToken).eval (usedInterpreter.scope {} redeclaration) =
      .ok (some (.string ['a', 'b'])) := rfl
  have hbefore := (reads_last_declaration usedInterpreter {} (redeclaration.take 1)
    (.print (.reference nameToken)) []).1 [] hfirst
  obtain ⟨hcomes, -, hevaluates, -⟩ := reads_last_declaration usedInterpreter {} redeclaration
    (.print (.reference nameToken)) []
  obtain ⟨environment, hundefined, hevaluate⟩ := hevaluates rfl
  refine ⟨hfirst, (hbefore.2.1 nameToken _).mp rfl, hboth, hreads,
    ((hcomes [] hboth).2.1 nameToken _).mp hreads, rfl, ?_⟩
  rw [hevaluate, hundefined]

end Interpreter

end Lox
