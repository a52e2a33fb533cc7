import Lox.Evaluation.Interpreter
import Lox.Proofs.Evaluation.Statement

/-!
# Undisturbed runs

A statement writes one line at most, and apart from that line it does the same on every console. So
a program does the same on every console that takes its writes and cancels it before none of its
statements: it goes as it does undisturbed, on a console without limits. Statements are executed one
after the other, so a program goes on where its first statements ended.
-/

namespace Lox

namespace Console

/-- The console after further writes that it took. -/
def adding (console : Console) (texts : List Text) : Console :=
  { console with writes := console.writes ++ texts }

/-- Nothing more was written. -/
theorem adding_nil (console : Console) : console.adding [] = console := by
  rw [adding, List.append_nil]

/-- Writes are taken one after the other. -/
theorem adding_append (console : Console) (texts more : List Text) :
    console.adding (texts ++ more) = (console.adding texts).adding more := by
  rw [adding, adding, adding, List.append_assoc]

/-- The console takes the given number of further writes. -/
def Takes (console : Console) (count : Nat) : Prop :=
  ∀ limit ∈ console.failAfter, console.writes.length + count ≤ limit

/-- A console that takes a number of further writes takes fewer of them. -/
theorem Takes.mono {console : Console} {count fewer : Nat} (h : console.Takes count)
    (hle : fewer ≤ count) : console.Takes fewer := by
  intro limit hlimit
  have hcount := h limit hlimit
  omega

/-- The console does not fail as long as it takes one more write. -/
theorem Takes.fails_eq {console : Console} {count : Nat} (h : console.Takes count)
    (hcount : count ≠ 0) : console.fails = false := by
  unfold fails
  cases hlimit : console.failAfter with
  | none => rfl
  | some limit =>
    have hle := h limit hlimit
    exact decide_eq_false (by omega)

/-- The console takes the writes that are left after some of those it takes. -/
theorem Takes.adding {console : Console} {texts more : List Text}
    (h : console.Takes (texts ++ more).length) : (console.adding texts).Takes more.length := by
  intro limit hlimit
  have hle := h limit hlimit
  simp only [Console.adding, List.length_append] at hle ⊢
  omega

end Console

namespace Stmt

/-- A statement whose expression has a fault ends with it, whatever the console. -/
theorem execute_of_error {environment : Environment} {statement : Stmt} {tree : Expr}
    {fault : RuntimeFault} (htree : statement.expression? = some tree)
    (heval : tree.eval environment = .error fault) (console : Console) :
    statement.execute environment console = (.error (.runtime fault), console) := by
  cases statement with
  | expression value =>
    cases htree
    simp only [execute, heval]
  | print value =>
    cases htree
    simp only [execute, heval]
  | declaration name initializer =>
    cases htree
    simp only [execute, heval]

/-- A statement does the same on every console, or it writes one line: then it ends well on the
consoles that take the line, and with a failed write on the others. -/
theorem quiet_or_writes (environment : Environment) (statement : Stmt) :
    (∃ result, ∀ console, statement.execute environment console = (result, console)) ∨
      ∃ line effect,
        (∀ console : Console, console.fails = false →
          statement.execute environment console = (.ok effect, console.adding [line])) ∧
        ∀ console : Console, console.fails = true →
          statement.execute environment console = (.error .writeFailed, console) := by
  cases statement with
  | expression tree =>
    left
    cases heval : tree.eval environment with
    | error fault => exact ⟨_, execute_of_error rfl heval⟩
    | ok value => exact ⟨.ok ⟨value, environment⟩, fun console => by simp only [execute, heval]⟩
  | print tree =>
    cases heval : tree.eval environment with
    | error fault => exact .inl ⟨_, execute_of_error rfl heval⟩
    | ok value =>
      right
      refine ⟨Text.line (Value.textOf value), ⟨some .nil, environment⟩, ?_, ?_⟩
      · intro console hfails
        simp only [execute, heval, Console.write?, hfails]
        rfl
      · intro console hfails
        simp only [execute, heval, Console.write?, hfails, if_true]
  | declaration name initializer =>
    left
    cases initializer with
    | none => exact ⟨_, fun console => rfl⟩
    | some tree =>
      cases heval : tree.eval environment with
      | error fault => exact ⟨_, execute_of_error rfl heval⟩
      | ok value =>
        exact ⟨.ok ⟨some .nil, environment.define name.lexeme value⟩,
          fun console => by simp only [execute, heval]⟩

/-- What was written stays written. -/
theorem execute_writes {environment : Environment} {console after : Console} {statement : Stmt}
    {result : Except RunFault Effect}
    (h : statement.execute environment console = (result, after)) :
    console.writes <+: after.writes := by
  rcases statement.quiet_or_writes environment with
    ⟨other, hquiet⟩ | ⟨line, effect, htaken, hfailed⟩
  · cases (hquiet console).symm.trans h
    exact List.prefix_refl _
  · cases hfails : console.fails with
    | false =>
      cases (htaken console hfails).symm.trans h
      exact List.prefix_append _ _
    | true =>
      cases (hfailed console hfails).symm.trans h
      exact List.prefix_refl _

/-- What a statement ends with where its writes are taken. -/
def result (environment : Environment) (statement : Stmt) : Except RunFault Effect :=
  (statement.execute environment {}).1

/-- What a statement writes where its writes are taken. -/
def written (environment : Environment) (statement : Stmt) : List Text :=
  (statement.execute environment {}).2.writes

/-- A statement writes nothing, or it writes one line and ends well. -/
theorem written_eq_nil_or (environment : Environment) (statement : Stmt) :
    statement.written environment = [] ∨ ∃ line effect,
      statement.written environment = [line] ∧ statement.result environment = .ok effect := by
  rcases statement.quiet_or_writes environment with ⟨result, hquiet⟩ | ⟨line, effect, htaken, -⟩
  · left
    rw [written, hquiet]
  · right
    refine ⟨line, effect, ?_, ?_⟩
    · rw [written, htaken {} rfl]
      rfl
    · rw [result, htaken {} rfl]

/-- On a console that takes its write a statement does what it does undisturbed. -/
theorem execute_of_takes {console : Console} {environment : Environment} {statement : Stmt}
    (h : console.Takes (statement.written environment).length) :
    statement.execute environment console =
      (statement.result environment, console.adding (statement.written environment)) := by
  rcases statement.quiet_or_writes environment with ⟨result, hquiet⟩ | ⟨line, effect, htaken, -⟩
  · rw [Stmt.result, written, hquiet, hquiet, console.adding_nil]
  · have hfails : console.fails = false := by
      rw [written, htaken {} rfl] at h
      exact h.fails_eq Nat.one_ne_zero
    rw [Stmt.result, written, htaken console hfails, htaken {} rfl]
    rfl

/-- On a console that fails, a statement that writes ends with that. -/
theorem execute_of_fails {console : Console} {environment : Environment} {statement : Stmt}
    (hfails : console.fails = true) (hwrites : statement.written environment ≠ []) :
    statement.execute environment console = (.error .writeFailed, console) := by
  rcases statement.quiet_or_writes environment with ⟨result, hquiet⟩ | ⟨line, effect, -, hfailed⟩
  · rw [written, hquiet] at hwrites
    exact absurd rfl hwrites
  · exact hfailed console hfails

end Stmt

namespace Execution

/-- Statements that are not cancelled go on after the first one. -/
theorem statementsFrom_cons_of_ok {environment : Environment} {console after : Console}
    {statement : Stmt} {effect : Effect} (hgoes : console.cancelled = false)
    (hexecute : statement.execute environment console.checked = (.ok effect, after)) (index : Nat)
    (text : Text) (rest : List Stmt) :
    let later := statementsFrom (index + 1) effect.environment after
      (statement.resultText effect.value) rest
    statementsFrom index environment console text (statement :: rest) =
      { later with notices := .executed index effect.environment :: later.notices } := by
  simp only [statementsFrom, hgoes, hexecute]
  rfl

/-- Statements that are not cancelled end with the first one if that fails. -/
theorem statementsFrom_cons_of_error {environment : Environment} {console after : Console}
    {statement : Stmt} {fault : RunFault} (hgoes : console.cancelled = false)
    (hexecute : statement.execute environment console.checked = (.error fault, after)) (index : Nat)
    (text : Text) (rest : List Stmt) :
    statementsFrom index environment console text (statement :: rest) =
      ⟨.error fault, [.failed fault], after⟩ := by
  simp only [statementsFrom, hgoes, hexecute]
  rfl

/-- Statements that are cancelled are not executed. -/
theorem statementsFrom_cons_of_cancelled {console : Console} (hcancelled : console.cancelled = true)
    (index : Nat) (environment : Environment) (text : Text) (statement : Stmt) (rest : List Stmt) :
    statementsFrom index environment console text (statement :: rest) =
      ⟨.error .cancelled, [], console⟩ := by
  simp only [statementsFrom, hcancelled, if_true]

/-- What was written stays written. -/
theorem statementsFrom_writes (index : Nat) (environment : Environment) (console : Console)
    (text : Text) (statements : List Stmt) :
    console.writes <+:
      (statementsFrom index environment console text statements).console.writes := by
  fun_induction statementsFrom index environment console text statements with
  | case1 => exact List.prefix_refl _
  | case2 => exact List.prefix_refl _
  | case3 index environment console text statement rest hgoes fault after hexecute =>
    have hkept : console.checked.writes <+: after.writes := Stmt.execute_writes hexecute
    exact hkept
  | case4 index environment console text statement rest hgoes effect after hexecute later ih =>
    have hkept : console.checked.writes <+: after.writes := Stmt.execute_writes hexecute
    exact hkept.trans ih

/-- A console that takes all writes of the undisturbed statements and cancels before none of them,
without any patience, does not disturb them. -/
theorem statementsFrom_of_takes {index : Nat} {environment : Environment} {text : Text}
    {base : List Text} {statements : List Stmt} {console : Console}
    (hpatience : console.patience = 0)
    (htakes : console.Takes
      (statementsFrom index environment { writes := base } text statements).console.writes.length)
    (hgoes : ∀ count < statements.length, (console.adding (statementsFrom index environment
      { writes := base } text (statements.take count)).console.writes).cancelled = false) :
    let whole := statementsFrom index environment { writes := base } text statements
    statementsFrom index environment (console.adding base) text statements =
      { whole with console := console.adding whole.console.writes } := by
  -- The writes so far are the same on both consoles, so the first statement goes the same way, and
  -- the others start with the same writes again.
  induction statements generalizing index environment text base with
  | nil => rfl
  | cons statement rest ih =>
    let written := statement.written environment
    have hfree : ({ writes := base } : Console).Takes written.length :=
      fun limit hlimit => by cases hlimit
    have hexecute : statement.execute environment ({ writes := base } : Console).checked =
        (statement.result environment, { writes := base ++ written }) :=
      Stmt.execute_of_takes hfree
    have hstart : (console.adding base).cancelled = false := hgoes 0 (Nat.zero_lt_succ _)
    have hrun : console.Takes (base ++ written).length →
        statement.execute environment (console.adding base).checked =
          (statement.result environment, console.adding (base ++ written)) := by
      intro htaken
      have hsame : (console.adding base).checked = console.adding base :=
        Console.checked_eq hpatience
      rw [hsame, Console.adding_append]
      exact Stmt.execute_of_takes htaken.adding
    cases hresult : statement.result environment with
    | error fault =>
      rw [hresult] at hexecute hrun
      have hwhole := statementsFrom_cons_of_error rfl hexecute index text rest
      rw [hwhole] at htakes ⊢
      rw [statementsFrom_cons_of_error hstart (hrun htakes)]
    | ok effect =>
      rw [hresult] at hexecute hrun
      have hwhole := statementsFrom_cons_of_ok rfl hexecute index text
      rw [hwhole rest] at htakes ⊢
      have hkept := statementsFrom_writes (index + 1) effect.environment
        { writes := base ++ written } (statement.resultText effect.value) rest
      have hlater := ih htakes fun count hcount => by
        have hnext := hgoes (count + 1) (Nat.succ_lt_succ hcount)
        rw [List.take_succ_cons, hwhole] at hnext
        exact hnext
      rw [statementsFrom_cons_of_ok hstart (hrun (htakes.mono hkept.length_le)), hlater]

/-- Statements after others that were executed start where those ended. -/
theorem statementsFrom_append_of_ok {index : Nat} {environment : Environment} {console : Console}
    {text text' : Text} {before : List Stmt}
    (h : (statementsFrom index environment console text before).outcome = .ok text')
    (rest : List Stmt) :
    let first := statementsFrom index environment console text before
    let later := statementsFrom (index + before.length) (first.environmentAfter environment)
      first.console text' rest
    statementsFrom index environment console text (before ++ rest) =
      { later with notices := first.notices ++ later.notices } := by
  fun_induction statementsFrom index environment console text before with
  | case1 index environment console text =>
    cases h
    rfl
  | case2 => cases h
  | case3 => cases h
  | case4 index environment console text statement before hgoes effect after hexecute later ih =>
    rw [List.cons_append, statementsFrom_cons_of_ok (eq_false_of_ne_true hgoes) hexecute, ih h,
      List.length_cons, Nat.add_right_comm]
    rfl

/-- Statements after others that ended early are not executed. -/
theorem statementsFrom_append_of_error {index : Nat} {environment : Environment}
    {console : Console} {text : Text} {before : List Stmt} {fault : RunFault}
    (h : (statementsFrom index environment console text before).outcome = .error fault)
    (rest : List Stmt) :
    statementsFrom index environment console text (before ++ rest) =
      statementsFrom index environment console text before := by
  fun_induction statementsFrom index environment console text before with
  | case1 => cases h
  | case2 index environment console text statement before hcancelled =>
    exact statementsFrom_cons_of_cancelled hcancelled index environment text statement _
  | case3 index environment console text statement before hgoes fault after hexecute =>
    exact statementsFrom_cons_of_error (eq_false_of_ne_true hgoes) hexecute index text _
  | case4 index environment console text statement before hgoes effect after hexecute later ih =>
    rw [List.cons_append, statementsFrom_cons_of_ok (eq_false_of_ne_true hgoes) hexecute, ih h]

/-- Statements that were all executed gave notice one by one. -/
theorem length_notices_of_ok {index : Nat} {environment : Environment} {console : Console}
    {text text' : Text} {statements : List Stmt}
    (h : (statementsFrom index environment console text statements).outcome = .ok text') :
    (statementsFrom index environment console text statements).notices.length =
      statements.length := by
  fun_induction statementsFrom index environment console text statements with
  | case1 => rfl
  | case2 => cases h
  | case3 => cases h
  | case4 index environment console text statement before hgoes effect after hexecute later ih =>
    exact congrArg Nat.succ (ih h)

/-- The undisturbed run of a program, on a console without limits. -/
def undisturbed (statements : List Stmt) : Execution Text := program {} statements

/-- What a program writes if it is not disturbed. -/
def writesOf (statements : List Stmt) : List Text := (undisturbed statements).console.writes

/-- The variables that a program leaves if it is not disturbed. -/
def environmentOf (statements : List Stmt) : Environment :=
  (undisturbed statements).environmentAfter .empty

/-- A console that takes all writes of a program and cancels it before no statement does not disturb
it. -/
theorem program_of_takes {console : Console} {statements : List Stmt}
    (hpatience : console.patience = 0) (htakes : console.Takes (writesOf statements).length)
    (hgoes : ∀ count < statements.length,
      (console.adding (writesOf (statements.take count))).cancelled = false) :
    program console statements =
      { undisturbed statements with console := console.adding (writesOf statements) } := by
  have hrun : statementsFrom 0 .empty (console.adding []) [] statements = _ :=
    statementsFrom_of_takes hpatience htakes hgoes
  rw [Console.adding_nil] at hrun
  exact hrun

/-- Nothing disturbs a program on a console without limits, whatever was written before. -/
theorem program_writes (past : List Text) (statements : List Stmt) :
    program { writes := past } statements =
      { undisturbed statements with console := { writes := past ++ writesOf statements } } :=
  program_of_takes rfl (fun limit hlimit => by cases hlimit) (fun _ _ => rfl)

/-- Statements that a console does not disturb leave it to the statements after them, with what they
wrote. -/
theorem program_append_of_takes {console : Console} {before : List Stmt} {text : Text}
    (hok : (undisturbed before).outcome = .ok text) (hpatience : console.patience = 0)
    (htakes : console.Takes (writesOf before).length)
    (hgoes : ∀ count < before.length,
      (console.adding (writesOf (before.take count))).cancelled = false) (rest : List Stmt) :
    let later := statementsFrom before.length (environmentOf before)
      (console.adding (writesOf before)) text rest
    program console (before ++ rest) =
      { later with notices := (undisturbed before).notices ++ later.notices } := by
  have hbefore : statementsFrom 0 .empty console [] before = _ :=
    program_of_takes hpatience htakes hgoes
  have houtcome : (statementsFrom 0 .empty console [] before).outcome = .ok text := by
    rw [hbefore]
    exact hok
  have hrun := statementsFrom_append_of_ok houtcome rest
  rw [hbefore, Nat.zero_add] at hrun
  exact hrun

/-- Statements after others that were executed start with the writes of those. -/
theorem undisturbed_append {before : List Stmt} {text : Text}
    (h : (undisturbed before).outcome = .ok text) (rest : List Stmt) :
    let later := statementsFrom before.length (environmentOf before)
      { writes := writesOf before } text rest
    undisturbed (before ++ rest) =
      { later with notices := (undisturbed before).notices ++ later.notices } :=
  program_append_of_takes h rfl (fun limit hlimit => by cases hlimit) (fun _ _ => rfl) rest

/-- More statements write no less. -/
theorem writesOf_append (before rest : List Stmt) :
    writesOf before <+: writesOf (before ++ rest) := by
  cases h : (undisturbed before).outcome with
  | error fault =>
    have hsame : undisturbed (before ++ rest) = undisturbed before :=
      statementsFrom_append_of_error h rest
    have hwrites : writesOf (before ++ rest) = writesOf before := by
      rw [writesOf, writesOf, hsame]
    exact hwrites ▸ List.prefix_refl _
  | ok text =>
    rw [writesOf, writesOf, undisturbed_append h]
    exact statementsFrom_writes _ _ { writes := writesOf before } _ rest

/-- The first statements of a program write no more than the first few more of them. -/
theorem writesOf_take {count more : Nat} (h : count ≤ more) (statements : List Stmt) :
    writesOf (statements.take count) <+: writesOf (statements.take more) := by
  obtain ⟨rest, hrest⟩ := List.take_prefix_take_left h (l := statements)
  rw [← hrest]
  exact writesOf_append _ rest

/-- What a single statement writes shows on the console. -/
theorem statementsFrom_singleton_console {console : Console} (hgoes : console.cancelled = false)
    (index : Nat) (environment : Environment) (text : Text) (statement : Stmt) :
    (statementsFrom index environment console text [statement]).console =
      (statement.execute environment console.checked).2 := by
  cases hexecute : statement.execute environment console.checked with
  | mk result after =>
    cases result with
    | error fault => rw [statementsFrom_cons_of_error hgoes hexecute]
    | ok effect =>
      rw [statementsFrom_cons_of_ok hgoes hexecute]
      rfl

/-- One more statement writes nothing, or it is reached, writes one line and ends well. -/
theorem writesOf_concat (before : List Stmt) (statement : Stmt) :
    writesOf (before ++ [statement]) = writesOf before ∨
      ∃ text line text', (undisturbed before).outcome = .ok text ∧
        statement.written (environmentOf before) = [line] ∧
        writesOf (before ++ [statement]) = writesOf before ++ [line] ∧
        (undisturbed (before ++ [statement])).outcome = .ok text' := by
  cases h : (undisturbed before).outcome with
  | error fault =>
    left
    have hsame := statementsFrom_append_of_error h [statement]
    rw [writesOf, undisturbed, program, hsame]
    rfl
  | ok text =>
    have hexecute : statement.execute (environmentOf before)
        ({ writes := writesOf before } : Console).checked =
        (statement.result (environmentOf before),
          { writes := writesOf before ++ statement.written (environmentOf before) }) :=
      Stmt.execute_of_takes fun limit hlimit => by cases hlimit
    have hwrites : writesOf (before ++ [statement]) =
        writesOf before ++ statement.written (environmentOf before) := by
      rw [writesOf, undisturbed_append h]
      dsimp only
      rw [statementsFrom_singleton_console rfl, hexecute]
    rcases statement.written_eq_nil_or (environmentOf before) with
      hnil | ⟨line, effect, hline, hresult⟩
    · left
      rw [hwrites, hnil, List.append_nil]
    · right
      rw [hresult] at hexecute
      rw [hline] at hwrites
      refine ⟨text, line, statement.resultText effect.value, rfl, hline, hwrites, ?_⟩
      rw [undisturbed_append h, statementsFrom_cons_of_ok rfl hexecute]
      rfl

end Execution

end Lox
