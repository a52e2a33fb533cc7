import Lox.Proofs.Evaluation.LineIndependence
import Lox.Proofs.Evaluation.Undisturbed
import Lox.Proofs.Pipeline
import Lox.Proofs.Reading.FaultOrder
import Lox.Proofs.Source.LineOrder
import Lox.Tree.Postorder

/-!
# Faults within their source

Every fault of a source is on one of its lines, whichever stage finds it. Faults of scanning and of
reading come in the order of the source. A fault of evaluation is at an operator or a variable of
the statement being executed, which is a token of the source, because trees hold the tokens they
were read from.
-/

namespace Lox

/-- The operator of a node, or the variable that it reads. -/
def Node.place? : Node → Option Token
  | unary operator => some operator
  | binary operator => some operator
  | reference name => some name
  | _ => none

/-- The operators of an expression and the variables that it reads. -/
def Expr.places (tree : Expr) : List Token := tree.nodes.filterMap Node.place?

/-- The operators of a statement and the variables that it reads. -/
def Stmt.places (statement : Stmt) : List Token := statement.nodes.filterMap Node.place?

namespace Expr

theorem places_grouping (inner : Expr) : (grouping inner).places = inner.places := by
  simp [places, nodes, Node.place?]

theorem places_unary (operator : Token) (operand : Expr) :
    (unary operator operand).places = operand.places ++ [operator] := by
  simp [places, nodes, Node.place?]

theorem places_binary (left : Expr) (operator : Token) (right : Expr) :
    (binary left operator right).places = left.places ++ right.places ++ [operator] := by
  simp [places, nodes, Node.place?]

end Expr

/-- What a statement does at its nodes it does in its expression. -/
theorem Stmt.places_of_expression? {statement : Stmt} {tree : Expr}
    (h : statement.expression? = some tree) : statement.places = tree.places := by
  rcases statement with value | value | ⟨name, _ | initializer⟩ <;> cases h <;>
    simp [places, nodes, Node.place?, Expr.places]

/-- The operators and variables of a tree are among the tokens that derive it. -/
theorem Derives.places_subset {layer : Layer} {tree : Expr} {tokens : List Token}
    (h : Derives layer tree tokens) : tree.places ⊆ tokens := by
  induction h with
  | literal hvalue => exact List.nil_subset _
  | reference hname => exact List.Subset.refl _
  | grouping hopening hinner hclosing ih =>
    rw [Expr.places_grouping]
    exact List.subset_cons_of_subset _ (List.subset_append_of_subset_left _ ih)
  | primary h ih => exact ih
  | unary hoperator hoperand ih =>
    rw [Expr.places_unary]
    exact List.append_subset.mpr ⟨List.subset_cons_of_subset _ ih,
      List.cons_subset.mpr ⟨List.mem_cons_self, List.nil_subset _⟩⟩
  | operand h ih => exact ih
  | chain hleft hoperator hright ihleft ihright =>
    rw [Expr.places_binary]
    refine List.append_subset.mpr ⟨List.append_subset.mpr ⟨?_, ?_⟩, ?_⟩
    · exact List.subset_append_of_subset_left _ ihleft
    · exact List.subset_append_of_subset_right _ (List.subset_cons_of_subset _ ihright)
    · exact List.cons_subset.mpr ⟨List.mem_append_right _ List.mem_cons_self, List.nil_subset _⟩

/-- The operators and variables of a statement are among the tokens that derive it. -/
theorem DerivesStatement.places_subset {statement : Stmt} {tokens : List Token}
    (h : DerivesStatement statement tokens) : statement.places ⊆ tokens := by
  cases h with
  | expression hvalue =>
    rw [Stmt.places_of_expression? rfl]
    exact hvalue.places_subset
  | print hword hvalue =>
    rw [Stmt.places_of_expression? rfl]
    exact List.subset_cons_of_subset _ hvalue.places_subset
  | declaration hword hname => exact List.nil_subset _
  | definition hword hname hsign hvalue =>
    rw [Stmt.places_of_expression? rfl]
    exact List.subset_cons_of_subset _ (List.subset_cons_of_subset _
      (List.subset_cons_of_subset _ hvalue.places_subset))

/-- The operators and variables of a program are among the tokens that derive it. -/
theorem DerivesProgram.places_subset {implicit : Bool} {statements : List Stmt}
    {tokens : List Token} (h : DerivesProgram implicit statements tokens) :
    ∀ statement ∈ statements, statement.places ⊆ tokens := by
  induction h with
  | empty => exact fun statement hmem => by cases hmem
  | closed hstatement hsemicolon hothers ih =>
    intro statement hmem
    rcases List.mem_cons.mp hmem with rfl | hmem
    · exact List.subset_append_of_subset_left _ hstatement.places_subset
    · exact List.subset_append_of_subset_right _
        (List.subset_cons_of_subset _ (ih statement hmem))
  | unclosed himplicit hstatement =>
    intro statement hmem
    rw [List.mem_singleton.mp hmem]
    exact hstatement.places_subset

namespace Parser

/-- The operators and variables of an expression that was read are tokens of the parser. -/
theorem places_of_expression {parser : Parser} {tree : Expr}
    (h : parser.expression.1 = .ok tree) : tree.places ⊆ parser.rest :=
  (derives_of_expression h).places_subset

/-- The operators and variables of a program that was read are tokens of the parser. -/
theorem places_of_program (parser : Parser) :
    ∀ statement ∈ parser.program.1.statements, statement.places ⊆ parser.rest := by
  by_cases hfaults : parser.program.1.faults = []
  · exact (derives_of_program hfaults).places_subset
  · have hnone : parser.program.1.statements = [] := if_neg hfaults
    rw [hnone]
    exact fun statement hmem => by cases hmem

end Parser

namespace Operator

/-- A binary operator fails at itself. -/
theorem token_of_binary {operator : Token} {left right : Option Value} {fault : RuntimeFault}
    (h : binary operator left right = .error fault) : fault.token = operator := by
  have hself := binary_of_kind_eq (rfl : operator.kind = operator.kind) left right
  rw [h] at hself
  exact congrArg RuntimeFault.token (Except.error.inj hself)

/-- A unary operator fails at itself. -/
theorem token_of_unary {operator : Token} {operand : Option Value} {fault : RuntimeFault}
    (h : unary operator operand = .error fault) : fault.token = operator := by
  have hself := unary_of_kind_eq (rfl : operator.kind = operator.kind) operand
  rw [h] at hself
  exact congrArg RuntimeFault.token (Except.error.inj hself)

end Operator

/-- An evaluation fails at an operator of the tree or at a variable that the tree reads. -/
theorem Expr.mem_places_of_eval {environment : Environment} {tree : Expr} {fault : RuntimeFault}
    (h : tree.eval environment = .error fault) : fault.token ∈ tree.places := by
  induction tree generalizing fault with
  | literal value => cases h
  | grouping inner ih =>
    rw [places_grouping]
    exact ih h
  | unary operator operand ih =>
    rw [places_unary]
    cases hoperand : operand.eval environment with
    | error found =>
      simp only [eval, hoperand] at h
      cases h
      exact List.mem_append_left _ (ih hoperand)
    | ok value =>
      simp only [eval, hoperand] at h
      rw [Operator.token_of_unary h]
      exact List.mem_append_right _ List.mem_cons_self
  | binary left operator right ihleft ihright =>
    rw [places_binary]
    cases hleft : left.eval environment with
    | error found =>
      simp only [eval, hleft] at h
      cases h
      exact List.mem_append_left _ (List.mem_append_left _ (ihleft hleft))
    | ok leftValue =>
      cases hright : right.eval environment with
      | error found =>
        simp only [eval, hleft, hright] at h
        cases h
        exact List.mem_append_left _ (List.mem_append_right _ (ihright hright))
      | ok rightValue =>
        simp only [eval, hleft, hright] at h
        rw [Operator.token_of_binary h]
        exact List.mem_append_right _ List.mem_cons_self
  | reference name =>
    simp only [eval, Environment.read] at h
    split at h
    · cases h
    · cases h
      exact List.mem_cons_self

/-- A statement fails at one of its operators or at a variable that it reads. -/
theorem Stmt.mem_places_of_execute {environment : Environment} {console : Console}
    {statement : Stmt} {fault : RuntimeFault}
    (h : (statement.execute environment console).1 = .error (.runtime fault)) :
    fault.token ∈ statement.places := by
  have hexecutes := statement.executes_execute environment console
  generalize statement.execute environment console = result at h hexecutes
  cases hexecutes with
  | failed htree heval =>
    cases h
    rw [places_of_expression? htree]
    exact Expr.mem_places_of_eval heval
  | evaluated heval => cases h
  | printed heval hwrite => cases h
  | unwritten heval hwrite => cases h
  | declared name => cases h
  | defined heval => cases h

namespace Execution

/-- A fault of evaluation ends an execution in a statement that is being executed, with the
variables and the console that the statements before it left. -/
theorem statementsFrom_fails {index : Nat} {environment : Environment} {console : Console}
    {text : Text} {statements : List Stmt} {fault : RuntimeFault}
    (h : (statementsFrom index environment console text statements).outcome =
      .error (.runtime fault)) :
    ∃ before statement after result,
      statements = before ++ statement :: after ∧
        (statementsFrom index environment console text before).outcome = .ok result ∧
        (statement.execute
          ((statementsFrom index environment console text before).environmentAfter environment)
          (statementsFrom index environment console text before).console.checked).1 =
            .error (.runtime fault) := by
  induction statements generalizing index environment console text with
  | nil => cases h
  | cons statement rest ih =>
    cases hcancelled : console.cancelled with
    | true =>
      rw [statementsFrom_cons_of_cancelled hcancelled] at h
      cases h
    | false =>
      rcases hexecute : statement.execute environment console.checked with
        ⟨found | effect, reached⟩
      · rw [statementsFrom_cons_of_error hcancelled hexecute] at h
        cases h
        exact ⟨[], statement, rest, text, rfl, rfl, congrArg Prod.fst hexecute⟩
      · have hruns := statementsFrom_cons_of_ok hcancelled hexecute index text
        rw [hruns] at h
        obtain ⟨before, failing, after, result, rfl, hbefore, hfails⟩ := ih h
        refine ⟨statement :: before, failing, after, result, rfl, ?_⟩
        rw [hruns]
        exact ⟨hbefore, hfails⟩

/-- The execution comes to a statement, all before it being executed, and fails in it. -/
def FailsIn (console : Console) (statements : List Stmt) (statement : Stmt)
    (fault : RuntimeFault) : Prop :=
  ∃ before after text, statements = before ++ statement :: after ∧
    (program console before).outcome = .ok text ∧
    (statement.execute ((program console before).environmentAfter .empty)
      (program console before).console.checked).1 = .error (.runtime fault)

/-- A program that ends with a fault of evaluation fails in one of its statements, at an operator of
the statement or at a variable that it reads. -/
theorem exists_failsIn {console : Console} {statements : List Stmt} {fault : RuntimeFault}
    (h : (program console statements).outcome = .error (.runtime fault)) :
    ∃ statement ∈ statements, FailsIn console statements statement fault ∧
      fault.token ∈ statement.places := by
  obtain ⟨before, statement, after, text, rfl, hbefore, hfails⟩ := statementsFrom_fails h
  have hmem : statement ∈ before ++ statement :: after :=
    List.mem_append_right _ List.mem_cons_self
  exact ⟨statement, hmem, ⟨before, after, text, rfl, hbefore, hfails⟩,
    Stmt.mem_places_of_execute hfails⟩

/-- An expression that ends with a fault of evaluation fails at one of its operators or at a
variable that it reads. -/
theorem mem_places_of_expression {console : Console} {tree : Expr} {fault : RuntimeFault}
    (h : (expression console tree).outcome = .error (.runtime fault)) :
    fault.token ∈ tree.places := by
  unfold expression at h
  split at h
  · cases h
  · cases heval : tree.eval .empty with
    | error found =>
      rw [heval] at h
      cases h
      exact Expr.mem_places_of_eval heval
    | ok value =>
      rw [heval] at h
      cases h

end Execution

/-- The faults of one stage, by their lines and joined: the lines are lines of the source and do not
decrease, and the line of all the faults joined is the smallest of them. -/
structure Diagnosed (source : Text) (lines : List Int) (joined : Option Fault) : Prop where
  /-- The lines do not decrease. -/
  ordered : lines.Pairwise (· ≤ ·)
  /-- The lines are lines of the source. -/
  within : ∀ line ∈ lines, source.HasLine line
  /-- The smallest line is that of the faults joined. -/
  smallest : joined.bind Fault.line? = lines.min?

/-- A fault of evaluation at one of the places given, which is a token of the source. -/
structure RuntimeFault.Within (source : Text) (places : List Token) (fault : RuntimeFault) :
    Prop where
  /-- The token is scanned from the source. -/
  scanned : fault.token ∈ (Scan.ofSource source).tokens
  /-- The token is one of the places. -/
  placed : fault.token ∈ places
  /-- The line of the fault is a line of the source. -/
  within : ∃ line, (RunFault.runtime fault).toFault.line? = some line ∧ source.HasLine line

namespace Scan

/-- The faults of scanning are diagnosed within the source. -/
theorem diagnosed (source : Text) :
    Diagnosed source ((ofSource source).faults.map ScanFault.line) (ofSource source).fault? where
  ordered := List.pairwise_map.mpr (pairwise_faults source)
  within := by
    intro line hline
    obtain ⟨fault, hfault, rfl⟩ := List.mem_map.mp hline
    exact hasLine_of_mem_faults hfault
  smallest := Fault.line?_join (fun _ => rfl) (fun _ => rfl) (pairwise_faults source)

/-- Faults of reading at some of the tokens of a source, in order, are diagnosed within it. -/
theorem diagnosed_of_sublist {source : Text} {reading : ProgramReading}
    (h : List.Sublist (reading.faults.map SyntaxFault.token) (ofSource source).tokens) :
    Diagnosed source (reading.faults.map fun fault => fault.token.line) reading.fault? := by
  have hordered := (pairwise_tokens source).sublist h
  rw [List.pairwise_map] at hordered
  constructor
  · exact List.pairwise_map.mpr hordered
  · intro line hline
    obtain ⟨fault, hfault, rfl⟩ := List.mem_map.mp hline
    exact hasLine_of_mem_tokens (h.subset (List.mem_map_of_mem hfault))
  · exact Fault.line?_join (fun _ => rfl) (fun _ => rfl) hordered

/-- A fault of evaluation at a token of the source is within it. -/
theorem within_of_mem {source : Text} {places : List Token} {fault : RuntimeFault}
    (hplaces : places ⊆ (ofSource source).tokens) (h : fault.token ∈ places) :
    fault.Within source places :=
  ⟨hplaces h, h, fault.token.line, rfl, hasLine_of_mem_tokens (hplaces h)⟩

/-- Faults stay within their source, in its order, at every stage. The faults of scanning are on
lines of the source that do not decrease. The faults of reading a program are at some of the scanned
tokens, in their order and none of them twice, and the fault of reading an expression is at a
scanned token. The line of what scanning finds, or of what reading finds, is the smallest of its
parts. A fault of evaluation is at a scanned token that is an operator of the statement being
executed or a variable that the statement reads. -/
theorem faults_within_source (source : Text) (options : ReadingOptions) :
    ∃ parser, Parser.ofTokens options (ofSource source).tokens = .ok parser ∧
      Diagnosed source ((ofSource source).faults.map ScanFault.line) (ofSource source).fault? ∧
      List.Sublist (parser.program.1.faults.map SyntaxFault.token) (ofSource source).tokens ∧
      Diagnosed source (parser.program.1.faults.map fun fault => fault.token.line)
        parser.program.1.fault? ∧
      (∀ fault, parser.expression.1 = .error fault →
        fault.token ∈ (ofSource source).tokens ∧ source.HasLine fault.token.line) ∧
      (∀ console fault,
        (Execution.program console parser.program.1.statements).outcome =
          .error (.runtime fault) →
        ∃ statement, Execution.FailsIn console parser.program.1.statements statement fault ∧
          fault.Within source statement.places) ∧
      (∀ tree console fault, parser.expression.1 = .ok tree →
        (Execution.expression console tree).outcome = .error (.runtime fault) →
        fault.Within source tree.places) := by
  obtain ⟨parser, hparser, htokens, -, -⟩ := ofSource_closed options source
  have hsublist := parser.faults_sublist
  rw [← htokens] at hsublist
  have hrest : parser.rest ⊆ (ofSource source).tokens := by
    rw [htokens]
    exact List.subset_append_left _ _
  refine ⟨parser, hparser, diagnosed source, hsublist, diagnosed_of_sublist hsublist, ?_, ?_, ?_⟩
  · intro fault hfault
    have hmem := Parser.mem_of_expression_error hfault
    rw [← htokens] at hmem
    exact ⟨hmem, hasLine_of_mem_tokens hmem⟩
  · intro console fault hfault
    obtain ⟨statement, hmem, hfails, hplace⟩ := Execution.exists_failsIn hfault
    have hplaces := List.Subset.trans (parser.places_of_program statement hmem) hrest
    exact ⟨statement, hfails, within_of_mem hplaces hplace⟩
  · intro tree console fault htree hfault
    have hplaces := List.Subset.trans (Parser.places_of_expression htree) hrest
    exact within_of_mem hplaces (Execution.mem_places_of_expression hfault)

end Scan

end Lox
