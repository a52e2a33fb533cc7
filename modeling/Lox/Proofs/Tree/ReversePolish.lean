import Lox.Proofs.Evaluation.LineIndependence
import Lox.Proofs.Tree.Legible
import Lox.Tree.Postorder

/-!
# Reverse Polish order determines trees without groupings

A tree in reverse Polish order is a row of atoms, each before a space, but for the last space. What
is trimmed is the space after a grouping and never a part of an atom, since no atom ends with a
space. So the text determines the atoms. From the atoms the tree is built back on a stack: a leaf is
put there, an operator takes its operands from there. A minus takes two operands, since the unary
one is a tilde. The groupings are lost on the way, and a variable without a value becomes one that
is given nil; neither makes a difference to running a program.
-/

namespace Lox

/-- An expression without its groupings. -/
def Expr.ungrouped : Expr → Expr
  | literal value => literal value
  | grouping inner => inner.ungrouped
  | unary operator operand => unary operator operand.ungrouped
  | binary left operator right => binary left.ungrouped operator right.ungrouped
  | reference name => reference name

/-- A statement without groupings, where a variable without a value is given nil. -/
def Stmt.ungrouped : Stmt → Stmt
  | expression value => expression value.ungrouped
  | print value => print value.ungrouped
  | declaration name none => declaration name (some (.literal (some .nil)))
  | declaration name (some initializer) => declaration name (some initializer.ungrouped)

/-- A space that was added is trimmed. -/
theorem trimSpace_concat (text : Text) : trimSpace (text ++ [' ']) = text := by
  simp [trimSpace]

/-- A text that ends with anything else is left as it is. -/
theorem trimSpace_of_ne {front : Text} {last : Char} (h : last ≠ ' ') :
    trimSpace (front ++ [last]) = front ++ [last] := by
  simp [trimSpace, h]

/-- An operand without a name after it is the operand. -/
theorem postfixed_nil (operand : Text) : postfixed [operand] [] = operand := by
  simp [postfixed, trimSpace_concat]

/-- No atom ends with a space. -/
theorem Atom.Legible.exists_concat {atom : Atom} (h : atom.Legible) :
    ∃ front last, atom.text = front ++ [last] ∧ last ≠ ' ' := by
  rcases h.quoted_or_isPlain with ⟨text, rfl⟩ | hplain
  · exact ⟨'"' :: text.flatMap (Quoted.escape '"'), '"', rfl, by decide⟩
  · rcases List.eq_nil_or_concat atom.text with hnil | ⟨front, last, hconcat⟩
    · exact absurd hnil hplain.1
    · rw [List.concat_eq_append] at hconcat
      refine ⟨front, last, hconcat, fun hlast => hplain.2 last ?_ (by rw [hlast]; decide)⟩
      rw [hconcat]
      exact List.mem_append_right _ List.mem_cons_self

namespace Atom

/-- Atoms in a row, each with a space after it. -/
def spaced (atoms : List Atom) : Text := atoms.flatMap fun atom => atom.text ++ [' ']

@[simp] theorem spaced_append (atoms others : List Atom) :
    spaced (atoms ++ others) = spaced atoms ++ spaced others := List.flatMap_append

@[simp] theorem spaced_cons (atom : Atom) (atoms : List Atom) :
    spaced (atom :: atoms) = atom.text ++ ' ' :: spaced atoms := by
  simp [spaced]

@[simp] theorem spaced_nil : spaced [] = [] := rfl

/-- Nothing is trimmed from an atom after operands. -/
theorem Legible.postfixed_concat {atom : Atom} (h : atom.Legible) (operands : List Text) :
    postfixed operands atom.text ++ [' '] =
      operands.flatMap (fun operand => operand ++ [' ']) ++ spaced [atom] := by
  obtain ⟨front, last, htext, hlast⟩ := h.exists_concat
  rw [postfixed, htext, ← List.append_assoc, trimSpace_of_ne hlast]
  simp [htext]

/-- Rows of atoms are told apart, but for the lines of tokens. -/
theorem unlined_eq_of_spaced_eq {atoms others : List Atom} (hatoms : ∀ atom ∈ atoms, atom.Legible)
    (hothers : ∀ atom ∈ others, atom.Legible) (h : spaced atoms = spaced others) :
    atoms.map unlined = others.map unlined := by
  induction atoms generalizing others with
  | nil =>
    cases others with
    | nil => rfl
    | cons other others => simp at h
  | cons atom atoms ih =>
    cases others with
    | nil => simp at h
    | cons other others =>
      rw [List.forall_mem_cons] at hatoms hothers
      rw [spaced_cons, spaced_cons] at h
      have hstops (rest : Text) : Text.Stops (' ' :: rest) := Text.stops_cons (by decide) rest
      obtain ⟨hatom, hrest⟩ := hatoms.1.append_inj hothers.1 (hstops _) (hstops _) h
      rw [List.map_cons, List.map_cons, hatom, ih hatoms.2 hothers.2 (List.cons.inj hrest).2]

end Atom

/-- The atom of a unary operator. -/
def Token.unaryAtom (operator : Token) : Atom :=
  if operator.kind = .minus then .tilde else .lexeme operator

theorem Token.text_unaryAtom (operator : Token) : operator.unaryAtom.text = unaryName operator := by
  unfold unaryAtom unaryName
  split <;> rfl

/-- The atom of a unary operator can stand in a notation. -/
theorem Token.Genuine.unaryAtom_legible {operator : Token} (h : operator.Genuine)
    (hkind : operator.kind.isUnary = true) : operator.unaryAtom.Legible := by
  unfold unaryAtom
  split
  · trivial
  · exact h.unary_legible hkind

namespace Expr

/-- The atoms of an expression in reverse Polish order. -/
def atoms : Expr → List Atom
  | literal value => [Value.atomOf value]
  | grouping inner => inner.atoms
  | unary operator operand => operand.atoms ++ [operator.unaryAtom]
  | binary left operator right => left.atoms ++ right.atoms ++ [.lexeme operator]
  | reference name => [.lexeme name]

/-- All atoms of a tree that was read can stand in a notation. -/
theorem Legible.atoms {tree : Expr} (h : tree.Legible) : ∀ atom ∈ tree.atoms, atom.Legible := by
  induction tree with
  | literal value =>
    obtain ⟨held, rfl, hheld⟩ := h
    exact List.forall_mem_singleton.mpr hheld.atom
  | grouping inner ih => exact ih h
  | unary operator operand ih =>
    rw [Expr.atoms, List.forall_mem_append, List.forall_mem_singleton]
    exact ⟨ih h.2.2, h.2.1.unaryAtom_legible h.1⟩
  | binary left operator right ihleft ihright =>
    rw [Expr.atoms, List.forall_mem_append, List.forall_mem_append, List.forall_mem_singleton]
    exact ⟨⟨ihleft h.1, ihright h.2.2.2⟩, h.2.2.1.binary_legible h.2.1⟩
  | reference name => exact List.forall_mem_singleton.mpr (h.2.name_legible h.1)

/-- A tree that was read is written as its atoms. -/
theorem Legible.reversePolish_concat {tree : Expr} (h : tree.Legible) :
    tree.reversePolish ++ [' '] = Atom.spaced tree.atoms := by
  induction tree with
  | literal value => simp [reversePolish, Expr.atoms, Value.text_atomOf]
  | grouping inner ih =>
    rw [reversePolish, postfixed_nil]
    exact ih h
  | unary operator operand ih =>
    have hatom := h.2.1.unaryAtom_legible h.1
    rw [reversePolish, ← Token.text_unaryAtom, hatom.postfixed_concat, List.flatMap_singleton,
      ih h.2.2, Expr.atoms, Atom.spaced_append]
  | binary left operator right ihleft ihright =>
    have hatom := (h.2.2.1.binary_legible h.2.1).postfixed_concat
      [left.reversePolish, right.reversePolish]
    rw [List.flatMap_cons, List.flatMap_singleton, ihleft h.1, ihright h.2.2.2] at hatom
    rw [Expr.atoms, Atom.spaced_append, Atom.spaced_append]
    exact hatom
  | reference name => simp [reversePolish, Expr.atoms, Atom.text]

/-- Groupings are not written. -/
@[simp] theorem reversePolish_ungrouped (tree : Expr) :
    tree.ungrouped.reversePolish = tree.reversePolish := by
  induction tree with
  | literal value => rfl
  | grouping inner ih => rw [ungrouped, ih, reversePolish, postfixed_nil]
  | unary operator operand ih => rw [ungrouped, reversePolish, ih, reversePolish]
  | binary left operator right ihleft ihright =>
    rw [ungrouped, reversePolish, ihleft, ihright, reversePolish]
  | reference name => rfl

/-- Groupings make no difference to the value. -/
@[simp] theorem eval_ungrouped (environment : Environment) (tree : Expr) :
    tree.ungrouped.eval environment = tree.eval environment := by
  induction tree with
  | literal value => rfl
  | grouping inner ih => rw [ungrouped, ih, eval]
  | unary operator operand ih => rw [ungrouped, eval, ih, eval]
  | binary left operator right ihleft ihright => rw [ungrouped, eval, ihleft, ihright, eval]
  | reference name => rfl

end Expr

namespace Stmt

/-- The atoms of a statement in reverse Polish order. -/
def atoms : Stmt → List Atom
  | expression value => value.atoms ++ [.lexeme Token.semicolon]
  | print value => value.atoms ++ [.lexeme Keyword.printWord.token]
  | declaration name none =>
    [Value.nil.atom, .lexeme name, .lexeme Keyword.varWord.token]
  | declaration name (some initializer) =>
    initializer.atoms ++ [.lexeme name, .lexeme Keyword.varWord.token]

/-- All atoms of a statement that was read can stand in a notation. -/
theorem Legible.atoms {statement : Stmt} (h : statement.Legible) :
    ∀ atom ∈ statement.atoms, atom.Legible := by
  have hvar := Keyword.varWord.atom_legible
  rcases statement with value | value | ⟨name, _ | initializer⟩
  · rw [Stmt.atoms, List.forall_mem_append, List.forall_mem_singleton]
    exact ⟨Expr.Legible.atoms h, Token.semicolon_legible⟩
  · rw [Stmt.atoms, List.forall_mem_append, List.forall_mem_singleton]
    exact ⟨Expr.Legible.atoms h, Keyword.printWord.atom_legible⟩
  · rw [Stmt.atoms, List.forall_mem_cons, List.forall_mem_cons, List.forall_mem_singleton]
    exact ⟨Keyword.nilWord.atom_legible, h.2.1.name_legible h.1, hvar⟩
  · rw [Stmt.atoms, List.forall_mem_append, List.forall_mem_cons, List.forall_mem_singleton]
    exact ⟨(h.2.2 initializer rfl).atoms, h.2.1.name_legible h.1, hvar⟩

/-- Groupings are not written, and nil is written for a missing value. -/
@[simp] theorem reversePolish_ungrouped (statement : Stmt) :
    statement.ungrouped.reversePolish = statement.reversePolish := by
  rcases statement with value | value | ⟨name, _ | initializer⟩
  · simp only [ungrouped, reversePolish, Expr.reversePolish_ungrouped]
  · simp only [ungrouped, reversePolish, Expr.reversePolish_ungrouped]
  · rfl
  · simp only [ungrouped, reversePolish, Expr.reversePolish_ungrouped]

/-- A declaration is written as its value, its name and the keyword. -/
theorem reversePolish_declaration_concat (name : Token) {initializer : Expr}
    (h : initializer.Legible) :
    (declaration name (some initializer)).reversePolish ++ [' '] =
      Atom.spaced (initializer.atoms ++ [.lexeme name, .lexeme Keyword.varWord.token]) := by
  have hvar : Keyword.varWord.token.lexeme = "var".toList := rfl
  have hname : (declaration name (some initializer)).reversePolish =
      postfixed [initializer.reversePolish, name.lexeme] Keyword.varWord.token.lexeme := by
    simp [reversePolish, postfixed, hvar]
  have hatom := Keyword.varWord.atom_legible.postfixed_concat
    [initializer.reversePolish, name.lexeme]
  rw [List.flatMap_cons, List.flatMap_singleton, h.reversePolish_concat] at hatom
  rw [hname, Atom.spaced_append]
  simpa [Atom.text] using hatom

/-- A statement that was read is written as its atoms. -/
theorem Legible.reversePolish_concat {statement : Stmt} (h : statement.Legible) :
    statement.reversePolish ++ [' '] = Atom.spaced statement.atoms := by
  rcases statement with value | value | ⟨name, _ | initializer⟩
  · have hatom := Token.semicolon_legible.postfixed_concat [value.reversePolish]
    rw [List.flatMap_singleton, Expr.Legible.reversePolish_concat h] at hatom
    rw [Stmt.atoms, Atom.spaced_append]
    exact hatom
  · have hatom := Keyword.printWord.atom_legible.postfixed_concat [value.reversePolish]
    rw [List.flatMap_singleton, Expr.Legible.reversePolish_concat h] at hatom
    rw [Stmt.atoms, Atom.spaced_append]
    exact hatom
  · have hnil : Expr.Legible (.literal (some .nil)) := ⟨.nil, rfl, trivial⟩
    exact reversePolish_declaration_concat name hnil
  · exact reversePolish_declaration_concat name (h.2.2 initializer rfl)

end Stmt

/-- The text of a kind that is always written in the same way. -/
theorem TokenClass.eq_of_symbol {kind : Kind} {text symbol : Text} (h : TokenClass kind text)
    (hsymbol : kind.symbol? = some symbol) : text = symbol := by
  cases h with
  | symbol hother => exact Option.some.inj (hother.symm.trans hsymbol)
  | keyword word => cases hsymbol
  | identifier hword hfree => cases hsymbol
  | string hbody => cases hsymbol
  | number hnumeral => cases hsymbol

namespace Forest

/-- Put an expression on the stack. -/
def push (forest : Forest) (tree : Expr) : Forest :=
  { forest with stack := tree :: forest.stack }

/-- Declare the variable that is on top of the stack, with the value below it. -/
def declare (forest : Forest) : Option Forest :=
  match forest.stack with
  | .reference name :: stack => Forest.add { forest with stack := stack } (.declaration name true)
  | _ => none

/-- Build on with an atom. A minus has two operands, as the unary one is a tilde. -/
def addAtom (forest : Forest) : Atom → Option Forest
  | .lexeme token =>
    if token.kind.level?.isSome then forest.add (.binary token)
    else if token.kind.isUnary then forest.add (.unary token)
    else if token.kind = .semicolon then forest.add .expression
    else if token.kind = .keyword .printWord then forest.add .print
    else if token.kind = .keyword .varWord then forest.declare
    else (Atom.lexeme token).leaf?.map forest.push
  | .tilde => forest.add (.unary ⟨.minus, ['-'], .none, 0⟩)
  | atom => atom.leaf?.map forest.push

/-- Build on with atoms in a row. -/
def addAtoms (forest : Forest) (atoms : List Atom) : Option Forest := atoms.foldlM addAtom forest

/-- Building goes on where the atoms before left off. -/
theorem addAtoms_append {forest middle : Forest} {atoms : List Atom}
    (h : forest.addAtoms atoms = some middle) (others : List Atom) :
    forest.addAtoms (atoms ++ others) = middle.addAtoms others := by
  unfold addAtoms at h ⊢
  rw [List.foldlM_append, h]
  rfl

/-- Rows of atoms that are written in the same way build the same. -/
theorem eq_of_spaced_eq {start forest other : Forest} {atoms others : List Atom}
    (hatoms : ∀ atom ∈ atoms, atom.Legible) (hothers : ∀ atom ∈ others, atom.Legible)
    (hforest : start.addAtoms (atoms.map Atom.unlined) = some forest)
    (hother : start.addAtoms (others.map Atom.unlined) = some other)
    (h : Atom.spaced atoms = Atom.spaced others) : forest = other := by
  rw [Atom.unlined_eq_of_spaced_eq hatoms hothers h, hother] at hforest
  exact (Option.some.inj hforest).symm

variable (forest : Forest)

theorem addAtoms_singleton (atom : Atom) : forest.addAtoms [atom] = forest.addAtom atom := by
  simp [addAtoms]

theorem addAtom_value (value : Value) :
    forest.addAtom value.atom.unlined = some (forest.push (.literal (some value))) := by
  rcases value with _ | (_ | _) | x | s <;> rfl

theorem addAtom_name {name : Token} (h : name.kind = .identifier) :
    forest.addAtom (.lexeme name) = some (forest.push (.reference name)) := by
  simp [addAtom, h, Kind.level?, Kind.isUnary, Atom.leaf?]

theorem addAtom_binary {operator : Token} (h : operator.kind.level?.isSome) (left right : Expr) :
    ((forest.push left).push right).addAtom (.lexeme operator) =
      some (forest.push (.binary left operator right)) := by
  rw [addAtom, if_pos h]
  rfl

/-- Of the genuine unary operators only a minus is written as a tilde. -/
theorem addAtom_unary {operator : Token} (hkind : operator.kind.isUnary = true)
    (hgenuine : operator.Genuine) (operand : Expr) :
    (forest.push operand).addAtom operator.unaryAtom.unlined =
      some (forest.push (.unary operator.unlined operand)) := by
  by_cases hminus : operator.kind = .minus
  -- A tilde has no token, so a minus is made up for it; a genuine one is the same without its line.
  · have hsign : Token.Genuine ⟨.minus, ['-'], .none, 0⟩ := ⟨.symbol rfl, .none _ nofun nofun⟩
    have hlexeme : operator.lexeme = ['-'] := hgenuine.1.eq_of_symbol (by rw [hminus]; rfl)
    rw [hgenuine.unlined_eq hsign hlexeme, Token.unaryAtom, if_pos hminus]
    rfl
  · have hlevel : ¬ operator.unlined.kind.level?.isSome := by
      rw [Token.unlined_kind]
      cases hoperator : operator.kind <;> simp_all [Kind.isUnary, Kind.level?]
    have hunary : operator.unlined.kind.isUnary = true := hkind
    rw [Token.unaryAtom, if_neg hminus, Atom.unlined, addAtom, if_neg hlevel, if_pos hunary]
    rfl

theorem addAtoms_declaration {name : Token} (h : name.kind = .identifier) (value : Expr) :
    (forest.push value).addAtoms [.lexeme name, .lexeme Keyword.varWord.token.unlined] =
      some { forest with
        statements := forest.statements ++ [.declaration name (some value)] } := by
  have hname := ((forest.push value).addAtoms_singleton _).trans (addAtom_name _ h)
  exact addAtoms_append hname [.lexeme Keyword.varWord.token.unlined]

end Forest

/-- From the atoms of a tree that was read the tree is built back, without its groupings. -/
theorem Expr.Legible.addAtoms_atoms {tree : Expr} (h : tree.Legible) (forest : Forest) :
    forest.addAtoms (tree.atoms.map Atom.unlined) = some (forest.push tree.ungrouped.unlined) := by
  induction tree generalizing forest with
  | literal value =>
    obtain ⟨held, rfl, hheld⟩ := h
    exact (forest.addAtoms_singleton _).trans (forest.addAtom_value held)
  | grouping inner ih => exact ih h forest
  | unary operator operand ih =>
    rw [Expr.atoms, List.map_append, Forest.addAtoms_append (ih h.2.2 forest)]
    exact (Forest.addAtoms_singleton _ _).trans (forest.addAtom_unary h.1 h.2.1 _)
  | binary left operator right ihleft ihright =>
    have hlevel : operator.unlined.kind.level?.isSome := h.2.1
    rw [Expr.atoms, List.append_assoc, List.map_append, List.map_append,
      Forest.addAtoms_append (ihleft h.1 forest), Forest.addAtoms_append (ihright h.2.2.2 _)]
    exact (Forest.addAtoms_singleton _ _).trans (forest.addAtom_binary hlevel _ _)
  | reference name =>
    have hname : name.unlined.kind = .identifier := h.1
    exact (forest.addAtoms_singleton _).trans (forest.addAtom_name hname)

/-- From the atoms of a statement that was read the statement is built back, without groupings and
with a value in every declaration. -/
theorem Stmt.Legible.addAtoms_atoms {statement : Stmt} (h : statement.Legible) (forest : Forest) :
    forest.addAtoms (statement.atoms.map Atom.unlined) =
      some { forest with statements := forest.statements ++ [statement.ungrouped.unlined] } := by
  rcases statement with value | value | ⟨name, _ | initializer⟩
  · rw [Stmt.atoms, List.map_append, Forest.addAtoms_append (Expr.Legible.addAtoms_atoms h forest)]
    rfl
  · rw [Stmt.atoms, List.map_append, Forest.addAtoms_append (Expr.Legible.addAtoms_atoms h forest)]
    rfl
  · have hname : name.unlined.kind = .identifier := h.1
    exact forest.addAtoms_declaration hname (.literal (some .nil))
  · have hname : name.unlined.kind = .identifier := h.1
    rw [Stmt.atoms, List.map_append,
      Forest.addAtoms_append ((h.2.2 initializer rfl).addAtoms_atoms forest)]
    exact forest.addAtoms_declaration hname initializer.ungrouped.unlined

/-- Expressions are the same in reverse Polish order exactly if they are the same without groupings,
but for lines. -/
theorem Expr.Legible.reversePolish_eq_iff {tree other : Expr} (htree : tree.Legible)
    (hother : other.Legible) :
    tree.reversePolish = other.reversePolish ↔
      tree.ungrouped.unlined = other.ungrouped.unlined := by
  constructor
  · intro h
    have hspaced : Atom.spaced tree.atoms = Atom.spaced other.atoms := by
      rw [← htree.reversePolish_concat, h, hother.reversePolish_concat]
    have hbuilt := Forest.eq_of_spaced_eq htree.atoms hother.atoms (htree.addAtoms_atoms {})
      (hother.addAtoms_atoms {}) hspaced
    exact (List.cons.inj (congrArg Forest.stack hbuilt)).1
  · intro h
    rw [← tree.reversePolish_ungrouped, ← tree.ungrouped.reversePolish_unlined, h,
      reversePolish_unlined, reversePolish_ungrouped]

/-- Statements are the same in reverse Polish order exactly if they are the same without groupings
and with a value in every declaration, but for lines. -/
theorem Stmt.Legible.reversePolish_eq_iff {statement other : Stmt} (hstatement : statement.Legible)
    (hother : other.Legible) :
    statement.reversePolish = other.reversePolish ↔
      statement.ungrouped.unlined = other.ungrouped.unlined := by
  constructor
  · intro h
    have hspaced : Atom.spaced statement.atoms = Atom.spaced other.atoms := by
      rw [← hstatement.reversePolish_concat, h, hother.reversePolish_concat]
    have hbuilt := Forest.eq_of_spaced_eq hstatement.atoms hother.atoms
      (hstatement.addAtoms_atoms {}) (hother.addAtoms_atoms {}) hspaced
    exact (List.cons.inj (congrArg Forest.statements hbuilt)).1
  · intro h
    rw [← statement.reversePolish_ungrouped, ← statement.ungrouped.reversePolish_unlined, h,
      reversePolish_unlined, reversePolish_ungrouped]

/-- A statement without groupings does what the statement does. -/
theorem Stmt.execute_ungrouped (environment : Environment) (console : Console) (statement : Stmt) :
    statement.ungrouped.execute environment console = statement.execute environment console := by
  rcases statement with value | value | ⟨name, _ | initializer⟩
  · simp only [ungrouped, execute, Expr.eval_ungrouped]
  · simp only [ungrouped, execute, Expr.eval_ungrouped]
  · rfl
  · simp only [ungrouped, execute, Expr.eval_ungrouped]

theorem Stmt.resultText_ungrouped (statement : Stmt) (value : Option Value) :
    statement.ungrouped.resultText value = statement.resultText value := by
  rcases statement with tree | tree | ⟨name, _ | initializer⟩ <;> cases value <;> rfl

/-- Statements without groupings are executed as the statements are. -/
theorem Execution.statementsFrom_ungrouped (index : Nat) (environment : Environment)
    (console : Console) (text : Text) (statements : List Stmt) :
    statementsFrom index environment console text (statements.map Stmt.ungrouped) =
      statementsFrom index environment console text statements := by
  induction statements generalizing index environment console text with
  | nil => rfl
  | cons statement rest ih =>
    simp only [List.map_cons, statementsFrom, Stmt.execute_ungrouped, Stmt.resultText_ungrouped, ih]

/-- Programs that are the same without groupings and lines are executed in the same way. -/
theorem Interpreter.interpret_of_ungrouped_eq {statements mates : List Stmt}
    (h : statements.map (fun statement => statement.ungrouped.unlined) =
      mates.map (fun statement => statement.ungrouped.unlined))
    (first second : Interpreter) (console : Console) :
    (first.interpret console statements).1.unlined = (second.interpret console mates).1.unlined ∧
      (first.interpret console statements).2 = (second.interpret console mates).2 := by
  have hplain (statements : List Stmt) :
      Execution.program console
          (statements.map fun statement => statement.ungrouped.unlined) =
        (Execution.program console statements).unlined := by
    have hmap := List.map_map (f := Stmt.ungrouped) (g := Stmt.unlined) (l := statements)
    simp only [Execution.program, ← Execution.statementsFrom_ungrouped 0 .empty console []
      statements, ← Execution.statementsFrom_unlined, hmap]
    rfl
  apply interpret_of_unlined_eq
  rw [← hplain, h, hplain]

/-- Reverse Polish order determines trees without their groupings. If two sources are read without a
fault, their expressions have the same text exactly if they are the same tree without groupings, but
for the lines of tokens. Statements have the same text exactly if they are the same in this way,
where a variable without a value is as good as one that is given nil. So programs whose statements
have, one by one, the same text are executed in the same way on every console: with the same writes,
the same result, and the same fault or none, but for its line. -/
theorem reversePolish_determines_ungrouped (source other : Text)
    (options otherOptions : ReadingOptions) :
    (∀ tree mate, source.ReadsAsExpression options tree →
      other.ReadsAsExpression otherOptions mate →
        (tree.reversePolish = mate.reversePolish ↔
          tree.ungrouped.unlined = mate.ungrouped.unlined)) ∧
    (∀ statements mates, source.ReadsAsProgram options statements →
      other.ReadsAsProgram otherOptions mates →
        (∀ statement ∈ statements, ∀ mate ∈ mates,
          (statement.reversePolish = mate.reversePolish ↔
            statement.ungrouped.unlined = mate.ungrouped.unlined)) ∧
        (statements.map Stmt.reversePolish = mates.map Stmt.reversePolish →
          ∀ (first second : Interpreter) (console : Console),
            (first.interpret console statements).1.unlined =
                (second.interpret console mates).1.unlined ∧
              (first.interpret console statements).2 = (second.interpret console mates).2)) := by
  constructor
  · intro tree mate htree hmate
    exact htree.legible.reversePolish_eq_iff hmate.legible
  · intro statements mates hstatements hmates
    have hiff : ∀ statement ∈ statements, ∀ mate ∈ mates,
        (statement.reversePolish = mate.reversePolish ↔
          statement.ungrouped.unlined = mate.ungrouped.unlined) :=
      fun statement hmem mate hmate =>
        (hstatements.legible statement hmem).reversePolish_eq_iff (hmates.legible mate hmate)
    refine ⟨hiff, fun htexts first second console => ?_⟩
    exact Interpreter.interpret_of_ungrouped_eq ((map_eq_map_iff hiff).mp htexts) first second
      console

/-- A variable without a value that is negated and subtracted from. -/
def negatedThenSubtracted : List Stmt :=
  [.declaration ⟨.identifier, ['x'], .none, 1⟩ none,
    .print (.binary
      (.unary ⟨.minus, ['-'], .none, 1⟩ (.grouping (.reference ⟨.identifier, ['x'], .none, 1⟩)))
      ⟨.minus, ['-'], .none, 1⟩ (.reference ⟨.identifier, ['x'], .none, 1⟩))]

/-- The same with nil for its value, other groupings and other lines. -/
def negatedThenSubtractedNil : List Stmt :=
  [.declaration ⟨.identifier, ['x'], .none, 1⟩ (some (.grouping (.literal (some .nil)))),
    .print (.binary
      (.grouping
        (.unary ⟨.minus, ['-'], .none, 2⟩ (.reference ⟨.identifier, ['x'], .none, 2⟩)))
      ⟨.minus, ['-'], .none, 2⟩ (.grouping (.reference ⟨.identifier, ['x'], .none, 2⟩)))]

/-- Two programs that fail at the same operator. -/
theorem reversePolish_determines_ungrouped_difference :
    Text.ReadsAsProgram "var x; print -(x) - x;".toList {} negatedThenSubtracted ∧
    Text.ReadsAsProgram "var x = (nil);\nprint (-x) - (x);".toList {} negatedThenSubtractedNil ∧
    negatedThenSubtracted.map Stmt.reversePolish =
      negatedThenSubtractedNil.map Stmt.reversePolish ∧
    ∀ (interpreter : Interpreter) (console : Console),
      (interpreter.interpret console negatedThenSubtracted).1.unlined =
        (interpreter.interpret console negatedThenSubtractedNil).1.unlined := by
  have hfirst : Text.ReadsAsProgram "var x; print -(x) - x;".toList {} negatedThenSubtracted := by
    decide +kernel
  have hsecond : Text.ReadsAsProgram "var x = (nil);\nprint (-x) - (x);".toList {}
      negatedThenSubtractedNil := by
    decide +kernel
  have htexts : negatedThenSubtracted.map Stmt.reversePolish =
      negatedThenSubtractedNil.map Stmt.reversePolish := by
    decide
  refine ⟨hfirst, hsecond, htexts, fun interpreter console => ?_⟩
  exact (((reversePolish_determines_ungrouped _ _ {} {}).2 _ _ hfirst hsecond).2 htexts
    interpreter interpreter console).1

end Lox
