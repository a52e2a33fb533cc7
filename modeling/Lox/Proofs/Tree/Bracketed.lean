import Lox.Proofs.Tree.Legible

/-!
# S-expressions determine trees

The text of a tree in brackets is read in two steps. An atom ends at the first delimiter and a list
at the parenthesis that closes it, so the text determines an S-expression of atoms. The head of a
list tells what node it is: a grouping is headed by a word, an operator by its sign and a statement
by a semicolon or a keyword. So the S-expression determines the tree, but for the lines of its
tokens.
-/

namespace Lox

/-- An S-expression of atoms. A list has a head and one or two parts. -/
inductive SExpr where
  /-- An atom by itself. -/
  | atom (mark : Atom)
  /-- A list with one part. -/
  | one (head : Atom) (part : SExpr)
  /-- A list with two parts. -/
  | two (head : Atom) (first second : SExpr)

namespace SExpr

/-- How an S-expression is written. -/
def text : SExpr → Text
  | atom mark => mark.text
  | one head part => parenthesized head.text [part.text]
  | two head first second => parenthesized head.text [first.text, second.text]

/-- An S-expression without the lines of its tokens. -/
def unlined : SExpr → SExpr
  | atom mark => atom mark.unlined
  | one head part => one head.unlined part.unlined
  | two head first second => two head.unlined first.unlined second.unlined

/-- All atoms can stand in a notation. -/
def Legible : SExpr → Prop
  | atom mark => mark.Legible
  | one head part => head.Legible ∧ part.Legible
  | two head first second => head.Legible ∧ first.Legible ∧ second.Legible

theorem text_one_append (head : Atom) (part : SExpr) (after : Text) :
    (one head part).text ++ after =
      '(' :: (head.text ++ ' ' :: (part.text ++ ')' :: after)) := by
  simp [text, parenthesized]

theorem text_two_append (head : Atom) (first second : SExpr) (after : Text) :
    (two head first second).text ++ after =
      '(' :: (head.text ++ ' ' :: (first.text ++ ' ' :: (second.text ++ ')' :: after))) := by
  simp [text, parenthesized]

/-- S-expressions before delimiters are told apart, but for the lines of tokens. -/
theorem Legible.append_inj {sexpr other : SExpr} {after later : Text} (hsexpr : sexpr.Legible)
    (hother : other.Legible) (hafter : after.Stops) (hlater : later.Stops)
    (h : sexpr.text ++ after = other.text ++ later) :
    sexpr.unlined = other.unlined ∧ after = later := by
  have hspace (rest : Text) : Text.Stops (' ' :: rest) := Text.stops_cons (by decide) rest
  have hclose (rest : Text) : Text.Stops (')' :: rest) := Text.stops_cons (by decide) rest
  -- A list is read from its head on; each part ends where the delimiter after it stands, so both
  -- texts have the same parts up to the first place where one list is closed and the other is not.
  induction sexpr generalizing other after later with
  | atom mark =>
    cases other with
    | atom mate =>
      obtain ⟨hmark, hrest⟩ := Atom.Legible.append_inj hsexpr hother hafter hlater h
      exact ⟨congrArg atom hmark, hrest⟩
    | one head part =>
      rw [text_one_append] at h
      exact absurd h (Atom.Legible.append_ne_cons hsexpr _ _)
    | two head first second =>
      rw [text_two_append] at h
      exact absurd h (Atom.Legible.append_ne_cons hsexpr _ _)
  | one head part ih =>
    rw [text_one_append] at h
    cases other with
    | atom mate => exact absurd h.symm (Atom.Legible.append_ne_cons hother _ _)
    | one mate mates =>
      rw [text_one_append] at h
      obtain ⟨hhead, h⟩ := hsexpr.1.append_inj hother.1 (hspace _) (hspace _) (List.cons.inj h).2
      obtain ⟨hpart, h⟩ := ih hsexpr.2 hother.2 (hclose _) (hclose _) (List.cons.inj h).2
      exact ⟨by rw [unlined, unlined, hhead, hpart], (List.cons.inj h).2⟩
    | two mate first second =>
      rw [text_two_append] at h
      obtain ⟨-, h⟩ := hsexpr.1.append_inj hother.1 (hspace _) (hspace _) (List.cons.inj h).2
      obtain ⟨-, h⟩ := ih hsexpr.2 hother.2.1 (hclose _) (hspace _) (List.cons.inj h).2
      exact absurd (List.cons.inj h).1 (by decide)
  | two head first second ihfirst ihsecond =>
    rw [text_two_append] at h
    cases other with
    | atom mate => exact absurd h.symm (Atom.Legible.append_ne_cons hother _ _)
    | one mate part =>
      rw [text_one_append] at h
      obtain ⟨-, h⟩ := hsexpr.1.append_inj hother.1 (hspace _) (hspace _) (List.cons.inj h).2
      obtain ⟨-, h⟩ := ihfirst hsexpr.2.1 hother.2 (hspace _) (hclose _) (List.cons.inj h).2
      exact absurd (List.cons.inj h).1 (by decide)
    | two mate left right =>
      rw [text_two_append] at h
      obtain ⟨hhead, h⟩ := hsexpr.1.append_inj hother.1 (hspace _) (hspace _) (List.cons.inj h).2
      obtain ⟨hfirst, h⟩ :=
        ihfirst hsexpr.2.1 hother.2.1 (hspace _) (hspace _) (List.cons.inj h).2
      obtain ⟨hsecond, h⟩ :=
        ihsecond hsexpr.2.2 hother.2.2 (hclose _) (hclose _) (List.cons.inj h).2
      exact ⟨by rw [unlined, unlined, hhead, hfirst, hsecond], (List.cons.inj h).2⟩

/-- S-expressions that are written in the same way are the same, but for the lines of tokens. -/
theorem Legible.unlined_eq {sexpr other : SExpr} (hsexpr : sexpr.Legible)
    (hother : other.Legible) (h : sexpr.text = other.text) : sexpr.unlined = other.unlined := by
  have hend : Text.Stops [] := nofun
  exact (hsexpr.append_inj hother hend hend (congrArg (· ++ []) h)).1

/-- S-expressions that are written in the same way show the same, if that has no lines. -/
theorem Legible.shown_eq {α : Type} {shown? : SExpr → Option α} {sexpr other : SExpr}
    {item mate : α} (hsexpr : sexpr.Legible) (hother : other.Legible)
    (hitem : shown? sexpr.unlined = some item) (hmate : shown? other.unlined = some mate)
    (h : sexpr.text = other.text) : item = mate := by
  rw [hsexpr.unlined_eq hother h, hmate] at hitem
  exact (Option.some.inj hitem).symm

/-- There is no line feed in an S-expression. -/
theorem Legible.lineFeed_not_mem {sexpr : SExpr} (h : sexpr.Legible) : '\n' ∉ sexpr.text := by
  induction sexpr with
  | atom mark => exact Atom.Legible.lineFeed_not_mem h
  | one head part ih =>
    have hhead := h.1.lineFeed_not_mem
    have hpart := ih h.2
    simp [text, parenthesized, hhead, hpart]
  | two head first second ihfirst ihsecond =>
    have hhead := h.1.lineFeed_not_mem
    have hfirst := ihfirst h.2.1
    have hsecond := ihsecond h.2.2
    simp [text, parenthesized, hhead, hfirst, hsecond]

/-- The expression that an S-expression shows. A list that a word heads is a grouping. -/
def expr? : SExpr → Option Expr
  | atom mark => mark.leaf?
  | one (.lexeme head) part =>
    part.expr?.map (if head.kind = .identifier then .grouping else .unary head)
  | two (.lexeme head) first second =>
    first.expr?.bind fun left => second.expr?.map fun right => .binary left head right
  | _ => none

/-- The statement that an S-expression shows. -/
def stmt? : SExpr → Option Stmt
  | one (.lexeme head) part =>
    if head.kind = .keyword .varWord then
      match part with
      | atom (.lexeme name) => some (.declaration name none)
      | _ => none
    else part.expr?.map (if head.kind = .semicolon then .expression else .print)
  | two _ (atom (.lexeme name)) value =>
    value.expr?.map fun value => .declaration name (some value)
  | _ => none

end SExpr

namespace Expr

/-- An expression as an S-expression of atoms. -/
def sexpr : Expr → SExpr
  | literal value => .atom (Value.atomOf value)
  | grouping inner => .one (.lexeme ⟨.identifier, "group".toList, .none, 0⟩) inner.sexpr
  | unary operator operand => .one (.lexeme operator) operand.sexpr
  | binary left operator right => .two (.lexeme operator) left.sexpr right.sexpr
  | reference name => .atom (.lexeme name)

/-- The text in brackets is that of the S-expression. -/
theorem text_sexpr (tree : Expr) : tree.sexpr.text = tree.bracketed := by
  induction tree with
  | literal value => exact Value.text_atomOf value
  | grouping inner ih => simp only [sexpr, SExpr.text, bracketed, ih, Atom.text]
  | unary operator operand ih => simp only [sexpr, SExpr.text, bracketed, ih, Atom.text]
  | binary left operator right ihleft ihright =>
    simp only [sexpr, SExpr.text, bracketed, ihleft, ihright, Atom.text]
  | reference name => rfl

/-- All atoms of a tree that was read can stand in a notation. -/
theorem Legible.sexpr {tree : Expr} (h : tree.Legible) : tree.sexpr.Legible := by
  induction tree with
  | literal value =>
    obtain ⟨held, rfl, hheld⟩ := h
    exact hheld.atom
  | grouping inner ih =>
    have hword : Text.IsWord "group".toList := ⟨by decide, List.all_eq_true.mp (by decide)⟩
    have hfree (word : Keyword) : word.spelling ≠ "group".toList := by cases word <;> decide
    exact ⟨⟨⟨.identifier hword hfree, .none _ nofun nofun⟩, by decide⟩, ih h⟩
  | unary operator operand ih => exact ⟨Token.Genuine.unary_legible h.2.1 h.1, ih h.2.2⟩
  | binary left operator right ihleft ihright =>
    exact ⟨Token.Genuine.binary_legible h.2.2.1 h.2.1, ihleft h.1, ihright h.2.2.2⟩
  | reference name => exact Token.Genuine.name_legible h.2 h.1

/-- The S-expression of a tree that was read shows this tree. -/
theorem Legible.expr?_sexpr {tree : Expr} (h : tree.Legible) :
    tree.sexpr.unlined.expr? = some tree.unlined := by
  induction tree with
  | literal value =>
    obtain ⟨held, rfl, hheld⟩ := h
    exact held.leaf?_atom
  | grouping inner ih =>
    simp only [Expr.sexpr, SExpr.unlined, Atom.unlined, SExpr.expr?, ih h]
    rfl
  | unary operator operand ih =>
    have hkind : operator.unlined.kind ≠ .identifier := by
      intro hkind
      cases hkind ▸ h.1
    simp only [Expr.sexpr, SExpr.unlined, Atom.unlined, SExpr.expr?, ih h.2.2, if_neg hkind]
    rfl
  | binary left operator right ihleft ihright =>
    simp only [Expr.sexpr, SExpr.unlined, Atom.unlined, SExpr.expr?, ihleft h.1, ihright h.2.2.2]
    rfl
  | reference name => exact Token.leaf?_of_identifier h.1

end Expr

namespace Stmt

/-- A statement as an S-expression of atoms. -/
def sexpr : Stmt → SExpr
  | expression value => .one (.lexeme Token.semicolon) value.sexpr
  | print value => .one (.lexeme Keyword.printWord.token) value.sexpr
  | declaration name none => .one (.lexeme Keyword.varWord.token) (.atom (.lexeme name))
  | declaration name (some initializer) =>
    .two (.lexeme Keyword.varWord.token) (.atom (.lexeme name)) initializer.sexpr

/-- The text in brackets is that of the S-expression. -/
theorem text_sexpr (statement : Stmt) : statement.sexpr.text = statement.bracketed := by
  have hvar : Keyword.varWord.spelling = "var".toList := rfl
  rcases statement with value | value | ⟨name, _ | initializer⟩
  · simp only [sexpr, SExpr.text, bracketed, Expr.text_sexpr, Atom.text]
    rfl
  · simp only [sexpr, SExpr.text, bracketed, Expr.text_sexpr, Atom.text]
    rfl
  · simp [sexpr, SExpr.text, bracketed, Atom.text, parenthesized, Keyword.token, hvar]
  · simp [sexpr, SExpr.text, bracketed, Expr.text_sexpr, Atom.text, parenthesized, Keyword.token,
      hvar]

/-- All atoms of a statement that was read can stand in a notation. -/
theorem Legible.sexpr {statement : Stmt} (h : statement.Legible) : statement.sexpr.Legible := by
  rcases statement with value | value | ⟨name, _ | initializer⟩
  · exact ⟨Token.semicolon_legible, Expr.Legible.sexpr h⟩
  · exact ⟨Keyword.printWord.atom_legible, Expr.Legible.sexpr h⟩
  · exact ⟨Keyword.varWord.atom_legible, h.2.1.name_legible h.1⟩
  · exact ⟨Keyword.varWord.atom_legible, h.2.1.name_legible h.1, (h.2.2 initializer rfl).sexpr⟩

/-- The S-expression of a statement that was read shows this statement. -/
theorem Legible.stmt?_sexpr {statement : Stmt} (h : statement.Legible) :
    statement.sexpr.unlined.stmt? = some statement.unlined := by
  rcases statement with value | value | ⟨name, _ | initializer⟩
  · simp only [Stmt.sexpr, SExpr.unlined, Atom.unlined, SExpr.stmt?, Expr.Legible.expr?_sexpr h]
    rfl
  · simp only [Stmt.sexpr, SExpr.unlined, Atom.unlined, SExpr.stmt?, Expr.Legible.expr?_sexpr h]
    rfl
  · rfl
  · simp only [Stmt.sexpr, SExpr.unlined, Atom.unlined, SExpr.stmt?,
      (h.2.2 initializer rfl).expr?_sexpr]
    rfl

end Stmt

/-- The text of a tree in brackets has no line feed. -/
theorem Expr.Legible.lineFeed_not_mem_bracketed {tree : Expr} (h : tree.Legible) :
    '\n' ∉ tree.bracketed := by
  rw [← tree.text_sexpr]
  exact h.sexpr.lineFeed_not_mem

/-- The text of a statement in brackets has no line feed. -/
theorem Stmt.Legible.lineFeed_not_mem_bracketed {statement : Stmt} (h : statement.Legible) :
    '\n' ∉ statement.bracketed := by
  rw [← statement.text_sexpr]
  exact h.sexpr.lineFeed_not_mem

/-- Trees have the same text in brackets exactly if they are the same, but for lines. -/
theorem Expr.Legible.bracketed_eq_iff {tree other : Expr} (htree : tree.Legible)
    (hother : other.Legible) :
    tree.bracketed = other.bracketed ↔ tree.unlined = other.unlined := by
  constructor
  · intro h
    rw [← tree.text_sexpr, ← other.text_sexpr] at h
    exact htree.sexpr.shown_eq hother.sexpr htree.expr?_sexpr hother.expr?_sexpr h
  · intro h
    rw [← tree.bracketed_unlined, h, other.bracketed_unlined]

/-- Statements have the same text in brackets exactly if they are the same, but for lines. -/
theorem Stmt.Legible.bracketed_eq_iff {statement other : Stmt} (hstatement : statement.Legible)
    (hother : other.Legible) :
    statement.bracketed = other.bracketed ↔ statement.unlined = other.unlined := by
  constructor
  · intro h
    rw [← statement.text_sexpr, ← other.text_sexpr] at h
    exact hstatement.sexpr.shown_eq hother.sexpr hstatement.stmt?_sexpr hother.stmt?_sexpr h
  · intro h
    rw [← statement.bracketed_unlined, h, other.bracketed_unlined]

/-- The text in brackets determines the tree. If two sources are read without a fault, their
expressions have the same text exactly if they are the same tree, but for the lines of tokens. The
statements of programs are compared in the same way, each with each and one by one. None of these
texts has a line feed, so that a tree is always on one line. -/
theorem bracketed_determines_trees (source other : Text) (options otherOptions : ReadingOptions) :
    (∀ tree mate, source.ReadsAsExpression options tree →
      other.ReadsAsExpression otherOptions mate →
        (tree.bracketed = mate.bracketed ↔ tree.unlined = mate.unlined) ∧
        '\n' ∉ tree.bracketed) ∧
    (∀ statements mates, source.ReadsAsProgram options statements →
      other.ReadsAsProgram otherOptions mates →
        (∀ statement ∈ statements, ∀ mate ∈ mates,
          (statement.bracketed = mate.bracketed ↔ statement.unlined = mate.unlined)) ∧
        (statements.map Stmt.bracketed = mates.map Stmt.bracketed ↔
          statements.map Stmt.unlined = mates.map Stmt.unlined) ∧
        ∀ statement ∈ statements, '\n' ∉ statement.bracketed) := by
  constructor
  · intro tree mate htree hmate
    exact ⟨htree.legible.bracketed_eq_iff hmate.legible, htree.legible.lineFeed_not_mem_bracketed⟩
  · intro statements mates hstatements hmates
    have hiff : ∀ statement ∈ statements, ∀ mate ∈ mates,
        (statement.bracketed = mate.bracketed ↔ statement.unlined = mate.unlined) :=
      fun statement hmem mate hmate =>
        (hstatements.legible statement hmem).bracketed_eq_iff (hmates.legible mate hmate)
    exact ⟨hiff, map_eq_map_iff hiff, fun statement hmem =>
      (hstatements.legible statement hmem).lineFeed_not_mem_bracketed⟩

/-- A variable with the name that heads groupings, in parentheses and negated, with the variable on
the given line. -/
def negatedGroup (line : Int) : Expr :=
  .unary ⟨.minus, ['-'], .none, 1⟩
    (.grouping (.reference ⟨.identifier, "group".toList, .none, line⟩))

/-- This expression on one line and on two, alone and printed. -/
theorem bracketed_determines_trees_group :
    Text.ReadsAsExpression "-(group)".toList {} (negatedGroup 1) ∧
    Text.ReadsAsExpression "-(\ngroup)".toList {} (negatedGroup 2) ∧
    Text.ReadsAsProgram "print -(group);".toList {} [.print (negatedGroup 1)] ∧
    Text.ReadsAsProgram "print -(\ngroup);".toList {} [.print (negatedGroup 2)] ∧
    ((negatedGroup 1).bracketed = (negatedGroup 2).bracketed ↔
      (negatedGroup 1).unlined = (negatedGroup 2).unlined) ∧
    '\n' ∉ (Stmt.print (negatedGroup 1)).bracketed := by
  have hfirst : Text.ReadsAsExpression "-(group)".toList {} (negatedGroup 1) := by
    decide +kernel
  have hsecond : Text.ReadsAsExpression "-(\ngroup)".toList {} (negatedGroup 2) := by
    decide +kernel
  have hprogram : Text.ReadsAsProgram "print -(group);".toList {} [.print (negatedGroup 1)] := by
    decide +kernel
  have hother : Text.ReadsAsProgram "print -(\ngroup);".toList {} [.print (negatedGroup 2)] := by
    decide +kernel
  exact ⟨hfirst, hsecond, hprogram, hother,
    ((bracketed_determines_trees _ _ {} {}).1 _ _ hfirst hsecond).1,
    ((bracketed_determines_trees _ _ {} {}).2 _ _ hprogram hother).2.2 _ List.mem_cons_self⟩

end Lox
