import Lox.Reading.Expression

/-!
# The grammar of expressions

The layers of the grammar and what each of them derives, independently of any reader. A chain of a
level has a left operand of the same or a tighter layer and a right operand of a strictly tighter
one, so it groups to the left. A derivation names all tokens, while a tree forgets those of its
literals and parentheses. A canonical tree is one that some token list derives, and one such list is
its yield.
-/

namespace Lox

/-- A layer of the grammar, from the loosest to the tightest. -/
inductive Layer where
  /-- Chains of binary operators of one level. -/
  | chain (level : Level)
  /-- Unary operators before an operand. -/
  | unary
  /-- Literals, names and expressions in parentheses. -/
  | primary
  deriving DecidableEq, Repr

/-- The layer of a whole expression, which is the loosest one. -/
abbrev Layer.expression : Layer := .chain .equality

/-- How tight a level of binary operators binds. -/
def Level.precedence : Level → Nat
  | equality => 1
  | comparison => 2
  | term => 3
  | factor => 4

/-- How tight a layer binds. -/
def Layer.precedence : Layer → Nat
  | chain level => level.precedence
  | unary => 5
  | primary => 6

/-- The layer of the operands of a chain, one step tighter than the chain itself. -/
def Level.operand : Level → Layer
  | equality => .chain .comparison
  | comparison => .chain .term
  | term => .chain .factor
  | factor => .unary

/-- Operands bind one step tighter than the chain they stand in. -/
@[simp] theorem Level.operand_precedence (level : Level) :
    level.operand.precedence = level.precedence + 1 := by
  cases level <;> rfl

/-- The level of a binary operator. -/
def Kind.level? : Kind → Option Level
  | bangEqual | equalEqual => some .equality
  | greater | greaterEqual | less | lessEqual => some .comparison
  | minus | plus => some .term
  | slash | star => some .factor
  | _ => none

/-- The operators of a level are the kinds that have this level. -/
theorem Level.has_iff (level : Level) (kind : Kind) :
    level.has kind = true ↔ kind.level? = some level := by
  cases kind <;> cases level <;> simp [Level.has, Kind.level?]

/-- A binary operator has one level. -/
theorem Level.has_unique {a b : Level} {kind : Kind} (ha : a.has kind = true)
    (hb : b.has kind = true) : a = b := by
  have hsome : some a = some b := by
    rw [← (a.has_iff kind).mp ha, ← (b.has_iff kind).mp hb]
  exact Option.some.inj hsome

/-- The value that a token stands for as an expression of its own. -/
def Token.value? (token : Token) : Option Value :=
  match token.kind with
  | .keyword .falseWord => some (.bool false)
  | .keyword .trueWord => some (.bool true)
  | .keyword .nilWord => some .nil
  | .number | .string => token.literal.value?
  | _ => none

/-- The token list is a derivation of the tree in the layer. -/
inductive Derives : Layer → Expr → List Token → Prop where
  /-- A number, a string, or one of the words for truth values and nil. -/
  | literal {token : Token} {value : Value} (hvalue : token.value? = some value) :
      Derives .primary (.literal (some value)) [token]
  /-- A name. -/
  | reference {name : Token} (hname : name.kind = .identifier) :
      Derives .primary (.reference name) [name]
  /-- An expression between parentheses. -/
  | grouping {opening closing : Token} {inner : Expr} {tokens : List Token}
      (hopening : opening.kind = .leftParen) (hinner : Derives .expression inner tokens)
      (hclosing : closing.kind = .rightParen) :
      Derives .primary (.grouping inner) (opening :: tokens ++ [closing])
  /-- Whatever is primary is also an operand. -/
  | primary {tree : Expr} {tokens : List Token} (h : Derives .primary tree tokens) :
      Derives .unary tree tokens
  /-- A unary operator before an operand. -/
  | unary {operator : Token} {operand : Expr} {tokens : List Token}
      (hoperator : operator.kind.isUnary = true) (hoperand : Derives .unary operand tokens) :
      Derives .unary (.unary operator operand) (operator :: tokens)
  /-- An operand alone is a chain. -/
  | operand {level : Level} {tree : Expr} {tokens : List Token}
      (h : Derives level.operand tree tokens) : Derives (.chain level) tree tokens
  /-- A chain goes on with an operator of its level and one more operand. -/
  | chain {level : Level} {left right : Expr} {operator : Token} {before after : List Token}
      (hleft : Derives (.chain level) left before) (hoperator : level.has operator.kind = true)
      (hright : Derives level.operand right after) :
      Derives (.chain level) (.binary left operator right) (before ++ operator :: after)

/-- The tree has the shape that a layer derives. -/
def Expr.Canonical : Layer → Expr → Prop
  | _, literal value => value.isSome
  | _, grouping inner => inner.Canonical .expression
  | layer, unary operator operand =>
    layer.precedence ≤ Layer.unary.precedence ∧ operator.kind.isUnary = true ∧
      operand.Canonical .unary
  | layer, binary left operator right =>
    ∃ level : Level, layer.precedence ≤ level.precedence ∧ level.has operator.kind = true ∧
      left.Canonical (.chain level) ∧ right.Canonical level.operand
  | _, reference name => name.kind = .identifier

/-- A token that stands for a value. -/
def Value.token : Value → Token
  | nil => ⟨.keyword .nilWord, Keyword.nilWord.spelling, .none, 1⟩
  | bool b =>
    let word := if b then Keyword.trueWord else Keyword.falseWord
    ⟨.keyword word, word.spelling, .none, 1⟩
  | number x => ⟨.number, (Value.number x).text, .number x, 1⟩
  | string s => ⟨.string, '"' :: s ++ ['"'], .string s, 1⟩

/-- The tokens of a tree in order, with one token made up for each literal and parenthesis. -/
def Expr.yield : Expr → List Token
  | literal value => value.toList.map Value.token
  | grouping inner =>
    ⟨.leftParen, ['('], .none, 1⟩ :: inner.yield ++ [⟨.rightParen, [')'], .none, 1⟩]
  | unary operator operand => operator :: operand.yield
  | binary left operator right => left.yield ++ operator :: right.yield
  | reference name => [name]

/-- Layers are told apart by how tight they bind. -/
theorem Layer.eq_of_precedence {a b : Layer} (h : a.precedence = b.precedence) : a = b := by
  rcases a with (_ | _ | _ | _) | _ | _ <;> rcases b with (_ | _ | _ | _) | _ | _ <;>
    simp_all [Layer.precedence, Level.precedence]

/-- Nothing binds tighter than a primary expression. -/
theorem Layer.precedence_le_primary (layer : Layer) :
    layer.precedence ≤ Layer.primary.precedence := by
  rcases layer with (_ | _ | _ | _) | _ | _ <;> decide

/-- Whatever a layer derives is derived by every looser layer too. -/
theorem Derives.loosen {inner outer : Layer} {tree : Expr} {tokens : List Token}
    (h : Derives inner tree tokens) (hle : outer.precedence ≤ inner.precedence) :
    Derives outer tree tokens := by
  induction hgap : inner.precedence - outer.precedence generalizing outer with
  | zero =>
    have heq : outer = inner := Layer.eq_of_precedence (by omega)
    rw [heq]
    exact h
  | succ gap ih =>
    cases outer with
    | chain level =>
      have hstep : level.operand.precedence = (Layer.chain level).precedence + 1 :=
        level.operand_precedence
      exact .operand (ih (by omega) (by omega))
    | unary =>
      have hmost := inner.precedence_le_primary
      have hunary : Layer.unary.precedence = 5 := rfl
      have hprimary : Layer.primary.precedence = 6 := rfl
      have heq : inner = .primary := Layer.eq_of_precedence (by omega)
      rw [heq] at h
      exact .primary h
    | primary =>
      have hmost := inner.precedence_le_primary
      omega

/-- A shape of a layer is a shape of every looser layer. -/
theorem Expr.Canonical.loosen {inner outer : Layer} {tree : Expr} (h : tree.Canonical inner)
    (hle : outer.precedence ≤ inner.precedence) : tree.Canonical outer := by
  cases tree with
  | literal value => exact h
  | grouping tree => exact h
  | reference name => exact h
  | unary operator operand =>
    obtain ⟨hlayer, hoperator, hoperand⟩ := h
    exact ⟨Nat.le_trans hle hlayer, hoperator, hoperand⟩
  | binary left operator right =>
    obtain ⟨level, hlayer, hrest⟩ := h
    exact ⟨level, Nat.le_trans hle hlayer, hrest⟩

/-- Only canonical trees are derived. -/
theorem Derives.canonical {layer : Layer} {tree : Expr} {tokens : List Token}
    (h : Derives layer tree tokens) : tree.Canonical layer := by
  induction h with
  | literal hvalue => rfl
  | reference hname => exact hname
  | grouping hopening hinner hclosing ih => exact ih
  | primary h ih => exact ih.loosen (by decide)
  | unary hoperator hoperand ih => exact ⟨Nat.le_refl _, hoperator, ih⟩
  | operand h ih => exact ih.loosen (by rw [Level.operand_precedence]; exact Nat.le_succ _)
  | chain hleft hoperator hright ihleft ihright =>
    exact ⟨_, Nat.le_refl _, hoperator, ihleft, ihright⟩

/-- The token made up for a value stands for it. -/
theorem Value.token_value? (value : Value) : value.token.value? = some value := by
  cases value with
  | bool b => cases b <;> rfl
  | nil => rfl
  | number x => rfl
  | string s => rfl

/-- Every canonical tree is derived by its yield. -/
theorem Expr.Canonical.derives_yield {layer : Layer} {tree : Expr} (h : tree.Canonical layer) :
    Derives layer tree tree.yield := by
  induction tree generalizing layer with
  | literal value =>
    obtain ⟨value, rfl⟩ := Option.isSome_iff_exists.mp h
    exact (Derives.literal value.token_value?).loosen layer.precedence_le_primary
  | reference name =>
    exact (Derives.reference h).loosen layer.precedence_le_primary
  | grouping inner ih =>
    have hprimary : Derives .primary (.grouping inner) (Expr.grouping inner).yield :=
      .grouping rfl (ih h) rfl
    exact hprimary.loosen layer.precedence_le_primary
  | unary operator operand ih =>
    obtain ⟨hlayer, hoperator, hoperand⟩ := h
    exact (Derives.unary hoperator (ih hoperand)).loosen hlayer
  | binary left operator right ihleft ihright =>
    obtain ⟨level, hlayer, hoperator, hleft, hright⟩ := h
    exact (Derives.chain (ihleft hleft) hoperator (ihright hright)).loosen hlayer

/-- The kinds that an expression can begin with. -/
def Kind.opensExpression : Kind → Bool
  | number | string | identifier | leftParen | bang | minus => true
  | keyword .falseWord | keyword .trueWord | keyword .nilWord => true
  | _ => false

/-- A token that stands for a value begins an expression. -/
theorem Token.opens_of_value? {token : Token} {value : Value} (h : token.value? = some value) :
    token.kind.opensExpression = true := by
  unfold Token.value? at h
  split at h <;> simp_all [Kind.opensExpression]

/-- A unary operator begins an expression. -/
theorem Kind.opens_of_isUnary {kind : Kind} (h : kind.isUnary = true) :
    kind.opensExpression = true := by
  simp only [Kind.isUnary, Bool.or_eq_true, decide_eq_true_eq] at h
  rcases h with rfl | rfl <;> rfl

/-- A derivation has a first token, and that begins an expression. -/
theorem Derives.first {layer : Layer} {tree : Expr} {tokens : List Token}
    (h : Derives layer tree tokens) :
    ∃ token rest, tokens = token :: rest ∧ token.kind.opensExpression = true := by
  induction h with
  | literal hvalue => exact ⟨_, _, rfl, Token.opens_of_value? hvalue⟩
  | reference hname => exact ⟨_, _, rfl, by rw [hname]; rfl⟩
  | grouping hopening hinner hclosing ih => exact ⟨_, _, rfl, by rw [hopening]; rfl⟩
  | primary h ih => exact ih
  | unary hoperator hoperand ih => exact ⟨_, _, rfl, Kind.opens_of_isUnary hoperator⟩
  | operand h ih => exact ih
  | chain hleft hoperator hright ihleft ihright =>
    obtain ⟨token, rest, rfl, hopens⟩ := ihleft
    exact ⟨token, _, rfl, hopens⟩

/-- The kinds that occur in an expression. -/
def Kind.inExpression (kind : Kind) : Bool :=
  kind.opensExpression || kind = .rightParen || kind.level?.isSome

/-- What begins an expression occurs in one. -/
theorem Kind.inExpression_of_opens {kind : Kind} (h : kind.opensExpression = true) :
    kind.inExpression = true := by
  simp [Kind.inExpression, h]

/-- A binary operator occurs in an expression. -/
theorem Level.inExpression_of_has {level : Level} {kind : Kind} (h : level.has kind = true) :
    kind.inExpression = true := by
  rw [Level.has_iff] at h
  simp [Kind.inExpression, h]

/-- Nothing else stands in a derivation. -/
theorem Derives.inExpression {layer : Layer} {tree : Expr} {tokens : List Token}
    (h : Derives layer tree tokens) : ∀ token ∈ tokens, token.kind.inExpression = true := by
  induction h with
  | literal hvalue =>
    rw [List.forall_mem_singleton]
    exact Kind.inExpression_of_opens (Token.opens_of_value? hvalue)
  | reference hname =>
    rw [List.forall_mem_singleton, hname]
    rfl
  | grouping hopening hinner hclosing ih =>
    rw [List.cons_append, List.forall_mem_cons, List.forall_mem_append,
      List.forall_mem_singleton, hopening, hclosing]
    exact ⟨rfl, ih, rfl⟩
  | primary h ih => exact ih
  | unary hoperator hoperand ih =>
    rw [List.forall_mem_cons]
    exact ⟨Kind.inExpression_of_opens (Kind.opens_of_isUnary hoperator), ih⟩
  | operand h ih => exact ih
  | chain hleft hoperator hright ihleft ihright =>
    rw [List.forall_mem_append, List.forall_mem_cons]
    exact ⟨ihleft, Level.inExpression_of_has hoperator, ihright⟩

/-- The end of the source does not stand in a derivation. -/
theorem Derives.isEnd_eq_false {layer : Layer} {tree : Expr} {tokens : List Token}
    (h : Derives layer tree tokens) : ∀ token ∈ tokens, token.isEnd = false := by
  intro token hmem
  have hkind := h.inExpression token hmem
  rw [Token.isEnd, beq_eq_false_iff_ne]
  intro hend
  rw [hend] at hkind
  cases hkind

end Lox
