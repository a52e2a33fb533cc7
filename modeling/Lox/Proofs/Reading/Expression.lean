import Lox.Parser
import Lox.Proofs.Reading.Grammar

/-!
# Reading expressions follows the grammar

The reader of a layer accepts exactly what the layer derives within the allowance of nesting, and
builds the derived tree. Soundness follows the readers: what each of them takes is a derivation.
Completeness follows the derivation. A chain grows at its right end while it is read from the left,
so its statement is about reading on: after the tokens of a derivation the reader is where it would
be with the derived tree as left operand.
-/

namespace Lox

namespace Reader

/-- The reader of a layer with the given allowance of nesting. -/
def layer (stop : Token) (allowance : Nat) : Layer → Reader Expr
  | .chain .equality =>
    chain .equality (chain .comparison (chain .term (chain .factor (operand stop allowance))))
  | .chain .comparison => chain .comparison (chain .term (chain .factor (operand stop allowance)))
  | .chain .term => chain .term (chain .factor (operand stop allowance))
  | .chain .factor => chain .factor (operand stop allowance)
  | .unary => operand stop allowance
  | .primary => operand stop allowance

/-- The reader of a chain is made of the reader of its operands. -/
theorem layer_chain (stop : Token) (allowance : Nat) (level : Level) :
    layer stop allowance (.chain level) = chain level (layer stop allowance level.operand) := by
  cases level <;> rfl

/-- What the reader accepts is derived by the tokens it took, within the allowance. -/
def Sound (reader : Reader Expr) (layer : Layer) (allowance : Nat) : Prop :=
  ∀ tokens tree rest, reader.run tokens = .accepted tree rest →
    ∃ taken, tokens = taken ++ rest ∧ Derives layer tree taken ∧ tree.nesting ≤ allowance

section Soundness

variable {level : Level} {inner : Reader Expr} {allowance : Nat} {stop : Token}

/-- Reading on after a left operand extends the derivation of the operand. -/
theorem chainFrom_sound (hinner : inner.Sound level.operand allowance) {left tree : Expr}
    {tokens before rest : List Token} (hleft : Derives (.chain level) left before)
    (hnesting : left.nesting ≤ allowance)
    (h : chainFrom level inner left tokens = .accepted tree rest) :
    ∃ taken, tokens = taken ++ rest ∧ Derives (.chain level) tree (before ++ taken) ∧
      tree.nesting ≤ allowance := by
  fun_induction chainFrom level inner left tokens generalizing before with
  | case1 left =>
    cases h
    exact ⟨[], rfl, by rwa [List.append_nil], hnesting⟩
  | case2 left token others hop right after hrun ih =>
    obtain ⟨middle, rfl, hright, hrightNesting⟩ := hinner _ _ _ hrun
    have hbinary := Derives.chain hleft hop hright
    have hbinaryNesting := Nat.max_le.mpr ⟨hnesting, hrightNesting⟩
    obtain ⟨more, rfl, htree, htreeNesting⟩ := ih hbinary hbinaryNesting h
    refine ⟨token :: middle ++ more, by simp, ?_, htreeNesting⟩
    simpa using htree
  | case3 left token others hop fault after hrun => cases h
  | case4 left token others hop =>
    cases h
    exact ⟨[], rfl, by rwa [List.append_nil], hnesting⟩

/-- A chain of derived operands is derived. -/
theorem chain_sound (hinner : inner.Sound level.operand allowance) :
    (chain level inner).Sound (.chain level) allowance := by
  intro tokens tree rest h
  simp only [chain, chainRun] at h
  cases hrun : inner.run tokens with
  | refused fault after =>
    rw [hrun] at h
    cases h
  | accepted left after =>
    rw [hrun] at h
    obtain ⟨before, rfl, hleft, hnesting⟩ := hinner _ _ _ hrun
    obtain ⟨taken, rfl, htree, htreeNesting⟩ := chainFrom_sound hinner (.operand hleft) hnesting h
    exact ⟨before ++ taken, by simp, htree, htreeNesting⟩

/-- All levels of operators above derived operands are derived. -/
theorem levels_sound (hinner : inner.Sound .unary allowance) :
    inner.levels.Sound .expression allowance := by
  have hfactor : (chain .factor inner).Sound (.chain .factor) allowance := chain_sound hinner
  have hterm : (chain .term (chain .factor inner)).Sound (.chain .term) allowance :=
    chain_sound hfactor
  exact chain_sound (chain_sound hterm)

/-- The reader of what is nested, if there is one, is sound for an allowance that is one less. -/
def InnerSound (nested : Option (Reader Expr)) (allowance : Nat) : Prop :=
  ∀ reader ∈ nested, ∃ less, allowance = less + 1 ∧ reader.Sound .unary less

variable {nested : Option (Reader Expr)} {tokens rest : List Token} {tree : Expr}

/-- What is read after a unary operator completes the derivation of an operand. -/
theorem unaryRun_sound (hnested : InnerSound nested allowance) {operator : Token}
    (hoperator : operator.kind.isUnary = true)
    (h : unaryRun stop operator nested tokens = .accepted tree rest) :
    ∃ taken, tokens = taken ++ rest ∧ Derives .unary tree (operator :: taken) ∧
      tree.nesting ≤ allowance := by
  cases nested with
  | none => cases h
  | some reader =>
    obtain ⟨less, rfl, hreader⟩ := hnested reader rfl
    simp only [unaryRun] at h
    cases hrun : reader.run tokens with
    | refused fault after =>
      rw [hrun] at h
      cases h
    | accepted operand after =>
      rw [hrun] at h
      cases h
      obtain ⟨taken, rfl, hoperand, hnesting⟩ := hreader _ _ _ hrun
      exact ⟨taken, rfl, .unary hoperator hoperand, Nat.succ_le_succ hnesting⟩

/-- What is read after an opening parenthesis completes the derivation of a grouping. -/
theorem groupingRun_sound (hnested : InnerSound nested allowance) {opening : Token}
    (hopening : opening.kind = .leftParen)
    (h : groupingRun stop nested tokens = .accepted tree rest) :
    ∃ taken, tokens = taken ++ rest ∧ Derives .primary tree (opening :: taken) ∧
      tree.nesting ≤ allowance := by
  cases nested with
  | none => cases h
  | some reader =>
    obtain ⟨less, rfl, hreader⟩ := hnested reader rfl
    simp only [groupingRun] at h
    cases hrun : reader.levels.run tokens with
    | refused fault after =>
      rw [hrun] at h
      cases h
    | accepted inside after =>
      rw [hrun] at h
      obtain ⟨taken, rfl, hinside, hnesting⟩ := levels_sound hreader _ _ _ hrun
      cases after with
      | nil => cases h
      | cons closing others =>
        simp only [closeRun] at h
        split at h
        · rename_i hclosing
          cases h
          refine ⟨taken ++ [closing], by simp, ?_, Nat.succ_le_succ hnesting⟩
          exact .grouping hopening hinside hclosing
        · cases h

/-- What an operand begins with decides how it is read: a unary operator, a token that stands for a
value, a name or an opening parenthesis. A number or string without a value is passed over. -/
theorem operandRun_cons (stop : Token) (nested : Option (Reader Expr)) (token : Token)
    (rest : List Token) :
    operandRun stop nested (token :: rest) =
      if token.kind.isUnary then unaryRun stop token nested rest
      else
        match token.value? with
        | some value => .accepted (.literal (some value)) rest
        | none =>
          if token.kind = .identifier then .accepted (.reference token) rest
          else if token.kind = .leftParen then groupingRun stop nested rest
          else .refused ⟨token, .expectedExpression⟩
            (if token.kind = .number ∨ token.kind = .string then rest else token :: rest) := by
  simp only [operandRun]
  split
  · rfl
  · split
    · rename_i hkind
      simp only [Token.value?, hkind]
    · rename_i hkind
      simp only [Token.value?, hkind]
    · rename_i hkind
      simp only [Token.value?, hkind]
    · rename_i hkind
      simp only [Token.value?, hkind]
      cases token.literal.value? <;> simp
    · rename_i hkind
      simp only [Token.value?, hkind]
      cases token.literal.value? <;> simp
    · rename_i hkind
      simp [Token.value?, hkind]
    · rename_i hkind
      simp [Token.value?, hkind]
    · rename_i hfalse htrue hnil hnumber hstring hname hparen
      have hvalue : token.value? = none := by
        unfold Token.value?
        split <;> simp_all
      have hliteral : ¬ (token.kind = .number ∨ token.kind = .string) :=
        fun hkind => hkind.elim hnumber hstring
      simp only [hvalue, if_neg hname, if_neg hparen, if_neg hliteral]

/-- Everything that is accepted as an operand begins in one of four ways. -/
theorem operandRun_accepted (h : operandRun stop nested tokens = .accepted tree rest) :
    ∃ token others, tokens = token :: others ∧
      ((token.kind.isUnary = true ∧ unaryRun stop token nested others = .accepted tree rest) ∨
        (∃ value, token.value? = some value ∧ tree = .literal (some value) ∧ rest = others) ∨
        (token.kind = .identifier ∧ tree = .reference token ∧ rest = others) ∨
        (token.kind = .leftParen ∧ groupingRun stop nested others = .accepted tree rest)) := by
  cases tokens with
  | nil => cases h
  | cons token others =>
    refine ⟨token, others, rfl, ?_⟩
    rw [operandRun_cons] at h
    split at h
    · rename_i hunary
      exact .inl ⟨hunary, h⟩
    · split at h
      · rename_i value hvalue
        cases h
        exact .inr (.inl ⟨value, hvalue, rfl, rfl⟩)
      · split at h
        · rename_i hname
          cases h
          exact .inr (.inr (.inl ⟨hname, rfl, rfl⟩))
        · split at h
          · rename_i hparen
            exact .inr (.inr (.inr ⟨hparen, h⟩))
          · cases h

/-- An operand is derived. -/
theorem operandRun_sound (hnested : InnerSound nested allowance)
    (h : operandRun stop nested tokens = .accepted tree rest) :
    ∃ taken, tokens = taken ++ rest ∧ Derives .unary tree taken ∧ tree.nesting ≤ allowance := by
  obtain ⟨token, others, rfl, hcases⟩ := operandRun_accepted h
  rcases hcases with ⟨hunary, hrun⟩ | ⟨value, hvalue, rfl, rfl⟩ | ⟨hname, rfl, rfl⟩ | ⟨hparen, hrun⟩
  · obtain ⟨taken, rfl, htree, hnesting⟩ := unaryRun_sound hnested hunary hrun
    exact ⟨token :: taken, rfl, htree, hnesting⟩
  · exact ⟨[token], rfl, .primary (.literal hvalue), Nat.zero_le _⟩
  · exact ⟨[token], rfl, .primary (.reference hname), Nat.zero_le _⟩
  · obtain ⟨taken, rfl, htree, hnesting⟩ := groupingRun_sound hnested hparen hrun
    exact ⟨token :: taken, rfl, .primary htree, hnesting⟩

/-- The reader of operands is sound for every allowance. -/
theorem operand_sound (stop : Token) (allowance : Nat) :
    (operand stop allowance).Sound .unary allowance := by
  induction allowance with
  | zero =>
    intro tokens tree rest h
    exact operandRun_sound (fun reader hmem => absurd hmem (Option.not_mem_none reader)) h
  | succ allowance ih =>
    intro tokens tree rest h
    refine operandRun_sound (fun reader hmem => ?_) h
    cases hmem
    exact ⟨allowance, rfl, ih⟩

/-- What is read as an expression is derived as one, within the allowance. -/
theorem expression_sound (stop : Token) (allowance : Nat) :
    (expression stop allowance).Sound .expression allowance :=
  levels_sound (operand_sound stop allowance)

end Soundness

section Completeness

/-- No operator that binds as tight as the bound comes next. -/
def Ends (bound : Nat) (rest : List Token) : Prop :=
  ∀ token ∈ rest.head?, ∀ level : Level, level.has token.kind = true → level.precedence < bound

/-- A token that is no binary operator ends everything. -/
theorem ends_of_level?_eq_none (bound : Nat) {token : Token} (h : token.kind.level? = none)
    (rest : List Token) : Ends bound (token :: rest) := by
  intro other hmem level hhas
  cases hmem
  rw [Level.has_iff, h] at hhas
  cases hhas

/-- A looser operator ends what binds tighter. -/
theorem Ends.mono {bound tighter : Nat} {rest : List Token} (h : Ends bound rest)
    (hle : bound ≤ tighter) : Ends tighter rest :=
  fun token hmem level hhas => Nat.lt_of_lt_of_le (h token hmem level hhas) hle

/-- An operator ends the operands of its own level. -/
theorem ends_operator {level : Level} {token : Token} (h : level.has token.kind = true)
    (rest : List Token) : Ends (level.precedence + 1) (token :: rest) := by
  intro other hmem another hhas
  cases hmem
  rw [Level.has_unique hhas h]
  exact Nat.lt_succ_self _

/-- A chain is complete where no operator of its level comes next. -/
theorem chainFrom_ends {level : Level} {inner : Reader Expr} {tree : Expr} {rest : List Token}
    (h : Ends level.precedence rest) : chainFrom level inner tree rest = .accepted tree rest := by
  cases rest with
  | nil => rw [chainFrom]
  | cons token others =>
    have hno : level.has token.kind = false := by
      cases hhas : level.has token.kind with
      | false => rfl
      | true => exact absurd (h token rfl level hhas) (Nat.lt_irrefl _)
    rw [chainFrom, hno]
    rfl

/-- A chain takes an operator of its level and the operand after it. -/
theorem chainFrom_step {level : Level} {inner : Reader Expr} {left right : Expr} {token : Token}
    {others rest : List Token} (hoperator : level.has token.kind = true)
    (hright : inner.run others = .accepted right rest) :
    chainFrom level inner left (token :: others) =
      chainFrom level inner (.binary left token right) rest := by
  rw [chainFrom, if_pos hoperator]
  split
  · rename_i other after hrun
    rw [hright] at hrun
    cases hrun
    rfl
  · rename_i fault after hrun
    rw [hright] at hrun
    cases hrun

/-- A chain stops where an operand after one of its operators does. -/
theorem chainFrom_refused {level : Level} {inner : Reader Expr} {left : Expr} {token : Token}
    {others rest : List Token} {fault : SyntaxFault} (hoperator : level.has token.kind = true)
    (hright : inner.run others = .refused fault rest) :
    chainFrom level inner left (token :: others) = .refused fault rest := by
  rw [chainFrom, if_pos hoperator]
  split
  · rename_i right after hrun
    rw [hright] at hrun
    cases hrun
  · rename_i fault after hrun
    rw [hright] at hrun
    cases hrun
    rfl

/-- The reader of what may be nested in an operand. -/
def nested (stop : Token) : Nat → Option (Reader Expr)
  | 0 => none
  | allowance + 1 => some (operand stop allowance)

/-- Operands are read with the reader of what may be nested in them. -/
theorem operand_run (stop : Token) (allowance : Nat) (tokens : List Token) :
    (operand stop allowance).run tokens = operandRun stop (nested stop allowance) tokens := by
  cases allowance <;> rfl

/-- A token that stands for a value is read as its literal. -/
theorem operandRun_literal {stop token : Token} {inner : Option (Reader Expr)} {value : Value}
    (h : token.value? = some value) (rest : List Token) :
    operandRun stop inner (token :: rest) = .accepted (.literal (some value)) rest := by
  unfold Token.value? at h
  split at h <;> rename_i hkind <;> simp_all [operandRun, Kind.isUnary]

/-- A name is read as a reference. -/
theorem operandRun_reference {stop token : Token} {inner : Option (Reader Expr)}
    (h : token.kind = .identifier) (rest : List Token) :
    operandRun stop inner (token :: rest) = .accepted (.reference token) rest := by
  simp [operandRun, Kind.isUnary, h]

/-- An opening parenthesis is followed by what it groups. -/
theorem operandRun_grouping {stop token : Token} {inner : Option (Reader Expr)}
    (h : token.kind = .leftParen) (rest : List Token) :
    operandRun stop inner (token :: rest) = groupingRun stop inner rest := by
  simp [operandRun, Kind.isUnary, h]

/-- A unary operator is followed by its operand. -/
theorem operandRun_unary {stop token : Token} {inner : Option (Reader Expr)}
    (h : token.kind.isUnary = true) (rest : List Token) :
    operandRun stop inner (token :: rest) = unaryRun stop token inner rest := by
  simp [operandRun, h]

/-- After the tokens of a derivation, the reader of a chain is where it would be with the derived
tree as left operand. The other layers have then read the tree. -/
def ReadsOn (stop : Token) (allowance : Nat) (tree : Expr) (tokens : List Token) : Layer → Prop
  | .chain level =>
    ∀ rest, Ends (level.precedence + 1) rest →
      (layer stop allowance (.chain level)).run (tokens ++ rest) =
        chainFrom level (layer stop allowance level.operand) tree rest
  | .unary => ∀ rest, (operand stop allowance).run (tokens ++ rest) = .accepted tree rest
  | .primary => ∀ rest, (operand stop allowance).run (tokens ++ rest) = .accepted tree rest

/-- A reader that reads on after a tree accepts it where nothing goes on with it. -/
theorem ReadsOn.accepts {stop : Token} {allowance : Nat} {tree : Expr} {tokens rest : List Token}
    {layer : Layer} (h : ReadsOn stop allowance tree tokens layer)
    (hends : Ends layer.precedence rest) :
    (Reader.layer stop allowance layer).run (tokens ++ rest) = .accepted tree rest := by
  cases layer with
  | unary => exact h rest
  | primary => exact h rest
  | chain level =>
    have hon := h rest (hends.mono (Nat.le_succ _))
    rw [hon]
    exact chainFrom_ends hends

/-- Every derivation within the allowance is read. -/
theorem readsOn_of_derives (stop : Token) {layer : Layer} {tree : Expr} {tokens : List Token}
    (h : Derives layer tree tokens) :
    ∀ allowance, tree.nesting ≤ allowance → ReadsOn stop allowance tree tokens layer := by
  induction h with
  | literal hvalue =>
    intro allowance hnesting rest
    rw [operand_run]
    exact operandRun_literal hvalue rest
  | reference hname =>
    intro allowance hnesting rest
    rw [operand_run]
    exact operandRun_reference hname rest
  | @grouping opening closing inner tokens hopening hinner hclosing ih =>
    intro allowance hnesting rest
    obtain ⟨less, rfl⟩ := Nat.exists_eq_add_of_le' (Nat.le_trans (Nat.le_add_left 1 _) hnesting)
    have hends : Ends Layer.expression.precedence (closing :: rest) :=
      ends_of_level?_eq_none _ (by rw [hclosing]; rfl) rest
    have hrun : (operand stop less).levels.run (tokens ++ closing :: rest) =
        .accepted inner (closing :: rest) :=
      (ih less (Nat.le_of_succ_le_succ hnesting)).accepts hends
    rw [operand_run, List.append_assoc, List.cons_append, operandRun_grouping hopening]
    simp only [nested, groupingRun, List.singleton_append, hrun, closeRun, if_pos hclosing]
  | primary h ih => exact ih
  | @unary operator operand tokens hoperator hoperand ih =>
    intro allowance hnesting rest
    obtain ⟨less, rfl⟩ := Nat.exists_eq_add_of_le' (Nat.le_trans (Nat.le_add_left 1 _) hnesting)
    have hrun := ih less (Nat.le_of_succ_le_succ hnesting) rest
    rw [operand_run, List.cons_append, operandRun_unary hoperator]
    simp only [nested, unaryRun, hrun]
  | @operand level tree tokens h ih =>
    intro allowance hnesting rest hends
    have hrun := (ih allowance hnesting).accepts (level.operand_precedence ▸ hends)
    rw [layer_chain]
    simp only [Reader.chain, chainRun, hrun]
  | @chain level left right operator before after hleft hoperator hright ihleft ihright =>
    intro allowance hnesting rest hends
    obtain ⟨hnleft, hnright⟩ := Nat.max_le.mp hnesting
    have hrun := (ihright allowance hnright).accepts (level.operand_precedence ▸ hends)
    -- The left operand alone does not end here: its reader goes on with this very operator.
    have hon := ihleft allowance hnleft (operator :: (after ++ rest)) (ends_operator hoperator _)
    rw [List.append_assoc, List.cons_append, hon]
    exact chainFrom_step hoperator hrun

end Completeness

/-- All tokens are read as a tree exactly if they derive it within the allowance. -/
theorem expression_run_eq_accepted_iff (stop : Token) (allowance : Nat) (tokens : List Token)
    (tree : Expr) :
    (expression stop allowance).run tokens = .accepted tree [] ↔
      Derives .expression tree tokens ∧ tree.nesting ≤ allowance := by
  constructor
  · intro h
    obtain ⟨taken, htaken, htree, hnesting⟩ := expression_sound stop allowance _ _ _ h
    rw [List.append_nil] at htaken
    rw [htaken]
    exact ⟨htree, hnesting⟩
  · rintro ⟨htree, hnesting⟩
    have hends : Ends Layer.expression.precedence [] := fun token hmem => by cases hmem
    have hrun := (readsOn_of_derives stop htree allowance hnesting).accepts hends
    rw [List.append_nil] at hrun
    exact hrun

end Reader

namespace Parser

/-- Everything stands before the end of the source if that is the last token and no other one. -/
theorem body_append_end {tokens : List Token} {stop : Token} (hstop : stop.isEnd = true)
    (htokens : ∀ token ∈ tokens, token.isEnd = false) : body (tokens ++ [stop]) = tokens := by
  rw [body, List.takeWhile_append_of_pos]
  · simp [hstop]
  · intro token hmem
    rw [htokens token hmem]
    rfl

/-- A token list with one end of the source, at its end, makes a parser that has everything before
it still to read. -/
theorem ofTokens_append_end (options : ReadingOptions) {tokens : List Token} {stop : Token}
    (hstop : stop.isEnd = true) (htokens : ∀ token ∈ tokens, token.isEnd = false) :
    ofTokens options (tokens ++ [stop]) = .ok ⟨tokens ++ [stop], stop, tokens, options⟩ := by
  have hbody := body_append_end hstop htokens
  have hfind : (tokens ++ [stop]).find? Token.isEnd = some stop := by
    rw [List.find?_append, List.find?_eq_none.mpr]
    · simp [hstop]
    · intro token hmem
      rw [htokens token hmem]
      exact Bool.false_ne_true
  simp [ofTokens, hstop, hbody, hfind]

/-- A parser yields an expression exactly if reading takes all tokens that are left. -/
theorem expression_eq_ok_iff (parser : Parser) (tree : Expr) :
    parser.expression.1 = .ok tree ↔
      (Reader.expression parser.stop parser.options.allowance).run parser.rest =
        .accepted tree [] := by
  unfold expression
  split
  · rename_i fault rest hrun
    simp [hrun]
  · rename_i value hrun
    simp [hrun]
  · rename_i value token rest hrun
    simp [hrun]

/-- What a parser of a token list reads as an expression is what the tokens derive. -/
theorem ofTokens_expression_iff (options : ReadingOptions) {tokens : List Token} {stop : Token}
    (hstop : stop.isEnd = true) (htokens : ∀ token ∈ tokens, token.isEnd = false) (tree : Expr) :
    (ofTokens options (tokens ++ [stop])).map (fun parser => parser.expression.1) =
        .ok (.ok tree) ↔
      Derives .expression tree tokens ∧ tree.nesting ≤ options.allowance := by
  rw [ofTokens_append_end options hstop htokens]
  have hok := expression_eq_ok_iff ⟨tokens ++ [stop], stop, tokens, options⟩ tree
  have hrun := Reader.expression_run_eq_accepted_iff stop options.allowance tokens tree
  simpa [Except.map] using hok.trans hrun

/-- Reading a token list as an expression succeeds with a tree exactly if the tokens derive the
tree in the grammar and no path in it is nested deeper than allowed. Every canonical tree within
the allowance is read back from its yield. -/
theorem expression_ok_iff_derives (options : ReadingOptions) (tokens : List Token) (stop : Token)
    (hstop : stop.isEnd = true) (htokens : ∀ token ∈ tokens, token.isEnd = false) :
    (∀ tree, (ofTokens options (tokens ++ [stop])).map (fun parser => parser.expression.1) =
        .ok (.ok tree) ↔
      Derives .expression tree tokens ∧ tree.nesting ≤ options.allowance) ∧
    ∀ tree : Expr, tree.Canonical .expression → tree.nesting ≤ options.allowance →
      (ofTokens options (tree.yield ++ [stop])).map (fun parser => parser.expression.1) =
        .ok (.ok tree) := by
  refine ⟨ofTokens_expression_iff options hstop htokens, fun tree hcanonical hnesting => ?_⟩
  have hderives := hcanonical.derives_yield
  exact (ofTokens_expression_iff options hstop hderives.isEnd_eq_false tree).mpr
    ⟨hderives, hnesting⟩

/-- Differences group to the left and a unary operator binds tighter than they do, at the least
allowance that admits it. -/
theorem expression_ok_iff_derives_difference :
    (ofTokens ⟨1, false⟩
        [⟨.identifier, ['a'], .none, 1⟩, ⟨.minus, ['-'], .none, 1⟩,
          ⟨.identifier, ['b'], .none, 1⟩, ⟨.minus, ['-'], .none, 1⟩,
          ⟨.minus, ['-'], .none, 1⟩, ⟨.identifier, ['c'], .none, 1⟩,
          Token.endOfSource 1]).map (fun parser => parser.expression.1) =
      .ok (.ok (.binary
        (.binary (.reference ⟨.identifier, ['a'], .none, 1⟩) ⟨.minus, ['-'], .none, 1⟩
          (.reference ⟨.identifier, ['b'], .none, 1⟩))
        ⟨.minus, ['-'], .none, 1⟩
        (.unary ⟨.minus, ['-'], .none, 1⟩ (.reference ⟨.identifier, ['c'], .none, 1⟩)))) := by
  have hcanonical : Expr.Canonical .expression (.binary
      (.binary (.reference ⟨.identifier, ['a'], .none, 1⟩) ⟨.minus, ['-'], .none, 1⟩
        (.reference ⟨.identifier, ['b'], .none, 1⟩))
      ⟨.minus, ['-'], .none, 1⟩
      (.unary ⟨.minus, ['-'], .none, 1⟩ (.reference ⟨.identifier, ['c'], .none, 1⟩))) :=
    ⟨.term, by decide, rfl, ⟨.term, by decide, rfl, rfl, rfl⟩, by decide, rfl, rfl⟩
  exact ((expression_ok_iff_derives ⟨1, false⟩ _ (Token.endOfSource 1) rfl (by decide)).1 _).mpr
    ⟨hcanonical.derives_yield, by decide⟩

end Parser

end Lox
