import Lox.Evaluation.Interpreter
import Lox.Proofs.Number.Sign
import Lox.Proofs.Tree.Legible

/-!
# Printed values are read back

The text that printing writes for nil, a truth value or a finite number is an expression, and that
expression evaluates to the value again. Without a sign it is one lexeme, which stands for the
value. A minus sign before a number is a lexeme of its own and becomes a negation, which restores
the sign of the double, that of zero included. The texts of the other numbers are names and read as
variables, which have no value.
-/

namespace Lox

/-- A source that is the lexeme of a genuine token is one segment. -/
theorem Token.Genuine.segments_eq {token : Token} (h : token.Genuine) :
    segments token.lexeme = [.lexeme token.kind token.literal token.lexeme] := by
  have hcut : Segmentation (token.lexeme ++ [])
      [.lexeme token.kind token.literal token.lexeme] :=
    .lexeme h.1 h.2 (fun c hc => by cases hc) .done
  rw [List.append_nil, segmentation_iff] at hcut
  exact hcut.symm

/-- A minus sign is a segment of its own, whatever follows it. -/
theorem segments_minus (rest : Text) :
    segments ('-' :: rest) = .lexeme .minus .none ['-'] :: segments rest := by
  rw [segments]
  rfl

/-- A source without faults is read as the tree that its tokens derive, unless that is nested too
deep. -/
theorem Text.readsAsExpression_of_derives {source : Text} {tree : Expr}
    (hfaults : (Scan.ofSource source).faults = [])
    (hderives : Derives .expression tree
      ((Segment.located 1 (segments source)).filterMap Segment.token?))
    (hnesting : tree.nesting ≤ 256) : source.ReadsAsExpression {} tree :=
  ⟨hfaults, (Parser.ofTokens_expression_iff {} rfl (fun _ => Scan.isEnd_of_mem) tree).mpr
    ⟨hderives, hnesting⟩⟩

/-- A source is read as one tree only. -/
theorem Text.ReadsAsExpression.unique {source : Text} {options : ReadingOptions}
    {tree other : Expr} (h : source.ReadsAsExpression options tree)
    (hother : source.ReadsAsExpression options other) : tree = other :=
  Except.ok.inj (Except.ok.inj (h.2.symm.trans hother.2))

namespace Value

open Binary64

/-- The token of a value that can be written in a source is genuine, unless it is a string. -/
theorem Legible.token_genuine {value : Value} (h : value.Legible) (hkind : value.kind ≠ .string) :
    value.token.Genuine ∧ value.token.lexeme = value.text := by
  have hatom := h.atom
  cases value with
  | string s => exact absurd rfl hkind
  | bool b => exact ⟨hatom.1, by cases b <;> rfl⟩
  | _ => exact ⟨hatom.1, rfl⟩

/-- The text of a value without a sign is read as the value. -/
theorem Legible.readsAsExpression {value : Value} (h : value.Legible)
    (hkind : value.kind ≠ .string) : value.text.ReadsAsExpression {} (.literal (some value)) := by
  obtain ⟨hgenuine, hlexeme⟩ := h.token_genuine hkind
  rw [← hlexeme]
  refine Text.readsAsExpression_of_derives ?_ ?_ (Nat.zero_le _)
  · rw [Scan.ofSource, hgenuine.segments_eq]
    rfl
  · rw [hgenuine.segments_eq]
    exact .operand (.operand (.operand (.operand (.primary (.literal value.token_value?)))))

/-- The minus sign before a number. -/
def minusSign : Token := ⟨.minus, ['-'], .none, 1⟩

/-- The text of a number after a minus sign is read as the negation of the number. -/
theorem readsAsExpression_negative {x : Float} (h : IsMagnitude x) :
    Text.ReadsAsExpression ('-' :: layout.text x) {}
      (.unary minusSign (.literal (some (.number x)))) := by
  have hlegible : (number x).Legible := h
  obtain ⟨hgenuine, hlexeme⟩ := hlegible.token_genuine nofun
  have hsegments : segments ('-' :: layout.text x) =
      [.lexeme .minus .none ['-'], .lexeme .number (.number x) (layout.text x)] := by
    rw [segments_minus]
    exact congrArg _ hgenuine.segments_eq
  have hnesting : 1 ≤ 256 := by decide
  refine Text.readsAsExpression_of_derives ?_ ?_ hnesting
  · rw [Scan.ofSource, hsegments]
    rfl
  · rw [hsegments]
    exact .operand (.operand (.operand (.operand
      (.unary rfl (.primary (.literal (number x).token_value?))))))

/-- The value is one that its text is an expression for: nil, a truth value or a finite number. -/
def Readable : Value → Prop
  | nil => True
  | bool _ => True
  | number x => x.isFinite = true
  | string _ => False

/-- The text of such a value is an expression that evaluates to the value. -/
theorem Readable.reads {value : Value} (h : value.Readable) :
    ∃ tree, value.text.ReadsAsExpression {} tree ∧ tree.eval .empty = .ok (some value) := by
  cases value with
  | nil =>
    have hlegible : nil.Legible := trivial
    exact ⟨_, hlegible.readsAsExpression nofun, rfl⟩
  | bool b =>
    have hlegible : (bool b).Legible := trivial
    exact ⟨_, hlegible.readsAsExpression nofun, rfl⟩
  | number x =>
    have hfinite := (isFinite_iff x).mp h
    have hmagnitude := isMagnitude_magnitude hfinite
    cases hsign : isNegative x with
    | false =>
      have hlegible : (number x).Legible := magnitude_eq hfinite hsign ▸ hmagnitude
      exact ⟨_, hlegible.readsAsExpression nofun, rfl⟩
    | true =>
      have htext : (number x).text = '-' :: layout.text (magnitude x) :=
        layout_text_of_negative hfinite hsign
      have heval : (Expr.unary minusSign (.literal (some (.number (magnitude x))))).eval .empty =
          .ok (some (.number (-magnitude x))) := rfl
      rw [neg_magnitude hfinite hsign] at heval
      exact ⟨_, htext ▸ readsAsExpression_negative hmagnitude, heval⟩
  | string s => exact h.elim

/-- A name in the first line of a source. -/
def nameToken (word : Text) : Token := ⟨.identifier, word, .none, 1⟩

/-- The text of a number that is not finite is an expression without a value. -/
theorem reads_of_not_finite {x : Float} (h : infinityRank ≤ rankOf x) :
    ∃ tree fault, (number x).text.ReadsAsExpression {} tree ∧
      tree.eval .empty = .error fault := by
  rcases Nat.eq_or_lt_of_le h with hinfinite | hnan
  · have htext : (number x).text = _ := layout_text_of_infinite hinfinite.symm
    rw [htext]
    cases isNegative x with
    | false =>
      refine ⟨.reference (nameToken "Infinity".toList), _, ?_, rfl⟩
      decide +kernel
    | true =>
      refine ⟨.unary minusSign (.reference (nameToken "Infinity".toList)), _, ?_, rfl⟩
      decide +kernel
  · have htext : (number x).text = _ := layout_text_of_notANumber hnan
    rw [htext]
    refine ⟨.reference (nameToken "NaN".toList), _, ?_, rfl⟩
    decide +kernel

/-- Printed values are read back. The text of nil, of a truth value or of a finite number has no
fault, is read as an expression by default, and evaluates to the value it was written for, which for
a number is the same double with the same bits. The evaluation gives no notice and writes nothing,
whatever the interpreter did before. -/
theorem printed_value_reads_back (value : Value) (h : value.Readable) :
    ∃ tree, value.text.ReadsAsExpression {} tree ∧
      ∀ (interpreter : Interpreter) (console : Console), console.cancelled = false →
        (interpreter.evaluate console tree).1 = ⟨.ok (some value), [], console.checked⟩ := by
  obtain ⟨tree, hreads, heval⟩ := h.reads
  refine ⟨tree, hreads, fun interpreter console hcancelled => ?_⟩
  rw [Interpreter.evaluate_fst, Execution.expression, hcancelled, heval]
  rfl

/-- Zero with a sign is read back with its sign. -/
theorem printed_value_reads_back_zero :
    let zero := Value.number (Float.ofBits 0x8000000000000000)
    zero.Readable ∧ ({} : Console).cancelled = false ∧
      ∃ tree, zero.text.ReadsAsExpression {} tree ∧
        (({} : Interpreter).evaluate {} tree).1 = ⟨.ok (some zero), [], {}⟩ := by
  intro zero
  have hfinite : (Float.ofBits 0x8000000000000000).isFinite = true := by decide +kernel
  have hreadable : zero.Readable := hfinite
  obtain ⟨tree, hreads, hevaluates⟩ := printed_value_reads_back zero hreadable
  exact ⟨hreadable, rfl, tree, hreads, hevaluates {} {} rfl⟩

end Value

end Lox
