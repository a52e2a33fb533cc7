import Lox.Proofs.Reading.Allowance

/-!
# The limit of nesting is exact

The nesting of a tree is the number of unary operators and groupings on its deepest path from the
root to a leaf; chains of binary operators do not count, however long. A parser does the same as one
with a larger limit, or it finds nesting too deep. Where the larger limit admits a tree, the smaller
one is found too low exactly if some path of that tree goes beyond it.
-/

namespace Lox

namespace Expr

/-- The nodes that count towards nesting. -/
def nests : Expr → Bool
  | grouping _ => true
  | unary _ _ => true
  | _ => false

/-- The paths of a tree from its root to each of its leaves, as the nodes on them. -/
def paths : Expr → List (List Expr)
  | literal value => [[literal value]]
  | grouping inner => inner.paths.map (grouping inner :: ·)
  | unary operator operand => operand.paths.map (unary operator operand :: ·)
  | binary left operator right => (left.paths ++ right.paths).map (binary left operator right :: ·)
  | reference name => [[reference name]]

/-- No path is nested deeper than the tree. -/
theorem countP_le_nesting {tree : Expr} {path : List Expr} (h : path ∈ tree.paths) :
    path.countP nests ≤ tree.nesting := by
  induction tree generalizing path with
  | literal value =>
    rw [paths, List.mem_singleton] at h
    rw [h]
    exact Nat.le_refl 0
  | reference name =>
    rw [paths, List.mem_singleton] at h
    rw [h]
    exact Nat.le_refl 0
  | grouping inner ih =>
    obtain ⟨below, hbelow, rfl⟩ := List.mem_map.mp h
    have hinner := ih hbelow
    rw [List.countP_cons_of_pos rfl, nesting]
    omega
  | unary operator operand ih =>
    obtain ⟨below, hbelow, rfl⟩ := List.mem_map.mp h
    have hoperand := ih hbelow
    rw [List.countP_cons_of_pos rfl, nesting]
    omega
  | binary left operator right ihl ihr =>
    obtain ⟨below, hbelow, rfl⟩ := List.mem_map.mp h
    rw [List.countP_cons_of_neg Bool.false_ne_true, nesting]
    rcases List.mem_append.mp hbelow with hbelow | hbelow
    · exact Nat.le_trans (ihl hbelow) (Nat.le_max_left _ _)
    · exact Nat.le_trans (ihr hbelow) (Nat.le_max_right _ _)

/-- Some path is nested as deep as the tree. -/
theorem exists_deepest_path (tree : Expr) :
    ∃ path ∈ tree.paths, path.countP nests = tree.nesting := by
  induction tree with
  | literal value => exact ⟨_, List.mem_singleton_self _, rfl⟩
  | reference name => exact ⟨_, List.mem_singleton_self _, rfl⟩
  | grouping inner ih =>
    obtain ⟨below, hbelow, hcount⟩ := ih
    refine ⟨_, List.mem_map_of_mem hbelow, ?_⟩
    rw [List.countP_cons_of_pos rfl, hcount, nesting]
  | unary operator operand ih =>
    obtain ⟨below, hbelow, hcount⟩ := ih
    refine ⟨_, List.mem_map_of_mem hbelow, ?_⟩
    rw [List.countP_cons_of_pos rfl, hcount, nesting]
  | binary left operator right ihl ihr =>
    obtain ⟨below, hbelow, hcount⟩ : ∃ below ∈ left.paths ++ right.paths,
        below.countP nests = max left.nesting right.nesting := by
      rcases Nat.le_total left.nesting right.nesting with hle | hle
      · obtain ⟨below, hbelow, hcount⟩ := ihr
        exact ⟨below, List.mem_append_right _ hbelow, by rw [hcount, Nat.max_eq_right hle]⟩
      · obtain ⟨below, hbelow, hcount⟩ := ihl
        exact ⟨below, List.mem_append_left _ hbelow, by rw [hcount, Nat.max_eq_left hle]⟩
    refine ⟨_, List.mem_map_of_mem hbelow, ?_⟩
    rw [List.countP_cons_of_neg Bool.false_ne_true, hcount, nesting]

/-- A tree is nested deeper than a bound exactly if some path is. -/
theorem lt_nesting_iff (tree : Expr) (bound : Nat) :
    bound < tree.nesting ↔ ∃ path ∈ tree.paths, bound < path.countP nests := by
  constructor
  · intro hlt
    obtain ⟨path, hpath, hcount⟩ := tree.exists_deepest_path
    exact ⟨path, hpath, hcount ▸ hlt⟩
  · rintro ⟨path, hpath, hlt⟩
    exact Nat.lt_of_lt_of_le hlt (countP_le_nesting hpath)

end Expr

/-- A positive limit is the allowance it stands for. -/
theorem ReadingOptions.allowanceOf_of_pos {limit : Int} (h : 1 ≤ limit) :
    (allowanceOf limit : Int) = limit := by
  have hnot : ¬ limit ≤ 0 := by omega
  rw [allowanceOf, if_neg hnot]
  omega

/-- A limit that is not positive stands for the usual allowance. -/
theorem ReadingOptions.allowanceOf_of_nonpos {limit : Int} (h : limit ≤ 0) :
    allowanceOf limit = 256 := if_pos h

namespace Parser

/-- Reading an expression fails because nesting is too deep. -/
def FailsTooDeep (parser : Parser) : Prop :=
  ∃ fault, parser.expression.1 = .error fault ∧ fault.cause = .nestingTooDeep

/-- Which token lists have a parser, and what it has to read, does not depend on the options. -/
theorem ofTokens_options {options : ReadingOptions} {tokens : List Token} {parser : Parser}
    (h : ofTokens options tokens = .ok parser) (other : ReadingOptions) :
    ofTokens other tokens = .ok { parser with options := other } ∧ parser.options = options := by
  unfold ofTokens at h ⊢
  cases hlast : tokens.getLast? with
  | none =>
    rw [hlast] at h
    cases h
  | some last =>
    rw [hlast] at h
    by_cases hend : last.isEnd = true
    · simp only [hend, if_true] at h ⊢
      cases h
      exact ⟨rfl, rfl⟩
    · simp only [hend, if_false, Bool.false_eq_true] at h
      cases h

section Larger

variable {parser : Parser} {deeper : ReadingOptions}

/-- With a larger allowance an expression is read in the same way, unless nesting was too deep. -/
theorem expression_deepens (h : Reader.AllowsMore parser.options deeper) :
    (parser.expression.1 = ({ parser with options := deeper } : Parser).expression.1 ∧
      parser.expression.2.current =
        ({ parser with options := deeper } : Parser).expression.2.current) ∨
      parser.FailsTooDeep := by
  have hlarger := Reader.expression_deepens parser.stop h.allowance_le
  cases hrun : (Reader.expression parser.stop parser.options.allowance).run parser.rest with
  | accepted tree rest =>
    have hsame := hlarger.of_eq hrun id
    left
    cases rest with
    | nil => simp only [expression, hrun, hsame, current, and_self]
    | cons token others => simp only [expression, hrun, hsame, current, and_self]
  | refused fault rest =>
    by_cases hdeep : fault.cause = .nestingTooDeep
    · right
      exact ⟨fault, by simp only [expression, hrun], hdeep⟩
    · have hsame := hlarger.of_eq hrun hdeep
      left
      simp only [expression, hrun, hsame, current, and_self]

/-- Where a larger allowance admits a tree, nesting is too deep exactly if the tree is nested deeper
than allowed. -/
theorem failsTooDeep_iff (h : Reader.AllowsMore parser.options deeper) {tree : Expr}
    (htree : ({ parser with options := deeper } : Parser).expression.1 = .ok tree) :
    parser.FailsTooDeep ↔ parser.options.allowance < tree.nesting := by
  have hread := (expression_eq_ok_iff _ tree).mp htree
  obtain ⟨hderives, -⟩ := (Reader.expression_run_eq_accepted_iff _ _ _ tree).mp hread
  have hok : parser.expression.1 = .ok tree ↔ tree.nesting ≤ parser.options.allowance := by
    rw [expression_eq_ok_iff, Reader.expression_run_eq_accepted_iff]
    exact and_iff_right hderives
  constructor
  · rintro ⟨fault, hfault, -⟩
    apply Nat.lt_of_not_le
    intro hle
    have hboth := (hok.mpr hle).symm.trans hfault
    cases hboth
  · intro hlt
    rcases expression_deepens h with ⟨hsame, -⟩ | hfails
    · exact absurd (hok.mp (hsame.trans htree)) (Nat.not_le_of_lt hlt)
    · exact hfails

/-- With a larger allowance a program that was read is read again. -/
theorem program_deepens (h : Reader.AllowsMore parser.options deeper) {statements : List Stmt}
    (hprogram : parser.program.1 = ⟨statements, []⟩) :
    ({ parser with options := deeper } : Parser).program.1 = ⟨statements, []⟩ := by
  rw [program_eq_iff, Reader.program_eq_map_ok_iff] at hprogram ⊢
  obtain ⟨hderives, hnesting⟩ := hprogram
  rw [← h.implicit_eq] at hderives
  exact ⟨hderives, fun statement hmem =>
    Nat.le_trans (hnesting statement hmem) h.allowance_le⟩

end Larger

/-- The limit of nesting is exact and changes nothing else. With a larger limit, a parser of the
same tokens gives the same tree or fault and is left at the same place, unless the smaller limit
finds nesting too deep. Where the larger limit admits a tree, that happens exactly if some path of
the tree from the root to a leaf has more unary operators and groupings than the smaller limit. A
program that is read with the smaller limit is read with the larger one. A limit that is not
positive makes the same parser as the limit 256. -/
theorem nesting_limit_exact (implicit : Bool) (tokens : List Token) (limit larger : Int)
    (hlimit : 1 ≤ limit) (hle : limit ≤ larger) (parser : Parser)
    (hparser : ofTokens ⟨ReadingOptions.allowanceOf limit, implicit⟩ tokens = .ok parser) :
    ∃ deeper : Parser,
      ofTokens ⟨ReadingOptions.allowanceOf larger, implicit⟩ tokens = .ok deeper ∧
      ((parser.expression.1 = deeper.expression.1 ∧
          parser.expression.2.current = deeper.expression.2.current) ∨
        parser.FailsTooDeep) ∧
      (∀ tree, deeper.expression.1 = .ok tree →
        (parser.FailsTooDeep ↔ ∃ path ∈ tree.paths, limit < path.countP Expr.nests)) ∧
      (∀ statements, parser.program.1 = ⟨statements, []⟩ →
        deeper.program.1 = ⟨statements, []⟩) ∧
      ∀ unset : Int, unset ≤ 0 →
        ofTokens ⟨ReadingOptions.allowanceOf unset, implicit⟩ tokens =
          ofTokens ⟨ReadingOptions.allowanceOf 256, implicit⟩ tokens := by
  obtain ⟨hdeeper, hoptions⟩ :=
    ofTokens_options hparser ⟨ReadingOptions.allowanceOf larger, implicit⟩
  have hsmall := ReadingOptions.allowanceOf_of_pos hlimit
  have hlarge := ReadingOptions.allowanceOf_of_pos (Int.le_trans hlimit hle)
  have hmore : Reader.AllowsMore parser.options
      ⟨ReadingOptions.allowanceOf larger, implicit⟩ := by
    rw [hoptions]
    exact ⟨by dsimp only; omega, rfl⟩
  have hallowance : parser.options.allowance = ReadingOptions.allowanceOf limit := by rw [hoptions]
  refine ⟨_, hdeeper, expression_deepens hmore, fun tree htree => ?_,
    fun statements => program_deepens hmore, fun unset hunset => ?_⟩
  · rw [failsTooDeep_iff hmore htree, hallowance, Expr.lt_nesting_iff]
    have hlt : ∀ count : Nat, ReadingOptions.allowanceOf limit < count ↔ limit < count := by
      intro count
      omega
    simp only [hlt]
  · rw [ReadingOptions.allowanceOf_of_nonpos hunset]
    rfl

/-- Two signs before a name are one too many for the limit one, as the limit two admits them. -/
theorem nesting_limit_exact_signs :
    ∃ parser : Parser,
      ofTokens ⟨ReadingOptions.allowanceOf 1, false⟩ [⟨.minus, ['-'], .none, 1⟩,
        ⟨.minus, ['-'], .none, 1⟩, ⟨.identifier, ['a'], .none, 1⟩, Token.endOfSource 1] =
          .ok parser ∧ parser.FailsTooDeep := by
  obtain ⟨deeper, hdeeper, -, hexact, -⟩ := nesting_limit_exact false [⟨.minus, ['-'], .none, 1⟩,
    ⟨.minus, ['-'], .none, 1⟩, ⟨.identifier, ['a'], .none, 1⟩, Token.endOfSource 1] 1 2
    (by decide) (by decide) _ rfl
  have hname : Derives .primary (.reference ⟨.identifier, ['a'], .none, 1⟩)
      [⟨.identifier, ['a'], .none, 1⟩] := .reference rfl
  have hsigns : Derives .expression (.unary ⟨.minus, ['-'], .none, 1⟩
      (.unary ⟨.minus, ['-'], .none, 1⟩ (.reference ⟨.identifier, ['a'], .none, 1⟩)))
      [⟨.minus, ['-'], .none, 1⟩, ⟨.minus, ['-'], .none, 1⟩, ⟨.identifier, ['a'], .none, 1⟩] :=
    (Derives.unary rfl (.unary rfl hname.primary)).loosen (by decide)
  have hend : (Token.endOfSource 1).isEnd = true := rfl
  have hread := (ofTokens_expression_iff ⟨ReadingOptions.allowanceOf 2, false⟩ hend
    hsigns.isEnd_eq_false _).mpr ⟨hsigns, by decide⟩
  rw [List.cons_append, List.cons_append, List.cons_append, List.nil_append, hdeeper] at hread
  exact ⟨_, rfl, (hexact _ (Except.ok.inj hread)).mpr ⟨_, List.mem_cons_self, by decide⟩⟩

end Parser

end Lox
