import Lox.Value

/-!
# Environments

An environment binds names to values. Bindings are kept in the order of their names, each name once,
so an environment is determined by what it binds and its text is too.
-/

namespace Lox

/-- A name and what it is bound to. -/
abbrev Binding := Text × Option Value

namespace Binding

/-- Bind a name among ordered bindings; an earlier binding of the name is replaced. -/
def insert (name : Text) (value : Option Value) : List Binding → List Binding
  | [] => [(name, value)]
  | binding :: rest =>
    if name < binding.1 then (name, value) :: binding :: rest
    else if name = binding.1 then (name, value) :: rest
    else binding :: insert name value rest

/-- A binding after binding a name is the new one or was there before. -/
theorem mem_insert {name : Text} {value : Option Value} {bindings : List Binding}
    {binding : Binding} (h : binding ∈ insert name value bindings) :
    binding = (name, value) ∨ binding ∈ bindings := by
  fun_induction insert name value bindings with
  | case1 => exact .inl (List.mem_singleton.1 h)
  | case2 head rest hlt => exact List.mem_cons.1 h
  | case3 rest head => exact (List.mem_cons.1 h).imp_right (List.mem_cons_of_mem _)
  | case4 head rest hlt hne ih =>
    rcases List.mem_cons.1 h with heq | h
    · exact .inr (heq ▸ List.mem_cons_self)
    · exact (ih h).imp_right (List.mem_cons_of_mem head)

/-- Of two different names one comes before the other. -/
theorem lt_of_not_lt_of_ne {a b : Text} (h : ¬ a < b) (hne : a ≠ b) : b < a := by
  rcases List.le_iff_lt_or_eq.1 (List.not_lt.1 h) with h | h
  · exact h
  · exact absurd h.symm hne

/-- Binding a name keeps the order. -/
theorem pairwise_insert {name : Text} {value : Option Value} {bindings : List Binding}
    (h : bindings.Pairwise fun a b => a.1 < b.1) :
    (insert name value bindings).Pairwise fun a b => a.1 < b.1 := by
  induction bindings with
  | nil => exact List.pairwise_singleton _ _
  | cons head rest ih =>
    obtain ⟨hhead, hrest⟩ := List.pairwise_cons.1 h
    rw [insert]
    split
    · rename_i hlt
      refine List.pairwise_cons.2 ⟨fun other hother => ?_, h⟩
      rcases List.mem_cons.1 hother with rfl | hother
      · exact hlt
      · exact List.lt_trans hlt (hhead other hother)
    · rename_i hnlt
      split
      · rename_i heq
        exact List.pairwise_cons.2 ⟨fun other hother => heq ▸ hhead other hother, hrest⟩
      · rename_i hne
        refine List.pairwise_cons.2 ⟨fun other hother => ?_, ih hrest⟩
        rcases mem_insert hother with rfl | h
        · exact lt_of_not_lt_of_ne hnlt hne
        · exact hhead other h

end Binding

/-- Names bound to values. -/
structure Environment where
  /-- The bindings in the order of their names. -/
  bindings : List Binding := []
  /-- Every name occurs once, and in order. -/
  ordered : bindings.Pairwise fun a b => a.1 < b.1 := by exact List.Pairwise.nil

namespace Environment

/-- An environment that binds nothing. -/
def empty : Environment := {}

/-- Bind a name, whatever it was bound to before. -/
def define (environment : Environment) (name : Text) (value : Option Value) : Environment :=
  ⟨Binding.insert name value environment.bindings, Binding.pairwise_insert environment.ordered⟩

/-- What a name is bound to, if it is bound. -/
def get? (environment : Environment) (name : Text) : Option (Option Value) :=
  environment.bindings.lookup name

/-- All bindings in order, in braces, strings quoted. -/
def text (environment : Environment) : Text :=
  let parts := environment.bindings.map fun binding =>
    binding.1 ++ '=' :: Value.dumpOf binding.2
  '\x7b' :: Text.join [','] parts ++ ['\x7d']

end Environment

end Lox
