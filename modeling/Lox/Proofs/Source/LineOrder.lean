import Lox.Proofs.Source.LineBreak

/-!
# Lines in order

Segments are located by the line feeds up to their ends, so their lines never decrease and none is
past the last line of the source. Tokens and faults take over the lines of their segments. Where the
lines of joined faults are in order, the line of the whole is the smallest of them.
-/

namespace Lox

/-- The line is one of a source; lines are counted from one. -/
def Text.HasLine (source : Text) (line : Int) : Prop := 1 ≤ line ∧ line ≤ source.lineFeeds + 1

namespace Segment

/-- A located segment ends on a line between the first and the last one passed. -/
theorem bounds_of_mem_located {line : Nat} {pieces : List Segment} {piece : Segment × Nat}
    (h : piece ∈ located line pieces) :
    line ≤ piece.2 ∧ piece.2 ≤ line + Text.lineFeeds (pieces.flatMap text) := by
  induction pieces generalizing line with
  | nil => cases h
  | cons segment pieces ih =>
    rw [lineFeeds_flatMap_cons]
    rcases List.mem_cons.mp h with rfl | h
    · constructor
      · exact Nat.le_add_right _ _
      · dsimp only
        omega
    · have hlater := ih h
      omega

/-- The lines of located segments do not decrease. -/
theorem pairwise_located (line : Nat) (pieces : List Segment) :
    (located line pieces).Pairwise fun piece later => piece.2 ≤ later.2 := by
  induction pieces generalizing line with
  | nil => exact List.Pairwise.nil
  | cons segment pieces ih =>
    refine List.pairwise_cons.mpr ⟨fun later hlater => ?_, ih _⟩
    exact (bounds_of_mem_located hlater).1

/-- A token is on the line of its segment. -/
theorem line_of_token? {piece : Segment × Nat} {token : Token} (h : token? piece = some token) :
    token.line = piece.2 := by
  rcases piece with ⟨segment, line⟩
  cases segment <;> cases h
  rfl

/-- A fault of the source is on the line of its segment. -/
theorem line_of_fault? {piece : Segment × Nat} {fault : ScanFault}
    (h : fault? piece = some fault) : fault.line = piece.2 := by
  rcases piece with ⟨segment, line⟩
  cases segment <;> cases h <;> rfl

end Segment

/-- Parts that take over the lines of segments have lines in order. -/
theorem pairwise_line_filterMap {α : Type} {part? : Segment × Nat → Option α} {line : α → Int}
    (hline : ∀ piece part, part? piece = some part → line part = piece.2) (source : Text) :
    ((Segment.located 1 (segments source)).filterMap part?).Pairwise
      fun part later => line part ≤ line later := by
  refine List.Pairwise.filterMap part? ?_ (Segment.pairwise_located 1 (segments source))
  intro piece later hle part hpart after hafter
  rw [hline piece part hpart, hline later after hafter]
  exact Int.ofNat_le.mpr hle

/-- Parts that take over the lines of segments are on lines of the source. -/
theorem hasLine_of_mem_filterMap {α : Type} {part? : Segment × Nat → Option α} {line : α → Int}
    (hline : ∀ piece part, part? piece = some part → line part = piece.2) {source : Text}
    {part : α} (h : part ∈ (Segment.located 1 (segments source)).filterMap part?) :
    source.HasLine (line part) := by
  obtain ⟨piece, hpiece, hpart⟩ := List.mem_filterMap.mp h
  have hbounds := Segment.bounds_of_mem_located hpiece
  rw [(segmentation_segments source).flatMap_text] at hbounds
  rw [hline piece part hpart, Text.HasLine]
  omega

namespace Scan

/-- The lines of the faults of a source do not decrease. -/
theorem pairwise_faults (source : Text) :
    (ofSource source).faults.Pairwise fun fault later => fault.line ≤ later.line :=
  pairwise_line_filterMap (fun _ _ => Segment.line_of_fault?) source

/-- Every fault of a source is on one of its lines. -/
theorem hasLine_of_mem_faults {source : Text} {fault : ScanFault}
    (h : fault ∈ (ofSource source).faults) : source.HasLine fault.line :=
  hasLine_of_mem_filterMap (fun _ _ => Segment.line_of_fault?) h

/-- Every token of a source is on one of its lines. -/
theorem hasLine_of_mem_tokens {source : Text} {token : Token}
    (h : token ∈ (ofSource source).tokens) : source.HasLine token.line := by
  rcases List.mem_append.mp h with h | h
  · exact hasLine_of_mem_filterMap (fun _ _ => Segment.line_of_token?) h
  · rw [List.mem_singleton.mp h]
    simp only [Token.endOfSource, Text.HasLine]
    omega

/-- The lines of the tokens of a source do not decrease. -/
theorem pairwise_tokens (source : Text) :
    (ofSource source).tokens.Pairwise fun token later => token.line ≤ later.line := by
  refine List.pairwise_append.mpr
    ⟨pairwise_line_filterMap (fun _ _ => Segment.line_of_token?) source,
      List.pairwise_singleton _ _, fun token htoken later hlater => ?_⟩
  have hline : source.HasLine token.line :=
    hasLine_of_mem_filterMap (fun _ _ => Segment.line_of_token?) htoken
  have hend : later.line = 1 + source.lineFeeds := by
    rw [List.mem_singleton.mp hlater]
    rfl
  rw [hend, Int.add_comm]
  exact hline.2

end Scan

namespace Fault

/-- The leaves of faults that are leaves are the faults. -/
theorem leavesOf_eq_self {faults : List Fault} (h : ∀ fault ∈ faults, fault.leaves = [fault]) :
    leavesOf faults = faults := by
  induction faults with
  | nil => rfl
  | cons fault faults ih =>
    have hfirst := h fault List.mem_cons_self
    have hrest := ih fun other hother => h other (List.mem_cons_of_mem fault hother)
    rw [leavesOf, hfirst, hrest]
    rfl

/-- Faults that are joined have the line of the first one. If that is the first in order, it is the
smallest. -/
theorem line?_join {α : Type} {toFault : α → Fault} {line : α → Int}
    (hleaf : ∀ part, (toFault part).leaves = [toFault part])
    (hline : ∀ part, (toFault part).ownLine? = some (line part)) {parts : List α}
    (hordered : parts.Pairwise fun part later => line part ≤ line later) :
    (join ((parts.map toFault).map some)).bind line? = (parts.map line).min? := by
  cases parts with
  | nil => rfl
  | cons part parts =>
    have hleaves : leavesOf ((part :: parts).map toFault) = (part :: parts).map toFault := by
      refine leavesOf_eq_self fun fault hfault => ?_
      obtain ⟨other, -, rfl⟩ := List.mem_map.mp hfault
      exact hleaf other
    have hfirst : line? (joined ((part :: parts).map toFault)) = some (line part) := by
      rw [line?, leaves, hleaves, List.map_cons, List.findSome?_cons, hline]
    have hjoin : join (((part :: parts).map toFault).map some) =
        some (joined ((part :: parts).map toFault)) := by
      rw [join, List.filterMap_map, Function.id_comp, List.filterMap_some]
      rfl
    have hmin : ((part :: parts).map line).min? = some (line part) := by
      refine List.min?_eq_head? (List.pairwise_map.mpr (hordered.imp fun hle => ?_))
      exact Int.min_eq_left hle
    rw [hjoin, hmin]
    exact hfirst

end Fault

end Lox
