import Lox.Proofs.Evaluation.ReadBack
import Lox.Proofs.Evaluation.Scope
import Lox.Proofs.Text.Utf8

/-!
# Environments as they are written

An environment that definitions in any order have led to binds each name to the last value that it
was given, and is written as a list of these bindings in the order of the names. The names are words
and end at an equals sign. A value ends at the comma or the brace after it: a string because it is
quoted, all others because they hold neither. Different values are written differently, so the
environment can be read back from its text, and whatever two lists of definitions were, their texts
agree exactly if they bind the same names to the same values.
-/

namespace Lox

namespace Value

open Binary64

/-- What the text of a value that is no string does not hold. -/
def marks : Text := [',', '\x7d', '"']

/-- The texts of values that are neither strings nor finite numbers. -/
def words : List Text := ["nil".toList, "true".toList, "false".toList] ++ layout.words

/-- These texts hold no marks. -/
theorem not_mem_marks_of_word {word : Text} (h : word ∈ words) : ∀ c ∈ word, c ∉ marks := by
  have hall : words.all (fun word => word.all fun c => decide (c ∉ marks)) = true := by decide
  intro c hc
  exact of_decide_eq_true (List.all_eq_true.mp (List.all_eq_true.mp hall word h) c hc)

/-- A value that is no string is written without marks. -/
theorem not_mem_marks_of_dump {value : Value} (h : value.kind ≠ .string) :
    ∀ c ∈ value.dump, c ∉ marks := by
  cases value with
  | nil => exact not_mem_marks_of_word (by decide)
  | bool b => cases b <;> exact not_mem_marks_of_word (by decide)
  | number x =>
    rcases layout.text_mem_words_or x with hword | hfinite
    · exact not_mem_marks_of_word (List.mem_append_right _ hword)
    · intro c hc hmark
      have hall : marks.all (fun c => decide (c ∉ Decimal.signs ∧ c ∈ Segment.special)) := by decide
      have hspecial := of_decide_eq_true (List.all_eq_true.mp hall c hmark)
      rcases hfinite c hc with hdigit | hsign
      · exact Segment.not_special_of_isDigit hdigit hspecial.2
      · exact hspecial.1 hsign
  | string s => exact absurd rfl h

/-- Doubles that are not finite are the same if they are written in the same way. -/
theorem eq_of_layout_text {x y : Float} (hx : infinityRank ≤ rankOf x)
    (hy : infinityRank ≤ rankOf y) (h : layout.text x = layout.text y) : x = y := by
  have hnan : ∀ negative : Bool, layout.notANumber ≠
      if negative then layout.negativeInfinity else layout.infinity := by decide
  rcases Nat.eq_or_lt_of_le hx with hxinfinite | hxnan
  · rw [layout_text_of_infinite hxinfinite.symm] at h
    rcases Nat.eq_or_lt_of_le hy with hyinfinite | hynan
    · rw [layout_text_of_infinite hyinfinite.symm] at h
      refine eq_of_rankOf (hxinfinite.symm.trans hyinfinite) ?_
      revert h
      cases isNegative x <;> cases isNegative y <;> decide
    · rw [layout_text_of_notANumber hynan] at h
      exact absurd h.symm (hnan _)
  · rw [layout_text_of_notANumber hxnan] at h
    rcases Nat.eq_or_lt_of_le hy with hyinfinite | hynan
    · rw [layout_text_of_infinite hyinfinite.symm] at h
      exact absurd h (hnan _)
    · exact eq_of_notANumber hxnan hynan

/-- A value is read back from its text, or its text has no value and it is no finite number. -/
theorem readable_or_not_finite {value : Value} (h : value.kind ≠ .string) :
    value.Readable ∨ ∃ x, value = number x ∧ infinityRank ≤ rankOf x := by
  cases value with
  | nil => exact .inl trivial
  | bool b => exact .inl trivial
  | number x =>
    rcases Nat.lt_or_ge (rankOf x) infinityRank with hfinite | hother
    · exact .inl ((isFinite_iff x).mpr hfinite)
    · exact .inr ⟨x, rfl, hother⟩
  | string s => exact absurd rfl h

/-- A text that is read back is not that of a number that is not finite. -/
theorem Readable.text_ne {value : Value} (h : value.Readable) {x : Float}
    (hx : infinityRank ≤ rankOf x) : value.text ≠ (number x).text := by
  intro htext
  obtain ⟨tree, hreads, heval⟩ := h.reads
  obtain ⟨other, fault, hother, hfault⟩ := reads_of_not_finite hx
  rw [htext] at hreads
  rw [hreads.unique hother, hfault] at heval
  cases heval

/-- Values that are no strings are the same if they are written in the same way. -/
theorem eq_of_text {value other : Value} (hvalue : value.kind ≠ .string)
    (hother : other.kind ≠ .string) (h : value.text = other.text) : value = other := by
  rcases readable_or_not_finite hvalue with hread | ⟨x, rfl, hx⟩
  · rcases readable_or_not_finite hother with hotherRead | ⟨y, rfl, hy⟩
    · -- Both are read back from the same text.
      obtain ⟨tree, hreads, heval⟩ := hread.reads
      obtain ⟨mate, hmate, hmateEval⟩ := hotherRead.reads
      rw [h] at hreads
      rw [hreads.unique hmate, hmateEval] at heval
      exact (Option.some.inj (Except.ok.inj heval)).symm
    · exact absurd h (hread.text_ne hy)
  · rcases readable_or_not_finite hother with hotherRead | ⟨y, rfl, hy⟩
    · exact absurd h.symm (hotherRead.text_ne hx)
    · exact congrArg number (eq_of_layout_text hx hy h)

/-- The dump of a value that is no string is its text. -/
theorem dump_eq_text {value : Value} (h : value.kind ≠ .string) : value.dump = value.text := by
  cases value with
  | string s => exact absurd rfl h
  | _ => rfl

/-- A string is quoted, and no other value begins with a quote. -/
theorem string_dump_append_ne {s x y : Text} {value : Value} (h : value.kind ≠ .string)
    (hy : ∀ c ∈ y.head?, c ∈ [',', '\x7d']) : (string s).dump ++ x ≠ value.dump ++ y := by
  intro heq
  have hquote : '"' ∈ (value.dump ++ y).head? := by
    rw [← heq]
    rfl
  cases hdump : value.dump with
  | nil =>
    rw [hdump] at hquote
    exact absurd (hy _ hquote) (by decide)
  | cons c rest =>
    rw [hdump] at hquote
    cases hquote
    have hmark := not_mem_marks_of_dump h '"' (by rw [hdump]; exact List.mem_cons_self)
    exact hmark (by decide)

/-- Values before a comma or a closing brace are told apart. -/
theorem dump_append_inj {value other : Value} {x y : Text} (hx : ∀ c ∈ x.head?, c ∈ [',', '\x7d'])
    (hy : ∀ c ∈ y.head?, c ∈ [',', '\x7d']) (h : value.dump ++ x = other.dump ++ y) :
    value = other ∧ x = y := by
  by_cases hvalue : value.kind = .string
  · cases value <;> cases hvalue
    rename_i s
    by_cases hother : other.kind = .string
    · cases other <;> cases hother
      obtain ⟨rfl, hrest⟩ := Quoted.text_append_inj h
      exact ⟨rfl, hrest⟩
    · exact absurd h (string_dump_append_ne hother hy)
  · by_cases hother : other.kind = .string
    · cases other <;> cases hother
      exact absurd h.symm (string_dump_append_ne hvalue hx)
    · have hclass {value : Value} (hkind : value.kind ≠ .string) :
          ∀ c ∈ value.dump, decide (c ∉ marks) = true :=
        fun c hc => decide_eq_true (not_mem_marks_of_dump hkind c hc)
      have hstop {rest : Text} (hrest : ∀ c ∈ rest.head?, c ∈ [',', '\x7d']) :
          ∀ c ∈ rest.head?, decide (c ∉ marks) = false := by
        intro c hc
        rw [decide_eq_false_iff_not, Classical.not_not]
        exact List.mem_append_left ['"'] (hrest c hc)
      obtain ⟨hdump, hrest⟩ :=
        append_inj_of_class (hclass hvalue) (hclass hother) (hstop hx) (hstop hy) h
      rw [dump_eq_text hvalue, dump_eq_text hother] at hdump
      exact ⟨eq_of_text hvalue hother hdump, hrest⟩

end Value

/-- The characters of a word are below U+0080. -/
theorem Segment.toNat_lt_of_continuesWord {c : Char} (h : Segment.continuesWord c = true) :
    c.toNat < 128 := by
  have hcases : ((('A'.val ≤ c.val ∧ c.val ≤ 'Z'.val) ∨ 'a'.val ≤ c.val ∧ c.val ≤ 'z'.val) ∨
      c = '_') ∨ ('0'.val ≤ c.val ∧ c.val ≤ '9'.val) := by
    change (decide ('A'.val ≤ c.val ∧ c.val ≤ 'Z'.val) ||
      decide ('a'.val ≤ c.val) && decide (c.val ≤ 'z'.val) || decide (c = '_') ||
      decide ('0'.val ≤ c.val) && decide (c.val ≤ '9'.val)) = true at h
    simpa using h
  have hlast {last : Char} (hlast : last.toNat < 128) (hle : c.val ≤ last.val) : c.toNat < 128 :=
    Nat.lt_of_le_of_lt (UInt32.le_iff_toNat_le.mp hle) hlast
  rcases hcases with ((hupper | hlower) | rfl) | hdigit
  · exact hlast (by decide) hupper.2
  · exact hlast (by decide) hlower.2
  · decide
  · exact hlast (by decide) hdigit.2

/-- Words are texts below U+0080. -/
theorem Text.IsWord.toNat_lt {text : Text} (h : text.IsWord) : ∀ c ∈ text, c.toNat < 128 := by
  cases text with
  | nil => exact h.elim
  | cons first others =>
    have hfirst : Segment.continuesWord first = true := Bool.or_eq_true_iff.mpr (.inl h.1)
    rw [List.forall_mem_cons]
    exact ⟨Segment.toNat_lt_of_continuesWord hfirst,
      fun c hc => Segment.toNat_lt_of_continuesWord (h.2 c hc)⟩

namespace Binding

variable {bindings others : List Binding}

/-- Ordered bindings hold a binding exactly if its name is bound so. -/
theorem mem_iff_lookup (h : bindings.Pairwise fun a b => a.1 < b.1) (name : Text)
    (value : Option Value) : (name, value) ∈ bindings ↔ bindings.lookup name = some value := by
  induction bindings with
  | nil => simp
  | cons binding rest ih =>
    obtain ⟨hbinding, hrest⟩ := List.pairwise_cons.mp h
    rw [List.mem_cons, lookup_cons, ih hrest]
    by_cases hname : name = binding.1
    · -- No later binding has the name.
      have hlater : rest.lookup name ≠ some value := by
        intro hlookup
        have hlt := hbinding _ ((ih hrest).mpr hlookup)
        rw [← hname] at hlt
        exact List.lt_irrefl name hlt
      rw [if_pos hname, Option.some_inj, Prod.ext_iff, eq_comm (a := value)]
      exact ⟨fun hmem => (hmem.resolve_right hlater).2, fun hvalue => .inl ⟨hname, hvalue⟩⟩
    · rw [if_neg hname]
      exact or_iff_right fun heq => hname (Prod.ext_iff.mp heq).1

/-- Ordered bindings are determined by what they bind. -/
theorem eq_of_lookup (h : bindings.Pairwise fun a b => a.1 < b.1)
    (hothers : others.Pairwise fun a b => a.1 < b.1)
    (hlookup : ∀ name, bindings.lookup name = others.lookup name) : bindings = others := by
  have hnodup {list : List Binding} (hlist : list.Pairwise fun a b => a.1 < b.1) : list.Nodup := by
    refine hlist.imp fun {a b} hlt heq => ?_
    rw [heq] at hlt
    exact List.lt_irrefl b.1 hlt
  refine List.Perm.eq_of_pairwise (fun a b _ _ hab hba => absurd hba (List.lt_asymm hab)) h hothers
    ((List.perm_ext_iff_of_nodup (hnodup h) (hnodup hothers)).mpr fun binding => ?_)
  rw [← Prod.mk.eta (p := binding), mem_iff_lookup h, mem_iff_lookup hothers, hlookup]

end Binding

/-- A name and a value that it is given. -/
abbrev Definition := Text × Value

namespace Definition

/-- A definition as an environment writes it. -/
def entry (definition : Definition) : Text := definition.1 ++ '=' :: definition.2.dump

/-- The binding that a definition makes. -/
def binding (definition : Definition) : Binding := (definition.1, some definition.2)

/-- The definition is of a variable. -/
def Named (definition : Definition) : Prop := definition.1.IsWord

variable {definition other : Definition} {listing others : List Definition} {x y : Text}

/-- A name ends at the equals sign, and a value before a comma or a closing brace. -/
theorem entry_append_inj (h : definition.Named) (hother : other.Named)
    (hx : ∀ c ∈ x.head?, c ∈ [',', '\x7d']) (hy : ∀ c ∈ y.head?, c ∈ [',', '\x7d'])
    (heq : definition.entry ++ x = other.entry ++ y) : definition = other ∧ x = y := by
  have hname {definition : Definition} (hword : definition.Named) : '=' ∉ definition.1 :=
    fun hmem => Text.IsWord.not_special hword '=' hmem (by decide)
  rw [entry, entry, List.append_assoc, List.append_assoc] at heq
  obtain ⟨hnames, hrest⟩ := append_cons_inj (hname h) (hname hother) heq
  obtain ⟨hvalues, hafter⟩ := Value.dump_append_inj hx hy hrest
  exact ⟨Prod.ext hnames hvalues, hafter⟩

/-- What follows an entry: a comma before each of the others, and the closing brace. -/
def after : List Definition → Text
  | [] => ['\x7d']
  | definition :: listing => ',' :: (definition.entry ++ after listing)

/-- What follows an entry begins with a comma or the closing brace. -/
theorem mem_head?_after : ∀ c ∈ (after listing).head?, c ∈ [',', '\x7d'] := by
  intro c hc
  cases listing <;> (cases hc; decide)

/-- Entries are joined by commas. -/
theorem join_entries (definition : Definition) (listing : List Definition) :
    Text.join [','] ((definition :: listing).map entry) ++ ['\x7d'] =
      definition.entry ++ after listing := by
  induction listing generalizing definition with
  | nil => rfl
  | cons next listing ih =>
    rw [List.map_cons, List.map_cons, Text.join, List.append_assoc, List.append_assoc,
      ← List.map_cons, ih next]
    · rfl
    · exact List.cons_ne_nil _ _

/-- The entries after an entry are told apart. -/
theorem after_inj (h : ∀ definition ∈ listing, definition.Named)
    (hothers : ∀ definition ∈ others, definition.Named) (heq : after listing = after others) :
    listing = others := by
  induction listing generalizing others with
  | nil =>
    cases others with
    | nil => rfl
    | cons other others => cases heq
  | cons definition listing ih =>
    cases others with
    | nil => cases heq
    | cons other others =>
      rw [List.forall_mem_cons] at h hothers
      obtain ⟨rfl, hrest⟩ := entry_append_inj h.1 hothers.1 mem_head?_after mem_head?_after
        (List.cons.inj heq).2
      rw [ih h.2 hothers.2 hrest]

/-- An entry does not begin with a closing brace. -/
theorem entry_append_ne (h : definition.Named) : definition.entry ++ x ≠ ['\x7d'] := by
  obtain ⟨name, value⟩ := definition
  cases name with
  | nil => exact h.elim
  | cons c name =>
    intro heq
    obtain ⟨rfl, -⟩ := List.cons.inj heq
    exact Text.IsWord.not_special h '\x7d' List.mem_cons_self (by decide)

/-- Listings of variables are told apart. -/
theorem join_entries_inj (h : ∀ definition ∈ listing, definition.Named)
    (hothers : ∀ definition ∈ others, definition.Named)
    (heq : Text.join [','] (listing.map entry) ++ ['\x7d'] =
      Text.join [','] (others.map entry) ++ ['\x7d']) : listing = others := by
  cases listing with
  | nil =>
    cases others with
    | nil => rfl
    | cons other others =>
      rw [join_entries] at heq
      exact absurd heq.symm (entry_append_ne (hothers other List.mem_cons_self))
  | cons definition listing =>
    cases others with
    | nil =>
      rw [join_entries] at heq
      exact absurd heq (entry_append_ne (h definition List.mem_cons_self))
    | cons other others =>
      -- With a comma in front, both are what follows an entry.
      rw [join_entries, join_entries] at heq
      exact after_inj h hothers (congrArg (',' :: ·) heq)

end Definition

namespace Environment

open Definition (entry)

/-- The environment that the definitions lead to, in their order. -/
def ofDefinitions (definitions : List Definition) : Environment :=
  definitions.foldl (fun environment definition =>
    environment.define definition.1 (some definition.2)) empty

/-- The last of the definitions of a name. -/
def lastValue? (definitions : List Definition) (name : Text) : Option Value :=
  definitions.reverse.lookup name

/-- One more definition gives its name a value. -/
theorem ofDefinitions_concat (definitions : List Definition) (definition : Definition) :
    ofDefinitions (definitions ++ [definition]) =
      (ofDefinitions definitions).define definition.1 (some definition.2) :=
  List.foldl_concat ..

/-- A name is bound to the last value that it was given. -/
theorem get?_ofDefinitions (definitions : List Definition) (name : Text) :
    (ofDefinitions definitions).get? name = (lastValue? definitions name).map some := by
  induction definitions using List.reverseRecOn with
  | nil => rfl
  | append_singleton definitions definition ih =>
    rw [ofDefinitions_concat, get?_define, ih, lastValue?, lastValue?, List.reverse_append,
      List.reverse_singleton, List.singleton_append, List.lookup_cons]
    by_cases hname : name = definition.1
    · rw [if_pos hname, beq_iff_eq.mpr hname]
      rfl
    · rw [if_neg hname, beq_false_of_ne hname]

/-- The bindings that definitions lead to are those of the last definitions, in the order of the
names. -/
theorem exists_listing (definitions : List Definition) :
    ∃ listing : List Definition,
      (ofDefinitions definitions).bindings = listing.map Definition.binding ∧
      (listing.Pairwise fun a b => a.1 < b.1) ∧
      ∀ name value, (name, value) ∈ listing ↔ lastValue? definitions name = some value := by
  have hmem := Binding.mem_iff_lookup (ofDefinitions definitions).ordered
  have hlookup : ∀ name, (ofDefinitions definitions).bindings.lookup name =
      (lastValue? definitions name).map some := get?_ofDefinitions definitions
  have hrange : (ofDefinitions definitions).bindings ∈ Set.range (List.map Definition.binding) := by
    rw [Set.range_list_map]
    rintro ⟨name, value⟩ hbinding
    rw [hmem, hlookup] at hbinding
    obtain ⟨last, -, rfl⟩ := Option.map_eq_some_iff.mp hbinding
    exact ⟨(name, last), rfl⟩
  obtain ⟨listing, hlisting⟩ := hrange
  have hordered := (ofDefinitions definitions).ordered
  rw [← hlisting, List.pairwise_map] at hordered
  refine ⟨listing, hlisting.symm, hordered, fun name value => ?_⟩
  have hinj : Function.Injective Definition.binding := by
    rintro ⟨first, a⟩ ⟨second, b⟩ heq
    cases heq
    rfl
  rw [← List.mem_map_of_injective hinj, hlisting, Definition.binding, hmem, hlookup,
    Option.map_eq_some_iff]
  simp

variable {definitions others listing : List Definition}

/-- The last definitions are among the definitions. -/
theorem named_of_lastValue? (hnamed : ∀ definition ∈ definitions, definition.Named)
    (hlast : ∀ name value, (name, value) ∈ listing ↔ lastValue? definitions name = some value) :
    ∀ definition ∈ listing, definition.Named := by
  rintro ⟨name, value⟩ hmem
  obtain ⟨before, after, hsplit, -⟩ := List.lookup_eq_some_iff.mp ((hlast name value).mp hmem)
  have hreverse : (name, value) ∈ definitions.reverse := by
    rw [hsplit]
    exact List.mem_append_right _ List.mem_cons_self
  exact hnamed _ (List.mem_reverse.mp hreverse)

/-- An environment of actual values is written as the entries of its definitions. -/
theorem text_of_bindings {environment : Environment}
    (h : environment.bindings = listing.map Definition.binding) :
    environment.text = '\x7b' :: Text.join [','] (listing.map entry) ++ ['\x7d'] := by
  rw [text, h, List.map_map]
  rfl

/-- Environments that are written in the same way bind the same names to the same values. -/
theorem get?_eq_of_text (hnamed : ∀ definition ∈ definitions, definition.Named)
    (hothers : ∀ definition ∈ others, definition.Named)
    (h : (ofDefinitions definitions).text = (ofDefinitions others).text) (name : Text) :
    (ofDefinitions definitions).get? name = (ofDefinitions others).get? name := by
  obtain ⟨listing, hbindings, -, hlast⟩ := exists_listing definitions
  obtain ⟨mates, hmates, -, hlastMates⟩ := exists_listing others
  rw [text_of_bindings hbindings, text_of_bindings hmates] at h
  have heq : listing = mates := Definition.join_entries_inj (named_of_lastValue? hnamed hlast)
    (named_of_lastValue? hothers hlastMates) (List.cons.inj h).2
  rw [get?, get?, hbindings, hmates, heq]

/-- Environments that bind the same names to the same values are the same. -/
theorem eq_of_get? {environment other : Environment}
    (h : ∀ name, environment.get? name = other.get? name) : environment = other := by
  obtain ⟨bindings, hordered⟩ := environment
  obtain ⟨mates, hmates⟩ := other
  cases Binding.eq_of_lookup hordered hmates h
  rfl

/-- Variables are written in the order of their bytes. -/
theorem pairwise_encode (hordered : listing.Pairwise fun a b => a.1 < b.1)
    (hnamed : ∀ definition ∈ listing, definition.Named) :
    listing.Pairwise fun a b => Utf8.encode a.1 < Utf8.encode b.1 :=
  hordered.imp_of_mem fun ha hb hlt => Utf8.encode_lt_encode
    (Text.IsWord.toNat_lt (hnamed _ ha)) (Text.IsWord.toNat_lt (hnamed _ hb)) hlt

end Environment

/-- Values are told apart by how they are written. -/
theorem Value.dump_inj {value other : Value} : value.dump = other.dump ↔ value = other := by
  refine ⟨fun h => ?_, congrArg dump⟩
  have hnone : ∀ c ∈ ([] : Text).head?, c ∈ [',', '\x7d'] := fun c hc => absurd hc (by simp)
  exact (dump_append_inj hnone hnone (congrArg (· ++ []) h)).1

/-- Numbers are written in the same way exactly if they have the same bits or are both not numbers:
zero is told apart from its negative. -/
theorem Value.number_dump_inj {x y : Float} : (number x).dump = (number y).dump ↔
    x.toBits = y.toBits ∨ x.isNaN = true ∧ y.isNaN = true := by
  rw [dump_inj, number.injEq, Float.toBits_inj, Float.isNaN_eq_decide_eq_nan,
    Float.isNaN_eq_decide_eq_nan, decide_eq_true_iff, decide_eq_true_iff]
  exact ⟨.inl, fun h => h.elim id fun hnan => hnan.1.trans hnan.2.symm⟩

/-- The text of an environment is canonical. Whatever definitions of variables led to two
environments, their texts agree exactly if the environments bind the same names to the same values.
A name is bound to the last value that it was given. Every name that is bound is listed once, with
its value, in the order of the bytes of the names. No two values are written in the same way; for
numbers this means that one not-a-number is as good as another, and that zero and its negative
differ. -/
theorem Environment.text_canonical (definitions others : List Definition)
    (hnamed : ∀ definition ∈ definitions, definition.Named)
    (hothers : ∀ definition ∈ others, definition.Named) :
    ((ofDefinitions definitions).text = (ofDefinitions others).text ↔
      ∀ name, (ofDefinitions definitions).get? name = (ofDefinitions others).get? name) ∧
    (∀ name, (ofDefinitions definitions).get? name = (lastValue? definitions name).map some) ∧
    (∃ listing : List Definition,
      (listing.Pairwise fun a b => Utf8.encode a.1 < Utf8.encode b.1) ∧
      (∀ name value, (name, value) ∈ listing ↔ lastValue? definitions name = some value) ∧
      (ofDefinitions definitions).text =
        '\x7b' :: Text.join [','] (listing.map Definition.entry) ++ ['\x7d']) ∧
    (∀ value other : Value, value.dump = other.dump ↔ value = other) ∧
    ∀ x y : Float, (Value.number x).dump = (Value.number y).dump ↔
      x.toBits = y.toBits ∨ x.isNaN = true ∧ y.isNaN = true := by
  obtain ⟨listing, hbindings, hordered, hlast⟩ := exists_listing definitions
  refine ⟨⟨get?_eq_of_text hnamed hothers, fun h => congrArg text (eq_of_get? h)⟩,
    get?_ofDefinitions definitions, ⟨listing, ?_, hlast, text_of_bindings hbindings⟩,
    fun value other => Value.dump_inj, fun x y => Value.number_dump_inj⟩
  exact pairwise_encode hordered (named_of_lastValue? hnamed hlast)

/-- A name that is defined twice, and a string that looks like an entry, defined in any order. -/
theorem Environment.text_canonical_redefined :
    (ofDefinitions [(['b'], .bool true), (['a'], .string ",b=1\x7d".toList),
      (['b'], .nil)]).text = "\x7ba=\",b=1\x7d\",b=nil\x7d".toList ∧
    (ofDefinitions [(['b'], .nil), (['a'], .string ",b=1\x7d".toList)]).text =
      "\x7ba=\",b=1\x7d\",b=nil\x7d".toList ∧
    ∀ name,
      (ofDefinitions [(['b'], .bool true), (['a'], .string ",b=1\x7d".toList),
        (['b'], .nil)]).get? name =
      (ofDefinitions [(['b'], .nil), (['a'], .string ",b=1\x7d".toList)]).get? name := by
  have hwords : ∀ name ∈ [['a'], ['b']], Text.IsWord name := by
    intro name hname
    rcases List.mem_pair.mp hname with rfl | rfl <;> exact ⟨by decide, by simp⟩
  have hfirst : (ofDefinitions [(['b'], .bool true), (['a'], .string ",b=1\x7d".toList),
      (['b'], .nil)]).text = "\x7ba=\",b=1\x7d\",b=nil\x7d".toList := by decide +kernel
  have hsecond : (ofDefinitions [(['b'], .nil), (['a'], .string ",b=1\x7d".toList)]).text =
      "\x7ba=\",b=1\x7d\",b=nil\x7d".toList := by decide +kernel
  refine ⟨hfirst, hsecond, (text_canonical _ _ ?_ ?_).1.mp (hfirst.trans hsecond.symm)⟩
  · intro definition hmem
    exact hwords definition.1 (by fin_cases hmem <;> decide)
  · intro definition hmem
    exact hwords definition.1 (by fin_cases hmem <;> decide)

end Lox
