import DeclCheck.Proofs.Grammar.CleanTexts

/-! # Where the nodes of a text lie

    A node starts at the token where its construct starts and stops with the
    last token taken for it, and reading never goes back.  So the parts of a
    construct lie inside it, one behind the other, if only each takes some of
    the text, which nodes do where nothing is wrong.  The name of a shorthand
    property is read once, for two nodes.

    A name is a token, and covers the text it is made of.  That holds whatever
    is wrong with the text, as a name that the text lacks is a missing node. -/

namespace DeclCheck

open Token Ast

/-- Whether a word of a text is what a span covers. -/
def Span.Covers (text : List Char) (span : Span) (word : List Char) : Prop :=
  ∃ front rest, text = front ++ (word ++ rest) ∧ byteLength front = span.start ∧
    span.stop = span.start + byteLength word

/-- Whether a span is not empty and lies inside another one. -/
structure Span.Within (inner outer : Span) : Prop where
  start : outer.start ≤ inner.start
  filled : inner.start < inner.stop
  stop : inner.stop ≤ outer.stop

namespace Grammar

variable {text : List Char} {e : Setting} {s t u : State} {ns ms : List Node}
variable {owed : List Feature}

/-! ## Names -/

/-- Whether a node that names a variable or a label covers its name. -/
def Named (text : List Char) (n : Node) : Prop :=
  ∀ name, n.shape = .identifier name ∨ n.shape = .label name →
    n.span.Covers text name.toList ∧ IsName name.toList

/-- Other constructs name nothing. -/
theorem Named.of_other {i : Nat} {span : Span} {f : Flags} {sh : Shape Node}
    (identifier : sh.isIdentifier = false) (label : sh.isLabel = false) :
    Named text (.mk i span f sh) := by
  rintro name (rfl | rfl)
  · cases identifier
  · cases label

/-- An identifier covers what it is spelled with. -/
theorem State.Stands.named (h : s.Stands text) (identifier : s.lexer.token.kind = .identifier) :
    s.tokenSpan.Covers text s.lexer.token.value.toList ∧ IsName s.lexer.token.value.toList := by
  have le := h.here_le
  obtain ⟨front, gap, lexeme, splits⟩ := h
  have spells : s.lexer.token.kind.Spells lexeme := splits.spells
  rw [identifier] at spells
  rw [splits.named identifier]
  refine ⟨⟨front ++ gap, s.lexer.rest, ?_, ?_, ?_⟩, spells⟩
  · rw [splits.text, List.append_assoc]
  · rw [byteLength_append, ← splits.taken]
    exact splits.start.symm
  · exact (Nat.max_eq_left le).trans splits.stop

/-- All names of a text cover themselves in it. -/
theorem Reads.named (h : Reads e s ns owed t) :
    s.Stands text → ∀ n ∈ ns, ∀ m ∈ n.postorder, Named text m := by
  induction h with
  | nil | taken | noted | reported | demanded => exact fun _ => List.forall_mem_nil _
  | append first _ ih ih' =>
      exact fun stands => List.forall_mem_append.mpr ⟨ih stands, ih' (first.stands stands)⟩
  | reportedAt _ _ _ ih => exact ih
  | missing s =>
      refine fun _ => List.forall_mem_singleton.mpr (Node.forall_postorder_mk.mpr ⟨nofun, ?_⟩)
      exact .of_other rfl rfl
  | token s h =>
      intro stands
      refine List.forall_mem_singleton.mpr (Node.forall_postorder_mk.mpr ⟨?_, ?_⟩)
      · rw [h.parts]
        exact List.forall_mem_nil _
      · rintro name (rfl | rfl)
        · exact h.2 ▸ stands.named h.1
        · exact h.2 ▸ stands.named h.1
  | shorthand _ identifier ih =>
      intro stands
      refine List.forall_mem_cons.mpr ⟨ih stands _ (List.mem_singleton_self _), ?_⟩
      refine List.forall_mem_singleton.mpr (Node.forall_postorder_mk.mpr ⟨nofun, ?_⟩)
      rintro name (same | same)
      · cases same
        exact stands.named identifier
      · cases same
  | node _ _ composite _ ih =>
      intro stands
      refine List.forall_mem_singleton.mpr (Node.forall_postorder_mk.mpr ⟨ih stands, ?_⟩)
      rename_i sh _ _ _ _
      cases sh <;> first | exact .of_other rfl rfl | cases composite

/-- All names of a text cover themselves in it. -/
theorem parse_named (level : LanguageLevel) (text : String) :
    ∀ n ∈ (parse level text).root.postorder, Named text.toList n := by
  obtain ⟨statements, t, run, read⟩ := exists_reads level text
  rw [parse_eq_reading, read]
  refine Node.forall_postorder_mk.mpr ⟨run.named (State.start_stands _), ?_⟩
  exact .of_other rfl rfl

/-! ## Nodes -/

/-- A node stands behind another one, or is the variable of a shorthand property
    whose name the other one is. -/
def Apart (n m : Node) : Prop :=
  n.span.stop ≤ m.span.start ∨
    n.span = m.span ∧ ∃ name, n.shape = .propertyName name ∧ m.shape = .identifier name

/-- The parts of a node lie inside it, apart from each other. -/
structure Spaced (n : Node) : Prop where
  inside : ∀ part ∈ n.children, part.span.Within n.span
  apart : n.children.Pairwise Apart

/-- Nothing has to be apart in a node without parts. -/
theorem Spaced.of_no_parts {n : Node} (none : n.children = []) : Spaced n := by
  refine ⟨?_, ?_⟩
  · rw [none]
    exact List.forall_mem_nil _
  · rw [none]
    exact .nil

/-- Nodes that are completed between two states: they lie between what is read
    at these states, apart from each other, and so do the parts of all nodes in
    them. -/
structure Fills (s : State) (ns : List Node) (t : State) : Prop where
  here : s.here ≤ t.here
  lastEnd : s.lastEnd ≤ t.lastEnd
  between : ∀ n ∈ ns, n.span.Within ⟨s.here, t.lastEnd⟩
  apart : ns.Pairwise Apart
  below : ∀ n ∈ ns, ∀ m ∈ n.postorder, Spaced m

namespace Fills

/-- Nothing is completed. -/
theorem nil (here : s.here ≤ t.here) (lastEnd : s.lastEnd ≤ t.lastEnd) : Fills s [] t :=
  ⟨here, lastEnd, List.forall_mem_nil _, .nil, List.forall_mem_nil _⟩

/-- What is read later lies behind what was read before. -/
theorem append (h : Fills s ns t) (h' : Fills t ms u) (between : t.lastEnd ≤ t.here) :
    Fills s (ns ++ ms) u := by
  refine ⟨Nat.le_trans h.here h'.here, Nat.le_trans h.lastEnd h'.lastEnd, ?_, ?_, ?_⟩
  · refine List.forall_mem_append.mpr ⟨fun n hn => ?_, fun m hm => ?_⟩
    · have place := h.between n hn
      exact ⟨place.start, place.filled, Nat.le_trans place.stop h'.lastEnd⟩
    · have place := h'.between m hm
      exact ⟨Nat.le_trans h.here place.start, place.filled, place.stop⟩
  · refine List.pairwise_append.mpr ⟨h.apart, h'.apart, fun n hn m hm => .inl ?_⟩
    -- the nodes of the first run stop before the token where the second one starts
    exact Nat.le_trans (h.between n hn).stop (Nat.le_trans between (h'.between m hm).start)
  · exact List.forall_mem_append.mpr ⟨h.below, h'.below⟩

/-- A construct around its parts. -/
theorem around {i : Nat} {f : Flags} {sh : Shape Node} (h : Fills s sh.parts t)
    (filled : (Node.mk i ⟨s.here, max t.lastEnd s.here⟩ f sh).Filled) :
    Fills s [.mk i ⟨s.here, max t.lastEnd s.here⟩ f sh] t.completed := by
  have took : s.here < t.lastEnd := by
    cases parts : sh.parts with
    | nil =>
        have some : s.here < max t.lastEnd s.here := filled parts
        omega
    | cons part rest =>
        have first := h.between part (parts ▸ List.mem_cons_self)
        exact Nat.lt_of_le_of_lt first.start (Nat.lt_of_lt_of_le first.filled first.stop)
  have stop : max t.lastEnd s.here = t.lastEnd := Nat.max_eq_left (Nat.le_of_lt took)
  rw [stop]
  refine ⟨h.here, h.lastEnd, ?_, List.pairwise_singleton _ _, ?_⟩
  · exact List.forall_mem_singleton.mpr ⟨Nat.le_refl _, took, Nat.le_refl _⟩
  · exact List.forall_mem_singleton.mpr
      (Node.forall_postorder_mk.mpr ⟨h.below, h.between, h.apart⟩)

/-- The variable of a shorthand property lies where the property is named. -/
theorem shorthand {i j : Nat} {span : Span} {f g : Flags} {name : String}
    (h : Fills s [.mk i span f (.propertyName name)] t) :
    Fills s [.mk i span f (.propertyName name), .mk j span g (.identifier name)] t.completed := by
  have place := h.between _ (List.mem_singleton_self _)
  refine ⟨h.here, h.lastEnd, ?_, List.pairwise_pair.mpr (.inr ⟨rfl, _, rfl, rfl⟩), ?_⟩
  · exact List.forall_mem_cons.mpr ⟨place, List.forall_mem_singleton.mpr place⟩
  · refine List.forall_mem_cons.mpr ⟨h.below _ (List.mem_singleton_self _), ?_⟩
    refine List.forall_mem_singleton.mpr (Node.forall_postorder_mk.mpr ⟨nofun, ?_⟩)
    exact .of_no_parts rfl

end Fills

/-- Reading completes nodes one behind the other, if each takes some of the
    text. -/
theorem Reads.fills (h : Reads e s ns owed t) :
    s.Stands text → (∀ n ∈ ns, ∀ m ∈ n.postorder, m.Filled) → Fills s ns t := by
  induction h with
  | nil | reported | demanded => exact fun _ _ => .nil (Nat.le_refl _) (Nat.le_refl _)
  | append first _ ih ih' =>
      intro stands filled
      have behind := first.stands stands
      obtain ⟨filled, filled'⟩ := List.forall_mem_append.mp filled
      exact (ih stands filled).append (ih' behind filled') behind.lastEnd_le
  | taken s =>
      intro stands _
      have here := Nat.le_trans stands.here_le stands.taken.lastEnd_le
      exact .nil here (Nat.le_trans stands.lastEnd_le stands.here_le)
  | noted lexer lastEnd =>
      intro _ _
      exact .nil (Nat.le_of_eq (congrArg (fun l => l.token.span.start) lexer.symm))
        (Nat.le_of_eq lastEnd.symm)
  | reportedAt _ _ _ ih =>
      intro stands filled
      obtain ⟨here, lastEnd, between, apart, below⟩ := ih stands filled
      exact ⟨here, lastEnd, between, apart, below⟩
  | missing s =>
      intro _ filled
      have some := filled _ (List.mem_singleton_self _) _ (Node.mem_postorder_self _) rfl
      exact absurd some (Nat.lt_irrefl _)
  | @token s sh h =>
      intro stands filled
      have here := Nat.le_trans stands.here_le stands.taken.lastEnd_le
      have none : Fills s sh.parts s.taken := by
        rw [h.parts]
        exact .nil here (Nat.le_trans stands.lastEnd_le stands.here_le)
      exact none.around (filled _ (List.mem_singleton_self _) _ (Node.mem_postorder_self _))
  | shorthand _ _ ih =>
      intro stands filled
      refine (ih stands fun n hn => filled n ?_).shorthand
      exact List.mem_cons.mpr (.inl (List.mem_singleton.mp hn))
  | node _ _ _ _ ih =>
      intro stands filled
      obtain ⟨parts, own⟩ := Node.forall_postorder_mk.mp (filled _ (List.mem_singleton_self _))
      exact (ih stands parts).around own

/-! ## Whole texts -/

/-- The last token ends in the text. -/
theorem State.Stands.lastEnd_le_length (h : s.Stands text) : s.lastEnd ≤ byteLength text := by
  obtain ⟨front, gap, lexeme, splits⟩ := h
  rw [splits.text, byteLength_append, ← splits.taken]
  exact Nat.le_add_right _ _

/-- In a text in which nothing is wrong the parts of each node lie inside it,
    apart from each other. -/
theorem parse_spaced {level : LanguageLevel} {text : String}
    (clean : (parse level text).faults = []) :
    ∀ n ∈ (parse level text).root.postorder, Spaced n := by
  obtain ⟨-, right⟩ := root_right clean
  obtain ⟨statements, t, run, read⟩ := exists_reads level text
  rw [parse_eq_reading, read] at right ⊢
  have start := State.start_stands text.toList
  have fills := run.fills start fun n hn => (right n hn).filled
  refine Node.forall_postorder_mk.mpr ⟨fills.below, fun part hp => ?_, fills.apart⟩
  have place := fills.between part hp
  exact ⟨Nat.zero_le _, place.filled, Nat.le_trans place.stop (run.stands start).lastEnd_le_length⟩

/-- Where nothing is wrong with a construct, only the two nodes of a shorthand
    property do not lie one behind the other. -/
theorem Spaced.ordered {n : Node} (h : Spaced n) (whole : n.shape.Whole) :
    n.children.Pairwise (fun a b => a.span.stop ≤ b.span.start) ∨
      ∃ key value name, n.shape = .propertyAssignment key (some value) ∧ key.span = value.span ∧
        key.shape = .propertyName name ∧ value.shape = .identifier name := by
  refine Classical.or_iff_not_imp_right.mpr fun other => ?_
  refine List.pairwise_iff_forall_sublist.mpr fun {a b} pair => ?_
  rcases List.pairwise_iff_forall_sublist.mp h.apart pair with le | ⟨same, name, key, value⟩
  · exact le
  · refine absurd ⟨a, b, name, ?_, same, key, value⟩ other
    exact whole.eq_propertyAssignment pair (key ▸ rfl) (value ▸ rfl)

/-- The nodes of a text in which nothing is wrong nest as its constructs do: the
    root covers the text, and every other node takes some of it, inside its
    parent and behind the parts of its parent that come first.  Only the
    variable of a shorthand property lies where the property is named.  The names
    of variables and labels stand where their nodes lie, and are no reserved
    words. -/
theorem spans_nest {level : LanguageLevel} {text : String}
    (clean : (parse level text).faults = []) :
    (parse level text).root.span = ⟨0, byteLength text.toList⟩ ∧
      ∀ n ∈ (parse level text).root.postorder,
        (∀ part ∈ n.children, part.span.Within n.span) ∧
        (n.children.Pairwise (fun a b => a.span.stop ≤ b.span.start) ∨
          ∃ key value name, n.shape = .propertyAssignment key (some value) ∧
            key.span = value.span ∧ key.shape = .propertyName name ∧
            value.shape = .identifier name) ∧
        ∀ name, n.shape = .identifier name ∨ n.shape = .label name →
          n.span.Covers text.toList name.toList ∧ IsName name.toList := by
  refine ⟨?_, fun n hn => ⟨(parse_spaced clean n hn).inside, ?_, parse_named level text n hn⟩⟩
  · obtain ⟨statements, t, run, read⟩ := exists_reads level text
    rw [parse_eq_reading, read]
    rfl
  · exact (parse_spaced clean n hn).ordered (root_sound clean n hn).whole

/-- In a shorthand property two nodes share the span of the name; a label, a variable
    and a property with a value stand beside it. -/
theorem spans_nest_shorthand :
    (parse .es3 "l: x = {y, z: 1}").faults = [] ∧
      ((parse .es3 "l: x = {y, z: 1}").root.postorder.filterMap fun n =>
        n.shape.nameText?.map fun name => (name, n.span)) =
        [("l", ⟨0, 1⟩), ("x", ⟨3, 4⟩), ("y", ⟨8, 9⟩), ("y", ⟨8, 9⟩), ("z", ⟨11, 12⟩)] ∧
      ∀ n ∈ (parse .es3 "l: x = {y, z: 1}").root.postorder,
        (∀ part ∈ n.children, part.span.Within n.span) ∧
        ∀ name, n.shape = .identifier name ∨ n.shape = .label name →
          n.span.Covers "l: x = {y, z: 1}".toList name.toList ∧ IsName name.toList := by
  have clean : (parse .es3 "l: x = {y, z: 1}").faults = [] := by decide +kernel
  refine ⟨clean, by decide +kernel, fun n hn => ?_⟩
  obtain ⟨inside, -, names⟩ := (spans_nest clean).2 n hn
  exact ⟨inside, names⟩

end Grammar

end DeclCheck
