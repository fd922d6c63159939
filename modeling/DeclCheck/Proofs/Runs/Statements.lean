import DeclCheck.Proofs.Runs.Outcome

/-! # Statements of the synthetic unit

    Synthesis writes one statement into the synthetic unit for each name that
    it declares, and it declares a name only if no extern unit does, the
    synthetic one included.  So the names of a run differ from each other, and
    each of them has exactly one statement afterwards. -/

namespace DeclCheck

open Ast (Node)

namespace Ast.Node

/-- Whether a declaration of a variable statement declares a name. -/
def isDeclarationOf (name : String) : Node → Bool
  | .mk _ _ _ (.variableDeclaration (.mk _ _ _ (.identifier text)) _) => text == name
  | _ => false

/-- Whether a node is a statement that declares a name as a variable. -/
def isVarStatementOf (name : String) : Node → Bool
  | .mk _ _ _ (.variableStatement .varWord declarations) =>
      declarations.any (isDeclarationOf name)
  | _ => false

/-- A declaration of a name mentions it. -/
theorem mention_of_isDeclarationOf {name : String} {n : Node} (h : n.isDeclarationOf name = true)
    (unit : Nat) (around : List Place) (kind : DeclarationKind) (byLoop : Bool) :
    ∃ m ∈ n.mentions unit around (.declarator kind byLoop), m.unit = unit ∧
      m.around = around ∧ m.kind? = some kind ∧ m.name.text = name := by
  rw [isDeclarationOf.eq_def] at h
  split at h
  · rw [mentions_mk _ _ _ _ (.variableDeclaration _ _) fun _ same => nomatch same]
    exact ⟨_, List.mem_flatMap.mpr ⟨_, .head _, .head _⟩, rfl, rfl, rfl, beq_iff_eq.mp h⟩
  · cases h

/-- A statement that declares a name mentions it. -/
theorem mention_of_isVarStatementOf {name : String} {n : Node}
    (h : n.isVarStatementOf name = true) (unit : Nat) (around : List Place) :
    ∃ m ∈ n.mentions unit around .plain, m.unit = unit ∧ m.around = around ∧
      m.kind? = some .varName ∧ m.name.text = name := by
  rw [isVarStatementOf.eq_def] at h
  split at h
  · obtain ⟨d, hd, declares⟩ := List.any_eq_true.mp h
    obtain ⟨m, hm, same⟩ := mention_of_isDeclarationOf declares unit around .varName false
    rw [mentions_mk _ _ _ _ (.variableStatement .varWord _) fun _ same => nomatch same]
    exact ⟨m, List.mem_flatMap.mpr ⟨_, List.mem_map_of_mem hd, hm⟩, same⟩
  · cases h

end Ast.Node

namespace Program

/-- The statements of the synthetic unit. -/
def syntheticStatements (p : Program) : List Node :=
  match p.synthetic with
  | none => []
  | some id => (p.unit id).root.children

/-- How many statements of the synthetic unit declare a name. -/
def countStatements (p : Program) (name : String) : Nat :=
  p.syntheticStatements.countP (Node.isVarStatementOf name)

theorem syntheticStatements_annotateAll (p : Program) (ns : List UnitNode) (extra : Ast.Flags) :
    (p.annotateAll ns extra).syntheticStatements = p.syntheticStatements := by
  unfold annotateAll
  induction ns generalizing p with
  | nil => rfl
  | cons n ns ih =>
      rw [List.foldl_cons, ih, syntheticStatements, syntheticStatements]
      show (match p.synthetic with
        | none => []
        | some id => ((p.annotate n extra).unit id).root.children) = _
      cases p.synthetic with
      | none => rfl
      | some id => exact congrArg Node.children (root_annotate p n extra id)

theorem countStatements_annotateAll (p : Program) (ns : List UnitNode) (extra : Ast.Flags)
    (name : String) : (p.annotateAll ns extra).countStatements name = p.countStatements name :=
  congrArg (List.countP _) (syntheticStatements_annotateAll p ns extra)

/-- Declaring a name writes one statement more. -/
theorem Sound.syntheticStatements_declareSynthetic {p : Program} (h : p.Sound) (name : String) :
    ∃ first, (p.declareSynthetic name).2.syntheticStatements =
      p.syntheticStatements ++ [syntheticStatement first name] := by
  obtain ⟨sound, hs⟩ := h.ensureSynthetic
  -- a synthetic unit that is only now added has no statements
  have before : (p.ensureSynthetic.2.unit p.ensureSynthetic.1).root.children =
      p.syntheticStatements := by
    rw [syntheticStatements, Program.ensureSynthetic]
    cases hp : p.synthetic with
    | some id => rfl
    | none =>
        have new : (p.push emptySynthetic none).2.unit p.units.size = emptySynthetic := by
          rw [unit_push, if_pos rfl]
        exact congrArg (fun u => u.root.children) new
  have after : (p.declareSynthetic name).2.synthetic = some p.ensureSynthetic.1 := hs
  rw [syntheticStatements, after]
  dsimp only
  rw [h.unit_declareSynthetic, if_pos rfl, ← before]
  exact ⟨_, rfl⟩

theorem Sound.countStatements_declareSynthetic {p : Program} (h : p.Sound) (name other : String) :
    (p.declareSynthetic name).2.countStatements other =
      p.countStatements other + [name].count other := by
  obtain ⟨first, after⟩ := h.syntheticStatements_declareSynthetic name
  have new : (syntheticStatement first name).isVarStatementOf other = (name == other) := by
    simp [syntheticStatement, Node.isVarStatementOf, Node.isDeclarationOf]
  rw [countStatements, after, List.countP_append, List.countP_singleton, new, countStatements,
    List.count_singleton]

/-- A name with a statement in the synthetic unit is declared among the
    externs. -/
theorem Sound.mention_of_countStatements {p : Program} (h : p.Sound) {name : String}
    (declared : p.countStatements name ≠ 0) :
    ∃ m ∈ p.mentions, p.DeclaresAdded (· = name) m := by
  rw [countStatements, syntheticStatements] at declared
  cases hs : p.synthetic with
  | none =>
      rw [hs] at declared
      exact absurd rfl declared
  | some id =>
      rw [hs] at declared
      obtain ⟨lt, synthetic⟩ := h.synthetic id hs
      obtain ⟨n, hn, declares⟩ := List.countP_pos_iff.mp (Nat.pos_of_ne_zero declared)
      have external : p.isExtern id = true := synthetic.isExtern
      obtain ⟨m, hm, unit, around, kind, text⟩ :=
        Node.mention_of_isVarStatementOf declares id (Place.top true)
      refine ⟨m, ?_, unit ▸ external, around, kind, text⟩
      refine List.mem_flatMap.mpr ⟨id, mem_order.mpr lt, ?_⟩
      rw [synthetic.root, syntheticRoot, external,
        Node.mentions_mk _ _ _ _ (.sourceFile _) (by rintro _ ⟨⟩)]
      exact List.mem_flatMap.mpr ⟨_, List.mem_map_of_mem hn, hm⟩

end Program

namespace Synthesis

/-- What a synthesis has written: one statement for each of its names, which
    are distinct. -/
structure Writes (p : Program) (s : Synthesis) : Prop where
  distinct : s.names.Nodup
  count : ∀ name, s.program.countStatements name = p.countStatements name + s.names.count name

namespace Writes

variable {p : Program} {t : ScopeTree} {o : Options} {s : Synthesis}

theorem start (p : Program) (t : ScopeTree) : Writes p ⟨p, t, .empty, []⟩ :=
  ⟨.nil, fun _ => rfl⟩

theorem makeRoom (h : Writes p s) (o : Options) (name : String) : Writes p (s.makeRoom o name) := by
  rw [Synthesis.makeRoom]
  split
  · exact h
  · split
    · exact h
    · split
      · exact ⟨h.distinct, h.count⟩
      · refine ⟨h.distinct, fun other => ?_⟩
        exact (Program.countStatements_annotateAll ..).trans (h.count other)

theorem introduce (h : Writes p s) (built : s.program.Built) {name : String}
    (new : name ∉ s.names) : Writes p (s.introduce name) := by
  constructor
  · show (s.names ++ [name]).Nodup
    rw [List.nodup_append]
    refine ⟨h.distinct, List.nodup_singleton _, ?_⟩
    rintro a ha b hb rfl
    exact new (List.mem_singleton.mp hb ▸ ha)
  · intro other
    show (s.program.declareSynthetic name).2.countStatements other =
      p.countStatements other + (s.names ++ [name]).count other
    rw [built.sound.countStatements_declareSynthetic, h.count, List.count_append]
    omega

theorem synthesize (h : Writes p s) (grows : Grows p t o s) (known : t.Consistent) (name : String) :
    Writes p (s.synthesize o name) := by
  rw [Synthesis.synthesize]
  cases hl : s.tree.lookup ScopeTree.externScope name with
  | some id => exact h
  | none =>
      obtain ⟨room, names, -⟩ := grows.makeRoom known name
      refine (h.makeRoom o name).introduce room.built ?_
      rw [names]
      exact grows.not_mem hl

theorem foldl (h : Writes p s) (grows : Grows p t o s) (known : t.Consistent)
    (top : ScopeTree.externScope < t.scopes.size) (names : List String) :
    Writes p (names.foldl (Synthesis.synthesize o) s) := by
  induction names generalizing s with
  | nil => exact h
  | cons name names ih =>
      exact ih (h.synthesize grows known name) (grows.synthesize known top name)

end Writes

/-- A name that a synthesis declares had no statement before. -/
theorem Grows.countStatements_eq_zero {p : Program} {t : ScopeTree} {o : Options} {s : Synthesis}
    (h : Grows p t o s) (hp : p.Built) (told : t.Tells p.layout p.mentions) {name : String}
    (hn : name ∈ s.names) : p.countStatements name = 0 := by
  by_contra declared
  obtain ⟨m, hm, added⟩ := hp.sound.mention_of_countStatements declared
  have bound := told.names ScopeTree.externScope .externs [] name told.follows.externs
  have declares : Place.externs.declares name (p.mentions.map Mention.near) = true := by
    rw [Place.declares, Bool.or_eq_true, List.any_eq_true]
    refine .inr ⟨m.near, List.mem_map_of_mem hm, ?_⟩
    rw [Mention.declaresIn, added.home_near, Bool.and_eq_true]
    exact ⟨beq_self_eq_true _, beq_iff_eq.mpr added.name⟩
  rw [(h.new name hn).1, declares] at bound
  cases bound

end Synthesis

namespace Program

variable {p : Program}

/-- The names that a run synthesizes differ from each other and had no
    statement before; afterwards each has exactly one. -/
theorem Built.writes (h : p.Built) (o : Options) : (p.synthesis o).names.Nodup ∧
    ∀ name ∈ (p.synthesis o).names, p.countStatements name = 0 ∧
      (p.synthesis o).program.countStatements name = 1 := by
  have reads := h.reads o
  have writes : Synthesis.Writes p (p.synthesis o) :=
    (Synthesis.Writes.start p _).foldl (.start h _ o) (h.consistent o)
      reads.follows.externScope_lt _
  refine ⟨writes.distinct, fun name hn => ?_⟩
  have before := (h.grows o).countStatements_eq_zero h reads.toTells hn
  rw [writes.count, before, List.count_eq_one_of_mem writes.distinct hn]
  exact ⟨rfl, rfl⟩

end Program

end DeclCheck
