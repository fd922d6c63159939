import DeclCheck.Proofs.Names.Externs
import DeclCheck.Proofs.Runs.Immutable

/-! # Wanted names

    Synthesis declares whatever is wanted, unless an extern unit declares it
    already.  Afterwards the names of the extern units all mean something, and
    so do those of the sources if undeclared names are tolerated.  When the
    program is read again, nothing is wanted any more. -/

namespace DeclCheck

/-! ## References whose meaning is decided -/

/-- A reference that means what the name of a mention resolves to. -/
structure Reference.Decided (t : ScopeTree) (l : Layout) (r : Reference) (m : Mention) : Prop where
  name : r.name = m.name.text
  node : r.node = ⟨m.unit, m.name.node⟩
  span : r.span = m.name.span
  around : l[r.scope]? = some m.around
  resolved : r.resolved = t.resolve r.scope m.name.text

namespace Collection.Reads

variable {c : Collection} {l : Layout} {ms : List Mention}

/-- The references of a collection are those of the mentions. -/
theorem decided (h : c.Reads l ms) :
    List.Forall₂ (Reference.Decided c.tree l) c.resolve.references.toList
      (ms.filter Mention.isReference) := by
  have mentions := Mention.map_fst_references ms fun _ => true
  simp only [Bool.and_true] at mentions
  rw [resolve_references, ← mentions, List.forall₂_map_left_iff, List.forall₂_map_right_iff,
    List.filter_true]
  refine h.references.imp fun r s hr => ⟨hr.name, hr.node, hr.span, hr.around, ?_⟩
  show c.tree.resolve r.scope r.name = _
  rw [hr.name]

/-- Each reference comes from a mention. -/
theorem mention_of_reference (h : c.Reads l ms) {r : Reference}
    (hr : r ∈ c.resolve.references.toList) :
    ∃ m ∈ ms, m.isReference = true ∧ r.Decided c.tree l m := by
  obtain ⟨m, hm, decided⟩ := exists_of_forall₂ h.decided hr
  obtain ⟨hm, reference⟩ := List.mem_filter.mp hm
  exact ⟨m, hm, reference, decided⟩

/-- Each mention that refers to its name is a reference. -/
theorem reference_of_mention (h : c.Reads l ms) {m : Mention} (hm : m ∈ ms)
    (reference : m.isReference = true) :
    ∃ r ∈ c.resolve.references.toList, r.Decided c.tree l m :=
  exists_of_forall₂ h.decided.flip (List.mem_filter.mpr ⟨hm, reference⟩)

end Collection.Reads

/-- What a decided reference means is visible. -/
theorem Reference.Decided.isSome {t : ScopeTree} {l : Layout} {ms : List Mention} {r : Reference}
    {m : Mention} (h : r.Decided t l m) (told : t.Tells l ms) :
    r.resolved.isSome = m.near.isVisible (ms.map Mention.near) := by
  rw [h.resolved]
  exact told.resolve_isSome h.around

/-! ## What is wanted is declared -/

namespace Synthesis.Grows

variable {p : Program} {t : ScopeTree} {o : Options} {s : Synthesis}

/-- Whatever the extern scope declares, it goes on declaring, and it declares
    the name that is synthesized. -/
theorem declared_synthesize (h : Grows p t o s) (known : t.Consistent)
    (top : ScopeTree.externScope < t.scopes.size) (name : String) {other : String}
    (declared : other = name ∨ (s.tree.lookup ScopeTree.externScope other).isSome = true) :
    ((s.synthesize o name).tree.lookup ScopeTree.externScope other).isSome = true := by
  have grows := h.synthesize known top name
  rw [Synthesis.synthesize] at grows ⊢
  cases hl : s.tree.lookup ScopeTree.externScope name with
  | some id =>
      rw [hl] at grows
      rcases declared with rfl | declared
      · show (s.tree.lookup ScopeTree.externScope other).isSome = true
        rw [hl]
        rfl
      · exact declared
  | none =>
      rw [hl] at grows
      have grows : Grows p t o ((s.makeRoom o name).introduce name) := grows
      obtain ⟨-, same, -⟩ := h.makeRoom known name
      have names : ((s.makeRoom o name).introduce name).names = s.names ++ [name] :=
        congrArg (· ++ [name]) same
      by_cases new : other ∈ ((s.makeRoom o name).introduce name).names
      · obtain ⟨-, id, bound, -⟩ := grows.new other new
        exact Option.isSome_of_eq_some bound
      · rw [names, List.mem_append, List.mem_singleton, not_or] at new
        obtain ⟨old, apart⟩ := new
        have kept := grows.lookup ScopeTree.externScope other fun h' => by
          have added := h'.2
          rw [names, List.mem_append, List.mem_singleton] at added
          exact added.elim old apart
        have before := h.lookup ScopeTree.externScope other fun h' => old h'.2
        show (((s.makeRoom o name).introduce name).tree.lookup _ other).isSome = true
        rw [kept, ← before]
        exact declared.resolve_left apart

/-- All names that are synthesized are declared in the end. -/
theorem declared_foldl (h : Grows p t o s) (known : t.Consistent)
    (top : ScopeTree.externScope < t.scopes.size) {names : List String} {name : String}
    (declared : name ∈ names ∨ (s.tree.lookup ScopeTree.externScope name).isSome = true) :
    ((names.foldl (Synthesis.synthesize o) s).tree.lookup ScopeTree.externScope name).isSome =
      true := by
  induction names generalizing s with
  | nil => exact declared.resolve_left List.not_mem_nil
  | cons first names ih =>
      refine ih (h.synthesize known top first) ?_
      rcases declared with hn | declared
      · rcases List.mem_cons.mp hn with rfl | hn
        · exact .inr (h.declared_synthesize known top name (.inl rfl))
        · exact .inl hn
      · exact .inr (h.declared_synthesize known top first (.inr declared))

end Synthesis.Grows

/-- A run declares what it wants. -/
theorem Program.Built.wanted_declared {p : Program} (h : p.Built) (o : Options) (name : String)
    (wanted : name ∈ (p.referenceCheck o).wanted) :
    ((p.synthesis o).tree.lookup ScopeTree.externScope name).isSome = true :=
  (Synthesis.Grows.start h _ o).declared_foldl (h.consistent o) (h.reads o).follows.externScope_lt
    (.inl wanted)

/-! ## Nothing is wanted again -/

/-- The top level of the externs is around every mention. -/
theorem Program.Shallow.externs_mem {p : Program} (h : p.Shallow) {m : Mention}
    (hm : m ∈ p.mentions) : Place.externs ∈ m.near.around := by
  obtain ⟨inner, around, -⟩ := mention_around hm
  rw [h.near_eq hm, around]
  refine List.mem_append_right _ ?_
  cases p.isExtern m.unit <;> simp [Place.top]

namespace Synthesis.Grows

/-- The chains of places do not grow. -/
theorem shallow {p : Program} {t : ScopeTree} {o : Options} {s : Synthesis} (h : Grows p t o s)
    (hp : p.Built) (before : p.Shallow) : s.program.Shallow := by
  intro m hm
  rcases h.mention_cases hp hm with hm | added
  · exact before m hm
  · rw [added.around]
    decide

variable {p : Program} {o : Options} {s : Synthesis}
  (h : Grows p (Collection.ofProgram p o).tree o s) (hp : p.Built) (shallow : p.Shallow)
  (declared : ∀ name ∈ (p.referenceCheck o).wanted,
    (s.tree.lookup ScopeTree.externScope name).isSome = true)
include h hp shallow declared

/-- A reference is visible after synthesis if it stands in an extern unit or if
    undeclared names are tolerated. -/
theorem isVisible {m : Mention} (hm : m ∈ p.mentions) (reference : m.isReference = true)
    (deserves : p.isExtern m.unit = true ∨ o.toleratesUndeclared = true) :
    m.near.isVisible (s.program.mentions.map Mention.near) = true := by
  have reads := hp.reads o
  obtain ⟨r, hr, decided⟩ := reads.reference_of_mention hm reference
  have unit : r.node.unit = m.unit := congrArg UnitNode.unit decided.node
  cases meant : r.resolved with
  | some id =>
      have visible := decided.isSome reads.toTells
      rw [meant] at visible
      exact Mention.isVisible_mono (List.map_subset _ (h.mentions_subset hp)) visible.symm
  | none =>
      -- the name is wanted, and the extern scope declares it now
      have wanted : r.isWanted p o (Collection.ofProgram p o).resolve.tree = true := by
        rw [Reference.isWanted, unit, meant]
        cases external : p.isExtern m.unit with
        | true =>
            rw [if_pos rfl, Reference.externComplaint?]
            cases r.isObject <;> rfl
        | false =>
            rw [external] at deserves
            rw [if_neg Bool.false_ne_true, deserves.resolve_left Bool.false_ne_true]
            rfl
      have mem : m.name.text ∈ (p.referenceCheck o).wanted := by
        refine List.mem_eraseDups.mpr (List.mem_map.mpr ⟨r, ?_, decided.name⟩)
        exact List.mem_filter.mpr ⟨hr, wanted⟩
      have told := h.tells hp reads.toTells
      have names := told.names ScopeTree.externScope .externs [] m.name.text told.follows.externs
      rw [declared _ mem] at names
      rw [Mention.isVisible, Mention.meaning?, List.find?_isSome]
      exact ⟨.externs, shallow.externs_mem hm, names.symm⟩

/-- No reference is left without meaning if undeclared names are tolerated. -/
theorem undefined_of_tolerates (tolerates : o.toleratesUndeclared = true) :
    s.program.undefined = [] := by
  rw [Program.undefined, List.filter_eq_nil_iff]
  intro m hm undefined
  rw [Mention.isUndefined, Bool.and_eq_true, Bool.not_eq_true'] at undefined
  obtain ⟨reference, invisible⟩ := undefined
  rcases h.mention_cases hp hm with hm | added
  · rw [h.isVisible hp shallow declared hm reference (.inr tolerates)] at invisible
    cases invisible
  · have reference : m.isReference = true := reference
    rw [added.isReference] at reference
    cases reference

/-- The references to names without meaning are all resolved after synthesis if
    undeclared names are tolerated. -/
theorem unresolved_of_tolerates (tolerates : o.toleratesUndeclared = true) :
    ({ (Collection.ofProgram p o).resolve with tree := s.tree }.resolveRest).unresolved = [] := by
  have unresolved := h.unresolved hp (hp.reads o) rfl
  rw [← List.forall₂_nil_right_iff (R := Reference.Of)]
  convert unresolved
  refine (List.filter_eq_nil_iff.mpr fun m hm undefined => ?_).symm
  rw [Mention.isUndefined, Bool.and_eq_true, Bool.not_eq_true'] at undefined
  rw [h.isVisible hp shallow declared hm undefined.1 (.inr tolerates)] at undefined
  cases undefined.2

/-- A name of an extern unit means a declaration of the externs when the program
    is read again. -/
theorem externComplaint?_again {r : Reference}
    (hr : r ∈ (Collection.ofProgram s.program o).resolve.references.toList)
    (external : s.program.isExtern r.node.unit = true) :
    r.externComplaint? (r.resolved.bind (Collection.ofProgram s.program o).tree.declaration?) =
      none := by
  have reads := h.built.reads o
  obtain ⟨m, hm, reference, decided⟩ := reads.mention_of_reference hr
  have unit : r.node.unit = m.unit := congrArg UnitNode.unit decided.node
  rw [unit] at external
  have known : m ∈ p.mentions := by
    rcases h.mention_cases hp hm with hm | added
    · exact hm
    · rw [added.isReference] at reference
      cases reference
  have before : p.isExtern m.unit = true :=
    (h.extends'.isExtern _ (Program.mention_fits known).1).symm.trans external
  have visible := h.isVisible hp shallow declared known reference (.inl before)
  rw [← decided.isSome reads.toTells] at visible
  obtain ⟨id, meant⟩ := Option.isSome_iff_exists.mp visible
  have resolved := decided.resolved
  rw [meant] at resolved
  have isExtern := reads.isExtern_of_resolve h.built.layout_nodup (h.built.consistent o)
    (h.built.sided o) (h.shallow hp shallow) hm external decided.around resolved.symm
  rw [Reference.externComplaint?, meant, Option.bind_some, isExtern, if_pos rfl]

/-- Nothing is wanted when the program is read again. -/
theorem wanted_again : (s.program.referenceCheck o).wanted = [] := by
  have nothing : (Collection.ofProgram s.program o).resolve.references.toList.filter
      (Reference.isWanted s.program o (Collection.ofProgram s.program o).resolve.tree) = [] := by
    refine List.filter_eq_nil_iff.mpr fun r hr wanted => ?_
    rw [Reference.isWanted] at wanted
    split at wanted
    · rename_i external
      have silent := h.externComplaint?_again hp shallow declared hr external
      have wanted : (r.externComplaint? (r.resolved.bind
        (Collection.ofProgram s.program o).tree.declaration?)).isSome = true := wanted
      rw [silent] at wanted
      cases wanted
    · -- a name of a source is wanted only where undeclared names are tolerated
      rw [Bool.and_eq_true, Option.isNone_iff_eq_none] at wanted
      obtain ⟨unmeant, tolerates⟩ := wanted
      have unresolved := h.built.unresolved o
      rw [h.undefined_of_tolerates hp shallow declared tolerates,
        List.forall₂_nil_right_iff] at unresolved
      have mem : r ∈ (Collection.ofProgram s.program o).resolve.unresolved :=
        List.mem_filter.mpr ⟨hr, Option.isNone_iff_eq_none.mpr unmeant⟩
      rw [unresolved] at mem
      cases mem
  show (List.map _ (List.filter _ _)).eraseDups = []
  rw [nothing]
  rfl

end Synthesis.Grows

end DeclCheck
