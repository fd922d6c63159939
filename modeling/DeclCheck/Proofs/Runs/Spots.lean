import DeclCheck.Proofs.Grammar.Spans
import DeclCheck.Proofs.Names.Census
import DeclCheck.Proofs.Names.Hoisting
import DeclCheck.Proofs.Runs.Isolation
import DeclCheck.Proofs.Runs.Modules
import DeclCheck.Proofs.Runs.SelfCheck
import DeclCheck.Proofs.Runs.Severity
import DeclCheck.Proofs.Source.Lines

/-! # Where diagnostics point

    Each diagnostic of a run is about a name where it stands in a text.  A
    conflict is reported where the call that declares the name is refused, and
    tells of the unit in which an earlier mention declares it first; a reference
    is reported where it stands; and a name of the sources that an extern name
    needs for itself where the sources declare it first.  No diagnostic points
    into the synthetic unit, which has no text. -/

namespace DeclCheck

open Token (IsName)

/-! ## Pointing at a mention -/

/-- Whether a diagnostic of a program points at a mention: at its identifier,
    which is spelled as its name. -/
structure Diagnostic.PointsAt (d : Diagnostic) (p : Program) (m : Mention) : Prop where
  met : m ∈ p.mentions
  unit : m.unit < p.units.size
  file : d.file = (p.unit m.unit).name
  node : ∃ n ∈ (p.unit m.unit).root.postorder,
    n.id = m.name.node ∧ n.shape = .identifier m.name.text ∧ n.span = d.span
  /-- The unit was read from a text. -/
  read : ∃ text, (p.unit m.unit).ReadFrom text
  /-- There the span covers the name, and the position tells where it starts. -/
  stands : ∀ text, (p.unit m.unit).ReadFrom text →
    d.span.Covers text.toList m.name.text.toList ∧ d.position.Tells text.toList d.span.start

/-- A name does not start with a line feed. -/
theorem Token.IsName.head?_ne {word : List Char} (h : IsName word) : word.head? ≠ some '\n' := by
  obtain ⟨c, hc, starts⟩ := h.starts
  intro same
  cases same.symm.trans hc
  cases starts

/-- The lines of a text tell where a name in it starts. -/
theorem Span.Covers.tells {text word : List Char} {span : Span} (h : span.Covers text word)
    (name : IsName word) : ((LineMap.ofChars text).position span.start).Tells text span.start := by
  obtain ⟨front, rest, rfl, start, -⟩ := h
  rw [← start]
  refine LineMap.position_tells ?_
  rw [List.head?_append_of_ne_nil]
  · exact name.head?_ne
  · rintro rfl
    obtain ⟨_, hc, -⟩ := name.starts
    cases hc

namespace Program

variable {p : Program} {o : Options}

/-- A mention is an identifier of its unit. -/
theorem exists_identifier {m : Mention} (hm : m ∈ p.mentions) : m.unit < p.units.size ∧
    ∃ n ∈ (p.unit m.unit).root.postorder,
      n.id = m.name.node ∧ n.shape = .identifier m.name.text ∧ n.span = m.name.span := by
  have listed : (m.unit, m.name) ∈ p.identifiers.map fun s => (s.1, s.2.occurrence) := by
    rw [← p.mentions_identifiers]
    exact List.mem_map_of_mem hm
  obtain ⟨⟨unit, n⟩, hn, same⟩ := List.mem_map.mp listed
  obtain ⟨rfl, here⟩ := Prod.mk.inj same
  obtain ⟨hu, hn⟩ := mem_identifiers.mp hn
  obtain ⟨hn, identifier⟩ := List.mem_filter.mp hn
  obtain ⟨text, shape⟩ := Ast.Shape.exists_identifier identifier
  have named : n.nameText? = some text := by
    rw [Ast.Node.nameText?, shape]
    rfl
  refine ⟨mem_order.mp hu, n, hn, congrArg Occurrence.node here, ?_, congrArg Occurrence.span here⟩
  have spelled : n.nameText?.getD "" = m.name.text := congrArg Occurrence.text here
  rw [shape, ← spelled, named]
  rfl

/-- A diagnostic at the name of a mention points at it. -/
theorem Built.pointsAt (h : p.Built) (fresh : p.synthetic = none) {m : Mention}
    (hm : m ∈ p.mentions) (kind : DiagnosticKind) (level : Severity) (arguments : List String) :
    (p.diagnostic kind level m.unit m.name.span arguments).PointsAt p m := by
  obtain ⟨lt, n, hn, id, shape, span⟩ := exists_identifier hm
  have other : p.synthetic ≠ some m.unit := fresh ▸ nofun
  refine ⟨hm, lt, rfl, ⟨n, hn, id, shape, span⟩, h.exists_text lt other, ?_⟩
  rintro text ⟨level, -, root, lines⟩
  rw [root] at hn
  obtain ⟨covers, name⟩ := Grammar.parse_named level text n hn _ (.inl shape)
  rw [span] at covers
  refine ⟨covers, ?_⟩
  show ((p.unit m.unit).lines.position m.name.span.start).Tells _ _
  rw [lines]
  exact covers.tells name

end Program

/-! ## Conflicts -/

/-- Whether the first site of a declaration is where a mention declares it. -/
structure Declaration.BeginsAt (d : Declaration) (m : Mention) : Prop where
  declares : m.kind?.isSome = true
  name : d.name = m.name.text
  unit : d.unit = m.unit
  site : ∃ site, d.sites.head? = some site ∧ site.nameNode = ⟨m.unit, m.name.node⟩ ∧
    site.span = m.name.span

/-- One more site does not change where a declaration begins. -/
theorem Declaration.BeginsAt.withSite {d : Declaration} {m : Mention} (h : d.BeginsAt m)
    (new : Proposal) : (d.withSite new).BeginsAt m := by
  obtain ⟨site, head, here⟩ := h.site
  refine ⟨h.declares, h.name, h.unit, site, ?_, here⟩
  show (d.sites ++ [new.site]).head? = some site
  rw [List.head?_append, head]
  rfl

/-- Whether a mention declares the name of the arguments in a function. -/
def Mention.HidesArguments (m : Mention) : Prop :=
  m.kind?.isSome = true ∧ m.name.text = ScopeTree.argumentsName ∧
    ∃ node, .function node ∈ m.around

/-- Whether the name of a mention cannot be declared without a conflict, when it
    is its turn in a program.  The declaration that it is in conflict with is told
    as the call leaves it.  It begins at an earlier mention of the name, unless the
    name hides the arguments of a function. -/
structure Program.Rejects (p : Program) (o : Options) (before : List Event) (scope : Nat)
    (m : Mention) (conflict : Conflict) (first : Declaration) : Prop where
  turn : ∃ after, p.events = before ++ .meets m scope :: after
  refused : ∃ tree, (before.foldl (Collection.act p o) .initial).declaring? p scope m =
    some (.error conflict, tree) ∧ tree.declaration? conflict.existing = some first
  name : first.name = m.name.text
  cause : conflict.kind = .argumentsShadowed ∧ m.HidesArguments ∨
    conflict.kind ≠ .argumentsShadowed ∧ m.kind?.isSome = true ∧
      ∃ earlier ∈ before.filterMap Event.mention?, first.BeginsAt earlier

/-- What is found comes from an event, which is acted on after those before
    it. -/
theorem Collection.exists_found {p : Program} {o : Options} {c : Collection} {es : List Event}
    {d : Diagnostic} (hd : d ∈ (es.foldl (act p o) c).diagnostics.diagnostics) :
    d ∈ c.diagnostics.diagnostics ∨ ∃ before e after, es = before ++ e :: after ∧
      d ∈ (before.foldl (act p o) c).found p o e := by
  induction es generalizing c with
  | nil => exact .inl hd
  | cons e es ih =>
      rcases ih hd with hd | ⟨before, e', after, rfl, found⟩
      · rw [diagnostics_act] at hd
        exact (List.mem_append.mp hd).imp_right fun found => ⟨[], e, es, rfl, found⟩
      · exact .inr ⟨e :: before, e', after, rfl, found⟩

namespace Program

variable {p : Program} {o : Options}

/-- What a conflict is with, when it is the turn of a name that hides no
    arguments, begins at a mention before. -/
theorem Built.beginsAt (h : p.Built) (fresh : p.synthetic = none) {before : List Event}
    (first : before <+: p.events) {scope : Nat}
    (lt : scope < (before.foldl (Collection.act p o) .initial).tree.scopes.size) {new : Proposal}
    (seen : (before.foldl (Collection.act p o) .initial).tree.hidesArguments scope new = false)
    {c : Conflict}
    (conflict : ((before.foldl (Collection.act p o) .initial).tree.declare scope new).1 =
      .error c) :
    c.kind ≠ .argumentsShadowed ∧
      ∃ d, ((before.foldl (Collection.act p o) .initial).tree.declare scope new).2.declaration?
          c.existing = some d ∧ d.name = new.name ∧
        ∃ earlier ∈ before.filterMap Event.mention?, d.BeginsAt earlier := by
  have recounts := h.recounts o first
  obtain ⟨calls, history, -⟩ := id recounts
  obtain ⟨other, d, hd, named, written⟩ :=
    history.conflict_written (h.keepsPassed fresh o first) lt seen conflict
  obtain ⟨site, head, home⟩ := (h.housed_prefix o first c.existing d hd).first
  obtain ⟨m, hm, made, comes, same, rfl⟩ :=
    recounts.mention_of_site hd written (List.mem_of_mem_head? head)
  have begins : d.BeginsAt m :=
    ⟨comes.declares, same.symm.trans comes.name, home.symm.trans comes.unit, _, head,
      comes.nameNode, comes.span⟩
  refine ⟨other, ?_⟩
  rcases ScopeTree.declaration?_declare (history.targetOf_lt lt new.kind) hd with kept | gained
  · exact ⟨d, kept, named, m, hm, begins⟩
  · exact ⟨_, gained, named, m, hm, begins.withSite new⟩

/-- A conflict is reported where the call that declares a name is refused. -/
theorem Built.conflict_points (h : p.Built) (fresh : p.synthetic = none) {d : Diagnostic}
    (hd : d ∈ (Collection.ofProgram p o).diagnostics.diagnostics) :
    ∃ m, d.PointsAt p m ∧ ∃ before scope conflict first,
      p.Rejects o before scope m conflict first ∧
      d = p.diagnostic conflict.kind.diagnosticKind (o.level conflict.kind.diagnosticKind) m.unit
        m.name.span [m.name.text, (p.unit first.unit).name] := by
  rw [Collection.ofProgram_eq_run] at hd
  rcases Collection.exists_found hd with nothing | ⟨before, e, after, split, found⟩
  · cases nothing
  · obtain ⟨m, scope, conflict, tree, rfl, declaring, rfl⟩ := Collection.exists_conflict found
    -- what was read before the event
    have earlier : before <+: p.events := ⟨_, split.symm⟩
    have reads := h.reads_prefix o earlier
    have stands : (Event.meets m scope).StandsIn (before.foldl Event.extend Layout.top) := by
      have stand := p.events_wellScoped
      rw [split, wellScoped_append] at stand
      exact stand.2.1
    have lt := reads.scope_lt stands
    have hm : m ∈ p.mentions := by
      rw [← h.events_mentions, split]
      exact List.mem_filterMap.mpr ⟨_, List.mem_append_right _ List.mem_cons_self, rfl⟩
    obtain ⟨new, comes, declared⟩ : ∃ new, new.ComesFrom m ∧
        (before.foldl (Collection.act p o) .initial).tree.declare scope new =
          (.error conflict, tree) := by
      rw [Collection.declaring?] at declaring
      split at declaring
      · cases declaring
      · rename_i role
        exact ⟨_, Collection.proposal_comesFrom p _ role, Option.some.inj declaring⟩
    have failed := congrArg Prod.fst declared
    have named : conflict.name = m.name.text :=
      ((h.recounts o earlier).conflict_name lt failed).trans comes.name
    obtain ⟨first, existing, refuses⟩ : ∃ first, tree.declaration? conflict.existing = some first ∧
        p.Rejects o before scope m conflict first := by
      have tree' := congrArg Prod.snd declared
      cases hides : (before.foldl (Collection.act p o) .initial).tree.hidesArguments scope new with
      | true =>
          obtain ⟨calls, history, -⟩ := h.recounts o earlier
          obtain ⟨kind, first, existing, same⟩ := history.consistent.named_hidden hides failed
          rw [tree'] at existing
          simp only [ScopeTree.hidesArguments, Bool.and_eq_true, beq_iff_eq] at hides
          have hidden : m.HidesArguments :=
            ⟨comes.declares, comes.name.symm.trans hides.1.1,
              reads.follows.exists_function stands hides.2⟩
          exact ⟨first, existing, ⟨after, split⟩, ⟨tree, declaring, existing⟩,
            same.trans comes.name, .inl ⟨kind, hidden⟩⟩
      | false =>
          obtain ⟨other, first, existing, same, begins⟩ := h.beginsAt fresh earlier lt hides failed
          rw [tree'] at existing
          exact ⟨first, existing, ⟨after, split⟩, ⟨tree, declaring, existing⟩,
            same.trans comes.name, .inr ⟨other, comes.declares, begins⟩⟩
    refine ⟨m, h.pointsAt fresh hm _ _ _, before, scope, conflict, first, refuses, ?_⟩
    rw [named, existing]
    rfl

end Program

/-! ## References -/

/-- What is wrong with a reference, by what it means and where it stands, with the
    kind of the report and what fills its message. -/
inductive Reference.Wrong (p : Program) (o : Options) (t : ScopeTree) (r : Reference) :
    DiagnosticKind → List String → Prop where
  /-- A name of a source means nothing. -/
  | undefined (inSource : p.isExtern r.node.unit = false) (resolved : r.resolved = none)
      (strict : o.toleratesUndeclared = false) : Wrong p o t r .undefinedVar [r.name]
  /-- The object of a property in an extern unit means no extern name. -/
  | undefinedExtern (inExterns : p.isExtern r.node.unit = true)
      (means : (r.resolved.bind t.declaration?).any Declaration.isExtern = false)
      (object : r.isObject = true) : Wrong p o t r .undefinedExternVar [r.name]
  /-- Any other name in an extern unit means no extern name. -/
  | nameInExterns (inExterns : p.isExtern r.node.unit = true)
      (means : (r.resolved.bind t.declaration?).any Declaration.isExtern = false)
      (object : r.isObject = false) : Wrong p o t r .nameReferenceInExterns [r.name]
  /-- A name of a source means a declaration of another unit, and the modules of
      the two are judged so. -/
  | modules {id : Nat} {d : Declaration} {source target : Nat} {kind : DiagnosticKind}
      (inSource : p.isExtern r.node.unit = false) (resolved : r.resolved = some id)
      (declared : t.declaration? id = some d) (own : d.isExtern = false)
      (other : d.unit ≠ r.node.unit) (stands : p.moduleOf? r.node.unit = some source)
      (declares : p.moduleOf? d.unit = some target)
      (judged : (p.modules.judge p.modules.closure source target
        (t.liesInFunction r.scope)).kind? = some kind) :
      Wrong p o t r kind [p.modules.name source, p.modules.name target, r.name]

/-- A complaint about a reference tells what is wrong with it. -/
theorem Reference.wrong_of_complaint {p : Program} {o : Options} {t : ScopeTree} {r : Reference}
    {c : Complaint} (hc : r.complaint? p o p.modules.closure t = some c) :
    r.Wrong p o t c.kind c.arguments := by
  rw [complaint?] at hc
  cases external : p.isExtern r.node.unit with
  | true =>
      rw [if_pos external, externComplaint?] at hc
      cases means : (r.resolved.bind t.declaration?).any Declaration.isExtern with
      | true =>
          rw [means] at hc
          cases hc
      | false =>
          rw [means, if_neg Bool.false_ne_true] at hc
          cases object : r.isObject with
          | true =>
              rw [object] at hc
              cases hc
              exact .undefinedExtern external means object
          | false =>
              rw [object] at hc
              cases hc
              exact .nameInExterns external means object
  | false =>
      rw [if_neg (Bool.eq_false_iff.mp external), sourceComplaint?] at hc
      cases resolved : r.resolved with
      | none =>
          rw [resolved] at hc
          cases tolerates : o.toleratesUndeclared with
          | true => simp [tolerates] at hc
          | false =>
              simp only [tolerates, Bool.false_eq_true, if_false, Option.some.injEq] at hc
              subst hc
              exact .undefined external resolved tolerates
      | some id =>
          rw [resolved] at hc
          obtain ⟨d, declared, found⟩ := Option.bind_eq_some_iff.mp hc
          obtain ⟨own, other, source, target, stands, declares, judged, arguments⟩ :=
            moduleComplaint?_eq_some.mp found
          rw [arguments]
          exact .modules external resolved declared own other stands declares judged

namespace Program

variable {p : Program} {o : Options}

/-- The check of the references reports where they stand what is wrong with
    them. -/
theorem Built.reference_points (h : p.Built) (fresh : p.synthetic = none) {d : Diagnostic}
    (hd : d ∈ (p.referenceCheck o).diagnostics.diagnostics) :
    ∃ m, d.PointsAt p m ∧ m.isReference = true ∧
      ∃ r ∈ (Collection.ofProgram p o).resolve.references.toList, ∃ kind arguments,
        r.Decided (Collection.ofProgram p o).tree p.layout m ∧
        r.Wrong p o (Collection.ofProgram p o).tree kind arguments ∧
        d = p.diagnostic kind (o.level kind) m.unit m.name.span arguments := by
  rw [referenceCheck, Collection.checkFully, Bag.ofList, Bag.diagnostics_addAll, Bag.empty,
    List.nil_append, List.mem_filter, List.mem_filterMap] at hd
  obtain ⟨⟨r, hr, reported⟩, -⟩ := hd
  obtain ⟨c, hc, rfl⟩ := Option.map_eq_some_iff.mp reported
  obtain ⟨m, hm, reference, decided⟩ := (h.reads o).mention_of_reference hr
  have same : r.report p o c = p.diagnostic c.kind (o.level c.kind) m.unit m.name.span
      c.arguments := by
    rw [Reference.report, decided.node, decided.span]
  refine ⟨m, ?_, reference, r, hr, c.kind, c.arguments, decided,
    Reference.wrong_of_complaint hc, same⟩
  rw [same]
  exact h.pointsAt fresh hm _ _ _

end Program

/-! ## Names that synthesis declares -/

/-- A program that extends another one reports about the units of that one as
    that one does. -/
theorem Program.Extends.diagnostic_eq {p q : Program} (h : q.Extends p) {unit : Nat}
    (lt : unit < p.units.size) (kind : DiagnosticKind) (level : Severity) (span : Span)
    (arguments : List String) :
    q.diagnostic kind level unit span arguments = p.diagnostic kind level unit span arguments := by
  rw [diagnostic, diagnostic, position, position, h.name unit lt, h.lines unit lt]

namespace Synthesis

variable {p : Program} {t : ScopeTree} {o : Options} {s : Synthesis}

/-- Whether the name of a mention must be the only one at the top level of the
    sources, and its declaration begins at the mention. -/
def InTheWay (t : ScopeTree) (m : Mention) : Prop :=
  ∃ id first, t.lookup ScopeTree.globalScope m.name.text = some id ∧
    t.declaration? id = some first ∧ first.kind.isBlockScoped = true ∧ first.BeginsAt m

/-- Whether a diagnostic reports that a name of the sources is in the way of an
    extern name. -/
def Blocked (p : Program) (t : ScopeTree) (o : Options) (m : Mention) (d : Diagnostic) : Prop :=
  InTheWay t m ∧
    d = p.diagnostic .letConstMultiplyDeclared (o.level .letConstMultiplyDeclared) m.unit
      m.name.span [m.name.text, Program.syntheticName]

/-- What is reported to make room for a name is about that name. -/
theorem Grows.blocked_makeRoom (h : Grows p t o s) (consistent : t.Consistent) {l : Layout}
    (housed : t.Housed l) (recounts : t.Recounts p.mentions) (name : String) :
    ∀ d ∈ (s.makeRoom o name).diagnostics.diagnostics,
      d ∈ s.diagnostics.diagnostics ∨ ∃ m ∈ p.mentions, m.name.text = name ∧ Blocked p t o m d := by
  have known : s.tree.lookup ScopeTree.globalScope name = t.lookup ScopeTree.globalScope name :=
    h.lookup _ _ fun same => absurd same.1 (by decide)
  rw [Synthesis.makeRoom, known]
  cases found : t.lookup ScopeTree.globalScope name with
  | none => exact fun d hd => .inl hd
  | some id =>
      obtain ⟨first, hfirst, rfl, -⟩ := consistent.named _ _ id found
      obtain ⟨suppress, now⟩ := h.declarations id first hfirst
      dsimp only
      rw [now]
      dsimp only
      split
      · rename_i block
        have written : ¬ t.Implicit first := fun implicit => by
          rw [implicit.kind] at block
          cases block
        intro d hd
        rw [Synthesis.reportBlocked, Bag.diagnostics_addAll] at hd
        refine (List.mem_append.mp hd).imp_right fun reported => ?_
        obtain ⟨site, hsite, rfl⟩ := List.mem_map.mp (List.mem_filter.mp reported).1
        have head : first.sites.head? = some site := Option.mem_toList.mp hsite
        obtain ⟨m, hm, new, made, named, rfl⟩ :=
          recounts.mention_of_site hfirst written (List.mem_of_mem_head? head)
        obtain ⟨site', head', home⟩ := (housed id first hfirst).first
        cases head.symm.trans head'
        have begins : first.BeginsAt m :=
          ⟨made.declares, named.symm.trans made.name, home.symm.trans made.unit, _, head,
            made.nameNode, made.span⟩
        rw [begins.name] at found ⊢
        refine ⟨m, hm, rfl, ⟨id, first, found, hfirst, block, begins⟩, ?_⟩
        rw [made.nameNode, made.span]
        exact h.extends'.diagnostic_eq (Program.exists_identifier hm).1 _ _ _ _
      · exact fun d hd => .inl hd

/-- Whether all that was reported is about names that were declared. -/
def Reports (p : Program) (t : ScopeTree) (o : Options) (s : Synthesis) : Prop :=
  ∀ d ∈ s.diagnostics.diagnostics, ∃ m ∈ p.mentions, m.name.text ∈ s.names ∧ Blocked p t o m d

theorem Reports.synthesize (reports : Reports p t o s) (h : Grows p t o s)
    (consistent : t.Consistent) {l : Layout} (housed : t.Housed l)
    (recounts : t.Recounts p.mentions) (name : String) :
    Reports p t o (s.synthesize o name) := by
  rw [Synthesis.synthesize]
  split
  · exact reports
  · have names : ((s.makeRoom o name).introduce name).names = s.names ++ [name] :=
      congrArg (· ++ [name]) (h.makeRoom consistent name).2.1
    intro d hd
    rw [names]
    rcases h.blocked_makeRoom consistent housed recounts name d hd with before | blocked
    · obtain ⟨m, hm, mem, blocked⟩ := reports d before
      exact ⟨m, hm, List.mem_append_left _ mem, blocked⟩
    · obtain ⟨m, hm, rfl, blocked⟩ := blocked
      exact ⟨m, hm, List.mem_append_right _ (List.mem_singleton_self _), blocked⟩

theorem Reports.foldl (reports : Reports p t o s) (h : Grows p t o s) (consistent : t.Consistent)
    (top : ScopeTree.externScope < t.scopes.size) {l : Layout} (housed : t.Housed l)
    (recounts : t.Recounts p.mentions) (names : List String) :
    Reports p t o (names.foldl (Synthesis.synthesize o) s) := by
  induction names generalizing s with
  | nil => exact reports
  | cons name names ih =>
      exact ih (reports.synthesize h consistent housed recounts name)
        (h.synthesize consistent top name)

end Synthesis

namespace Program

variable {p : Program} {o : Options}

/-- Synthesis reports where the sources declare the names that it declares. -/
theorem Built.blocked_points (h : p.Built) (fresh : p.synthetic = none) {d : Diagnostic}
    (hd : d ∈ (p.synthesis o).diagnostics.diagnostics) :
    ∃ m, d.PointsAt p m ∧ m.name.text ∈ (p.synthesis o).names ∧
      Synthesis.Blocked p (Collection.ofProgram p o).tree o m d := by
  have recounts := h.recounts o (List.prefix_refl _)
  rw [← Collection.ofProgram_eq_run, h.events_mentions] at recounts
  have start : Synthesis.Reports p (Collection.ofProgram p o).tree o
      ⟨p, (Collection.ofProgram p o).tree, .empty, []⟩ := List.forall_mem_nil _
  obtain ⟨m, hm, synthesized, blocked⟩ :=
    start.foldl (Synthesis.Grows.start h _ o) (h.consistent o) (h.reads o).follows.externScope_lt
      (h.housed o) recounts (p.referenceCheck o).wanted d hd
  refine ⟨m, ?_, synthesized, blocked⟩
  rw [blocked.2]
  exact h.pointsAt fresh hm _ _ _

/-! ## Whole runs -/

/-- What a run finds is what reading the program, checking its references and
    synthesis find. -/
theorem Built.diagnostics_analyze (h : p.Built) {f : Findings}
    (done : (p.analyze o).1 = .ok f) : ∃ checked synthesized,
      f.diagnostics.diagnostics =
        (Collection.ofProgram p o).diagnostics.diagnostics ++ (checked ++ synthesized) ∧
      checked ⊆ (p.referenceCheck o).diagnostics.diagnostics ∧
      ∀ d ∈ synthesized, d ∈ (p.synthesis o).diagnostics.diagnostics ∧
        f.synthesized = (p.synthesis o).names := by
  cases strict : o.sanityCheck with
  | true =>
      rw [analyze_of_strict strict] at done
      split at done
      · cases done
      · cases done
        exact ⟨[], [], (List.append_nil _).symm, List.nil_subset _, List.forall_mem_nil _⟩
  | false =>
      rw [h.analyze_eq strict, h.foundAll_eq] at done
      cases done
      have found : (p.foundFirst o).diagnostics =
          (Collection.ofProgram p o).diagnostics.diagnostics ++
            ((p.referenceCheck o).diagnostics.diagnostics.filter (fun d => d.level.isOn) ++
              (p.synthesis o).diagnostics.diagnostics.filter fun d => d.level.isOn) := by
        rw [foundFirst, Bag.extend, Bag.diagnostics_addAll, Bag.extend, Bag.diagnostics_addAll,
          List.append_assoc]
      exact ⟨_, _, found, List.filter_subset_self _,
        fun d hd => ⟨(List.mem_filter.mp hd).1, rfl⟩⟩

/-- Every diagnostic of the first run of a program points at an identifier of one
    of its texts, which is spelled as the name that it is about, and says exactly
    what is wrong there.  A conflict is reported where the name is declared when it
    is refused, and the message names the unit in which an earlier mention declares
    it first; what is wrong with a reference, where the reference stands; and a name
    that an extern name needs for itself, where its declaration begins. -/
theorem Built.diagnostics_point (h : p.Built) (fresh : p.synthetic = none) {f : Findings}
    (done : (p.analyze o).1 = .ok f) : ∃ checked synthesized,
      f.diagnostics.diagnostics =
        (Collection.ofProgram p o).diagnostics.diagnostics ++ (checked ++ synthesized) ∧
      (∀ d ∈ (Collection.ofProgram p o).diagnostics.diagnostics, ∃ m, d.PointsAt p m ∧
        ∃ before scope conflict first, p.Rejects o before scope m conflict first ∧
          d = p.diagnostic conflict.kind.diagnosticKind (o.level conflict.kind.diagnosticKind)
            m.unit m.name.span [m.name.text, (p.unit first.unit).name]) ∧
      (∀ d ∈ checked, ∃ m, d.PointsAt p m ∧ m.isReference = true ∧
        ∃ r ∈ (Collection.ofProgram p o).resolve.references.toList, ∃ kind arguments,
          r.Decided (Collection.ofProgram p o).tree p.layout m ∧
          r.Wrong p o (Collection.ofProgram p o).tree kind arguments ∧
          d = p.diagnostic kind (o.level kind) m.unit m.name.span arguments) ∧
      ∀ d ∈ synthesized, ∃ m, d.PointsAt p m ∧ m.name.text ∈ f.synthesized ∧
        Synthesis.Blocked p (Collection.ofProgram p o).tree o m d := by
  obtain ⟨checked, synthesized, all, sub, names⟩ := h.diagnostics_analyze done
  refine ⟨checked, synthesized, all, fun d hd => h.conflict_points fresh hd,
    fun d hd => h.reference_points fresh (sub hd), fun d hd => ?_⟩
  obtain ⟨found, same⟩ := names d hd
  rw [same]
  exact h.blocked_points fresh found

/-- An extern unit that uses a name which a source declares twice. -/
def usedInExterns : Program :=
  ((empty.push (.ofText "e.js" "x;" true (Grammar.parse .es2015 "x;").root) none).2.push
    (.ofText "a.js" "let x;\r\nlet x; y" false
      (Grammar.parse .es2015 "let x;\r\nlet x; y").root) none).2

theorem built_usedInExterns : usedInExterns.Built :=
  (Built.empty.push (by decide +kernel) "e.js" true none).push (by decide +kernel) "a.js" false none

/-- The second declaration is reported, the use of the name in the extern unit,
    a name that is not declared, and the first declaration, which is in the way
    of the extern name. -/
theorem Built.diagnostics_point_usedInExterns :
    ∃ f, (usedInExterns.analyze .standard).1 = .ok f ∧
      f.diagnostics.diagnostics.map (fun d => (d.file, d.span, d.position)) =
        [("a.js", ⟨12, 13⟩, ⟨2, 5⟩), ("e.js", ⟨0, 1⟩, ⟨1, 1⟩), ("a.js", ⟨15, 16⟩, ⟨2, 8⟩),
          ("a.js", ⟨4, 5⟩, ⟨1, 5⟩)] ∧
      ∀ d ∈ f.diagnostics.diagnostics, ∃ m, d.PointsAt usedInExterns m := by
  have done := congrArg Prod.fst (built_usedInExterns.analyze_eq (o := .standard) rfl)
  refine ⟨_, done, by decide +kernel, fun d hd => ?_⟩
  obtain ⟨checked, synthesized, all, collected, references, blocked⟩ :=
    Built.diagnostics_point built_usedInExterns rfl done
  rw [all] at hd
  rcases List.mem_append.mp hd with hd | hd
  · obtain ⟨m, points, -⟩ := collected d hd
    exact ⟨m, points⟩
  · rcases List.mem_append.mp hd with hd | hd
    · obtain ⟨m, points, -⟩ := references d hd
      exact ⟨m, points⟩
    · obtain ⟨m, points, -⟩ := blocked d hd
      exact ⟨m, points⟩

end Program

end DeclCheck
