import DeclCheck.Proofs.Names.Meaning

/-! # Where mentions can stand

    Going down from the statements of a unit, a construct adds at most one
    place to those around its parts, and never a top level.  The name of a
    function expression is declared directly in its function.  What holds of
    places and roles on the way down holds of every mention. -/

namespace DeclCheck

open Ast (Node Shape)

/-- Whether a place is no top level. -/
def Place.isInner : Place → Bool
  | externs | sources => false
  | function _ | block _ | catchClause _ => true

/-- Whether a part in a role declares nothing by itself. -/
def PartRole.isQuiet : PartRole → Bool
  | plain | target | object | loopHead | body | parameter => true
  | declarator _ _ | declared _ _ _ _ => false

/-- What holds of the places around a part and of its role, when the places
    `top` are around the whole tree and its nodes have the numbers `ids`. -/
structure PartRole.Fits (top : List Place) (ids : List Nat) (around : List Place)
    (role : PartRole) : Prop where
  chain : ∃ inner, around = inner ++ top ∧ ∀ place ∈ inner, place.isInner = true
  declarator : ∀ kind byLoop, role = .declarator kind byLoop → kind.isVariable = true
  yields : ∀ kind node hasInitializer byLoop, role = .declared kind node hasInitializer byLoop →
    kind.yields = true → ∃ f rest, around = .function f :: rest
  node : ∀ kind node hasInitializer byLoop,
    role = .declared kind (some node) hasInitializer byLoop → node ∈ ids

namespace PartRole.Fits

variable {top : List Place} {ids : List Nat} {around : List Place} {role : PartRole}

/-- A part that declares nothing by itself, with the same places around it. -/
theorem quiet (h : Fits top ids around role) {other : PartRole} (hq : other.isQuiet = true) :
    Fits top ids around other := by
  refine ⟨h.chain, ?_, ?_, ?_⟩
  · rintro kind byLoop rfl
    cases hq
  · rintro kind node hasInitializer byLoop rfl
    cases hq
  · rintro kind node hasInitializer byLoop rfl
    cases hq

/-- A part that stands in a place which its construct opens. -/
theorem enter (h : Fits top ids around role) {place : Place} (hp : place.isInner = true) :
    Fits top ids (place :: around) .plain := by
  obtain ⟨inner, rfl, hi⟩ := h.chain
  refine ⟨⟨place :: inner, rfl, ?_⟩, ?_, ?_, ?_⟩
  · intro place' hm
    rcases List.mem_cons.mp hm with rfl | hm
    · exact hp
    · exact hi place' hm
  · rintro kind byLoop same
    cases same
  · rintro kind node hasInitializer byLoop same
    cases same
  · rintro kind node hasInitializer byLoop same
    cases same

/-- A name that the construct declares. -/
theorem declared (h : Fits top ids around role) {kind : DeclarationKind} {node : Option Nat}
    (hk : kind.yields = true → ∃ f rest, around = .function f :: rest)
    (hn : ∀ n, node = some n → n ∈ ids) (hasInitializer byLoop : Bool) :
    Fits top ids around (.declared kind node hasInitializer byLoop) := by
  refine ⟨h.chain, ?_, ?_, ?_⟩
  · rintro kind' byLoop' same
    cases same
  · rintro kind' node' hasInitializer' byLoop' same
    cases same
    exact hk
  · rintro kind' node' hasInitializer' byLoop' same
    cases same
    exact hn node' rfl

/-- One declaration of a variable statement. -/
theorem variableOf (h : Fits top ids around role) (w : Ast.VariableWord) (byLoop : Bool) :
    Fits top ids around (.declarator w.declares byLoop) := by
  refine ⟨h.chain, ?_, ?_, ?_⟩
  · rintro kind' byLoop' same
    cases same
    cases w <;> rfl
  · rintro kind' node' hasInitializer' byLoop' same
    cases same
  · rintro kind' node' hasInitializer' byLoop' same
    cases same

theorem plainAll (h : Fits top ids around role) {α : Type} {parts : List α} {s : Standing α}
    (hs : s ∈ Standing.plain around parts) : Fits top ids s.around s.role := by
  obtain ⟨part, _, rfl⟩ := List.mem_map.mp hs
  exact h.quiet rfl

/-- The parameters and the body of a function. -/
theorem functionAll (h : Fits top ids around role) {α : Type} {parameters : List α} {body : α}
    {s : Standing α} (hs : s ∈ Standing.function around parameters body) :
    Fits top ids s.around s.role := by
  rcases List.mem_append.mp hs with hs | hs
  · obtain ⟨part, _, rfl⟩ := List.mem_map.mp hs
    exact h.quiet rfl
  · rw [List.mem_singleton.mp hs]
    exact h.quiet rfl

/-- What holds of a construct holds of its parts. -/
theorem standings (h : Fits top ids around role) {unit id : Nat} (hid : id ∈ ids) {α : Type}
    {sh : Shape α} {s : Standing α} (hs : s ∈ sh.standings ⟨unit, id⟩ around role) :
    Fits top ids s.around s.role := by
  have own (n : Nat) (hn : some id = some n) : n ∈ ids := Option.some.inj hn ▸ hid
  have inBlock : Fits top ids (.block ⟨unit, id⟩ :: around) .plain := h.enter rfl
  have inFunction : Fits top ids (.function ⟨unit, id⟩ :: around) .plain := h.enter rfl
  have lasting {kind : DeclarationKind} {around : List Place} (hk : kind.yields = false) :
      kind.yields = true → ∃ f rest, around = .function f :: rest := by
    intro hy
    rw [hk] at hy
    cases hy
  -- only the constructs that declare names, hold them or change them differ
  cases sh with
  | variableStatement w declarations =>
      obtain ⟨part, _, rfl⟩ := List.mem_map.mp hs
      exact h.variableOf w _
  | variableDeclaration name initializer =>
      cases role with
      | declarator kind byLoop =>
          rcases List.mem_cons.mp hs with rfl | hs
          · have variable' := h.declarator kind byLoop rfl
            exact h.declared (lasting (by cases kind <;> first | rfl | cases variable')) own _ _
          · exact h.plainAll hs
      | _ => exact h.plainAll hs
  | functionDeclaration name parameters body =>
      rcases List.mem_cons.mp hs with rfl | hs
      · exact h.declared (lasting rfl) own _ _
      · exact inFunction.functionAll hs
  | functionExpression name parameters body =>
      rcases List.mem_append.mp hs with hs | hs
      · obtain ⟨part, _, rfl⟩ := List.mem_map.mp hs
        exact inFunction.declared (fun _ => ⟨_, _, rfl⟩) own _ _
      · exact inFunction.functionAll hs
  | parameter name =>
      cases role with
      | parameter =>
          rw [List.mem_singleton.mp hs]
          exact h.declared (lasting rfl) own _ _
      | _ => exact h.plainAll hs
  | classDeclaration name heritage members =>
      rcases List.mem_cons.mp hs with rfl | hs
      · exact h.declared (lasting rfl) own _ _
      · exact h.plainAll hs
  | classExpression name heritage members =>
      cases name with
      | none => exact h.plainAll hs
      | some name =>
          rcases List.mem_cons.mp hs with rfl | hs
          · exact inBlock.declared (lasting rfl) own _ _
          · exact inBlock.plainAll hs
  | block statements =>
      cases role with
      | body => exact h.plainAll hs
      | _ => exact inBlock.plainAll hs
  | forStatement initializer condition step body => exact inBlock.plainAll hs
  | forEachStatement kind head subject body =>
      rcases List.mem_cons.mp hs with rfl | hs
      · exact inBlock.quiet rfl
      · exact inBlock.plainAll hs
  | switchStatement subject clauses =>
      rcases List.mem_cons.mp hs with rfl | hs
      · exact h.quiet rfl
      · exact inBlock.plainAll hs
  | catchClause name body =>
      have inClause : Fits top ids (.catchClause ⟨unit, id⟩ :: around) .plain := h.enter rfl
      have noNode (n : Nat) (hn : (none : Option Nat) = some n) : n ∈ ids := nomatch hn
      rcases List.mem_cons.mp hs with rfl | hs
      · exact inClause.declared (lasting rfl) noNode _ _
      · rw [List.mem_singleton.mp hs]
        exact inClause
  | propertyAccess object name =>
      rcases List.mem_cons.mp hs with rfl | hs
      · exact h.quiet rfl
      · rw [List.mem_singleton.mp hs]
        exact h.quiet rfl
  | assignment op target value =>
      rcases List.mem_cons.mp hs with rfl | hs
      · exact h.quiet rfl
      · rw [List.mem_singleton.mp hs]
        exact h.quiet rfl
  | prefixed op operand =>
      rw [List.mem_singleton.mp hs]
      refine h.quiet ?_
      cases op.isUpdate <;> rfl
  | postfixed op operand =>
      rw [List.mem_singleton.mp hs]
      exact h.quiet rfl
  | parenthesized expression =>
      rw [List.mem_singleton.mp hs]
      refine h.quiet ?_
      cases role == .target || role == .loopHead <;> rfl
  | _ => exact h.plainAll hs

end PartRole.Fits

/-- Each part of a construct stands somewhere, in the order of the text. -/
theorem Ast.Shape.standings_parts {α : Type} (node : UnitNode) (around : List Place)
    (role : PartRole) (sh : Shape α) :
    (sh.standings node around role).map Standing.part = sh.parts := by
  have plain (around : List Place) (parts : List α) :
      (Standing.plain around parts).map Standing.part = parts := by
    simp [Standing.plain, Function.comp_def]
  have function (inside : List Place) (parameters : List α) (body : α) :
      (Standing.function inside parameters body).map Standing.part = parameters ++ [body] := by
    simp [Standing.function, Function.comp_def]
  cases sh with
  | variableStatement w declarations => simp [standings, parts, Function.comp_def]
  | variableDeclaration name initializer => cases role <;> simp [standings, parts, plain]
  | functionDeclaration name parameters body => simp [standings, parts, function]
  | functionExpression name parameters body =>
      simp [standings, parts, function, Function.comp_def]
  | parameter name => cases role <;> simp [standings, parts, plain]
  | classDeclaration name heritage members => simp [standings, parts, plain]
  | classExpression name heritage members => cases name <;> simp [standings, parts, plain]
  | block statements => cases role <;> simp [standings, parts, plain]
  | forStatement initializer condition step body => exact plain _ _
  | forEachStatement kind head subject body => simp [standings, parts, plain]
  | switchStatement subject clauses => simp [standings, parts, plain]
  | catchClause name body => rfl
  | propertyAccess object name => rfl
  | assignment op target value => rfl
  | prefixed op operand => rfl
  | postfixed op operand => rfl
  | parenthesized expression => rfl
  | _ => exact plain _ _

/-- What holds of the role of a node and of the places around it holds, in
    this form, of every mention of the node. -/
theorem Ast.Node.mention_fits (unit : Nat) {top : List Place} {ids : List Nat} (n : Node)
    (hids : ∀ id ∈ n.ids, id ∈ ids) {around : List Place} {role : PartRole}
    (h : PartRole.Fits top ids around role) :
    ∀ m ∈ n.mentions unit around role, m.unit = unit ∧
      ∃ role' id, m.role = role'.mentionRole id ∧ id ∈ ids ∧
        PartRole.Fits top ids m.around role' := by
  induction n using Node.induct generalizing around role with
  | node i s f sh ih =>
      have own : i ∈ ids := by
        refine hids i ?_
        rw [ids_mk]
        exact List.mem_append_right _ (List.mem_singleton_self _)
      intro m hm
      by_cases identifier : ∃ text, sh = .identifier text
      · obtain ⟨text, rfl⟩ := identifier
        rw [mentions_identifier, List.mem_singleton] at hm
        subst hm
        exact ⟨rfl, role, i, rfl, own, h⟩
      · rw [mentions_mk unit i s f sh fun text he => identifier ⟨text, he⟩] at hm
        obtain ⟨st, hst, hm⟩ := List.mem_flatMap.mp hm
        have part : st.part ∈ sh.parts := by
          rw [← Shape.standings_parts ⟨unit, i⟩ around role sh]
          exact List.mem_map_of_mem hst
        refine ih st.part part (fun id hid => hids id ?_) (h.standings own hst) m hm
        rw [ids_mk]
        exact List.mem_append_left _ (List.mem_flatMap.mpr ⟨st.part, part, hid⟩)

/-! ## The mentions of a program -/

namespace Program

variable {p : Program}

/-- Each mention of a program belongs to a unit, and what holds of places and
    roles on the way down from its statements holds of the mention. -/
theorem mention_fits {m : Mention} (hm : m ∈ p.mentions) : m.unit < p.units.size ∧
    ∃ role id, m.role = role.mentionRole id ∧ id ∈ (p.unit m.unit).root.ids ∧
      PartRole.Fits (Place.top (p.isExtern m.unit)) (p.unit m.unit).root.ids m.around role := by
  obtain ⟨unit, hu, hm⟩ := List.mem_flatMap.mp hm
  have start : PartRole.Fits (Place.top (p.isExtern unit)) (p.unit unit).root.ids
      (Place.top (p.isExtern unit)) .plain := by
    refine ⟨⟨[], rfl, fun place hp => nomatch hp⟩, ?_, ?_, ?_⟩
    · rintro kind byLoop same
      cases same
    · rintro kind node hasInitializer byLoop same
      cases same
    · rintro kind node hasInitializer byLoop same
      cases same
  obtain ⟨rfl, fits⟩ := Ast.Node.mention_fits unit (p.unit unit).root (fun _ hid => hid) start m hm
  exact ⟨mem_order.mp hu, fits⟩

/-- Below the top level of its unit, no top level is around a mention. -/
theorem mention_around {m : Mention} (hm : m ∈ p.mentions) :
    ∃ inner, m.around = inner ++ Place.top (p.isExtern m.unit) ∧
      ∀ place ∈ inner, place.isInner = true := by
  obtain ⟨_, _, _, _, _, fits⟩ := mention_fits hm
  exact fits.chain

/-- A name that yields to others is declared directly in a function. -/
theorem mention_yields {m : Mention} (hm : m ∈ p.mentions) {kind : DeclarationKind}
    (hk : m.kind? = some kind) (hy : kind.yields = true) :
    ∃ f rest, m.around = .function f :: rest := by
  obtain ⟨_, role, id, same, _, fits⟩ := mention_fits hm
  rw [Mention.kind?, same] at hk
  cases role with
  | declared kind' node hasInitializer byLoop =>
      rw [← Option.some.inj hk] at hy
      exact fits.yields kind' node hasInitializer byLoop rfl hy
  | _ => cases hk

/-- The node that declares a name is a node of its unit. -/
theorem mention_node {m : Mention} (hm : m ∈ p.mentions) {kind : DeclarationKind} {node : Nat}
    {hasInitializer byLoop : Bool} (role : m.role = .declares kind node hasInitializer byLoop) :
    node ∈ (p.unit m.unit).root.ids := by
  obtain ⟨_, role', id, same, own, fits⟩ := mention_fits hm
  rw [same] at role
  cases role' with
  | declared kind' node' hasInitializer' byLoop' =>
      cases node' with
      | none =>
          cases role
          exact own
      | some node' =>
          cases role
          exact fits.node _ _ _ _ rfl
  | _ => cases role

end Program

/-! ## The scopes of the sources -/

/-- The nearest receiver of hoisted names around a mention of a source is not
    the top level of the externs. -/
theorem Place.receiver_of_source {inner : List Place}
    (hi : ∀ place ∈ inner, place.isInner = true) (n : Nat) :
    ((inner ++ Place.top false).take n).find? receivesHoisted ≠ some externs := by
  induction inner generalizing n with
  | nil =>
      cases n with
      | zero => exact fun h => nomatch h
      | succ n => exact fun h => nomatch h
  | cons place inner ih =>
      cases n with
      | zero => exact fun h => nomatch h
      | succ n =>
          rw [List.cons_append, List.take_succ_cons, List.find?_cons]
          split
          · intro same
            have inside := hi place (List.mem_cons_self ..)
            rw [Option.some.inj same] at inside
            cases inside
          · exact ih (fun place' hp => hi place' (List.mem_cons_of_mem _ hp)) n

/-- Whether a top level is that of the externs. -/
def Place.isExtern? : Place → Option Bool
  | sources => some false
  | externs => some true
  | function _ | block _ | catchClause _ => none

/-- The first top level around a mention of a source is not that of the
    externs. -/
theorem Place.isExtern?_of_source {inner : List Place}
    (hi : ∀ place ∈ inner, place.isInner = true) (n : Nat) :
    ((inner ++ Place.top false).take n).findSome? isExtern? ≠ some true := by
  induction inner generalizing n with
  | nil =>
      cases n with
      | zero => exact fun h => nomatch h
      | succ n => exact fun h => nomatch h
  | cons place inner ih =>
      cases n with
      | zero => exact fun h => nomatch h
      | succ n =>
          have inside := hi place (List.mem_cons_self ..)
          have silent : place.isExtern? = none := by
            cases place <;> first | rfl | cases inside
          rw [List.cons_append, List.take_succ_cons, List.findSome?_cons, silent]
          exact ih (fun place' hp => hi place' (List.mem_cons_of_mem _ hp)) n

namespace ScopeTree.Follows

variable {t : ScopeTree} {l : Layout}

/-- Each of the places around a scope has a scope of its own. -/
theorem suffix (h : t.Follows l) {around : List Place} {id : Nat} (hid : l[id]? = some around)
    {place : Place} {rest : List Place} (hs : place :: rest <:+ around) :
    ∃ j : Nat, l[j]? = some (place :: rest) := by
  induction around generalizing id with
  | nil => exact absurd (List.suffix_nil.mp hs) (List.cons_ne_nil _ _)
  | cons first above ih =>
      rcases List.suffix_cons_iff.mp hs with same | hs
      · rw [same]
        exact ⟨id, hid⟩
      · obtain ⟨s, place', rest', _, same, _, leads⟩ := h.scope hid
        obtain ⟨rfl, rfl⟩ := List.cons.inj same
        cases hp : s.parent with
        | none =>
            rw [hp] at leads
            have none : above = [] := leads
            rw [none] at hs
            exact absurd (List.suffix_nil.mp hs) (List.cons_ne_nil _ _)
        | some up =>
            rw [hp] at leads
            exact ih leads hs

/-- A scope lies in the externs if the nearest top level around it is
    theirs. -/
theorem liesInExterns_eq (h : t.Follows l) {id : Nat} {around : List Place}
    (hid : l[id]? = some around) :
    t.liesInExterns id = ((around.take maxWalk).findSome? Place.isExtern?).getD false := by
  have found := h.walkUpTo (R := Eq)
    (fun _ s => s.kind.isExtern?) Place.isExtern?
    (fun id s place rest _ _ kind => by
      rw [kind]
      cases place
      · exact Option.Rel.some rfl
      · exact Option.Rel.some rfl
      · exact Option.Rel.none
      · exact Option.Rel.none
      · exact Option.Rel.none) maxWalk id _ hid
  show (t.walkUpTo (fun _ s => s.kind.isExtern?) maxWalk (some id)).getD false = _
  generalize (around.take maxWalk).findSome? Place.isExtern? = expected at found ⊢
  generalize t.walkUpTo _ maxWalk (some id) = answer at found ⊢
  cases found with
  | none => rfl
  | some same => exact same

/-- The scope of the externs lies in them. -/
theorem liesInExterns_externScope (h : t.Follows l) : t.liesInExterns externScope = true := by
  rw [h.liesInExterns_eq h.externs, List.take_of_length_le (by decide)]
  rfl

/-- A scope below the top level of the sources does not lie in the externs. -/
theorem liesInExterns (h : t.Follows l) {id : Nat} {inner : List Place}
    (hid : l[id]? = some (inner ++ Place.top false))
    (hi : ∀ place ∈ inner, place.isInner = true) : t.liesInExterns id = false := by
  rw [h.liesInExterns_eq hid]
  -- the sources come before the externs
  have first := Place.isExtern?_of_source hi maxWalk
  generalize ((inner ++ Place.top false).take maxWalk).findSome? Place.isExtern? = found at first ⊢
  cases found with
  | none => rfl
  | some inExterns =>
      cases inExterns with
      | false => rfl
      | true => exact absurd rfl first

/-- The scope that a name belongs to is one of those around it, with none that
    receives hoisted names in between, or the global scope if a walk meets no
    such scope. -/
theorem target_cases (h : t.Follows l) (distinct : l.places.Nodup) {id : Nat} {around : List Place}
    (hid : l[id]? = some around) (kind : DeclarationKind) :
    ∃ around', l[t.targetOf id kind]? = some around' ∧
      ((∃ before, around = before ++ around' ∧ ∀ place ∈ before, place.receivesHoisted = false) ∨
        around' = Place.top false ∧
          (around.take maxWalk).find? Place.receivesHoisted = none) := by
  rw [ScopeTree.targetOf]
  split
  · obtain ⟨rest, hr⟩ := h.hoistTarget hid
    cases hf : (around.take maxWalk).find? Place.receivesHoisted with
    | none =>
        rw [hf] at hr
        rw [Layout.unique distinct hr h.sources]
        exact ⟨_, h.sources, .inr ⟨rfl, rfl⟩⟩
    | some place =>
        rw [hf] at hr
        obtain ⟨-, before, after, split, passed⟩ := List.find?_eq_some_iff_append.mp hf
        have all : around = before ++ (place :: (after ++ around.drop maxWalk)) := by
          rw [← List.cons_append, ← List.append_assoc, ← split, List.take_append_drop]
        obtain ⟨j, hj⟩ := h.suffix hid ⟨before, all.symm⟩
        rw [Layout.unique distinct hr hj]
        refine ⟨_, hj, .inl ⟨before, all, fun place' mem => ?_⟩⟩
        simpa using passed place' mem
  · exact ⟨around, hid, .inl ⟨[], rfl, List.forall_mem_nil _⟩⟩

/-- The scope that a name of a source belongs to is no scope of the externs. -/
theorem target_of_source (h : t.Follows l) (distinct : l.places.Nodup) {id : Nat}
    {inner : List Place} (hid : l[id]? = some (inner ++ Place.top false))
    (hi : ∀ place ∈ inner, place.isInner = true) (kind : DeclarationKind) :
    t.liesInExterns (t.targetOf id kind) = false := by
  obtain ⟨around, ht, near | ⟨rfl, -⟩⟩ := h.target_cases distinct hid kind
  · obtain ⟨before, split, passed⟩ := near
    -- the top level of the sources receives hoisted names, so it is not passed
    obtain ⟨later, rfl⟩ : ∃ later, inner = before ++ later := by
      rcases List.append_eq_append_iff.mp split with ⟨more, rfl, ends⟩ | ⟨later, same, -⟩
      · cases more with
        | nil => exact ⟨[], by simp⟩
        | cons place more =>
            obtain ⟨rfl, -⟩ := List.cons.inj ends
            have receives := passed .sources (List.mem_append_right _ List.mem_cons_self)
            cases receives
      · exact ⟨later, same⟩
    rw [List.append_assoc] at split
    rw [← List.append_cancel_left split] at ht
    exact h.liesInExterns ht fun place mem => hi place (List.mem_append_right _ mem)
  · exact h.liesInExterns ht (List.forall_mem_nil _)

end ScopeTree.Follows

end DeclCheck
