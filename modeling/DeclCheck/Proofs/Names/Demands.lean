import DeclCheck.Proofs.Grammar.CleanTexts
import DeclCheck.Proofs.Names.Reflection

/-! # What an outline looks for

    An outline looks for a name where a construct declares one, for a block
    where a function has its body, and so on, and passes over in silence what
    it does not find.  In a text in which nothing is wrong it finds whatever it
    looks for. -/

namespace DeclCheck

open Ast (Node Shape)

/-- What an outline looks for in a part of a construct. -/
inductive Demand where
  | name | declarator | parameter | body
  deriving DecidableEq, Repr

/-- The parts of a construct in which its outline looks for something. -/
def Ast.Shape.demands {α : Type} : Shape α → List (Demand × α)
  | variableStatement _ declarations => declarations.map (.declarator, ·)
  | variableDeclaration name _ | parameter name | catchClause name _
  | classDeclaration name _ _ => [(.name, name)]
  | functionDeclaration name parameters body =>
      (.name, name) :: (parameters.map (.parameter, ·) ++ [(.body, body)])
  | functionExpression name parameters body =>
      name.toList.map (.name, ·) ++ (parameters.map (.parameter, ·) ++ [(.body, body)])
  | classExpression name _ _ => name.toList.map (.name, ·)
  | _ => []

/-- Whether an outline finds in a part what it looks for: a name that is
    declared, a variable and the value it starts with, a parameter, or the
    statements of a body. -/
def Demand.MetBy : Demand → Node → Prop
  | name, n => ∃ text, n.shape = .identifier text ∧ n.reading.name? = some ⟨n.id, n.span, text⟩
  | declarator, n => ∃ name value text,
      n.shape = .variableDeclaration name value ∧ name.shape = .identifier text ∧
        ∀ kind byLoop, n.reading.declarator kind byLoop =
          .declares kind n.id ⟨name.id, name.span, text⟩ value.isSome byLoop ::
            value.toList.flatMap fun v => v.reading.plain
  | parameter, n => ∃ name text, n.shape = .parameter name ∧ name.shape = .identifier text ∧
      n.reading.parameter = [.declares .parameter n.id ⟨name.id, name.span, text⟩ false false]
  | body, n => ∃ statements, n.shape = .block statements ∧
      n.reading.body = statements.flatMap fun m => m.reading.plain

/-- The reading of an identifier has its name. -/
theorem Ast.Node.name?_reading {n : Node} {text : String} (h : n.shape = .identifier text) :
    n.reading.name? = some ⟨n.id, n.span, text⟩ := by
  obtain ⟨i, s, f, sh⟩ := n
  obtain rfl : sh = .identifier text := h
  rfl

/-- What declares an identifier says so. -/
theorem Reading.declares_eq {n : Node} {text : String} (h : n.shape = .identifier text)
    (kind : DeclarationKind) (node : Nat) (hasInitializer byLoop : Bool) :
    declares kind node n.reading hasInitializer byLoop =
      [.declares kind node ⟨n.id, n.span, text⟩ hasInitializer byLoop] := by
  rw [declares, Node.name?_reading h]
  rfl

namespace Demand

variable {n : Node}

theorem name_metBy (h : n.shape.isIdentifier = true) : name.MetBy n := by
  obtain ⟨text, same⟩ := Shape.exists_identifier h
  exact ⟨text, same, Node.name?_reading same⟩

theorem declarator_metBy (h : n.shape.isDeclarator = true) (whole : n.shape.Whole) :
    declarator.MetBy n := by
  obtain ⟨i, s, f, sh⟩ := n
  cases sh with
  | variableDeclaration name value =>
      obtain ⟨text, same⟩ := Shape.exists_identifier whole.1
      refine ⟨name, value, text, rfl, same, fun kind byLoop => ?_⟩
      rw [Node.reading_mk]
      show Reading.declares kind i name.reading (value.map Node.reading).isSome byLoop ++
        (value.map Node.reading).toList.flatMap Reading.plain = _
      rw [Reading.declares_eq same, Option.isSome_map, Option.toList_map, List.flatMap_map]
      rfl
  | _ => cases h

theorem parameter_metBy (h : n.shape.isParameter = true) (whole : n.shape.Whole) :
    parameter.MetBy n := by
  obtain ⟨i, s, f, sh⟩ := n
  cases sh with
  | parameter name =>
      obtain ⟨text, same⟩ := Shape.exists_identifier whole
      refine ⟨name, text, rfl, same, ?_⟩
      rw [Node.reading_mk]
      exact Reading.declares_eq same .parameter i false false
  | _ => cases h

theorem body_metBy (h : n.shape.isBlock = true) : body.MetBy n := by
  obtain ⟨i, s, f, sh⟩ := n
  cases sh with
  | block statements =>
      refine ⟨statements, rfl, ?_⟩
      rw [Node.reading_mk]
      show (statements.map Node.reading).flatMap Reading.plain = _
      rw [List.flatMap_map]
  | _ => cases h

/-- All that is looked for in some parts is there. -/
abbrev AllMet (sought : List (Demand × Node)) : Prop := ∀ d ∈ sought, d.1.MetBy d.2

theorem allMet_map {d : Demand} {ns : List Node} (h : ∀ n ∈ ns, d.MetBy n) :
    AllMet (ns.map (d, ·)) := by
  intro sought found
  obtain ⟨n, hn, rfl⟩ := List.mem_map.mp found
  exact h n hn

theorem name_allMet {name : Option Node} (h : ∀ n ∈ name, n.shape.isIdentifier = true) :
    AllMet (name.toList.map (Demand.name, ·)) :=
  allMet_map fun n hn => name_metBy (h n (Option.mem_toList.mp hn))

/-- The parameters and the body of a function. -/
theorem function_allMet {ps : List Node} {b : Node} (hp : ∀ p ∈ ps, p.shape.isParameter = true)
    (whole : ∀ p ∈ ps, p.shape.Whole) (hb : b.shape.isBlock = true) :
    AllMet (ps.map (parameter, ·) ++ [(body, b)]) := by
  refine List.forall_mem_append.mpr ⟨?_, List.forall_mem_singleton.mpr (body_metBy hb)⟩
  exact allMet_map fun p h => parameter_metBy (hp p h) (whole p h)

/-- Where a construct and its parts are whole, all that is looked for is
    there. -/
theorem demands_allMet {sh : Shape Node} (whole : sh.Whole)
    (parts : ∀ part ∈ sh.parts, part.shape.Whole) : AllMet sh.demands := by
  have one {n : Node} (h : n.shape.isIdentifier = true) : AllMet [(name, n)] :=
    List.forall_mem_singleton.mpr (name_metBy h)
  cases sh with
  | variableStatement word declarations =>
      exact allMet_map fun d hd => declarator_metBy (whole.2 d hd) (parts d hd)
  | variableDeclaration => exact one whole.1
  | functionDeclaration n ps b =>
      refine List.forall_mem_cons.mpr ⟨name_metBy whole.1, function_allMet whole.2.1 ?_ whole.2.2⟩
      exact fun p hp => parts p (List.mem_cons_of_mem _ (List.mem_append_left _ hp))
  | classDeclaration => exact one whole.1
  | parameter => exact one whole
  | catchClause => exact one whole.1
  | functionExpression n ps b =>
      refine List.forall_mem_append.mpr ⟨name_allMet whole.1,
        function_allMet whole.2.1 ?_ whole.2.2⟩
      exact fun p hp => parts p (List.mem_append_right _ (List.mem_append_left _ hp))
  | classExpression => exact name_allMet whole.1
  | _ => exact List.forall_mem_nil _

end Demand

/-- In the tree of a text in which nothing is wrong nothing is missing, every
    construct has the parts that the grammar demands, and its outline finds all
    that it looks for. -/
theorem clean_demands_met {level : LanguageLevel} {text : String}
    (clean : (Grammar.parse level text).faults = []) :
    (∃ statements, (Grammar.parse level text).root.shape = .sourceFile statements) ∧
      ∀ n ∈ (Grammar.parse level text).root.postorder,
        n.shape ≠ .missing ∧ n.shape.Whole ∧
          ∀ sought ∈ n.shape.demands, sought.1.MetBy sought.2 := by
  refine ⟨?_, fun n hn => ?_⟩
  · obtain ⟨statements, t, -, read⟩ := Grammar.exists_reads level text
    rw [Grammar.parse_eq_reading, read]
    exact ⟨statements, rfl⟩
  have sound := (Grammar.root_sound clean).within hn
  have whole := sound.shape.whole
  refine ⟨fun missing => ?_, whole, Demand.demands_allMet whole fun part hp => ?_⟩
  · rw [missing] at whole
    exact whole
  · obtain ⟨i, s, f, sh⟩ := n
    exact ((Ast.Node.throughout_mk.mp sound).2 part hp).shape.whole

/-- A class with a parameter, a handler and a loop over a variable: what is looked
    for in the constructs is there, in the order of the text. -/
theorem clean_demands_met_class :
    let text := "class A extends B { m(a) { try { let c = a; } catch (e) { } } } for (var k in o);"
    (Grammar.parse .es2015 text).faults = [] ∧
      ((Grammar.parse .es2015 text).root.postorder.flatMap fun n =>
        n.shape.demands.map Prod.fst) =
          [.name, .name, .declarator, .name, .parameter, .body, .name, .name, .declarator] ∧
      ∀ n ∈ (Grammar.parse .es2015 text).root.postorder,
        ∀ sought ∈ n.shape.demands, sought.1.MetBy sought.2 := by
  intro text
  have clean : (Grammar.parse .es2015 text).faults = [] := by decide +kernel
  exact ⟨clean, by decide +kernel, fun n hn => ((clean_demands_met clean).2 n hn).2.2⟩

end DeclCheck
