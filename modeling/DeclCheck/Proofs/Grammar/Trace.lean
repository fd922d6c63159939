import DeclCheck.Proofs.Ast.Identifiers
import DeclCheck.Proofs.Ast.Typed
import DeclCheck.Proofs.Grammar.Steps

/-! # What steps do

    Whatever a step reads, it takes tokens, records faults and completes
    nodes, and the parts of a node are completed just before it.
    `Reads e s ns owed t` says that a run of this kind leads from `s` to `t`,
    that `ns` are the nodes it has completed, those below them apart, and that
    `owed` are the constructs of the youngest language level that it has demanded
    but not completed yet.  Each of these is demanded once, before its node is
    completed, and nothing else is demanded.  Nodes are annotated by the
    documentation comments of the tokens that they and their statements begin with.

    Each step is shown to be such a run once.  What reading does to numbers,
    positions and so on is then a matter of induction on runs, which looks at
    no step any more.

    `Makes` is what is shown of a step by itself, and `After` what is shown of
    the rest of a step: it starts where some nodes were completed already. -/

namespace DeclCheck.Grammar

open Token Ast

variable {α β : Type}

/-! ## Runs -/

/-- Where the current token starts. -/
def State.here (s : State) : Nat := s.lexer.token.span.start

/-- The place of the current token. -/
def State.tokenSpan (s : State) : Span := ⟨s.here, max s.lexer.token.span.stop s.here⟩

/-- The state with one node more completed. -/
def State.completed (s : State) : State := { s with nextId := s.nextId + 1 }

end DeclCheck.Grammar

namespace DeclCheck.Ast

/-- The construct of the youngest language level that a word declares. -/
def VariableWord.feature? (kind : VariableWord) : Option Grammar.Feature :=
  if kind.isBlockScoped then some (.blockScopedVariable kind) else none

/-- The construct of the youngest language level that a loop of a kind is. -/
def EachKind.feature? : EachKind → Option Grammar.Feature
  | keys => none
  | elements => some .elementLoop

namespace Shape

/-- Whether a construct is made of one token or of none. -/
def isLeaf {α : Type} : Shape α → Bool
  | identifier _ | label _ | propertyName _ | number _ | string _ | word _ | missing => true
  | _ => false

/-- Whether a construct is made of a token. -/
def IsToken {α : Type} (t : Token) : Shape α → Prop
  | identifier text | label text => t.kind = .identifier ∧ text = t.value
  | propertyName text => t.kind ≠ .endOfFile ∧ text = t.value
  | number text => t.kind = .number ∧ text = t.value
  | string value => t.kind = .string ∧ value = t.value
  | word literal => WordLiteral.ofKind? t.kind = some literal
  | _ => False

/-- The construct of the youngest language level that a construct is. -/
def feature? {α : Type} : Shape α → Option Grammar.Feature
  | variableStatement kind _ => kind.feature?
  | classDeclaration _ _ _ => some .classDeclaration
  | classExpression _ _ _ => some .classExpression
  | forEachStatement kind _ _ _ => kind.feature?
  | _ => none

/-- Whether a construct declares, so that comments annotate it or its parts. -/
def declares {α : Type} : Shape α → Bool
  | functionDeclaration _ _ _ | classDeclaration _ _ _ | variableDeclaration _ _
  | variableStatement _ _ => true
  | _ => false

/-- What must be demanded before a construct is completed, unless it is made of
    one token or of none. -/
def demands? {α : Type} (sh : Shape α) : Option (List Grammar.Feature) :=
  if sh.isLeaf then none else some sh.feature?.toList

/-- What demands something is no leaf, and its feature is what is owed for it. -/
theorem of_demands? {α : Type} {sh : Shape α} {owed : List Grammar.Feature}
    (h : sh.demands? = some owed) : sh.isLeaf = false ∧ sh.feature?.toList = owed := by
  rw [demands?] at h
  split at h
  · cases h
  · rename_i composite
    exact ⟨Bool.eq_false_iff.mpr composite, Option.some.inj h⟩

/-- What must be demanded before a construct is completed that declares nothing. -/
def plainDemands? {α : Type} (sh : Shape α) : Option (List Grammar.Feature) :=
  if sh.declares then none else sh.demands?

/-- What owes plain demands declares nothing. -/
theorem of_plainDemands? {α : Type} {sh : Shape α} {owed : List Grammar.Feature}
    (h : sh.plainDemands? = some owed) : sh.declares = false ∧ sh.demands? = some owed := by
  rw [plainDemands?] at h
  split at h
  · cases h
  · rename_i plain
    exact ⟨Bool.eq_false_iff.mpr plain, h⟩

/-- A token declares nothing. -/
theorem IsToken.declares {α : Type} {t : Token} {sh : Shape α} (h : sh.IsToken t) :
    sh.declares = false := by
  cases sh <;> first | rfl | cases h

/-- A token has no parts. -/
theorem IsToken.parts {α : Type} {t : Token} {sh : Shape α} (h : sh.IsToken t) : sh.parts = [] := by
  cases sh <;> first | rfl | cases h

/-- A token fits, as there are no parts that could not. -/
theorem IsToken.fits {t : Token} {sh : Shape Node} (h : sh.IsToken t) : sh.Fits := by
  cases sh <;> trivial

/-- A token asks for no feature. -/
theorem IsToken.feature?_eq_none {α : Type} {t : Token} {sh : Shape α} (h : sh.IsToken t) :
    sh.feature? = none := by
  cases sh <;> first | rfl | cases h

end Shape

end DeclCheck.Ast

/-- Whether annotations can come from the documentation comments of a text. -/
def DeclCheck.Ast.Flags.Written (f : Flags) : Prop := f.immutable = false ∧ f.synthesized = false

/-- Flags that can be written can be written together. -/
theorem DeclCheck.Ast.Flags.Written.union {f g : Flags} (h : f.Written) (h' : g.Written) :
    (f.union g).Written := by
  rw [Written, Flags.union, h.1, h.2, h'.1, h'.2]
  exact ⟨rfl, rfl⟩

namespace DeclCheck

open Ast

/-- The annotations of the documentation comment before a token. -/
def Token.annotations (t : Token) : Flags :=
  t.doc.elim Flags.none fun doc => (DocTags.ofComment doc.text).flags

/-- Documentation comments do not mark nodes as immutable or synthesized. -/
theorem Token.annotations_written (t : Token) : t.annotations.Written := by
  rw [annotations]
  cases t.doc with
  | none => exact ⟨rfl, rfl⟩
  | some doc => exact ⟨rfl, rfl⟩

/-- Whether a node declares the variable at the token of a lexer, with the
    annotations of its statement and those before its name. -/
def Lexer.Declares (l : Lexer) (inherited : Flags) (n : Node) : Prop :=
  ∃ name value, n.shape = .variableDeclaration name value ∧
    name.span.start = l.token.span.start ∧
    (name.shape.isIdentifier = true → l.token.kind = .identifier) ∧
    n.flags = inherited.union l.token.annotations

namespace Ast.Shape

/-- Whether annotations are those that the documentation comments give a
    construct which begins at the token of a lexer.  Those of a variable are
    known to its statement. -/
def Annotated (l : Lexer) (flags : Flags) : Shape Node → Prop
  | functionDeclaration _ _ _ =>
      l.token.kind = .keyword .functionWord ∧ flags = l.token.annotations
  | classDeclaration _ _ _ => l.token.kind = .keyword .classWord ∧ flags = l.token.annotations
  | variableDeclaration _ _ => flags.Written
  | variableStatement kind declarations =>
      Grammar.variableKind? l.token.kind = some kind ∧ flags = Flags.none ∧
        ∀ n ∈ declarations, ∃ k, (l.after k).Declares l.token.annotations n
  | _ => flags = Flags.none

variable {l : Lexer} {flags : Flags} {sh : Shape Node}

/-- An annotation is written in the text. -/
theorem Annotated.written (h : sh.Annotated l flags) : flags.Written := by
  cases sh with
  | functionDeclaration | classDeclaration =>
      obtain ⟨-, rfl⟩ := h
      exact l.token.annotations_written
  | variableDeclaration => exact h
  | variableStatement =>
      obtain ⟨-, rfl, -⟩ := h
      exact ⟨rfl, rfl⟩
  | _ =>
      obtain rfl : flags = Flags.none := h
      exact ⟨rfl, rfl⟩

/-- Other constructs have no annotations. -/
theorem annotated_none_iff (h : sh.declares = false) :
    sh.Annotated l flags ↔ flags = Flags.none := by
  cases sh <;> first | rfl | cases h

end Ast.Shape

end DeclCheck

namespace DeclCheck.Grammar

open Token Ast

variable {α β : Type}

/-- Reading leads from one state to another one, completes nodes, and owes
    constructs that were demanded. -/
inductive Reads (e : Setting) : State → List Node → List Feature → State → Prop where
  | nil (s : State) : Reads e s [] [] s
  | append {s t u : State} {ns ms : List Node} {owed more : List Feature}
      (first : Reads e s ns owed t) (rest : Reads e t ms more u) :
      Reads e s (ns ++ ms) (owed ++ more) u
  /-- A token is taken. -/
  | taken (s : State) : Reads e s [] [] s.taken
  /-- What is being read is noted. -/
  | noted {s t : State} (lexer : t.lexer = s.lexer) (lastEnd : t.lastEnd = s.lastEnd)
      (nextId : t.nextId = s.nextId) (faults : t.faults = s.faults) : Reads e s [] [] t
  /-- A fault is recorded at the current token. -/
  | reported (s : State) {error : SyntaxError} (shared : error.isShared = true) :
      Reads e s [] [] { s with faults := reported (s.fault error) s.faults }
  /-- A fault is recorded at a node that was completed. -/
  | reportedAt {s t : State} {ns : List Node} {owed : List Feature} (h : Reads e s ns owed t)
      {n : Node} (completed : n ∈ ns) {error : SyntaxError} (shared : error.isShared = true) :
      Reads e s ns owed
        { t with faults := reported ⟨n.span.start, n.span.length, error⟩ t.faults }
  /-- A construct of the youngest language level is demanded. -/
  | demanded (s : State) (feature : Feature) :
      Reads e s [] [feature] { s with faults := s.demanded e feature }
  | missing (s : State) :
      Reads e s [.mk s.nextId (.point s.here) Flags.none .missing] [] s.completed
  | token (s : State) {sh : Shape Node} (h : sh.IsToken s.lexer.token) :
      Reads e s [.mk s.nextId s.tokenSpan Flags.none sh] [] s.taken.completed
  /-- A property name stands for the variable of that name, too. -/
  | shorthand {s t : State} {i : Nat} {flags : Flags}
      (h : Reads e s [.mk i s.tokenSpan flags (.propertyName s.lexer.token.value)] [] t)
      (named : s.lexer.token.kind = .identifier) :
      Reads e s [.mk i s.tokenSpan flags (.propertyName s.lexer.token.value),
        .mk t.nextId s.tokenSpan Flags.none (.identifier s.lexer.token.value)] [] t.completed
  /-- The parts of a construct are completed, and what was demanded for it. -/
  | node {s t : State} {sh : Shape Node} (parts : Reads e s sh.parts sh.feature?.toList t)
      (fits : sh.Fits) (composite : sh.isLeaf = false) {flags : Flags}
      (annotated : sh.Annotated s.lexer flags) :
      Reads e s [.mk t.nextId ⟨s.here, max t.lastEnd s.here⟩ flags sh] [] t.completed

namespace Reads

variable {e : Setting} {s t u : State} {ns ms : List Node} {owed : List Feature}

/-- More nodes are completed. -/
theorem more (h : Reads e s ns owed t) (h' : Reads e t ms [] u) :
    Reads e s (ns ++ ms) owed u := by
  rw [← List.append_nil owed]
  exact h.append h'

/-- Nothing is completed before a run. -/
theorem before (h : Reads e s [] [] t) (h' : Reads e t ns owed u) : Reads e s ns owed u :=
  h.append h'

/-- Nothing is completed behind a run. -/
theorem behind (h : Reads e s ns owed t) (h' : Reads e t [] [] u) : Reads e s ns owed u := by
  rw [← List.append_nil ns]
  exact h.more h'

/-- Runs that complete and demand nothing, in every setting. -/
theorem quiet : Quiet fun s t => ∀ e, Reads e s [] [] t where
  refl := fun s _ => .nil s
  trans := fun _ _ _ h h' e => (h e).before (h' e)
  taken := fun s _ => .taken s
  reported := fun s _ shared _ => .reported s shared

/-- Reading goes on with the tokens that its lexer leads to. -/
theorem lexer (h : Reads e s ns owed t) : ∃ k, t.lexer = s.lexer.after k := by
  induction h with
  | nil | reported | demanded | missing => exact ⟨0, rfl⟩
  | append _ _ first rest =>
      obtain ⟨m, first⟩ := first
      obtain ⟨n, rest⟩ := rest
      exact ⟨m + n, by rw [rest, first, Lexer.after_add]⟩
  | taken | token => exact ⟨1, rfl⟩
  | noted lexer => exact ⟨0, lexer⟩
  | reportedAt _ _ _ ih | shorthand _ _ ih | node _ _ _ _ ih => exact ih

end Reads

/-! ## Steps -/

/-- Flags are read off the current token, and the state stays. -/
theorem docFlags_eq (e : Setting) (s : State) :
    docFlags e s = (s.lexer.token.annotations, s) := by
  obtain ⟨⟨rest, offset, ⟨kind, span, value, newlineBefore, doc⟩, found⟩, rest⟩ := s
  cases doc <;> rfl

/-- The rest of a step that began at `s` and has come to `t`: with its result,
    the nodes of the result are completed since `s`, nothing is owed, and the
    result has a property. -/
def Rest (e : Setting) (s t : State) (step : Step α) (nodes : α → List Node) (P : α → Prop) :
    Prop :=
  Reads e s (nodes (step e t).1) [] (step e t).2 ∧ P (step e t).1

/-- A step that completes the nodes of its result and no others, and whose
    result has a property. -/
def Makes (step : Step α) (nodes : α → List Node) (P : α → Prop) : Prop :=
  ∀ e s, Rest e s s step nodes P

/-- A step of which this is known where it begins at a token that follows those
    of a state. -/
def MakesFrom (s : State) (step : Step α) (nodes : α → List Node) (P : α → Prop) : Prop :=
  ∀ e t, (∃ k, t.lexer = s.lexer.after k) → Rest e t t step nodes P

/-- What is made from a later state is made from this one. -/
theorem MakesFrom.later {s t : State} {step : Step α} {nodes : α → List Node} {P : α → Prop}
    (h : MakesFrom s step nodes P) (later : ∃ k, t.lexer = s.lexer.after k) :
    MakesFrom t step nodes P := by
  obtain ⟨m, later⟩ := later
  rintro e u ⟨n, laterStill⟩
  exact h e u ⟨m + n, by rw [laterStill, later, Lexer.after_add]⟩

/-- The rest of a step that began at `s`, has completed the nodes `ns` and owes
    some constructs. -/
def After (s : State) (owed : List Feature) (ns : List Node) (step : Step α)
    (nodes : α → List Node) (P : α → Prop) : Prop :=
  ∀ e t, Reads e s ns owed t → Rest e s t step nodes P

/-- A step that completes nothing. -/
abbrev Passes (step : Step α) : Prop := Leads (fun s t => ∀ e, Reads e s [] [] t) step

/-- A node as the only one of a list. -/
def alone (n : Node) : List Node := [n]

/-- A property of the construct of a node. -/
def ofShape (P : Shape Node → Prop) (n : Node) : Prop := P n.shape

/-- A step that completes one node with all that is below it. -/
abbrev MakesNode (step : Step Node) (P : Shape Node → Prop) : Prop :=
  Makes step alone (ofShape P)

/-- Nothing is said of a construct. -/
abbrev Any (_ : Shape Node) : Prop := True

/-- The parts that are present in an option all have a property. -/
def Present (P : Shape Node → Prop) (o : Option Node) : Prop := ∀ n ∈ o, P n.shape

/-- The members of a list all have a property. -/
def Each (P : α → Prop) (as : List α) : Prop := ∀ a ∈ as, P a

section

variable {P : α → Prop}

/-- Nothing has every property. -/
theorem Each.nil : Each P [] := fun _ h => nomatch h

/-- One more that has the property. -/
theorem Each.cons {a : α} {as : List α} (h : P a) (h' : Each P as) : Each P (a :: as) :=
  List.forall_mem_cons.mpr ⟨h, h'⟩

/-- Two lists that have the property. -/
theorem Each.append {as bs : List α} (h : Each P as) (h' : Each P bs) : Each P (as ++ bs) :=
  List.forall_mem_append.mpr ⟨h, h'⟩

/-- A weaker property of each. -/
theorem Each.mono {Q : α → Prop} {as : List α} (h : Each P as) (hPQ : ∀ a, P a → Q a) :
    Each Q as :=
  fun a ha => hPQ a (h a ha)

end

section

variable {e : Setting} {s t : State} {owed : List Feature} {ns : List Node}
variable {nodes : α → List Node} {P : α → Prop}

/-! ### One step after the other -/

namespace Rest

variable {results : β → List Node} {Q : β → Prop}

/-- The rest begins with a step of its own. -/
theorem bind {step : Step α} {next : α → Step β} (h : Rest e t t step nodes P)
    (ht : Reads e s ns owed t)
    (k : ∀ a, P a → After s owed (ns ++ nodes a) (next a) results Q) :
    Rest e s t (step >>= next) results Q :=
  k _ h.2 _ _ (ht.more h.1)

/-- The current token is a construct by itself. -/
theorem token {sh : Shape Node} {P : Shape Node → Prop} (h : sh.IsToken s.lexer.token)
    (hP : P sh) : Rest e s s (do advance; finish s.lexer.token.span.start sh) alone (ofShape P) :=
  ⟨.token s h, hP⟩

/-- Both branches may use how the choice was made. -/
theorem ite {c : Prop} [Decidable c] {x y : Step α} (hx : c → Rest e s t x nodes P)
    (hy : ¬ c → Rest e s t y nodes P) : Rest e s t (if c then x else y) nodes P := by
  by_cases h : c
  · rw [if_pos h]
    exact hx h
  · rw [if_neg h]
    exact hy h

/-- A step that only looks is passed over. -/
theorem peek {step : Step α} {next : α → Step β} (h : Keeps id step)
    (k : ∀ a, Rest e s t (next a) results Q) : Rest e s t (step >>= next) results Q := by
  have run := k (step e t).1
  have same : (step e t).2 = t := h e t
  show Reads e s (results (next (step e t).1 e (step e t).2).1) []
    (next (step e t).1 e (step e t).2).2 ∧ Q (next (step e t).1 e (step e t).2).1
  rw [same]
  exact run

/-- A look at the current token. -/
theorem look {next : Token → Step α} (h : Rest e s t (next t.lexer.token) nodes P) :
    Rest e s t (Grammar.token >>= next) nodes P := h

/-- A look at the kind of the current token. -/
theorem kind {next : Kind → Step α} (h : Rest e s t (next t.lexer.token.kind) nodes P) :
    Rest e s t (Grammar.kind >>= next) nodes P := h

/-- A look at the start of the current token. -/
theorem start {next : Nat → Step α} (h : Rest e s t (next t.here) nodes P) :
    Rest e s t (tokenStart >>= next) nodes P := h

/-- A look at the documentation comment before the current token. -/
theorem documented {next : Flags → Step α}
    (h : Rest e s t (next t.lexer.token.annotations) nodes P) :
    Rest e s t (docFlags >>= next) nodes P := by
  show Reads e s (nodes (next (docFlags e t).1 e (docFlags e t).2).1) []
    (next (docFlags e t).1 e (docFlags e t).2).2 ∧ P (next (docFlags e t).1 e (docFlags e t).2).1
  rw [docFlags_eq]
  exact h

/-- The node that is completed may be a part that is present. -/
theorem present {step : Step Node} {P : Shape Node → Prop}
    (h : Rest e s t step alone (ofShape P)) :
    Rest e s t (some <$> step) Option.toList (Present P) := by
  refine ⟨h.1, fun n hn => ?_⟩
  rw [← Option.mem_some.mp hn]
  exact h.2

end Rest

namespace After

variable {results : β → List Node} {Q : β → Prop}

/-- Nothing is owed any more, and the nodes are those that were completed. -/
theorem pure {a : α} (same : nodes a = ns) (h : P a) :
    After s [] ns (Pure.pure a) nodes P :=
  fun _ _ ht => ⟨same ▸ ht, h⟩

/-- A step that is known from this state only. -/
theorem bindFrom {step : Step α} {next : α → Step β} (h : MakesFrom s step nodes P)
    (k : ∀ a, P a → After s owed (ns ++ nodes a) (next a) results Q) :
    After s owed ns (step >>= next) results Q :=
  fun e t ht => (h e t ht.lexer).bind ht k

/-- The nodes of a step are completed behind those that were there. -/
theorem bind {step : Step α} {next : α → Step β} (h : Makes step nodes P)
    (k : ∀ a, P a → After s owed (ns ++ nodes a) (next a) results Q) :
    After s owed ns (step >>= next) results Q :=
  .bindFrom (fun e t _ => h e t) k

/-- What was owed is settled by the first step. -/
theorem andThen {step : Step α} {next : α → Step β} (h : After s owed ns step nodes P)
    (k : ∀ a, P a → After s [] (nodes a) (next a) results Q) :
    After s owed ns (step >>= next) results Q :=
  fun e t ht => k _ (h e t ht).2 _ _ (h e t ht).1

/-- A look that changes nothing. -/
theorem peek {step : Step α} {next : α → Step β} (h : Keeps id step)
    (k : ∀ a, After s owed ns (next a) results Q) : After s owed ns (step >>= next) results Q :=
  fun e t ht => .peek h fun a => k a e t ht

/-- A step that completes nothing is passed over. -/
theorem pass {step : Step α} {next : α → Step β} (h : Passes step)
    (k : ∀ a, After s owed ns (next a) results Q) : After s owed ns (step >>= next) results Q :=
  fun e t ht => k _ e _ (ht.behind (h e t e))

/-- A construct is owed from its demand on. -/
theorem demand {feature : Feature} {next : Unit → Step α}
    (k : After s [feature] ns (next ()) nodes P) :
    After s [] ns (require feature >>= next) nodes P := by
  intro e t ht
  have owing : Reads e s ns [feature] { t with faults := t.demanded e feature } := by
    have both := ht.append (.demanded t feature)
    rwa [List.append_nil] at both
  have run := k e _ owing
  show Reads e s (nodes (next () e (require feature e t).2).1) []
    (next () e (require feature e t).2).2 ∧ P (next () e (require feature e t).2).1
  rw [require_eq]
  exact run

/-- Both branches may use how the choice was made. -/
theorem ite {c : Prop} [Decidable c] {x y : Step α} (hx : c → After s owed ns x nodes P)
    (hy : ¬ c → After s owed ns y nodes P) : After s owed ns (if c then x else y) nodes P :=
  fun e t ht => .ite (fun h => hx h e t ht) fun h => hy h e t ht

/-- A fault is recorded at a node that was completed. -/
theorem reportAt {n : Node} {error : SyntaxError} {next : Unit → Step α} (completed : n ∈ ns)
    (shared : error.isShared = true) (k : After s owed ns (next ()) nodes P) :
    After s owed ns (Grammar.reportAt n error >>= next) nodes P := by
  intro e t ht
  have run := k e _ (ht.reportedAt completed shared)
  show Reads e s (nodes (next () e (Grammar.reportAt n error e t).2).1) []
    (next () e (Grammar.reportAt n error e t).2).2 ∧
      P (next () e (Grammar.reportAt n error e t).2).1
  rw [Grammar.reportAt, report_eq]
  exact run

/-- An operand that was completed may be reported. -/
theorem checkStepOperand {operand : Node} {next : Unit → Step α} (completed : operand ∈ ns)
    (k : After s owed ns (next ()) nodes P) :
    After s owed ns (Grammar.checkStepOperand operand >>= next) nodes P := by
  have run : Grammar.checkStepOperand operand >>= next =
      if isTarget operand then next ()
        else Grammar.reportAt operand .invalidStepOperand >>= next := by
    rw [Grammar.checkStepOperand]
    split <;> rfl
  rw [run]
  exact .ite (fun _ => k) fun _ => .reportAt completed rfl k

end After

namespace Makes

variable {step : Step α}

/-- What is shown behind nothing is shown of the step. -/
theorem begin (h : ∀ s, After s [] [] step nodes P) : Makes step nodes P :=
  fun e s => h s e s (.nil s)

/-- A step that begins with a look at the start of the current token. -/
theorem at_start {next : Nat → Step α} (h : ∀ s, After s [] [] (next s.here) nodes P) :
    Makes (tokenStart >>= next) nodes P :=
  fun e s => h s e s (.nil s)

/-- The rest of a step is a step of its own. -/
theorem rest (h : Makes step nodes P) : After s [] [] step nodes P :=
  fun e t ht => ⟨ht.before (h e t).1, (h e t).2⟩

/-- Where a step begins may be of no account. -/
theorem everywhere (h : Makes step nodes P) (s : State) : MakesFrom s step nodes P :=
  fun e t _ => h e t

/-- A weaker property of what is made. -/
theorem mono {Q : α → Prop} (h : Makes step nodes P) (hPQ : ∀ a, P a → Q a) :
    Makes step nodes Q :=
  fun e s => ⟨(h e s).1, hPQ _ (h e s).2⟩

/-- A step that completes one node may end with that node as a part that is
    present. -/
theorem present {step : Step Node} {P : Shape Node → Prop} (h : MakesNode step P) :
    Makes (some <$> step) Option.toList (Present P) :=
  fun e s => (h e s).present

end Makes

/-- A part that is absent. -/
theorem absent_makes {P : Shape Node → Prop} :
    Makes (pure none : Step (Option Node)) Option.toList (Present P) :=
  fun _ s => ⟨.nil s, fun _ h => nomatch h⟩

/-- A step that goes on with a part or without one. -/
theorem After.optional {c : Prop} [Decidable c] {step : Step Node} {next : Option Node → Step α}
    {Q : Shape Node → Prop} (h : MakesNode step Q)
    (rest : ∀ o, Present Q o → After s owed (ns ++ o.toList) (next o) nodes P) :
    After s owed ns (if c then some <$> step >>= next else Pure.pure none >>= next) nodes P :=
  .ite (fun _ => .bind h.present rest) fun _ => .bind absent_makes rest

/-! ### Completing nodes -/

/-- A construct whose parts were completed is completed, with the flags that annotate it. -/
theorem After.finishWith {sh : Shape Node} {P : Node → Prop} (parts : sh.parts = ns)
    (fits : sh.Fits) (demanded : sh.demands? = some owed) {flags : Flags}
    (annotated : sh.Annotated s.lexer flags) (hP : ∀ i span, P (.mk i span flags sh)) :
    After s owed ns (finishWith s.here flags sh) alone P := by
  obtain ⟨composite, rfl⟩ := Shape.of_demands? demanded
  intro e t ht
  rw [← parts] at ht
  exact ⟨.node ht fits composite annotated, hP _ _⟩

/-- A construct that declares nothing has no annotations. -/
theorem After.finish {sh : Shape Node} {P : Shape Node → Prop} (parts : sh.parts = ns)
    (fits : sh.Fits) (demanded : sh.plainDemands? = some owed) (hP : P sh) :
    After s owed ns (finish s.here sh) alone (ofShape P) := by
  obtain ⟨plain, demanded⟩ := Shape.of_plainDemands? demanded
  exact .finishWith parts fits demanded ((Shape.annotated_none_iff plain).mpr rfl) fun _ _ => hP

/-- A missing node is completed without a token. -/
theorem missing_makes {P : Shape Node → Prop} (hP : P .missing) : MakesNode missing P :=
  fun _ s => ⟨.missing s, hP⟩

/-! ### Control -/

variable {step : Step α}

/-- A flag of the setting is no event of the run. -/
theorem withIn_makes {disallow : Bool} (h : Makes step nodes P) :
    Makes (withIn disallow step) nodes P := by
  intro e s
  obtain ⟨inner, holds⟩ := h e { s with noIn := disallow }
  have entered : Reads e s [] [] { s with noIn := disallow } := .noted rfl rfl rfl rfl
  exact ⟨(entered.before inner).behind (.noted rfl rfl rfl rfl), holds⟩

/-- The guard reports, or it does nothing. -/
theorem guarded_makes {otherwise : Step α} (h : Makes step nodes P)
    (h' : Makes otherwise nodes P) : Makes (guarded step otherwise) nodes P := by
  refine .begin fun s => .peek .read fun e => .peek .get fun now => .ite (fun _ => ?_) fun _ => ?_
  · exact .pass (reportHere_keeps Reads.quiet rfl) fun _ => h'.rest
  · intro e t ht
    obtain ⟨inner, holds⟩ := h e { t with depth := t.depth + 1 }
    have entered : Reads e t [] [] { t with depth := t.depth + 1 } := .noted rfl rfl rfl rfl
    exact ⟨ht.before ((entered.before inner).behind (.noted rfl rfl rfl rfl)), holds⟩

end

/-- The items that a turn adds to its list. -/
def Turn.items : Turn α → List α
  | done | skipped => []
  | last item | more item => [item]

/-- The nodes of the items that a turn adds. -/
def turnNodes (nodes : α → List Node) (t : Turn α) : List Node := t.items.flatMap nodes

/-- The items that a turn adds have a property. -/
def EachItem (P : α → Prop) (t : Turn α) : Prop := Each P t.items

/-- The nodes of the members of a list. -/
def listNodes (nodes : α → List Node) (as : List α) : List Node := as.flatMap nodes

section

variable {s : State} {ns : List Node} {nodes : α → List Node} {P : α → Prop}

/-- A turn with one item more. -/
theorem After.item {a : α} (same : nodes a = ns) (h : P a) {t : Turn α} (ht : t.items = [a]) :
    After s [] ns (Pure.pure t) (turnNodes nodes) (EachItem P) := by
  refine .pure ?_ ?_
  · rw [turnNodes, ht, List.flatMap_singleton, same]
  · rw [EachItem, ht]
    intro b hb
    rw [List.mem_singleton.mp hb]
    exact h

/-- A turn that adds nothing. -/
theorem After.idle {t : Turn α} (ht : t.items = []) :
    After s [] [] (Pure.pure t) (turnNodes nodes) (EachItem P) := by
  refine .pure ?_ ?_
  · rw [turnNodes, ht, List.flatMap_nil]
  · rw [EachItem, ht]
    exact fun _ h => nomatch h

/-- Every turn adds its nodes behind those of the turns before. -/
theorem collect_after {step : Step (Turn α)}
    (h : MakesFrom s step (turnNodes nodes) (EachItem P)) :
    ∀ (n : Nat) (items : List α), Each P items →
      After s [] (listNodes nodes items.reverse) (collect step n items) (listNodes nodes)
        (Each P) := by
  intro n
  induction n with
  | zero =>
      intro items hi
      exact .pure rfl fun a ha => hi a (List.mem_reverse.mp ha)
  | succ n ih =>
      intro items hi
      refine .bindFrom h fun t ht => ?_
      -- the list so far with the items of the turn at its end
      have longer : listNodes nodes items.reverse ++ turnNodes nodes t =
          listNodes nodes (t.items ++ items).reverse := by
        cases t <;> simp [listNodes, turnNodes, Turn.items]
      have each : Each P (t.items ++ items) := Each.append ht hi
      rw [longer]
      cases t with
      | done => exact .pure rfl fun a ha => each a (List.mem_reverse.mp ha)
      | last a => exact .pure rfl fun a ha => each a (List.mem_reverse.mp ha)
      | more a => exact ih _ each
      | skipped => exact ih _ each

/-- The nodes of a loop from this state are those of its turns. -/
theorem many_from {step : Step (Turn α)}
    (h : MakesFrom s step (turnNodes nodes) (EachItem P)) :
    MakesFrom s (many step) (listNodes nodes) (Each P) :=
  fun e t later => After.peek .read (fun _ => collect_after (h.later later) _ [] nofun) e t (.nil t)

/-- So are those of a loop from any state. -/
theorem many_makes {step : Step (Turn α)} (h : Makes step (turnNodes nodes) (EachItem P)) :
    Makes (many step) (listNodes nodes) (Each P) :=
  fun e s => many_from (h.everywhere s) e s ⟨0, rfl⟩

/-- The nodes of a list of nodes are the list itself. -/
theorem listNodes_alone (ns : List Node) : listNodes alone ns = ns := by
  induction ns with
  | nil => rfl
  | cons n ns ih => exact congrArg (n :: ·) ih

/-- Reading a list of nodes. -/
theorem manyNodes_from {P : Node → Prop} {step : Step (Turn Node)}
    (h : MakesFrom s step (turnNodes alone) (EachItem P)) :
    MakesFrom s (many step) (fun ns => ns) (Each P) := by
  intro e t later
  obtain ⟨reads, each⟩ := many_from h e t later
  rw [listNodes_alone] at reads
  exact ⟨reads, each⟩

/-- Reading a list of nodes of one category. -/
theorem manyNodes_makes (P : Shape Node → Prop) {step : Step (Turn Node)}
    (h : Makes step (turnNodes alone) (EachItem (ofShape P))) :
    Makes (many step) (fun ns => ns) (Each (ofShape P)) :=
  fun e s => manyNodes_from (h.everywhere s) e s ⟨0, rfl⟩

/-- Every node is a part of the next, longer one. -/
theorem extendWhile_after {step : Node → Step (Option Node)} {first : Node}
    (h : ∀ left, After s [] [left] (step left) (fun longer => [longer.getD left]) fun _ => True) :
    After s [] [first] (extendWhile step first) alone (ofShape Any) := by
  refine .peek .read fun e => ?_
  generalize e.bound = n
  induction n generalizing first with
  | zero => exact .pure rfl trivial
  | succ n ih =>
      refine .andThen (h first) fun longer _ => ?_
      cases longer with
      | none => exact .pure rfl trivial
      | some longer => exact ih

/-! ### Names and lists -/

/-- What is missing is missing at the current token. -/
theorem reportedMissing_rest (error : SyntaxError) (shared : error.isShared = true) (e : Setting)
    (s : State) : Rest e s s (do reportHere error; missing) alone fun n =>
      n.shape = .missing ∧ n.span.start = s.here := by
  have run : (do reportHere error; missing : Step Node) e s =
      missing e { s with faults := reported (s.fault error) s.faults } := by
    show missing e (reportHere error e s).2 = _
    rw [reportHere_eq]
  rw [Rest, run]
  exact ⟨(Reads.reported s shared).before (.missing _), rfl, rfl⟩

/-- The name of a variable stands where it is read, and is missing where no
    identifier is. -/
theorem bindingName_rest (e : Setting) (s : State) : Rest e s s bindingName alone fun n =>
    n.shape.isName ∧ n.span.start = s.here ∧
      (n.shape.isIdentifier = true → s.lexer.token.kind = .identifier) := by
  refine .look (.ite (fun identifier => ?_) fun _ => ?_)
  · have named : s.lexer.token.kind = .identifier := beq_iff_eq.mp identifier
    exact ⟨.token s ⟨named, rfl⟩, by rfl, by rfl, fun _ => named⟩
  · obtain ⟨reads, absent, here⟩ := reportedMissing_rest .identifierExpected rfl e s
    refine ⟨reads, ?_, here, fun identifier => ?_⟩
    · rw [absent]
      rfl
    · rw [absent] at identifier
      cases identifier

/-- A name that is declared is a node, or missing. -/
theorem bindingName_makes : MakesNode bindingName fun sh => sh.isName :=
  fun e s => ⟨(bindingName_rest e s).1, (bindingName_rest e s).2.1⟩

/-- Where an identifier stands it is the property name. -/
theorem propertyName_rest (e : Setting) (s : State) : Rest e s s propertyName alone fun n =>
    n.shape.isPropertyName ∧ (s.lexer.token.kind = .identifier → ∃ i flags,
      n = .mk i s.tokenSpan flags (.propertyName s.lexer.token.value)) := by
  refine .look (.ite (fun named => ?_) fun other => ?_)
  · have started : s.lexer.token.kind ≠ .endOfFile := by
      intro atEnd
      rw [atEnd] at named
      cases named
    exact ⟨.token s ⟨started, rfl⟩, by rfl, fun _ => ⟨_, _, rfl⟩⟩
  · have otherwise : s.lexer.token.kind ≠ .identifier := by
      intro identifier
      rw [identifier] at other
      exact other rfl
    obtain ⟨reads, absent, -⟩ := reportedMissing_rest .propertyNameExpected rfl e s
    refine ⟨reads, ?_, fun identifier => absurd identifier otherwise⟩
    rw [absent]
    rfl

/-- So is the name of a property. -/
theorem propertyName_makes : MakesNode propertyName fun sh => sh.isPropertyName :=
  fun e s => ⟨(propertyName_rest e s).1, (propertyName_rest e s).2.1⟩

/-- A name that can be left out makes a node or none. -/
theorem optionalName_makes : Makes optionalName Option.toList (Present fun sh => sh.isName) := by
  refine .begin fun s => .peek (at?_keeps _) fun b => .ite (fun _ => ?_) fun _ => ?_
  · exact bindingName_makes.present.rest
  · exact absent_makes.rest

/-- An item between commas makes the nodes of the item. -/
theorem separated_from {item : Step α} (h : MakesFrom s item nodes P) :
    MakesFrom s (separated item) (turnNodes nodes) (EachItem P) := by
  refine fun e t later => (h e t later).bind (.nil t) fun a ha => ?_
  refine .pass (accept_keeps Reads.quiet _) fun b => ?_
  exact .ite (fun _ => .item rfl ha rfl) fun _ => .item rfl ha rfl

/-- So it does from any state. -/
theorem separated_makes {item : Step α} (h : Makes item nodes P) :
    Makes (separated item) (turnNodes nodes) (EachItem P) :=
  fun e s => separated_from (h.everywhere s) e s ⟨0, rfl⟩

end

end DeclCheck.Grammar
