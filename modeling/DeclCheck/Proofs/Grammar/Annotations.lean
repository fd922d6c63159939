import DeclCheck.Proofs.Grammar.CleanTexts
import DeclCheck.Proofs.Token.Comments

/-! # Where annotations come from

    A token keeps the documentation comment that stands last in the gap before
    it, and the steps for declarations ask the current token for it.  On its way
    the comment passes no other token: a run annotates what it completes at the
    tokens that the nodes begin at, as its induction shows, and a look ahead
    leaves no trace in it.

    So the annotations of a text are told by the comments directly before the
    words that declare something, and before the names of variables. -/

namespace DeclCheck

open Token Ast

/-! ## Comments before a token -/

/-- The annotations of the documentation comment that stands last among some
    comments. -/
def Token.lastAnnotations (comments : List (List Char)) : Flags :=
  (lastDocumentation? comments).elim Flags.none fun comment => (DocTags.ofComment comment).flags

/-- Whether the token of a text that is of a kind and starts at an offset has
    some annotations by the comments directly before it.  The gap before the
    token begins where the token before stops. -/
def AnnotatedBefore (text : String) (kind : Kind) (start : Nat) (flags : Flags) : Prop :=
  ∃ i front gap lexeme comments,
    ((Lexer.ofString text).after i).Continues text.toList front gap lexeme ∧
    ((Lexer.ofString text).after i).next.token.kind = kind ∧
    ((Lexer.ofString text).after i).next.token.span.start = start ∧
    Comments gap comments ∧ flags = lastAnnotations comments

namespace Lexer

variable {text : String} {kind : Kind} {start i j : Nat} {flags other : Flags}

/-- A token has the annotations of the comments before it. -/
theorem Cut.annotations {l : Lexer} {gap lexeme : List Char} {comments : List (List Char)}
    (cut : l.Cut l.next gap lexeme) (h : Comments gap comments) :
    l.next.token.annotations = lastAnnotations comments := by
  rw [lastAnnotations, ← cut.doc h, Token.annotations]
  cases l.next.token.doc <;> rfl

/-- A token before the end of a text is annotated by the comments before it. -/
theorem annotatedBefore_after (text : String) (i : Nat)
    (started : ((ofString text).after (i + 1)).token.kind ≠ .endOfFile) :
    AnnotatedBefore text ((ofString text).after (i + 1)).token.kind
      ((ofString text).after (i + 1)).token.span.start
      ((ofString text).after (i + 1)).token.annotations := by
  rw [after_succ] at started ⊢
  obtain ⟨front, read⟩ := hasRead_after text i
  obtain ⟨gap, lexeme, cut⟩ := exists_cut ((ofString text).after i)
  obtain ⟨comments, made⟩ := exists_comments (cut.separates started)
  exact ⟨i, front, gap, lexeme, comments, read.continues cut, rfl, rfl, made, cut.annotations made⟩

/-- Tokens that start at the same offset are the same, as a token before the end
    of a text takes some of it. -/
theorem not_lt_of_start_eq
    (same : ((ofString text).after i).next.token.span.start =
      ((ofString text).after j).next.token.span.start)
    (started : ((ofString text).after i).next.token.kind ≠ .endOfFile) : ¬ i < j := by
  intro lt
  have before := (ofString text).stop_le_start lt
  have filled : ((ofString text).after i).next.token.span.start <
      ((ofString text).after i).next.token.span.stop := (behind_next _).lt started
  rw [after_succ, after_succ] at before
  omega

end Lexer

/-- The comments before a token tell its annotations. -/
theorem AnnotatedBefore.unique {text : String} {kind : Kind} {start : Nat} {flags other : Flags}
    (h : AnnotatedBefore text kind start flags) (h' : AnnotatedBefore text kind start other)
    (started : kind ≠ .endOfFile) : flags = other := by
  obtain ⟨i, front, gap, lexeme, comments, place, rfl, rfl, made, rfl⟩ := h
  obtain ⟨j, front', gap', lexeme', comments', place', kinds, same, made', rfl⟩ := h'
  have le := Lexer.not_lt_of_start_eq same.symm started
  have ge := Lexer.not_lt_of_start_eq same (kinds ▸ started)
  obtain rfl : i = j := by omega
  obtain ⟨_, read⟩ := Lexer.hasRead_after text i
  rw [← (place.cut read).annotations made, ← (place'.cut read).annotations made']

/-- The comments before a token give it its annotations and no others. -/
theorem Lexer.annotatedBefore_iff (text : String) (i : Nat) {kind : Kind} {flags : Flags}
    (named : ((ofString text).after (i + 1)).token.kind = kind) (started : kind ≠ .endOfFile) :
    AnnotatedBefore text kind ((ofString text).after (i + 1)).token.span.start flags ↔
      flags = ((ofString text).after (i + 1)).token.annotations := by
  subst named
  have annotated := annotatedBefore_after text i started
  constructor
  · exact fun h => h.unique annotated started
  · rintro rfl
    exact annotated

namespace Grammar

variable {e : Setting} {s t : State} {ns : List Node} {owed : List Feature} {text : String}

/-! ## Annotations of a run -/

/-- Whether a node was completed at a token that a state leads to: it has the
    annotations that its construct has there, and starts there if it declares. -/
def Begun (s : State) (n : Node) : Prop :=
  ∃ k, n.shape.Annotated (s.lexer.after k) n.flags ∧
    (n.shape.declares = true → n.span.start = (s.lexer.after k).token.span.start)

/-- What declares nothing has no annotations wherever it begins. -/
theorem Begun.of_plain {i : Nat} {span : Span} {sh : Shape Node} (plain : sh.declares = false) :
    Begun s (.mk i span Flags.none sh) :=
  ⟨0, (Shape.annotated_none_iff plain).mpr rfl, fun declares => absurd declares (by
    rw [Node.shape, plain]
    exact Bool.false_ne_true)⟩

theorem Begun.earlier {n : Node} (h : Begun t n) (later : ∃ k, t.lexer = s.lexer.after k) :
    Begun s n := by
  obtain ⟨m, later⟩ := later
  obtain ⟨k, annotated, starts⟩ := h
  rw [later, ← Lexer.after_add] at annotated starts
  exact ⟨m + k, annotated, starts⟩

/-- Every node that a run completes has the annotations of its construct at the
    token that it begins at. -/
theorem Reads.begun (h : Reads e s ns owed t) : ∀ n ∈ ns, ∀ m ∈ n.postorder, Begun s m := by
  induction h with
  | nil | taken | noted | reported | demanded => exact List.forall_mem_nil _
  | append first _ ih ih' =>
      refine List.forall_mem_append.mpr ⟨ih, fun n hn m hm => ?_⟩
      exact (ih' n hn m hm).earlier first.lexer
  | reportedAt _ _ _ ih => exact ih
  | missing =>
      exact List.forall_mem_singleton.mpr (Node.forall_postorder_mk.mpr ⟨nofun, .of_plain rfl⟩)
  | token _ h =>
      refine List.forall_mem_singleton.mpr (Node.forall_postorder_mk.mpr ⟨?_, ?_⟩)
      · rw [h.parts]
        exact List.forall_mem_nil _
      · exact .of_plain h.declares
  | shorthand _ _ ih =>
      refine List.forall_mem_cons.mpr ⟨ih _ (List.mem_singleton_self _), ?_⟩
      exact List.forall_mem_singleton.mpr (Node.forall_postorder_mk.mpr ⟨nofun, .of_plain rfl⟩)
  | node _ _ _ annotated ih =>
      -- a construct begins at the token that its run started at
      refine List.forall_mem_singleton.mpr (Node.forall_postorder_mk.mpr ⟨ih, ?_⟩)
      exact ⟨0, annotated, fun _ => rfl⟩

/-- A reading comes to the tokens of its text behind the first one. -/
theorem start_after (text : String) (k : Nat) :
    (State.start text.toList).lexer.after k = (Lexer.ofString text).after (k + 1) := rfl

theorem parse_begun (level : LanguageLevel) (text : String) :
    ∀ n ∈ (parse level text).root.postorder, Begun (State.start text.toList) n := by
  obtain ⟨statements, t, run, read⟩ := exists_reads level text
  rw [parse_eq_reading, read]
  exact Node.forall_postorder_mk.mpr ⟨run.begun, .of_plain rfl⟩

/-! ## Annotations of a text -/

/-- Whether the annotations of a node are told by the comments of its text.  A
    function or a class has those before its word.  A variable has those before
    the word of the statement that declares it, and those before its name. -/
def AnnotatedIn (text : String) (root n : Node) : Prop :=
  match n.shape with
  | .functionDeclaration _ _ _ =>
      ∀ f, AnnotatedBefore text (.keyword .functionWord) n.span.start f ↔ f = n.flags
  | .classDeclaration _ _ _ =>
      ∀ f, AnnotatedBefore text (.keyword .classWord) n.span.start f ↔ f = n.flags
  | .variableDeclaration name _ =>
      ∃ statement ∈ root.postorder, ∃ kind declarations word inherited own,
        statement.shape = .variableStatement kind declarations ∧ n ∈ declarations ∧
        variableKind? word = some kind ∧
        (∀ f, AnnotatedBefore text word statement.span.start f ↔ f = inherited) ∧
        (∀ f, AnnotatedBefore text .identifier name.span.start f ↔ f = own) ∧
        n.flags = inherited.union own
  | _ => n.flags = Flags.none

/-- A declaration of a variable is a part of a statement. -/
theorem exists_statement {level : LanguageLevel} {text : String}
    (clean : (parse level text).faults = []) {n : Node}
    (hn : n ∈ (parse level text).root.postorder) (declares : n.shape.isDeclarator = true) :
    ∃ s ∈ (parse level text).root.postorder, ∃ kind declarations,
      s.shape = .variableStatement kind declarations ∧ n ∈ declarations := by
  have sound := root_sound clean
  rcases Node.eq_or_exists_whole hn with rfl | ⟨s, hs, child⟩
  · obtain ⟨statements, t, -, read⟩ := exists_reads level text
    rw [parse_eq_reading, read] at declares
    cases declares
  · obtain ⟨kind, declarations, same⟩ := (sound s hs).whole.of_isDeclarator child declares
    rw [Node.children, same] at child
    exact ⟨s, hs, kind, declarations, same, child⟩

/-- In a text in which nothing is wrong, annotations are found on declarations
    of variables, functions and classes only, and each declaration has exactly
    those that the last documentation comment directly before it gives: before
    its word if it is a function or a class, and before the word of its
    statement or its own name if it is a variable. -/
theorem annotations_of_comments {level : LanguageLevel} {text : String}
    (clean : (parse level text).faults = []) :
    ∀ n ∈ (parse level text).root.postorder, AnnotatedIn text (parse level text).root n := by
  intro n hn
  obtain ⟨k, annotated, starts⟩ := parse_begun level text n hn
  rw [start_after] at annotated starts
  obtain ⟨i, span, flags, sh⟩ := n
  cases sh with
  | functionDeclaration =>
      obtain ⟨named, rfl⟩ := annotated
      intro f
      rw [starts rfl]
      exact Lexer.annotatedBefore_iff text k named nofun
  | classDeclaration =>
      obtain ⟨named, rfl⟩ := annotated
      intro f
      rw [starts rfl]
      exact Lexer.annotatedBefore_iff text k named nofun
  | variableDeclaration name value =>
      obtain ⟨s, hs, kind, declarations, same, child⟩ := exists_statement clean hn rfl
      -- what a variable inherits is told where its statement begins
      obtain ⟨m, annotated, starts⟩ := parse_begun level text s hs
      rw [start_after, same] at annotated starts
      obtain ⟨word, -, declared⟩ := annotated
      obtain ⟨j, _, _, shape, here, identifier, flagged⟩ := declared _ child
      cases shape
      rw [← Lexer.after_add, Nat.add_right_comm] at here identifier flagged
      have named := identifier (root_sound clean _ hn).whole.1
      refine ⟨s, hs, kind, declarations, _, _, _, same, child, word, fun f => ?_, fun f => ?_,
        flagged⟩
      · rw [starts rfl]
        refine Lexer.annotatedBefore_iff text m rfl fun atEnd => ?_
        rw [atEnd] at word
        cases word
      · rw [here]
        exact Lexer.annotatedBefore_iff text (m + j) named nofun
  | variableStatement => exact annotated.2.1
  | _ => exact annotated

/-- One comment stands before the word, one before the name, and one before
    neither. -/
theorem annotations_of_comments_both :
    (parse .es3 "/** @const */ var /** @suppress {duplicate} */ a /** @define */;").faults = [] ∧
      ∃ n ∈ (parse .es3
          "/** @const */ var /** @suppress {duplicate} */ a /** @define */;").root.postorder,
        n.flags = ⟨true, true, false, false⟩ ∧
        AnnotatedIn "/** @const */ var /** @suppress {duplicate} */ a /** @define */;"
          (parse .es3
            "/** @const */ var /** @suppress {duplicate} */ a /** @define */;").root n := by
  have clean : (parse .es3
      "/** @const */ var /** @suppress {duplicate} */ a /** @define */;").faults = [] := by
    decide +kernel
  obtain ⟨n, hn, flagged⟩ : ∃ n ∈ (parse .es3
      "/** @const */ var /** @suppress {duplicate} */ a /** @define */;").root.postorder,
      n.flags = ⟨true, true, false, false⟩ := by
    decide +kernel
  exact ⟨clean, n, hn, flagged, annotations_of_comments clean n hn⟩

end Grammar

end DeclCheck
