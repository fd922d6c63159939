import DeclCheck.Files.Path
import Mathlib.Data.List.DropRight

/-! # Pieces of paths

    A path is cut at its slashes, so its pieces tell it, and joining a path to
    the one of a directory puts its pieces behind those of the directory.  The
    directory of a file has the pieces in front of the last one, less the void
    ones at their end. -/

namespace DeclCheck.Path

variable {path : String}

/-- Whether a text can be a piece of a path: it holds no slash. -/
def IsPiece (piece : String) : Prop := '/' ∉ piece.toList

theorem piecesFrom_eq (current : List Char) (behind : List (List Char)) (cs : List Char) :
    piecesFrom current behind cs = (cs.splitOnPPrepend (· == '/') current).reverse ++ behind := by
  induction cs generalizing current behind with
  | nil => rfl
  | cons c rest ih =>
      rw [piecesFrom, List.splitOnPPrepend_cons_eq_if]
      split
      · rw [ih, List.splitOnPPrepend_nil_right, List.reverse_cons, List.append_assoc]
        rfl
      · exact ih _ _

theorem pieces_eq (path : String) :
    pieces path = (path.toList.splitOn '/').map String.ofList := by
  rw [pieces, piecesFrom_eq, List.append_nil, List.map_reverse, List.reverse_reverse]
  rfl

/-- No piece holds a slash. -/
theorem isPiece_of_mem_pieces {p : String} (mem : p ∈ pieces path) : IsPiece p := by
  have loose (current : List Char) (behind : List (List Char)) (cs : List Char)
      (here : '/' ∉ current) (there : ∀ l ∈ behind, '/' ∉ l) :
      ∀ l ∈ piecesFrom current behind cs, '/' ∉ l := by
    induction cs generalizing current behind with
    | nil => exact List.forall_mem_cons.mpr ⟨mt List.mem_reverse.mp here, there⟩
    | cons c rest ih =>
        rw [piecesFrom]
        split
        · exact ih _ _ List.not_mem_nil
            (List.forall_mem_cons.mpr ⟨mt List.mem_reverse.mp here, there⟩)
        · rename_i other
          refine ih _ _ (fun mem => ?_) there
          cases mem with
          | head => exact other (beq_self_eq_true _)
          | tail _ mem => exact here mem
  obtain ⟨l, among, rfl⟩ := List.mem_map.mp (List.mem_reverse.mp mem)
  rw [IsPiece, String.toList_ofList]
  exact loose [] [] path.toList List.not_mem_nil (List.forall_mem_nil _) l among

theorem pieces_ne_nil (path : String) : pieces path ≠ [] := by
  simp [pieces_eq]

/-- Pieces with slashes between them are the pieces of a path. -/
theorem pieces_intercalate {l : List String} (ne : l ≠ []) (ok : ∀ p ∈ l, IsPiece p) :
    pieces ("/".intercalate l) = l := by
  have cut : List.splitOn '/' (['/'].intercalate (l.map String.toList)) = l.map String.toList :=
    List.splitOn_intercalate '/' (List.forall_mem_map.mpr ok) (mt List.map_eq_nil_iff.mp ne)
  rw [pieces_eq, String.toList_intercalate, show "/".toList = ['/'] from rfl, cut, List.map_map]
  simp

theorem intercalate_pieces (path : String) : "/".intercalate (pieces path) = path := by
  rw [← String.toList_inj, String.toList_intercalate, pieces_eq, List.map_map,
    show "/".toList = ['/'] from rfl]
  simp [List.intercalate_splitOn]

theorem pieces_append (path other : String) :
    pieces (path ++ "/" ++ other) = pieces path ++ pieces other := by
  rw [pieces_eq, String.toList_append, String.toList_append, show "/".toList = ['/'] from rfl,
    List.append_assoc, List.singleton_append,
    List.splitOn_append_cons_of_beq _ _ (beq_self_eq_true _), List.map_append, ← pieces_eq,
    ← pieces_eq]

/-! ## The directory of a file -/

section Parent

variable {first name : String} {mid : List String}

/-- The first piece of a path that has more of them stands before a slash. -/
theorem eq_of_pieces {second : String} {rest : List String}
    (cut : pieces path = first :: second :: rest) :
    path = first ++ "/" ++ "/".intercalate (second :: rest) := by
  rw [← String.intercalate_cons_cons, ← cut, intercalate_pieces]

/-- An absolute path has an empty piece in front of others. -/
theorem isAbsolute_iff :
    isAbsolute path = true ↔ ∃ second rest, pieces path = "" :: second :: rest := by
  constructor
  · intro absolute
    obtain ⟨behind, cut⟩ := List.head?_eq_some_iff.mp (eq_of_beq absolute)
    have cut : path = "" ++ "/" ++ String.ofList behind := by
      rw [← String.toList_inj, cut]
      simp
    obtain ⟨second, rest, pieces_eq⟩ :=
      List.exists_cons_of_ne_nil (pieces_ne_nil (String.ofList behind))
    refine ⟨second, rest, ?_⟩
    rw [cut, pieces_append, pieces_eq]
    rfl
  · rintro ⟨second, rest, cut⟩
    rw [eq_of_pieces cut]
    simp [isAbsolute]

/-- A path whose last piece leads somewhere does not end in a slash. -/
theorem not_endsInSlash {last : String} (ends : (pieces path).getLast? = some last)
    (solid : isVoid last = false) : path ≠ "" ∧ path.toList.getLast? ≠ some '/' := by
  have void {last : String} (ends : (pieces "").getLast? = some last) : isVoid last = true := by
    cases ends
    rfl
  constructor
  · rintro rfl
    exact Bool.false_ne_true (solid.symm.trans (void ends))
  · intro slash
    obtain ⟨front, cut⟩ := List.getLast?_eq_some_iff.mp slash
    have cut : path = String.ofList front ++ "/" ++ "" := by
      rw [← String.toList_inj, String.toList_append, String.toList_append, String.toList_ofList,
        cut]
      simp
    rw [cut, pieces_append, List.getLast?_append_of_ne_nil _ (pieces_ne_nil "")] at ends
    exact Bool.false_ne_true (solid.symm.trans (void ends))

/-- A path read from a directory whose last piece leads somewhere. -/
theorem pieces_join {directory other last : String} (ends : (pieces directory).getLast? = some last)
    (solid : isVoid last = false) (relative : isAbsolute other = false) :
    pieces (join directory other) = pieces directory ++ pieces other := by
  obtain ⟨some_, open_⟩ := not_endsInSlash ends solid
  rw [join, relative]
  simp only [Bool.false_eq_true, if_false, beq_eq_false_iff_ne.mpr some_,
    beq_eq_false_iff_ne.mpr open_, Bool.or_self]
  exact pieces_append directory other

/-- A path read from where a path starts. -/
theorem pieces_join_origin {second other : String} {rest : List String}
    (cut : pieces path = first :: second :: rest) (void : isVoid first = true)
    (relative : isAbsolute other = false) :
    pieces (join (origin path) other) = first :: pieces other := by
  have written := eq_of_pieces cut
  rcases Bool.or_eq_true_iff.mp void with blank | dot
  · cases eq_of_beq blank
    have start : origin path = "/" := by
      rw [origin, if_pos]
      rw [written]
      simp [isAbsolute]
    have joined : join "/" other = "" ++ "/" ++ other := by simp [join, relative]
    rw [start, joined, pieces_append]
    rfl
  · cases eq_of_beq dot
    have start : origin path = "." := by
      rw [origin, if_neg, cut]
      · rfl
      · rw [written]
        simp [isAbsolute]
    have joined : join "." other = "." ++ "/" ++ other := by simp [join, relative]
    rw [start, joined, pieces_append]
    rfl

/-- Of the pieces in front of a name either the first one leads somewhere and is
    kept, or all those are kept that stand before the void ones at the end. -/
theorem rdropWhile_cons (first : String) (mid : List String) :
    (first :: mid).rdropWhile isVoid = first :: mid.rdropWhile isVoid ∨
      (first :: mid).rdropWhile isVoid = [] ∧ isVoid first = true ∧ mid.rdropWhile isVoid = [] := by
  rw [List.rdropWhile, List.reverse_cons, List.dropWhile_append]
  split
  next none_ =>
    have empty : mid.rdropWhile isVoid = [] :=
      List.reverse_eq_nil_iff.mpr (List.isEmpty_iff.mp none_)
    cases void : isVoid first with
    | true => exact .inr ⟨by simp [void], rfl, empty⟩
    | false => exact .inl (by simp [void, empty])
  next => exact .inl List.reverse_append

/-- A path read from the directory of a file starts where the path of the file
    does, goes on with the pieces between, and ends in its own ones. -/
theorem pieces_join_parent (cut : pieces path = first :: (mid ++ [name]))
    (solid : isVoid name = false) :
    ∃ directory, parent? path = some directory ∧
      ∀ other, isAbsolute other = false →
        pieces (join directory other) = first :: (mid.rdropWhile isVoid ++ pieces other) := by
  have trimmed_eq : trimmed path = name :: (first :: mid).reverse := by
    rw [trimmed, cut, ← List.cons_append, List.reverse_append, List.reverse_singleton,
      List.singleton_append, List.dropWhile_cons_of_neg (Bool.eq_false_iff.mp solid)]
  have parent_eq : parent? path = some
      (if ofReversed ((first :: mid).reverse.dropWhile isVoid) == "" then origin path
      else ofReversed ((first :: mid).reverse.dropWhile isVoid)) := by
    rw [parent?, trimmed_eq]
  refine ⟨_, parent_eq, fun other relative => ?_⟩
  rw [ofReversed, ← List.rdropWhile]
  rcases rdropWhile_cons first mid with kept | ⟨none_, void, empty⟩
  · -- the directory is written with the pieces that are kept
    have directory : pieces ("/".intercalate (first :: mid.rdropWhile isVoid)) =
        first :: mid.rdropWhile isVoid := by
      refine pieces_intercalate (List.cons_ne_nil _ _) fun p mem => ?_
      rw [← kept] at mem
      have inside : p ∈ pieces path := by
        rw [cut, ← List.cons_append]
        exact List.mem_append_left _ ((List.rdropWhile_prefix isVoid _).subset mem)
      exact isPiece_of_mem_pieces inside
    have some_ : (first :: mid).rdropWhile isVoid ≠ [] := kept ▸ List.cons_ne_nil _ _
    obtain ⟨last, ends, solid⟩ : ∃ last, ((first :: mid).rdropWhile isVoid).getLast? = some last ∧
        isVoid last = false :=
      ⟨_, List.getLast?_eq_some_getLast some_,
        Bool.eq_false_iff.mpr (List.rdropWhile_last_not isVoid _ some_)⟩
    rw [kept, ← directory] at ends
    rw [kept, if_neg (mt eq_of_beq (not_endsInSlash ends solid).1),
      pieces_join ends solid relative, directory, List.cons_append]
  · -- nothing is kept, and the directory is where the path starts
    obtain ⟨second, rest, behind⟩ := List.exists_cons_of_ne_nil
      (List.append_ne_nil_of_right_ne_nil mid (List.cons_ne_nil name []))
    rw [behind] at cut
    rw [none_, empty]
    exact pieces_join_origin cut void relative

/-- The parent of a relative path with one piece is empty. -/
theorem parent?_of_name (relative : isAbsolute path = false) (cut : pieces path = [name])
    (solid : isVoid name = false) : parent? path = some "" := by
  have trimmed_eq : trimmed path = [name] := by
    rw [trimmed, cut, List.reverse_singleton,
      List.dropWhile_cons_of_neg (Bool.eq_false_iff.mp solid)]
  have here : name ≠ "." := by
    rintro rfl
    exact Bool.false_ne_true (solid.symm.trans rfl)
  have origin_eq : origin path = "" := by
    rw [origin, relative, cut]
    simp [here]
  rw [parent?, trimmed_eq]
  simp [origin_eq, ofReversed]

end Parent

theorem join_empty (other : String) : join "" other = other := by
  rw [join]
  split <;> simp

end DeclCheck.Path
