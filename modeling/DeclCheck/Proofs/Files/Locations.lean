import DeclCheck.Files.Tree
import DeclCheck.Proofs.Files.Pieces

/-! # Where paths lead

    A path is followed piece by piece, and the place it leads to is named by
    pieces that lead somewhere.  Nothing but its names tells a file, so all
    paths to it have one canonical path, and the paths to other files and to
    directories have others, even up to void pieces.

    A path that is read from the directory of a file is followed from there. -/

namespace DeclCheck.FileTree

open DeclCheck.Path

variable {t : FileTree} {path : String} {place target : Location} {names : List String}

/-! ## Places -/

/-- A name in a path: a piece that leads somewhere. -/
def IsNameIn (name : String) : Prop := IsPiece name ∧ isVoid name = false

/-- What holds of the places that paths lead to.  A file has its names; a
    directory has no file on its way. -/
def Sound (t : FileTree) : Location → Prop
  | .file names => (t.bytes? names).isSome = true ∧ names ≠ [] ∧ ∀ n ∈ names, IsNameIn n
  | .directory names =>
      (∀ front, front <+: names → front ≠ [] → t.bytes? front = none) ∧ ∀ n ∈ names, IsNameIn n
  | .above => True

/-- What has bytes is a file of the tree. -/
theorem mem_of_bytes? (there : (t.bytes? names).isSome = true) :
    names ∈ t.files.map Prod.fst := by
  by_contra missing
  have none_ : t.bytes? names = none := List.lookup_eq_none_iff.mpr fun file mem =>
    bne_iff_ne.mpr fun same => missing (List.mem_map.mpr ⟨file, mem, same.symm⟩)
  rw [none_] at there
  cases there

/-- Above a directory of the tree are the directories on the way to it. -/
theorem above_cases (t : FileTree) (names : List String) :
    t.above names = .above ∨ ∃ front, t.above names = .directory front ∧ front <+: names := by
  unfold FileTree.above
  split
  · exact .inr ⟨[], rfl, List.prefix_rfl⟩
  · exact .inl rfl
  · exact .inr ⟨_, rfl, List.dropLast_prefix _⟩

/-- What is above a sound place is sound. -/
theorem Sound.above (h : t.Sound (.directory names)) : t.Sound (t.above names) := by
  rcases above_cases t names with top | ⟨front, eq, before⟩
  · rw [top]
    trivial
  · rw [eq]
    exact ⟨fun other fits => h.1 other (fits.trans before), fun n mem => h.2 n (before.subset mem)⟩

/-- What is entered by a sound name is sound. -/
theorem Sound.enter (h : t.Sound (.directory names)) {piece : String} (fits : IsNameIn piece)
    (result : t.enter names piece = .ok target) : t.Sound target := by
  have known : ∀ n ∈ names ++ [piece], IsNameIn n :=
    List.forall_mem_append.mpr ⟨h.2, List.forall_mem_singleton.mpr fits⟩
  rw [FileTree.enter] at result
  split at result
  next file =>
    cases result
    exact ⟨file, List.append_ne_nil_of_right_ne_nil _ (List.cons_ne_nil _ _), known⟩
  next noFile =>
    split at result
    next =>
      cases result
      refine ⟨fun front before some_ => ?_, known⟩
      rcases List.prefix_concat_iff.mp before with rfl | before
      · exact Option.not_isSome_iff_eq_none.mp noFile
      · exact h.1 front before some_
    next => cases result

/-- Every step leads from a sound place to one. -/
theorem Sound.step (h : t.Sound place) {piece : String} (fits : IsPiece piece)
    (result : t.step place piece = .ok target) : t.Sound target := by
  cases place with
  | file names => cases result
  | above =>
      rw [FileTree.step] at result
      split at result
      · cases result
        trivial
      · split at result <;> cases result
  | directory names =>
      rw [FileTree.step] at result
      split at result
      next =>
        cases result
        exact h
      next solid =>
        split at result
        next =>
          cases result
          exact h.above
        next =>
          split at result
          next => cases result
          next => exact h.enter ⟨fits, Bool.eq_false_iff.mpr solid⟩ result

/-- Pieces are followed to their end if those in front lead to a place and those
    behind go on from it. -/
theorem foldlM_append_ok {front back : List String} :
    (front ++ back).foldlM t.step place = .ok target ↔
      ∃ between, front.foldlM t.step place = .ok between ∧
        back.foldlM t.step between = .ok target := by
  rw [List.foldlM_append]
  cases front.foldlM t.step place with
  | error e =>
      constructor
      · intro h
        cases h
      · rintro ⟨_, h, -⟩
        cases h
  | ok between =>
      refine ⟨fun h => ⟨between, rfl, h⟩, fun ⟨_, same, h⟩ => ?_⟩
      cases same
      exact h

/-- A single piece is a single step. -/
theorem foldlM_singleton {piece : String} : [piece].foldlM t.step place = t.step place piece := by
  rw [List.foldlM_cons]
  cases t.step place piece <;> rfl

/-- A way succeeds if its first step and the rest do. -/
theorem foldlM_cons_ok {piece : String} {rest : List String} :
    (piece :: rest).foldlM t.step place = .ok target ↔
      ∃ between, t.step place piece = .ok between ∧ rest.foldlM t.step between = .ok target := by
  rw [← List.singleton_append, foldlM_append_ok, foldlM_singleton]

/-- So every way does. -/
theorem Sound.foldlM (h : t.Sound place) {pieces : List String} (fit : ∀ p ∈ pieces, IsPiece p)
    (result : pieces.foldlM t.step place = .ok target) : t.Sound target := by
  induction pieces generalizing place with
  | nil =>
      cases result
      exact h
  | cons piece rest ih =>
      obtain ⟨here, there⟩ := List.forall_mem_cons.mp fit
      obtain ⟨between, first, rest⟩ := foldlM_cons_ok.mp result
      exact ih (h.step here first) there rest

/-- Nothing comes back from above the root. -/
theorem foldlM_above {pieces : List String} (result : pieces.foldlM t.step .above = .ok target) :
    target = .above := by
  induction pieces with
  | nil =>
      cases result
      rfl
  | cons piece rest ih =>
      obtain ⟨between, first, rest⟩ := foldlM_cons_ok.mp result
      rw [step] at first
      split at first
      · cases first
        exact ih rest
      · split at first <;> cases first

/-! ## Where paths start -/

/-- A path starts at the top of the tree if its first piece is the root of the
    tree, and at the working directory if it is relative in a file system. -/
theorem start_directory {walk : List String} :
    t.start path = .ok (.directory [], walk) ↔
      pieces path = t.root :: walk ∧ (walk = [] → ∃ root, t.ground = .under root) ∨
      (∃ working, t.ground = .system working) ∧ isAbsolute path = false ∧ path ≠ "" ∧
        t.working ++ pieces path = walk := by
  rw [start, root, working]
  cases t.ground with
  | system working =>
      cases absolute : isAbsolute path with
      | true =>
          obtain ⟨second, rest, cut⟩ := isAbsolute_iff.mp absolute
          have long : second :: rest = walk → walk ≠ [] := fun same => same ▸ List.cons_ne_nil _ _
          simpa [cut] using long
      | false =>
          have notTop : ¬ (pieces path = "" :: walk ∧ walk ≠ []) := by
            rintro ⟨cut, some_⟩
            obtain ⟨second, rest, rfl⟩ := List.exists_cons_of_ne_nil some_
            exact Bool.false_ne_true (absolute.symm.trans (isAbsolute_iff.mpr ⟨_, _, cut⟩))
          by_cases blank : path = ""
          · subst blank
            simpa using notTop
          · simpa [blank] using fun cut none_ => absurd ⟨cut, none_⟩ notTop
  | under root =>
      cases cut : pieces path with
      | nil => exact absurd cut (pieces_ne_nil path)
      | cons first rest =>
          by_cases same : first = root
          · simp [same]
          · cases isAbsolute path <;> simp [same]

/-- A way starts at the root or above it. -/
theorem start_cases {walk : List String} (begins : t.start path = .ok (place, walk)) :
    place = .directory [] ∨ place = .above := by
  rw [start] at begins
  split at begins
  · split at begins
    · cases begins
      exact .inl rfl
    · split at begins <;> cases begins
      exact .inl rfl
  · split at begins
    · cases begins
    · split at begins
      · cases begins
        exact .inl rfl
      · split at begins <;> cases begins
        exact .inr rfl

/-- What does not lie above the tree is reached from its top. -/
theorem exists_start (result : t.follow path = .ok place) (below : place ≠ .above) :
    ∃ walk, t.start path = .ok (.directory [], walk) ∧
      walk.foldlM t.step (.directory []) = .ok place := by
  rw [follow] at result
  cases begins : t.start path with
  | error e =>
      rw [begins] at result
      cases result
  | ok begin_ =>
      obtain ⟨from_, walk⟩ := begin_
      rw [begins] at result
      rcases start_cases begins with rfl | rfl
      · exact ⟨walk, rfl, result⟩
      · exact absurd (foldlM_above result) below

/-- From the root a path is followed by its pieces. -/
theorem follow_of_start {walk : List String} (begins : t.start path = .ok (.directory [], walk)) :
    t.follow path = walk.foldlM t.step (.directory []) := by
  rw [follow, begins]
  rfl

/-- The names of a path are pieces. -/
theorem isPiece_of_mem_namesOf {n : String} (mem : n ∈ namesOf path) : IsPiece n :=
  isPiece_of_mem_pieces (List.mem_filter.mp mem).1

/-- So are those of the working directory. -/
theorem isPiece_of_mem_working {n : String} (mem : n ∈ t.working) : IsPiece n := by
  rw [working] at mem
  split at mem
  · exact isPiece_of_mem_namesOf mem
  · cases mem

/-- The root of a tree is a piece if a path starts in the tree, and so are the
    pieces by which it is followed. -/
theorem isPiece_of_start {walk : List String} (begins : t.start path = .ok (.directory [], walk)) :
    IsPiece t.root ∧ ∀ p ∈ walk, IsPiece p := by
  rcases start_directory.mp begins with ⟨cut, -⟩ | ⟨⟨working, system⟩, -, -, rfl⟩
  · have parts : ∀ p ∈ t.root :: walk, IsPiece p := fun p mem => isPiece_of_mem_pieces (cut ▸ mem)
    exact List.forall_mem_cons.mp parts
  · refine ⟨?_, List.forall_mem_append.mpr ⟨fun p => isPiece_of_mem_working, fun p =>
      isPiece_of_mem_pieces⟩⟩
    rw [root, system]
    exact List.not_mem_nil

/-! ## Paths of files -/

/-- What a path leads to has sound names, and the root is a piece. -/
theorem sound_of_follow (result : t.follow path = .ok place) (below : place ≠ .above) :
    t.Sound place ∧ IsPiece t.root := by
  obtain ⟨walk, begins, result⟩ := exists_start result below
  obtain ⟨root, parts⟩ := isPiece_of_start begins
  have top : t.Sound (.directory []) :=
    ⟨fun front before some_ => absurd (List.prefix_nil.mp before) some_, List.forall_mem_nil _⟩
  exact ⟨top.foldlM parts result, root⟩

/-- What is located is what is followed to. -/
theorem follow_of_locate (result : t.locate path = .ok place) : t.follow path = .ok place := by
  rw [locate] at result
  split at result
  next => exact result
  next => cases result

/-- A path is written with its names behind the root, but for that of the root
    itself. -/
theorem pathOf_cases (t : FileTree) (names : List String) :
    names = [] ∧ t.pathOf names = "/" ∨ t.pathOf names = "/".intercalate (t.root :: names) := by
  unfold pathOf
  split
  · exact .inl ⟨rfl, rfl⟩
  · exact .inr rfl

/-- Names that are sound can be read off their path. -/
theorem steps_pathOf (root : IsPiece t.root) (named : ∀ n ∈ names, IsNameIn n) :
    (steps (t.pathOf names)).tail = names := by
  rcases pathOf_cases t names with ⟨rfl, path⟩ | path
  · rw [path]
    rfl
  · have cut : pieces ("/".intercalate (t.root :: names)) = t.root :: names :=
      pieces_intercalate (List.cons_ne_nil _ _)
        (List.forall_mem_cons.mpr ⟨root, fun n mem => (named n mem).1⟩)
    rw [path, steps, cut]
    exact List.filter_eq_self.mpr fun n mem => by rw [(named n mem).2]; rfl

/-- A path is written like itself. -/
theorem alike_refl (path : String) : alike path path = true := beq_self_eq_true _

/-- Whether a path leads to nothing in the tree. -/
def Misses (t : FileTree) (path : String) : Prop :=
  ∀ names, t.locate path ≠ .ok (.file names) ∧ t.locate path ≠ .ok (.directory names)

/-- The canonical path of a file is that of its names. -/
theorem canonical_file (leads : t.locate path = .ok (.file names)) :
    t.canonical path = t.pathOf names := by
  rw [canonical, leads]

/-- So is that of a directory. -/
theorem canonical_directory (leads : t.locate path = .ok (.directory names)) :
    t.canonical path = t.pathOf names := by
  rw [canonical, leads]

/-- A path that leads to nothing is kept as it is written. -/
theorem canonical_of_misses (misses : t.Misses path) : t.canonical path = path := by
  rw [canonical]
  split
  next names leads => exact absurd leads (misses names).1
  next names leads => exact absurd leads (misses names).2
  next => rfl

/-- The canonical path of a file is one that no other file and no directory has,
    even up to void pieces.  A path that leads to nothing is taken for it if it
    is written like it. -/
theorem alike_canonical {earlier : String} (leads : t.locate earlier = .ok (.file names)) :
    alike (t.canonical path) (t.canonical earlier) = true ↔
      t.locate path = .ok (.file names) ∨
        t.Misses path ∧ alike path (t.pathOf names) = true := by
  obtain ⟨⟨known, some_, named⟩, root⟩ := sound_of_follow (follow_of_locate leads) (by simp)
  have written {others : List String} (fit : ∀ n ∈ others, IsNameIn n)
      (same : alike (t.pathOf others) (t.pathOf names) = true) : others = names := by
    have same := congrArg List.tail (eq_of_beq same)
    rwa [steps_pathOf root fit, steps_pathOf root named] at same
  rw [canonical_file leads]
  constructor
  · intro same
    by_cases misses : t.Misses path
    · rw [canonical_of_misses misses] at same
      exact .inr ⟨misses, same⟩
    · obtain ⟨others, found⟩ := not_forall.mp misses
      rcases not_and_or.mp found with found | found
      · have found := not_not.mp found
        obtain ⟨⟨-, -, fit⟩, -⟩ := sound_of_follow (follow_of_locate found) (by simp)
        rw [canonical_file found] at same
        exact .inl (found.trans (by rw [written fit same]))
      · -- no directory has the names of a file
        have found := not_not.mp found
        obtain ⟨⟨open_, fit⟩, -⟩ := sound_of_follow (follow_of_locate found) (by simp)
        rw [canonical_directory found] at same
        cases written fit same
        rw [open_ names List.prefix_rfl some_] at known
        cases known
  · rintro (here | ⟨misses, same⟩)
    · rw [canonical_file here]
      exact alike_refl _
    · rwa [canonical_of_misses misses]

/-! ## Paths read from the directory of a file -/

/-- Where a path leads that is followed from a directory of the tree. -/
def followFrom (t : FileTree) (directory : List String) (path : String) :
    Except FileError Location :=
  (pieces path).foldlM t.step (.directory directory)

/-- Void pieces do not leave a directory, and nothing comes back to one from a
    file or from above. -/
theorem foldlM_void {pieces : List String} (void : ∀ p ∈ pieces, isVoid p = true)
    {directory : List String} (result : pieces.foldlM t.step place = .ok (.directory directory)) :
    place = .directory directory := by
  induction pieces generalizing place with
  | nil =>
      cases result
      rfl
  | cons piece rest ih =>
      obtain ⟨here, there⟩ := List.forall_mem_cons.mp void
      obtain ⟨between, first, rest⟩ := foldlM_cons_ok.mp result
      cases ih there rest
      cases place with
      | file names => cases first
      | above =>
          have stays := foldlM_above (foldlM_singleton.trans first)
          cases stays
      | directory names =>
          rw [step, here] at first
          cases first
          rfl

/-- A file is entered from its directory by its name. -/
theorem step_file {piece : String} (result : t.step place piece = .ok (.file names)) :
    ∃ directory, place = .directory directory ∧ isVoid piece = false ∧
      names = directory ++ [piece] := by
  cases place with
  | file others => cases result
  | above =>
      have stays := foldlM_above (foldlM_singleton.trans result)
      cases stays
  | directory directory =>
      rw [step] at result
      split at result
      next => cases result
      next solid =>
        refine ⟨directory, rfl, Bool.eq_false_iff.mpr solid, ?_⟩
        split at result
        next =>
          rcases above_cases t directory with top | ⟨front, inside, -⟩
          · rw [top] at result
            cases result
          · rw [inside] at result
            cases result
        next =>
          split at result
          next => cases result
          next =>
            rw [enter] at result
            split at result
            next =>
              cases result
              rfl
            next => split at result <;> cases result

/-- The void pieces at the end of a way to a directory can be left out. -/
theorem foldlM_rdropWhile {front walk directory : List String}
    (upTo : (front ++ walk).foldlM t.step place = .ok (.directory directory)) :
    (front ++ walk.rdropWhile isVoid).foldlM t.step place = .ok (.directory directory) := by
  rw [← List.rdropWhile_append_rtakeWhile (p := isVoid) (l := walk), ← List.append_assoc] at upTo
  obtain ⟨between, kept, void⟩ := foldlM_append_ok.mp upTo
  cases foldlM_void (fun p mem => List.mem_rtakeWhile_imp mem) void
  exact kept

section Parent

variable {directory : List String} {name : String}

/-- A path that starts where a way to a directory does is followed from the
    directory if it goes on where the way ends, but for void pieces. -/
theorem follow_of_upTo (front walk : List String) {other : List String} {joined : String}
    (upTo : (front ++ walk).foldlM t.step (.directory []) = .ok (.directory directory))
    (begins : t.start joined = .ok (.directory [], front ++ walk.rdropWhile isVoid ++ other)) :
    t.follow joined = other.foldlM t.step (.directory directory) := by
  rw [follow_of_start begins, List.foldlM_append, foldlM_rdropWhile upTo]
  rfl

/-- The parent of a path from the root leads to the directory before the last piece. -/
theorem follow_parent_of_root {mid : List String} (cut : pieces path = t.root :: (mid ++ [name]))
    (solid : isVoid name = false)
    (upTo : mid.foldlM t.step (.directory []) = .ok (.directory directory)) :
    ∃ parent, parent? path = some parent ∧ ∀ other, isAbsolute other = false →
      t.follow (join parent other) = t.followFrom directory other := by
  obtain ⟨parent, parent_eq, joined⟩ := pieces_join_parent cut solid
  refine ⟨parent, parent_eq, fun other relative => ?_⟩
  refine follow_of_upTo [] mid upTo
    (start_directory.mpr (.inl ⟨joined other relative, fun none_ => ?_⟩))
  exact absurd (List.append_eq_nil_iff.mp none_).2 (pieces_ne_nil other)

variable (system : ∃ working, t.ground = .system working)

include system

/-- The parent of a single piece is empty, where paths are read as they are. -/
theorem follow_parent_of_piece {other : String} (relative : isAbsolute other = false)
    (upTo : t.working.foldlM t.step (.directory []) = .ok (.directory directory)) :
    t.follow (join "" other) = t.followFrom directory other ∨
      other = "" ∧ t.follow (join "" other) = .error .notFound := by
  rw [join_empty]
  by_cases blank : other = ""
  · subst blank
    refine .inr ⟨rfl, ?_⟩
    obtain ⟨working, system⟩ := system
    rw [follow, start, system]
    rfl
  · refine .inl (follow_of_upTo t.working [] ?_
      (start_directory.mpr (.inr ⟨system, relative, blank, ?_⟩)))
    · rwa [List.append_nil]
    · rw [List.rdropWhile_nil, List.append_nil]

/-- The parent of a longer relative path leads to the directory before the last piece. -/
theorem follow_parent_of_pieces {first : String} {mid : List String}
    (relative : isAbsolute path = false) (cut : pieces path = first :: (mid ++ [name]))
    (solid : isVoid name = false)
    (upTo : (t.working ++ first :: mid).foldlM t.step (.directory []) =
      .ok (.directory directory)) :
    ∃ parent, parent? path = some parent ∧ ∀ other, isAbsolute other = false →
      t.follow (join parent other) = t.followFrom directory other := by
  obtain ⟨parent, parent_eq, joined⟩ := pieces_join_parent cut solid
  refine ⟨parent, parent_eq, fun other isRelative => ?_⟩
  have stays : isAbsolute (join parent other) = false := by
    rw [← Bool.not_eq_true, isAbsolute_iff, joined other isRelative]
    rintro ⟨second, rest, starts⟩
    cases (List.cons.inj starts).1
    obtain ⟨second, rest, long⟩ : ∃ second rest, mid ++ [name] = second :: rest :=
      List.exists_cons_of_ne_nil (List.append_ne_nil_of_right_ne_nil mid (List.cons_ne_nil _ _))
    exact Bool.false_ne_true (relative.symm.trans (isAbsolute_iff.mpr ⟨_, _, long ▸ cut⟩))
  have some_ : join parent other ≠ "" := by
    intro blank
    have cut := joined other isRelative
    rw [blank] at cut
    exact pieces_ne_nil other (List.append_eq_nil_iff.mp (List.cons.inj cut).2.symm).2
  refine follow_of_upTo (t.working ++ [first]) mid ?_
    (start_directory.mpr (.inr ⟨system, stays, some_, ?_⟩))
  · rwa [List.append_assoc]
  · rw [joined other isRelative]
    simp

end Parent

/-- A file lies in the directory that the path of its parent leads to, and a
    path that is read from there is followed from that directory.  Only an empty
    path behind an empty one is not followed, and it leads to no file. -/
theorem exists_directory (leads : t.follow path = .ok (.file names)) :
    ∃ directory name parent, names = directory ++ [name] ∧ parent? path = some parent ∧
      ∀ other, isAbsolute other = false →
        t.follow (join parent other) = t.followFrom directory other ∨
          other = "" ∧ t.follow (join parent other) = .error .notFound := by
  obtain ⟨walk, begins, result⟩ := exists_start leads (by simp)
  -- the last piece enters the file from its directory
  obtain ⟨mid, name, rfl⟩ : ∃ mid name, walk = mid ++ [name] := by
    rcases List.eq_nil_or_concat' walk with rfl | ends
    · cases result
    · exact ends
  obtain ⟨between, upTo, last⟩ := foldlM_append_ok.mp result
  rw [foldlM_singleton] at last
  obtain ⟨directory, rfl, solid, rfl⟩ := step_file last
  refine ⟨directory, name, ?_⟩
  rcases start_directory.mp begins with ⟨cut, -⟩ | ⟨system, relative, -, cut⟩
  · obtain ⟨parent, parent_eq, follows⟩ := follow_parent_of_root cut solid upTo
    exact ⟨parent, rfl, parent_eq, fun other relative => .inl (follows other relative)⟩
  · rcases List.eq_nil_or_concat' (pieces path) with none_ | ⟨front, last, ends⟩
    · exact absurd none_ (pieces_ne_nil path)
    rw [ends, ← List.append_assoc] at cut
    obtain ⟨rfl, same⟩ := List.append_inj' cut rfl
    cases List.singleton_inj.mp same
    cases front with
    | nil =>
        rw [List.append_nil] at upTo
        exact ⟨"", rfl, parent?_of_name relative ends solid,
          fun other relative => follow_parent_of_piece system relative upTo⟩
    | cons first mid =>
        obtain ⟨parent, parent_eq, follows⟩ :=
          follow_parent_of_pieces system relative ends solid upTo
        exact ⟨parent, rfl, parent_eq, fun other relative => .inl (follows other relative)⟩

end DeclCheck.FileTree
