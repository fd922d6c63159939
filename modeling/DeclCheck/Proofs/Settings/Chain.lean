import DeclCheck.Proofs.Files.Locations
import DeclCheck.Settings.Load
import Mathlib.Data.List.FinRange
import Mathlib.Data.List.Perm.Subperm

/-! # Chains of settings files

    A settings file leads to the base that it names, and that one to its own
    base.  The links of this chain before it comes back lead to different files
    of the tree, so it ends after as many links as there are files, at the
    latest: where it comes back to a file, at a file that cannot be read, or at
    one that names no base.

    A path that leads to nothing does not come back, but it can be written like
    the canonical path of a file in front of it.  It is mistaken for that file.

    Since a file that was read has a parent, the directory of a base is always
    known. -/

namespace DeclCheck.Settings

open DeclCheck.Path Document

variable {t : FileTree} {entry path : String} {d : Document} {j k n : Nat}

/-! ## Links -/

/-- The path of the base that a file names, if it can be read and names one. -/
def next? (t : FileTree) (path : String) : Option String :=
  match readFile t path with
  | .error _ => none
  | .ok d => d.base.bind fun base => (basePath path base).toOption

/-- The paths of a chain: that of its entry, and behind each one that of the
    base that its file names. -/
def link? (t : FileTree) (entry : String) : Nat → Option String
  | 0 => some entry
  | k + 1 => (link? t entry k).bind (next? t)

/-- The documents of a chain. -/
def document? (t : FileTree) (entry : String) (k : Nat) : Option Document :=
  (link? t entry k).bind fun path => (readFile t path).toOption

/-- Whether a chain comes back at a link: its path leads to the file that the
    path of an earlier link leads to. -/
def Returns (t : FileTree) (entry : String) (k : Nat) : Prop :=
  ∃ path, link? t entry k = some path ∧ ∃ j < k, ∃ earlier names, link? t entry j = some earlier ∧
    t.locate earlier = .ok (.file names) ∧ t.locate path = .ok (.file names)

/-- Whether a chain only seems to come back at a link: its path leads to nothing,
    but is written like the canonical path of the file of an earlier link, up to
    void pieces. -/
def Mistaken (t : FileTree) (entry : String) (k : Nat) : Prop :=
  ∃ path, link? t entry k = some path ∧ t.Misses path ∧
    ∃ j < k, ∃ earlier names, link? t entry j = some earlier ∧
      t.locate earlier = .ok (.file names) ∧ alike path (t.pathOf names) = true

/-- Whether a path is that of a base, as a file in a directory names it: the
    written path itself if it starts at the root, and otherwise one that leads
    where the written path leads from that directory.  Without a written path it
    may be empty, and leads to no file in any case. -/
def IsBase (t : FileTree) (directory : List String) (base path : String) : Prop :=
  let written := withDefaultExtension "json" base
  if isAbsolute written then path = written
  else t.follow path = t.followFrom directory written ∨
    written = "" ∧ t.follow path = .error .notFound

theorem exists_file_of_readText {text : String} (result : t.readText path = .ok text) :
    ∃ names, t.locate path = .ok (.file names) := by
  rw [FileTree.readText, FileTree.locateForReading] at result
  split at result
  next => cases result
  next names leads =>
    split at leads
    next => cases leads
    next named =>
      split at leads
      next => cases leads
      next =>
        have named : isName path = true := by simpa using named
        exact ⟨names, by rw [FileTree.locate, if_pos named, leads]⟩
  next => cases result

theorem exists_file (result : readFile t path = .ok d) :
    ∃ names, t.locate path = .ok (.file names) := by
  rw [readFile] at result
  split at result
  next => cases result
  next text read => exact exists_file_of_readText read

/-- The base that a file names is found from the directory of the file. -/
theorem exists_base (result : readFile t path = .ok d) (base : String) :
    ∃ directory name next, t.locate path = .ok (.file (directory ++ [name])) ∧
      basePath path base = .ok next ∧ IsBase t directory base next := by
  obtain ⟨names, leads⟩ := exists_file result
  obtain ⟨directory, name, parent, rfl, above, joined⟩ :=
    FileTree.exists_directory (FileTree.follow_of_locate leads)
  refine ⟨directory, name, _, leads, by rw [basePath, above], ?_⟩
  rw [IsBase]
  split
  next absolute => rw [join, if_pos absolute]
  next relative => exact joined _ (Bool.eq_false_iff.mpr relative)

theorem next?_of_read (result : readFile t path = .ok d) :
    next? t path = d.base.bind fun base => (basePath path base).toOption := by
  rw [next?, result]

/-- A link that leads on is that of a file that was read and names a base. -/
theorem exists_of_next? {next : String} (leads : next? t path = some next) :
    ∃ d base, readFile t path = .ok d ∧ d.base = some base ∧ basePath path base = .ok next := by
  rw [next?] at leads
  split at leads
  next => cases leads
  next d result =>
    obtain ⟨base, named, found⟩ := Option.bind_eq_some_iff.mp leads
    refine ⟨d, base, result, named, ?_⟩
    cases reached : basePath path base with
    | error e =>
        rw [reached] at found
        cases found
    | ok path =>
        rw [reached] at found
        cases found
        rfl

/-- A file that was read and leads on no more names no base. -/
theorem base_eq_none (result : readFile t path = .ok d) (last : next? t path = none) :
    d.base = none := by
  by_contra some_
  obtain ⟨base, named⟩ := Option.ne_none_iff_exists'.mp some_
  obtain ⟨-, -, next, -, found, -⟩ := exists_base result base
  rw [next?_of_read result, named, Option.bind_some, found] at last
  cases last

theorem link?_succ {next : String} : link? t entry (k + 1) = some next ↔
    ∃ path, link? t entry k = some path ∧ next? t path = some next :=
  Option.bind_eq_some_iff

/-- All links in front of one lead to files that were read. -/
theorem exists_earlier (link : link? t entry k = some path) (before : j < k) :
    ∃ earlier d, link? t entry j = some earlier ∧ readFile t earlier = .ok d := by
  induction k generalizing path with
  | zero => cases before
  | succ k ih =>
      obtain ⟨last, link, leads⟩ := link?_succ.mp link
      rcases Nat.lt_succ_iff_lt_or_eq.mp before with before | rfl
      · exact ih link before
      · obtain ⟨d, -, result, -⟩ := exists_of_next? leads
        exact ⟨last, d, link, result⟩

/-- What leads to nothing cannot be read. -/
theorem exists_error_of_misses (misses : t.Misses path) : ∃ e, t.readText path = .error e := by
  cases result : t.readText path with
  | error e => exact ⟨e, rfl⟩
  | ok text =>
      obtain ⟨names, leads⟩ := exists_file_of_readText result
      exact absurd leads (misses names).1

/-- A file that can be read is not mistaken for another one. -/
theorem not_mistaken_of_text {text : String} (link : link? t entry k = some path)
    (read : t.readText path = .ok text) : ¬ Mistaken t entry k := by
  rintro ⟨other, there, misses, -⟩
  cases Option.some.inj (link.symm.trans there)
  obtain ⟨e, failed⟩ := exists_error_of_misses misses
  cases read.symm.trans failed

theorem not_mistaken_of_read (link : link? t entry k = some path)
    (result : readFile t path = .ok d) : ¬ Mistaken t entry k := by
  rw [readFile] at result
  split at result
  next => cases result
  next text read => exact not_mistaken_of_text link read

/-- A chain does not go on behind a link that is mistaken for a file. -/
theorem not_mistaken (link : link? t entry k = some path) (before : j < k) :
    ¬ Mistaken t entry j := by
  obtain ⟨earlier, d, there, result⟩ := exists_earlier link before
  exact not_mistaken_of_read there result

/-! ## The end of a chain -/

/-- Before it comes back, a chain has no more links than there are files. -/
theorem le_of_fresh (link : link? t entry k = some path)
    (fresh : ∀ j < k, ¬ Returns t entry j) : k ≤ t.files.length := by
  have each (j : Fin k) : ∃ names earlier, link? t entry j = some earlier ∧
      t.locate earlier = .ok (.file names) := by
    obtain ⟨earlier, d, link, result⟩ := exists_earlier link j.isLt
    obtain ⟨names, leads⟩ := exists_file result
    exact ⟨names, earlier, link, leads⟩
  choose file earlier linked leads using each
  have apart {i j : Fin k} (lt : i < j) : file i ≠ file j := fun same =>
    fresh j j.isLt ⟨earlier j, linked j, i, lt, earlier i, file i, linked i, leads i,
      same ▸ leads j⟩
  have injective : Function.Injective file := by
    intro i j same
    rcases lt_trichotomy i j with lt | eq | gt
    · exact absurd same (apart lt)
    · exact eq
    · exact absurd same.symm (apart gt)
  have known : List.ofFn file ⊆ t.files.map Prod.fst := by
    intro names mem
    obtain ⟨j, rfl⟩ := List.mem_ofFn.mp mem
    have sound := FileTree.sound_of_follow (FileTree.follow_of_locate (leads j)) (by simp)
    exact FileTree.mem_of_bytes? sound.1.1
  have few := ((List.nodup_ofFn.mpr injective).subperm known).length_le
  rwa [List.length_ofFn, List.length_map] at few

/-- Every chain ends, and not after more links than there are files: it comes
    back, or a link leads on no more. -/
theorem exists_end (t : FileTree) (entry : String) :
    ∃ k path, link? t entry k = some path ∧ k ≤ t.files.length ∧ (∀ j < k, ¬ Returns t entry j) ∧
      (Returns t entry k ∨ next? t path = none) := by
  by_contra endless
  have goesOn (k : Nat) : ∃ path, link? t entry k = some path ∧ ∀ j < k, ¬ Returns t entry j := by
    induction k with
    | zero => exact ⟨entry, rfl, fun j before => absurd before (Nat.not_lt_zero j)⟩
    | succ k ih =>
        obtain ⟨path, link, fresh⟩ := ih
        have open_ : ¬ (Returns t entry k ∨ next? t path = none) := fun ends =>
          endless ⟨k, path, link, le_of_fresh link fresh, fresh, ends⟩
        obtain ⟨here, leads⟩ := not_or.mp open_
        obtain ⟨next, leads⟩ := Option.ne_none_iff_exists'.mp leads
        refine ⟨next, link?_succ.mpr ⟨path, link, leads⟩, fun j before => ?_⟩
        rcases Nat.lt_succ_iff_lt_or_eq.mp before with before | rfl
        · exact fresh j before
        · exact here
  obtain ⟨path, link, fresh⟩ := goesOn (t.files.length + 1)
  exact absurd (le_of_fresh link fresh) (Nat.not_succ_le_self _)

end DeclCheck.Settings
