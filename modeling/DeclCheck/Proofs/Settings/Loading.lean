import DeclCheck.Proofs.Settings.Chain
import DeclCheck.Proofs.Settings.Nearest

/-! # Loading settings files

    A load goes along the chain of its entry.  It is refused at the first link
    where the chain comes back, or is mistaken to come back, and fails at a file
    that cannot be read; if all files can be read, their documents are merged
    over each other, that of the entry on top, and resolved.  The bound on a load
    never matters, since every chain ends. -/

namespace DeclCheck.Settings

open DeclCheck.Path Document

variable {t : FileTree} {entry path : String} {d : Document} {j k n : Nat}

/-! ## Loading along a chain -/

/-- The canonical paths of the links in front of one, the last one first. -/
def visited (t : FileTree) (entry : String) (k : Nat) : List String :=
  ((List.range k).filterMap (link? t entry)).reverse.map t.canonical

/-- The documents of the links in front of one. -/
def documents (t : FileTree) (entry : String) (k : Nat) : List Document :=
  (List.range k).filterMap (document? t entry)

/-- A file that is linked is visited next. -/
theorem visited_succ (link : link? t entry k = some path) :
    visited t entry (k + 1) = t.canonical path :: visited t entry k := by
  rw [visited, List.range_succ, List.filterMap_append, List.filterMap_cons_some link,
    List.filterMap_nil, List.reverse_append, List.map_append]
  rfl

/-- Its document is the next one. -/
theorem documents_succ (link : link? t entry k = some path) (result : readFile t path = .ok d) :
    documents t entry (k + 1) = documents t entry k ++ [d] := by
  have here : document? t entry k = some d := by
    rw [document?, link, Option.bind_some, result]
    rfl
  rw [documents, List.range_succ, List.filterMap_append, List.filterMap_cons_some here,
    List.filterMap_nil]
  rfl

/-- What was visited is what earlier links lead to. -/
theorem mem_visited {name : String} : name ∈ visited t entry k ↔
    ∃ j < k, ∃ earlier, link? t entry j = some earlier ∧ t.canonical earlier = name := by
  simp only [visited, List.mem_map, List.mem_reverse, List.mem_filterMap, List.mem_range]
  constructor
  · rintro ⟨earlier, ⟨j, before, link⟩, named⟩
    exact ⟨j, before, earlier, link, named⟩
  · rintro ⟨j, before, earlier, link, named⟩
    exact ⟨earlier, ⟨j, before, link⟩, named⟩

/-- Whether a load is refused at a link. -/
def Refused (t : FileTree) (entry : String) (k : Nat) : Prop :=
  Returns t entry k ∨ Mistaken t entry k

/-- What loading looks at tells whether it is refused. -/
theorem any_visited (link : link? t entry k = some path) :
    (visited t entry k).any (alike (t.canonical path)) = true ↔ Refused t entry k := by
  rw [List.any_eq_true]
  constructor
  · rintro ⟨name, mem, same⟩
    obtain ⟨j, before, earlier, linked, rfl⟩ := mem_visited.mp mem
    obtain ⟨_, d, linked', result⟩ := exists_earlier link before
    cases Option.some.inj (linked.symm.trans linked')
    obtain ⟨names, leads⟩ := exists_file result
    rcases (FileTree.alike_canonical leads).mp same with here | ⟨misses, same⟩
    · exact .inl ⟨path, link, j, before, earlier, names, linked, leads, here⟩
    · exact .inr ⟨path, link, misses, j, before, earlier, names, linked, leads, same⟩
  · intro refused
    obtain ⟨j, before, earlier, names, linked, leads, stands⟩ : ∃ j < k, ∃ earlier names,
        link? t entry j = some earlier ∧ t.locate earlier = .ok (.file names) ∧
          (t.locate path = .ok (.file names) ∨
            t.Misses path ∧ alike path (t.pathOf names) = true) := by
      rcases refused with ⟨path', link', j, before, earlier, names, linked, leads, here⟩ |
        ⟨path', link', misses, j, before, earlier, names, linked, leads, same⟩
      all_goals cases Option.some.inj (link.symm.trans link')
      · exact ⟨j, before, earlier, names, linked, leads, .inl here⟩
      · exact ⟨j, before, earlier, names, linked, leads, .inr ⟨misses, same⟩⟩
    exact ⟨_, mem_visited.mpr ⟨j, before, earlier, linked, rfl⟩,
      (FileTree.alike_canonical leads).mpr stands⟩

/-- A link to a visited file ends the chain. -/
theorem loadUpTo_refused (link : link? t entry k = some path) (refused : Refused t entry k) :
    loadUpTo t (n + 1) (visited t entry k) path = .error (.cycle (t.canonical path)) := by
  rw [loadUpTo]
  exact if_pos ((any_visited link).mpr refused)

/-- A result is handed on. -/
theorem ok_bind {ε α β : Type} (a : α) (f : α → Except ε β) : (Except.ok a >>= f) = f a := rfl

/-- A file that leads on no more ends the load. -/
theorem loadUpTo_last (link : link? t entry k = some path) (fresh : ¬ Refused t entry k)
    (last : next? t path = none) :
    loadUpTo t (n + 1) (visited t entry k) path = readFile t path := by
  rw [loadUpTo]
  dsimp only
  rw [if_neg (mt (any_visited link).mp fresh)]
  cases result : readFile t path with
  | error e => rfl
  | ok d =>
      rw [ok_bind, base_eq_none result last]
      rfl

/-- A file that names a base is merged over what is loaded from there. -/
theorem loadUpTo_next {next : String} (link : link? t entry k = some path)
    (fresh : ¬ Refused t entry k) (result : readFile t path = .ok d)
    (leads : next? t path = some next) :
    loadUpTo t (n + 1) (visited t entry k) path =
      (loadUpTo t n (visited t entry (k + 1)) next).map (merge · d) := by
  obtain ⟨d', base, result', named, found⟩ := exists_of_next? leads
  cases result.symm.trans result'
  rw [loadUpTo]
  dsimp only
  rw [if_neg (mt (any_visited link).mp fresh), visited_succ link, result, ok_bind, named]
  dsimp only
  rw [found, ok_bind]
  cases loadUpTo t n (t.canonical path :: visited t entry k) next <;> rfl

/-- In front of a link, a load is refused only where the chain comes back. -/
theorem not_refused (link : link? t entry k = some path) (fresh : ∀ j < k, ¬ Returns t entry j) :
    ∀ j < k, ¬ Refused t entry j := fun j before =>
  not_or.mpr ⟨fresh j before, not_mistaken link before⟩

/-- Loading reads the links of a chain one by one. -/
theorem loadUpTo_link (link : link? t entry k = some path) (fresh : ∀ j < k, ¬ Returns t entry j) :
    loadUpTo t (n + k) [] entry = (loadUpTo t n (visited t entry k) path).map fun above =>
      (documents t entry k).foldr (fun d above => merge above d) above := by
  induction k generalizing n path with
  | zero =>
      cases Option.some.inj link
      show loadUpTo t n [] entry = (loadUpTo t n [] entry).map id
      cases loadUpTo t n [] entry <;> rfl
  | succ k ih =>
      have here := not_refused link fresh k (Nat.lt_succ_self k)
      obtain ⟨last, link', leads⟩ := link?_succ.mp link
      obtain ⟨d, -, result, -⟩ := exists_of_next? leads
      have here := loadUpTo_next (n := n) link' here result leads
      have all := ih (n := n + 1) link' fun j before => fresh j (Nat.lt_succ_of_lt before)
      rw [here, Nat.add_right_comm] at all
      rw [← Nat.add_assoc, all, documents_succ link' result]
      cases loadUpTo t n (visited t entry (k + 1)) path with
      | error e => rfl
      | ok above => simp [Except.map]

/-! ## What a load results in -/

/-- Fuel for more than some steps is left behind them. -/
theorem exists_room (room : k < n) : ∃ m, n = m + 1 + k := ⟨n - 1 - k, by omega⟩

/-- A chain that comes back is refused where it does first. -/
theorem loadUpTo_cycle (link : link? t entry k = some path) (fresh : ∀ j < k, ¬ Returns t entry j)
    (refused : Refused t entry k) (room : k < n) :
    loadUpTo t n [] entry = .error (.cycle (t.canonical path)) := by
  obtain ⟨m, rfl⟩ := exists_room room
  rw [loadUpTo_link link fresh, loadUpTo_refused link refused]
  rfl

/-- A file that cannot be read is reported where it is first needed. -/
theorem loadUpTo_failure {e : SettingsError} (link : link? t entry k = some path)
    (fresh : ∀ j < k, ¬ Returns t entry j) (open_ : ¬ Refused t entry k)
    (failed : readFile t path = .error e) (room : k < n) :
    loadUpTo t n [] entry = .error e := by
  have last : next? t path = none := by rw [next?, failed]
  obtain ⟨m, rfl⟩ := exists_room room
  rw [loadUpTo_link link fresh, loadUpTo_last link open_ last, failed]
  rfl

/-- A chain that ends is merged from its documents. -/
theorem loadUpTo_whole (link : link? t entry k = some path) (fresh : ∀ j < k, ¬ Returns t entry j)
    (open_ : ¬ Refused t entry k) (result : readFile t path = .ok d) (last : next? t path = none)
    (room : k < n) :
    loadUpTo t n [] entry = .ok (mergeAll (documents t entry (k + 1))) := by
  have alone : merge empty d = d := by
    rw [merge_empty_left, ← base_eq_none result last]
  obtain ⟨m, rfl⟩ := exists_room room
  rw [loadUpTo_link link fresh, loadUpTo_last link open_ last, result, documents_succ link result,
    mergeAll, List.foldr_append, List.foldr_cons, List.foldr_nil, alone]
  rfl

/-- With room for the links of a chain, the bound on a load does not matter. -/
theorem loadUpTo_eq (room : t.files.length < n) : loadUpTo t n [] entry = loadDocument t entry := by
  obtain ⟨k, path, link, le, fresh, ends⟩ := exists_end t entry
  have here : k < n := Nat.lt_of_le_of_lt le room
  have there : k < t.files.length + 2 := Nat.lt_succ_of_le (Nat.le_succ_of_le le)
  by_cases refused : Refused t entry k
  · rw [loadDocument, loadUpTo_cycle link fresh refused here,
      loadUpTo_cycle link fresh refused there]
  · have last := ends.resolve_left fun back => refused (.inl back)
    cases result : readFile t path with
    | error e =>
        rw [loadDocument, loadUpTo_failure link fresh refused result here,
          loadUpTo_failure link fresh refused result there]
    | ok d =>
        rw [loadDocument, loadUpTo_whole link fresh refused result last here,
          loadUpTo_whole link fresh refused result last there]

/-- A file that is read is a document of the chain. -/
theorem document?_of_read (link : link? t entry k = some path) (result : readFile t path = .ok d) :
    document? t entry k = some d := by
  rw [document?, link, Option.bind_some, result]
  rfl

/-- The documents in front of a link are those of the chain, in its order. -/
theorem getElem?_documents
    (read : ∀ j < k, ∃ path d, link? t entry j = some path ∧ readFile t path = .ok d) :
    (documents t entry k).length = k ∧
      ∀ j < k, (documents t entry k)[j]? = document? t entry j := by
  induction k with
  | zero => exact ⟨rfl, fun j before => absurd before (Nat.not_lt_zero j)⟩
  | succ k ih =>
      obtain ⟨length, each⟩ := ih fun j before => read j (Nat.lt_succ_of_lt before)
      obtain ⟨path, d, link, result⟩ := read k (Nat.lt_succ_self k)
      rw [documents_succ link result]
      refine ⟨by rw [List.length_append, length, List.length_singleton], fun j before => ?_⟩
      rcases Nat.lt_succ_iff_lt_or_eq.mp before with before | rfl
      · rw [List.getElem?_append_left (Nat.lt_of_lt_of_eq before length.symm), each j before]
      · rw [List.getElem?_append_right (Nat.le_of_eq length), length, Nat.sub_self,
          document?_of_read link result]
        rfl

/-- Behind its last link a chain has no documents. -/
theorem document?_eq_none (link : link? t entry k = some path) (last : next? t path = none)
    (behind : k < j) : document? t entry j = none := by
  have ends : link? t entry (k + 1) = none := by rw [link?, link, Option.bind_some, last]
  have none_ : link? t entry j = none := by
    by_contra some_
    obtain ⟨later, link'⟩ := Option.ne_none_iff_exists'.mp some_
    rcases Nat.lt_or_eq_of_le (Nat.succ_le_of_lt behind) with before | rfl
    · obtain ⟨next, -, there, -⟩ := exists_earlier link' before
      cases ends.symm.trans there
    · cases ends.symm.trans link'
  rw [document?, none_, Option.bind_none]

/-- The tables of documents are in the order of their keys. -/
theorem rising_of_document? (there : document? t entry k = some d) : Rising d.table := by
  obtain ⟨path, -, result⟩ := Option.bind_eq_some_iff.mp there
  cases read : readFile t path with
  | error e =>
      rw [read] at result
      cases result
  | ok d' =>
      rw [read] at result
      cases result
      exact rising_readFile read

/-! ## Loading -/

/-- What the chain cannot load cannot be loaded. -/
theorem load_error {e : SettingsError} (failed : loadDocument t entry = .error e) :
    load t entry = .error e := by
  rw [load, failed]

/-- What it loads is resolved under the name of the entry. -/
theorem load_ok (result : loadDocument t entry = .ok d) :
    load t entry = d.resolve.mapError (.invalidFile entry) := by
  rw [load, result]
  dsimp only
  cases d.resolve <;> rfl

/-- A load is refused at a link that the chain reaches without coming back before,
    if it comes back there or is mistaken to. -/
theorem load_refused (link : link? t entry k = some path) (fresh : ∀ j < k, ¬ Returns t entry j)
    (refused : Refused t entry k) : load t entry = .error (.cycle (t.canonical path)) := by
  have few := le_of_fresh link fresh
  exact load_error
    (loadUpTo_cycle link fresh refused (Nat.lt_succ_of_le (Nat.le_succ_of_le few)))

/-- A chain that comes back is refused at the first link where it does. -/
theorem load_returns (back : Returns t entry k) :
    ∃ j ≤ k, ∃ path, link? t entry j = some path ∧ Returns t entry j ∧
      (∀ i < j, ¬ Returns t entry i) ∧ load t entry = .error (.cycle (t.canonical path)) := by
  classical
  have some_ : ∃ j, Returns t entry j := ⟨k, back⟩
  have first : Returns t entry (Nat.find some_) := Nat.find_spec some_
  have fresh : ∀ i < Nat.find some_, ¬ Returns t entry i := fun i before =>
    Nat.find_min some_ before
  obtain ⟨path, link, -⟩ := Nat.find_spec some_
  exact ⟨_, Nat.find_min' some_ back, path, link, first, fresh,
    load_refused link fresh (.inl first)⟩

/-- A chain that does not come back is refused at a path that leads to nothing, if
    it is mistaken for a file in front of it. -/
theorem load_mistaken (fresh : ∀ j, ¬ Returns t entry j) (link : link? t entry k = some path)
    (mistaken : Mistaken t entry k) :
    (∃ e, t.readText path = .error e) ∧ load t entry = .error (.cycle path) := by
  have ⟨other, there, misses, _⟩ := mistaken
  cases Option.some.inj (link.symm.trans there)
  refine ⟨exists_error_of_misses misses, ?_⟩
  rw [load_refused link (fun j _ => fresh j) (.inr mistaken), FileTree.canonical_of_misses misses]

/-- A load fails at the first link whose file cannot be read. -/
theorem load_failure {e : SettingsError} (fresh : ∀ j, ¬ Returns t entry j)
    (link : link? t entry k = some path) (known : ¬ Mistaken t entry k)
    (failed : readFile t path = .error e) : load t entry = .error e := by
  have few := le_of_fresh link fun j _ => fresh j
  exact load_error (loadUpTo_failure link (fun j _ => fresh j) (not_or.mpr ⟨fresh k, known⟩) failed
    (Nat.lt_succ_of_le (Nat.le_succ_of_le few)))

/-- Without a return and without a failure, the documents of the whole chain are
    merged and resolved. -/
theorem load_whole (fresh : ∀ k, ¬ Returns t entry k)
    (read : ∀ k path, link? t entry k = some path → ∃ d, readFile t path = .ok d) :
    ∃ ds, (∀ k, ds[k]? = document? t entry k) ∧ NearestOf ds (mergeAll ds) ∧
      load t entry = (mergeAll ds).resolve.mapError (.invalidFile entry) := by
  obtain ⟨k, path, link, few, -, ends⟩ := exists_end t entry
  have last := ends.resolve_left (fresh k)
  obtain ⟨d, result⟩ := read k path link
  have each : ∀ j < k + 1, ∃ path d, link? t entry j = some path ∧ readFile t path = .ok d := by
    intro j before
    rcases Nat.lt_succ_iff_lt_or_eq.mp before with before | rfl
    · exact exists_earlier link before
    · exact ⟨path, d, link, result⟩
  obtain ⟨length, listed⟩ := getElem?_documents each
  have all (j : Nat) : (documents t entry (k + 1))[j]? = document? t entry j := by
    rcases Nat.lt_or_ge j (k + 1) with before | behind
    · exact listed j before
    · rw [document?_eq_none link last behind]
      exact List.getElem?_eq_none (Nat.le_trans (Nat.le_of_eq length) behind)
  refine ⟨documents t entry (k + 1), all, nearestOf_mergeAll fun d mem => ?_, ?_⟩
  · obtain ⟨j, there⟩ := List.mem_iff_getElem?.mp mem
    exact rising_of_document? ((all j).symm.trans there)
  · exact load_ok (loadUpTo_whole link (fun j _ => fresh j)
      (not_or.mpr ⟨fresh k, not_mistaken_of_read link result⟩) result last
      (Nat.lt_succ_of_le (Nat.le_succ_of_le few)))

/-- A chain of settings files ends within the number of files, and the load goes
    by it, whatever its bound.  Each base is found from the directory of the file
    that names it.  If the chain comes back to a file, it is refused there.
    Otherwise, if a file of the chain cannot be read, or is no settings file, the
    load fails with that; and else the result is what all files of the chain set
    together, the nearest one first.  In which order they are merged does not
    matter, and the file that sets nothing changes nothing.

    There is one gap.  Where a path cannot be read because it leads to nothing,
    the load compares it as it is written with the files in front of it, and if
    it is written like one of them, it reports a cycle that is not there. -/
theorem load_follows (t : FileTree) (entry : String) :
    (∃ k path, link? t entry k = some path ∧ k ≤ t.files.length ∧ (∀ j < k, ¬ Returns t entry j) ∧
      (Returns t entry k ∨ next? t path = none)) ∧
    (∀ n, t.files.length < n → loadUpTo t n [] entry = loadDocument t entry) ∧
    (∀ k path d base, link? t entry k = some path → readFile t path = .ok d → d.base = some base →
      ∃ directory name next, t.locate path = .ok (.file (directory ++ [name])) ∧
        link? t entry (k + 1) = some next ∧ IsBase t directory base next) ∧
    (∀ k, Returns t entry k → ∃ j ≤ k, ∃ path, link? t entry j = some path ∧ Returns t entry j ∧
      (∀ i < j, ¬ Returns t entry i) ∧ load t entry = .error (.cycle (t.canonical path))) ∧
    ((∀ k, ¬ Returns t entry k) →
      (∀ k path, link? t entry k = some path →
        (∀ e, t.readText path = .error e → ¬ Mistaken t entry k →
          load t entry = .error (.unreadableFile path e)) ∧
        (Mistaken t entry k →
          (∃ e, t.readText path = .error e) ∧ load t entry = .error (.cycle path)) ∧
        ∀ text e, t.readText path = .ok text → Document.read text = .error e →
          load t entry = .error (.malformedFile path e)) ∧
      ((∀ k path, link? t entry k = some path → ∃ d, readFile t path = .ok d) →
        ∃ ds, (∀ k, ds[k]? = document? t entry k) ∧ NearestOf ds (mergeAll ds) ∧
          load t entry = (mergeAll ds).resolve.mapError (.invalidFile entry))) ∧
    (∀ a b c, Rising a.table → Rising b.table → Rising c.table →
      merge (merge a b) c = merge a (merge b c)) ∧
    ∀ d : Document, merge empty d = { d with base := none } ∧
      merge d empty = { d with base := none } := by
  refine ⟨exists_end t entry, fun n => loadUpTo_eq, fun k path d base link result named => ?_,
    fun k => load_returns, fun fresh => ⟨fun k path link => ⟨fun e failed known => ?_,
      load_mistaken fresh link, ?_⟩, load_whole fresh⟩, fun a b c => merge_assoc,
    fun d => ⟨merge_empty_left d, merge_empty_right d⟩⟩
  · obtain ⟨directory, name, next, leads, found, isBase⟩ := exists_base result base
    refine ⟨directory, name, next, leads, link?_succ.mpr ⟨path, link, ?_⟩, isBase⟩
    rw [next?_of_read result, named, Option.bind_some, found]
    rfl
  · exact load_failure fresh link known (by rw [readFile, failed])
  · intro text e read malformed
    have known : ¬ Mistaken t entry k := not_mistaken_of_text link read
    refine load_failure fresh link known ?_
    rw [readFile, read]
    dsimp only
    rw [malformed]

/-- Two files that extend each other. -/
def backAndForth : FileTree :=
  ⟨.system "w", [(["w", "r", "a.json"], "\x7b\"extends\":\"b\"\x7d".toUTF8),
    (["w", "r", "b.json"], "\x7b\"extends\":\"./a.json\"\x7d".toUTF8)]⟩

/-- A file that extends a path to nothing, behind itself. -/
def behindItself : FileTree :=
  ⟨.system "w", [(["w", "a.json"], "\x7b\"extends\":\"a.json/.\"\x7d".toUTF8)]⟩

/-- A file that extends one in another directory. -/
def overBase : FileTree :=
  ⟨.system "w", [(["w", "r", "a.json"],
      "\x7b\"extends\":\"sub/b\",\"selfCheck\":false\x7d".toUTF8),
    (["w", "r", "sub", "b.json"],
      "\x7b\"selfCheck\":true,\"toleratesUndeclaredVars\":true\x7d".toUTF8)]⟩

/-- The chain of a file over its base has two links. -/
theorem link_overBase (link : link? overBase "r/a.json" k = some path) :
    k = 0 ∧ path = "r/a.json" ∨ k = 1 ∧ path = "r/sub/b.json" := by
  match k, link with
  | 0, link => exact .inl ⟨rfl, (Option.some.inj link).symm⟩
  | 1, link => exact .inr ⟨rfl, (Option.some.inj link).symm⟩
  | 2, link => cases link
  | k + 3, link =>
      obtain ⟨_, _, there, -⟩ := exists_earlier link (show 2 < k + 3 by omega)
      cases there

/-- A file over its base does not come back. -/
theorem not_returns_overBase (k : Nat) : ¬ Returns overBase "r/a.json" k := by
  rintro ⟨path, link, j, before, earlier, names, linked, leads, stands⟩
  rcases link_overBase link with ⟨rfl, rfl⟩ | ⟨rfl, rfl⟩
  · cases before
  · cases Nat.lt_one_iff.mp before
    cases linked
    cases leads
    cases stands

/-- Two files that extend each other do. -/
theorem returns_backAndForth : Returns backAndForth "r/a.json" 2 :=
  ⟨"r/./a.json", rfl, 0, by decide, "r/a.json", ["w", "r", "a.json"], rfl, rfl, rfl⟩

/-- The chain of a file over a path behind itself has two links, and the second
    one leads to nothing. -/
theorem link_behindItself (link : link? behindItself "/w/a.json" k = some path) :
    k = 0 ∧ path = "/w/a.json" ∨ k = 1 ∧ path = "/w/a.json/." := by
  match k, link with
  | 0, link => exact .inl ⟨rfl, (Option.some.inj link).symm⟩
  | 1, link => exact .inr ⟨rfl, (Option.some.inj link).symm⟩
  | 2, link => cases link
  | k + 3, link =>
      obtain ⟨_, _, there, -⟩ := exists_earlier link (show 2 < k + 3 by omega)
      cases there

/-- A path behind a file leads to no file, so not back either. -/
theorem not_returns_behindItself (k : Nat) : ¬ Returns behindItself "/w/a.json" k := by
  rintro ⟨path, link, j, before, earlier, names, -, -, stands⟩
  rcases link_behindItself link with ⟨rfl, rfl⟩ | ⟨rfl, rfl⟩
  · cases before
  · cases stands

/-- It leads to nothing. -/
theorem misses_behindItself : behindItself.Misses "/w/a.json/." := fun _ => ⟨nofun, nofun⟩

/-- Two files that extend each other are refused; a path that leads to nothing and
    is written like the file that names it cannot be read, and is refused as if it
    came back to the file; and a file over its base sets what the documents of both
    set together. -/
theorem load_follows_twoFiles :
    (∃ path, load backAndForth "r/a.json" = .error (.cycle path)) ∧
    ((∃ e, behindItself.readText "/w/a.json/." = .error e) ∧
      load behindItself "/w/a.json" = .error (.cycle "/w/a.json/.")) ∧
    ∃ ds : List Document, ds[0]? = document? overBase "r/a.json" 0 ∧
      ds[1]? = document? overBase "r/a.json" 1 ∧ ds[2]? = none ∧
      load overBase "r/a.json" = (mergeAll ds).resolve.mapError (.invalidFile "r/a.json") := by
  refine ⟨?_, ?_, ?_⟩
  · obtain ⟨-, -, -, cycle, -⟩ := load_follows backAndForth "r/a.json"
    obtain ⟨-, -, path, -, -, -, result⟩ := cycle 2 returns_backAndForth
    exact ⟨_, result⟩
  · obtain ⟨-, -, -, -, onward, -⟩ := load_follows behindItself "/w/a.json"
    obtain ⟨-, mistaken, -⟩ := (onward not_returns_behindItself).1 1 "/w/a.json/." rfl
    exact mistaken ⟨"/w/a.json/.", rfl, misses_behindItself, 0, by decide, "/w/a.json",
      ["w", "a.json"], rfl, rfl, by decide +kernel⟩
  · obtain ⟨-, -, -, -, onward, -⟩ := load_follows overBase "r/a.json"
    have read (k : Nat) (path : String) (link : link? overBase "r/a.json" k = some path) :
        ∃ d, readFile overBase path = .ok d := by
      rcases link_overBase link with ⟨-, rfl⟩ | ⟨-, rfl⟩ <;> exact ⟨_, rfl⟩
    obtain ⟨ds, each, -, result⟩ := (onward not_returns_overBase).2 read
    exact ⟨ds, each 0, each 1, each 2, result⟩

/-- What the nearer file sets wins, and the base sets the rest. -/
example : load overBase "r/a.json" =
    .ok { Options.standard with selfCheck := false, toleratesUndeclared := true } := rfl

/-- From the working directory the same file names a path that is not written like
    its absolute one, and the load says that it cannot be read. -/
example : load behindItself "a.json" =
    .error (.unreadableFile "a.json/." .notADirectory) := rfl

end DeclCheck.Settings
