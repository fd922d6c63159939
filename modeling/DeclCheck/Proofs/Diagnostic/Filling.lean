import DeclCheck.Diagnostic.Basic
import Mathlib.Data.List.Chain
import Mathlib.Data.List.Infix

/-! # What a filled message says

    The message wanted is the template with each placeholder replaced by its
    argument and all else left as it is (`Substitutes`).  Filling in puts the
    arguments into the text one after the other, so that it reads the
    arguments put in so far once more.  It gives the wanted message where no
    placeholder is read out of an earlier argument (`Unmixed`), and the
    messages of the nine kinds come out right unless an argument holds the
    placeholder of a later one. -/

namespace DeclCheck.Message

/-! ## Placeholders -/

/-- A character that no placeholder holds. -/
def Plain (c : Char) : Prop := c ≠ '\x7b' ∧ c ≠ '\x7d' ∧ c.isDigit = false

instance (c : Char) : Decidable (Plain c) := inferInstanceAs (Decidable (_ ∧ _ ∧ _))

/-- A number is written in digits. -/
theorem isDigit_of_mem_toString {i : Nat} {c : Char} (h : c ∈ (toString i).toList) :
    c.isDigit = true := by
  rw [Nat.toString_eq_repr, Nat.toList_repr] at h
  exact Nat.isDigit_of_mem_toDigits (by decide) (by decide) h

/-- Two numbers are not written the same. -/
theorem toString_toList_inj {i j : Nat} (h : (toString i).toList = (toString j).toList) :
    i = j := by
  simp only [Nat.toString_eq_repr, Nat.toList_repr] at h
  rw [← Nat.ofDigitChars_toDigits (by decide : 1 < 10) (by decide) (n := i), h,
    Nat.ofDigitChars_toDigits (by decide) (by decide)]

/-- A placeholder consists of braces and digits. -/
theorem not_plain_of_mem_placeholder {i : Nat} {c : Char} (h : c ∈ placeholder i) : ¬Plain c := by
  rintro ⟨opens, closes, digit⟩
  rw [placeholder, List.mem_append, List.mem_cons, List.mem_singleton] at h
  obtain (rfl | h) | rfl := h
  · exact opens rfl
  · rw [isDigit_of_mem_toString h] at digit
    exact Bool.noConfusion digit
  · exact closes rfl

/-- Only the first character of a placeholder is an opening brace. -/
theorem opening_of_placeholder {i : Nat} {before rest : List Char}
    (h : placeholder i = before ++ '\x7b' :: rest) : before = [] := by
  cases before with
  | nil => rfl
  | cons c before =>
      have inner : (toString i).toList ++ ['\x7d'] = before ++ '\x7b' :: rest :=
        (List.cons.inj h).2
      have held : '\x7b' ∈ (toString i).toList ++ ['\x7d'] := by
        rw [inner]
        exact List.mem_append_right _ List.mem_cons_self
      rcases List.mem_append.mp held with held | held
      · exact Bool.noConfusion (isDigit_of_mem_toString held)
      · exact absurd held (by decide)

/-- The placeholder at the head of a text tells its index. -/
theorem placeholder_inj {i j : Nat} {x y : List Char}
    (h : placeholder i ++ x = placeholder j ++ y) : i = j ∧ x = y := by
  have digits (k : Nat) (z : List Char) :
      ((toString k).toList ++ '\x7d' :: z).takeWhile Char.isDigit = (toString k).toList := by
    rw [List.takeWhile_append_of_pos fun c h => isDigit_of_mem_toString h]
    exact List.append_nil _
  simp only [placeholder, List.cons_append, List.append_assoc, List.nil_append, List.cons.injEq,
    true_and] at h
  have same : (toString i).toList = (toString j).toList := by
    rw [← digits i x, h, digits j y]
  rw [same] at h
  exact ⟨toString_toList_inj same, (List.cons.inj (List.append_cancel_left h)).2⟩

/-! ## Replacing -/

section Replacing

variable {p r : List Char}

/-- A match that was found is stepped over. -/
theorem replaceFrom_drop (q rest : List Char) :
    replaceFrom p r q.length (q ++ rest) = replaceFrom p r 0 rest := by
  induction q with
  | nil => rfl
  | cons c q ih =>
      rw [List.length_cons, List.cons_append, replaceFrom]
      exact ih

/-- A match at the start is replaced. -/
theorem replace_self_append (h : p ≠ []) (rest : List Char) :
    replace p r (p ++ rest) = r ++ replace p r rest := by
  cases p with
  | nil => exact absurd rfl h
  | cons c q =>
      have found : (c :: q).isPrefixOf (c :: (q ++ rest)) = true :=
        List.isPrefixOf_iff_prefix.mpr ⟨rest, rfl⟩
      rw [replace, List.cons_append, replaceFrom, if_pos found]
      exact congrArg (r ++ ·) (replaceFrom_drop q rest)

/-- Where there is none the character stays. -/
theorem replace_cons {c : Char} {rest : List Char} (h : ¬p <+: c :: rest) :
    replace p r (c :: rest) = c :: replace p r rest := by
  rw [replace, replaceFrom, if_neg fun found => h (List.isPrefixOf_iff_prefix.mp found)]
  rfl

end Replacing

/-! ## Occurrences apart from a part of the text -/

/-- Every occurrence of `p` in `front ++ a ++ back` ends before the part `a`
    or starts behind it. -/
def Clear (p front a back : List Char) : Prop :=
  ∀ before behind, front ++ a ++ back = before ++ p ++ behind →
    before.length + p.length ≤ front.length ∨ front.length + a.length ≤ before.length

namespace Clear

variable {p front a back : List Char}

/-- Being clear does not depend on text further to the left. -/
theorem of_append {q : List Char} (h : Clear p (q ++ front) a back) : Clear p front a back := by
  intro before behind occurs
  have := h (q ++ before) behind (by simp only [List.append_assoc] at occurs ⊢; rw [occurs])
  simp only [List.length_append] at this
  omega

/-- No occurrence starts within the part. -/
theorem replace_append {r : List Char} (nonempty : p ≠ []) (h : Clear p [] a back) :
    replace p r (a ++ back) = a ++ replace p r back := by
  induction a with
  | nil => rfl
  | cons c a ih =>
      have absent : ¬p <+: c :: (a ++ back) := by
        rintro ⟨behind, occurs⟩
        have := h [] behind occurs.symm
        have := List.length_pos_iff.mpr nonempty
        simp only [List.length_nil, List.length_cons] at *
        omega
      have rest : Clear p [] a back := by
        intro before behind occurs
        have := h (c :: before) behind (congrArg (c :: ·) occurs)
        simp only [List.length_nil, List.length_cons] at *
        omega
      rw [List.cons_append, replace_cons absent, ih rest]
      rfl

end Clear

/-! ## The message wanted -/

/-- The text is the template with the placeholder of each argument replaced by
    the argument and every other character as it is. -/
inductive Substitutes (arguments : List (List Char)) : List Char → List Char → Prop where
  | nil : Substitutes arguments [] []
  | placed {i : Nat} {a rest text : List Char} : arguments[i]? = some a →
      Substitutes arguments rest text →
      Substitutes arguments (placeholder i ++ rest) (a ++ text)
  | other {c : Char} {rest text : List Char} :
      (∀ i < arguments.length, ¬placeholder i <+: c :: rest) →
      Substitutes arguments rest text → Substitutes arguments (c :: rest) (c :: text)

/-- Where the template has the placeholder of one of the first `k` arguments,
    the placeholder `k` is not read across the argument put in for it. -/
def Unmixed (arguments : List (List Char)) (k : Nat) (template : List Char) : Prop :=
  ∀ (i : Nat) (a front back front' back' : List Char), (arguments.take k)[i]? = some a →
    template = front ++ placeholder i ++ back → Substitutes (arguments.take k) front front' →
    Substitutes (arguments.take k) back back' → Clear (placeholder k) front' a back'

namespace Substitutes

variable {arguments : List (List Char)} {template text : List Char}

/-- Without arguments a template stays. -/
theorem refl (template : List Char) : Substitutes [] template template := by
  induction template with
  | nil => exact .nil
  | cons c rest ih => exact .other (fun i h => absurd h (Nat.not_lt_zero i)) ih

/-- A message comes from an empty template, from a placeholder at the head of
    the template, or from a character that starts none. -/
theorem inv (h : Substitutes arguments template text) :
    (template = [] ∧ text = []) ∨
    (∃ (i : Nat) (a rest text' : List Char), arguments[i]? = some a ∧
      template = placeholder i ++ rest ∧ text = a ++ text' ∧ Substitutes arguments rest text') ∨
    ∃ (c : Char) (rest text' : List Char), (∀ i < arguments.length, ¬placeholder i <+: c :: rest) ∧
      template = c :: rest ∧ text = c :: text' ∧ Substitutes arguments rest text' := by
  cases h with
  | nil => exact .inl ⟨rfl, rfl⟩
  | placed found behind => exact .inr (.inl ⟨_, _, _, _, found, rfl, rfl, behind⟩)
  | other apart behind => exact .inr (.inr ⟨_, _, _, apart, rfl, rfl, behind⟩)

/-- An empty template is filled with nothing. -/
theorem of_nil (h : Substitutes arguments [] text) : text = [] := by
  obtain ⟨_, ended⟩ | ⟨i, _, _, _, _, shape, _⟩ | ⟨_, _, _, _, shape, _⟩ := h.inv
  · exact ended
  · cases shape
  · cases shape

/-- A placeholder at the start is filled with its argument. -/
theorem of_placeholder {i : Nat} {a rest : List Char} (found : arguments[i]? = some a)
    (h : Substitutes arguments (placeholder i ++ rest) text) :
    ∃ text', text = a ++ text' ∧ Substitutes arguments rest text' := by
  obtain ⟨shape, _⟩ | ⟨j, _, _, text', found', shape, same, behind⟩ |
    ⟨c, rest', _, apart, shape, _⟩ := h.inv
  · cases shape
  · obtain ⟨rfl, rfl⟩ := placeholder_inj shape
    rw [found] at found'
    cases found'
    exact ⟨text', same, behind⟩
  · exact absurd ⟨rest, shape⟩ (apart i (List.getElem?_eq_some_iff.mp found).1)

/-- Any other character is kept. -/
theorem of_cons {c : Char} {rest : List Char}
    (apart : ∀ i < arguments.length, ¬placeholder i <+: c :: rest)
    (h : Substitutes arguments (c :: rest) text) :
    ∃ text', text = c :: text' ∧ Substitutes arguments rest text' := by
  obtain ⟨shape, _⟩ | ⟨i, _, rest', _, found, shape, _⟩ |
    ⟨_, _, text', _, shape, same, behind⟩ := h.inv
  · cases shape
  · exact absurd ⟨rest', shape.symm⟩ (apart i (List.getElem?_eq_some_iff.mp found).1)
  · cases shape
    exact ⟨text', same, behind⟩

/-- What no placeholder holds is left as it is. -/
theorem of_plain {front rest : List Char} (plain : ∀ c ∈ front, Plain c)
    (h : Substitutes arguments (front ++ rest) text) :
    ∃ text', text = front ++ text' ∧ Substitutes arguments rest text' := by
  induction front generalizing text with
  | nil => exact ⟨text, rfl, h⟩
  | cons c front ih =>
      have apart (i : Nat) (_ : i < arguments.length) : ¬placeholder i <+: c :: (front ++ rest) :=
        fun starts => (plain c List.mem_cons_self).1 (List.cons_prefix_cons.mp starts).1.symm
      obtain ⟨text, rfl, behind⟩ := h.of_cons apart
      obtain ⟨text', rfl, further⟩ :=
        ih (fun c held => plain c (List.mem_cons_of_mem _ held)) behind
      exact ⟨text', rfl, further⟩

/-- A template has one message at most. -/
theorem functional {text' : List Char} (h : Substitutes arguments template text)
    (h' : Substitutes arguments template text') : text = text' := by
  induction h generalizing text' with
  | nil => exact h'.of_nil.symm
  | placed found _ ih =>
      obtain ⟨_, rfl, behind⟩ := h'.of_placeholder found
      rw [ih behind]
  | other apart _ ih =>
      obtain ⟨_, rfl, behind⟩ := h'.of_cons apart
      rw [ih behind]

/-- Every template has a message. -/
theorem total (arguments : List (List Char)) (template : List Char) :
    ∃ text, Substitutes arguments template text := by
  by_cases head : ∃ i < arguments.length, placeholder i <+: template
  · obtain ⟨i, named, rest, rfl⟩ := head
    obtain ⟨text, behind⟩ := total arguments rest
    exact ⟨_, .placed (List.getElem?_eq_getElem named) behind⟩
  · push Not at head
    match template, head with
    | [], _ => exact ⟨[], .nil⟩
    | c :: rest, head =>
        obtain ⟨text, behind⟩ := total arguments rest
        exact ⟨c :: text, .other head behind⟩
termination_by template.length
decreasing_by
  · rename_i shape
    rw [← shape, List.length_append]
    exact Nat.lt_add_of_pos_left (List.length_pos_iff.mpr (List.cons_ne_nil _ _))
  · exact Nat.lt_succ_self _

/-- A placeholder that stands for no argument is left as it is. -/
theorem past_placeholder {k : Nat} (unnamed : arguments.length ≤ k) {rest : List Char}
    (h : Substitutes arguments rest text) :
    Substitutes arguments (placeholder k ++ rest) (placeholder k ++ text) := by
  have past (before behind : List Char) (split : before ++ behind = placeholder k) :
      Substitutes arguments (behind ++ rest) (behind ++ text) := by
    induction behind generalizing before with
    | nil => exact h
    | cons c behind ih =>
        refine .other ?_ (ih (before ++ [c]) (by rw [← split, List.append_assoc]; rfl))
        rintro i named ⟨tail, shape⟩
        cases before with
        | nil =>
            have shape : placeholder i ++ tail = placeholder k ++ rest :=
              shape.trans (congrArg (· ++ rest) split)
            exact absurd (placeholder_inj shape).1 (by omega)
        | cons b before =>
            have opens : c = '\x7b' := (List.cons.inj shape).1.symm
            subst opens
            cases opening_of_placeholder split.symm
  exact past [] (placeholder k) rfl

/-- The start of a message is the start of its template, or it reaches beyond
    the place of an argument. -/
theorem of_prefix {q : List Char} (h : Substitutes arguments template text) (starts : q <+: text) :
    q <+: template ∨
    ∃ (i : Nat) (a front back back' : List Char), arguments[i]? = some a ∧
      template = front ++ placeholder i ++ back ∧ front.length < q.length ∧
      Substitutes arguments front front ∧ Substitutes arguments back back' ∧
      text = front ++ a ++ back' := by
  induction h generalizing q with
  | nil => exact .inl starts
  | @placed i a rest text found behind _ =>
      cases q with
      | nil => exact .inl List.nil_prefix
      | cons _ q =>
          exact .inr ⟨i, a, [], rest, text, found, rfl, Nat.succ_pos _, .nil, behind, rfl⟩
  | @other c rest text apart _ ih =>
      cases q with
      | nil => exact .inl List.nil_prefix
      | cons _ q =>
          obtain ⟨rfl, further⟩ := List.cons_prefix_cons.mp starts
          obtain within | ⟨i, a, front, back, back', found, rfl, short, before, behind, rfl⟩ :=
            ih further
          · exact .inl (List.cons_prefix_cons.mpr ⟨rfl, within⟩)
          · have before : Substitutes arguments (_ :: front) (_ :: front) :=
              .other (fun j named head => apart j named
                (head.trans ⟨placeholder i ++ back, (List.append_assoc ..).symm⟩)) before
            exact .inr ⟨i, a, _ :: front, back, back', found, rfl, Nat.succ_lt_succ short, before,
              behind, rfl⟩

end Substitutes

/-! ## One argument put in -/

section Step

variable {arguments : List (List Char)} {k : Nat} {argument : List Char}

/-- A placeholder is not empty. -/
theorem placeholder_ne_nil : placeholder k ≠ [] := List.cons_ne_nil _ _

/-- Being unmixed is kept for what is behind a piece of the template. -/
theorem Unmixed.behind (piece piece' : List Char) {rest : List Char}
    (passes : ∀ {front front' : List Char}, front <+: rest →
      Substitutes (arguments.take k) front front' →
      Substitutes (arguments.take k) (piece ++ front) (piece' ++ front'))
    (h : Unmixed arguments k (piece ++ rest)) : Unmixed arguments k rest := by
  intro i a front back front' back' found shape before after
  refine Clear.of_append (h i a (piece ++ front) back (piece' ++ front') back' found ?_ ?_ after)
  · rw [shape, List.append_assoc, List.append_assoc, List.append_assoc]
  · exact passes (shape ▸ ⟨placeholder i ++ back, (List.append_assoc ..).symm⟩) before

/-- Putting in the argument `k` turns the message with the arguments before it
    into the message with one argument more. -/
theorem Substitutes.replace (found : arguments[k]? = some argument)
    {template text text' : List Char} (h : Substitutes (arguments.take k) template text)
    (unmixed : Unmixed arguments k template)
    (wanted : Substitutes (arguments.take (k + 1)) template text') :
    Message.replace (placeholder k) argument text = text' := by
  have bound : k < arguments.length := (List.getElem?_eq_some_iff.mp found).1
  have size : (arguments.take k).length = k := List.length_take_of_le bound.le
  have size' : (arguments.take (k + 1)).length = k + 1 := List.length_take_of_le bound
  induction wanted generalizing text with
  | nil =>
      rw [h.of_nil]
      rfl
  | @placed i a rest text' placed _ ih =>
      have named : i < k + 1 := size' ▸ (List.getElem?_eq_some_iff.mp placed).1
      rw [List.getElem?_take_of_lt named] at placed
      obtain earlier | rfl := Nat.lt_succ_iff_lt_or_eq.mp named
      · have placed : (arguments.take k)[i]? = some a := by
          rw [List.getElem?_take_of_lt earlier, placed]
        obtain ⟨text, rfl, behind⟩ := h.of_placeholder placed
        have clear : Clear (placeholder k) [] a text :=
          unmixed i a [] rest [] text placed rfl .nil behind
        rw [clear.replace_append placeholder_ne_nil,
          ih behind (unmixed.behind _ a fun _ before => .placed placed before)]
      · obtain rfl : argument = a := Option.some.inj (found.symm.trans placed)
        obtain ⟨text, behind⟩ := Substitutes.total (arguments.take i) rest
        obtain rfl := h.functional (behind.past_placeholder size.le)
        rw [replace_self_append placeholder_ne_nil,
          ih behind (unmixed.behind _ _ fun _ before => before.past_placeholder size.le)]
  | @other c rest text' apart _ ih =>
      have none (i : Nat) (named : i < (arguments.take k).length) : ¬placeholder i <+: c :: rest :=
        apart i (by omega)
      obtain ⟨text, rfl, behind⟩ := h.of_cons none
      have absent : ¬placeholder k <+: c :: text := by
        intro starts
        obtain within | ⟨i, a, front, back, back', placed, shape, short, before, after, same⟩ :=
          h.of_prefix starts
        · exact apart k (by omega) within
        · have started : front ≠ [] := by
            rintro rfl
            exact none i (List.getElem?_eq_some_iff.mp placed).1 ⟨back, shape.symm⟩
          have := List.length_pos_iff.mpr started
          obtain ⟨tail, occurs⟩ := starts
          have := unmixed i a front back front back' placed shape before after [] tail
            (same.symm.trans occurs.symm)
          simp only [List.length_nil] at this
          omega
      rw [replace_cons absent, ih behind (unmixed.behind [c] [c] fun within before =>
        .other (fun i named head =>
          none i named (head.trans (List.cons_prefix_cons.mpr ⟨rfl, within⟩))) before)]

end Step

/-- Filling in from the argument `k` on finishes the message. -/
theorem fillFrom_eq {arguments : List (List Char)} {template : List Char}
    (unmixed : ∀ k < arguments.length, Unmixed arguments k template) {text : List Char}
    (wanted : Substitutes arguments template text) :
    ∀ (rest : List (List Char)) {k : Nat} {text' : List Char}, arguments.drop k = rest →
      Substitutes (arguments.take k) template text' → fillFrom k rest text' = text
  | [], k, text', ended, h => by
      rw [List.take_of_length_le (List.drop_eq_nil_iff.mp ended)] at h
      exact h.functional wanted
  | argument :: rest, k, text', left, h => by
      have found : arguments[k]? = some argument := by
        rw [← List.head?_drop, left, List.head?_cons]
      obtain ⟨text'', next⟩ := Substitutes.total (arguments.take (k + 1)) template
      rw [fillFrom, h.replace found (unmixed k (List.getElem?_eq_some_iff.mp found).1) next]
      exact fillFrom_eq unmixed wanted rest (by rw [← List.tail_drop, left, List.tail_cons]) next

/-- Filling in gives the message wanted where no placeholder is read out of an
    argument. -/
theorem substitutes_fill {template : String} {arguments : List String}
    (unmixed : ∀ k < arguments.length, Unmixed (arguments.map String.toList) k template.toList) :
    Substitutes (arguments.map String.toList) template.toList (fill template arguments).toList := by
  obtain ⟨text, wanted⟩ := Substitutes.total (arguments.map String.toList) template.toList
  have filled : fillFrom 0 (arguments.map String.toList) template.toList = text :=
    fillFrom_eq (by rwa [List.length_map]) wanted _ rfl (.refl _)
  rwa [fill, filled, String.toList_ofList]

/-! ## Placeholders with space around them -/

/-- Every placeholder of the template stands between characters that no
    placeholder holds, or at an end of the template. -/
def Spaced (template : List Char) : Prop :=
  template.IsChain fun x y => (y = '\x7b' → Plain x) ∧ (x = '\x7d' → Plain y)

instance (template : List Char) : Decidable (Spaced template) :=
  inferInstanceAs (Decidable (List.IsChain ..))

/-- An occurrence that does not touch the text on either side of the part
    would lie within it. -/
theorem Clear.of_absent {p front a back : List Char} (absent : ¬p <:+: a)
    (left : ∀ c ∈ front.getLast?, c ∉ p) (right : ∀ c ∈ back.head?, c ∉ p) :
    Clear p front a back := by
  intro before behind occurs
  rw [List.append_assoc, List.append_assoc, List.append_eq_append_iff] at occurs
  have behind_front (x : List Char) (start : before = front ++ x)
      (occurs : a ++ back = x ++ (p ++ behind)) : front.length + a.length ≤ before.length := by
    obtain ⟨y, rfl, _⟩ | ⟨y, rfl, within⟩ := List.append_eq_append_iff.mp occurs
    · simp only [start, List.length_append]
      omega
    · obtain ⟨z, rfl, _⟩ | ⟨z, rfl, rfl⟩ := List.append_eq_append_iff.mp within
      · exact absurd ⟨x, z, List.append_assoc ..⟩ absent
      · cases z with
        | nil => exact absurd ⟨x, [], by simp only [List.append_nil]⟩ absent
        | cons c z => exact absurd (List.mem_append_right _ List.mem_cons_self) (right c rfl)
  obtain ⟨x, start, occurs⟩ | ⟨x, rfl, occurs⟩ := occurs
  · exact .inr (behind_front x start occurs)
  · cases x using List.reverseRecOn with
    | nil => exact .inr (behind_front [] (by simp only [List.append_nil]) occurs.symm)
    | append_singleton x c =>
        have last : c ∈ (before ++ (x ++ [c])).getLast? := by
          rw [← List.append_assoc, List.getLast?_concat]
          rfl
        obtain ⟨y, ends, _⟩ | ⟨y, rfl, _⟩ := List.append_eq_append_iff.mp occurs
        · left
          simp only [ends, List.length_append]
          omega
        · exact absurd (List.mem_append_left _ (List.mem_append_right _ List.mem_cons_self))
            (left c last)

/-- It ends with a brace. -/
theorem getLast?_placeholder (i : Nat) : (placeholder i).getLast? = some '\x7d' :=
  List.getLast?_concat

namespace Substitutes

variable {arguments : List (List Char)} {template text : List Char} {c : Char}

/-- A last character of a template that no placeholder holds ends its message. -/
theorem getLast? (h : Substitutes arguments template text) (plain : Plain c)
    (ends : template.getLast? = some c) : text.getLast? = some c := by
  induction h with
  | nil => exact ends
  | @placed i a rest text _ behind ih =>
      rw [List.getLast?_append] at ends ⊢
      cases last : rest.getLast? with
      | none =>
          rw [last, getLast?_placeholder] at ends
          cases ends
          exact absurd rfl plain.2.1
      | some d =>
          rw [last] at ends
          rw [ih (last.trans ends)]
          rfl
  | @other b rest text _ behind ih =>
      rw [List.getLast?_cons] at ends ⊢
      cases rest with
      | nil => rwa [behind.of_nil]
      | cons d rest =>
          rw [List.getLast?_cons] at ends ih
          rw [ih ends]
          rfl

/-- A first character of a template that no placeholder holds starts its
    message. -/
theorem head? (h : Substitutes arguments template text) (plain : Plain c)
    (starts : template.head? = some c) : text.head? = some c := by
  cases h with
  | nil => exact starts
  | placed =>
      cases starts
      exact absurd rfl plain.1
  | other => exact starts

end Substitutes

/-- With space around its placeholders, a template is unmixed for arguments
    that do not hold the placeholders of later ones. -/
theorem Spaced.unmixed {template : List Char} (spaced : Spaced template)
    {arguments : List (List Char)} {k : Nat}
    (absent : ∀ a ∈ arguments.take k, ¬placeholder k <:+: a) : Unmixed arguments k template := by
  intro i a front back front' back' found shape before after
  subst shape
  rw [Spaced, List.append_assoc] at spaced
  obtain ⟨-, inner, left⟩ := List.isChain_append.mp spaced
  obtain ⟨-, -, right⟩ := List.isChain_append.mp inner
  refine Clear.of_absent (absent a (List.mem_of_getElem? found)) ?_ ?_
  · intro c last held
    cases ends : front.getLast? with
    | none =>
        rw [List.getLast?_eq_none_iff.mp ends] at before
        rw [before.of_nil] at last
        cases last
    | some d =>
        have plain : Plain d := (left d ends '\x7b' rfl).1 rfl
        rw [before.getLast? plain ends] at last
        cases last
        exact not_plain_of_mem_placeholder held plain
  · intro c first held
    cases starts : back.head? with
    | none =>
        rw [List.head?_eq_none_iff.mp starts] at after
        rw [after.of_nil] at first
        cases first
    | some d =>
        have plain : Plain d := (right _ (getLast?_placeholder i) d starts).2 rfl
        rw [after.head? plain starts] at first
        cases first
        exact not_plain_of_mem_placeholder held plain

/-- In every template of the program, placeholders stand apart. -/
theorem spaced_template (kind : DiagnosticKind) : Spaced kind.template.toList := by
  cases kind <;> decide +kernel

/-! ## Arguments that hold later placeholders -/

section Holding

variable {p : List Char}

/-- What does not occur is not replaced. -/
theorem replace_of_absent {r text : List Char} (absent : ¬p <:+: text) :
    replace p r text = text := by
  induction text with
  | nil => rfl
  | cons c rest ih =>
      rw [replace_cons fun starts => absent starts.isInfix,
        ih fun inside => absent (inside.trans (List.suffix_cons c rest).isInfix)]

/-- Replacing by nothing makes no text longer. -/
theorem length_replaceFrom_le (skip : Nat) (text : List Char) :
    (replaceFrom p [] skip text).length ≤ text.length := by
  fun_induction replaceFrom p [] skip text with
  | case1 => exact Nat.le_refl _
  | case2 skip c rest ih => exact Nat.le_succ_of_le ih
  | case3 c rest _ ih => exact Nat.le_succ_of_le ih
  | case4 c rest _ ih => exact Nat.succ_le_succ ih

/-- A text gets shorter when a pattern in it is taken out. -/
theorem length_replace_lt {text : List Char} (nonempty : p ≠ []) (inside : p <:+: text) :
    (replace p [] text).length < text.length := by
  induction text with
  | nil => exact absurd (List.infix_nil.mp inside) nonempty
  | cons c rest ih =>
      by_cases starts : p <+: c :: rest
      · rw [replace, replaceFrom, if_pos (List.isPrefixOf_iff_prefix.mpr starts)]
        exact Nat.lt_succ_of_le (length_replaceFrom_le _ rest)
      · rw [replace_cons starts]
        exact Nat.succ_lt_succ (ih ((List.infix_cons_iff.mp inside).resolve_left starts))

end Holding

/-- Nor does filling with nothing. -/
theorem length_fillFrom_le (n : Nat) : ∀ (k : Nat) (text : List Char),
    (fillFrom k (List.replicate n []) text).length ≤ text.length := by
  induction n with
  | zero => exact fun _ text => Nat.le_refl text.length
  | succ n ih => exact fun k text => (ih (k + 1) _).trans (length_replaceFrom_le 0 text)

/-- It makes a text shorter that has the placeholder. -/
theorem length_fillFrom_lt {n i : Nat} (named : i < n) : ∀ {k : Nat} {text : List Char},
    placeholder (k + i) <:+: text →
      (fillFrom k (List.replicate n []) text).length < text.length := by
  induction n generalizing i with
  | zero => exact absurd named (Nat.not_lt_zero i)
  | succ n ih =>
      intro k text inside
      rw [List.replicate_succ, fillFrom]
      by_cases here : placeholder k <:+: text
      · exact (length_fillFrom_le n (k + 1) _).trans_lt
          (length_replace_lt placeholder_ne_nil here)
      · rw [replace_of_absent here]
        cases i with
        | zero => exact absurd inside here
        | succ i =>
            exact ih (Nat.lt_of_succ_lt_succ named) (by rwa [Nat.add_right_comm, Nat.add_assoc])

/-- An argument that holds the placeholder of a later one is not put in as it
    is: the text of the later one replaces that part of it. -/
theorem not_substitutes_fill {argument : String} {k : Nat}
    (holds : placeholder (k + 1) <:+: argument.toList) :
    ¬Substitutes ((argument :: List.replicate (k + 1) "").map String.toList) (placeholder 0)
      (fill (String.ofList (placeholder 0)) (argument :: List.replicate (k + 1) "")).toList := by
  intro h
  rw [← List.append_nil (placeholder 0)] at h
  obtain ⟨text, same, behind⟩ := h.of_placeholder List.getElem?_cons_zero
  have first : replace (placeholder 0) argument.toList (placeholder 0) = argument.toList := by
    have := replace_self_append (p := placeholder 0) (r := argument.toList) placeholder_ne_nil []
    rwa [List.append_nil, replace, replace, replaceFrom, List.append_nil] at this
  have short : (fillFrom 1 (List.replicate (k + 1) []) argument.toList).length
      < argument.toList.length :=
    length_fillFrom_lt (Nat.lt_succ_self k) (by rwa [Nat.add_comm])
  rw [behind.of_nil, List.append_nil, List.append_nil, fill, String.toList_ofList,
    String.toList_ofList, List.map_cons, List.map_replicate, fillFrom, first] at same
  exact absurd (congrArg List.length same) short.ne

/-! ## What the messages say -/

/-- The message of a diagnostic is the template of its kind with the arguments
    as they are, unless one of them holds the placeholder of a later one. -/
theorem substitutes_make (kind : DiagnosticKind) (level : Severity) (file : String) (span : Span)
    (position : Position) {arguments : List String}
    (absent : ∀ k < arguments.length, ∀ a ∈ arguments.take k, ¬placeholder k <:+: a.toList) :
    Substitutes (arguments.map String.toList) kind.template.toList
      (Diagnostic.make kind level file span position arguments).message.toList := by
  refine substitutes_fill fun k named => (spaced_template kind).unmixed fun a held => ?_
  rw [← List.map_take] at held
  obtain ⟨a, earlier, rfl⟩ := List.mem_map.mp held
  exact absent k named a earlier

/-- Filling in puts the arguments into a template as they are, all at once,
    where no placeholder is read out of an argument put in before.  For the
    messages of diagnostics it is enough that no argument holds the
    placeholder of a later one, and an argument that does is changed in some
    message. -/
theorem fill_substitutes (template : String) (arguments : List String) (message : String) :
    ((∀ k < arguments.length, Unmixed (arguments.map String.toList) k template.toList) →
      (fill template arguments = message ↔
        Substitutes (arguments.map String.toList) template.toList message.toList)) ∧
    (∀ (kind : DiagnosticKind) (level : Severity) (file : String) (span : Span)
        (position : Position),
      (∀ k < arguments.length, ∀ a ∈ arguments.take k, ¬placeholder k <:+: a.toList) →
      ((Diagnostic.make kind level file span position arguments).message = message ↔
        Substitutes (arguments.map String.toList) kind.template.toList message.toList)) ∧
    ∀ (argument : String) (k : Nat), placeholder (k + 1) <:+: argument.toList →
      ¬Substitutes ((argument :: List.replicate (k + 1) "").map String.toList) (placeholder 0)
        (fill (String.ofList (placeholder 0)) (argument :: List.replicate (k + 1) "")).toList := by
  have unique {template : List Char} {filled : String}
      (h : Substitutes (arguments.map String.toList) template filled.toList) :
      filled = message ↔ Substitutes (arguments.map String.toList) template message.toList :=
    ⟨fun same => same ▸ h, fun h' => String.toList_inj.mp (h.functional h')⟩
  exact ⟨fun unmixed => unique (substitutes_fill unmixed),
    fun kind level file span position absent =>
      unique (substitutes_make kind level file span position absent),
    fun _ _ holds => not_substitutes_fill holds⟩

/-- A module may be named with braces around a number that no later argument
    has. -/
theorem fill_substitutes_braces :
    (Diagnostic.make .missingModuleDep .warning "a.js" ⟨0, 1⟩ ⟨1, 0⟩
      ["\x7b7\x7d", "core", "x"]).message =
        "module \x7b7\x7d references x from module core but does not depend on it" ∧
    Substitutes (["\x7b7\x7d", "core", "x"].map String.toList)
      DiagnosticKind.missingModuleDep.template.toList
      "module \x7b7\x7d references x from module core but does not depend on it".toList := by
  have message : (Diagnostic.make .missingModuleDep .warning "a.js" ⟨0, 1⟩ ⟨1, 0⟩
      ["\x7b7\x7d", "core", "x"]).message =
        "module \x7b7\x7d references x from module core but does not depend on it" := by
    decide +kernel
  exact ⟨message, ((fill_substitutes "" _ _).2.1 .missingModuleDep .warning "a.js" ⟨0, 1⟩ ⟨1, 0⟩
    (by decide +kernel)).mp message⟩

/-- With the name of a module that is the placeholder of the reference, the
    message names the reference twice and the module nowhere. -/
theorem fill_rescans :
    fill DiagnosticKind.missingModuleDep.template ["\x7b2\x7d", "core", "x"] =
      "module x references x from module core but does not depend on it" ∧
    ¬Substitutes (["\x7b2\x7d", "core", "x"].map String.toList)
      DiagnosticKind.missingModuleDep.template.toList
      "module x references x from module core but does not depend on it".toList := by
  refine ⟨by decide +kernel, fun h => ?_⟩
  have template : DiagnosticKind.missingModuleDep.template.toList = "module ".toList ++
      (placeholder 0 ++ DiagnosticKind.missingModuleDep.template.toList.drop 10) := by
    decide +kernel
  rw [template] at h
  obtain ⟨text, same, behind⟩ := h.of_plain (List.forall_iff_forall_mem.mp (by decide +kernel))
  obtain ⟨text, rfl, _⟩ := behind.of_placeholder List.getElem?_cons_zero
  exact absurd (congrArg (fun message => (message.drop 7).head?) same) (by simp)

end DeclCheck.Message
