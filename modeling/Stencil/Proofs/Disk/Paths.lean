import Mathlib.Data.List.Infix
import Stencil.Path

/-!
# Paths as text, and without double dots

A path whose components are ones that can be read (`IsProper`) is read back from its text
(`ofText_text`), so two such paths with the same text are the same (`text_inj`). Taking double dots
together uses no component that is not there already (`mem_collapse`).
-/

namespace Stencil

namespace Text

theorem splitOn_of_not_mem {mark : Glyph} {t : Text} (h : mark ∉ t) : splitOn mark t = [t] := by
  induction t with
  | nil => rfl
  | cons g t ih =>
      have hg : g ≠ mark := fun heq => h (heq ▸ List.mem_cons_self)
      rw [splitOn, if_neg hg, ih fun hmem => h (List.mem_cons_of_mem _ hmem)]

theorem splitOn_append_cons {mark : Glyph} {t : Text} (h : mark ∉ t) (u : Text) :
    splitOn mark (t ++ mark :: u) = t :: splitOn mark u := by
  induction t with
  | nil => rw [List.nil_append, splitOn, if_pos rfl]
  | cons g t ih =>
      have hg : g ≠ mark := fun heq => h (heq ▸ List.mem_cons_self)
      rw [List.cons_append, splitOn, if_neg hg, ih fun hmem => h (List.mem_cons_of_mem _ hmem)]

theorem splitOn_join {mark : Glyph} {parts : List Text} (hne : parts ≠ [])
    (h : ∀ part ∈ parts, mark ∉ part) : splitOn mark (join [mark] parts) = parts := by
  induction parts with
  | nil => exact absurd rfl hne
  | cons part parts ih =>
      have hpart := h part List.mem_cons_self
      cases parts with
      | nil => exact splitOn_of_not_mem hpart
      | cons next parts =>
          rw [join, List.append_assoc, List.singleton_append, splitOn_append_cons hpart,
            ih (List.cons_ne_nil _ _) fun part hmem => h part (List.mem_cons_of_mem _ hmem)]
          exact List.cons_ne_nil _ _

theorem not_mem_of_mem_splitOn {mark : Glyph} {t part : Text} (h : part ∈ splitOn mark t) :
    mark ∉ part := by
  induction t generalizing part with
  | nil =>
      rw [List.mem_singleton.mp h]
      exact List.not_mem_nil
  | cons g t ih =>
      rw [splitOn] at h
      split at h
      · rcases List.mem_cons.mp h with rfl | h
        · exact List.not_mem_nil
        · exact ih h
      · next hg =>
        split at h
        · rw [List.mem_singleton.mp h]
          exact fun hmem => hg (List.mem_singleton.mp hmem).symm
        · next first rest heq =>
          rw [heq] at ih
          rcases List.mem_cons.mp h with rfl | h
          · exact fun hmem => (List.mem_cons.mp hmem).elim (fun heq => hg heq.symm)
              (ih List.mem_cons_self)
          · exact ih (List.mem_cons_of_mem _ h)

end Text

namespace Path

/-- A component that is kept when a path is read. -/
def IsPart (part : Text) : Prop := part ≠ [] ∧ part ≠ [.char '.'] ∧ slash ∉ part

instance (part : Text) : Decidable (IsPart part) := inferInstanceAs (Decidable (_ ∧ _))

/-- A path that can be read from a text. -/
def IsProper (p : Path) : Prop := ∀ part ∈ p.parts, IsPart part

instance (p : Path) : Decidable p.IsProper :=
  inferInstanceAs (Decidable (∀ part ∈ p.parts, IsPart part))

theorem filter_parts {parts : List Text} (h : ∀ part ∈ parts, IsPart part) :
    parts.filter (fun part => !part.isEmpty && part ≠ [.char '.']) = parts := by
  rw [List.filter_eq_self]
  intro part hpart
  obtain ⟨hne, hdot, -⟩ := h part hpart
  cases part with
  | nil => exact absurd rfl hne
  | cons g part =>
      rw [List.isEmpty_cons, Bool.not_false, Bool.true_and]
      exact decide_eq_true hdot

/-- The text of components begins with one of their glyphs. -/
theorem exists_join_eq {part : Text} (h : IsPart part) (parts : List Text) :
    ∃ g t, Text.join "/" (part :: parts) = g :: t ∧ g ≠ slash := by
  obtain ⟨hne, -, hslash⟩ := h
  cases part with
  | nil => exact absurd rfl hne
  | cons g part =>
      have hg : g ≠ slash := fun heq => hslash (heq ▸ List.mem_cons_self)
      cases parts with
      | nil => exact ⟨g, part, rfl, hg⟩
      | cons next parts =>
          refine ⟨g, part ++ "/" ++ Text.join "/" (next :: parts), ?_, hg⟩
          rw [Text.join]
          · rfl
          · exact List.cons_ne_nil _ _

theorem ofText_text {p : Path} (h : p.IsProper) : ofText p.text = p := by
  obtain ⟨root, parts⟩ := p
  cases parts with
  | nil => cases root <;> rfl
  | cons part parts =>
      obtain ⟨g, t, hjoin, hg⟩ := exists_join_eq (h part List.mem_cons_self) parts
      have hsplit : Text.splitOn slash (g :: t) = part :: parts := by
        rw [← hjoin]
        exact Text.splitOn_join (List.cons_ne_nil _ _) fun part hpart => (h part hpart).2.2
      have hfilter := filter_parts h
      cases root with
      | none =>
          have hroot : rootOf (g :: t) = .none := by
            unfold rootOf
            split
            · next heq => exact absurd (List.cons.inj heq).1 hg
            · next heq => exact absurd (List.cons.inj heq).1 hg
            · next heq => exact absurd (List.cons.inj heq).1 hg
            · rfl
          show ofText (Text.join "/" (part :: parts)) = _
          rw [hjoin, ofText, hroot, hsplit, hfilter]
      | slash =>
          have hroot : rootOf (slash :: g :: t) = .slash := by
            unfold rootOf
            split
            · rfl
            · next heq => exact absurd (List.cons.inj (List.cons.inj heq).2).1 hg
            · rfl
            · next hnot => exact (hnot _ rfl).elim
          show ofText (slash :: Text.join "/" (part :: parts)) = _
          rw [hjoin, ofText, hroot, Text.splitOn, if_pos rfl, hsplit]
          exact congrArg (Path.mk .slash) hfilter
      | doubleSlash =>
          have hroot : rootOf (slash :: slash :: g :: t) = .doubleSlash := by
            unfold rootOf
            split
            · next heq =>
              exact absurd (List.cons.inj (List.cons.inj (List.cons.inj heq).2).2).1 hg
            · rfl
            · next hnot heq => exact (hnot _ (List.cons.inj heq).2.symm).elim
            · next hnot => exact (hnot _ rfl).elim
          show ofText (slash :: slash :: Text.join "/" (part :: parts)) = _
          rw [hjoin, ofText, hroot, Text.splitOn, if_pos rfl, Text.splitOn, if_pos rfl, hsplit]
          exact congrArg (Path.mk .doubleSlash) hfilter

theorem text_inj {p q : Path} (hp : p.IsProper) (hq : q.IsProper) (h : p.text = q.text) : p = q := by
  rw [← ofText_text hp, h, ofText_text hq]

/-! ## Components -/

theorem ofText_of_isPart {part : Text} (h : IsPart part) : ofText part = ⟨.none, [part]⟩ :=
  ofText_text (p := ⟨.none, [part]⟩) fun _ hpart => List.mem_singleton.mp hpart ▸ h

theorem child_of_isPart (p : Path) {part : Text} (h : IsPart part) :
    p.child part = ⟨p.root, p.parts ++ [part]⟩ := by
  rw [child, ofText_of_isPart h]
  rfl

theorem below?_eq_some {above p : Path} {parts : List Text} (h : above.below? p = some parts) :
    p.root = above.root ∧ p.parts = above.parts ++ parts := by
  rw [below?] at h
  by_cases hroot : above.root = p.root
  · rw [if_pos hroot] at h
    exact ⟨hroot.symm, (List.isPrefixOf?_eq_some_iff_append_eq.mp h).symm⟩
  · rw [if_neg hroot] at h
    cases h

/-- Whatever text is read, the path is one that can be read. -/
theorem isProper_ofText (t : Text) : (ofText t).IsProper := by
  intro part hpart
  obtain ⟨hpart, hkept⟩ := List.mem_filter.mp hpart
  rw [Bool.and_eq_true, Bool.not_eq_true', List.isEmpty_eq_false_iff, decide_eq_true_eq] at hkept
  exact ⟨hkept.1, hkept.2, Text.not_mem_of_mem_splitOn hpart⟩

theorem isProper_child {p : Path} (h : p.IsProper) (name : Text) : (p.child name).IsProper := by
  rw [child, join]
  split
  · exact isProper_ofText name
  · exact fun part hpart => (List.mem_append.mp hpart).elim (h part) (isProper_ofText name part)

/-! ## Double dots -/

theorem collapse_append (above parts parts' : List Text) :
    collapse above (parts ++ parts') = collapse (collapse above parts) parts' := by
  induction parts generalizing above with
  | nil => rfl
  | cons part parts ih =>
      rw [List.cons_append, collapse, collapse]
      by_cases hpart : part = parentName
      · rw [if_pos hpart, if_pos hpart, ih]
      · rw [if_neg hpart, if_neg hpart, ih]

theorem collapse_of_not_mem {parts : List Text} (h : parentName ∉ parts) (above : List Text) :
    collapse above parts = above ++ parts := by
  induction parts generalizing above with
  | nil => rw [collapse, List.append_nil]
  | cons part parts ih =>
      have hpart : part ≠ parentName := fun heq => h (heq ▸ List.mem_cons_self)
      rw [collapse, if_neg hpart, ih fun hmem => h (List.mem_cons_of_mem _ hmem),
        List.append_assoc, List.singleton_append]

theorem mem_collapse {part : Text} {above parts : List Text} (h : part ∈ collapse above parts) :
    part ∈ above ∨ part ∈ parts := by
  induction parts generalizing above with
  | nil => exact Or.inl h
  | cons next parts ih =>
      rw [collapse] at h
      by_cases hnext : next = parentName
      · rw [if_pos hnext] at h
        rcases ih h with habove | hparts
        · exact Or.inl (List.mem_of_mem_dropLast habove)
        · exact Or.inr (List.mem_cons_of_mem _ hparts)
      · rw [if_neg hnext] at h
        rcases ih h with habove | hparts
        · rcases List.mem_append.mp habove with habove | hsingle
          · exact Or.inl habove
          · exact Or.inr (List.mem_singleton.mp hsingle ▸ List.mem_cons_self)
        · exact Or.inr (List.mem_cons_of_mem _ hparts)

/-- What is left has no double dots if what stood above had none. -/
theorem parentName_not_mem_collapse {above parts : List Text} (h : parentName ∉ above) :
    parentName ∉ collapse above parts := by
  induction parts generalizing above with
  | nil => exact h
  | cons part parts ih =>
      rw [collapse]
      by_cases hpart : part = parentName
      · rw [if_pos hpart]
        exact ih fun hmem => h (List.mem_of_mem_dropLast hmem)
      · rw [if_neg hpart]
        refine ih fun hmem => ?_
        rcases List.mem_append.mp hmem with hmem | hmem
        · exact h hmem
        · exact hpart (List.mem_singleton.mp hmem).symm

/-! ## Names -/

/-- A component that leads one step down. -/
structure IsName (part : Text) : Prop where
  isPart : IsPart part
  ne_parentName : part ≠ parentName

instance (part : Text) : Decidable (IsName part) :=
  decidable_of_iff (IsPart part ∧ part ≠ parentName) ⟨fun h => ⟨h.1, h.2⟩, fun h => ⟨h.1, h.2⟩⟩

theorem parentName_not_mem {parts : List Text} (h : ∀ part ∈ parts, IsName part) :
    parentName ∉ parts :=
  fun hmem => (h _ hmem).ne_parentName rfl

end Path

end Stencil
