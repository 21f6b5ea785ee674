import Stencil.Proofs.Text.Matches
import Mathlib.Data.List.Sort

/-!
# Matches by a rule

A rule says which texts are a match. What a search from the left finds by a rule can be told without
the search: the matches stand where they say, no two of them share a glyph, and a stretch that the
rule accepts begins inside one of them (`Rule.Marks`). There is just one such list, and a form that
reads by the rule finds it (`Form.Follows.marks_iff`).
-/

namespace Stencil

/-- Which texts are a match, and of what value. -/
abbrev Rule (α : Type) := Text → α → Prop

/-- The matches of a rule in a text, from left to right. -/
structure Rule.Marks {α : Type} (rule : Rule α) (t : Text) (marks : List (Found α)) : Prop where
  reads : ∀ mark ∈ marks, ∃ left read right, t = left ++ (read ++ right) ∧ rule read mark.value ∧
    mark.start = left.length ∧ mark.stop = left.length + read.length
  ordered : marks.Pairwise fun mark next => mark.stop ≤ next.start
  covers : ∀ left read right value, t = left ++ (read ++ right) → rule read value →
    ∃ mark ∈ marks, mark.start ≤ left.length ∧ left.length < mark.stop

namespace Form

/-- A form that reads by a rule: at each place what the rule accepts there, and nothing else. -/
structure Follows {α : Type} (form : Form α) (rule : Rule α) : Prop where
  reads_iff : ∀ {before t value rest},
    form before t = some (value, rest) ↔ ∃ read, t = read ++ rest ∧ rule read value
  ne_nil : ∀ {read value}, rule read value → read ≠ []

namespace Follows

variable {α : Type} {form : Form α} {rule : Rule α} (h : form.Follows rule)

include h

theorem isBlind : form.IsBlind := fun _ _ _ =>
  Option.ext fun ⟨_, _⟩ => h.reads_iff.trans h.reads_iff.symm

theorem isReader : form.IsReader := by
  intro before t value rest hread
  obtain ⟨read, heq, hrule⟩ := h.reads_iff.mp hread
  exact ⟨read, h.ne_nil hrule, heq⟩

/-- At one place a rule that a form follows accepts one stretch, and gives it one value. -/
theorem unique {read read' right right' : Text} {value value' : α}
    (heq : read ++ right = read' ++ right') (hrule : rule read value)
    (hrule' : rule read' value') : read = read' ∧ value = value' := by
  have hread : form none (read ++ right) = some (value, right) :=
    h.reads_iff.mpr ⟨read, rfl, hrule⟩
  have hread' : form none (read' ++ right') = some (value', right') :=
    h.reads_iff.mpr ⟨read', rfl, hrule'⟩
  rw [← heq, hread] at hread'
  obtain ⟨hvalue, rfl⟩ := Prod.mk.inj (Option.some.inj hread')
  exact ⟨List.append_cancel_right heq, hvalue⟩

theorem marks_findAll (t : Text) : rule.Marks t (form.findAll t) where
  reads mark hmark := by
    obtain ⟨left, before, read, right, rfl, -, hread, hstart, hstop⟩ :=
      exists_split_of_mem_findFrom h.isReader hmark
    obtain ⟨read', heq, hrule⟩ := h.reads_iff.mp hread
    obtain rfl := List.append_cancel_right heq
    exact ⟨left, read, right, rfl, hrule, by omega, by omega⟩
  ordered := (bounds_findFrom h.isReader 0 0 none).2
  covers left read right value heq hrule := by
    have hread : form none (read ++ right) ≠ none := by
      rw [h.reads_iff.mpr ⟨read, rfl, hrule⟩]
      exact Option.some_ne_none _
    obtain ⟨mark, hmark, hle, hlt⟩ :=
      exists_found_of_read h.isBlind h.isReader hread 0 none (Nat.zero_le left.length)
    rw [heq]
    exact ⟨mark, hmark, by omega, by omega⟩

theorem start_lt_stop {t : Text} {marks : List (Found α)} (hmarks : rule.Marks t marks)
    {mark : Found α} (hmark : mark ∈ marks) : mark.start < mark.stop := by
  obtain ⟨left, read, right, -, hrule, hstart, hstop⟩ := hmarks.reads mark hmark
  have hpos := List.length_pos_iff.mpr (h.ne_nil hrule)
  omega

/-- Two lists of the matches in a text have the same members. A mark of the one begins inside a mark
of the other. Would that begin earlier, then it would be in the first list, too, and overlap there. -/
theorem mem_of_marks {t : Text} {marks others : List (Found α)} (hmarks : rule.Marks t marks)
    (hothers : rule.Marks t others) {mark : Found α} (hmark : mark ∈ marks) : mark ∈ others := by
  induction hn : mark.start using Nat.strong_induction_on generalizing marks others mark with
  | _ n ih =>
      obtain ⟨left, read, right, ht, hrule, hstart, hstop⟩ := hmarks.reads mark hmark
      obtain ⟨other, hother, hle, hlt⟩ := hothers.covers left read right _ ht hrule
      rcases Nat.lt_or_eq_of_le hle with hbefore | hsame
      · have hin := ih other.start (by omega) hothers hmarks hother rfl
        have hstop := Found.stop_le_of_start_lt hmarks.ordered
          (fun _ => h.start_lt_stop hmarks) hin hmark (by omega)
        omega
      · obtain ⟨left', read', right', ht', hrule', hstart', hstop'⟩ := hothers.reads other hother
        obtain ⟨rfl, heq⟩ := List.append_inj (ht'.symm.trans ht) (by omega)
        obtain ⟨rfl, hvalue⟩ := h.unique heq hrule' hrule
        have hmark : mark = other := by
          cases mark
          cases other
          simp_all
        rwa [hmark]

/-- The matches by a rule are those that a form of the rule finds. -/
theorem marks_iff {t : Text} {marks : List (Found α)} :
    rule.Marks t marks ↔ marks = form.findAll t := by
  refine ⟨fun hmarks => ?_, fun heq => heq ▸ h.marks_findAll t⟩
  let r : Found α → Found α → Prop := fun mark next => mark.start < next.start
  have : Std.Irrefl r := ⟨fun _ => Nat.lt_irrefl _⟩
  have : Std.Antisymm r := ⟨fun _ _ hlt hlt' => absurd hlt (Nat.lt_asymm hlt')⟩
  have hsorted : ∀ {marks : List (Found α)}, rule.Marks t marks → marks.Pairwise r :=
    fun hmarks => hmarks.ordered.imp_of_mem fun hmark _ hle =>
      Nat.lt_of_lt_of_le (h.start_lt_stop hmarks hmark) hle
  have hfound := h.marks_findAll t
  exact List.Pairwise.eq_of_mem_iff (r := r) (hsorted hmarks) (hsorted hfound) fun mark =>
    ⟨h.mem_of_marks hmarks hfound, h.mem_of_marks hfound hmarks⟩

end Follows

end Form

end Stencil
