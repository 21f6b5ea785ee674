import Stencil.Proofs.Tag.Cuts

/-!
# A comment before a closing tag

A start tag that has begun before a comment and is still open there would end with the comment. It
cannot be open where the comment stands right before a closing tag: the search that found the
closing tag would have gone on behind that start tag instead (`startHead?_of_closing`). So such a
comment leaves the start tags before it and behind it as they are, and nothing ends in it
(`startsOf_inlay`).
-/

namespace Stencil

open Marker

namespace Tag

/-- A start tag is a tag that does not close. -/
theorem anyHead?_of_startHead? {s name : Text} (h : startHead? s = some name) :
    anyHead? s = some (false, name) := by
  unfold startHead? at h
  split at h
  · next r =>
    have hslash : r.head? ≠ some (.char '/') := by
      cases r with
      | nil => exact fun heq => by cases heq
      | cons g r =>
          intro heq
          rw [Option.some.inj heq, nameHead?, if_neg (by decide)] at h
          cases h
    rw [anyHead?_of_not_slash hslash, h]
    rfl
  · cases h

/-- What is read of a tag has its only `>` at the end. -/
theorem IsTagForm.exists_of_mem_findAll {α : Type} {form : Form α} {head? : Text → Option α}
    (h : IsTagForm form head?) {t : Text} {found : Found α} (hfound : found ∈ form.findAll t) :
    ∃ u r v, t = u ++ (r ++ .char '>' :: v) ∧ Glyph.char '>' ∉ r ∧ head? r = some found.value ∧
      found.start = u.length ∧ found.stop = u.length + (r.length + 1) := by
  obtain ⟨u, before, read, rest, rfl, -, hread, hstart, hstop⟩ :=
    Form.exists_split_of_mem_findFrom h.isReader hfound
  rw [Nat.zero_add] at hstart
  rw [h.form_eq] at hread
  obtain ⟨⟨r, v⟩, hup, hread⟩ := Option.bind_eq_some_iff.mp hread
  obtain ⟨value, hvalue, heq⟩ := Option.map_eq_some_iff.mp hread
  obtain ⟨rfl, rfl⟩ := Prod.mk.inj heq
  obtain ⟨hsplit, hnot⟩ := Text.upTo?_eq_some_iff.mp hup
  have hlength := congrArg List.length hsplit
  simp only [List.length_append, List.length_cons] at hlength
  exact ⟨u, r, v, by rw [hsplit], hnot, hvalue, hstart, by omega⟩

/-- No start tag is open where a closing tag was found. -/
theorem startHead?_of_closing {name t u s : Text} (h : t.length ∈ closingsOf name (t ++ u))
    (hne : s ≠ []) (hs : s <:+ t) (hopen : Glyph.char '>' ∉ s) : startHead? s = none := by
  rw [Option.eq_none_iff_forall_ne_some]
  intro value hvalue
  obtain ⟨x, rfl⟩ := hs
  rw [closingsOf_eq] at h
  obtain ⟨closing, hclosing, hplace⟩ := List.mem_map.mp h
  have hclosing := (List.mem_filter.mp hclosing).1
  -- behind the place comes the closing tag, up to a `>`
  obtain ⟨y, r, v, htext, hnot, hread, hstart, -⟩ :=
    isTagForm_anyForm.exists_of_mem_findAll hclosing
  obtain ⟨rfl, rfl⟩ := List.append_inj htext (by omega)
  obtain ⟨r', rfl⟩ : ∃ r', r = .char '<' :: r' := by
    have hopens := isTagForm_anyForm.opens hread
    cases r with
    | nil => cases hopens
    | cons g r => exact ⟨r, by rw [Option.some.inj hopens]⟩
  -- there the start tag would end, too
  have hread' : anyForm none (s ++ (.char '<' :: r' ++ .char '>' :: v)) ≠ none := by
    have hsplit : Text.upTo? (.char '>') (s ++ (.char '<' :: r' ++ .char '>' :: v)) =
        some (s ++ .char '<' :: r', v) := by
      refine Text.upTo?_eq_some_iff.mpr ⟨(List.append_assoc _ _ _).symm, fun hmem => ?_⟩
      exact (List.mem_append.mp hmem).elim hopen hnot
    rw [isTagForm_anyForm.form_eq, hsplit, Option.bind_some]
    dsimp only
    rw [isTagForm_anyForm.stops _ hne, anyHead?_of_startHead? hvalue, Option.map_some]
    exact Option.some_ne_none _
  obtain ⟨found, hfound, hle, hlt⟩ := Form.exists_found_of_read isTagForm_anyForm.isBlind
    isTagForm_anyForm.isReader (t := x) hread' 0 none (Nat.zero_le _)
  rw [← List.append_assoc] at hfound
  rw [Nat.zero_add] at hle hlt
  have hpos := List.length_pos_iff.mpr hne
  rw [List.length_append] at hstart
  have hstop : found.stop ≤ closing.start :=
    Form.stop_le_of_start_lt isTagForm_anyForm.isReader hfound hclosing (by omega)
  -- but a tag ends with a `>`, and there is none before the place
  obtain ⟨y, r, w, htext, -, -, -, hend⟩ := isTagForm_anyForm.exists_of_mem_findAll hfound
  refine hopen ?_
  have hmem : (x ++ s ++ (.char '<' :: r' ++ .char '>' :: v))[found.stop - 1]? =
      some (Glyph.char '>') := by
    rw [htext, hend, List.getElem?_append_right (by omega)]
    simp
  rw [List.append_assoc, List.getElem?_append_right (by omega),
    List.getElem?_append_left (by omega)] at hmem
  exact List.mem_of_getElem? hmem

/-- A comment without angle brackets that is written before a closing tag, with blanks behind it,
moves the start tags behind it, and nothing more. -/
theorem startsOf_inlay {name name' t u body gap : Text} (h : t.length ∈ closingsOf name (t ++ u))
    (hbody : IsBare body) (hgap : gap.isBlank = true) :
    startsOf name' (t ++ ((wrap body ++ gap) ++ u)) = startsOf name' t ++
      (startsOf name' u).map ((t ++ (wrap body ++ gap)).length + ·) := by
  have hform := isTagForm_startForm
  have hno : Glyph.char '<' ∉ gap := Text.not_mem_of_isBlank hgap (by decide)
  have hinlay : startForm.findAll ((wrap body ++ gap) ++ u) =
      (startForm.findAll u).map (Found.shift (wrap body ++ gap).length) := by
    have hcomment := hform.findAll_append_of_end (opener ++ (body ++ [.char '-', .char '-']))
      (gap ++ u)
    rw [show (opener ++ (body ++ [Glyph.char '-', .char '-'])) ++ [.char '>'] = wrap body by
      simp [wrap, closer]] at hcomment
    rw [List.append_assoc, hcomment, hform.findAll_append_of_no_start hno, Form.findAll,
      Form.findFrom_of_isAbsent hform.isBlind (hform.isAbsent_wrap hbody), List.nil_append,
      Found.map_shift_shift, List.length_append]
  have hbefore : startForm.findAll (t ++ ((wrap body ++ gap) ++ u)) = startForm.findAll t ++
      (startForm.findAll ((wrap body ++ gap) ++ u)).map (Found.shift t.length) := by
    refine Form.findAll_append hform.isBlind hform.isReader fun s hne hs => ?_
    by_cases hend : Glyph.char '>' ∈ s
    · exact hform.form_append hend _
    · -- what begins here is no start tag
      have hhead := startHead?_of_closing h hne hs hend
      have hclosed : Glyph.char '>' ∈ s ++ wrap body := by simp [wrap, closer]
      rw [hform.form_eq none s, Text.upTo?_eq_none_iff.mpr hend, List.append_assoc (wrap body),
        ← List.append_assoc, hform.form_append hclosed, hform.form_append_wrap hne hend hbody, hhead]
      rfl
  rw [startsOf_eq, startsOf_eq, startsOf_eq, hbefore, hinlay, Found.map_shift_shift,
    ← List.length_append, List.filter_append, List.map_append, List.filter_map, List.map_map,
    List.map_map]
  rfl

end Tag

end Stencil
