import Stencil.Proofs.Skeleton.Info
import Stencil.Proofs.Text.Matches

/-!
# Conversion as a renaming

A template that is converted for no page in particular only has the keywords of its markers
exchanged, each for one of the same length. So nothing moves: offsets, lines and columns stay
(`length_converted`, `lineStarts_converted`), every comment is found where it was
(`commentsFrom_converted`), and every marker says what it said, on the page's side
(`classify_convertBody`, `scan_converted`). Outside the exchanged markers no glyph changes
(`getElem?_converted`), and a second conversion finds nothing to exchange (`toPage_renames`).
-/

namespace Stencil

namespace Position

theorem startsBehind_append (p : Nat) (t u : Text) :
    startsBehind p (t ++ u) = startsBehind p t ++ startsBehind (p + t.length) u := by
  induction t generalizing p with
  | nil => rfl
  | cons g t ih =>
      have hplace : p + (g :: t).length = p + 1 + t.length := by
        rw [List.length_cons]
        omega
      rw [List.cons_append, startsBehind, startsBehind, ih, hplace]
      split <;> rfl

theorem startsBehind_eq_nil {t : Text} (h : Glyph.char '\n' ∉ t) (p : Nat) :
    startsBehind p t = [] := by
  induction t generalizing p with
  | nil => rfl
  | cons g t ih =>
      have hg : g ≠ .char '\n' := fun heq => h (heq ▸ List.mem_cons_self)
      rw [startsBehind, if_neg hg, ih fun hm => h (List.mem_cons_of_mem _ hm)]

/-- Words hold no line feed, so one may stand for another of its length. -/
theorem startsBehind_exchange {word word' : Text} (hword : Marker.IsWord word)
    (hword' : Marker.IsWord word') (hlength : word'.length = word.length) (p : Nat) (t u : Text) :
    startsBehind p (t ++ (word' ++ u)) = startsBehind p (t ++ (word ++ u)) := by
  have hnone : ∀ {w : Text}, Marker.IsWord w → ∀ q, startsBehind q w = [] := fun hw =>
    startsBehind_eq_nil fun hm => absurd (hw.letters _ hm) (by decide)
  simp only [startsBehind_append, hnone hword, hnone hword', hlength]

end Position

namespace Marker

namespace Kind

theorem length_of_ofKeyword? {word : Text} {kind : Kind} (h : ofKeyword? word = some kind) :
    word.length = kind.keyword.length := by
  have hfound := List.find?_some h
  have hsame : word.map Glyph.asciiLower = kind.keyword.map Glyph.asciiLower := beq_iff_eq.mp hfound
  simpa only [List.length_map] using congrArg List.length hsame

theorem length_keyword_onPage (kind : Kind) :
    kind.onPage.keyword.length = kind.keyword.length := by
  rcases kind with side | side | side | _ | _ <;> (try cases side) <;>
    simp [onPage, keyword, Text.ofString]

theorem nameKey?_onPage (kind : Kind) : kind.onPage.nameKey? = kind.nameKey? := by
  rcases kind with side | side | side | _ | _ <;> rfl

theorem onPage_eq_binding_iff (kind : Kind) : kind.onPage = .binding ↔ kind = .binding := by
  rcases kind with side | side | side | _ | _ <;> simp [onPage]

end Kind

end Marker

namespace Skeleton

open Marker

theorem areQuiet_nil : AreQuiet [] := fun _ h => absurd h List.not_mem_nil

theorem onPage_eq_self {kind : Kind} (h : kind ∉ templateKinds) : kind.onPage = kind := by
  rcases kind with (_ | _) | (_ | _) | (_ | _) | _ | _ <;>
    first
      | rfl
      | exact absurd (by decide) h

theorem onPage_not_mem_templateKinds (kind : Kind) : kind.onPage ∉ templateKinds := by
  rcases kind with side | side | side | _ | _ <;> simp [Kind.onPage, templateKinds]

/-! ## One comment -/

/-- Where no page gives values, a body stays or gets another keyword. -/
theorem convertBody_nil_cases (body : Text) :
    (convertBody [] body = body ∧ ¬ Says templateKinds body) ∨ ∃ kind ∈ templateKinds,
      kind? body = some kind ∧ convertBody [] body = rename kind.onPage.keyword body := by
  by_cases hsays : Says templateKinds body
  · obtain ⟨kind, hmem, hkind⟩ := hsays
    refine Or.inr ⟨kind, hmem, hkind, ?_⟩
    simp only [templateKinds, List.mem_cons, List.not_mem_nil, or_false] at hmem
    rcases hmem with rfl | rfl | rfl <;> rw [convertBody, hkind] <;> rfl
  · refine Or.inl ⟨?_, hsays⟩
    rcases convertBody_cases [] body with heq | ⟨kind, hmem, hkind, -⟩
    · exact heq
    · exact absurd ⟨kind, hmem, hkind⟩ hsays

/-- The keyword that a marker is given is as long as its own. -/
theorem exists_renamed {body : Text} {kind : Kind} (h : kind? body = some kind) :
    ∃ gap word rest : Text, body = gap ++ (word ++ rest) ∧ IsWord word ∧
      kind.onPage.keyword.length = word.length ∧
      rename kind.onPage.keyword body = gap ++ (kind.onPage.keyword ++ rest) := by
  obtain ⟨word, rest, hfirst, hof⟩ := exists_firstWord?_of_kind? h
  obtain ⟨gap, rfl, hgap, hword, hrest⟩ := firstWord?_eq_some_iff.mp hfirst
  refine ⟨gap, word, rest, rfl, hword, ?_, rename_eq hgap hword hrest _⟩
  rw [kind.length_keyword_onPage, Kind.length_of_ofKeyword? hof]

theorem length_convertBody (body : Text) : (convertBody [] body).length = body.length := by
  rcases convertBody_nil_cases body with ⟨heq, -⟩ | ⟨kind, -, hkind, heq⟩
  · rw [heq]
  · obtain ⟨gap, word, rest, hbody, -, hlength, hrenamed⟩ := exists_renamed hkind
    rw [heq, hrenamed, hbody]
    simp only [List.length_append, hlength]

theorem length_wrap_convertBody (body : Text) :
    (wrap (convertBody [] body)).length = (wrap body).length := by
  rw [length_wrap, length_wrap, length_convertBody]

theorem startsBehind_convertBody (p : Nat) (body : Text) :
    Position.startsBehind p (wrap (convertBody [] body)) = Position.startsBehind p (wrap body) := by
  rcases convertBody_nil_cases body with ⟨heq, -⟩ | ⟨kind, -, hkind, heq⟩
  · rw [heq]
  · obtain ⟨gap, word, rest, hbody, hword, hlength, hrenamed⟩ := exists_renamed hkind
    have hwrap : ∀ w : Text, wrap (gap ++ (w ++ rest)) = (opener ++ gap) ++ (w ++ (rest ++ closer)) :=
      fun w => by simp only [wrap, List.append_assoc]
    rw [heq, hrenamed, hbody, hwrap, hwrap]
    exact Position.startsBehind_exchange hword kind.onPage.isWord_keyword hlength p _ _

/-- A comment keeps its attributes and moves to the page's side. -/
theorem classify_convertBody (body : Text) : classify (convertBody [] body) =
    (classify body).map fun (kind, attributes) => (kind.onPage, attributes) := by
  rcases convertBody_nil_cases body with ⟨heq, hsays⟩ | ⟨kind, -, hkind, heq⟩
  · rw [heq]
    cases hclass : classify body with
    | none => rfl
    | some read =>
        obtain ⟨kind, attributes⟩ := read
        have hkind : kind? body = some kind := kind?_eq_some_iff.mpr ⟨attributes, hclass⟩
        rw [says_iff_mem hkind] at hsays
        simp only [Option.map_some, onPage_eq_self hsays]
  · obtain ⟨attributes, hclass⟩ := kind?_eq_some_iff.mp hkind
    rw [heq, hclass, Option.map_some,
      classify_rename hclass kind.nameKey?_onPage kind.onPage_eq_binding_iff]

/-! ## All comments of a text -/

theorem length_converted (t : Text) : (converted [] t).length = t.length := by
  induction t using commentInduction with
  | plain t ht => rw [converted_eq_self [] ht]
  | comment u body v hu hbody ih =>
      rw [converted_insert [] u hbody, converted_eq_self [] hu]
      simp only [List.length_append, length_wrap_convertBody, ih]

theorem startsBehind_converted (p : Nat) (t : Text) :
    Position.startsBehind p (converted [] t) = Position.startsBehind p t := by
  induction t using commentInduction generalizing p with
  | plain t ht => rw [converted_eq_self [] ht]
  | comment u body v hu hbody ih =>
      rw [converted_insert [] u hbody, converted_eq_self [] hu]
      simp only [Position.startsBehind_append, startsBehind_convertBody, length_wrap_convertBody, ih]

theorem lineStarts_converted (t : Text) :
    Position.lineStarts (converted [] t) = Position.lineStarts t := by
  rw [Position.lineStarts, Position.lineStarts, startsBehind_converted]

/-- Every comment stays in its place. -/
theorem commentsFrom_converted (p : Nat) (t : Text) : commentsFrom p (converted [] t) =
    (commentsFrom p t).map fun c => ⟨c.start, convertBody [] c.body⟩ := by
  induction t using commentInduction generalizing p with
  | plain t ht =>
      have hnone : commentsFrom p t = [] :=
        List.map_eq_nil_iff.mp ((map_body_commentsFrom_eq p t).trans ht)
      rw [converted_eq_self [] ht, hnone]
      rfl
  | comment u body v hu hbody ih =>
      have hnone : commentsFrom p u = [] :=
        List.map_eq_nil_iff.mp ((map_body_commentsFrom_eq p u).trans hu)
      rw [converted_insert [] u hbody, converted_eq_self [] hu,
        commentsFrom_insert p u (isBody_convertBody areQuiet_nil hbody),
        commentsFrom_insert p u hbody, hnone, ih, length_wrap_convertBody]
      rfl

/-- A marker as it stands in the converted text: the same in all but its keyword. -/
def pageToken (token : Token) : Token :=
  { token with kind := token.kind.onPage, raw := convert [] token }

theorem tokenOf?_convertBody (starts : List Nat) (c : Comment) :
    tokenOf? starts ⟨c.start, convertBody [] c.body⟩ = (tokenOf? starts c).map pageToken := by
  have hstop : (Comment.mk c.start (convertBody [] c.body)).stop = c.stop := by
    rw [Comment.stop, Comment.stop, length_convertBody]
  cases htoken : tokenOf? starts c with
  | none =>
      have hclass : classify c.body = none := Option.map_eq_none_iff.mp htoken
      rw [tokenOf?, classify_convertBody, hclass]
      rfl
  | some token =>
      have hraw := convert_eq_wrap htoken []
      obtain ⟨⟨kind, attributes⟩, hclass, rfl⟩ := Option.map_eq_some_iff.mp htoken
      rw [tokenOf?, classify_convertBody, hclass, Option.map_some, Option.map_some, Option.map_some,
        pageToken, hraw, hstop]
      simp only [Kind.nameKey?_onPage, Comment.raw, wrap]

theorem scan_converted (t : Text) : scan (converted [] t) = (scan t).map pageToken := by
  rw [scan_eq_tokensFrom, scan_eq_tokensFrom, tokensFrom, tokensFrom, commentsFrom_converted,
    lineStarts_converted, List.filterMap_map, List.map_filterMap]
  exact List.filterMap_congr fun c _ => tokenOf?_convertBody _ c

/-- No glyph changes outside comments that are markers of templates. -/
theorem getElem?_converted_of_comments {p i : Nat} {t : Text}
    (h : ∀ c ∈ commentsFrom p t, Says templateKinds c.body → p + i < c.start ∨ c.stop ≤ p + i) :
    (converted [] t)[i]? = t[i]? := by
  induction t using commentInduction generalizing p i with
  | plain t ht => rw [converted_eq_self [] ht]
  | comment u body v hu hbody ih =>
      rw [commentsFrom_insert p u hbody] at h
      rw [converted_insert [] u hbody, converted_eq_self [] hu]
      by_cases hbefore : i < u.length
      · rw [List.getElem?_append_left hbefore, List.getElem?_append_left hbefore]
      · have hlength := length_wrap_convertBody body
        rw [List.getElem?_append_right (Nat.le_of_not_lt hbefore),
          List.getElem?_append_right (Nat.le_of_not_lt hbefore)]
        by_cases hinside : i - u.length < (wrap body).length
        · rcases convertBody_nil_cases body with ⟨heq, -⟩ | ⟨kind, hmem, hkind, -⟩
          · rw [heq, List.getElem?_append_left hinside, List.getElem?_append_left hinside]
          · have hout := h ⟨p + u.length, body⟩ (by simp) ⟨kind, hmem, hkind⟩
            rw [Comment.stop_eq] at hout
            dsimp only at hout
            omega
        · rw [List.getElem?_append_right (by omega), List.getElem?_append_right (by omega), hlength]
          refine ih (p := p + u.length + (wrap body).length) fun c hc hsays => ?_
          have hout := h c (by simp [hc]) hsays
          omega

theorem getElem?_converted {t : Text} {i : Nat}
    (h : ∀ token ∈ scan t, token.kind ∈ templateKinds → i < token.start ∨ token.stop ≤ i) :
    (converted [] t)[i]? = t[i]? := by
  refine getElem?_converted_of_comments (p := 0) fun c hc hsays => ?_
  obtain ⟨kind, hmem, hkind⟩ := hsays
  obtain ⟨token, htoken, rfl⟩ := exists_tokenOf? (Position.lineStarts t) hkind
  obtain ⟨-, -, hstart, hstop, -⟩ := tokenOf?_eq_some htoken
  rw [← hstart, ← hstop, Nat.zero_add]
  exact h token (List.mem_filterMap.mpr ⟨c, hc, htoken⟩) hmem

/-- What has been converted holds no marker of templates any more. -/
theorem converted_converted (t : Text) : converted [] (converted [] t) = converted [] t := by
  refine List.ext_getElem? fun i => getElem?_converted fun token htoken hmem => ?_
  rw [scan_converted] at htoken
  obtain ⟨token', -, rfl⟩ := List.mem_map.mp htoken
  exact absurd hmem (onPage_not_mem_templateKinds token'.kind)

/-- Where no comment describes the template, nothing is dropped, so the page text is the template's
with keywords exchanged: as long, the same outside template markers, with the same markers in the
same places, and left as it is by a second conversion. -/
theorem toPage_renames {t : Text} (h : infoForm.findAll t = []) :
    (toPage [] t).length = t.length ∧
      (∀ i, (∀ token ∈ scan t, token.kind ∈ templateKinds → i < token.start ∨ token.stop ≤ i) →
        (toPage [] t)[i]? = t[i]?) ∧
      scan (toPage [] t) = (scan t).map pageToken ∧ toPage [] (toPage [] t) = toPage [] t := by
  have habsent : infoForm.IsAbsent (converted [] t) :=
    isAbsent_converted areQuiet_nil t (Form.isAbsent_of_findAll_eq_nil isBlind_infoForm h)
  have hagain : toPage [] (converted [] t) = converted [] t := by
    rw [toPage_eq_converted areQuiet_nil
      (Form.findFrom_of_isAbsent isBlind_infoForm habsent 0 none), converted_converted]
  rw [toPage_eq_converted areQuiet_nil h]
  exact ⟨length_converted t, fun i => getElem?_converted, scan_converted t, hagain⟩

/-- An opener that is never closed, keywords in mixed case, one of them in a value as well. -/
def mixedTemplate : Text :=
  "<!-- x <!--\nTEMPLATEPARAM name=\"TemplateParam\" --><!-- templateBeginEditable name=\"a\" -->"

theorem toPage_mixedTemplate : infoForm.findAll mixedTemplate = [] ∧
    toPage [] (toPage [] mixedTemplate) = toPage [] mixedTemplate ∧ toPage [] mixedTemplate =
      ("<!-- x <!--\nInstanceParam name=\"TemplateParam\" --><!-- InstanceBeginEditable name=\"a\" -->"
        : Text) := by
  have hnone : infoForm.findAll mixedTemplate = [] := by decide +kernel
  obtain ⟨-, -, -, hagain⟩ := toPage_renames hnone
  refine ⟨hnone, hagain, ?_⟩
  rw [mixedTemplate]
  repeat rw [Text.ofString_ofList]
  decide +kernel

end Skeleton

end Stencil
