import Stencil.Marker.Scan
import Stencil.Proofs.Text.Forms

/-!
# Comments of joined texts

What the scan finds in a text put together from parts. A comment is read from its opener to the
first closer, and no other opener may come between (`IsBody`), so

- whatever stands behind a comment does not change how it is read (`commentAt?_append`), hence the
  parts of a text hold no comments but those of the whole (`mem_bodies_append_left`,
  `mem_bodies_append_right`);
- an opener ends everything that is still open before it, so a text may be cut in front of one
  (`commentsFrom_append_opener`), and a comment put anywhere into a text is always found
  (`bodies_insert`);
- the comments of a text stand one behind the other and within it (`pairwise_commentsFrom`).

`commentInduction` takes a text apart comment by comment; it is the induction that every statement
about rewritten comments goes by.
-/

namespace Stencil

namespace Text

theorem isPrefixOf_append_of_length_le {p t : Text} (u : Text) (h : p.length ≤ t.length) :
    p.isPrefixOf (t ++ u) = p.isPrefixOf t := by
  induction p generalizing t with
  | nil => rfl
  | cons a p ih =>
      cases t with
      | nil => simp at h
      | cons b t =>
          simp only [List.cons_append, List.isPrefixOf]
          rw [ih (by simpa using h)]

/-- A glyph that a text does not hold ends every comparison with that text. -/
theorem isPrefixOf_append_cons {p : Text} {g : Glyph} (hg : g ∉ p) (t u : Text) :
    p.isPrefixOf (t ++ g :: u) = p.isPrefixOf t := by
  induction p generalizing t with
  | nil => rfl
  | cons a p ih =>
      have hga : g ≠ a := fun h => hg (h ▸ List.mem_cons_self)
      have hgp : g ∉ p := fun h => hg (List.mem_cons_of_mem _ h)
      cases t with
      | nil => simp [List.isPrefixOf, beq_eq_false_iff_ne.mpr hga.symm]
      | cons b t => simp only [List.cons_append, List.isPrefixOf, ih hgp]

theorem dropHead?_eq_some_iff {head t rest : Text} :
    dropHead? head t = some rest ↔ t = head ++ rest := by
  simp only [dropHead?, List.isPrefixOf?_eq_some_iff_append_eq, eq_comm]

theorem dropHead?_eq_none_iff {head t : Text} :
    dropHead? head t = none ↔ head.isPrefixOf t = false := by
  rw [← Bool.not_eq_true, List.isPrefixOf_iff_prefix, Option.eq_none_iff_forall_ne_some]
  simp only [ne_eq, dropHead?_eq_some_iff]
  exact ⟨fun h ⟨u, hu⟩ => h u hu.symm, fun h u hu => h ⟨u, hu.symm⟩⟩

end Text

namespace Marker

/-- A comment with this body. -/
def wrap (body : Text) : Text := opener ++ body ++ closer

/-- What can be the body of a comment: the first closer behind it is the one that is put there, and
no opener comes before that one. -/
def IsBody (body : Text) : Prop := bodyBefore? (body ++ closer) = some body

instance (body : Text) : Decidable (IsBody body) :=
  inferInstanceAs (Decidable (bodyBefore? (body ++ closer) = some body))

/-- What the comments of a text say, in order. -/
def bodies (t : Text) : List Text := (comments t).map (·.body)

theorem length_wrap (body : Text) : (wrap body).length = body.length + 7 := by
  simp [wrap, opener, closer]

theorem wrap_inj {body body' : Text} (h : wrap body = wrap body') : body = body' := by
  rw [wrap, wrap, List.append_assoc, List.append_assoc] at h
  exact List.append_cancel_right (List.append_cancel_left h)

theorem Comment.stop_eq (c : Comment) : c.stop = c.start + (wrap c.body).length := by
  simp [Comment.stop, wrap, Nat.add_assoc]

/-! ## Reading one comment -/

theorem length_of_bodyBefore? {t body : Text} (h : bodyBefore? t = some body) : 3 ≤ t.length := by
  induction t generalizing body with
  | nil => simp [bodyBefore?] at h
  | cons g t ih =>
      rw [bodyBefore?] at h
      split at h
      · next hc => exact (List.isPrefixOf_iff_prefix.mp hc).length_le
      · split at h
        · cases h
        · obtain ⟨body', hb, -⟩ := Option.map_eq_some_iff.mp h
          exact Nat.le_succ_of_le (ih hb)

theorem bodyBefore?_append {t body : Text} (h : bodyBefore? t = some body) (u : Text) :
    bodyBefore? (t ++ u) = some body := by
  induction t generalizing body with
  | nil => simp [bodyBefore?] at h
  | cons g t ih =>
      rw [bodyBefore?] at h
      rw [List.cons_append, bodyBefore?, ← List.cons_append]
      split at h
      · next hc =>
        rw [List.cons_append, ← List.cons_append, Text.isPrefixOf_append_of_length_le u
          (List.isPrefixOf_iff_prefix.mp hc).length_le, if_pos hc, h]
      · next hc =>
        split at h
        · cases h
        · next ho =>
          obtain ⟨body', hb, rfl⟩ := Option.map_eq_some_iff.mp h
          have hlen : 4 ≤ (g :: t).length := Nat.succ_le_succ (length_of_bodyBefore? hb)
          rw [Text.isPrefixOf_append_of_length_le (p := closer) u (Nat.le_of_succ_le hlen),
            if_neg hc, Text.isPrefixOf_append_of_length_le (p := opener) u hlen, if_neg ho, ih hb,
            Option.map_some]

theorem bodyBefore?_eq_some_iff {t body : Text} :
    bodyBefore? t = some body ↔ IsBody body ∧ ∃ rest, t = body ++ closer ++ rest := by
  constructor
  · intro h
    induction t generalizing body with
    | nil => simp [bodyBefore?] at h
    | cons g t ih =>
        rw [bodyBefore?] at h
        split at h
        · next hc =>
          cases h
          obtain ⟨rest, hrest⟩ := List.isPrefixOf_iff_prefix.mp hc
          exact ⟨rfl, rest, hrest.symm⟩
        · next hc =>
          split at h
          · cases h
          · next ho =>
            obtain ⟨body', hb, rfl⟩ := Option.map_eq_some_iff.mp h
            obtain ⟨hbody, rest, rfl⟩ := ih hb
            refine ⟨?_, rest, rfl⟩
            have hlen : 4 ≤ (g :: (body' ++ closer)).length := by
              simp [closer]
            rw [← List.cons_append, Text.isPrefixOf_append_of_length_le (p := closer) rest
              (Nat.le_of_succ_le hlen)] at hc
            rw [← List.cons_append, Text.isPrefixOf_append_of_length_le (p := opener) rest
              hlen] at ho
            rw [IsBody, List.cons_append, bodyBefore?, if_neg hc, if_neg ho,
              show bodyBefore? (body' ++ closer) = some body' from hbody, Option.map_some]
  · rintro ⟨hbody, rest, rfl⟩
    exact bodyBefore?_append hbody rest

theorem commentAt?_eq_some_iff {t body : Text} :
    commentAt? t = some body ↔ IsBody body ∧ ∃ rest, t = wrap body ++ rest := by
  simp only [commentAt?, Option.bind_eq_some_iff, Text.dropHead?_eq_some_iff,
    bodyBefore?_eq_some_iff]
  constructor
  · rintro ⟨inner, rfl, hbody, rest, rfl⟩
    exact ⟨hbody, rest, by simp [wrap]⟩
  · rintro ⟨hbody, rest, rfl⟩
    exact ⟨body ++ closer ++ rest, by simp [wrap], hbody, rest, rfl⟩

theorem commentAt?_append {t body : Text} (h : commentAt? t = some body) (u : Text) :
    commentAt? (t ++ u) = some body := by
  obtain ⟨hbody, rest, rfl⟩ := commentAt?_eq_some_iff.mp h
  exact commentAt?_eq_some_iff.mpr ⟨hbody, rest ++ u, by simp⟩

theorem IsBody.of_cons {g : Glyph} {body : Text} (h : IsBody (g :: body)) :
    IsBody body ∧ opener.isPrefixOf (g :: (body ++ closer)) = false := by
  rw [IsBody, List.cons_append, bodyBefore?] at h
  split at h
  · cases h
  · split at h
    · cases h
    · next ho =>
      obtain ⟨body', hb, heq⟩ := Option.map_eq_some_iff.mp h
      obtain rfl := (List.cons.inj heq).2
      exact ⟨hb, Bool.eq_false_iff.mpr ho⟩

/-! ## Cutting in front of an opener -/

theorem closer_isPrefixOf_append_opener (t u : Text) :
    closer.isPrefixOf (t ++ (opener ++ u)) = closer.isPrefixOf t :=
  Text.isPrefixOf_append_cons (g := .char '<') (by decide) t _

theorem opener_isPrefixOf_append_opener (g : Glyph) (t u : Text) :
    opener.isPrefixOf (g :: (t ++ (opener ++ u))) = opener.isPrefixOf (g :: t) :=
  congrArg (Glyph.char '<' == g && ·)
    (Text.isPrefixOf_append_cons (p := opener.tail) (g := .char '<') (by decide) t _)

theorem bodyBefore?_append_opener (t u : Text) :
    bodyBefore? (t ++ (opener ++ u)) = bodyBefore? t := by
  induction t with
  | nil => rfl
  | cons g t ih =>
      have hc := closer_isPrefixOf_append_opener (g :: t) u
      rw [List.cons_append] at hc ⊢
      rw [bodyBefore?, bodyBefore?, hc, opener_isPrefixOf_append_opener, ih]

theorem dropHead?_append_opener (g : Glyph) (t u : Text) :
    Text.dropHead? opener (g :: (t ++ (opener ++ u))) =
      (Text.dropHead? opener (g :: t)).map (· ++ (opener ++ u)) := by
  cases hhead : Text.dropHead? opener (g :: t) with
  | none =>
      rw [Option.map_none, Text.dropHead?_eq_none_iff, opener_isPrefixOf_append_opener,
        ← Text.dropHead?_eq_none_iff, hhead]
  | some inner =>
      rw [Option.map_some, Text.dropHead?_eq_some_iff]
      rw [Text.dropHead?_eq_some_iff] at hhead
      rw [← List.cons_append, hhead, List.append_assoc]

theorem commentAt?_append_opener (g : Glyph) (t u : Text) :
    commentAt? (g :: (t ++ (opener ++ u))) = commentAt? (g :: t) := by
  rw [commentAt?, commentAt?, dropHead?_append_opener]
  cases Text.dropHead? opener (g :: t) with
  | none => rfl
  | some inner => exact bodyBefore?_append_opener inner u

theorem commentsFrom_append_opener (p : Nat) (t u : Text) :
    commentsFrom p (t ++ (opener ++ u)) =
      commentsFrom p t ++ commentsFrom (p + t.length) (opener ++ u) := by
  induction t generalizing p with
  | nil => simp [commentsFrom]
  | cons g t ih =>
      have hlen : p + (g :: t).length = p + 1 + t.length := by
        rw [List.length_cons]; omega
      rw [List.cons_append, commentsFrom, commentsFrom, ih, hlen, commentAt?_append_opener]
      cases commentAt? (g :: t) <;> rfl

/-! ## Passing over a comment -/

theorem commentAt?_of_not_opener {t : Text} (h : opener.isPrefixOf t = false) :
    commentAt? t = none := by
  rw [commentAt?, Text.dropHead?_eq_none_iff.mpr h, Option.bind_none]

theorem commentsFrom_cons_of_not_opener (p : Nat) {g : Glyph} {t : Text}
    (h : opener.isPrefixOf (g :: t) = false) :
    commentsFrom p (g :: t) = commentsFrom (p + 1) t := by
  rw [commentsFrom, commentAt?_of_not_opener h]

/-- No opener stands inside the body of a comment, nor inside its closer. -/
theorem IsBody.not_opener {body : Text} (h : IsBody body) {s : Text} (hs : s ≠ [])
    (hsuffix : s <:+ body ++ closer) (t : Text) : opener.isPrefixOf (s ++ t) = false := by
  induction body with
  | nil =>
      have hcloser : ∀ s : Text, s ≠ [] → s <:+ closer → ∃ g s', s = g :: s' ∧ g ≠ .char '<' := by
        intro s hs hsuffix
        obtain ⟨g, s', rfl⟩ := List.exists_cons_of_ne_nil hs
        refine ⟨g, s', rfl, fun heq => ?_⟩
        exact absurd (heq ▸ hsuffix.subset List.mem_cons_self) (by decide)
      obtain ⟨g, s', rfl, hg⟩ := hcloser s hs hsuffix
      rw [List.cons_append, opener, List.isPrefixOf, beq_eq_false_iff_ne.mpr hg.symm,
        Bool.false_and]
  | cons g body ih =>
      obtain ⟨hbody, ho⟩ := h.of_cons
      rw [List.cons_append] at hsuffix
      rcases List.suffix_cons_iff.mp hsuffix with rfl | hsuffix
      · rw [Text.isPrefixOf_append_of_length_le t (by simp [opener, closer])]
        exact ho
      · exact ih hbody hsuffix

/-- A stretch at whose glyphs no comment begins is passed over. -/
theorem commentsFrom_skip {s t : Text} (p : Nat)
    (h : ∀ s', s' ≠ [] → s' <:+ s → opener.isPrefixOf (s' ++ t) = false) :
    commentsFrom p (s ++ t) = commentsFrom (p + s.length) t := by
  induction s generalizing p with
  | nil => rfl
  | cons g s ih =>
      have hlen : p + (g :: s).length = p + 1 + s.length := by
        rw [List.length_cons]; omega
      have ho := h (g :: s) (List.cons_ne_nil g s) (List.suffix_refl _)
      rw [List.cons_append] at ho
      rw [hlen, ← ih (p + 1) fun s' hne hs => h s' hne (hs.trans (List.suffix_cons g s)),
        List.cons_append, commentsFrom_cons_of_not_opener p ho]

/-- No comment begins inside the body of a comment, nor inside its closer. -/
theorem commentsFrom_body (p : Nat) {body : Text} (h : IsBody body) (t : Text) :
    commentsFrom p (body ++ closer ++ t) = commentsFrom (p + body.length + 3) t := by
  rw [commentsFrom_skip p fun s hne hs => h.not_opener hne hs t, List.length_append]
  rfl

/-- No comment begins inside another. -/
theorem commentsFrom_wrap_suffix (p : Nat) {body : Text} (h : IsBody body) {q q' : Text}
    (hq : q ≠ []) (heq : wrap body = q ++ q') (t : Text) :
    commentsFrom p (q' ++ t) = commentsFrom (p + q'.length) t := by
  obtain ⟨g, q, rfl⟩ := List.exists_cons_of_ne_nil hq
  have htail : [Glyph.char '!', .char '-', .char '-'] ++ (body ++ closer) = q ++ q' := by
    rw [wrap, opener] at heq
    simpa using (List.cons.inj heq).2
  refine commentsFrom_skip p fun s hne hs => ?_
  have hsuffix : s <:+ [Glyph.char '!', .char '-', .char '-'] ++ (body ++ closer) :=
    htail ▸ hs.trans (List.suffix_append q q')
  rcases Text.suffix_append_iff.mp hsuffix with hbody | ⟨s', hne', hdelimiter, rfl⟩
  · exact h.not_opener hne hbody t
  · obtain ⟨a, s', rfl⟩ := List.exists_cons_of_ne_nil hne'
    have ha : a ≠ .char '<' := by
      rintro rfl
      exact absurd (hdelimiter.subset List.mem_cons_self) (by decide)
    rw [opener, List.cons_append, List.cons_append, List.isPrefixOf,
      beq_eq_false_iff_ne.mpr ha.symm, Bool.false_and]

theorem commentsFrom_wrap (p : Nat) {body : Text} (h : IsBody body) (t : Text) :
    commentsFrom p (wrap body ++ t) =
      ⟨p, body⟩ :: commentsFrom (p + (wrap body).length) t := by
  have hat : commentAt? (wrap body ++ t) = some body :=
    commentAt?_eq_some_iff.mpr ⟨h, t, rfl⟩
  have hin : wrap body ++ t = .char '<' :: .char '!' :: .char '-' :: .char '-' ::
      (body ++ closer ++ t) := by simp [wrap, opener]
  rw [hin] at hat ⊢
  rw [commentsFrom, hat, commentsFrom_cons_of_not_opener _ rfl,
    commentsFrom_cons_of_not_opener _ rfl, commentsFrom_cons_of_not_opener _ rfl,
    commentsFrom_body _ h, length_wrap,
    show p + 1 + 1 + 1 + 1 + body.length + 3 = p + (body.length + 7) by omega]

/-- A comment put into a text is found where it was put, and takes nothing from either side. -/
theorem commentsFrom_insert (p : Nat) (t : Text) {body : Text} (h : IsBody body) (u : Text) :
    commentsFrom p (t ++ (wrap body ++ u)) =
      commentsFrom p t ++ ⟨p + t.length, body⟩ ::
        commentsFrom (p + t.length + (wrap body).length) u := by
  have hopen : wrap body ++ u = opener ++ (body ++ closer ++ u) := by simp [wrap]
  rw [hopen, commentsFrom_append_opener, ← hopen, commentsFrom_wrap _ h]

/-! ## What the comments say -/

theorem map_body_commentsFrom (p q : Nat) (t : Text) :
    (commentsFrom p t).map (·.body) = (commentsFrom q t).map (·.body) := by
  induction t generalizing p q with
  | nil => rfl
  | cons g t ih =>
      rw [commentsFrom, commentsFrom]
      cases commentAt? (g :: t) with
      | none => exact ih _ _
      | some body => simp only [List.map_cons, ih (p + 1) (q + 1)]

theorem map_body_commentsFrom_eq (p : Nat) (t : Text) :
    (commentsFrom p t).map (·.body) = bodies t := map_body_commentsFrom p 0 t

@[simp] theorem bodies_nil : bodies [] = [] := rfl

theorem bodies_insert (t : Text) {body : Text} (h : IsBody body) (u : Text) :
    bodies (t ++ (wrap body ++ u)) = bodies t ++ body :: bodies u := by
  rw [bodies, comments, commentsFrom_insert 0 t h, List.map_append, List.map_cons,
    map_body_commentsFrom_eq, map_body_commentsFrom_eq]

theorem bodies_wrap_append {body : Text} (h : IsBody body) (u : Text) :
    bodies (wrap body ++ u) = body :: bodies u := by
  simpa using bodies_insert [] h u

theorem bodies_cons (g : Glyph) (t : Text) :
    bodies (g :: t) = (commentAt? (g :: t)).toList ++ bodies t := by
  rw [bodies, comments, commentsFrom]
  cases commentAt? (g :: t) with
  | none => exact map_body_commentsFrom_eq _ _
  | some body => simp [map_body_commentsFrom_eq]

theorem isBody_of_mem_bodies {t body : Text} (h : body ∈ bodies t) : IsBody body := by
  induction t with
  | nil => simp at h
  | cons g t ih =>
      rw [bodies_cons, List.mem_append, Option.mem_toList] at h
      rcases h with h | h
      · exact (commentAt?_eq_some_iff.mp h).1
      · exact ih h

theorem mem_bodies_append_right {t u body : Text} (h : body ∈ bodies u) :
    body ∈ bodies (t ++ u) := by
  induction t with
  | nil => exact h
  | cons g t ih =>
      rw [List.cons_append, bodies_cons]
      exact List.mem_append_right _ ih

theorem mem_bodies_append_left {t body : Text} (h : body ∈ bodies t) (u : Text) :
    body ∈ bodies (t ++ u) := by
  induction t with
  | nil => simp at h
  | cons g t ih =>
      rw [bodies_cons, List.mem_append, Option.mem_toList] at h
      rw [List.cons_append, bodies_cons, List.mem_append, Option.mem_toList, ← List.cons_append]
      rcases h with h | h
      · exact Or.inl (commentAt?_append h u)
      · exact Or.inr (ih h)

/-- A comment ends with `>`, so nothing that lacks this glyph can be the end of one. -/
theorem commentAt?_append_of_no_end (t : Text) {u : Text} (h : Glyph.char '>' ∉ u) :
    commentAt? (t ++ u) = commentAt? t := by
  cases hat : commentAt? t with
  | some body => exact commentAt?_append hat u
  | none =>
      rw [Option.eq_none_iff_forall_ne_some]
      intro body hbody
      obtain ⟨hb, rest, heq⟩ := commentAt?_eq_some_iff.mp hbody
      suffices hwhole : ∃ w, t = wrap body ++ w by
        rw [commentAt?_eq_some_iff.mpr ⟨hb, hwhole⟩] at hat
        cases hat
      rcases List.append_eq_append_iff.mp heq with ⟨w, hw, hu⟩ | ⟨w, hw, -⟩
      · rcases List.eq_nil_or_concat w with rfl | ⟨w, g, rfl⟩
        · exact ⟨[], by rw [hw, List.append_nil, List.append_nil]⟩
        · -- the last glyph of the closer would stand in `u`
          have hlast := congrArg List.getLast? hw
          simp [wrap, closer] at hlast
          simp [hu, ← hlast] at h
      · exact ⟨w, hw⟩

theorem bodies_append_of_no_end (t : Text) {u : Text} (h : Glyph.char '>' ∉ u) :
    bodies (t ++ u) = bodies t := by
  induction t with
  | nil =>
      induction u with
      | nil => rfl
      | cons g u ih =>
          have hat := commentAt?_append_of_no_end [] h
          rw [List.nil_append] at hat ⊢
          rw [bodies_cons, hat, ← List.nil_append u,
            ih fun hm => h (List.mem_cons_of_mem _ hm)]
          rfl
  | cons g t ih =>
      have hat := commentAt?_append_of_no_end (g :: t) h
      rw [List.cons_append] at hat ⊢
      rw [bodies_cons, bodies_cons, ih, hat]

/-! ## Taking a text apart -/

/-- A text has no comment of a sort, or it has a first one. -/
theorem exists_first (Q : Text → Prop) (t : Text) :
    (∀ body ∈ bodies t, ¬ Q body) ∨
      ∃ u body v, t = u ++ (wrap body ++ v) ∧ (∀ body' ∈ bodies u, ¬ Q body') ∧
        IsBody body ∧ Q body := by
  induction t with
  | nil => exact Or.inl (by simp)
  | cons g t ih =>
      by_cases hhere : ∃ body, commentAt? (g :: t) = some body ∧ Q body
      · obtain ⟨body, hat, hQ⟩ := hhere
        obtain ⟨hbody, rest, heq⟩ := commentAt?_eq_some_iff.mp hat
        exact Or.inr ⟨[], body, rest, heq, by simp, hbody, hQ⟩
      · have hlater : ∀ body, commentAt? (g :: t) = some body → ¬ Q body :=
          fun body hat hQ => hhere ⟨body, hat, hQ⟩
        rcases ih with h | ⟨u, body, v, rfl, hu, hbody, hQ⟩
        · refine Or.inl fun body hb => ?_
          rw [bodies_cons, List.mem_append, Option.mem_toList] at hb
          exact hb.elim (hlater body) (h body)
        · refine Or.inr ⟨g :: u, body, v, rfl, fun body' hb => ?_, hbody, hQ⟩
          rw [bodies_cons, List.mem_append, Option.mem_toList] at hb
          rcases hb with hb | hb
          · exact hlater body' (commentAt?_append hb (wrap body ++ v))
          · exact hu body' hb

theorem exists_text_of_mem_bodies {t body : Text} (h : body ∈ bodies t) :
    IsBody body ∧ ∃ u v, t = u ++ (wrap body ++ v) := by
  rcases exists_first (· = body) t with hnone | ⟨u, b, v, rfl, -, hbody, rfl⟩
  · exact absurd rfl (hnone body h)
  · exact ⟨hbody, u, v, rfl⟩

/-- A comment of two texts joined belongs to one of them, unless it is cut where they meet. -/
theorem mem_bodies_append {t u body : Text} (h : body ∈ bodies (t ++ u))
    (hcut : ∀ x q q' v : Text, t = x ++ q → u = q' ++ v → q ≠ [] → q' ≠ [] →
      wrap body ≠ q ++ q') : body ∈ bodies t ∨ body ∈ bodies u := by
  obtain ⟨hbody, x, v, heq⟩ := exists_text_of_mem_bodies h
  rcases Text.cut_cases heq with ⟨z, -, rfl⟩ | ⟨q, q', hq, hq', hwrap, ht, hu⟩ | ⟨y, rfl, -⟩
  · rw [bodies_insert z hbody]
    exact Or.inr (by simp)
  · exact absurd hwrap (hcut x q q' v ht hu hq hq')
  · rw [bodies_insert x hbody]
    exact Or.inl (by simp)

/-- Induction on a text comment by comment. -/
theorem commentInduction {P : Text → Prop} (plain : ∀ t, bodies t = [] → P t)
    (comment : ∀ u body v, bodies u = [] → IsBody body → P v → P (u ++ (wrap body ++ v)))
    (t : Text) : P t := by
  induction hn : t.length using Nat.strongRecOn generalizing t with
  | ind n ih =>
      rcases exists_first (fun _ => True) t with h | ⟨u, body, v, rfl, hu, hbody, -⟩
      · exact plain t (List.eq_nil_iff_forall_not_mem.mpr fun b hb => h b hb trivial)
      · refine comment u body v (List.eq_nil_iff_forall_not_mem.mpr fun b hb => hu b hb trivial)
          hbody (ih v.length ?_ v rfl)
        simp only [List.length_append, length_wrap] at hn
        omega

/-- Comments stand one behind the other, and all of them inside the text. -/
theorem pairwise_commentsFrom (p : Nat) (t : Text) :
    (commentsFrom p t).Pairwise (fun c c' => c.stop ≤ c'.start) ∧
      ∀ c ∈ commentsFrom p t, p ≤ c.start ∧ c.start < c.stop ∧ c.stop ≤ p + t.length := by
  induction t using commentInduction generalizing p with
  | plain t ht =>
      rw [List.map_eq_nil_iff.mp ((map_body_commentsFrom_eq p t).trans ht)]
      exact ⟨List.Pairwise.nil, List.forall_mem_nil _⟩
  | comment u body v hu hbody ih =>
      have hnone : commentsFrom p u = [] :=
        List.map_eq_nil_iff.mp ((map_body_commentsFrom_eq p u).trans hu)
      obtain ⟨hpairwise, hwithin⟩ := ih (p + u.length + (wrap body).length)
      have hstop : (Comment.mk (p + u.length) body).stop = p + u.length + (wrap body).length :=
        Comment.stop_eq _
      have hlength := length_wrap body
      rw [commentsFrom_insert p u hbody, hnone, List.nil_append]
      refine ⟨List.pairwise_cons.mpr ⟨fun c hc => ?_, hpairwise⟩, fun c hc => ?_⟩
      · rw [hstop]
        exact (hwithin c hc).1
      · rw [List.length_append, List.length_append]
        rcases List.mem_cons.mp hc with rfl | hc
        · rw [hstop]
          dsimp only
          omega
        · obtain ⟨hstart, hlt, hle⟩ := hwithin c hc
          omega

end Marker

end Stencil
