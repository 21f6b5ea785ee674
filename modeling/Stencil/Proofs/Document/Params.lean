import Stencil.Document.Build
import Stencil.Skeleton
import Stencil.Proofs.Marker.Attributes

/-!
# Parameters that a page sets

The parameters of a document are read off its parameter markers. What a page sets a name to is
known when all its markers of that name agree (`param?_collect`); in any case it is what the first of
them says (`param?_collect_eq`, `value_first?`). A value is read from between quotes, so it holds
none (`no_quote_of_mem_collect`), and from a comment, so it holds none of its delimiters
(`isQuiet_of_mem_collect`).
-/

namespace Stencil

open Marker

namespace Param

theorem exists_of_mem_collectFrom {side : Side} {tokens : List Token} :
    ∀ {seen : List Text} {param : Param}, param ∈ collectFrom side seen tokens →
      ∃ token ∈ tokens, token.kind = .param side ∧ param = ofToken token := by
  induction tokens with
  | nil => intro seen param h; cases h
  | cons token tokens ih =>
      intro seen param h
      have hlater : ∀ {seen : List Text}, param ∈ collectFrom side seen tokens →
          ∃ token' ∈ token :: tokens, token'.kind = .param side ∧ param = ofToken token' := fun h => by
        obtain ⟨token', htoken', hparam⟩ := ih h
        exact ⟨token', List.mem_cons_of_mem _ htoken', hparam⟩
      rw [collectFrom] at h
      split at h
      · next hkind =>
        rcases List.mem_cons.mp h with rfl | h
        · exact ⟨token, List.mem_cons_self, hkind.1, rfl⟩
        · exact hlater h
      · exact hlater h

theorem exists_mem_collectFrom {side : Side} {tokens : List Token} {token : Token}
    (hmem : token ∈ tokens) (hkind : token.kind = .param side) :
    ∀ {seen : List Text}, token.name ∉ seen →
      ∃ param ∈ collectFrom side seen tokens, param.name = token.name := by
  induction tokens with
  | nil => cases hmem
  | cons first tokens ih =>
      intro seen hnew
      rw [collectFrom]
      by_cases hsame : first.kind = .param side ∧ first.name = token.name
      · obtain ⟨hfirst, hname⟩ := hsame
        rw [if_pos ⟨hfirst, hname ▸ hnew⟩]
        exact ⟨ofToken first, List.mem_cons_self, hname⟩
      · have hlater : token ∈ tokens := by
          rcases List.mem_cons.mp hmem with rfl | hlater
          · exact absurd ⟨hkind, rfl⟩ hsame
          · exact hlater
        split
        · next hfirst =>
          have hother : token.name ∉ first.name :: seen := by
            intro hm
            rcases List.mem_cons.mp hm with heq | hm
            · exact hsame ⟨hfirst.1, heq.symm⟩
            · exact hnew hm
          obtain ⟨param, hparam, hname⟩ := ih hlater hother
          exact ⟨param, List.mem_cons_of_mem _ hparam, hname⟩
        · exact ih hlater hnew

/-- Every parameter is read off a comment. -/
theorem exists_body_of_mem_collect {side : Side} {t : Text} {param : Param}
    (h : param ∈ collect side (scan t)) : ∃ body ∈ bodies t, kind? body = some (.param side) ∧
      nameOf body = param.name ∧ valueOf body = param.value := by
  obtain ⟨token, htoken, hkind, rfl⟩ := exists_of_mem_collectFrom h
  obtain ⟨c, hc, htoken⟩ := List.mem_filterMap.mp htoken
  obtain ⟨hsaid, hname, -⟩ := tokenOf?_eq_some htoken
  refine ⟨c.body, List.mem_map_of_mem hc, hkind ▸ hsaid, hname, ?_⟩
  obtain ⟨⟨kind, attributes⟩, hclass, rfl⟩ := Option.map_eq_some_iff.mp htoken
  rw [valueOf, hclass]
  rfl

/-- A name that a marker sets is the name of a parameter. -/
theorem exists_param?_collect {side : Side} {t body : Text} (hbody : body ∈ bodies t)
    (hkind : kind? body = some (.param side)) :
    ∃ param, Skeleton.param? (collect side (scan t)) (nameOf body) = some param := by
  rw [← map_body_commentsFrom_eq 0] at hbody
  obtain ⟨c, hc, rfl⟩ := List.mem_map.mp hbody
  obtain ⟨token, htoken, htokenKind⟩ := exists_tokenOf? (Position.lineStarts t) hkind
  have htokenName := (tokenOf?_eq_some htoken).2.1
  obtain ⟨param, hparam, hname⟩ : ∃ param ∈ collect side (scan t), param.name = token.name :=
    exists_mem_collectFrom (List.mem_filterMap.mpr ⟨c, hc, htoken⟩) htokenKind List.not_mem_nil
  have hmem : param ∈ (collect side (scan t)).filter fun param => param.name = nameOf c.body :=
    List.mem_filter.mpr ⟨hparam, by simp [hname, ← htokenName]⟩
  exact Option.isSome_iff_exists.mp (List.getLast?_isSome.mpr (List.ne_nil_of_mem hmem))

/-- What a name is set to when all markers that set it agree. -/
theorem param?_collect {t name value : Text} {body : Text} (hbody : body ∈ bodies t)
    (hkind : kind? body = some (.param .page)) (hname : nameOf body = name)
    (hagree : ∀ body ∈ bodies t, kind? body = some (.param .page) → nameOf body = name →
      valueOf body = value) :
    (Skeleton.param? (collect .page (scan t)) name).map (·.value) = some value := by
  obtain ⟨param, hparam⟩ := exists_param?_collect hbody hkind
  rw [hname] at hparam
  obtain ⟨hmem, hparamName⟩ := List.mem_filter.mp (List.mem_of_getLast? hparam)
  obtain ⟨body', hbody', hkind', hname', hvalue'⟩ := exists_body_of_mem_collect hmem
  rw [hparam, Option.map_some, ← hvalue',
    hagree body' hbody' hkind' (hname'.trans (of_decide_eq_true hparamName))]

/-- The parameter that the first marker of its name gives. -/
def first? (side : Side) (name t : Text) : Option Param :=
  ((scan t).find? fun token => token.kind = .param side && token.name = name).map ofToken

/-- Of each name the first marker is collected, and no other. -/
theorem filter_collectFrom (side : Side) (name : Text) (tokens : List Token) : ∀ seen : List Text,
    (collectFrom side seen tokens).filter (fun param => param.name = name) =
      if name ∈ seen then [] else ((tokens.find? fun token =>
        token.kind = .param side && token.name = name).map ofToken).toList := by
  induction tokens with
  | nil => intro seen; simp [collectFrom]
  | cons token tokens ih =>
      intro seen
      rw [collectFrom]
      by_cases htoken : token.kind = .param side ∧ token.name ∉ seen
      · obtain ⟨hkind, hnew⟩ := htoken
        rw [if_pos ⟨hkind, hnew⟩]
        by_cases hname : token.name = name
        · subst hname
          rw [List.filter_cons_of_pos (by simp [ofToken]), ih, if_pos List.mem_cons_self, if_neg hnew,
            List.find?_cons_of_pos (by simp [hkind])]
          rfl
        · rw [List.filter_cons_of_neg (by simp [ofToken, hname]), ih,
            List.find?_cons_of_neg (by simp [hname])]
          simp [Ne.symm hname]
      · rw [if_neg htoken, ih]
        split
        · rfl
        · next hnew =>
          rw [List.find?_cons_of_neg]
          simp only [Bool.and_eq_true, decide_eq_true_eq]
          rintro ⟨hkind, rfl⟩
          exact htoken ⟨hkind, hnew⟩

theorem mem_collect_iff {side : Side} {t name : Text} {param : Param} :
    param ∈ collect side (scan t) ∧ param.name = name ↔ first? side name t = some param := by
  have hfilter := filter_collectFrom side name (scan t) []
  rw [if_neg List.not_mem_nil] at hfilter
  rw [first?, ← Option.mem_toList, ← hfilter, List.mem_filter, decide_eq_true_eq, collect]

theorem param?_collect_eq (side : Side) (t name : Text) :
    Skeleton.param? (collect side (scan t)) name = first? side name t := by
  have hfilter := filter_collectFrom side name (scan t) []
  rw [if_neg List.not_mem_nil] at hfilter
  rw [Skeleton.param?, collect, hfilter, first?]
  cases (scan t).find? _ <;> rfl

/-- Whether a comment is a marker that gives a parameter. -/
def isGivenBy (side : Side) (name body : Text) : Bool :=
  kind? body = some (.param side) && nameOf body = name

/-- The value is that of the first comment that gives the parameter. -/
theorem value_first? (side : Side) (name t : Text) :
    (first? side name t).map (·.value) = ((bodies t).find? (isGivenBy side name)).map valueOf := by
  rw [first?, scan, bodies, Option.map_map]
  induction comments t with
  | nil => rfl
  | cons c cs ih =>
      cases htoken : tokenOf? (Position.lineStarts t) c with
      | none =>
          have hkind : kind? c.body = none := by
            rw [kind?, Option.map_eq_none_iff]
            exact Option.map_eq_none_iff.mp htoken
          rw [List.filterMap_cons_none htoken, List.map_cons,
            List.find?_cons_of_neg (by simp [isGivenBy, hkind]), ih]
      | some token =>
          obtain ⟨hkind, hname, -⟩ := tokenOf?_eq_some htoken
          have hvalue : valueOf c.body = (ofToken token).value := by
            obtain ⟨⟨kind, attributes⟩, hclass, rfl⟩ := Option.map_eq_some_iff.mp htoken
            rw [valueOf, hclass]
            rfl
          rw [List.filterMap_cons_some htoken, List.map_cons, List.find?_cons, List.find?_cons,
            isGivenBy, hkind, hname]
          simp only [Option.some.injEq]
          split
          · rw [Option.map_some, Option.map_some, hvalue]
            rfl
          · exact ih

end Param

theorem Param.no_quote_of_mem_collect {side : Side} {t : Text} {param : Param}
    (h : param ∈ collect side (scan t)) : Glyph.char '"' ∉ param.value := by
  obtain ⟨body, -, -, -, hvalue⟩ := exists_body_of_mem_collect h
  exact hvalue ▸ no_quote_valueOf body

theorem Param.isQuiet_of_mem_collect {side : Side} {t : Text} {param : Param}
    (h : param ∈ collect side (scan t)) : isQuiet param.value = true := by
  obtain ⟨body, hbody, -, -, hvalue⟩ := exists_body_of_mem_collect h
  rcases valueOf_cases body with hnil | ⟨a, -, hwritten, hwithin⟩
  · rw [← hvalue, hnil]
    rfl
  · rw [← hvalue, ← hwritten]
    exact Attribute.isQuiet_value (isBody_of_mem_bodies hbody) hwithin

end Stencil
