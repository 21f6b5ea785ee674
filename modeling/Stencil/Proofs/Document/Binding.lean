import Stencil.Proofs.Document.Outline

/-!
# What binds a page

Of all markers of a text only the first one that is a binding or cuts a page decides whether the
text is bound, and to what (`bindingOf_eq_ok_iff`). So it is enough to know, marker by marker, the
kinds and the raw texts (`said`), and these are known of joined texts.
-/

namespace Stencil

namespace Marker

/-- The markers of a text by kind and raw text, without their places. -/
def said (t : Text) : List (Kind × Text) :=
  (bodies t).filterMap fun body => (kind? body).map fun kind => (kind, wrap body)

theorem map_tokensFrom (starts : List Nat) (p : Nat) (t : Text) :
    (tokensFrom starts p t).map (fun token => (token.kind, token.raw)) = said t := by
  rw [said, ← map_body_commentsFrom_eq p, tokensFrom, List.filterMap_map, List.map_filterMap]
  refine List.filterMap_congr fun c _ => ?_
  simp only [Function.comp_apply, tokenOf?, kind?, Option.map_map]
  rfl

theorem find?_said (q : Kind → Bool) (t : Text) :
    (said t).find? (fun entry => q entry.1) =
      ((scan t).find? fun token => q token.kind).map fun token => (token.kind, token.raw) := by
  rw [← map_tokensFrom (Position.lineStarts t) 0, List.find?_map]
  rfl

/-- The first marker of a kind is found where it stands. -/
theorem exists_find?_scan {pre body : Text} (post : Text) {kind : Kind} (hbody : IsBody body)
    (hkind : kind? body = some kind) (hpre : Silent (Says [kind]) pre) {p : Token → Bool}
    (hp : ∀ token, p token = true → token.kind = kind)
    (hhere : ∀ token, token.kind = kind → token.start = pre.length → p token = true) :
    ∃ token, (scan (pre ++ (wrap body ++ post))).find? p = some token ∧
      token.raw = wrap body ∧ token.start = pre.length ∧
        token.stop = (pre ++ wrap body).length := by
  obtain ⟨token, htoken, htokenKind⟩ := exists_tokenOf?
    (Position.lineStarts (pre ++ (wrap body ++ post))) (c := ⟨0 + pre.length, body⟩) hkind
  obtain ⟨-, -, hstart, hstop, hraw⟩ := tokenOf?_eq_some htoken
  rw [Nat.zero_add] at hstart
  have hnone : (tokensFrom (Position.lineStarts (pre ++ (wrap body ++ post))) 0 pre).find? p =
      none := by
    rw [List.find?_eq_none]
    intro token' htoken' hfound
    obtain ⟨body', hbody', hkind', -⟩ := exists_body_of_mem_tokensFrom htoken'
    exact hpre body' hbody' ⟨kind, List.mem_cons_self, hp token' hfound ▸ hkind'⟩
  refine ⟨token, ?_, hraw, hstart, ?_⟩
  · rw [scan_eq_tokensFrom, tokensFrom_insert _ _ _ hbody, htoken, Option.toList_some,
      List.find?_append, hnone, Option.none_or, List.singleton_append, List.find?_cons,
      hhere token htokenKind hstart]
  · rw [hstop, Comment.stop_eq, List.length_append, Nat.zero_add]

/-- A text cannot be divided at its first marker of a kind in two ways. -/
theorem length_eq_of_first {pre pre' body post post' : Text} {kind : Kind} (hbody : IsBody body)
    (hkind : kind? body = some kind) (hpre : Silent (Says [kind]) pre)
    (hpre' : Silent (Says [kind]) pre')
    (h : pre ++ (wrap body ++ post) = pre' ++ (wrap body ++ post')) : pre.length = pre'.length := by
  have hfirst : ∀ {pre : Text}, Silent (Says [kind]) pre → ∀ post, ∃ token,
      (scan (pre ++ (wrap body ++ post))).find? (fun token => decide (token.kind = kind)) =
        some token ∧ token.start = pre.length := fun hpre post => by
    obtain ⟨token, hfind, -, hstart, -⟩ := exists_find?_scan post hbody hkind hpre
      (p := fun token => decide (token.kind = kind)) (fun token hp => of_decide_eq_true hp)
      fun token hp _ => decide_eq_true hp
    exact ⟨token, hfind, hstart⟩
  obtain ⟨token, hfind, hstart⟩ := hfirst hpre post
  obtain ⟨token', hfind', hstart'⟩ := hfirst hpre' post'
  rw [h, hfind', Option.some.injEq] at hfind
  rw [← hstart, ← hstart', hfind]

end Marker

namespace Page

open Marker

/-- Whether a marker of this kind decides about the binding. -/
def settles (kind : Kind) : Bool :=
  kind = .binding || kind = .regionBegin .page || kind = .regionEnd .page

theorem settles_eq (token : Token) :
    settles token.kind = (decide (token.kind = .binding) || marksRegion token) := by
  rw [settles, marksRegion, Bool.or_assoc]

theorem bindingOf_eq_ok_iff {tokens : List Token}
    (hpair : tokens.Pairwise fun token token' => token.start < token'.start) {binding : Token} :
    bindingOf tokens = .ok binding ↔
      tokens.find? (fun token => settles token.kind) = some binding ∧ binding.kind = .binding := by
  induction tokens with
  | nil => simp [bindingOf, firstBinding?]
  | cons token tokens ih =>
      obtain ⟨hlt, hpair⟩ := List.pairwise_cons.mp hpair
      rw [List.find?_cons, settles_eq]
      by_cases hkind : token.kind = .binding
      · -- the first marker is a binding, and what cuts the page comes after it
        have hregion : marksRegion token = false := by rw [marksRegion, hkind]; rfl
        have hbound : bindingOf (token :: tokens) = .ok token := by
          rw [bindingOf, firstBinding?, List.find?_cons, decide_eq_true hkind]
          dsimp only
          rw [List.find?_cons, hregion]
          dsimp only
          split
          · next region hfind =>
            have hafter := hlt region (List.mem_of_find?_eq_some hfind)
            rw [if_neg (by omega)]
          · rfl
        rw [hbound, decide_eq_true hkind, Bool.true_or]
        constructor
        · intro h
          obtain rfl := Except.ok.inj h
          exact ⟨rfl, hkind⟩
        · rintro ⟨h, -⟩
          rw [Option.some.inj h]
      · cases hregion : marksRegion token with
        | true =>
            -- the first marker cuts the page, so a binding comes too late
            rw [decide_eq_false hkind, Bool.false_or]
            refine iff_of_false (fun h => ?_) fun h => hkind (Option.some.inj h.1 ▸ h.2)
            rw [bindingOf, firstBinding?, List.find?_cons, decide_eq_false hkind] at h
            dsimp only at h
            split at h
            · cases h
            · next late hfind =>
              rw [List.find?_cons, hregion] at h
              dsimp only at h
              rw [if_pos (hlt late (List.mem_of_find?_eq_some hfind))] at h
              cases h
        | false =>
            have hskip : bindingOf (token :: tokens) = bindingOf tokens := by
              rw [bindingOf, bindingOf, firstBinding?, firstBinding?, List.find?_cons,
                List.find?_cons, decide_eq_false hkind, hregion]
            rw [hskip, ih hpair, decide_eq_false hkind, Bool.false_or]

/-- Without a binding that comes in time, a page is not bound. -/
theorem reason_of_bindingOf {tokens : List Token} {fault : Fault}
    (h : bindingOf tokens = .error fault) : fault.finding.reason = "missing_binding" := by
  rw [bindingOf] at h
  split at h
  · cases h
    rfl
  · split at h
    · split at h
      · cases h
        rfl
      · cases h
    · cases h

/-- Cutting a text never asks for a binding. -/
theorem reason_of_buildFrom {side : Side} {text : Text} {fault : Fault} {tokens : List Token} :
    ∀ {seen : List Text} {cursor : Nat} {opened : Option Token},
      Segment.buildFrom side text seen cursor opened tokens = .error fault →
      fault.finding.reason ≠ "missing_binding" := by
  induction tokens with
  | nil =>
      intro seen cursor opened h
      cases opened with
      | none => cases h
      | some opened =>
          cases h
          exact (by decide : ("unterminated_region" : Text) ≠ "missing_binding")
  | cons token tokens ih =>
      intro seen cursor opened h
      cases opened with
      | none =>
          rw [Segment.buildFrom] at h
          split at h
          · split at h
            · cases h
              exact (by decide : ("duplicate_region_name" : Text) ≠ "missing_binding")
            · exact ih h
          · split at h
            · cases h
              exact (by decide : ("dangling_end_marker" : Text) ≠ "missing_binding")
            · exact ih h
      | some opened =>
          rw [Segment.buildFrom] at h
          split at h
          · cases h
            exact (by decide : ("nested_region" : Text) ≠ "missing_binding")
          · split at h
            · cases hrest : Segment.buildFrom side text (opened.name :: seen) token.start none
                tokens with
              | error fault' =>
                  rw [hrest] at h
                  cases h
                  exact ih hrest
              | ok rest =>
                  rw [hrest] at h
                  cases h
            · exact ih h

theorem build_of_bound {text : Text} {binding : Token} (h : bindingOf (scan text) = .ok binding)
    (source : Text) : Page.build text source =
      (Segment.build .page text (scan text)).map fun segments =>
        ⟨source, text, binding, bindingEndOf? binding (scan text), segments,
          Param.collect .page (scan text)⟩ := by
  simp only [build, h]

theorem build_of_unbound {text : Text} {fault : Fault} (h : bindingOf (scan text) = .error fault)
    (source : Text) : Page.build text source = .error fault := by
  simp only [build, h]

/-- A text is rejected for its binding just when no binding comes first. -/
theorem exists_bindingOf_iff (text source : Text) :
    (∃ binding, bindingOf (scan text) = .ok binding) ↔
      ∀ fault, Page.build text source = .error fault →
        fault.finding.reason ≠ "missing_binding" := by
  cases hbinding : bindingOf (scan text) with
  | error fault =>
      refine iff_of_false (by simp) fun h => ?_
      exact h fault (build_of_unbound hbinding source) (reason_of_bindingOf hbinding)
  | ok binding =>
      refine iff_of_true ⟨binding, rfl⟩ fun fault h => ?_
      rw [build_of_bound hbinding] at h
      cases hbuild : Segment.build .page text (scan text) with
      | error fault' =>
          rw [hbuild] at h
          cases h
          exact reason_of_buildFrom hbuild
      | ok segments =>
          rw [hbuild] at h
          cases h

/-- A binding is a comment of the text it binds. -/
theorem exists_body_of_bindingOf {text : Text} {binding : Token}
    (h : bindingOf (scan text) = .ok binding) : ∃ body, IsBody body ∧
      kind? body = some .binding ∧ nameOf body = binding.name ∧ binding.raw = wrap body := by
  obtain ⟨hfind, hkind⟩ := (bindingOf_eq_ok_iff (pairwise_tokensFrom _ _ _)).mp h
  obtain ⟨c, hc, htoken⟩ := List.mem_filterMap.mp (List.mem_of_find?_eq_some hfind)
  obtain ⟨hbody, hname, -, -, hraw⟩ := tokenOf?_eq_some htoken
  refine ⟨c.body, isBody_of_mem_bodies (List.mem_map_of_mem hc), ?_, hname, hraw⟩
  rw [hbody, hkind]

theorem bindingOf_of_build {text source : Text} {page : Page}
    (h : Page.build text source = .ok page) : bindingOf (scan text) = .ok page.binding := by
  cases hbinding : bindingOf (scan text) with
  | error fault =>
      rw [build_of_unbound hbinding] at h
      cases h
  | ok binding =>
      rw [build_of_bound hbinding] at h
      obtain ⟨segments, -, rfl⟩ := exists_ok_of_map_ok h
      rfl

/-- What a page is read from is only told in messages. -/
theorem build_of_build {text source : Text} {page : Page} (h : Page.build text source = .ok page)
    (source' : Text) : Page.build text source' = .ok { page with source := source' } := by
  obtain ⟨binding, hbinding⟩ : ∃ binding, bindingOf (scan text) = .ok binding :=
    ⟨_, bindingOf_of_build h⟩
  rw [build_of_bound hbinding] at h ⊢
  obtain ⟨segments, hsegments, rfl⟩ := exists_ok_of_map_ok h
  rw [hsegments]
  rfl

theorem firstBinding?_of_bindingOf {tokens : List Token} {binding : Token}
    (h : bindingOf tokens = .ok binding) : firstBinding? tokens = some binding := by
  rw [bindingOf] at h
  split at h
  · cases h
  · next binding' hfirst =>
    rw [hfirst]
    split at h
    · split at h
      · cases h
      · rw [Except.ok.inj h]
    · rw [Except.ok.inj h]

/-- The end of a binding is a comment of the text, too. -/
theorem exists_body_of_bindingEnd {text source : Text} {page : Page} {bindingEnd : Token}
    (h : Page.build text source = .ok page) (hend : page.bindingEnd? = some bindingEnd) :
    ∃ body, IsBody body ∧ kind? body = some .bindingEnd ∧ bindingEnd.raw = wrap body := by
  rw [build_of_bound (bindingOf_of_build h)] at h
  obtain ⟨segments, -, hpage⟩ := exists_ok_of_map_ok h
  rw [← hpage] at hend
  have hkind := List.find?_some hend
  obtain ⟨c, hc, htoken⟩ := List.mem_filterMap.mp (List.mem_of_find?_eq_some hend)
  obtain ⟨hbody, -, -, -, hraw⟩ := tokenOf?_eq_some htoken
  refine ⟨c.body, isBody_of_mem_bodies (List.mem_map_of_mem hc), ?_, hraw⟩
  rw [hbody]
  simp only [Bool.and_eq_true, decide_eq_true_eq] at hkind
  rw [hkind.1]

theorem bindingEndOf_of_build {text source : Text} {page : Page}
    (h : Page.build text source = .ok page) : page.text = text ∧
      page.bindingEnd? = bindingEndOf? page.binding (scan text) ∧
        page.params = Param.collect .page (scan text) := by
  have hbinding := bindingOf_of_build h
  rw [build_of_bound hbinding] at h
  obtain ⟨segments, -, hpage⟩ := exists_ok_of_map_ok h
  rw [← hpage]
  exact ⟨rfl, rfl, rfl⟩

/-- A binding that nothing comes before that would settle it binds the text. -/
theorem exists_bindingOf_of_split {pre body : Text} (post : Text) (hbody : IsBody body)
    (hkind : kind? body = some .binding)
    (hpre : Silent (Says [.binding, .regionBegin .page, .regionEnd .page]) pre) :
    ∃ binding, bindingOf (scan (pre ++ (wrap body ++ post))) = .ok binding := by
  have hnone : (said pre).find? (fun entry => settles entry.1) = none := by
    rw [find?_said, Option.map_eq_none_iff, List.find?_eq_none]
    intro token htoken hsettles
    refine lacks_iff.mpr hpre token htoken ?_
    simpa [settles, or_assoc] using hsettles
  have hsaid : said (pre ++ (wrap body ++ post)) =
      said pre ++ (.binding, wrap body) :: said post := by
    rw [said, bodies_insert _ hbody, List.filterMap_append, List.filterMap_cons, hkind]
    rfl
  have hfind := find?_said settles (pre ++ (wrap body ++ post))
  rw [hsaid, List.find?_append, hnone, Option.none_or, List.find?_cons] at hfind
  obtain ⟨binding, hbinding, heq⟩ := Option.map_eq_some_iff.mp hfind.symm
  exact ⟨binding, (bindingOf_eq_ok_iff (pairwise_tokensFrom _ _ _)).mpr
    ⟨hbinding, (Prod.mk.inj heq).1⟩⟩

/-- The first binding of a text is that of the page. -/
theorem binding_of_split {pre body post source : Text} {page : Page} (hbody : IsBody body)
    (hkind : kind? body = some .binding) (hpre : Silent (Says [.binding]) pre)
    (h : Page.build (pre ++ (wrap body ++ post)) source = .ok page) :
    page.binding.start = pre.length ∧ page.binding.raw = wrap body := by
  obtain ⟨token, hfind, hraw, hstart, -⟩ := exists_find?_scan post hbody hkind hpre
    (p := fun token => decide (token.kind = .binding)) (fun token hp => of_decide_eq_true hp)
    fun token hp _ => decide_eq_true hp
  have hfirst := firstBinding?_of_bindingOf (bindingOf_of_build h)
  rw [firstBinding?, hfind] at hfirst
  obtain rfl := Option.some.inj hfirst
  exact ⟨hstart, hraw⟩

/-- The first end of a binding behind the binding is that of the page. -/
theorem exists_bindingEnd_of_split {pre body post source : Text} {page : Page}
    (hbody : IsBody body) (hkind : kind? body = some .bindingEnd)
    (hpre : Silent (Says [.bindingEnd]) pre)
    (h : Page.build (pre ++ (wrap body ++ post)) source = .ok page)
    (hstart : page.binding.start < pre.length) : ∃ bindingEnd, page.bindingEnd? = some bindingEnd ∧
      bindingEnd.raw = wrap body ∧ page.text.drop bindingEnd.stop = post := by
  obtain ⟨token, hfind, hraw, -, hstop⟩ := exists_find?_scan post hbody hkind hpre
    (p := fun token => token.kind = .bindingEnd && page.binding.start < token.start)
    (fun token hp => of_decide_eq_true (Bool.and_eq_true _ _ ▸ hp).1)
    fun token hkind' hstart' => by simp [hkind', hstart', hstart]
  obtain ⟨htext, hend, -⟩ := bindingEndOf_of_build h
  refine ⟨token, by rw [hend, bindingEndOf?, hfind], hraw, ?_⟩
  rw [htext, hstop, ← List.append_assoc, List.drop_left]

end Page

/-- Whether a template text and a page text are accepted, and what is read of them passes a test. -/
def passes (text text' : Text) (test : Template → Page → Bool) : Bool :=
  match Template.build text [], Page.build text' [] with
  | .ok template, .ok page => test template page
  | _, _ => false

theorem exists_of_passes {text text' : Text} {test : Template → Page → Bool}
    (h : passes text text' test = true) : ∃ template page, Template.build text [] = .ok template ∧
      Page.build text' [] = .ok page ∧ test template page = true := by
  rw [passes] at h
  split at h
  · next template page htemplate hpage => exact ⟨template, page, htemplate, hpage, h⟩
  · cases h

end Stencil
