import Stencil.Proofs.Document.Binding

/-!
# Which markers make a document

A text is accepted just when its region markers are `Legal`. Otherwise the report blames the first
marker that no legal sequence goes on with, or the region that is open in the end (`Blamed`), and
it can blame nothing else (`Blamed.unique`). The step is `Stands`: what has been read so far is
legal, up to a region that may be open. Markers of other kinds are passed over, except that a page
must be bound before its first region marker (`Bound`).
-/

namespace Stencil

open Marker

namespace Segment

/-! ## Legal sequences -/

/-- The markers that cut a document of one side. -/
def cutting (side : Side) (tokens : List Token) : List Token :=
  tokens.filter fun token => token.kind ∈ regionKinds side

/-- Begin and end markers in turns, a begin marker first and an end marker last, and no name
twice. -/
def Legal (side : Side) (markers : List Token) : Prop :=
  ∃ pairs : List (Token × Token), markers = (pairs.flatMap fun pair => [pair.1, pair.2]) ∧
    (∀ pair ∈ pairs, pair.1.kind = .regionBegin side ∧ pair.2.kind = .regionEnd side) ∧
    (pairs.map fun pair => pair.1.name).Nodup

/-- Markers that a legal sequence can begin with. -/
def Viable (side : Side) (markers : List Token) : Prop := ∃ more, Legal side (markers ++ more)

/-- What is said about a marker that cannot stand behind these. -/
inductive Charged (side : Side) (before : List Token) (token : Token) : Finding → Prop
  | nested {opened : Token} (hlast : before.getLast? = some opened)
      (hopened : opened.kind = .regionBegin side) (hkind : token.kind = .regionBegin side) :
      Charged side before token ⟨"nested_region", token.name, some token.position,
        Text.concat ["opened inside region ", opened.name.quoted]⟩
  | duplicate (hclosed : ∀ last ∈ before.getLast?, last.kind = .regionEnd side)
      (hkind : token.kind = .regionBegin side)
      (hname : ∃ first ∈ before, first.kind = .regionBegin side ∧ first.name = token.name) :
      Charged side before token ⟨"duplicate_region_name", token.name, some token.position, []⟩
  | dangling (hclosed : ∀ last ∈ before.getLast?, last.kind = .regionEnd side)
      (hkind : token.kind = .regionEnd side) :
      Charged side before token ⟨"dangling_end_marker", [], some token.position, []⟩

/-- What is said about markers that are not legal. -/
inductive Blamed (side : Side) (markers : List Token) : Finding → Prop
  /-- The first marker that cannot stand where it stands is charged. -/
  | offender {before behind : List Token} {token : Token} {finding : Finding}
      (hmarkers : markers = before ++ token :: behind) (hviable : Viable side before)
      (hnot : ¬ Viable side (before ++ [token])) (hcharged : Charged side before token finding) :
      Blamed side markers finding
  /-- Nothing is missing but the last end marker. -/
  | unterminated {before : List Token} {opened : Token} (hmarkers : markers = before ++ [opened])
      (hopened : opened.kind = .regionBegin side)
      (hmissing : ∀ closing : Token, closing.kind = .regionEnd side →
        Legal side (markers ++ [closing])) :
      Blamed side markers ⟨"unterminated_region", opened.name, some opened.position, []⟩

section Legal

variable {side : Side} {before markers more : List Token} {opened closing token : Token}
  {finding finding' : Finding}

theorem exists_closing (side : Side) : ∃ closing : Token, closing.kind = .regionEnd side :=
  ⟨⟨.regionEnd side, [], ⟨⟨0, 0⟩, ⟨0, 0⟩⟩, 0, 0, [], []⟩, rfl⟩

theorem legal_nil (side : Side) : Legal side [] := ⟨[], rfl, by simp, List.nodup_nil⟩

/-- The names of the regions that begin among the markers. -/
def begun (side : Side) (markers : List Token) : List Text :=
  (markers.filter fun token => token.kind = .regionBegin side).map (·.name)

theorem mem_begun {name : Text} : name ∈ begun side markers ↔
    ∃ token ∈ markers, token.kind = .regionBegin side ∧ token.name = name := by
  simp [begun, and_assoc]

theorem begun_pairs {pairs : List (Token × Token)}
    (h : ∀ pair ∈ pairs, pair.1.kind = .regionBegin side ∧ pair.2.kind = .regionEnd side) :
    begun side (pairs.flatMap fun pair => [pair.1, pair.2]) = pairs.map fun pair => pair.1.name := by
  induction pairs with
  | nil => rfl
  | cons pair pairs ih =>
      obtain ⟨hbegin, hend⟩ := h pair List.mem_cons_self
      have ih := ih fun pair' hpair' => h pair' (List.mem_cons_of_mem _ hpair')
      rw [begun] at ih ⊢
      simp [hbegin, hend, ih]

/-- Pairs in front are the same pairs. -/
theorem exists_pairs_append {pairs pairs' : List (Token × Token)}
    (h : (pairs.flatMap fun pair => [pair.1, pair.2]) ++ more =
      pairs'.flatMap fun pair => [pair.1, pair.2]) :
    ∃ rest, pairs' = pairs ++ rest ∧ more = rest.flatMap fun pair => [pair.1, pair.2] := by
  induction pairs generalizing pairs' with
  | nil => exact ⟨pairs', rfl, h⟩
  | cons pair pairs ih =>
      cases pairs' with
      | nil => cases h
      | cons pair' pairs' =>
          obtain ⟨hfirst, htail⟩ := List.cons.inj h
          obtain ⟨hsecond, hrest⟩ := List.cons.inj htail
          obtain ⟨rest, rfl, hmore⟩ := ih hrest
          exact ⟨rest, by rw [Prod.ext hfirst hsecond, List.cons_append], hmore⟩

/-- Behind markers that are legal a legal sequence goes on with pairs of new names. -/
theorem Legal.append_iff (h : Legal side before) : Legal side (before ++ more) ↔
    Legal side more ∧ ∀ name ∈ begun side more, name ∉ begun side before := by
  obtain ⟨pairs, rfl, hkinds, hnodup⟩ := h
  rw [begun_pairs hkinds]
  constructor
  · rintro ⟨pairs', heq, hkinds', hnodup'⟩
    obtain ⟨rest, rfl, rfl⟩ := exists_pairs_append heq
    have hrest := fun pair hpair => hkinds' pair (List.mem_append_right _ hpair)
    rw [List.map_append, List.nodup_append] at hnodup'
    refine ⟨⟨rest, rfl, hrest, hnodup'.2.1⟩, fun name hname hmem => ?_⟩
    rw [begun_pairs hrest] at hname
    exact hnodup'.2.2 name hmem name hname rfl
  · rintro ⟨⟨rest, rfl, hrest, hnodup'⟩, hnew⟩
    rw [begun_pairs hrest] at hnew
    refine ⟨pairs ++ rest, by rw [List.flatMap_append], fun pair hpair => ?_, ?_⟩
    · exact (List.mem_append.mp hpair).elim (hkinds pair) (hrest pair)
    · rw [List.map_append, List.nodup_append]
      exact ⟨hnodup, hnodup', fun name hmem name' hname heq => hnew name' hname (heq ▸ hmem)⟩

/-- The first two markers of a legal sequence. -/
theorem Legal.cons (h : Legal side (token :: more)) : token.kind = .regionBegin side ∧
    ∃ closing rest, more = closing :: rest ∧ closing.kind = .regionEnd side := by
  obtain ⟨pairs, heq, hkinds, -⟩ := h
  cases pairs with
  | nil => cases heq
  | cons pair pairs =>
      obtain ⟨rfl, rfl⟩ := List.cons.inj heq
      obtain ⟨hbegin, hend⟩ := hkinds pair List.mem_cons_self
      exact ⟨hbegin, pair.2, _, rfl, hend⟩

theorem legal_pair (hopened : opened.kind = .regionBegin side)
    (hclosing : closing.kind = .regionEnd side) : Legal side [opened, closing] :=
  ⟨[(opened, closing)], rfl, by simp [hopened, hclosing], by simp⟩

theorem Legal.append_pair (h : Legal side before) (hopened : opened.kind = .regionBegin side)
    (hclosing : closing.kind = .regionEnd side) (hnew : opened.name ∉ begun side before) :
    Legal side (before ++ [opened, closing]) := by
  refine h.append_iff.mpr ⟨legal_pair hopened hclosing, fun name hname => ?_⟩
  obtain ⟨token, hmem, hkind, rfl⟩ := mem_begun.mp hname
  rcases List.mem_cons.mp hmem with rfl | hmem
  · exact hnew
  · obtain rfl := List.mem_singleton.mp hmem
    cases hclosing.symm.trans hkind

theorem Legal.getLast (h : Legal side before) :
    ∀ last ∈ before.getLast?, last.kind = .regionEnd side := by
  obtain ⟨pairs, rfl, hkinds, -⟩ := h
  intro last hlast
  rcases List.eq_nil_or_concat pairs with rfl | ⟨init, pair, rfl⟩
  · cases hlast
  · rw [List.concat_eq_append, List.flatMap_append, List.flatMap_singleton,
      List.getLast?_append_cons] at hlast
    rw [← Option.some.inj hlast]
    exact (hkinds pair (by simp)).2

theorem Legal.viable (h : Legal side before) : Viable side before :=
  ⟨[], by rw [List.append_nil]; exact h⟩

theorem Viable.of_append (h : Viable side (before ++ markers)) : Viable side before := by
  obtain ⟨more, h⟩ := h
  exact ⟨markers ++ more, by rw [← List.append_assoc]; exact h⟩

/-- What can stand behind markers that are legal. -/
theorem Legal.of_viable (h : Legal side before) (hviable : Viable side (before ++ [token])) :
    token.kind = .regionBegin side ∧ token.name ∉ begun side before := by
  obtain ⟨more, hmore⟩ := hviable
  rw [List.append_assoc, List.singleton_append, h.append_iff] at hmore
  obtain ⟨hbegin, -⟩ := hmore.1.cons
  exact ⟨hbegin, hmore.2 _ (mem_begun.mpr ⟨token, List.mem_cons_self, hbegin, rfl⟩)⟩

/-- What can stand behind a begin marker. -/
theorem Legal.of_viable_opened (h : Legal side before)
    (hviable : Viable side (before ++ [opened] ++ [token])) : token.kind = .regionEnd side := by
  obtain ⟨more, hmore⟩ := hviable
  rw [List.append_assoc, List.append_assoc, h.append_iff] at hmore
  obtain ⟨-, closing, rest, heq, hend⟩ := hmore.1.cons
  rwa [(List.cons.inj heq).1]

/-! ## One finding -/

/-- Two markers that a sequence cannot go on with are one. -/
theorem offender_unique {before' behind behind' : List Token} {token' : Token}
    (heq : before ++ token :: behind = before' ++ token' :: behind')
    (hviable : Viable side before) (hnot : ¬ Viable side (before ++ [token]))
    (hviable' : Viable side before') (hnot' : ¬ Viable side (before' ++ [token'])) :
    before = before' ∧ token = token' := by
  rcases List.append_eq_append_iff.mp heq with ⟨rest, rfl, hrest⟩ | ⟨rest, rfl, hrest⟩
  · cases rest with
    | nil => exact ⟨(List.append_nil _).symm, (List.cons.inj hrest).1⟩
    | cons next rest =>
        obtain ⟨rfl, -⟩ := List.cons.inj hrest
        have hlonger : Viable side (before ++ [token] ++ rest) := by rwa [List.append_assoc]
        exact absurd hlonger.of_append hnot
  · cases rest with
    | nil => exact ⟨List.append_nil _, (List.cons.inj hrest).1.symm⟩
    | cons next rest =>
        obtain ⟨rfl, -⟩ := List.cons.inj hrest
        have hlonger : Viable side (before' ++ [token'] ++ rest) := by rwa [List.append_assoc]
        exact absurd hlonger.of_append hnot'

theorem Charged.unique (h : Charged side before token finding)
    (h' : Charged side before token finding') : finding = finding' := by
  have hclash : ∀ {opened : Token}, before.getLast? = some opened →
      opened.kind = .regionBegin side →
      ¬ ∀ last ∈ before.getLast?, last.kind = .regionEnd side := by
    intro opened hlast hopened hclosed
    cases hopened.symm.trans (hclosed opened hlast)
  cases h with
  | nested hlast hopened hkind =>
      cases h' with
      | nested hlast' _ _ => rw [Option.some.inj (hlast.symm.trans hlast')]
      | duplicate hclosed => exact absurd hclosed (hclash hlast hopened)
      | dangling hclosed => exact absurd hclosed (hclash hlast hopened)
  | duplicate hclosed hkind =>
      cases h' with
      | nested hlast hopened => exact absurd hclosed (hclash hlast hopened)
      | duplicate => rfl
      | dangling _ hkind' => cases hkind.symm.trans hkind'
  | dangling hclosed hkind =>
      cases h' with
      | nested hlast hopened => exact absurd hclosed (hclash hlast hopened)
      | duplicate _ hkind' => cases hkind.symm.trans hkind'
      | dangling => rfl

/-- No marker is charged where only the last end marker is missing. -/
theorem viable_of_missing {behind : List Token} (hmarkers : markers = before ++ token :: behind)
    (hmissing : ∀ closing : Token, closing.kind = .regionEnd side →
      Legal side (markers ++ [closing])) : Viable side (before ++ [token]) := by
  obtain ⟨closing, hclosing⟩ := exists_closing side
  have hviable : Viable side (before ++ [token] ++ behind) := by
    rw [List.append_assoc, List.singleton_append, ← hmarkers]
    exact ⟨[closing], hmissing closing hclosing⟩
  exact hviable.of_append

theorem Blamed.unique (h : Blamed side markers finding) (h' : Blamed side markers finding') :
    finding = finding' := by
  cases h with
  | offender hmarkers hviable hnot hcharged =>
      cases h' with
      | offender hmarkers' hviable' hnot' hcharged' =>
          obtain ⟨rfl, rfl⟩ :=
            offender_unique (hmarkers.symm.trans hmarkers') hviable hnot hviable' hnot'
          exact hcharged.unique hcharged'
      | unterminated _ _ hmissing => exact absurd (viable_of_missing hmarkers hmissing) hnot
  | unterminated hmarkers _ hmissing =>
      cases h' with
      | offender hmarkers' _ hnot => exact absurd (viable_of_missing hmarkers' hmissing) hnot
      | unterminated hmarkers' =>
          have hlast := (List.append_inj' (hmarkers.symm.trans hmarkers') rfl).2
          rw [(List.cons.inj hlast).1]

/-- Nothing is blamed that is legal. -/
theorem Blamed.not_legal (h : Blamed side markers finding) : ¬ Legal side markers := by
  intro hlegal
  cases h with
  | @offender before behind token _ hmarkers _ hnot =>
      have hviable : Viable side (before ++ [token] ++ behind) := by
        rw [List.append_assoc, List.singleton_append, ← hmarkers]
        exact hlegal.viable
      exact hnot hviable.of_append
  | @unterminated before opened hmarkers hopened =>
      have hend := hlegal.getLast opened (by rw [hmarkers, List.getLast?_concat]; rfl)
      cases hopened.symm.trans hend

/-! ## Reading marker by marker -/

/-- Where the markers read so far stand: no region is open, or the last of them has opened one. -/
inductive Stands (side : Side) : List Token → Option Token → List Text → Prop
  | closed {before : List Token} {seen : List Text} (hlegal : Legal side before)
      (hseen : ∀ name, name ∈ seen ↔ name ∈ begun side before) : Stands side before none seen
  | opened {before : List Token} {opened : Token} {seen : List Text} (hlegal : Legal side before)
      (hseen : ∀ name, name ∈ seen ↔ name ∈ begun side before)
      (hopened : opened.kind = .regionBegin side) (hnew : opened.name ∉ seen) :
      Stands side (before ++ [opened]) (some opened) seen

/-- Nothing is missing but an end marker. -/
theorem Stands.legal_append {seen : List Text} (h : Stands side before (some opened) seen)
    (hkind : closing.kind = .regionEnd side) : Legal side (before ++ [closing]) := by
  cases h with
  | opened hlegal hseen hopened hnew =>
      rw [List.append_assoc]
      exact hlegal.append_pair hopened hkind fun hmem => hnew ((hseen _).mpr hmem)

theorem Stands.viable {opened? : Option Token} {seen : List Text}
    (h : Stands side before opened? seen) : Viable side before := by
  cases opened? with
  | none => cases h with | closed hlegal => exact hlegal.viable
  | some opened =>
      obtain ⟨closing, hclosing⟩ := exists_closing side
      exact ⟨[closing], h.legal_append hclosing⟩

theorem Stands.begins {seen : List Text} (h : Stands side before none seen)
    (hkind : token.kind = .regionBegin side) (hname : token.name ∉ seen) :
    Stands side (before ++ [token]) (some token) seen := by
  cases h with
  | closed hlegal hseen => exact .opened hlegal hseen hkind hname

theorem Stands.ends {seen : List Text} (h : Stands side before (some opened) seen)
    (hkind : token.kind = .regionEnd side) :
    Stands side (before ++ [token]) none (opened.name :: seen) := by
  refine .closed (h.legal_append hkind) fun name => ?_
  cases h with
  | opened hlegal hseen hopened hnew =>
      rw [List.mem_cons, hseen, List.append_assoc, begun, begun, List.filter_append, List.map_append]
      simp [hopened, hkind, or_comm]

/-! A marker that cannot come next is to be blamed, whatever comes behind it. -/

theorem Stands.blamed_again {seen : List Text} (h : Stands side before none seen)
    (hkind : token.kind = .regionBegin side) (hname : token.name ∈ seen) :
    Blamed side (before ++ token :: more)
      ⟨"duplicate_region_name", token.name, some token.position, []⟩ := by
  have hviable := h.viable
  cases h with
  | closed hlegal hseen =>
      have hmem := (hseen _).mp hname
      exact .offender rfl hviable (fun hnext => (hlegal.of_viable hnext).2 hmem)
        (.duplicate hlegal.getLast hkind (mem_begun.mp hmem))

theorem Stands.blamed_inside {seen : List Text} (h : Stands side before (some opened) seen)
    (hkind : token.kind = .regionBegin side) :
    Blamed side (before ++ token :: more) ⟨"nested_region", token.name, some token.position,
      Text.concat ["opened inside region ", opened.name.quoted]⟩ := by
  have hviable := h.viable
  cases h with
  | opened hlegal hseen hopened hnew =>
      refine .offender rfl hviable (fun hnext => ?_) (.nested List.getLast?_concat hopened hkind)
      cases hkind.symm.trans (hlegal.of_viable_opened hnext)

theorem Stands.blamed_outside {seen : List Text} (h : Stands side before none seen)
    (hkind : token.kind = .regionEnd side) :
    Blamed side (before ++ token :: more)
      ⟨"dangling_end_marker", [], some token.position, []⟩ := by
  have hviable := h.viable
  cases h with
  | closed hlegal hseen =>
      refine .offender rfl hviable (fun hnext => ?_) (.dangling hlegal.getLast hkind)
      cases hkind.symm.trans (hlegal.of_viable hnext).1

/-- A region that is open when nothing comes any more is to be blamed. -/
theorem Stands.blamed_open {seen : List Text} (h : Stands side before (some opened) seen) :
    Blamed side before ⟨"unterminated_region", opened.name, some opened.position, []⟩ := by
  have hmissing : ∀ closing : Token, closing.kind = .regionEnd side →
      Legal side (before ++ [closing]) := fun _ => h.legal_append
  cases h with
  | opened hlegal hseen hopened hnew => exact .unterminated rfl hopened hmissing

theorem cutting_cons_of_mem (tokens : List Token) (h : token.kind ∈ regionKinds side) :
    cutting side (token :: tokens) = token :: cutting side tokens :=
  List.filter_cons_of_pos (by simpa using h)

theorem cutting_cons_of_not_mem (tokens : List Token) (h : token.kind ∉ regionKinds side) :
    cutting side (token :: tokens) = cutting side tokens :=
  List.filter_cons_of_neg (by simpa using h)

/-- What reading the markers comes to: they are legal, or the fault is the one to be blamed. -/
def Judged (side : Side) (markers : List Token) : Except Fault (List Segment) → Prop
  | .ok _ => Legal side markers
  | .error fault => Blamed side markers fault.finding

theorem Judged.map {result : Except Fault (List Segment)} (h : Judged side markers result)
    (f : List Segment → List Segment) : Judged side markers (result.map f) := by
  cases result <;> exact h

theorem judged_buildFrom {text : Text} {tokens : List Token} {opened : Option Token}
    {seen : List Text} {cursor : Nat} (h : Stands side before opened seen) :
    Judged side (before ++ cutting side tokens)
      (buildFrom side text seen cursor opened tokens) := by
  induction tokens generalizing before opened seen cursor with
  | nil =>
      rw [cutting, List.filter_nil, List.append_nil]
      cases opened with
      | none => cases h with | closed hlegal => exact hlegal
      | some opened => exact h.blamed_open
  | cons token tokens ih =>
      by_cases hbegin : token.kind = .regionBegin side
      · rw [cutting_cons_of_mem tokens (by simp [regionKinds, hbegin])]
        cases opened with
        | none =>
            rw [buildFrom, if_pos hbegin]
            by_cases hname : token.name ∈ seen
            · rw [if_pos hname]
              exact h.blamed_again hbegin hname
            · rw [if_neg hname]
              have hjudged := @ih _ _ _ cursor (h.begins hbegin hname)
              rwa [List.append_assoc] at hjudged
        | some opened =>
            rw [buildFrom, if_pos hbegin]
            exact h.blamed_inside hbegin
      · by_cases hend : token.kind = .regionEnd side
        · rw [cutting_cons_of_mem tokens (by simp [regionKinds, hend])]
          cases opened with
          | none =>
              rw [buildFrom, if_neg hbegin, if_pos hend]
              exact h.blamed_outside hend
          | some opened =>
              rw [buildFrom, if_neg hbegin, if_pos hend]
              have hjudged := @ih _ _ _ token.start (h.ends hend)
              rw [List.append_assoc] at hjudged
              exact hjudged.map _
        · -- a marker of another kind changes nothing
          rw [cutting_cons_of_not_mem tokens (by simp [regionKinds, hbegin, hend])]
          cases opened <;> rw [buildFrom, if_neg hbegin, if_neg hend] <;> exact ih h

theorem judged_build (side : Side) (text : Text) (tokens : List Token) :
    Judged side (cutting side tokens) (build side text tokens) :=
  judged_buildFrom (.closed (legal_nil side) (by simp [begun]))

end Legal

end Segment

/-! ## Pages -/

namespace Page

/-- Some binding comes before the first marker that cuts the page. -/
def Bound (tokens : List Token) : Prop :=
  ∃ before binding behind, tokens = before ++ binding :: behind ∧ binding.kind = .binding ∧
    ∀ token ∈ before, token.kind ∉ regionKinds .page

/-- What is said about a page that is not bound. -/
inductive Unbound (tokens : List Token) : Finding → Prop
  | missing (h : ∀ token ∈ tokens, token.kind ≠ .binding) :
      Unbound tokens ⟨"missing_binding", [], none, "no InstanceBegin template= comment"⟩
  /-- The first marker that cuts the page comes before the first binding. -/
  | late {before behind : List Token} {first : Token} (htokens : tokens = before ++ first :: behind)
      (hfirst : first.kind ∈ regionKinds .page)
      (hbefore : ∀ token ∈ before, token.kind ≠ .binding ∧ token.kind ∉ regionKinds .page)
      (hbehind : ∃ token ∈ behind, token.kind = .binding) :
      Unbound tokens ⟨"missing_binding", [], some first.position,
        "InstanceBegin appears after the first editable region"⟩

variable {tokens : List Token} {binding : Token} {fault : Fault} {finding finding' : Finding}

theorem marksRegion_iff {token : Token} :
    marksRegion token = true ↔ token.kind ∈ regionKinds .page := by
  simp [marksRegion, regionKinds]

theorem bound_of_bindingOf (hpair : tokens.Pairwise fun token token' => token.start < token'.start)
    (h : bindingOf tokens = .ok binding) : Bound tokens := by
  obtain ⟨hfind, hkind⟩ := (bindingOf_eq_ok_iff hpair).mp h
  obtain ⟨-, before, behind, rfl, hbefore⟩ := List.find?_eq_some_iff_append.mp hfind
  refine ⟨before, binding, behind, rfl, hkind, fun token htoken hregion => ?_⟩
  have hsettles := hbefore token htoken
  rw [settles_eq, marksRegion_iff.mpr hregion, Bool.or_true] at hsettles
  cases hsettles

/-- No binding starts before the first one. -/
theorem start_le_of_find? (hpair : tokens.Pairwise fun token token' => token.start < token'.start)
    (h : (tokens.find? fun token => token.kind = .binding) = some binding) :
    ∀ token ∈ tokens, token.kind = .binding → binding.start ≤ token.start := by
  intro token htoken hkind
  obtain ⟨-, front, rest, rfl, hnot⟩ := List.find?_eq_some_iff_append.mp h
  rcases List.mem_append.mp htoken with hmem | hmem
  · exact absurd (decide_eq_true hkind) (by simpa using hnot token hmem)
  · rcases List.mem_cons.mp hmem with rfl | hmem
    · exact Nat.le_refl _
    · have hrest := (List.pairwise_append.mp hpair).2.1
      exact Nat.le_of_lt ((List.pairwise_cons.mp hrest).1 token hmem)

/-- Where the first marker that cuts a page comes before the first binding, it comes before all. -/
theorem unbound_of_bindingOf
    (hpair : tokens.Pairwise fun token token' => token.start < token'.start)
    (h : bindingOf tokens = .error fault) : Unbound tokens fault.finding := by
  rw [bindingOf] at h
  split at h
  · next hnone =>
    cases h
    refine .missing fun token htoken hkind => ?_
    exact List.find?_eq_none.mp hnone token htoken (decide_eq_true hkind)
  · next binding hbinding =>
    split at h
    · next first hfirst =>
      split at h
      · next hlate =>
        cases h
        have hkind := List.find?_some hbinding
        obtain ⟨hregion, before, behind, htokens, hbefore⟩ :=
          List.find?_eq_some_iff_append.mp hfirst
        have hnoBinding : ∀ token ∈ before, token.kind ≠ .binding := by
          intro token htoken htokenKind
          have hle := start_le_of_find? hpair hbinding token (htokens ▸ List.mem_append_left _ htoken)
            htokenKind
          rw [htokens] at hpair
          have hlt := (List.pairwise_append.mp hpair).2.2 token htoken first List.mem_cons_self
          omega
        have hfirstKind := marksRegion_iff.mp hregion
        refine .late htokens hfirstKind (fun token htoken => ⟨hnoBinding token htoken, ?_⟩)
          ⟨binding, ?_, of_decide_eq_true hkind⟩
        · exact fun hmem => by simpa [marksRegion_iff.mpr hmem] using hbefore token htoken
        · have hmem : binding ∈ before ++ first :: behind :=
            htokens ▸ List.mem_of_find?_eq_some hbinding
          rcases List.mem_append.mp hmem with hmem | hmem
          · exact absurd (of_decide_eq_true hkind) (hnoBinding binding hmem)
          · rcases List.mem_cons.mp hmem with rfl | hmem
            · exact absurd hlate (Nat.lt_irrefl _)
            · exact hmem
      · cases h
    · cases h

theorem Unbound.not_bound (h : Unbound tokens finding) : ¬ Bound tokens := by
  rintro ⟨front, binding, rest, hfront, hkind, hregions⟩
  cases h with
  | missing hnone =>
      exact hnone binding (hfront ▸ List.mem_append_right _ List.mem_cons_self) hkind
  | @late before behind first htokens hfirst hbefore =>
      -- the binding and the first region marker would each have to come first
      rcases List.append_eq_append_iff.mp (hfront.symm.trans htokens) with
        ⟨gap, rfl, hgap⟩ | ⟨gap, rfl, hgap⟩
      · cases gap with
        | nil =>
            rw [← (List.cons.inj hgap).1, hkind] at hfirst
            simp [regionKinds] at hfirst
        | cons next gap =>
            obtain ⟨rfl, -⟩ := List.cons.inj hgap
            exact (hbefore binding (List.mem_append_right _ List.mem_cons_self)).1 hkind
      · cases gap with
        | nil =>
            rw [(List.cons.inj hgap).1, hkind] at hfirst
            simp [regionKinds] at hfirst
        | cons next gap =>
            obtain ⟨rfl, -⟩ := List.cons.inj hgap
            exact hregions first (List.mem_append_right _ List.mem_cons_self) hfirst

theorem Unbound.unique (h : Unbound tokens finding) (h' : Unbound tokens finding') :
    finding = finding' := by
  have hclash : ∀ {before behind : List Token} {first : Token},
      tokens = before ++ first :: behind → (∃ token ∈ behind, token.kind = .binding) →
      ¬ ∀ token ∈ tokens, token.kind ≠ .binding := by
    rintro before behind first rfl ⟨token, hmem, hkind⟩ hnone
    exact hnone token (List.mem_append_right _ (List.mem_cons_of_mem _ hmem)) hkind
  cases h with
  | missing hnone =>
      cases h' with
      | missing => rfl
      | late htokens _ _ hbehind => exact absurd hnone (hclash htokens hbehind)
  | @late before behind first htokens hfirst hbefore hbehind =>
      cases h' with
      | missing hnone => exact absurd hnone (hclash htokens hbehind)
      | @late before' behind' first' htokens' hfirst' hbefore' =>
          have hfind : ∀ {before behind : List Token} {first : Token},
              tokens = before ++ first :: behind → first.kind ∈ regionKinds .page →
              (∀ token ∈ before, token.kind ≠ .binding ∧ token.kind ∉ regionKinds .page) →
              tokens.find? marksRegion = some first := by
            intro before behind first htokens hfirst hbefore
            refine List.find?_eq_some_iff_append.mpr ⟨marksRegion_iff.mpr hfirst, before, behind,
              htokens, fun token htoken => ?_⟩
            simpa [← marksRegion_iff] using (hbefore token htoken).2
          have hsame := (hfind htokens hfirst hbefore).symm.trans (hfind htokens' hfirst' hbefore')
          rw [Option.some.inj hsame]

end Page

/-! ## Documents -/

/-- Where success and every finding are known, and shut each other out, the answer is known. -/
theorem verdict_iff {α : Type} {result : Except Fault α} {accepted : Prop} {reported : Finding → Prop}
    (hok : ∀ a, result = .ok a → accepted)
    (herror : ∀ fault, result = .error fault → reported fault.finding)
    (hnot : ∀ finding, reported finding → ¬ accepted)
    (hunique : ∀ finding finding', reported finding → reported finding' → finding = finding') :
    ((∃ a, result = .ok a) ↔ accepted) ∧
      ∀ finding, (∃ fault, result = .error fault ∧ fault.finding = finding) ↔ reported finding := by
  cases result with
  | ok a =>
      have haccepted := hok a rfl
      refine ⟨iff_of_true ⟨a, rfl⟩ haccepted, fun finding => iff_of_false ?_ fun hreported => ?_⟩
      · rintro ⟨fault, hfault, -⟩
        cases hfault
      · exact hnot finding hreported haccepted
  | error fault =>
      have hreported := herror fault rfl
      refine ⟨iff_of_false (by rintro ⟨a, ha⟩; cases ha) (hnot _ hreported),
        fun finding => ⟨?_, ?_⟩⟩
      · rintro ⟨fault', hfault, rfl⟩
        rwa [← Except.error.inj hfault]
      · exact fun hother => ⟨fault, rfl, hunique _ _ hreported hother⟩

open Segment (Legal Blamed cutting)

/-- A text is accepted just when its markers are legal, a page moreover being bound, and a report
says of every other text what is to be said of its markers. -/
theorem build_judged (text source : Text) :
    (((∃ template, Template.build text source = .ok template) ↔
        Legal .template (cutting .template (scan text))) ∧
      ∀ finding, (∃ fault, Template.build text source = .error fault ∧ fault.finding = finding) ↔
        Blamed .template (cutting .template (scan text)) finding) ∧
    ((∃ page, Page.build text source = .ok page) ↔
        Page.Bound (scan text) ∧ Legal .page (cutting .page (scan text))) ∧
      ∀ finding, (∃ fault, Page.build text source = .error fault ∧ fault.finding = finding) ↔
        Page.Unbound (scan text) finding ∨
          Page.Bound (scan text) ∧ Blamed .page (cutting .page (scan text)) finding := by
  have hpair : (scan text).Pairwise fun token token' => token.start < token'.start :=
    pairwise_tokensFrom _ _ _
  constructor
  · have hjudged := Segment.judged_build .template text (scan text)
    refine verdict_iff (fun template h => ?_) (fun fault h => ?_) (fun _ => Blamed.not_legal)
      fun _ _ => Blamed.unique
    · obtain ⟨segments, hbuild, -⟩ := exists_ok_of_map_ok h
      rwa [hbuild] at hjudged
    · rw [Template.build] at h
      cases hbuild : Segment.build .template text (scan text) with
      | ok segments => rw [hbuild] at h; cases h
      | error fault' =>
          rw [hbuild] at h hjudged
          obtain rfl := Except.error.inj h
          exact hjudged
  · have hjudged := Segment.judged_build .page text (scan text)
    refine verdict_iff (fun page h => ?_) (fun fault h => ?_) (fun finding hreported haccepted => ?_)
      fun finding finding' h h' => ?_
    · have hbinding := Page.bindingOf_of_build h
      rw [Page.build_of_bound hbinding] at h
      obtain ⟨segments, hbuild, -⟩ := exists_ok_of_map_ok h
      rw [hbuild] at hjudged
      exact ⟨Page.bound_of_bindingOf hpair hbinding, hjudged⟩
    · cases hbinding : Page.bindingOf (scan text) with
      | error fault' =>
          rw [Page.build_of_unbound hbinding] at h
          obtain rfl := Except.error.inj h
          exact Or.inl (Page.unbound_of_bindingOf hpair hbinding)
      | ok binding =>
          rw [Page.build_of_bound hbinding] at h
          refine Or.inr ⟨Page.bound_of_bindingOf hpair hbinding, ?_⟩
          cases hbuild : Segment.build .page text (scan text) with
          | ok segments => rw [hbuild] at h; cases h
          | error fault' =>
              rw [hbuild] at h hjudged
              obtain rfl := Except.error.inj h
              exact hjudged
    · rcases hreported with hunbound | ⟨-, hblamed⟩
      · exact hunbound.not_bound haccepted.1
      · exact hblamed.not_legal haccepted.2
    · rcases h with hunbound | ⟨hbound, hblamed⟩
      · rcases h' with hunbound' | ⟨hbound', -⟩
        · exact hunbound.unique hunbound'
        · exact absurd hbound' hunbound.not_bound
      · rcases h' with hunbound' | ⟨-, hblamed'⟩
        · exact absurd hbound hunbound'.not_bound
        · exact hblamed.unique hblamed'

/-- A page in which a region begins again inside itself, behind markers that do not matter. -/
def begunAgain : Text :=
  Text.concat [wrap "InstanceBegin template=\"/t.dwt\"", wrap "InstanceParam name=\"p\"", "\n",
    wrap "InstanceBeginEditable name=\"a\"", wrap "TemplateEndEditable",
    wrap "InstanceBegin template=\"/u.dwt\"", wrap "InstanceBeginEditable name=\"a\"",
    wrap "InstanceEndEditable", wrap "InstanceEndEditable"]

theorem build_begunAgain : Page.Bound (scan begunAgain) ∧
    Blamed .page (cutting .page (scan begunAgain))
      ⟨"nested_region", "a", some ⟨1, 101⟩, "opened inside region 'a'"⟩ := by
  have hrun : (match Page.build begunAgain [] with
      | .ok _ => none
      | .error fault => some fault.finding) =
        some ⟨"nested_region", "a", some ⟨1, 101⟩, "opened inside region 'a'"⟩ := by decide +kernel
  cases hbuild : Page.build begunAgain [] with
  | ok page => rw [hbuild] at hrun; cases hrun
  | error fault =>
      rw [hbuild] at hrun
      obtain hunbound | hblamed :=
        ((build_judged begunAgain []).2.2 _).mp ⟨fault, hbuild, Option.some.inj hrun⟩
      · cases hunbound
      · exact hblamed

end Stencil
