import Stencil.Proofs.Run.Tour

/-!
# What is answered during a run

At a file nobody is asked, or one change is proposed (`Account.asking_cases`). So what stops a run is
the last thing of note in it (`Tour.exists_events`), and once everything is approved nothing is
proposed any more (`Tour.approved`). The outcomes are those of the visits (`Tour.outcomes`).
-/

namespace Stencil

namespace Event

/-- The run is told to stop: a poll says so, or a proposal is answered that way. -/
def EndsRun (event : Event) : Prop := event = .polled true ∨ ∃ summary, event = .proposed summary .cancel

/-- All further changes are approved. -/
def ApprovesAll (event : Event) : Prop := ∃ summary, event = .proposed summary .applyAll

def isProposal : Event → Bool
  | proposed _ _ => true
  | _ => false

theorem EndsRun.isAsking {event : Event} (h : event.EndsRun) : event.isAsking = true := by
  rcases h with rfl | ⟨summary, rfl⟩ <;> rfl

theorem ApprovesAll.isAsking {event : Event} (h : event.ApprovesAll) : event.isAsking = true := by
  obtain ⟨summary, rfl⟩ := h
  rfl

theorem not_endsRun_polled : ¬ (Event.polled false).EndsRun := by
  rintro (heq | ⟨summary, heq⟩) <;> cases heq

theorem isProposal_of_quiet {event : Event} (h : event.isAsking = false) :
    event.isProposal = false := by
  cases event <;> first | rfl | cases h

theorem isAsking_of_isProposal {event : Event} (h : event.isProposal = true) :
    event.isAsking = true := by
  cases event <;> first | rfl | cases h

/-- Where nobody is asked nothing follows from an answer. -/
theorem pairwise_of_quiet {P Q : Event → Prop} (hP : ∀ event, P event → event.isAsking = true)
    {events : List Event} (h : ∀ event ∈ events, event.isAsking = false) :
    events.Pairwise fun event later => P event → Q later := by
  refine List.pairwise_of_forall_mem_list fun event he later _ hp => ?_
  cases (h event he).symm.trans (hP event hp)

theorem pairwise_append_of_quiet {P Q : Event → Prop}
    (hP : ∀ event, P event → event.isAsking = true) {quiet events : List Event}
    (h : ∀ event ∈ quiet, event.isAsking = false)
    (hevents : events.Pairwise fun event later => P event → Q later) :
    (quiet ++ events).Pairwise fun event later => P event → Q later := by
  refine List.pairwise_append.mpr ⟨pairwise_of_quiet hP h, hevents, fun event he later _ hp => ?_⟩
  cases (h event he).symm.trans (hP event hp)

/-- What stands around the calls of a run asks nobody. -/
theorem pairwise_framed {P Q : Event → Prop} (hP : ∀ event, P event → event.isAsking = true)
    {opening events closing : List Event} (hopening : ∀ event ∈ opening, event.isAsking = false)
    (hclosing : ∀ event ∈ closing, event.isAsking = false ∧ Q event)
    (hevents : events.Pairwise fun event later => P event → Q later) :
    (opening ++ events ++ closing).Pairwise fun event later => P event → Q later := by
  rw [List.append_assoc]
  refine pairwise_append_of_quiet hP hopening (List.pairwise_append.mpr ⟨hevents,
    pairwise_of_quiet hP fun event he => (hclosing event he).1,
    fun event _ later hlater _ => (hclosing later hlater).2⟩)

theorem mem_of_framed {event : Event} {opening events closing : List Event}
    (h : event ∈ opening ++ events ++ closing)
    (hopening : ∀ event ∈ opening, event.isAsking = false)
    (hclosing : ∀ event ∈ closing, event.isAsking = false) (hasking : event.isAsking = true) :
    event ∈ events := by
  rcases List.mem_append.mp h with h | h
  · exact (List.mem_append.mp h).resolve_left fun h => by cases (hopening event h).symm.trans hasking
  · cases (hclosing event h).symm.trans hasking

end Event

namespace Run

variable {job : Job Sim} {template : Template} {templateName : Text} {run? : Option Text}
  {path : Path} {paths : List Path} {s s' : Standing Progress} {v : Visit} {visits : List Visit}
  {result : Except Failure Unit}

/-! ## One file -/

namespace Account

/-- At a file nobody is asked, or a change of it is proposed once. -/
theorem asking_cases (h : Account job template templateName run? s v) :
    ((∀ event ∈ v.events, event.isAsking = false) ∧ v.after.memory.state = s.memory.state) ∨
      ∃ before rest current page decision, v.events =
          before ++ .proposed (proposal job v.path current (merge template page)) decision :: rest ∧
        (∀ event ∈ before, event.isAsking = false) ∧ (∀ event ∈ rest, event.isAsking = false) ∧
        s.memory.state.mode = .interactive ∧ held job v.path v.before = .ok current ∧
        Changes template templateName v.path current page ∧
        v.after.memory.state = decided decision s.memory.state ∧
        (decision = .cancel → (∀ event ∈ rest, event.isLog = true) ∧ v.Ends) := by
  obtain ⟨reads, asked, rest, hevents, hreads, hasked, hrest, hcancel⟩ := h.parts
  have hquiet : ∀ event ∈ reads, event.isAsking = false := fun event he => hreads event he ▸ rfl
  generalize hstate : v.after.memory.state = state at hasked
  cases hasked with
  | nobody =>
      refine Or.inl ⟨fun event he => ?_, by rw [h.memory]⟩
      rw [hevents, List.append_nil] at he
      exact (List.mem_append.mp he).elim (hquiet event) (hrest event)
  | user current page decision hmode hread hchanges =>
      refine Or.inr ⟨reads, rest, current, page, decision, by rw [hevents]; simp, hquiet, hrest,
        by rw [← h.memory, hmode], hread, hchanges, by rw [h.memory], ?_⟩
      rintro rfl
      obtain ⟨hlogs, outcome, hresult, hstatus⟩ := hcancel _ (List.mem_singleton.mpr rfl)
      refine ⟨hlogs, fun outcome? heq => ⟨outcome, ?_, hstatus⟩⟩
      exact (Except.ok.inj (hresult.symm.trans heq)).symm

theorem mem_middle {event other : Event} {before rest : List Event}
    (h : event ∈ before ++ other :: rest) (hbefore : ∀ event ∈ before, event.isAsking = false)
    (hrest : ∀ event ∈ rest, event.isAsking = false) (hasking : event.isAsking = true) :
    event = other := by
  rcases List.mem_append.mp h with h | h
  · cases (hbefore event h).symm.trans hasking
  · rcases List.mem_cons.mp h with h | h
    · exact h
    · cases (hrest event h).symm.trans hasking

/-- A proposal is about a change of the file. -/
theorem proposal_of_mem (h : Account job template templateName run? s v) {summary : DiffSummary}
    {decision : Decision} (hmem : .proposed summary decision ∈ v.events) :
    ∃ current page, held job v.path v.before = .ok current ∧
      Changes template templateName v.path current page ∧
      summary = proposal job v.path current (merge template page) := by
  rcases h.asking_cases with
    ⟨hquiet, -⟩ | ⟨before, rest, current, page, decision', hevents, hbefore, hrest, -, hread, hchanges, -⟩
  · cases hquiet _ hmem
  · rw [hevents] at hmem
    have heq := mem_middle hmem hbefore hrest rfl
    exact ⟨current, page, hread, hchanges, (Event.proposed.inj heq).1⟩

/-- The run is cancelled after a visit just when the user said so there, and then the visit is the
last one and does nothing more but keep the record. -/
theorem cancelled_iff (h : Account job template templateName run? s v) :
    (v.after.memory.state.cancelled = true ↔ ∃ event ∈ v.events, event.EndsRun) ∧
      (v.after.memory.state.cancelled = true → v.Ends) ∧
      v.events.Pairwise fun event later => event.EndsRun → later.isLog = true := by
  rcases h.asking_cases with
    ⟨hquiet, hstate⟩ | ⟨before, rest, current, page, decision, hevents, hbefore, hrest, -, -, -, hstate, hcancel⟩
  · have hnot : ¬ v.after.memory.state.cancelled = true := by
      rw [hstate, h.running]
      exact Bool.false_ne_true
    refine ⟨iff_of_false hnot ?_, fun hcancelled => absurd hcancelled hnot,
      Event.pairwise_of_quiet (fun _ => Event.EndsRun.isAsking) hquiet⟩
    rintro ⟨event, he, hends⟩
    cases (hquiet event he).symm.trans hends.isAsking
  · have hdecided : v.after.memory.state.cancelled = true ↔ decision = .cancel := by
      rw [hstate]
      cases decision <;> simp [decided, h.running]
    rw [hdecided, hevents]
    refine ⟨⟨?_, ?_⟩, fun hdecision => (hcancel hdecision).2,
      Event.pairwise_append_of_quiet (fun _ => Event.EndsRun.isAsking) hbefore
        (List.pairwise_cons.mpr ⟨fun later hlater hends => ?_,
          Event.pairwise_of_quiet (fun _ => Event.EndsRun.isAsking) hrest⟩)⟩
    · rintro rfl
      exact ⟨_, List.mem_append_right _ List.mem_cons_self, Or.inr ⟨_, rfl⟩⟩
    · rintro ⟨event, he, hends⟩
      obtain rfl := mem_middle he hbefore hrest hends.isAsking
      rcases hends with heq | ⟨summary, heq⟩
      · cases heq
      · exact (Event.proposed.inj heq).2
    · rcases hends with heq | ⟨summary, heq⟩
      · cases heq
      · exact (hcancel (Event.proposed.inj heq).2).1 later hlater

/-- All changes are approved after a visit if they were before or the user said so there, and then
nothing more is proposed. -/
theorem approved_iff (h : Account job template templateName run? s v) :
    (v.after.memory.state.mode = .autoApplyAll ↔
      s.memory.state.mode = .autoApplyAll ∨ ∃ event ∈ v.events, event.ApprovesAll) ∧
      (s.memory.state.mode = .autoApplyAll → ∀ event ∈ v.events, event.isProposal = false) ∧
      v.events.Pairwise fun event later => event.ApprovesAll → later.isProposal = false := by
  rcases h.asking_cases with
    ⟨hquiet, hstate⟩ | ⟨before, rest, current, page, decision, hevents, hbefore, hrest, hmode, -, -, hstate, -⟩
  · refine ⟨?_, fun _ event he => Event.isProposal_of_quiet (hquiet event he),
      Event.pairwise_of_quiet (fun _ => Event.ApprovesAll.isAsking) hquiet⟩
    rw [hstate]
    refine ⟨Or.inl, fun hor => hor.resolve_right ?_⟩
    rintro ⟨event, he, happroves⟩
    cases (hquiet event he).symm.trans happroves.isAsking
  · have hdecided : v.after.memory.state.mode = .autoApplyAll ↔ decision = .applyAll := by
      rw [hstate]
      cases decision <;> simp [decided, hmode]
    have hnot : ¬ s.memory.state.mode = .autoApplyAll := by
      rw [hmode]
      exact RunMode.noConfusion
    rw [hdecided, hevents]
    refine ⟨⟨?_, ?_⟩, fun happroved => absurd happroved hnot,
      Event.pairwise_append_of_quiet (fun _ => Event.ApprovesAll.isAsking) hbefore
        (List.pairwise_cons.mpr ⟨fun later hlater _ => Event.isProposal_of_quiet (hrest later hlater),
          Event.pairwise_of_quiet (fun _ => Event.ApprovesAll.isAsking) hrest⟩)⟩
    · rintro rfl
      exact Or.inr ⟨_, List.mem_append_right _ List.mem_cons_self, _, rfl⟩
    · rintro (happroved | ⟨event, he, happroves⟩)
      · exact absurd happroved hnot
      · obtain rfl := mem_middle he hbefore hrest happroves.isAsking
        obtain ⟨summary, heq⟩ := happroves
        exact (Event.proposed.inj heq).2

/-- A visit that ends the run without failing leaves it cancelled. -/
theorem cancelled_of_ends (h : Account job template templateName run? s v) (hends : v.Ends)
    (hresult : (v.result.map fun _ => ()) = .ok ()) : v.settled.memory.state.cancelled = true := by
  cases hvisit : v.result with
  | error e =>
      rw [hvisit] at hresult
      cases hresult
  | ok outcome? =>
      obtain ⟨outcome, rfl, hstatus⟩ := hends outcome? hvisit
      exact (hvisit ▸ h.course).cancels hstatus

end Account

/-! ## All files -/

/-- What was done at the files that a run came to, each after a poll. -/
def calls (visits : List Visit) : List Event := visits.flatMap fun v => .polled false :: v.events

theorem calls_cons (v : Visit) (visits : List Visit) :
    calls (v :: visits) = .polled false :: (v.events ++ calls visits) := rfl

/-- The visits are to the first files, in their order. -/
theorem Tour.isPrefix (h : Tour job template templateName run? s paths visits result s') :
    visits.map (·.path) <+: paths := by
  induction h with
  | done s => exact List.prefix_rfl
  | stopped path paths hpoll => exact List.nil_prefix
  | ended paths hcall hends => exact List.cons_prefix_cons.mpr ⟨rfl, List.nil_prefix⟩
  | onward hcall hgoes h ih => exact List.cons_prefix_cons.mpr ⟨rfl, ih⟩

section Spec

variable (hfront : job.frontEnd = Sim.scripted) (hs : job.storage.OverDisk)
  (h : Tour job template templateName run? s paths visits result s') (hkeeps : Keeps run? s.memory)

include hfront hs h hkeeps

/-- What happens on a tour: the calls, and in the end perhaps a poll that stops it. Whatever stops the
run is the last thing of note that happens. -/
theorem Tour.exists_events : ∃ stop, (stop = [] ∨ stop = [.polled true]) ∧
    Trail s.world (calls visits ++ stop) s'.world ∧
    (calls visits ++ stop).Pairwise (fun event later => event.EndsRun → later.isLog = true) ∧
    (s'.memory.state.cancelled = true ↔
      s.memory.state.cancelled = true ∨ ∃ event ∈ calls visits ++ stop, event.EndsRun) ∧
    (s.memory.state.cancelled = true → visits = [] ∧ stop = []) := by
  refine Tour.rec_account hfront hs ?_ ?_ ?_ ?_ ?_ h hkeeps
  · intro s
    exact ⟨[], Or.inl rfl, Trail.refl _, List.Pairwise.nil, by simp [calls], fun _ => ⟨rfl, rfl⟩⟩
  · intro path paths s hcancelled
    exact ⟨[], Or.inl rfl, Trail.refl _, List.Pairwise.nil, by simp [hcancelled],
      fun _ => ⟨rfl, rfl⟩⟩
  · intro path paths s w hrunning htrail
    refine ⟨[.polled true], Or.inr rfl, htrail, List.pairwise_singleton _ _, iff_of_true rfl ?_,
      fun hcancelled => ?_⟩
    · exact Or.inr ⟨_, List.mem_singleton.mpr rfl, Or.inl rfl⟩
    · cases hrunning.symm.trans hcancelled
  · intro paths s v haccount hends
    obtain ⟨hcancelled, -, hpairwise⟩ := haccount.cancelled_iff
    have hcalls : calls [v] ++ [] = .polled false :: v.events := by simp [calls]
    refine ⟨[], Or.inl rfl, ?_, ?_, ?_, fun hstart => ?_⟩
    · rw [hcalls]
      exact haccount.polled.trans haccount.trail
    · rw [hcalls]
      exact List.pairwise_cons.mpr
        ⟨fun later _ hpolled => absurd hpolled Event.not_endsRun_polled, hpairwise⟩
    · have hsettled : v.settled.memory.state = v.after.memory.state := rfl
      rw [hcalls, hsettled, hcancelled, haccount.running]
      simp [Event.not_endsRun_polled]
    · cases haccount.running.symm.trans hstart
  · intro paths s v visits result s' haccount hgoes ih
    obtain ⟨hcancelled, hends, -⟩ := haccount.cancelled_iff
    obtain ⟨stop, hstop, htrail, hpairwise, hiff, -⟩ := ih
    have hrunning : ¬ v.after.memory.state.cancelled = true := fun hcancelled =>
      hgoes.not_ends (hends hcancelled)
    have hnot : ∀ event ∈ .polled false :: v.events, ¬ event.EndsRun := by
      intro event he hends
      rcases List.mem_cons.mp he with rfl | he
      · exact Event.not_endsRun_polled hends
      · exact hrunning (hcancelled.mpr ⟨event, he, hends⟩)
    have hcalls : calls (v :: visits) ++ stop =
        (.polled false :: v.events) ++ (calls visits ++ stop) := by simp [calls_cons]
    have hsettled : v.settled.memory.state = v.after.memory.state := rfl
    refine ⟨stop, hstop, ?_, ?_, ?_, fun hstart => ?_⟩
    · rw [hcalls]
      exact (haccount.polled.trans haccount.trail).trans htrail
    · rw [hcalls]
      refine List.pairwise_append.mpr ⟨?_, hpairwise, fun event he later _ hends =>
        absurd hends (hnot event he)⟩
      exact List.pairwise_of_forall_mem_list fun event he later _ hends => absurd hends (hnot event he)
    · rw [hiff, hsettled, hcalls, haccount.running, Bool.eq_false_iff.mpr hrunning]
      refine or_congr_right ⟨?_, ?_⟩
      · rintro ⟨event, he, hends⟩
        exact ⟨event, List.mem_append_right _ he, hends⟩
      · rintro ⟨event, he, hends⟩
        refine ⟨event, (List.mem_append.mp he).resolve_left fun he => hnot event he hends, hends⟩
    · cases haccount.running.symm.trans hstart

/-- The outcomes are those of the visits. -/
theorem Tour.outcomes : s'.memory.outcomes = s.memory.outcomes ++ visits.filterMap Visit.outcome? := by
  refine Tour.rec_account hfront hs ?_ ?_ ?_ ?_ ?_ h hkeeps
  · intro s
    rw [List.filterMap_nil, List.append_nil]
  · intro path paths s _
    rw [List.filterMap_nil, List.append_nil]
  · intro path paths s w _ _
    rw [List.filterMap_nil, List.append_nil]
    rfl
  · intro paths s v haccount _
    show v.after.memory.outcomes ++ v.outcome?.toList = _
    rw [haccount.outcomes]
    cases houtcome : v.outcome? <;> simp [houtcome]
  · intro paths s v visits result s' haccount _ ih
    have hsettled : v.settled.memory.outcomes = v.after.memory.outcomes ++ v.outcome?.toList := rfl
    rw [ih, hsettled, haccount.outcomes]
    cases houtcome : v.outcome? <;> simp [houtcome]

/-- The run keeps its backups all the way. -/
theorem Tour.keeps : Keeps run? s'.memory ∧ s'.memory.backups.root = s.memory.backups.root := by
  have hgoal : Keeps run? s.memory →
      Keeps run? s'.memory ∧ s'.memory.backups.root = s.memory.backups.root := by
    refine Tour.rec_account hfront hs ?_ ?_ ?_ ?_ ?_ h hkeeps
    · intro s hkeeps
      exact ⟨hkeeps, rfl⟩
    · intro path paths s _ hkeeps
      exact ⟨hkeeps, rfl⟩
    · intro path paths s w _ _ hkeeps
      exact ⟨hkeeps, rfl⟩
    · intro paths s v haccount _ _
      exact ⟨haccount.keeps, haccount.root⟩
    · intro paths s v visits result s' haccount _ ih _
      obtain ⟨hkeeps', hroot⟩ := ih haccount.keeps
      exact ⟨hkeeps', hroot.trans haccount.root⟩
  exact hgoal hkeeps

/-- What is known of every visit. -/
theorem Tour.account_of_mem :
    ∀ v ∈ visits, ∃ s, Account job template templateName run? s v := by
  refine Tour.rec_account hfront hs ?_ ?_ ?_ ?_ ?_ h hkeeps
  · intro s v hv
    cases hv
  · intro path paths s _ v hv
    cases hv
  · intro path paths s w _ _ v hv
    cases hv
  · intro paths s v haccount _ u hu
    exact List.mem_singleton.mp hu ▸ ⟨s, haccount⟩
  · intro paths s v visits result s' haccount _ ih u hu
    rcases List.mem_cons.mp hu with rfl | hu
    · exact ⟨s, haccount⟩
    · exact ih u hu

/-- Once all changes are approved nothing is proposed any more, and all later visits begin with
everything approved. -/
theorem Tour.approved :
    (calls visits).Pairwise (fun event later => event.ApprovesAll → later.isProposal = false) ∧
    visits.Pairwise (fun v later =>
      (∃ event ∈ v.events, event.ApprovesAll) → later.before.memory.state.mode = .autoApplyAll) ∧
    (s.memory.state.mode = .autoApplyAll → (∀ event ∈ calls visits, event.isProposal = false) ∧
      ∀ v ∈ visits, v.before.memory.state.mode = .autoApplyAll) := by
  refine Tour.rec_account hfront hs ?_ ?_ ?_ ?_ ?_ h hkeeps
  · intro s
    exact ⟨List.Pairwise.nil, List.Pairwise.nil, fun _ => by simp [calls]⟩
  · intro path paths s _
    exact ⟨List.Pairwise.nil, List.Pairwise.nil, fun _ => by simp [calls]⟩
  · intro path paths s w _ _
    exact ⟨List.Pairwise.nil, List.Pairwise.nil, fun _ => by simp [calls]⟩
  · intro paths s v haccount _
    obtain ⟨-, hquiet, hpairwise⟩ := haccount.approved_iff
    have hcalls : calls [v] = .polled false :: v.events := by simp [calls]
    rw [hcalls]
    refine ⟨List.pairwise_cons.mpr ⟨fun later _ happroves => ?_, hpairwise⟩,
      List.pairwise_singleton _ _, fun hmode => ⟨fun event he => ?_, fun u hu => ?_⟩⟩
    · cases happroves.choose_spec
    · rcases List.mem_cons.mp he with rfl | he
      · rfl
      · exact hquiet hmode event he
    · rw [List.mem_singleton.mp hu, haccount.memory, hmode]
  · intro paths s v visits result s' haccount _ ih
    obtain ⟨hiff, hquiet, hpairwise⟩ := haccount.approved_iff
    obtain ⟨hcallsPairwise, hvisits, happroved⟩ := ih
    have hsettled : v.settled.memory.state = v.after.memory.state := rfl
    rw [hsettled, hiff] at happroved
    rw [calls_cons]
    refine ⟨List.pairwise_cons.mpr ⟨fun later _ happroves => ?_, List.pairwise_append.mpr
        ⟨hpairwise, hcallsPairwise, fun event he later hlater happroves => ?_⟩⟩,
      List.pairwise_cons.mpr ⟨fun later hlater hsaid => ?_, hvisits⟩,
      fun hmode => ⟨fun event he => ?_, fun u hu => ?_⟩⟩
    · cases happroves.choose_spec
    · exact (happroved (Or.inr ⟨event, he, happroves⟩)).1 later hlater
    · exact (happroved (Or.inr hsaid)).2 later hlater
    · rcases List.mem_cons.mp he with rfl | he
      · rfl
      · rcases List.mem_append.mp he with he | he
        · exact hquiet hmode event he
        · exact (happroved (Or.inl hmode)).1 event he
    · rcases List.mem_cons.mp hu with rfl | hu
      · rw [haccount.memory, hmode]
      · exact (happroved (Or.inl hmode)).2 u hu

/-- A visit that fails is the last one, and the tour fails with it. -/
theorem Tour.failure : ∀ v ∈ visits, ∀ e, v.result = .error e →
    result = .error e ∧ visits.getLast? = some v := by
  refine Tour.rec_account hfront hs ?_ ?_ ?_ ?_ ?_ h hkeeps
  · intro s v hv
    cases hv
  · intro path paths s _ v hv
    cases hv
  · intro path paths s w _ _ v hv
    cases hv
  · intro paths s v _ _ u hu e he
    obtain rfl := List.mem_singleton.mp hu
    exact ⟨by rw [he]; rfl, rfl⟩
  · intro paths s v visits result s' _ hgoes ih u hu e he
    rcases List.mem_cons.mp hu with rfl | hu
    · obtain ⟨outcome?, hresult, -⟩ := hgoes
      cases hresult.symm.trans he
    · obtain ⟨hfail, hlast⟩ := ih u hu e he
      exact ⟨hfail, by rw [List.getLast?_cons, hlast]; rfl⟩

/-- A tour fails only with a visit. -/
theorem Tour.exists_failure {e : Failure} (hresult : result = .error e) :
    e = .unwritable ∧ run?.isSome = true := by
  have hgoal : ∀ e, result = .error e → e = .unwritable ∧ run?.isSome = true := by
    refine Tour.rec_account hfront hs ?_ ?_ ?_ ?_ ?_ h hkeeps
    · intro s e he
      cases he
    · intro path paths s _ e he
      cases he
    · intro path paths s w _ _ e he
      cases he
    · intro paths s v haccount _ e he
      cases hvisit : v.result with
      | error e' =>
          rw [hvisit] at he
          exact Except.error.inj he ▸ haccount.fails e' hvisit
      | ok outcome? =>
          rw [hvisit] at he
          cases he
    · intro paths s v visits result s' _ _ ih
      exact ih
  exact hgoal e hresult

/-- An outcome that the run was cancelled is the last one. -/
theorem Tour.cancelled_last :
    (visits.filterMap Visit.outcome?).Pairwise fun outcome _ => outcome.status ≠ .cancelled := by
  refine Tour.rec_account hfront hs ?_ ?_ ?_ ?_ ?_ h hkeeps
  · intro s
    exact List.Pairwise.nil
  · intro path paths s _
    exact List.Pairwise.nil
  · intro path paths s w _ _
    exact List.Pairwise.nil
  · intro paths s v _ _
    cases houtcome : v.outcome? <;> simp [houtcome]
  · intro paths s v visits result s' _ hgoes ih
    obtain ⟨outcome?, hresult, hstatus⟩ := hgoes
    have houtcome : v.outcome? = outcome? := by rw [Visit.outcome?, hresult]
    cases outcome? with
    | none => rw [List.filterMap_cons_none houtcome]; exact ih
    | some outcome =>
        rw [List.filterMap_cons_some houtcome]
        exact List.pairwise_cons.mpr ⟨fun _ _ => hstatus outcome rfl, ih⟩

/-- A tour that is not cancelled and does not fail goes to all files. -/
theorem Tour.complete (hresult : result = .ok ()) (hrunning : s'.memory.state.cancelled = false) :
    visits.map (·.path) = paths := by
  have hgoal : result = .ok () → s'.memory.state.cancelled = false → visits.map (·.path) = paths := by
    refine Tour.rec_account hfront hs ?_ ?_ ?_ ?_ ?_ h hkeeps
    · intro s _ _
      rfl
    · intro path paths s hcancelled _ hrunning
      cases hcancelled.symm.trans hrunning
    · intro path paths s w _ _ _ hrunning
      cases hrunning
    · intro paths s v haccount hends hresult hrunning
      cases (haccount.cancelled_of_ends hends hresult).symm.trans hrunning
    · intro paths s v visits result s' _ _ ih hresult hrunning
      rw [List.map_cons, ih hresult hrunning]
  exact hgoal hresult hrunning

end Spec

end Run

end Stencil
