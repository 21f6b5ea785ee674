import Stencil.Proofs.Run.Visits

/-!
# Tours

A run over files is a tour: visits made one after another, each after a poll that did not stop the
run (`exists_tour`). What holds of one visit and the poll before it (`Call`) carries over to a tour by
induction.
-/

namespace Stencil

namespace Run

/-- A file that a run came to: where the run stood before and after, and what came of it. -/
structure Visit where
  path : Path
  before : Standing Progress
  result : Except Failure (Option Outcome)
  after : Standing Progress

namespace Visit

/-- What was done at the file. -/
def events (v : Visit) : List Event := v.after.world.trace.drop v.before.world.trace.length

/-- The outcome for the file, if it has one. -/
def outcome? (v : Visit) : Option Outcome :=
  match v.result with
  | .ok outcome? => outcome?
  | .error _ => none

/-- Where the run stands once the outcome has been noted. -/
def settled (v : Visit) : Standing Progress :=
  ⟨{ v.after.memory with outcomes := v.after.memory.outcomes ++ v.outcome?.toList }, v.after.world⟩

/-- The visit is the last one: the run has failed or been cancelled. -/
def Ends (v : Visit) : Prop :=
  ∀ outcome?, v.result = .ok outcome? → ∃ outcome, outcome? = some outcome ∧ outcome.status = .cancelled

/-- The visit lets the run go on. -/
def GoesOn (v : Visit) : Prop :=
  ∃ outcome?, v.result = .ok outcome? ∧ ∀ outcome, outcome? = some outcome → outcome.status ≠ .cancelled

theorem GoesOn.not_ends {v : Visit} (h : v.GoesOn) : ¬ v.Ends := by
  obtain ⟨outcome?, hresult, hgoes⟩ := h
  intro hends
  obtain ⟨outcome, houtcome, hstatus⟩ := hends outcome? hresult
  exact hgoes outcome houtcome hstatus

end Visit

variable {job : Job Sim} {template : Template} {templateName : Text} {run? : Option Text}
  {path : Path} {paths : List Path} {s s' : Standing Progress} {v : Visit} {visits : List Visit}
  {result : Except Failure Unit}

/-- Where a run stands once it has been cancelled. -/
def stopping (s : Standing Progress) : Standing Progress :=
  ⟨{ s.memory with state := { s.memory.state with cancelled := true } }, s.world⟩

/-- A poll that does not stop the run, and then a visit. -/
structure Call (job : Job Sim) (template : Template) (templateName : Text) (run? : Option Text)
    (s : Standing Progress) (v : Visit) : Prop where
  poll : play (isStopped job) s = (.ok false, v.before)
  visit : play (visit job template templateName run? v.path) v.before = (v.result, v.after)

/-- The visits of a run over files, from where it stands at first to where it stands at last. -/
inductive Tour (job : Job Sim) (template : Template) (templateName : Text) (run? : Option Text) :
    Standing Progress → List Path → List Visit → Except Failure Unit → Standing Progress → Prop
  | done (s : Standing Progress) : Tour job template templateName run? s [] [] (.ok ()) s
  | stopped (path : Path) (paths : List Path) {s s₁ : Standing Progress}
      (hpoll : play (isStopped job) s = (.ok true, s₁)) :
      Tour job template templateName run? s (path :: paths) [] (.ok ()) (stopping s₁)
  | ended (paths : List Path) {s : Standing Progress} {v : Visit}
      (hcall : Call job template templateName run? s v) (hends : v.Ends) :
      Tour job template templateName run? s (v.path :: paths) [v] (v.result.map fun _ => ()) v.settled
  | onward {paths : List Path} {s s' : Standing Progress} {v : Visit} {visits : List Visit}
      {result : Except Failure Unit} (hcall : Call job template templateName run? s v)
      (hgoes : v.GoesOn) (h : Tour job template templateName run? v.settled paths visits result s') :
      Tour job template templateName run? s (v.path :: paths) (v :: visits) result s'

/-- Polling a run that is cancelled asks nobody. -/
theorem isStopped_cases (hfront : job.frontEnd = Sim.scripted) (s : Standing Progress) :
    (s.memory.state.cancelled = true ∧ play (isStopped job) s = (.ok true, s)) ∨
      s.memory.state.cancelled = false ∧ ∃ stop script, play (isStopped job) s =
        (.ok stop, ⟨s.memory, (s.world.scriptedBy script).after (.polled stop)⟩) := by
  rw [isStopped, play_bind_ok (play_get s)]
  cases hcancelled : s.memory.state.cancelled with
  | true => exact Or.inl ⟨rfl, by rw [if_pos rfl]; rfl⟩
  | false =>
      rw [if_neg (by decide), play_host, hfront, run_isCancelled]
      exact Or.inr ⟨rfl, _, _, rfl⟩

/-- Polling never fails. -/
theorem exists_isStopped (job : Job Sim) (s : Standing Progress) :
    ∃ stop s₁, play (isStopped job) s = (.ok stop, s₁) := by
  rw [isStopped, play_bind_ok (play_get s)]
  cases s.memory.state.cancelled with
  | true => exact ⟨true, s, rfl⟩
  | false =>
      rw [if_neg (by decide), play_host]
      exact ⟨_, _, rfl⟩

theorem exists_tour (job : Job Sim) (template : Template) (templateName : Text)
    (run? : Option Text) (paths : List Path) (s : Standing Progress) :
    ∃ visits, Tour job template templateName run? s paths visits
      (play (visitAll job template templateName run? paths) s).1
      (play (visitAll job template templateName run? paths) s).2 := by
  induction paths generalizing s with
  | nil => exact ⟨[], .done s⟩
  | cons path paths ih =>
      obtain ⟨stop, s₁, hpoll⟩ := exists_isStopped job s
      rw [visitAll, play_bind_ok hpoll]
      cases stop with
      | true =>
          rw [if_pos rfl, play_modify]
          exact ⟨[], .stopped path paths hpoll⟩
      | false =>
          rw [if_neg (by decide)]
          rcases hvisit : play (visit job template templateName run? path) s₁ with ⟨result, s₂⟩
          have hcall : Call job template templateName run? s ⟨path, s₁, result, s₂⟩ := ⟨hpoll, hvisit⟩
          rcases result with e | outcome?
          · rw [play_bind_error hvisit]
            have htour := Tour.ended paths hcall fun outcome? heq => by cases heq
            rw [Visit.settled, Visit.outcome?, Option.toList, List.append_nil] at htour
            exact ⟨_, htour⟩
          · rw [play_bind_ok hvisit]
            cases outcome? with
            | none =>
                have hsettled : s₂ = (Visit.mk path s₁ (.ok none) s₂).settled := by
                  rw [Visit.settled, Visit.outcome?, Option.toList, List.append_nil]
                obtain ⟨visits, htour⟩ := ih s₂
                dsimp only
                generalize play (visitAll job template templateName run? paths) s₂ = finish at htour ⊢
                rw [hsettled] at htour
                exact ⟨_, .onward hcall ⟨none, rfl, fun outcome heq => by cases heq⟩ htour⟩
            | some outcome =>
                dsimp only
                rw [play_bind_ok (play_modify _ _)]
                by_cases hstatus : outcome.status = .cancelled
                · rw [if_pos hstatus]
                  exact ⟨_, .ended paths hcall fun outcome? heq =>
                    ⟨outcome, (Except.ok.inj heq).symm, hstatus⟩⟩
                · rw [if_neg hstatus]
                  obtain ⟨visits, htour⟩ := ih (Visit.mk path s₁ (.ok (some outcome)) s₂).settled
                  exact ⟨_, .onward hcall ⟨_, rfl, fun other heq => Option.some.inj heq ▸ hstatus⟩ htour⟩

/-! ## One call -/

/-- What a visit did is what stands in the record of the world since. -/
theorem Visit.events_eq {events : List Event} (h : Trail v.before.world events v.after.world) :
    v.events = events := by
  rw [Visit.events, h.trace, List.drop_left]

/-- What is known of a poll that does not stop the run and of the visit behind it. -/
structure Account (job : Job Sim) (template : Template) (templateName : Text) (run? : Option Text)
    (s : Standing Progress) (v : Visit) : Prop where
  running : s.memory.state.cancelled = false
  memory : v.before.memory = s.memory
  polled : Trail s.world [.polled false] v.before.world
  trail : Trail v.before.world v.events v.after.world
  course : Course job template templateName run? v.path v.before v.result v.after
  parts : ∃ reads asked rest, v.events = reads ++ asked ++ rest ∧
    (∀ event ∈ reads, event = .read v.path) ∧
    Asked job template templateName v.path v.before asked v.after.memory.state ∧
    (∀ event ∈ rest, event.isAsking = false) ∧
    ∀ summary, .proposed summary .cancel ∈ asked → (∀ event ∈ rest, event.isLog = true) ∧
      ∃ outcome, v.result = .ok (some outcome) ∧ outcome.status = .cancelled
  fails : ∀ e, v.result = .error e → e = .unwritable ∧ run?.isSome = true
  keeps : Keeps run? v.after.memory
  outcomes : v.after.memory.outcomes = s.memory.outcomes
  root : v.after.memory.backups.root = s.memory.backups.root

theorem Call.account (h : Call job template templateName run? s v)
    (hfront : job.frontEnd = Sim.scripted) (hs : job.storage.OverDisk)
    (hkeeps : Keeps run? s.memory) : Account job template templateName run? s v := by
  have hpoll := h.poll
  rcases isStopped_cases hfront s with ⟨-, hstop⟩ | ⟨hrunning, stop, script, hstop⟩
  · rw [hstop] at hpoll
    cases hpoll
  · rw [hstop] at hpoll
    obtain ⟨hfalse, hbefore⟩ := Prod.mk.inj hpoll
    obtain rfl := Except.ok.inj hfalse
    have hmemory : v.before.memory = s.memory := hbefore ▸ rfl
    have hpolled : Trail s.world [.polled false] v.before.world :=
      hbefore ▸ (Trail.scriptedBy _ _).trans (Trail.after _ _)
    have hcourse := course_visit hfront template templateName run? v.path v.before
    rw [h.visit] at hcourse
    obtain ⟨reads, asked, rest, htrail, hreads, hasked, hrest, hcancel, hkeeps', houtcomes, hroot⟩ :=
      hcourse.exists_events hs (hmemory ▸ hkeeps)
    have hevents := Visit.events_eq htrail
    exact ⟨hrunning, hmemory, hpolled, hevents ▸ htrail, hcourse,
      ⟨reads, asked, rest, hevents, hreads, hasked, hrest, hcancel⟩,
      fun e he => (he ▸ hcourse).eq_unwritable hs (hmemory ▸ hkeeps), hkeeps',
      hmemory ▸ houtcomes, hmemory ▸ hroot⟩

/-- Induction over a tour, with all that is known of each of its calls. -/
@[elab_as_elim]
theorem Tour.rec_account (hfront : job.frontEnd = Sim.scripted) (hs : job.storage.OverDisk)
    {motive : Standing Progress → List Path → List Visit → Except Failure Unit →
      Standing Progress → Prop}
    (done : ∀ s, motive s [] [] (.ok ()) s)
    (cancelled : ∀ path paths s, s.memory.state.cancelled = true →
      motive s (path :: paths) [] (.ok ()) s)
    (stopped : ∀ path paths s w, s.memory.state.cancelled = false → Trail s.world [.polled true] w →
      motive s (path :: paths) [] (.ok ()) (stopping ⟨s.memory, w⟩))
    (ended : ∀ paths s v, Account job template templateName run? s v → v.Ends →
      motive s (v.path :: paths) [v] (v.result.map fun _ => ()) v.settled)
    (onward : ∀ paths s v visits result s', Account job template templateName run? s v → v.GoesOn →
      motive v.settled paths visits result s' → motive s (v.path :: paths) (v :: visits) result s')
    (h : Tour job template templateName run? s paths visits result s')
    (hkeeps : Keeps run? s.memory) : motive s paths visits result s' := by
  induction h with
  | done s => exact done s
  | @stopped path paths s s₁ hpoll =>
      rcases isStopped_cases hfront s with ⟨hcancelled, hstop⟩ | ⟨hrunning, stop, script, hstop⟩
      · rw [hstop] at hpoll
        obtain rfl := (Prod.mk.inj hpoll).2
        have hstopping : stopping s = s := by
          obtain ⟨⟨⟨mode, c⟩, backups, outcomes⟩, world⟩ := s
          rw [stopping]
          rw [show c = true from hcancelled]
        rw [hstopping]
        exact cancelled path paths s hcancelled
      · rw [hstop] at hpoll
        obtain ⟨htrue, hs₁⟩ := Prod.mk.inj hpoll
        obtain rfl := Except.ok.inj htrue
        rw [← hs₁]
        exact stopped path paths s _ hrunning ((Trail.scriptedBy _ _).trans (Trail.after _ _))
  | ended paths hcall hends => exact ended paths _ _ (hcall.account hfront hs hkeeps) hends
  | onward hcall hgoes h ih =>
      have haccount := hcall.account hfront hs hkeeps
      exact onward _ _ _ _ _ _ haccount hgoes (ih haccount.keeps)

end Run

end Stencil
