import Stencil.Proofs.Run.Visits

/-!
# Runs with any front end

A front end talks to the user and leaves the disk alone (`FrontEnd.IsQuiet`): the one that follows a
script does, and the terminal. With such a front end, whatever it answers and even if it fails, a run
does something to the disk at a file only by writing it (`touch_visit`).
-/

namespace Stencil

/-! ## The disk left alone -/

/-- From one world to the other nothing has happened to the disk. -/
def Idle (w w' : World) : Prop :=
  ∃ events, Trail w events w' ∧ ∀ event ∈ events, event.isIdle = true

namespace Idle

variable {w w' w'' : World}

theorem refl (w : World) : Idle w w := ⟨[], Trail.refl w, by simp⟩

theorem trans (h : Idle w w') (h' : Idle w' w'') : Idle w w'' := by
  obtain ⟨events, htrail, hidle⟩ := h
  obtain ⟨events', htrail', hidle'⟩ := h'
  exact ⟨_, htrail.trans htrail', List.forall_mem_append.mpr ⟨hidle, hidle'⟩⟩

theorem after (w : World) {event : Event} (h : event.isIdle = true) : Idle w (w.after event) :=
  ⟨_, Trail.after w event, List.forall_mem_singleton.mpr h⟩

theorem scriptedBy (w : World) (script : Script) : Idle w (w.scriptedBy script) :=
  ⟨[], Trail.scriptedBy w script, by simp⟩

end Idle

/-- An action that leaves the disk alone. -/
def IsIdle {α : Type} (act : Sim α) : Prop := ∀ w, Idle w (act.run w).2

namespace IsIdle

variable {α β : Type} {act : Sim α}

theorem pure (a : α) : IsIdle (Pure.pure a : Sim α) := Idle.refl

theorem bind (h : IsIdle act) {next : α → Sim β} (hnext : ∀ a, IsIdle (next a)) :
    IsIdle (act >>= next) := fun w => by
  rw [StateT.run_bind]
  exact (h w).trans (hnext _ _)

theorem print (text : Text) : IsIdle (Console.print text : Sim Unit) := fun w => by
  show Idle w (w.after (.out text))
  exact Idle.after w rfl

theorem printError (text : Text) : IsIdle (Console.printError text : Sim Unit) := fun w => by
  show Idle w (w.after (.err text))
  exact Idle.after w rfl

theorem isIdle_of_mem_askAmong (prompt complaint : Text) (judge : Text → Option α)
    (input : List Text) :
    ∀ event ∈ (World.askAmong prompt complaint judge input).2.2, event.isIdle = true := by
  induction input with
  | nil => exact List.forall_mem_singleton.mpr rfl
  | cons line lines ih =>
      rw [World.askAmong]
      cases judge line with
      | some answer => exact List.forall_mem_singleton.mpr rfl
      | none => exact List.forall_mem_cons.mpr ⟨rfl, List.forall_mem_cons.mpr ⟨rfl, ih⟩⟩

theorem ask (prompt complaint : Text) (judge : Text → Option α) :
    IsIdle (Console.ask prompt complaint judge : Sim (Option α)) := fun w => by
  have hidle := isIdle_of_mem_askAmong prompt complaint judge w.input
  refine ⟨_, ⟨rfl, ?_, rfl, rfl⟩, hidle⟩
  exact (World.replay_of_isIdle hidle _ _ _).symm

end IsIdle

/-! ## Front ends -/

/-- A front end that leaves the disk alone. -/
structure FrontEnd.IsQuiet (frontEnd : FrontEnd Sim) : Prop where
  confirm : ∀ summary, IsIdle (frontEnd.confirm summary)
  notify : ∀ severity message, IsIdle (frontEnd.notify severity message)
  progress : ∀ message, IsIdle (frontEnd.progress message)
  isCancelled : IsIdle frontEnd.isCancelled

theorem FrontEnd.isQuiet_scripted : Sim.scripted.IsQuiet where
  confirm summary w := by
    rw [run_confirm]
    exact (Idle.scriptedBy _ _).trans (Idle.after _ rfl)
  notify severity message w := by
    rw [run_notify]
    exact Idle.scriptedBy _ _
  progress message w := by
    rw [run_progress]
    exact Idle.scriptedBy _ _
  isCancelled w := by
    rw [run_isCancelled]
    exact (Idle.scriptedBy _ _).trans (Idle.after _ rfl)

theorem Terminal.isIdle_printOptions (number : Nat) (choices : List (Text × Decision)) :
    IsIdle (Terminal.printOptions number choices : Sim Unit) := by
  induction choices generalizing number with
  | nil => exact IsIdle.pure _
  | cons choice choices ih => exact (IsIdle.print _).bind fun _ => ih (number + 1)

/-- The terminal leaves the disk alone, even where an answer is an error. -/
theorem FrontEnd.isQuiet_terminal : (Terminal.frontEnd : FrontEnd Sim).IsQuiet where
  confirm summary := by
    refine (IsIdle.print _).bind fun _ => ?_
    cases summary.render with
    | error e => exact IsIdle.pure _
    | ok render =>
        refine (IsIdle.print _).bind fun _ => (IsIdle.print _).bind fun _ =>
          (IsIdle.print _).bind fun _ => (Terminal.isIdle_printOptions _ _).bind fun _ => ?_
        exact (IsIdle.ask _ _ _).bind fun _ => IsIdle.pure _
  notify _ _ := IsIdle.printError _
  progress _ := IsIdle.printError _
  isCancelled w := Idle.refl w

namespace Run

variable {job : Job Sim} {template : Template} {templateName : Text} {run? : Option Text}
  {path : Path} {s s' s'' : Standing Progress}

/-! ## One file -/

/-- From one standing to the other a run has done nothing to the disk, nor to its backups. -/
structure Rests (s s' : Standing Progress) : Prop where
  world : Idle s.world s'.world
  backups : s'.memory.backups = s.memory.backups

namespace Rests

theorem refl (s : Standing Progress) : Rests s s := ⟨Idle.refl _, rfl⟩

theorem trans (h : Rests s s') (h' : Rests s' s'') : Rests s s'' :=
  ⟨h.world.trans h'.world, h'.backups.trans h.backups⟩

theorem host {α : Type} {act : Sim α} (h : IsIdle act) (s : Standing Progress) :
    Rests s (play (Run.host act) s).2 := ⟨h s.world, rfl⟩

theorem log (level : Level) (words : List Text) (s : Standing Progress) :
    Rests s ⟨s.memory, s.world.after (.log level (Text.concat words))⟩ :=
  ⟨Idle.after _ rfl, rfl⟩

end Rests

theorem rests_isStopped (hquiet : job.frontEnd.IsQuiet) (s : Standing Progress) :
    Rests s (play (isStopped job) s).2 := by
  rw [isStopped, play_bind_ok (play_get s)]
  cases s.memory.state.cancelled with
  | true => exact .refl s
  | false => exact .host hquiet.isCancelled s

/-- What a visit does to the disk: nothing, or it writes the file that it has read. -/
inductive Touch (job : Job Sim) (run? : Option Text) (path : Path) (s : Standing Progress) :
    Except Failure (Option Outcome) → Standing Progress → Prop
  | rests {result : Except Failure (Option Outcome)} {s' : Standing Progress} (h : Rests s s') :
      Touch job run? path s result s'
  | writes {s₁ s₂ s' : Standing Progress} {result : Except Failure (Option Outcome)} (bytes : Bytes)
      (hread : s.world.tree.read s.world.here path = .ok bytes) (text : Text)
      (written : Except Failure Unit) (h : Rests s s₁)
      (hwrite : play (write job run? path text) s₁ = (written, s₂)) (h' : Rests s₂ s')
      (hfails : ∀ e, written = .error e → (∀ o, e ≠ .os o) → result = .error e) :
      Touch job run? path s result s'

theorem rests_decideOn (hquiet : job.frontEnd.IsQuiet) (shown old new : Text)
    (changes : List Change) (s : Standing Progress) :
    Rests s (play (decideOn job shown old new changes) s).2 := by
  rw [decideOn, play_bind_ok (play_get s)]
  by_cases hmode : s.memory.state.mode = .autoApplyAll
  · rw [if_pos hmode]
    exact Rests.refl s
  · rw [if_neg hmode]
    have hconfirm := hquiet.confirm (DiffSummary.make shown old new
      job.settings.diffContextLines (changes.map ReportLine.ofChange)) s.world
    dsimp only
    rw [play_bind_ok (play_host _ s)]
    rcases hanswer : (job.frontEnd.confirm (DiffSummary.make shown old new
      job.settings.diffContextLines (changes.map ReportLine.ofChange))).run s.world with ⟨answer, w⟩
    rw [hanswer] at hconfirm
    cases answer with
    | error e => exact ⟨hconfirm, rfl⟩
    | ok decision => cases decision <;> exact ⟨hconfirm, rfl⟩

theorem touch_settle (hquiet : job.frontEnd.IsQuiet) {bytes : Bytes}
    (hread : s.world.tree.read s.world.here path = .ok bytes) (merged : Merged)
    (decision : Decision) {s₁ : Standing Progress} (h : Rests s s₁) :
    Touch job run? path s (play (settle job run? path merged decision) s₁).1
      (play (settle job run? path merged decision) s₁).2 := by
  have hlogged : ∀ (level : Level) (words : List Text) (outcome? : Option Outcome),
      play (do log level words; return outcome?) s₁ =
        (.ok outcome?, ⟨s₁.memory, s₁.world.after (.log level (Text.concat words))⟩) :=
    fun level words outcome? => rfl
  by_cases hskip : decision = .skip
  · subst hskip
    rw [settle, hlogged]
    exact .rests (h.trans (.log _ _ _))
  · by_cases hcancel : decision = .cancel
    · subst hcancel
      rw [settle, hlogged]
      exact .rests (h.trans (.log _ _ _))
    · have htry : play (tryOs (write job run? path merged.text)) s₁ =
          (tried (play (write job run? path merged.text) s₁).1,
            (play (write job run? path merged.text) s₁).2) := play_tryOs _ _
      rcases hwrite : play (write job run? path merged.text) s₁ with ⟨written, s₂⟩
      rw [hwrite] at htry
      rw [settle]
      · rcases written with e | a
        · by_cases hos : ∃ o, e = .os o
          · obtain ⟨o, rfl⟩ := hos
            rw [play_bind_ok htry]
            dsimp only
            rw [play_bind_ok (play_log _ _ _), play_bind_ok (play_host _ _), play_pure]
            exact .writes bytes hread _ _ h hwrite
              ((Rests.log _ _ s₂).trans (.host (hquiet.notify _ _) ⟨s₂.memory, _⟩))
              fun e he hne => absurd (Except.error.inj he).symm (hne o)
          · have hne : ∀ o, e ≠ .os o := fun o heq => hos ⟨o, heq⟩
            rw [tried_of_ne hne] at htry
            rw [play_bind_error htry]
            exact .writes bytes hread _ _ h hwrite (.refl _)
              fun e' he _ => congrArg Except.error (Except.error.inj he)
        · rw [play_bind_ok htry]
          dsimp only
          rw [play_bind_ok (play_log _ _ _), play_pure]
          exact .writes bytes hread _ _ h hwrite (.log _ _ s₂) fun e he => by cases he
      · exact hskip
      · exact hcancel

theorem touch_visit (hquiet : job.frontEnd.IsQuiet) (hs : job.storage.OverDisk)
    (template : Template) (templateName : Text) (run? : Option Text) (path : Path)
    (s : Standing Progress) :
    Touch job run? path s (play (visit job template templateName run? path) s).1
      (play (visit job template templateName run? path) s).2 := by
  have hprogress := Rests.host (hquiet.progress
    (Text.concat ["Processing ", job.settings.display path])) s
  have hreport := play_host (job.frontEnd.progress
    (Text.concat ["Processing ", job.settings.display path])) s
  rw [hreport] at hprogress
  rw [visit]
  dsimp only
  rw [play_bind_ok hreport, play_bind_ok (play_host _ _)]
  generalize ((job.frontEnd.progress
    (Text.concat ["Processing ", job.settings.display path])).run s.world).2 = w at hprogress
  dsimp only
  have hopened : Rests s ⟨s.memory, ((job.storage.readText path).run w).2⟩ := by
    refine hprogress.trans ⟨?_, rfl⟩
    rcases hs.readText_cases path w with ⟨e, hread⟩ | hread
    · rw [hread]
      exact Idle.refl w
    · rw [hread]
      exact Idle.after w rfl
  have hheld : ∀ current, ((job.storage.readText path).run w).1 = .ok current →
      ∃ bytes, s.world.tree.read s.world.here path = .ok bytes := by
    intro current hcurrent
    obtain ⟨events, htrail, hidle⟩ := hprogress.world
    rcases hs.readText_cases path w with ⟨e, hread⟩ | hread
    · rw [hread] at hcurrent
      cases hcurrent
    · rw [hread] at hcurrent
      have hbytes : (w.tree.read w.here path).map Text.decode = .ok current := hcurrent
      have htree : w.tree = s.world.tree := htrail.tree_eq hidle
      have hhere : w.here = s.world.here := htrail.here
      rw [htree, hhere] at hbytes
      cases hdisk : s.world.tree.read s.world.here path with
      | error e =>
          rw [hdisk] at hbytes
          cases hbytes
      | ok bytes => exact ⟨bytes, rfl⟩
  rcases hread : (job.storage.readText path).run w with ⟨read, w₁⟩
  rw [hread] at hopened hheld
  cases read with
  | error e =>
      dsimp only
      rw [play_bind_ok (play_log _ _ _), play_bind_ok (play_host _ _), play_pure]
      exact .rests ((hopened.trans (.log _ _ ⟨s.memory, w₁⟩)).trans
        (.host (hquiet.notify _ _) ⟨s.memory, _⟩))
  | ok current =>
      obtain ⟨bytes, hbytes⟩ := hheld current rfl
      dsimp only
      cases hbuild : Page.build current path.text with
      | error fault =>
          dsimp only
          rw [play_bind_ok (play_log _ _ _), play_bind_ok (play_host _ _), play_pure]
          exact .rests ((hopened.trans (.log _ _ ⟨s.memory, w₁⟩)).trans
            (.host (hquiet.notify _ _) ⟨s.memory, _⟩))
      | ok page =>
          dsimp only
          by_cases hname : page.templateName = templateName
          · rw [if_neg (not_not.mpr hname)]
            by_cases hsame : (merge template page).text = current
            · rw [if_pos hsame, play_bind_ok (play_log _ _ _), play_pure]
              exact .rests (hopened.trans (.log _ _ ⟨s.memory, w₁⟩))
            · rw [if_neg hsame]
              have hdecide := rests_decideOn hquiet (job.settings.display path) current
                (merge template page).text (merge template page).changes ⟨s.memory, w₁⟩
              rcases hplay : play (decideOn job (job.settings.display path) current
                (merge template page).text (merge template page).changes) ⟨s.memory, w₁⟩ with
                ⟨decision | decision, s₁⟩
              · rw [hplay] at hdecide
                rw [play_bind_error hplay]
                exact .rests (hopened.trans hdecide)
              · rw [hplay] at hdecide
                rw [play_bind_ok hplay]
                exact touch_settle hquiet hbytes _ decision (hopened.trans hdecide)
          · rw [if_pos hname, play_bind_ok (play_log _ _ _), play_pure]
            exact .rests (hopened.trans (.log _ _ ⟨s.memory, w₁⟩))

end Run

end Stencil
