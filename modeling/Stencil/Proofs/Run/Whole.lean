import Stencil.Proofs.Run.Tour

/-!
# Whole runs

A run loads its template, begins its backups, goes over the files and ends its backups (`run_cases`).
What it does before the first file and after the last one asks nobody (`Opening.trail`,
`close_trail`).
-/

namespace Stencil

namespace Run

variable {job : Job Sim} {template : Template} {templateName : Text} {run? : Option Text}
  {paths : List Path} {state : RunState} {s s' : Standing Progress} {w : World}

/-! ## The beginning -/

/-- Loading a template reads it, or the storage refuses. -/
theorem loadTemplate_cases {storage : Storage Sim} (hs : storage.OverDisk) (path : Path)
    (w : World) : ((loadTemplate storage path).run.run w).2 = w ∨
      ((loadTemplate storage path).run.run w).2 = w.after (.read path) := by
  have hload : ((loadTemplate storage path).run.run w).2 = ((storage.readText path).run w).2 := by
    rw [loadTemplate, run_bind, run_os]
    rcases (storage.readText path).run w with ⟨result, w'⟩
    cases result with
    | error e => rfl
    | ok text =>
        dsimp only [Except.mapError]
        cases Template.build text path.text <;> rfl
  rw [hload]
  rcases hs.readText_cases path w with ⟨e, hread⟩ | hread
  · exact Or.inl (congrArg Prod.snd hread)
  · exact Or.inr (congrArg Prod.snd hread)

/-- Loading a template does nothing else. -/
theorem loadTemplate_trail {storage : Storage Sim} (hs : storage.OverDisk) (path : Path)
    (w : World) :
    ∃ events, Trail w events ((loadTemplate storage path).run.run w).2 ∧
      ∀ event ∈ events, event = .read path := by
  rcases loadTemplate_cases hs path w with hworld | hworld
  · rw [hworld]
    exact ⟨[], Trail.refl w, by simp⟩
  · rw [hworld]
    exact ⟨_, Trail.after _ _, by simp⟩

/-- Loading a template begins no run. -/
theorem loadTemplate_runs {storage : Storage Sim} (hs : storage.OverDisk) (path : Path)
    (w : World) : ((loadTemplate storage path).run.run w).2.runs = w.runs := by
  rcases loadTemplate_cases hs path w with hworld | hworld
  · rw [hworld]
  · rw [hworld]
    rfl

/-- What a run remembers at first. -/
def fresh (settings : Settings) (state : RunState) : Progress :=
  ⟨state, Backups.ofSettings settings, []⟩

/-- The manifest of a run that has just begun. -/
def emptyManifest (root : Path) (templateName : Text) (stamp : Stamp) : Manifest :=
  ⟨templateName, stamp.run, stamp.time, (Backups.runDir root stamp.run).text, []⟩

/-- Where a run stands before its first file, once its template has been loaded. -/
inductive Opening (job : Job Sim) (templateName : Text) (state : RunState) (w : World) :
    Option Text → Standing Progress → Prop
  | plain (h : job.settings.backupsEnabled = false) (level : Level) (text : Text) :
      Opening job templateName state w none ⟨fresh job.settings state, w.after (.log level text)⟩
  | backed (h : job.settings.backupsEnabled = true) (level level' : Level) (text text' : Text) :
      Opening job templateName state w (some (World.runName (w.runs + 1)))
        ⟨{ fresh job.settings state with
            backups := Backups.setRun (World.runName (w.runs + 1))
              (emptyManifest job.settings.backupRoot templateName
                ⟨World.runName (w.runs + 1), World.now.iso⟩)
              (Backups.ofSettings job.settings) },
          (({ w with runs := w.runs + 1 } : World).after (.log level text)).after (.log level' text')⟩

/-- The run that a world begins next, if backups are kept. -/
def nextRun? (settings : Settings) (w : World) : Option Text :=
  if settings.backupsEnabled then some (World.runName (w.runs + 1)) else none

theorem Opening.run?_eq (h : Opening job templateName state w run? s) :
    run? = nextRun? job.settings w := by
  cases h with
  | plain h => rw [nextRun?, h]; rfl
  | backed h => rw [nextRun?, h]; rfl

/-- A run that begins keeps its record, and nothing else. -/
theorem Opening.trail (h : Opening job templateName state w run? s) :
    ∃ events, Trail w events s.world ∧ ∀ event ∈ events, event.isLog = true := by
  cases h with
  | plain _ level text => exact ⟨_, Trail.after _ _, by simp [Event.isLog]⟩
  | backed _ level level' text text' =>
      have hstamp : Trail w [] { w with runs := w.runs + 1 } :=
        ⟨(List.append_nil _).symm, rfl, rfl, rfl⟩
      exact ⟨_, hstamp.trans ((Trail.after _ _).trans (Trail.after _ _)), by simp [Event.isLog]⟩

theorem Opening.memory (h : Opening job templateName state w run? s) :
    s.memory.state = state ∧ s.memory.outcomes = [] ∧
      s.memory.backups.root = job.settings.backupRoot ∧ Keeps run? s.memory ∧
      (run?.isSome = true → job.settings.backupsEnabled = true) := by
  cases h with
  | plain =>
      refine ⟨rfl, rfl, rfl, fun run hrun => ?_, fun hsome => ?_⟩
      · cases hrun
      · cases hsome
  | backed h =>
      refine ⟨rfl, rfl, rfl, fun run hrun => ?_, fun _ => h⟩
      obtain rfl := Option.some.inj hrun
      exact ⟨_, Backups.lookup_setRun _ _ _, rfl⟩

/-! ## The end -/

/-- What a run does after its last file: it keeps its record, writes its manifest and removes the
directory that it made obsolete. -/
def IsClosing (root : Path) (run? : Option Text) (event : Event) : Prop :=
  event.isLog = true ∨ (∃ run, run? = some run ∧ Backups.IsManifest root run event) ∨
    ∃ dir, event = .removeTree dir

theorem IsClosing.isAsking {root : Path} {event : Event} (h : IsClosing root run? event) :
    event.isAsking = false := by
  rcases h with hlog | ⟨run, -, bytes, rfl | rfl⟩ | ⟨dir, rfl⟩
  · exact Event.isAsking_of_isLog hlog
  · rfl
  · rfl
  · rfl

/-- Ending the backups: nothing was backed up, or the manifest is written once more. -/
theorem close_cases (hkeeps : Keeps run? s.memory) :
    (∃ backups, play (close run?) s = (.ok none, ⟨{ s.memory with backups }, s.world⟩) ∧
      ∀ run, run? = some run → ∃ manifest, s.memory.backups.runs.lookup run = some manifest ∧
        manifest.entries = []) ∨
    ∃ run manifest, run? = some run ∧ s.memory.backups.runs.lookup run = some manifest ∧
      manifest.runId = run ∧ manifest.entries ≠ [] ∧ play (close run?) s =
        ((play (Backups.finalize run) (toBackups s)).1.map some,
          withBackups s (play (Backups.finalize run) (toBackups s)).2) := by
  cases run? with
  | none => exact Or.inl ⟨s.memory.backups, rfl, fun run hrun => by cases hrun⟩
  | some run =>
      obtain ⟨manifest, hlookup, hid⟩ := hkeeps run rfl
      have hpending : play (backup (Backups.pending run)) s = (.ok manifest, s) := by
        rw [play_backup, Backups.play_pending (s := toBackups s) hlookup]
        rfl
      rw [close, play_bind_ok hpending]
      cases hentries : manifest.entries with
      | nil =>
          refine Or.inl ⟨Backups.dropReplaced run (Backups.dropRun run s.memory.backups), ?_,
            fun run' hrun => ⟨manifest, Option.some.inj hrun ▸ hlookup, hentries⟩⟩
          rw [if_pos List.isEmpty_nil]
          rfl
      | cons entry entries =>
          refine Or.inr ⟨run, manifest, rfl, hlookup, hid, by rw [hentries]; exact List.cons_ne_nil _ _,
            ?_⟩
          rw [List.isEmpty_cons, if_neg (by decide), play_bind, play_backup]
          rcases play (Backups.finalize run) (toBackups s) with ⟨result, b⟩
          cases result <;> rfl

theorem close_trail (hkeeps : Keeps run? s.memory) :
    ∃ events, Trail s.world events (play (close run?) s).2.world ∧
      (∀ event ∈ events, IsClosing s.memory.backups.root run? event) ∧
      (play (close run?) s).2.memory.state = s.memory.state ∧
      (play (close run?) s).2.memory.outcomes = s.memory.outcomes ∧
      ∀ e, (play (close run?) s).1 = .error e →
        run?.isSome = true ∧ (e = .unwritable ∨ ∃ o, e = .os o) := by
  rcases close_cases hkeeps with ⟨backups, hplay, -⟩ | ⟨run, manifest, rfl, hlookup, hid, -, hplay⟩
  · rw [hplay]
    exact ⟨[], Trail.refl _, by simp, rfl, rfl, fun e he => by cases he⟩
  · obtain ⟨writes, hwrites, hmanifests, hfails⟩ :=
      Backups.persist_trail s.memory.backups.root manifest s.world
    have hclosing : ∀ event ∈ writes, IsClosing s.memory.backups.root (some run) event :=
      fun event he => Or.inr (Or.inl ⟨run, rfl, hid ▸ hmanifests event he⟩)
    have hends := Backups.finalize_cases (s := toBackups s) hlookup
    obtain ⟨result, w₁, hpersist, hfinalize⟩ := hends
    have hpersist' : (Backups.persist s.memory.backups.root manifest : Act Sim Unit).run.run s.world =
      (result, w₁) := hpersist
    rw [hpersist'] at hwrites hfails
    rw [hplay]
    rcases hfinalize with ⟨e, rfl, hfinalize⟩ | ⟨rfl, events, w₂, htrail, hevents, hfinalize⟩
    · rw [hfinalize]
      refine ⟨writes, hwrites, hclosing, rfl, rfl, fun e' he' => ⟨rfl, hfails e' ?_⟩⟩
      exact congrArg Except.error (Except.error.inj he')
    · rw [hfinalize]
      refine ⟨_, hwrites.trans htrail, fun event he => ?_, rfl, rfl, fun e he => by cases he⟩
      rcases List.mem_append.mp he with he | he
      · exact hclosing event he
      · rcases hevents event he with hlog | ⟨dir, -, rfl⟩
        · exact Or.inl hlog
        · exact Or.inr (Or.inr ⟨dir, rfl⟩)

/-! ## All of it -/

/-- How a run ends after its backups have ended. -/
inductive Conclusion (templateName : Text) (s : Standing Progress) :
    Except Failure Unit → Except Failure (Option Path) → Except Failure RunSummary →
      Standing Progress → Prop
  | unclosed (visited : Except Failure Unit) (e : Failure) :
      Conclusion templateName s visited (.error e) (.error e) s
  | failed (e : Failure) (manifest? : Option Path) :
      Conclusion templateName s (.error e) (.ok manifest?) (.error e) s
  | finished (manifest? : Option Path) (level : Level) (text : Text) :
      Conclusion templateName s (.ok ()) (.ok manifest?)
        (.ok ⟨templateName, s.memory.outcomes, s.memory.state.cancelled, manifest?⟩)
        ⟨s.memory, s.world.after (.log level text)⟩

/-- What a conclusion adds: a line of the record, and the summary. -/
theorem Conclusion.cases {s₂ s₃ : Standing Progress} {visited : Except Failure Unit}
    {closed : Except Failure (Option Path)} {result : Except Failure RunSummary}
    (h : Conclusion templateName s₂ visited closed result s₃) :
    s₃.memory = s₂.memory ∧
      (∃ events, Trail s₂.world events s₃.world ∧ ∀ event ∈ events, event.isLog = true) ∧
      (∀ summary, result = .ok summary → visited = .ok () ∧
        summary.outcomes = s₂.memory.outcomes ∧ summary.cancelled = s₂.memory.state.cancelled) ∧
      (∀ e, result = .error e → visited = .error e ∨ closed = .error e) ∧
      ∀ e, visited = .error e → ∃ e', result = .error e' := by
  cases h with
  | unclosed e =>
      refine ⟨rfl, ⟨[], Trail.refl _, by simp⟩, fun summary heq => (by cases heq), fun e' he' => ?_,
        fun _ _ => ⟨_, rfl⟩⟩
      exact Or.inr (congrArg Except.error (Except.error.inj he'))
  | failed e manifest? =>
      refine ⟨rfl, ⟨[], Trail.refl _, by simp⟩, fun summary heq => (by cases heq), fun e' he' => ?_,
        fun _ _ => ⟨_, rfl⟩⟩
      exact Or.inl (congrArg Except.error (Except.error.inj he'))
  | finished manifest? level text =>
      refine ⟨rfl, ⟨_, Trail.after _ _, by simp [Event.isLog]⟩, fun summary heq => ?_,
        fun e he => (by cases he), fun e he => by cases he⟩
      rw [← Except.ok.inj heq]
      exact ⟨rfl, rfl, rfl⟩

theorem conclusion_overFiles (job : Job Sim) (template : Template) (templateName : Text)
    (run? : Option Text) (paths : List Path) (s : Standing Progress) :
    ∃ visited s₁ closed s₂, play (visitAll job template templateName run? paths) s = (visited, s₁) ∧
      play (close run?) s₁ = (closed, s₂) ∧
      Conclusion templateName s₂ visited closed
        (play (overFiles job template templateName run? paths) s).1
        (play (overFiles job template templateName run? paths) s).2 := by
  rcases hvisit : play (visitAll job template templateName run? paths) s with ⟨visited, s₁⟩
  rcases hclose : play (close run?) s₁ with ⟨closed, s₂⟩
  refine ⟨visited, s₁, closed, s₂, rfl, hclose, ?_⟩
  rw [overFiles, play_mk, run_bind_of_play hvisit, run_bind_of_play hclose]
  cases closed with
  | error e => exact .unclosed visited e
  | ok manifest? =>
      cases visited with
      | error e => exact .failed e manifest?
      | ok _ => exact .finished manifest? _ _

/-- What a run does once its template has been loaded. -/
def whole (job : Job Sim) (template : Template) (templateName : Text) (paths : List Path)
    (state : RunState) : RunAct Sim RunSummary := do
  let run? ← if job.settings.backupsEnabled then some <$> backup (Backups.begin templateName)
    else pure none
  log .info ["Updating instances of ", templateName, " (mode=", state.mode.label, ")"]
  overFiles job template templateName run? paths

theorem opening_whole (job : Job Sim) (template : Template) (templateName : Text)
    (paths : List Path) (state : RunState) (w : World) :
    ∃ run? s, Opening job templateName state w run? s ∧
      play (whole job template templateName paths state) ⟨fresh job.settings state, w⟩ =
        play (overFiles job template templateName run? paths) s := by
  rw [whole]
  cases henabled : job.settings.backupsEnabled with
  | false =>
      rw [if_neg (by decide), play_bind_ok (play_pure _ _), play_bind_ok (play_log _ _ _)]
      exact ⟨none, _, .plain henabled _ _, rfl⟩
  | true =>
      rw [if_pos rfl]
      have hbegin : play (some <$> backup (Backups.begin templateName)) ⟨fresh job.settings state, w⟩ =
          (.ok (some (World.runName (w.runs + 1))),
            ⟨{ fresh job.settings state with
              backups := Backups.setRun (World.runName (w.runs + 1))
                (emptyManifest job.settings.backupRoot templateName
                  ⟨World.runName (w.runs + 1), World.now.iso⟩)
                (Backups.ofSettings job.settings) },
              ({ w with runs := w.runs + 1 } : World).after (.log .debug (Text.concat
                ["Started backup run ", World.runName (w.runs + 1), " for ", templateName]))⟩) := rfl
      rw [play_bind_ok hbegin, play_bind_ok (play_log _ _ _)]
      exact ⟨_, _, .backed henabled _ _ _ _, rfl⟩

/-- A run stops before it has begun when its template cannot be loaded. Otherwise it begins, goes over
its files and ends. -/
theorem run_cases (job : Job Sim) (templatePath : Path) (paths : List Path)
    (state : RunState) (w : World) :
    (∃ e w₁, (loadTemplate job.storage templatePath).run.run w = (.error e, w₁) ∧
      (run job templatePath paths state).run w = ((.error e, state), w₁)) ∨
    ∃ template w₁ run? s₀ visits visited s₁ closed s₂ result s₃,
      (loadTemplate job.storage templatePath).run.run w = (.ok template, w₁) ∧
      Opening job templatePath.name state w₁ run? s₀ ∧
      Tour job template templatePath.name run? s₀ paths visits visited s₁ ∧
      play (close run?) s₁ = (closed, s₂) ∧
      Conclusion templatePath.name s₂ visited closed result s₃ ∧
      (run job templatePath paths state).run w = ((result, s₃.memory.state), s₃.world) := by
  rcases hload : (loadTemplate job.storage templatePath).run.run w with ⟨loaded, w₁⟩
  cases loaded with
  | error e =>
      refine Or.inl ⟨e, w₁, rfl, ?_⟩
      rw [run, StateT.run_bind, hload]
      rfl
  | ok template =>
      have hwhole : (run job templatePath paths state).run w =
          (((play (whole job template templatePath.name paths state) ⟨fresh job.settings state, w₁⟩).1,
            (play (whole job template templatePath.name paths state)
              ⟨fresh job.settings state, w₁⟩).2.memory.state),
            (play (whole job template templatePath.name paths state)
              ⟨fresh job.settings state, w₁⟩).2.world) := by
        rw [run, StateT.run_bind, hload]
        rfl
      obtain ⟨run?, s₀, hopening, hopen⟩ :=
        opening_whole job template templatePath.name paths state w₁
      obtain ⟨visited, s₁, closed, s₂, hvisit, hclose, hconclusion⟩ :=
        conclusion_overFiles job template templatePath.name run? paths s₀
      obtain ⟨visits, htour⟩ := exists_tour job template templatePath.name run? paths s₀
      rw [hvisit] at htour
      rw [hwhole, hopen]
      exact Or.inr ⟨template, w₁, run?, s₀, visits, visited, s₁, closed, s₂, _, _, rfl, hopening, htour,
        hclose, hconclusion, rfl⟩

end Run

end Stencil
