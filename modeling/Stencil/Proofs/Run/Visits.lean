import Stencil.Proofs.Backup.Steps

/-!
# Visits

A run comes to its files one after another. What it can do at one of them is said once
(`course_visit`): nothing is proposed, or the change is declined, or it is written with whatever
comes of that.
-/

namespace Stencil

namespace Run

variable {job : Job Sim} {template : Template} {templateName : Text} {run? : Option Text}
  {path : Path} {s : Standing Progress}

/-! ## Deciding -/

/-- What a decision approves or cancels for the rest of a run. -/
def decided (decision : Decision) (state : RunState) : RunState :=
  match decision with
  | .applyAll => { state with mode := .autoApplyAll }
  | .cancel => { state with cancelled := true }
  | _ => state

/-- The change of a file as it is proposed. -/
def proposal (job : Job Sim) (path : Path) (current : Text) (merged : Merged) : DiffSummary :=
  DiffSummary.make (job.settings.display path) current merged.text job.settings.diffContextLines
    (merged.changes.map ReportLine.ofChange)

/-- What deciding on a proposal does: once everything is approved nobody is asked. -/
inductive Decides (summary : DiffSummary) (s : Standing Progress) :
    Decision → Standing Progress → Prop
  | approved (h : s.memory.state.mode = .autoApplyAll) : Decides summary s .apply s
  | asked (h : s.memory.state.mode = .interactive) (decision : Decision) (script : Script) :
      Decides summary s decision
        ⟨{ s.memory with state := decided decision s.memory.state },
          (s.world.scriptedBy script).after (.proposed summary decision)⟩

theorem decides_decideOn (hfront : job.frontEnd = Sim.scripted) (path : Path) (current : Text)
    (merged : Merged) (s : Standing Progress) :
    ∃ decision s', play (decideOn job (job.settings.display path) current merged.text
        merged.changes) s = (.ok decision, s') ∧
      Decides (proposal job path current merged) s decision s' := by
  rw [decideOn, play_bind_ok (play_get s)]
  cases hmode : s.memory.state.mode with
  | autoApplyAll =>
      rw [if_pos rfl]
      exact ⟨.apply, s, rfl, .approved hmode⟩
  | interactive =>
      have hsummary : DiffSummary.make (job.settings.display path) current merged.text
          job.settings.diffContextLines (merged.changes.map ReportLine.ofChange) =
            proposal job path current merged := rfl
      dsimp only
      rw [if_neg (by decide), hfront, hsummary, play_bind_ok (play_host _ _), run_confirm]
      generalize (s.world.script.confirm (proposal job path current merged)).1 = decision
      generalize (s.world.script.confirm (proposal job path current merged)).2 = script
      refine ⟨decision, _, ?_, .asked hmode decision script⟩
      cases decision <;> rfl

/-! ## Writing -/

/-- Writing a page: a snapshot fails and nothing is written, or the page is written after it. -/
theorem write_cases (job : Job Sim) (run? : Option Text) (path : Path) (text : Text)
    (s : Standing Progress) :
    (∃ run e b, run? = some run ∧
      play (Backups.snapshot job.storage run path) (toBackups s) = (.error e, b) ∧
      play (write job run? path text) s = (.error e, withBackups s b)) ∨
    ∃ s₁, (run? = none ∧ s₁ = s ∨ ∃ run entry b, run? = some run ∧
        play (Backups.snapshot job.storage run path) (toBackups s) = (.ok entry, b) ∧
        s₁ = withBackups s b) ∧
      play (write job run? path text) s =
        (((job.storage.writeText path text).run s₁.world).1.mapError Failure.os,
          ⟨s₁.memory, ((job.storage.writeText path text).run s₁.world).2⟩) := by
  unfold write
  cases run? with
  | none =>
      refine Or.inr ⟨s, Or.inl ⟨rfl, rfl⟩, ?_⟩
      dsimp only
      rw [play_perform, run_os]
  | some run =>
      dsimp only
      rcases hsnapshot : play (Backups.snapshot job.storage run path) (toBackups s) with ⟨result, b⟩
      have hplay : play (discard (backup (Backups.snapshot job.storage run path))) s =
          (result.map fun _ => ⟨⟩, withBackups s b) := by
        rw [play_discard, play_backup, hsnapshot]
      cases result with
      | error e => exact Or.inl ⟨run, e, b, rfl, hsnapshot, play_bind_error hplay _⟩
      | ok entry =>
          refine Or.inr ⟨withBackups s b, Or.inr ⟨run, entry, b, rfl, hsnapshot, rfl⟩, ?_⟩
          rw [play_bind_ok hplay, play_perform, run_os]

/-- The run that keeps backups is under way. -/
def Keeps (run? : Option Text) (progress : Progress) : Prop :=
  ∀ run, run? = some run → Backups.Has run progress.backups

/-- Writing a page asks nobody and approves and cancels nothing. It fails only as files do, or because
the run keeps backups and its manifest cannot be written at all. -/
theorem write_trail (hs : job.storage.OverDisk) (hkeeps : Keeps run? s.memory) (path : Path)
    (text : Text) :
    ∃ events, Trail s.world events (play (write job run? path text) s).2.world ∧
      (∀ event ∈ events, event.isAsking = false) ∧
      Keeps run? (play (write job run? path text) s).2.memory ∧
      (play (write job run? path text) s).2.memory.state = s.memory.state ∧
      (play (write job run? path text) s).2.memory.outcomes = s.memory.outcomes ∧
      (play (write job run? path text) s).2.memory.backups.root = s.memory.backups.root ∧
      ∀ e, (play (write job run? path text) s).1 = .error e →
        e = .unwritable ∧ run?.isSome = true ∨ ∃ o, e = .os o := by
  rcases write_cases job run? path text s with
    ⟨run, e, b, hrun, hsnapshot, hplay⟩ | ⟨s₁, hs₁, hplay⟩
  · obtain ⟨events, htrail, hevents, hhas, hroot, hfails⟩ :=
      Backups.snapshot_trail hs (s := toBackups s) (hkeeps run hrun) path
    rw [hsnapshot] at htrail hhas hroot hfails
    rw [hplay]
    refine ⟨events, htrail, hevents, fun run' hrun' => ?_, rfl, rfl, hroot, fun e' he' => ?_⟩
    · rw [hrun] at hrun'
      exact Option.some.inj hrun' ▸ hhas
    · rw [hrun]
      exact (hfails e' (congrArg Except.error (Except.error.inj he'))).imp_left fun he => ⟨he, rfl⟩
  · have hbefore : ∃ events, Trail s.world events s₁.world ∧
        (∀ event ∈ events, event.isAsking = false) ∧ Keeps run? s₁.memory ∧
        s₁.memory.state = s.memory.state ∧ s₁.memory.outcomes = s.memory.outcomes ∧
        s₁.memory.backups.root = s.memory.backups.root := by
      rcases hs₁ with ⟨-, rfl⟩ | ⟨run, entry, b, hrun, hsnapshot, rfl⟩
      · exact ⟨[], Trail.refl _, by simp, hkeeps, rfl, rfl, rfl⟩
      · obtain ⟨events, htrail, hevents, hhas, hroot, -⟩ :=
          Backups.snapshot_trail hs (s := toBackups s) (hkeeps run hrun) path
        rw [hsnapshot] at htrail hhas hroot
        refine ⟨events, htrail, hevents, fun run' hrun' => ?_, rfl, rfl, hroot⟩
        rw [hrun] at hrun'
        exact Option.some.inj hrun' ▸ hhas
    obtain ⟨events, htrail, hevents, hkeeps₁, hstate, houtcomes, hroot⟩ := hbefore
    rw [hplay]
    rcases hs.writeText_cases path text s₁.world with ⟨o, hwrite⟩ | hwrite
    · rw [hwrite]
      exact ⟨events, htrail, hevents, hkeeps₁, hstate, houtcomes, hroot,
        fun e he => Or.inr ⟨o, (Except.error.inj he).symm⟩⟩
    · rw [hwrite]
      refine ⟨_, htrail.trans (Trail.after _ _), fun event he => ?_, hkeeps₁, hstate, houtcomes, hroot,
        fun e he => Or.inr ?_⟩
      · rcases List.mem_append.mp he with he | he
        · exact hevents event he
        · rw [List.mem_singleton.mp he]
          rfl
      · dsimp only at he
        cases hresult : (s₁.world.tree.replace s₁.world.here s₁.world.tag path text.encode).2 with
        | error o =>
            rw [hresult] at he
            exact ⟨o, (Except.error.inj he).symm⟩
        | ok _ =>
            rw [hresult] at he
            cases he

/-! ## One file -/

/-- Where a run stands once it has said which file comes next. -/
def announced (job : Job Sim) (path : Path) (s : Standing Progress) : World :=
  s.world.scriptedBy
    (s.world.script.report (Text.concat ["Processing ", job.settings.display path]))

/-- What reading the file gives. -/
def held (job : Job Sim) (path : Path) (s : Standing Progress) : Except OsError Text :=
  ((job.storage.readText path).run (announced job path s)).1

/-- Where a run stands once it has read the file. -/
def opened (job : Job Sim) (path : Path) (s : Standing Progress) : Standing Progress :=
  ⟨s.memory, ((job.storage.readText path).run (announced job path s)).2⟩

/-- What comes of a file without asking: it cannot be read, is malformed, belongs to another template
or would not change. -/
inductive Unproposed (job : Job Sim) (template : Template) (templateName : Text) (path : Path) :
    Except OsError Text → Option Outcome → Prop
  | unreadable (e : OsError) : Unproposed job template templateName path (.error e)
      (some ⟨job.settings.display path, .ioFailed, e.message, []⟩)
  | malformed (current : Text) (fault : Fault) (h : Page.build current path.text = .error fault) :
      Unproposed job template templateName path (.ok current)
        (some ⟨job.settings.display path, .parseFailed, fault.message, []⟩)
  | foreign (current : Text) (page : Page) (h : Page.build current path.text = .ok page)
      (hname : page.templateName ≠ templateName) :
      Unproposed job template templateName path (.ok current) none
  | unchanged (current : Text) (page : Page) (h : Page.build current path.text = .ok page)
      (hname : page.templateName = templateName) (hsame : (merge template page).text = current) :
      Unproposed job template templateName path (.ok current)
        (some ⟨job.settings.display path, .skippedNoChange, [], (merge template page).changes⟩)

/-- A page of the template that merging changes. -/
structure Changes (template : Template) (templateName : Text) (path : Path) (current : Text)
    (page : Page) : Prop where
  build : Page.build current path.text = .ok page
  name : page.templateName = templateName
  differs : (merge template page).text ≠ current

/-- Everything that can happen at a file. -/
inductive Course (job : Job Sim) (template : Template) (templateName : Text) (run? : Option Text)
    (path : Path) (s : Standing Progress) :
    Except Failure (Option Outcome) → Standing Progress → Prop
  | unproposed (outcome? : Option Outcome) (script : Script) (level : Level) (text : Text)
      (h : Unproposed job template templateName path (held job path s) outcome?) :
      Course job template templateName run? path s (.ok outcome?)
        ⟨s.memory, ((opened job path s).world.after (.log level text)).scriptedBy script⟩
  | skipped (current : Text) (page : Page) (s₁ : Standing Progress) (level : Level) (text : Text)
      (hread : held job path s = .ok current) (h : Changes template templateName path current page)
      (hdecide : Decides (proposal job path current (merge template page)) (opened job path s)
        .skip s₁) :
      Course job template templateName run? path s
        (.ok (some ⟨job.settings.display path, .skippedByUser, [], (merge template page).changes⟩))
        ⟨s₁.memory, s₁.world.after (.log level text)⟩
  | cancelled (current : Text) (page : Page) (s₁ : Standing Progress) (level : Level) (text : Text)
      (hread : held job path s = .ok current) (h : Changes template templateName path current page)
      (hdecide : Decides (proposal job path current (merge template page)) (opened job path s)
        .cancel s₁) :
      Course job template templateName run? path s
        (.ok (some ⟨job.settings.display path, .cancelled, [], (merge template page).changes⟩))
        ⟨s₁.memory, s₁.world.after (.log level text)⟩
  | written (current : Text) (page : Page) (decision : Decision) (s₁ s₂ : Standing Progress)
      (level : Level) (text : Text) (hread : held job path s = .ok current)
      (h : Changes template templateName path current page) (hskip : decision ≠ .skip)
      (hcancel : decision ≠ .cancel)
      (hdecide : Decides (proposal job path current (merge template page)) (opened job path s)
        decision s₁)
      (hwrite : play (write job run? path (merge template page).text) s₁ = (.ok (), s₂)) :
      Course job template templateName run? path s
        (.ok (some ⟨job.settings.display path, .applied, [], (merge template page).changes⟩))
        ⟨s₂.memory, s₂.world.after (.log level text)⟩
  | failed (current : Text) (page : Page) (decision : Decision) (s₁ s₂ : Standing Progress)
      (e : OsError) (script : Script) (level : Level) (text : Text)
      (hread : held job path s = .ok current)
      (h : Changes template templateName path current page) (hskip : decision ≠ .skip)
      (hcancel : decision ≠ .cancel)
      (hdecide : Decides (proposal job path current (merge template page)) (opened job path s)
        decision s₁)
      (hwrite : play (write job run? path (merge template page).text) s₁ = (.error (.os e), s₂)) :
      Course job template templateName run? path s
        (.ok (some ⟨job.settings.display path, .ioFailed, e.message, (merge template page).changes⟩))
        ⟨s₂.memory, (s₂.world.after (.log level text)).scriptedBy script⟩
  | aborted (current : Text) (page : Page) (decision : Decision) (s₁ s₂ : Standing Progress)
      (e : Failure) (hread : held job path s = .ok current)
      (h : Changes template templateName path current page) (hskip : decision ≠ .skip)
      (hcancel : decision ≠ .cancel) (hos : ∀ o, e ≠ .os o)
      (hdecide : Decides (proposal job path current (merge template page)) (opened job path s)
        decision s₁)
      (hwrite : play (write job run? path (merge template page).text) s₁ = (.error e, s₂)) :
      Course job template templateName run? path s (.error e) s₂

/-- What a run does with a change on which there is a decision. -/
def settle (job : Job Sim) (run? : Option Text) (path : Path) (merged : Merged) :
    Decision → RunAct Sim (Option Outcome)
  | .skip => do
    log .info ["Skipped ", job.settings.display path]
    return some ⟨job.settings.display path, .skippedByUser, [], merged.changes⟩
  | .cancel => do
    log .info ["Run cancelled at ", job.settings.display path]
    return some ⟨job.settings.display path, .cancelled, [], merged.changes⟩
  | _ => do
    match ← tryOs (write job run? path merged.text) with
    | .error e =>
      log .error ["Cannot update ", job.settings.display path, ": ", e.message]
      host (job.frontEnd.notify .error
        (Text.concat ["Cannot update ", job.settings.display path, ": ", e.message]))
      return some ⟨job.settings.display path, .ioFailed, e.message, merged.changes⟩
    | .ok () =>
      log .info ["Updated ", job.settings.display path]
      return some ⟨job.settings.display path, .applied, [], merged.changes⟩

theorem course_settle (hfront : job.frontEnd = Sim.scripted) {current : Text} {page : Page}
    {decision : Decision} {s₁ : Standing Progress} (hread : held job path s = .ok current)
    (h : Changes template templateName path current page)
    (hdecide : Decides (proposal job path current (merge template page)) (opened job path s)
      decision s₁) :
    Course job template templateName run? path s
      (play (settle job run? path (merge template page) decision) s₁).1
      (play (settle job run? path (merge template page) decision) s₁).2 := by
  by_cases hskip : decision = .skip
  · subst hskip
    rw [settle, play_bind_ok (play_log _ _ _), play_pure]
    exact .skipped current page s₁ _ _ hread h hdecide
  · by_cases hcancel : decision = .cancel
    · subst hcancel
      rw [settle, play_bind_ok (play_log _ _ _), play_pure]
      exact .cancelled current page s₁ _ _ hread h hdecide
    · have htry : play (tryOs (write job run? path (merge template page).text)) s₁ =
          (tried (play (write job run? path (merge template page).text) s₁).1,
            (play (write job run? path (merge template page).text) s₁).2) := play_tryOs _ _
      rcases hwrite : play (write job run? path (merge template page).text) s₁ with ⟨result, s₂⟩
      rw [hwrite] at htry
      rw [settle]
      · rcases result with e | a
        · by_cases hos : ∃ o, e = .os o
          · obtain ⟨o, rfl⟩ := hos
            rw [hfront, play_bind_ok htry]
            dsimp only
            rw [play_bind_ok (play_log _ _ _), play_bind_ok (play_host _ _), run_notify, play_pure]
            exact .failed current page decision s₁ s₂ o _ _ _ hread h hskip hcancel hdecide hwrite
          · have hne : ∀ o, e ≠ .os o := fun o heq => hos ⟨o, heq⟩
            rw [tried_of_ne hne] at htry
            rw [play_bind_error htry]
            exact .aborted current page decision s₁ s₂ e hread h hskip hcancel hne hdecide hwrite
        · rw [play_bind_ok htry, play_bind_ok (play_log _ _ _), play_pure]
          exact .written current page decision s₁ s₂ _ _ hread h hskip hcancel hdecide hwrite
      · exact hskip
      · exact hcancel

theorem course_visit (hfront : job.frontEnd = Sim.scripted) (template : Template)
    (templateName : Text) (run? : Option Text) (path : Path) (s : Standing Progress) :
    Course job template templateName run? path s (play (visit job template templateName run? path) s).1
      (play (visit job template templateName run? path) s).2 := by
  have hprogress : play (host (job.frontEnd.progress
      (Text.concat ["Processing ", job.settings.display path]))) s =
        (.ok (), ⟨s.memory, announced job path s⟩) := by
    rw [play_host, hfront, run_progress]
    rfl
  have hread : play (host (job.storage.readText path)) ⟨s.memory, announced job path s⟩ =
      (.ok (held job path s), opened job path s) := rfl
  rw [visit]
  dsimp only
  rw [play_bind_ok hprogress, play_bind_ok hread]
  cases hheld : held job path s with
  | error e =>
      rw [hfront, play_bind_ok (play_log _ _ _), play_bind_ok (play_host _ _), run_notify, play_pure]
      exact .unproposed _ _ _ _ (hheld ▸ .unreadable e)
  | ok current =>
      dsimp only
      cases hbuild : Page.build current path.text with
      | error fault =>
          dsimp only
          rw [hfront, play_bind_ok (play_log _ _ _), play_bind_ok (play_host _ _), run_notify,
            play_pure]
          exact .unproposed _ _ _ _ (hheld ▸ .malformed current fault hbuild)
      | ok page =>
          dsimp only
          by_cases hname : page.templateName = templateName
          · rw [if_neg (not_not.mpr hname)]
            by_cases hsame : (merge template page).text = current
            · rw [if_pos hsame, play_bind_ok (play_log _ _ _), play_pure]
              exact .unproposed _ (opened job path s).world.script _ _
                (hheld ▸ .unchanged current page hbuild hname hsame)
            · rw [if_neg hsame]
              have hchanges : Changes template templateName path current page :=
                ⟨hbuild, hname, hsame⟩
              obtain ⟨decision, s₁, hplay, hdecide⟩ := decides_decideOn hfront path current
                (merge template page) (opened job path s)
              rw [play_bind_ok hplay]
              exact course_settle hfront hheld hchanges hdecide
          · rw [if_pos hname, play_bind_ok (play_log _ _ _), play_pure]
            exact .unproposed _ (opened job path s).world.script _ _
              (hheld ▸ .foreign current page hbuild hname)

/-! ## What a visit amounts to -/

/-- Who was asked about a file, and what is approved and cancelled then. -/
inductive Asked (job : Job Sim) (template : Template) (templateName : Text) (path : Path)
    (s : Standing Progress) : List Event → RunState → Prop
  | nobody : Asked job template templateName path s [] s.memory.state
  | user (current : Text) (page : Page) (decision : Decision)
      (hmode : s.memory.state.mode = .interactive) (hread : held job path s = .ok current)
      (h : Changes template templateName path current page) :
      Asked job template templateName path s
        [.proposed (proposal job path current (merge template page)) decision]
        (decided decision s.memory.state)

theorem exists_reads (hs : job.storage.OverDisk) (path : Path) (s : Standing Progress) :
    ∃ reads, Trail s.world reads (opened job path s).world ∧ ∀ event ∈ reads, event = .read path := by
  have hscript : Trail s.world [] (announced job path s) := Trail.scriptedBy _ _
  have hopened : (opened job path s).world =
      ((job.storage.readText path).run (announced job path s)).2 := rfl
  rw [hopened]
  rcases hs.readText_cases path (announced job path s) with ⟨e, hread⟩ | hread
  · rw [hread]
    exact ⟨[], hscript, by simp⟩
  · rw [hread]
    exact ⟨_, hscript.trans (Trail.after _ _), by simp⟩

theorem exists_asked {current : Text} {page : Page} {decision : Decision}
    {s₁ : Standing Progress} (hread : held job path s = .ok current)
    (h : Changes template templateName path current page)
    (hdecide : Decides (proposal job path current (merge template page)) (opened job path s)
      decision s₁) :
    ∃ asked, Trail (opened job path s).world asked s₁.world ∧
      Asked job template templateName path s asked s₁.memory.state ∧
      s₁.memory.backups = s.memory.backups ∧ s₁.memory.outcomes = s.memory.outcomes ∧
      ∀ summary, .proposed summary .cancel ∈ asked → decision = .cancel := by
  cases hdecide with
  | approved hmode => exact ⟨[], Trail.refl _, .nobody, rfl, rfl, by simp⟩
  | asked hmode _ script =>
      refine ⟨_, (Trail.scriptedBy _ _).trans (Trail.after _ _), .user current page decision hmode
        hread h, rfl, rfl, fun summary hmem => ?_⟩
      have heq := List.mem_singleton.mp hmem
      exact (Event.proposed.inj heq).2.symm

/-- What an approved change does up to its being written, or not. -/
theorem exists_writes (hs : job.storage.OverDisk) (hkeeps : Keeps run? s.memory) {current : Text}
    {page : Page} {decision : Decision} {s₁ s₂ : Standing Progress} {result : Except Failure Unit}
    (hread : held job path s = .ok current)
    (h : Changes template templateName path current page) (hne : decision ≠ .cancel)
    (hdecide : Decides (proposal job path current (merge template page)) (opened job path s)
      decision s₁)
    (hwrite : play (write job run? path (merge template page).text) s₁ = (result, s₂)) :
    ∃ asked writes, Trail (opened job path s).world (asked ++ writes) s₂.world ∧
      Asked job template templateName path s asked s₂.memory.state ∧
      (∀ event ∈ writes, event.isAsking = false) ∧ (∀ summary, .proposed summary .cancel ∉ asked) ∧
      Keeps run? s₂.memory ∧ s₂.memory.outcomes = s.memory.outcomes ∧
      s₂.memory.backups.root = s.memory.backups.root := by
  obtain ⟨asked, htrail, hasked, hbackups, houtcomes, hcancel⟩ := exists_asked hread h hdecide
  have hkeeps₁ : Keeps run? s₁.memory := by
    rw [Keeps, hbackups]
    exact hkeeps
  obtain ⟨writes, hwrites, hsilent, hkeeps₂, hstate, houtcomes₂, hroot, -⟩ :=
    write_trail hs hkeeps₁ path (merge template page).text
  rw [hwrite] at hwrites hkeeps₂ hstate houtcomes₂ hroot
  rw [hbackups] at hroot
  exact ⟨asked, writes, htrail.trans hwrites, hstate ▸ hasked, hsilent,
    fun summary hmem => hne (hcancel summary hmem), hkeeps₂, houtcomes₂.trans houtcomes, hroot⟩

/-- What a visit does, in order: it reads, it may ask, and it goes on without asking. Once it has been
told to cancel it only keeps the record. -/
theorem Course.exists_events (hs : job.storage.OverDisk) (hkeeps : Keeps run? s.memory)
    {result : Except Failure (Option Outcome)} {s' : Standing Progress}
    (h : Course job template templateName run? path s result s') :
    ∃ reads asked rest, Trail s.world (reads ++ asked ++ rest) s'.world ∧
      (∀ event ∈ reads, event = .read path) ∧
      Asked job template templateName path s asked s'.memory.state ∧
      (∀ event ∈ rest, event.isAsking = false) ∧
      (∀ summary, .proposed summary .cancel ∈ asked → (∀ event ∈ rest, event.isLog = true) ∧
        ∃ outcome, result = .ok (some outcome) ∧ outcome.status = .cancelled) ∧
      Keeps run? s'.memory ∧ s'.memory.outcomes = s.memory.outcomes ∧
      s'.memory.backups.root = s.memory.backups.root := by
  obtain ⟨reads, hreads, hread_mem⟩ := exists_reads hs path s
  cases h with
  | unproposed outcome? script level text h =>
      refine ⟨reads, [], [.log level text], ?_, hread_mem, .nobody, by simp [Event.isAsking], by simp,
        hkeeps, rfl, rfl⟩
      rw [List.append_nil]
      exact hreads.trans ((Trail.after _ _).trans (Trail.scriptedBy _ _))
  | skipped current page s₁ level text hread h hdecide =>
      obtain ⟨asked, htrail, hasked, hbackups, houtcomes, hcancel⟩ := exists_asked hread h hdecide
      refine ⟨reads, asked, _, (hreads.trans htrail).trans (Trail.after _ _), hread_mem, hasked,
        by simp [Event.isAsking], fun summary hmem => ?_, ?_, houtcomes, by rw [hbackups]⟩
      · cases hcancel summary hmem
      · rw [Keeps, hbackups]
        exact hkeeps
  | cancelled current page s₁ level text hread h hdecide =>
      obtain ⟨asked, htrail, hasked, hbackups, houtcomes, -⟩ := exists_asked hread h hdecide
      refine ⟨reads, asked, _, (hreads.trans htrail).trans (Trail.after _ _), hread_mem, hasked,
        by simp [Event.isAsking], fun summary hmem => ?_, ?_, houtcomes, by rw [hbackups]⟩
      · exact ⟨by simp [Event.isLog], _, rfl, rfl⟩
      · rw [Keeps, hbackups]
        exact hkeeps
  | written current page decision s₁ s₂ level text hread h _ hne hdecide hwrite =>
      obtain ⟨asked, writes, htrail, hasked, hsilent, hnot, hkeeps₂, houtcomes, hroot⟩ :=
        exists_writes hs hkeeps hread h hne hdecide hwrite
      refine ⟨reads, asked, writes ++ [.log level text], ?_, hread_mem, hasked, ?_,
        fun summary hmem => absurd hmem (hnot summary), hkeeps₂, houtcomes, hroot⟩
      · rw [List.append_assoc, ← List.append_assoc asked]
        exact hreads.trans (htrail.trans (Trail.after _ _))
      · simpa [Event.isAsking, or_imp, forall_and] using hsilent
  | failed current page decision s₁ s₂ e script level text hread h _ hne hdecide hwrite =>
      obtain ⟨asked, writes, htrail, hasked, hsilent, hnot, hkeeps₂, houtcomes, hroot⟩ :=
        exists_writes hs hkeeps hread h hne hdecide hwrite
      refine ⟨reads, asked, writes ++ [.log level text], ?_, hread_mem, hasked, ?_,
        fun summary hmem => absurd hmem (hnot summary), hkeeps₂, houtcomes, hroot⟩
      · rw [List.append_assoc, ← List.append_assoc asked]
        exact hreads.trans (htrail.trans ((Trail.after _ _).trans (Trail.scriptedBy _ _)))
      · simpa [Event.isAsking, or_imp, forall_and] using hsilent
  | aborted current page decision s₁ s₂ e hread h _ hne hos hdecide hwrite =>
      obtain ⟨asked, writes, htrail, hasked, hsilent, hnot, hkeeps₂, houtcomes, hroot⟩ :=
        exists_writes hs hkeeps hread h hne hdecide hwrite
      refine ⟨reads, asked, writes, ?_, hread_mem, hasked, hsilent,
        fun summary hmem => absurd hmem (hnot summary), hkeeps₂, houtcomes, hroot⟩
      rw [List.append_assoc]
      exact hreads.trans htrail

/-- A visit fails only because the run keeps backups and its manifest cannot be written at all. -/
theorem Course.eq_unwritable (hs : job.storage.OverDisk) (hkeeps : Keeps run? s.memory) {e : Failure}
    {s' : Standing Progress} (h : Course job template templateName run? path s (.error e) s') :
    e = .unwritable ∧ run?.isSome = true := by
  cases h with
  | aborted current page decision s₁ s₂ _ hread h _ hne hos hdecide hwrite =>
      obtain ⟨asked, htrail, hasked, hbackups, houtcomes, hcancel⟩ := exists_asked hread h hdecide
      have hkeeps₁ : Keeps run? s₁.memory := by
        rw [Keeps, hbackups]
        exact hkeeps
      obtain ⟨writes, -, -, -, -, -, -, hfails⟩ :=
        write_trail hs hkeeps₁ path (merge template page).text
      rw [hwrite] at hfails
      rcases hfails e rfl with he | ⟨o, he⟩
      · exact he
      · exact absurd he (hos o)

/-- A change of a page of the template is none of a page of another one. -/
theorem Changes.not_foreign {current : Text} {page : Page}
    (h : Changes template templateName path current page) (hread : held job path s = .ok current) :
    ¬ ∃ current page, held job path s = .ok current ∧ Page.build current path.text = .ok page ∧
      page.templateName ≠ templateName := by
  rintro ⟨current', page', hread', hbuild', hname'⟩
  rw [hread] at hread'
  obtain rfl := Except.ok.inj hread'
  rw [h.build] at hbuild'
  exact hname' (Except.ok.inj hbuild' ▸ h.name)

/-- There is one outcome for a file, but none for a page of another template. -/
theorem Course.eq_none_iff {outcome? : Option Outcome} {s' : Standing Progress}
    (h : Course job template templateName run? path s (.ok outcome?) s') :
    outcome? = none ↔ ∃ current page, held job path s = .ok current ∧
      Page.build current path.text = .ok page ∧ page.templateName ≠ templateName := by
  cases h with
  | unproposed _ script level text h =>
      generalize held job path s = read at h
      cases h with
      | unreadable e => simp
      | malformed current fault h => simp [h]
      | foreign current page h hname => exact iff_of_true rfl ⟨current, page, rfl, h, hname⟩
      | unchanged current page h hname hsame => simp [h, hname]
  | skipped current page s₁ level text hread h => exact iff_of_false (by simp) (h.not_foreign hread)
  | cancelled current page s₁ level text hread h => exact iff_of_false (by simp) (h.not_foreign hread)
  | written current page decision s₁ s₂ level text hread h =>
      exact iff_of_false (by simp) (h.not_foreign hread)
  | failed current page decision s₁ s₂ e script level text hread h =>
      exact iff_of_false (by simp) (h.not_foreign hread)

theorem Course.path_eq {outcome : Outcome} {s' : Standing Progress}
    (h : Course job template templateName run? path s (.ok (some outcome)) s') :
    outcome.path = job.settings.display path := by
  cases h with
  | unproposed _ script level text h =>
      generalize held job path s = read at h
      cases h <;> rfl
  | _ => rfl

/-- Whoever approves everything cancels and skips nothing. -/
theorem Decides.eq_apply {summary : DiffSummary} {decision : Decision} {s₁ : Standing Progress}
    (h : Decides summary s decision s₁) (hmode : s.memory.state.mode = .autoApplyAll) :
    decision = .apply := by
  cases h with
  | approved => rfl
  | asked hasked => cases hmode.symm.trans hasked

/-- Once everything is approved, a change ends written or failed. -/
theorem Course.settled {current : Text} {page : Page} {outcome? : Option Outcome}
    {s' : Standing Progress} (h : Course job template templateName run? path s (.ok outcome?) s')
    (hmode : s.memory.state.mode = .autoApplyAll) (hread : held job path s = .ok current)
    (hchanges : Changes template templateName path current page) :
    ∃ outcome, outcome? = some outcome ∧
      (outcome.status = .applied ∨ outcome.status = .ioFailed) := by
  cases h with
  | unproposed _ script level text h =>
      rw [hread] at h
      cases h with
      | malformed _ fault h => cases hchanges.build.symm.trans h
      | foreign _ page' h hname =>
          obtain rfl := Except.ok.inj (hchanges.build.symm.trans h)
          exact absurd hchanges.name hname
      | unchanged _ page' h hname hsame =>
          obtain rfl := Except.ok.inj (hchanges.build.symm.trans h)
          exact absurd hsame hchanges.differs
  | skipped _ _ s₁ level text hread h hdecide => cases hdecide.eq_apply hmode
  | cancelled _ _ s₁ level text hread h hdecide => cases hdecide.eq_apply hmode
  | written => exact ⟨_, rfl, Or.inl rfl⟩
  | failed => exact ⟨_, rfl, Or.inr rfl⟩

/-- A file at which the run is cancelled leaves it cancelled. -/
theorem Course.cancels {outcome : Outcome} {s' : Standing Progress}
    (h : Course job template templateName run? path s (.ok (some outcome)) s')
    (hstatus : outcome.status = .cancelled) : s'.memory.state.cancelled = true := by
  cases h with
  | unproposed _ script level text h =>
      generalize held job path s = read at h
      cases h <;> cases hstatus
  | cancelled current page s₁ level text hread h hdecide =>
      cases hdecide with
      | asked => rfl
  | skipped => cases hstatus
  | written => cases hstatus
  | failed => cases hstatus

end Run

end Stencil
