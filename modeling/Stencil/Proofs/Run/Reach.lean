import Stencil.Proofs.Run.Confinement
import Stencil.Proofs.Run.Quiet

/-!
# How far a run reaches

With a front end that leaves the disk alone, whatever it answers and even if it fails, a run changes no
file outside the backup root but those it is given (`run_spares`). One visit writes its file or nothing
(`leads_touch`), and from there it is an induction over the tour.
-/

namespace Stencil

open Stencil.Path (IsName)
open Stencil.Tree (Spares place)

namespace Idle

variable {w w' : World}

theorem tree (h : Idle w w') : w'.tree = w.tree := by
  obtain ⟨events, htrail, hidle⟩ := h
  exact htrail.tree_eq hidle

theorem here (h : Idle w w') : w'.here = w.here := by
  obtain ⟨events, htrail, -⟩ := h
  exact htrail.here

theorem isSound (h : Idle w w') (hw : w.IsSound) : w'.IsSound :=
  ⟨h.tree ▸ hw.tree, h.here ▸ hw.here⟩

end Idle

namespace Run

variable {job : Job Sim} {template : Template} {templateName : Text} {run? : Option Text}
  {path : Path} {paths : List Path} {s s' : Standing Progress} {v : Visit} {visits : List Visit}
  {result : Except Failure Unit}

theorem idle_loadTemplate {storage : Storage Sim} (hs : storage.OverDisk) (path : Path) (w : World) :
    Idle w ((loadTemplate storage path).run.run w).2 := by
  obtain ⟨events, htrail, hreads⟩ := loadTemplate_trail hs path w
  exact ⟨events, htrail, fun event he => hreads event he ▸ rfl⟩

theorem Opening.idle {state : RunState} {w : World} (h : Opening job templateName state w run? s) :
    Idle w s.world := by
  obtain ⟨events, htrail, hlogs⟩ := h.trail
  exact ⟨events, htrail, fun event he => Event.isIdle_of_isLog (hlogs event he)⟩

theorem Leads.of_rests {P : Loc → Prop} (h : Rests s s') (hw : s.world.IsSound)
    (hcautious : Cautious run? s) : Leads P run? s s' := by
  obtain ⟨events, htrail, hidle⟩ := h.world
  exact .of_idle hw hcautious htrail hidle h.backups

/-- A visit changes nothing outside the backup root but its file. -/
theorem leads_touch (hs : job.storage.OverDisk) (hw : s.world.IsSound) (hcautious : Cautious run? s)
    (hpath : path.IsProper) {outcome : Except Failure (Option Outcome)}
    (h : Touch job run? path s outcome s') : Leads (· = place s.world.here path) run? s s' := by
  cases h with
  | rests h => exact .of_rests h hw hcautious
  | writes bytes hread text written h hwrite h' =>
      have hbefore : Leads (· = place s.world.here path) run? s _ := .of_rests h hw hcautious
      refine hbefore.trans ?_
      rw [← hbefore.here]
      rcases leads_write hs hbefore.sound hbefore.cautious hpath hwrite with
        ⟨-, hleads, -⟩ | ⟨-, hleads, -⟩
      · exact (hleads.mono fun _ => False.elim).trans (.of_rests h' hleads.sound hleads.cautious)
      · exact hleads.trans (.of_rests h' hleads.sound hleads.cautious)

theorem Call.leads (h : Call job template templateName run? s v) (hquiet : job.frontEnd.IsQuiet)
    (hs : job.storage.OverDisk) (hw : s.world.IsSound) (hcautious : Cautious run? s)
    (hpath : v.path.IsProper) : Leads (· = place s.world.here v.path) run? s v.settled := by
  have hpoll := rests_isStopped hquiet s
  rw [h.poll] at hpoll
  have hbefore : Leads (· = place s.world.here v.path) run? s v.before := .of_rests hpoll hw hcautious
  have htouch := touch_visit hquiet hs template templateName run? v.path v.before
  rw [h.visit] at htouch
  have hvisit := leads_touch hs hbefore.sound hbefore.cautious hpath htouch
  rw [hbefore.here] at hvisit
  have hsettled : Rests v.after v.settled := ⟨Idle.refl _, rfl⟩
  exact (hbefore.trans hvisit).trans (.of_rests hsettled hvisit.sound hvisit.cautious)

/-- A tour changes nothing outside the backup root but the files on its way. -/
theorem Tour.leads (h : Tour job template templateName run? s paths visits result s')
    (hquiet : job.frontEnd.IsQuiet) (hs : job.storage.OverDisk) (hw : s.world.IsSound)
    (hcautious : Cautious run? s) (hpaths : ∀ path ∈ paths, path.IsProper) :
    Leads (fun loc => ∃ path ∈ paths, loc = place s.world.here path) run? s s' := by
  induction h with
  | done s => exact .of_rests (.refl s) hw hcautious
  | stopped path paths hpoll =>
      rename_i s s₁
      have hrests := rests_isStopped hquiet s
      rw [hpoll] at hrests
      exact .of_rests (hrests.trans ⟨Idle.refl _, rfl⟩) hw hcautious
  | ended paths hcall =>
      have hleads := hcall.leads hquiet hs hw hcautious (hpaths _ List.mem_cons_self)
      exact hleads.mono fun loc hloc => ⟨_, List.mem_cons_self, hloc⟩
  | onward hcall _ _ ih =>
      have hleads := hcall.leads hquiet hs hw hcautious (hpaths _ List.mem_cons_self)
      have hrest := ih hleads.sound hleads.cautious
        fun path hpath => hpaths path (List.mem_cons_of_mem _ hpath)
      rw [hleads.here] at hrest
      refine (hleads.mono fun loc hloc => ⟨_, List.mem_cons_self, hloc⟩).trans (hrest.mono ?_)
      exact fun loc ⟨path, hpath, hloc⟩ => ⟨path, List.mem_cons_of_mem _ hpath, hloc⟩

/-- The last manifest below a backup root, if there is one, is one that a run has written. -/
def LastWritten (root : Path) (w : World) : Prop :=
  ∀ bytes, w.tree.bytes? (place w.here (Backups.lastPath root)) = some bytes →
    ∃ (manifest : Manifest) (moment : Moment) (number : Nat),
      Json.writeBytes? manifest.toJson = some bytes ∧ manifest.runId = moment.runName number

theorem LastWritten.lastKnown {root : Path} {w : World} (h : LastWritten root w) :
    Backups.LastKnown IsName root w.here w.tree := by
  refine Backups.lastKnown_of_written fun bytes hbytes => ?_
  obtain ⟨manifest, moment, number, hwritten, hid⟩ := h bytes hbytes
  exact ⟨manifest, hwritten, hid ▸ moment.isName_runName number⟩

/-- A run changes nothing outside the backup root but the files it is given, and nothing at all when its
template cannot be loaded. -/
theorem run_spares (job : Job Sim) (hquiet : job.frontEnd.IsQuiet) (hs : job.storage.OverDisk)
    (templatePath : Path) (state : RunState) {w : World} (hw : w.IsSound)
    (hpaths : ∀ path ∈ paths, path.IsProper) (hlast : LastWritten job.settings.backupRoot w) :
    (∃ e, ((loadTemplate job.storage templatePath).run.run w).1 = .error e ∧
        ((run job templatePath paths state).run w).1 = (.error e, state) ∧
        ((run job templatePath paths state).run w).2.tree = w.tree) ∨
      (∃ read, ((loadTemplate job.storage templatePath).run.run w).1 = .ok read) ∧
        Spares (fun loc => place w.here job.settings.backupRoot <+: loc ∨
          ∃ path ∈ paths, loc = place w.here path) w.tree
            ((run job templatePath paths state).run w).2.tree := by
  have hloaded := idle_loadTemplate hs templatePath w
  rcases run_cases job templatePath paths state w with
    ⟨e, w₁, hload, hrun⟩ | ⟨template, w₁, run?, s₀, visits, visited, s₁, closed, s₂, result, s₃,
      hload, hopening, htour, hclose, hconclusion, hrun⟩
  · rw [hload] at hloaded
    rw [hload, hrun]
    exact Or.inl ⟨e, rfl, rfl, hloaded.tree⟩
  · rw [hload] at hloaded
    rw [hload, hrun]
    refine Or.inr ⟨⟨template, rfl⟩, ?_⟩
    have hknown := hlast.lastKnown
    rw [← hloaded.here, ← hloaded.tree] at hknown
    obtain ⟨hcautious, -⟩ := hopening.cautious hknown
    obtain ⟨-, -, hroot, -, -⟩ := hopening.memory
    have hopened : Idle w s₀.world := hloaded.trans hopening.idle
    have hleads := htour.leads hquiet hs (hopened.isSound hw) hcautious hpaths
    have hkeeps : Keeps run? s₁.memory := fun run hrun =>
      (hleads.cautious run hrun).2.2.has.imp fun manifest h => ⟨h.1, h.2.1⟩
    have hclosing := spares_close hkeeps hleads.sound hleads.cautious
    obtain ⟨-, ⟨last, hlastTrail, hlastLogs⟩, -⟩ := hconclusion.cases
    rw [hclose, hleads.here, hleads.root, hroot, hopened.here] at hclosing
    have hspares := hleads.spares
    rw [hopened.tree, hopened.here, hroot] at hspares
    have htree : s₃.world.tree = s₂.world.tree :=
      hlastTrail.tree_eq fun event he => Event.isIdle_of_isLog (hlastLogs event he)
    rw [htree]
    exact hspares.trans (hclosing.mono fun _ => Or.inl)

end Run

end Stencil
