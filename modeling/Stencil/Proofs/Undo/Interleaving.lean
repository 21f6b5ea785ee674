import Stencil.Proofs.Undo.Ledgers

/-!
# Runs that overlap

Several runs of one manager begin, take snapshots and end in any order (`Interleaved`). At every
point the last manifest is that of the run which has written it last, and it can be restored if
and only if no run that had found that manifest at its first snapshot has ended since
(`Interleaved.undoable_unless_removed`). So a run that ends while the run it found is still under
way takes the copies of that run with it.
-/

namespace Stencil

open Stencil.Path (IsName)
open Stencil.Tree (place OnWay Changes WellFormed)

section Interleaving

variable {root path : Path} {here site loc : Loc} {run id : Text} {parts : List Text} {t u : Tree}
  {m : Manifest} {l : Ledger} {c : Copied} {b : Backups} {s s' : Standing Backups} {w : World}
  {P T : Loc → Prop}

/-! ## What the manager remembers -/

/-- What the manager remembers of the runs under way agrees with the ledger. -/
structure Agrees (root : Path) (l : Ledger) (b : Backups) : Prop where
  root_eq : b.root = root
  runs : ∀ id m, b.runs.lookup id = some m → id ∈ l.begun ∧ m.runId = id ∧ l.Lists id m ∧
    b.replaced.lookup id = (l.found.lookup id).map (Option.map (Backups.runDir root))
  unknown : ∀ id, id ∉ l.begun → b.replaced.lookup id = none ∧ l.found.lookup id = none
  found : ∀ id other, l.found.lookup id = some (some other) →
    other ≠ id ∧ other ∈ l.begun ∧ ∃ c ∈ l.copies, c.run = other

theorem Agrees.begins (h : Agrees root l b) (hfresh : id ∉ l.begun)
    (hnone : ∀ c ∈ l.copies, c.run ≠ id) (hrunId : m.runId = id) (hentries : m.entries = []) :
    Agrees root (l.begins id) (Backups.setRun id m b) := by
  refine ⟨h.root_eq, fun other m' hlookup => ?_, fun other hnot => ?_, fun other found hfound => ?_⟩
  · by_cases hne : other = id
    · subst hne
      obtain rfl := Option.some.inj ((Backups.lookup_setRun _ _ _).symm.trans hlookup)
      obtain ⟨hreplaced, hfound⟩ := h.unknown other hfresh
      refine ⟨List.mem_cons_self, hrunId, fun e => ?_, ?_⟩
      · rw [hentries]
        exact iff_of_false List.not_mem_nil fun ⟨bytes, hc⟩ => hnone _ hc rfl
      · rw [show (l.begins other).found = l.found from rfl, hfound]
        exact hreplaced
    · rw [lookup_setRun_ne hne] at hlookup
      exact (h.runs other m' hlookup).imp_left (List.mem_cons_of_mem _)
  · exact h.unknown other fun hmem => hnot (List.mem_cons_of_mem _ hmem)
  · obtain ⟨hne, hbegun, hcopied⟩ := h.found other found hfound
    exact ⟨hne, List.mem_cons_of_mem _ hbegun, hcopied⟩

/-- A run has made a copy and found out which run it makes obsolete. -/
theorem Agrees.keeps {ok : Bool} (h : Agrees root l b) (hlookup : b.runs.lookup run = some m)
    (hrun : c.run = run)
    (hobsolete : Backups.obsolete? root run here t =
      (l.last?.filter (· ≠ run)).map (Backups.runDir root))
    (hlast : ∀ other, l.last? = some other → other ∈ l.begun ∧ ∃ c ∈ l.copies, c.run = other) :
    Agrees root (l.keeps c ok) { Backups.setRun run (Backups.listing m c.entry) b with
      replaced := Backups.noted root run here t b.replaced } := by
  subst hrun
  obtain ⟨hbegun, hrunId, hlists, hnoted⟩ := h.runs c.run m hlookup
  have hfound : (l.keeps c ok).found = (l.notes c.run).found := rfl
  refine ⟨h.root_eq, fun id m' hlookup' => ?_, fun id hnot => ?_, fun id other hother => ?_⟩
  · by_cases hne : id = c.run
    · subst hne
      obtain rfl := Option.some.inj ((Backups.lookup_setRun _ _ _).symm.trans hlookup')
      refine ⟨hbegun, hrunId, hlists.keeps c rfl, ?_⟩
      rw [hfound, Ledger.lookup_notes]
      refine (lookup_noted _).trans ?_
      rw [hnoted, hobsolete]
      cases l.found.lookup c.run with
      | none => rfl
      | some other? => rfl
    · rw [show _ = b.runs.lookup id from lookup_setRun_ne hne _ _] at hlookup'
      obtain ⟨hbegun', hrunId', hlists', hnoted'⟩ := h.runs id m' hlookup'
      refine ⟨hbegun', hrunId', hlists'.keeps_ne c (Ne.symm hne), ?_⟩
      rw [hfound, Ledger.lookup_notes_ne hne, ← hnoted']
      exact lookup_noted_ne hne _
  · have hne : id ≠ c.run := fun heq => hnot (heq ▸ hbegun)
    obtain ⟨hreplaced, hunknown⟩ := h.unknown id hnot
    rw [hfound, Ledger.lookup_notes_ne hne]
    exact ⟨(lookup_noted_ne hne _).trans hreplaced, hunknown⟩
  · have hknown : other ≠ id ∧ other ∈ l.begun ∧ ∃ c' ∈ l.copies, c'.run = other := by
      rcases Ledger.found_notes hother with hbefore | ⟨-, hne, hlast'⟩
      · exact h.found id other hbefore
      · exact ⟨hne, hlast other hlast'⟩
    obtain ⟨hne, hbegun', c', hc', hrun⟩ := hknown
    exact ⟨hne, hbegun', c', List.mem_cons_of_mem _ hc', hrun⟩

/-- A run is forgotten. -/
theorem Agrees.drops (h : Agrees root l b) : Agrees root l (Backups.dropRun run b) := by
  refine ⟨h.root_eq, fun id m hlookup => ?_, h.unknown, h.found⟩
  rw [Backups.dropRun] at hlookup
  by_cases hne : id = run
  · rw [hne, lookup_filter_self] at hlookup
    cases hlookup
  · rw [lookup_filter_ne _ hne] at hlookup
    exact h.runs id m hlookup

/-- A run is forgotten, and what it has found out, too. -/
theorem Agrees.ends (h : Agrees root l b) :
    Agrees root (l.ends run) (Backups.dropReplaced run (Backups.dropRun run b)) := by
  refine ⟨h.root_eq, fun id m hlookup => ?_, fun id hnot => ?_, h.found⟩
  · have hne : id ≠ run := fun heq => by
      rw [Backups.dropReplaced, Backups.dropRun, heq, lookup_filter_self] at hlookup
      cases hlookup
    obtain ⟨hbegun, hrunId, hlists, hnoted⟩ := h.drops.runs id m hlookup
    refine ⟨hbegun, hrunId, hlists, ?_⟩
    exact (lookup_filter_ne _ hne).trans hnoted
  · obtain ⟨hreplaced, hfound⟩ := h.unknown id hnot
    refine ⟨?_, hfound⟩
    rw [Backups.dropReplaced]
    by_cases hne : id = run
    · rw [hne]
      exact lookup_filter_self _ _
    · exact (lookup_filter_ne _ hne).trans hreplaced

/-! ## Operations -/

/-- What is true between any two operations. -/
structure Balances (root : Path) (here site : Loc) (l : Ledger) (s : Standing Backups) : Prop where
  here_eq : s.world.here = here
  names : ∀ part ∈ here, IsName part
  site_eq : place here s.memory.site = site
  agrees : Agrees root l s.memory
  stocked : Stocked root here site l s.world.tree
  headed : Headed root here site l s.world.tree

theorem Balances.isSound (h : Balances root here site l s) : s.world.IsSound :=
  ⟨h.stocked.wellFormed, h.here_eq ▸ h.names⟩

/-- The last manifest lists copies of a run that has begun. -/
theorem Headed.exists_copied (h : Headed root here site l t) :
    ∀ other, l.last? = some other → other ∈ l.begun ∧ ∃ c ∈ l.copies, c.run = other := by
  intro other hother
  obtain ⟨hbegun, m, hleads⟩ := h.written other hother
  obtain ⟨e, he⟩ := List.exists_mem_of_ne_nil _ hleads.entries
  obtain ⟨bytes, hc⟩ := hleads.copied e he
  exact ⟨hbegun, _, hc, rfl⟩

theorem Leads.keeps {ok : Bool} (h : Leads root here site l run m t) :
    Leads root here site (l.keeps c ok) run m t := by
  refine ⟨h.published, h.runId, h.entries, h.made, fun e he => ?_, fun hremoved => ?_⟩
  · obtain ⟨bytes, hc⟩ := h.copied e he
    exact ⟨bytes, List.mem_cons_of_mem _ hc⟩
  · obtain ⟨c', hc', hlost⟩ := h.lost hremoved
    exact ⟨c', List.mem_cons_of_mem _ hc', hlost⟩

/-- A run that makes a copy writes the last manifest, or that stays as it is. -/
theorem Headed.keeps {result : Except Failure BackupEntry} {bytes : Bytes}
    (h : Headed root here site l t) (hstocked : Stocked root here site l t) (hrunId : m.runId = run)
    (hkeeping : Keeping root here site l run parts m result.isOk t u)
    (hcopy : u.bytes? (place here root ++ run :: parts) = some bytes)
    (hpublished : ∀ entry, result = .ok entry →
      Published root here (Backups.listing m (entryAt root site run parts)) u) :
    Headed root here site (l.keeps ⟨run, entryAt root site run parts, bytes⟩ result.isOk) u := by
  cases result with
  | ok entry =>
      refine ⟨fun hnone => (by cases hnone), fun run' hrun' => ?_⟩
      obtain rfl := Option.some.inj hrun'
      refine ⟨hkeeping.begun, _, (hstocked.keeps hkeeping hcopy).leads (hpublished entry rfl) hrunId
        (List.append_ne_nil_of_right_ne_nil _ (List.cons_ne_nil _ _)) (hkeeping.lists.keeps _ rfl) ?_⟩
      refine hkeeping.changes.wellFormed.dir_above hkeeping.source.ne_nil ?_
      rw [List.append_assoc, List.singleton_append, Tree.bytes?_eq_some.mp hcopy]
      exact Option.some_ne_none _
  | error e =>
      have hlast := (hstocked.ids run hkeeping.begun).ne_last
      have hheaded := h.changes hkeeping.changes
        (fun c hc parts' hcopy' => hkeeping.spares hstocked hc hcopy') ?_
      · refine ⟨hheaded.unwritten, fun run' hrun' => ?_⟩
        obtain ⟨hbegun', m', hleads⟩ := hheaded.written run' hrun'
        exact ⟨hbegun', m', hleads.keeps⟩
      · rintro (heq | heq | ⟨hok, -⟩)
        · exact Backups.ne_place_lastPath here root hlast heq.symm
        · exact Backups.ne_place_lastPath here root hlast heq.symm
        · cases hok

theorem Balances.begins (h : Balances root here site l s) (templateName : Text)
    (hid : id = World.runName (s.world.runs + 1)) (hfresh : id ∉ l.begun) (hisId : IsId root here id) :
    Balances root here site (l.begins id) (play (Backups.begin templateName) s).2 := by
  subst hid
  obtain ⟨w, hplay, htree, hhere⟩ := play_begin templateName s
  have hnone : ∀ c ∈ l.copies, c.run ≠ World.runName (s.world.runs + 1) := fun c hc heq =>
    hfresh (heq ▸ (h.stocked.copies c hc).1)
  have hstocked := h.stocked
  have hheaded := h.headed
  rw [← htree] at hstocked hheaded
  rw [hplay]
  refine ⟨hhere.trans h.here_eq, h.names, h.site_eq, h.agrees.begins hfresh hnone rfl rfl, ?_, ?_⟩
  · refine ⟨hstocked.wellFormed, List.forall_mem_cons.mpr ⟨hisId, hstocked.ids⟩,
      fun id hid hnot => hstocked.vacant id hid fun hmem => hnot (List.mem_cons_of_mem _ hmem),
      List.forall_mem_cons.mpr ⟨.of_vacant (hstocked.vacant _ hisId hfresh), hstocked.mirrors⟩,
      fun c hc => (hstocked.copies c hc).imp_left (List.mem_cons_of_mem _), hstocked.removed⟩
  · refine ⟨hheaded.unwritten, fun run hrun => ?_⟩
    obtain ⟨hbegun, m, hleads⟩ := hheaded.written run hrun
    exact ⟨List.mem_cons_of_mem _ hbegun, m, hleads.published, hleads.runId, hleads.entries,
      hleads.made, hleads.copied, hleads.lost⟩

theorem Balances.elsewhere (h : Balances root here site l s)
    (hchanges : Changes (IsElsewhere root here) (IsElsewhere root here) s.world.tree t) :
    Balances root here site l ⟨s.memory, { s.world with tree := t }⟩ := by
  have hinside : ∀ rest, ¬ IsElsewhere root here (place here root ++ rest) :=
    fun rest hnot => hnot (List.prefix_append _ _)
  refine ⟨h.here_eq, h.names, h.site_eq, h.agrees, h.stocked.changes hchanges
    (fun c hc parts hcopy => hinside _) (fun id hid hnot hvacant => hvacant.of_changes hchanges
      (fun rest => hinside _) fun rest => hinside _) (fun id hid hmirrors =>
    hmirrors.changes hchanges fun q hne hnot => absurd hnot (hinside _)),
    h.headed.changes hchanges (fun c hc parts hcopy => hinside _)
      fun hnot => hnot (Backups.place_root_prefix_last here root)⟩

/-- The ledger after a snapshot. A copy has been made if the manager remembers something new. -/
def Ledger.afterSnapshot (run : Text) (path : Path) (s : Standing Backups)
    (played : Except Failure BackupEntry × Standing Backups) (l : Ledger) : Ledger :=
  if played.2.memory = s.memory then l
  else l.keeps ⟨run, Backups.entryFor s.memory.root s.world.here s.memory.site run path,
    (s.world.tree.bytes? (place s.world.here path)).getD []⟩ played.1.isOk

/-- The ledger after the end of a run, which may have failed. -/
def Ledger.afterEnd (run : Text) (ok : Bool) (l : Ledger) : Ledger := if ok then l.ends run else l

/-- A snapshot that makes a copy. -/
theorem Balances.keeps {result : Except Failure BackupEntry} {bytes : Bytes}
    (h : Balances root here site l s) (hlookup : s.memory.runs.lookup run = some m)
    (hsource : IsSource root here site run parts) (hhere : s'.world.here = here)
    (hmirrors : ∀ id, IsId root here id → Mirrors root here site id s.world.tree →
      Mirrors root here site id s'.world.tree)
    (hunlisted : ∀ e ∈ m.entries, e.file ≠ (entryAt root site run parts).file)
    (hbytes : s.world.tree.bytes? (site ++ parts) = some bytes)
    (hcopied : Changes (IsOf root here run) (· = place here root ++ run :: parts) s.world.tree t)
    (hmemory : s'.memory =
      { Backups.setRun run (Backups.listing m (entryAt root site run parts)) s.memory with
        replaced := Backups.noted root run here t s.memory.replaced })
    (hchanges : Changes (IsOf root here run)
      (fun loc => loc = place here root ++ run :: parts ∨
        loc = place here root ++ [run, Backups.manifestName run] ∨
        result = .ok (entryAt root site run parts) ∧ loc = place here (Backups.lastPath root))
      s.world.tree s'.world.tree)
    (hcopy : s'.world.tree.bytes? (place here root ++ run :: parts) = some bytes)
    (hpublished : ∀ entry, result = .ok entry → entry = entryAt root site run parts ∧
      Published root here (Backups.listing m (entryAt root site run parts)) s'.world.tree) :
    Balances root here site (l.keeps ⟨run, entryAt root site run parts, bytes⟩ result.isOk) s' := by
  obtain ⟨hbegun, hrunId, hlists, -⟩ := h.agrees.runs run m hlookup
  have hlast : place here (Backups.lastPath root) ≠ place here root ++ run :: parts :=
    (Backups.ne_place_lastPath here root (h.stocked.ids run hbegun).ne_last).symm
  have hkeeping : Keeping root here site l run parts m result.isOk s.world.tree s'.world.tree := by
    refine ⟨hbegun, hlists, hsource, hunlisted, hbytes ▸ Option.some_ne_none _,
      hchanges.mono (fun _ hP => hP)
        (fun loc => Or.imp_right (Or.imp_right (And.imp_left fun hok => ?_))), hmirrors⟩
    rw [hok]
    rfl
  refine ⟨hhere, h.names, ?_, ?_, h.stocked.keeps hkeeping hcopy,
    h.headed.keeps h.stocked hrunId hkeeping hcopy fun entry hok => (hpublished entry hok).2⟩
  · rw [hmemory]
    exact h.site_eq
  · -- what is found out is found out before the manifest is written
    have hheaded := h.headed.changes hcopied
      (fun c hc parts' hcopy' => hlists.ne_copy hunlisted hc hcopy') hlast
    rw [hmemory]
    exact h.agrees.keeps (c := ⟨run, entryAt root site run parts, bytes⟩) hlookup rfl
      (hheaded.obsolete? h.stocked.ids run) h.headed.exists_copied

theorem Balances.snapshot {storage : Storage Sim} (h : Balances root here site l s)
    (hlookup : s.memory.runs.lookup run = some m) (hs : storage.OverDisk)
    (hpath : Run.IsCandidate root here site run path) :
    Balances root here site
      (l.afterSnapshot run path s (play (Backups.snapshot storage run path) s))
      (play (Backups.snapshot storage run path) s).2 := by
  obtain ⟨hbegun, hrunId, hlists, -⟩ := h.agrees.runs run m hlookup
  have hid := h.stocked.ids run hbegun
  obtain ⟨parts, hplace, hsource⟩ := hpath.exists_source h.names
  obtain ⟨hhere, hcopies, hmirrors⟩ := snapshot_copies hs h.isSound h.agrees.root_eq h.here_eq
    h.site_eq hid hlookup hrunId hpath.isProper hplace hsource (h.stocked.mirrors run hbegun)
  cases hcopies with
  | rests hmemory hlisted hchanges =>
      rw [Ledger.afterSnapshot, if_pos hmemory]
      refine ⟨hhere, h.names, hmemory.symm ▸ h.site_eq, hmemory.symm ▸ h.agrees,
        h.stocked.changes hchanges (fun _ _ _ _ => not_false)
          (fun id hid' hnot hvacant => hvacant.of_changes hchanges (fun rest => hid'.not_isOf ?_)
            fun _ => not_false) hmirrors,
        h.headed.changes hchanges (fun _ _ _ _ => not_false) not_false⟩
      exact fun heq => hnot (heq ▸ hbegun)
  | @keeps bytes t hunlisted hbytes hcopied hmemory hchanges hcopy hpublished =>
      have hnew : (play (Backups.snapshot storage run path) s).2.memory ≠ s.memory := fun heq => by
        have hsame : (play (Backups.snapshot storage run path) s).2.memory.runs.lookup run =
            some (Backups.listing m (entryAt root site run parts)) := by
          rw [hmemory]
          exact Backups.lookup_setRun _ _ _
        rw [heq, hlookup] at hsame
        have hentries : m.entries = m.entries ++ [entryAt root site run parts] :=
          congrArg Manifest.entries (Option.some.inj hsame)
        refine hunlisted (entryAt root site run parts) ?_ rfl
        rw [hentries]
        exact List.mem_append_right _ List.mem_cons_self
      have hentry : Backups.entryFor s.memory.root s.world.here s.memory.site run path =
          entryAt root site run parts := by
        rw [h.here_eq, h.agrees.root_eq, ← h.site_eq]
        exact (entryFor_eq _ hid.isName (h.site_eq ▸ hplace)).2
      have hheld : (s.world.tree.bytes? (place s.world.here path)).getD [] = bytes := by
        rw [h.here_eq, hplace, hbytes, Option.getD_some]
      rw [Ledger.afterSnapshot, if_neg hnew, hentry, hheld]
      exact h.keeps hlookup hsource hhere hmirrors hunlisted hbytes hcopied hmemory hchanges hcopy
        hpublished

/-- What a manifest may be written to is neither a copy nor of a run to come. -/
theorem Balances.writes (h : Balances root here site l s) (hrun : run ∈ l.begun)
    (hchanges : Changes (OnWay here (Backups.kept root run []))
      (fun loc => loc = place here root ++ [run, Backups.manifestName run] ∨
        loc = place here (Backups.lastPath root)) s.world.tree t) : Stocked root here site l t := by
  have hid := h.stocked.ids run hrun
  have hnil : ∀ part ∈ ([] : List Text), IsName part := fun part hpart => by cases hpart
  refine h.stocked.changes hchanges (fun c hc parts hcopy => ?_) (fun id hid' hnot hvacant => ?_)
    fun id hid' hmirrors => hmirrors.onWay_nil hid' hid.isName hchanges
  · exact fun hor => hor.elim hcopy.ne_manifest (h.stocked.ne_last hc)
  · have hne : id ≠ run := fun heq => hnot (heq ▸ hrun)
    refine hvacant.of_changes hchanges
      (fun rest hway => hid'.not_isOf hne (isOf_of_onWay_kept hid.isName hnil hway)) fun rest => ?_
    rintro (heq | heq)
    · exact hne (List.cons.inj (List.append_cancel_left heq)).1
    · exact Backups.ne_place_lastPath here root hid'.ne_last heq

/-- A run has written its manifest as the last one, and what it has found goes. -/
theorem Leads.ends (hleads : Leads root here site l run m t) (h : Stocked root here site l t)
    (hbegun : run ∈ l.begun) (hfound : ∀ other, l.found.lookup run = some (some other) →
      other ≠ run ∧ other ∈ l.begun ∧ ∃ c ∈ l.copies, c.run = other)
    (hremoved : u = ((l.found.lookup run).map (Option.map (Backups.runDir root))).join.elim t
      fun dir => (t.removeTree here dir).1) :
    Stocked root here site (l.ends run) u ∧ Headed root here site (l.ends run) u := by
  have hhead : ∀ u, Leads root here site { l with removed := (l.ends run).removed } run m u →
      Headed root here site (l.ends run) u := by
    refine fun u hleads => ⟨fun hnone => (by cases hnone), fun run' hrun' => ?_⟩
    obtain rfl := Option.some.inj hrun'
    exact ⟨hbegun, m, hleads.published, hleads.runId, hleads.entries, hleads.made, hleads.copied,
      hleads.lost⟩
  have hstock : ∀ u, Stocked root here site { l with removed := (l.ends run).removed } u →
      Stocked root here site (l.ends run) u := fun u h =>
    ⟨h.wellFormed, h.ids, h.vacant, h.mirrors, h.copies, h.removed⟩
  subst hremoved
  have hends : (l.ends run).removed = (l.found.lookup run).join.toList ++ l.removed := rfl
  rw [hends] at hhead hstock
  cases hlookup : l.found.lookup run with
  | none =>
      rw [hlookup] at hhead hstock
      exact ⟨hstock t h, hhead t hleads⟩
  | some other? =>
      rw [hlookup] at hhead hstock
      cases other? with
      | none => exact ⟨hstock t h, hhead t hleads⟩
      | some other =>
          obtain ⟨hne, hother, hcopied⟩ := hfound other hlookup
          exact ⟨hstock _ (h.removes hleads.published.isDir hother hcopied),
            hhead _ (hleads.removes h.wellFormed (h.ids other hother) hne.symm)⟩

theorem Balances.finalize (h : Balances root here site l s)
    (hlookup : s.memory.runs.lookup run = some m) (hentries : m.entries ≠ []) :
    Balances root here site (l.afterEnd run (play (Backups.finalize run) s).1.isOk)
      (play (Backups.finalize run) s).2 := by
  obtain ⟨hbegun, hrunId, hlists, hnoted⟩ := h.agrees.runs run m hlookup
  have hid := h.stocked.ids run hbegun
  have hroot := h.agrees.root_eq
  have hhere := h.here_eq
  subst hroot hhere
  obtain ⟨hhere', hfinishes⟩ := finalize_finishes h.stocked.wellFormed hid hlookup hrunId
  cases hfinishes with
  | fails hresult hmemory hwritten =>
      obtain ⟨e, hresult⟩ := hresult
      have hstocked := h.writes hbegun (hwritten.mono (fun _ hP => hP) fun _ => Or.inl)
      rw [hresult]
      refine ⟨hhere', h.names, hmemory.symm ▸ h.site_eq, hmemory.symm ▸ h.agrees.drops, hstocked,
        h.headed.changes hwritten (fun c hc parts hcopy => hcopy.ne_manifest) ?_⟩
      exact (Backups.ne_place_lastPath _ _ hid.ne_last).symm
  | @ends t hresult hmemory hwritten hpublished hremoved hmade =>
      have hstocked := h.writes hbegun hwritten
      have hleads := hstocked.leads hpublished hrunId hentries hlists hmade
      rw [hresult]
      rw [hnoted] at hremoved
      obtain ⟨hstocked', hheaded'⟩ := hleads.ends hstocked hbegun (h.agrees.found run) hremoved
      exact ⟨hhere', h.names, hmemory.symm ▸ h.site_eq, hmemory.symm ▸ h.agrees.ends, hstocked',
        hheaded'⟩

/-! ## All operations -/

/-- What overlapping runs of one manager come to, with their ledger. At first there is nothing
below the backup root. Runs begin under names not used before, take snapshots of files below the
site, through any storage over the disk, and end once they have listed a file. An operation may
fail. Meanwhile files come and change elsewhere. The way to the backup root does not lead back
through the directory of a run, as only double dots could make it do. -/
inductive Interleaved (root : Path) (here site : Loc) : Ledger → Standing Backups → Prop
  | start {s : Standing Backups} (hsound : s.world.IsSound) (hhere : s.world.here = here)
      (hroot : s.memory.root = root) (hsite : place here s.memory.site = site)
      (hruns : s.memory.runs = []) (hreplaced : s.memory.replaced = [])
      (hempty : ∀ parts, parts ≠ [] → s.world.tree.node? (place here root ++ parts) = none) :
      Interleaved root here site .empty s
  | begins {l : Ledger} {s : Standing Backups} (h : Interleaved root here site l s)
      (templateName : Text) {id : Text} (hid : id = World.runName (s.world.runs + 1))
      (hfresh : id ∉ l.begun)
      (hapart : ∀ loc, OnWay here root loc → ¬ place here root ++ [id] <+: loc) :
      Interleaved root here site (l.begins id) (play (Backups.begin templateName) s).2
  | snapshot {l : Ledger} {s : Standing Backups} (h : Interleaved root here site l s) {run : Text}
      {m : Manifest} (hlookup : s.memory.runs.lookup run = some m) {storage : Storage Sim}
      (hs : storage.OverDisk) {path : Path} (hpath : Run.IsCandidate root here site run path) :
      Interleaved root here site
        (l.afterSnapshot run path s (play (Backups.snapshot storage run path) s))
        (play (Backups.snapshot storage run path) s).2
  | finalize {l : Ledger} {s : Standing Backups} (h : Interleaved root here site l s) {run : Text}
      {m : Manifest} (hlookup : s.memory.runs.lookup run = some m) (hentries : m.entries ≠ []) :
      Interleaved root here site (l.afterEnd run (play (Backups.finalize run) s).1.isOk)
        (play (Backups.finalize run) s).2
  | elsewhere {l : Ledger} {s : Standing Backups} (h : Interleaved root here site l s) {t : Tree}
      (hchanges : Changes (IsElsewhere root here) (IsElsewhere root here) s.world.tree t) :
      Interleaved root here site l ⟨s.memory, { s.world with tree := t }⟩

theorem Interleaved.balances (h : Interleaved root here site l s) : Balances root here site l s := by
  induction h with
  | @start s hsound hhere hroot hsite hruns hreplaced hempty =>
      subst hhere
      refine ⟨rfl, hsound.here, hsite, ⟨hroot, fun id m hlookup => ?_, fun id hnot => ⟨?_, rfl⟩,
        fun id other hfound => (by cases hfound)⟩, ⟨hsound.tree, fun id hid => (by cases hid),
        fun id hid hnot rest => hempty _ (List.cons_ne_nil _ _), fun id hid => (by cases hid),
        fun c hc => (by cases hc), fun id hid => (by cases hid)⟩,
        ⟨fun _ => ?_, fun run hrun => (by cases hrun)⟩⟩
      · rw [hruns] at hlookup
        cases hlookup
      · rw [hreplaced]
        rfl
      · rw [Backups.place_lastPath, Tree.bytes?, hempty _ (List.cons_ne_nil _ _)]
  | begins h templateName hid hfresh hapart ih =>
      refine ih.begins templateName hid hfresh ⟨?_, ?_, hapart⟩
      · rw [hid]
        exact World.now.isName_runName _
      · rw [hid]
        exact World.now.runName_ne_lastFileName _
  | snapshot h hlookup hs hpath ih => exact ih.snapshot hlookup hs hpath
  | finalize h hlookup hentries ih => exact ih.finalize hlookup hentries
  | elsewhere h hchanges ih => exact ih.elsewhere hchanges

/-- What an entry names as its copy is where the copy lies. -/
theorem CopyOf.read_backup {e : BackupEntry} (h : CopyOf root here site run e parts t)
    (ht : t.WellFormed) (hdir : t.isDir here root = true) (hroot : root.IsProper) (hid : IsName run)
    {bytes : Bytes} : t.read here (Path.ofText e.backup) = .ok bytes ↔
      t.bytes? (place here root ++ run :: parts) = some bytes := by
  rw [h.entry, h.source.ofText_backup hroot hid]
  exact read_kept hdir ht hid fun part hpart => h.source.names part (List.mem_append_right _ hpart)

/-- Whatever the order, the last manifest is that of the run which has written it last. If the
directory of that run has not been removed then every copy holds what was copied, and the run can
be undone. Otherwise a copy is missing, and undoing the run fails. -/
theorem Interleaved.undoable_unless_removed (hroot : root.IsProper)
    (h : Interleaved root here site l s) :
    (l.last? = none → (Backups.lastManifest root : Act Sim _).run.run s.world = (.ok none, s.world)) ∧
    ∀ run, l.last? = some run →
      ∃ m w, (Backups.lastManifest root : Act Sim _).run.run s.world = (.ok (some m), w) ∧
        m.runId = run ∧ m.entries ≠ [] ∧ (∀ e ∈ m.entries, ∃ bytes, ⟨run, e, bytes⟩ ∈ l.copies) ∧
        (run ∉ l.removed →
          ∃ w', (Backups.restore root Storage.disk : Act Sim Nat).run.run s.world =
              (.ok m.entries.length, w') ∧
            ∀ e ∈ m.entries, ∀ bytes, ⟨run, e, bytes⟩ ∈ l.copies →
              s.world.tree.read here (Path.ofText e.backup) = .ok bytes ∧
              w'.tree.bytes? (place here (Path.ofText e.file)) = some bytes) ∧
        (run ∈ l.removed →
          (∃ e ∈ m.entries, ∀ bytes, s.world.tree.read here (Path.ofText e.backup) ≠ .ok bytes) ∧
          ∃ error w', (Backups.restore root Storage.disk : Act Sim Nat).run.run s.world =
            (.error error, w')) := by
  obtain ⟨rfl, hnames, -, -, hstocked, hheaded⟩ := h.balances
  refine ⟨fun hlast => lastManifest_of_bytes? (hheaded.unwritten hlast), fun run hlast => ?_⟩
  obtain ⟨hbegun, m, hleads⟩ := hheaded.written run hlast
  obtain rfl := hleads.runId
  have hid := (hstocked.ids _ hbegun).isName
  have hdir := hleads.published.isDir
  refine ⟨m, _, hleads.published.lastManifest rfl rfl, rfl, hleads.entries, hleads.copied,
    fun hnot => ?_, fun hremoved => ?_⟩
  · have hkept : ∀ c ∈ l.copies, c.run = m.runId → Kept root s.world.here site s.world.tree c :=
      fun c hc hrun => (hstocked.copies c hc).2.resolve_right fun hlost => hnot (hrun ▸ hlost.1)
    obtain ⟨w', hrestore, hrestored⟩ := restore_copies hroot hid hstocked.wellFormed hdir
      hleads.published fun e he => by
        obtain ⟨bytes, hc⟩ := hleads.copied e he
        obtain ⟨parts, hcopy, hbytes⟩ := hkept _ hc rfl
        exact ⟨parts, hcopy, hbytes ▸ Option.some_ne_none _⟩
    refine ⟨w', hrestore, fun e he bytes hc => ?_⟩
    obtain ⟨parts, hcopy, hbytes⟩ := hkept _ hc rfl
    have hread := (hcopy.read_backup hstocked.wellFormed hdir hroot hid).mpr hbytes
    obtain ⟨bytes', hread', hfile⟩ := hrestored e he
    obtain rfl := Except.ok.inj (hread.symm.trans hread')
    exact ⟨hread, hfile⟩
  · obtain ⟨c, hc, hrun, hentry, parts, hcopy, hnone⟩ := hleads.lost hremoved
    rw [hrun] at hcopy hnone
    refine ⟨⟨c.entry, hentry, fun bytes hread => ?_⟩, ?_⟩
    · rw [hcopy.read_backup hstocked.wellFormed hdir hroot hid, hnone] at hread
      cases hread
    · refine restore_lost hroot hid hstocked.wellFormed hleads.published (fun e he => ?_)
        ⟨c.entry, hentry, parts, hcopy, hnone⟩
      obtain ⟨bytes, hc⟩ := hleads.copied e he
      exact hstocked.exists_copyOf hc

end Interleaving

/-! ## Two runs that overlap

The first run takes its snapshot before the second one does, and ends after it. -/

namespace OverlappingRuns

def site : Path := ⟨.slash, ["s"]⟩

def root : Path := site.child "b"

def page (name : Text) : Path := site.child name

def disk : Tree :=
  ⟨[(["s"], .dir), (["s", "a.html"], .file ("a" : Text).encode),
    (["s", "b.html"], .file ("b" : Text).encode)]⟩

def first : Text := World.runName 1

def second : Text := World.runName 2

def start : Standing Backups := ⟨⟨root, site, [], []⟩, World.make disk [] "1"⟩

/-- Both runs have begun. -/
def begun : Standing Backups := (play (Backups.begin "u") (play (Backups.begin "t") start).2).2

def ledger : Ledger := (Ledger.empty.begins first).begins second

/-- A snapshot of a page. -/
def take (run name : Text) (point : Ledger × Standing Backups) : Ledger × Standing Backups :=
  (point.1.afterSnapshot run (page name) point.2
      (play (Backups.snapshot Storage.disk run (page name)) point.2),
    (play (Backups.snapshot Storage.disk run (page name)) point.2).2)

def finish (run : Text) (point : Ledger × Standing Backups) : Ledger × Standing Backups :=
  (point.1.afterEnd run (play (Backups.finalize run) point.2).1.isOk,
    (play (Backups.finalize run) point.2).2)

/-- Both runs have taken a snapshot. -/
def taken : Ledger × Standing Backups := take second "b.html" (take first "a.html" (ledger, begun))

/-- The second run has ended. -/
def half : Ledger × Standing Backups := finish second taken

/-- Both runs have ended. -/
def atEnd : Ledger × Standing Backups := finish first half

theorem apart (run : Text) (loc : Loc) (hway : OnWay [] root loc) : ¬ place [] root ++ [run] <+: loc :=
  hway.not_below (by decide) _

theorem interleaved_begun : Interleaved root [] (place [] site) ledger begun := by
  have hstart : Interleaved root [] (place [] site) .empty start :=
    .start ⟨Tree.wellFormed_of_nodes (by decide), fun part hpart => by cases hpart⟩ rfl rfl rfl rfl rfl
      fun parts _ => Tree.node?_append_eq_none (by decide) (by decide) parts
  have hfirst := hstart.begins "t" rfl List.not_mem_nil (apart first)
  exact hfirst.begins "u" rfl (by decide +kernel) (apart second)

theorem isCandidate_first : Run.IsCandidate root [] (place [] site) first (page "a.html") :=
  ⟨by decide, by decide, ⟨["a.html"], by decide, by decide +kernel, by decide⟩, by decide⟩

theorem isCandidate_second : Run.IsCandidate root [] (place [] site) second (page "b.html") :=
  ⟨by decide, by decide, ⟨["b.html"], by decide, by decide +kernel, by decide⟩, by decide⟩

theorem interleaved_take {run name : Text} {point : Ledger × Standing Backups}
    (h : Interleaved root [] (place [] site) point.1 point.2)
    (hsome : (point.2.memory.runs.lookup run).isSome = true)
    (hpath : Run.IsCandidate root [] (place [] site) run (page name)) :
    Interleaved root [] (place [] site) (take run name point).1 (take run name point).2 := by
  obtain ⟨m, hlookup⟩ := Option.isSome_iff_exists.mp hsome
  exact h.snapshot hlookup Storage.overDisk_disk hpath

theorem interleaved_finish {run : Text} {point : Ledger × Standing Backups}
    (h : Interleaved root [] (place [] site) point.1 point.2)
    (hany : ((point.2.memory.runs.lookup run).any fun m => m.entries ≠ []) = true) :
    Interleaved root [] (place [] site) (finish run point).1 (finish run point).2 := by
  obtain ⟨m, hlookup, hentries⟩ := (Option.any_eq_true _ _).mp hany
  exact h.finalize hlookup (of_decide_eq_true hentries)

theorem interleaved_half : Interleaved root [] (place [] site) half.1 half.2 := by
  have hfirst : Interleaved root [] (place [] site) (take first "a.html" (ledger, begun)).1
      (take first "a.html" (ledger, begun)).2 :=
    interleaved_take interleaved_begun (by decide +kernel) isCandidate_first
  have hsecond : Interleaved root [] (place [] site) taken.1 taken.2 :=
    interleaved_take hfirst (by decide +kernel) isCandidate_second
  exact interleaved_finish hsecond (by decide +kernel)

theorem interleaved_atEnd : Interleaved root [] (place [] site) atEnd.1 atEnd.2 :=
  interleaved_finish interleaved_half (by decide +kernel)

/-- When the second run has ended, it can be undone. When the first one has, too, it cannot, for
the second one has taken its copy away. -/
theorem undoable_unless_overtaken : root.IsProper ∧ Interleaved root [] (place [] site) half.1 half.2 ∧
    Interleaved root [] (place [] site) atEnd.1 atEnd.2 ∧ half.1.last? = some second ∧
    atEnd.1.last? = some first ∧
    (∃ count w, (Backups.restore root Storage.disk : Act Sim Nat).run.run half.2.world =
      (.ok count, w)) ∧
    ∃ error w, (Backups.restore root Storage.disk : Act Sim Nat).run.run atEnd.2.world =
      (.error error, w) := by
  have hroot : root.IsProper := by decide
  have hledgers : (half.1.last? = some second ∧ second ∉ half.1.removed) ∧
      atEnd.1.last? = some first ∧ first ∈ atEnd.1.removed := by decide +kernel
  obtain ⟨⟨hhalf, hnotRemoved⟩, hend, hremoved⟩ := hledgers
  obtain ⟨m, -, -, -, -, -, hundoable, -⟩ :=
    (interleaved_half.undoable_unless_removed hroot).2 second hhalf
  obtain ⟨m', -, -, -, -, -, -, hlost⟩ :=
    (interleaved_atEnd.undoable_unless_removed hroot).2 first hend
  obtain ⟨w, hrestore, -⟩ := hundoable hnotRemoved
  exact ⟨hroot, interleaved_half, interleaved_atEnd, hhalf, hend, ⟨_, w, hrestore⟩,
    (hlost hremoved).2⟩

end OverlappingRuns

end Stencil
