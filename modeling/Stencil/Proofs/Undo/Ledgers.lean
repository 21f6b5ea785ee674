import Stencil.Proofs.Undo.Pruning

/-!
# Books of several runs

What several runs of one manager have done is kept in a ledger: which run has written the last
manifest, whose directory each run makes obsolete, whose has been removed, and every copy that was
ever made. The disk is judged by it (`Stocked`, `Leads`), and so is what the manager remembers
(`Agrees`). A snapshot and the removal of a directory keep disk and ledger in agreement
(`Stocked.keeps`, `Stocked.removes`): a copy is there and holds what it should unless the
directory of its run has been removed since.
-/

namespace Stencil

open Stencil.Path (IsName)
open Stencil.Tree (place OnWay Changes WellFormed)

/-- A copy that a run has made of a file, and what the file held. -/
structure Copied where
  run : Text
  entry : BackupEntry
  bytes : Bytes

structure Ledger where
  /-- The runs so far. -/
  begun : List Text
  /-- The run that has written the last manifest. -/
  last? : Option Text
  /-- The run that each run makes obsolete, for those that have found out. -/
  found : List (Text × Option Text)
  /-- The runs whose directories have been removed. -/
  removed : List Text
  copies : List Copied

namespace Ledger

def empty : Ledger := ⟨[], none, [], [], []⟩

def begins (run : Text) (l : Ledger) : Ledger := { l with begun := run :: l.begun }

/-- A run finds out which run it makes obsolete: the one that has written the last manifest,
unless it has done so itself. Later it does not look again. -/
def notes (run : Text) (l : Ledger) : Ledger :=
  { l with
    found := if (l.found.lookup run).isSome then l.found
      else (run, l.last?.filter (· ≠ run)) :: l.found }

/-- A run has made a copy, and written its manifest if that went well. -/
def keeps (copied : Copied) (ok : Bool) (l : Ledger) : Ledger :=
  { l.notes copied.run with
    copies := copied :: l.copies
    last? := if ok then some copied.run else l.last? }

/-- A run has ended. -/
def ends (run : Text) (l : Ledger) : Ledger :=
  { l with last? := some run, removed := (l.found.lookup run).join.toList ++ l.removed }

theorem lookup_notes (run : Text) (l : Ledger) : (l.notes run).found.lookup run =
    some ((l.found.lookup run).getD (l.last?.filter (· ≠ run))) := by
  rw [notes]
  cases hlookup : l.found.lookup run with
  | some other? => rw [Option.isSome_some, if_pos rfl, hlookup, Option.getD_some]
  | none =>
      rw [Option.isSome_none, if_neg Bool.false_ne_true, List.lookup_cons, beq_self_eq_true,
        Option.getD_none]

theorem lookup_notes_ne {run other : Text} (hne : other ≠ run) (l : Ledger) :
    (l.notes run).found.lookup other = l.found.lookup other := by
  rw [notes]
  split
  · rfl
  · rw [List.lookup_cons, beq_eq_false_iff_ne.mpr hne]

/-- A run that is found has been found before, or it has written the last manifest. -/
theorem found_notes {run id other : Text} {l : Ledger}
    (h : (l.notes run).found.lookup id = some (some other)) :
    l.found.lookup id = some (some other) ∨ id = run ∧ other ≠ id ∧ l.last? = some other := by
  by_cases hne : id = run
  · subst hne
    rw [lookup_notes] at h
    cases hlookup : l.found.lookup id with
    | some other? =>
        rw [hlookup, Option.getD_some] at h
        exact Or.inl h
    | none =>
        rw [hlookup, Option.getD_none] at h
        obtain ⟨hlast, hne⟩ := Option.filter_eq_some_iff.mp (Option.some.inj h)
        exact Or.inr ⟨rfl, of_decide_eq_true hne, hlast⟩
  · rw [lookup_notes_ne hne] at h
    exact Or.inl h

/-- The manifest of a run lists exactly what the run has copied. -/
def Lists (l : Ledger) (run : Text) (m : Manifest) : Prop :=
  ∀ e, e ∈ m.entries ↔ ∃ bytes, ⟨run, e, bytes⟩ ∈ l.copies

end Ledger

section Ledgers

variable {root dir : Path} {here site loc : Loc} {run id : Text} {parts : List Text} {t u : Tree}
  {m : Manifest} {l l' : Ledger} {c : Copied} {b : Backups} {P T : Loc → Prop}

/-! ## Copies on the disk -/

/-- The copy is there and holds what it should. -/
def Kept (root : Path) (here site : Loc) (t : Tree) (c : Copied) : Prop :=
  ∃ parts, CopyOf root here site c.run c.entry parts t ∧
    t.bytes? (place here root ++ c.run :: parts) = some c.bytes

/-- The copy is not there. -/
def Lost (root : Path) (here site : Loc) (t : Tree) (c : Copied) : Prop :=
  ∃ parts, CopyOf root here site c.run c.entry parts t ∧
    t.bytes? (place here root ++ c.run :: parts) = none

/-- The disk holds what the ledger says, and nothing has the names of runs to come. -/
structure Stocked (root : Path) (here site : Loc) (l : Ledger) (t : Tree) : Prop where
  wellFormed : t.WellFormed
  ids : ∀ id ∈ l.begun, IsId root here id
  vacant : ∀ id, IsId root here id → id ∉ l.begun → Vacant root here id t
  mirrors : ∀ id ∈ l.begun, Mirrors root here site id t
  copies : ∀ c ∈ l.copies, c.run ∈ l.begun ∧
    (Kept root here site t c ∨ c.run ∈ l.removed ∧ Lost root here site t c)
  removed : ∀ id ∈ l.removed, ∃ c ∈ l.copies, c.run = id ∧ Lost root here site t c

/-- The last manifest is that of the run. It lists nothing but what the run has copied, and
something that is lost if the directory of the run has been removed. -/
structure Leads (root : Path) (here site : Loc) (l : Ledger) (run : Text) (m : Manifest) (t : Tree) :
    Prop where
  published : Published root here m t
  runId : m.runId = run
  entries : m.entries ≠ []
  made : t.node? (place here root ++ [run]) = some .dir
  copied : ∀ e ∈ m.entries, ∃ bytes, ⟨run, e, bytes⟩ ∈ l.copies
  lost : run ∈ l.removed → ∃ c ∈ l.copies, c.run = run ∧ c.entry ∈ m.entries ∧ Lost root here site t c

/-! ## Changes -/

theorem Kept.changes (h : Kept root here site t c) (hchanges : Changes P T t u)
    (hT : ∀ parts, CopyOf root here site c.run c.entry parts t →
      ¬ T (place here root ++ c.run :: parts)) : Kept root here site u c := by
  obtain ⟨parts, hcopy, hbytes⟩ := h
  exact ⟨parts, hcopy.changes hchanges, (hchanges.bytes? (hT parts hcopy)).trans hbytes⟩

theorem Lost.changes (h : Lost root here site t c) (hchanges : Changes P T t u)
    (hT : ∀ parts, CopyOf root here site c.run c.entry parts t →
      ¬ T (place here root ++ c.run :: parts)) : Lost root here site u c := by
  obtain ⟨parts, hcopy, hbytes⟩ := h
  exact ⟨parts, hcopy.changes hchanges, (hchanges.bytes? (hT parts hcopy)).trans hbytes⟩

/-- Files change that are no copies. -/
theorem Stocked.changes (h : Stocked root here site l t) (hchanges : Changes P T t u)
    (hT : ∀ c ∈ l.copies, ∀ parts, CopyOf root here site c.run c.entry parts t →
      ¬ T (place here root ++ c.run :: parts))
    (hvacant : ∀ id, IsId root here id → id ∉ l.begun → Vacant root here id t → Vacant root here id u)
    (hmirrors : ∀ id, IsId root here id → Mirrors root here site id t → Mirrors root here site id u) :
    Stocked root here site l u where
  wellFormed := hchanges.wellFormed
  ids := h.ids
  vacant id hid hnot := hvacant id hid hnot (h.vacant id hid hnot)
  mirrors id hid := hmirrors id (h.ids id hid) (h.mirrors id hid)
  copies c hc := by
    obtain ⟨hrun, hcase⟩ := h.copies c hc
    exact ⟨hrun, hcase.imp (fun hstands => hstands.changes hchanges (hT c hc)) fun hlost =>
      ⟨hlost.1, hlost.2.changes hchanges (hT c hc)⟩⟩
  removed id hid := by
    obtain ⟨c, hc, hrun, hlost⟩ := h.removed id hid
    exact ⟨c, hc, hrun, hlost.changes hchanges (hT c hc)⟩

theorem Leads.changes (h : Leads root here site l run m t) (hchanges : Changes P T t u)
    (hT : ∀ c ∈ l.copies, ∀ parts, CopyOf root here site c.run c.entry parts t →
      ¬ T (place here root ++ c.run :: parts))
    (hlast : ¬ T (place here (Backups.lastPath root))) : Leads root here site l run m u where
  published := h.published.changes hchanges hlast
  runId := h.runId
  entries := h.entries
  made := hchanges.dirs _ h.made
  copied := h.copied
  lost hremoved := by
    obtain ⟨c, hc, hrun, hentry, hlost⟩ := h.lost hremoved
    exact ⟨c, hc, hrun, hentry, hlost.changes hchanges (hT c hc)⟩

/-- Where a run may write its manifests no copy lies. -/
theorem CopyOf.ne_manifest {e : BackupEntry} (h : CopyOf root here site id e parts t) :
    place here root ++ id :: parts ≠ place here root ++ [run, Backups.manifestName run] := fun heq => by
  obtain ⟨rfl, hparts⟩ := List.cons.inj (List.append_cancel_left heq)
  exact h.source.ne_manifest hparts

/-! ## Removing the directory of a run -/

theorem removeRun_bytes? (hid : IsName id) (hloc : ¬ place here root ++ [id] <+: loc) :
    (t.removeTree here (Backups.runDir root id)).1.bytes? loc = t.bytes? loc := by
  rw [Tree.removeTree_bytes?, if_neg fun hand => hloc (place_runDir root here hid ▸ hand.2)]

/-- All copies go, whether the directory can still be found or not. -/
theorem removeRun_gone (ht : t.WellFormed) (hroot : t.isDir here root = true) (hid : IsName id)
    (hne : parts ≠ []) :
    (t.removeTree here (Backups.runDir root id)).1.bytes? (place here root ++ id :: parts) = none := by
  have hbelow : place here (Backups.runDir root id) <+: place here root ++ id :: parts := by
    rw [place_runDir root here hid, List.prefix_append_right_inj, List.cons_prefix_cons]
    exact ⟨rfl, List.nil_prefix⟩
  rw [Tree.removeTree_bytes?]
  by_cases hdir : t.isDir here (Backups.runDir root id) = true
  · rw [if_pos ⟨hdir, hbelow⟩]
  · rw [if_neg fun hand => hdir hand.1]
    by_contra hthere
    refine hdir (isDir_runDir hroot hid (ht.dir_above hne ?_))
    rw [List.append_assoc, List.singleton_append]
    intro hnode
    rw [Tree.bytes?, hnode] at hthere
    exact hthere rfl

theorem CopyOf.removes {e : BackupEntry} (h : CopyOf root here site run e parts t) (hid : IsName id) :
    CopyOf root here site run e parts (t.removeTree here (Backups.runDir root id)).1 := by
  refine ⟨h.source, h.entry, ?_⟩
  rw [removeRun_bytes? hid fun hbelow => h.source.outside ((List.prefix_append _ _).trans hbelow)]
  exact h.there

theorem Lost.removes (h : Lost root here site t c) (hid : IsName id) :
    Lost root here site (t.removeTree here (Backups.runDir root id)).1 c := by
  obtain ⟨parts, hcopy, hnone⟩ := h
  refine ⟨parts, hcopy.removes hid, ?_⟩
  rw [Tree.removeTree_bytes?]
  split
  · rfl
  · exact hnone

/-- A copy stays if it is of another run. -/
theorem Kept.removes (h : Kept root here site t c) (hid : IsName id) (hne : c.run ≠ id) :
    Kept root here site (t.removeTree here (Backups.runDir root id)).1 c := by
  obtain ⟨parts, hcopy, hbytes⟩ := h
  refine ⟨parts, hcopy.removes hid, ?_⟩
  rw [removeRun_bytes? hid, hbytes]
  rw [List.prefix_append_right_inj, List.cons_prefix_cons]
  exact fun hbelow => hne hbelow.1.symm

/-- A copy goes if it is of the run. -/
theorem CopyOf.lost (h : CopyOf root here site c.run c.entry parts t) (ht : t.WellFormed)
    (hroot : t.isDir here root = true) (hid : IsName c.run) :
    Lost root here site (t.removeTree here (Backups.runDir root c.run)).1 c :=
  ⟨parts, h.removes hid, removeRun_gone ht hroot hid h.source.ne_nil⟩

theorem Stocked.exists_copyOf (h : Stocked root here site l t) (hc : c ∈ l.copies) :
    ∃ parts, CopyOf root here site c.run c.entry parts t := by
  rcases (h.copies c hc).2 with ⟨parts, hcopy, -⟩ | ⟨-, parts, hcopy, -⟩ <;> exact ⟨parts, hcopy⟩

/-- Directories for copies go, and those of the site stay. -/
theorem Mirrors.removes (h : Mirrors root here site run t) (ht : t.WellFormed) (hid : IsName id) :
    Mirrors root here site run (t.removeTree here (Backups.runDir root id)).1 := fun q hne hdir => by
  have hloses := Tree.Loses.removeTree ht here (Backups.runDir root id)
  obtain ⟨hmirrored, hout⟩ := h q hne (hloses.of_dir hdir)
  refine ⟨?_, hout⟩
  rw [hloses.node? fun hbelow => hout ?_]
  · exact hmirrored
  · rw [place_runDir root here hid] at hbelow
    exact (List.prefix_append _ _).trans hbelow

theorem Stocked.removes (h : Stocked root here site l t) (hroot : t.isDir here root = true)
    (hbegun : id ∈ l.begun) (hcopied : ∃ c ∈ l.copies, c.run = id) :
    Stocked root here site { l with removed := id :: l.removed }
      (t.removeTree here (Backups.runDir root id)).1 := by
  have hid := (h.ids id hbegun).isName
  have hloses := Tree.Loses.removeTree h.wellFormed here (Backups.runDir root id)
  refine ⟨hloses.wellFormed, h.ids, fun other hother hnot rest =>
    hloses.eq_none (h.vacant other hother hnot rest), fun other hother =>
    (h.mirrors other hother).removes h.wellFormed hid, fun c hc => ?_, fun other hother => ?_⟩
  · obtain ⟨hrun, hcase⟩ := h.copies c hc
    refine ⟨hrun, ?_⟩
    by_cases hne : c.run = id
    · obtain ⟨parts, hcopy⟩ := h.exists_copyOf hc
      subst hne
      exact Or.inr ⟨List.mem_cons_self, hcopy.lost h.wellFormed hroot hid⟩
    · exact hcase.imp (fun hstands => hstands.removes hid hne) fun hlost =>
        ⟨List.mem_cons_of_mem _ hlost.1, hlost.2.removes hid⟩
  · rcases List.mem_cons.mp hother with rfl | hother
    · obtain ⟨c, hc, rfl⟩ := hcopied
      obtain ⟨parts, hcopy⟩ := h.exists_copyOf hc
      exact ⟨c, hc, rfl, hcopy.lost h.wellFormed hroot hid⟩
    · obtain ⟨c, hc, hrun, hlost⟩ := h.removed other hother
      exact ⟨c, hc, hrun, hlost.removes hid⟩

theorem Leads.removes (h : Leads root here site l run m t) (ht : t.WellFormed) (hid : IsId root here id)
    (hne : run ≠ id) : Leads root here site { l with removed := id :: l.removed } run m
      (t.removeTree here (Backups.runDir root id)).1 := by
  refine ⟨?_, h.runId, h.entries, ?_, h.copied, fun hremoved => ?_⟩
  · by_cases hdir : t.isDir here (Backups.runDir root id) = true
    · exact h.published.removeTree ht hid.apart hdir
        (place_runDir root here hid.isName ▸ List.prefix_rfl)
    · rw [Tree.removeTree_of_not_isDir (Bool.eq_false_iff.mpr hdir)]
      exact h.published
  · rw [(Tree.Loses.removeTree ht here (Backups.runDir root id)).node? fun hbelow => hne ?_]
    · exact h.made
    · rw [place_runDir root here hid.isName, List.prefix_append_right_inj,
        List.cons_prefix_cons] at hbelow
      exact hbelow.1.symm
  · obtain ⟨c, hc, hrun, hentry, hlost⟩ := h.lost ((List.mem_cons.mp hremoved).resolve_left hne)
    exact ⟨c, hc, hrun, hentry, hlost.removes hid.isName⟩

/-! ## A copy -/

/-- A run that lists all its copies makes no copy over another. -/
theorem Ledger.Lists.ne_copy (h : l.Lists run m)
    (hunlisted : ∀ e ∈ m.entries, e.file ≠ (entryAt root site run parts).file) (hc : c ∈ l.copies)
    {parts' : List Text} (hcopy : CopyOf root here site c.run c.entry parts' t) :
    place here root ++ c.run :: parts' ≠ place here root ++ run :: parts := fun heq => by
  obtain ⟨hrun, rfl⟩ := List.cons.inj (List.append_cancel_left heq)
  obtain ⟨run', entry, bytes⟩ := c
  dsimp only at hrun hcopy
  subst hrun
  exact hunlisted entry ((h entry).mpr ⟨bytes, hc⟩) (congrArg BackupEntry.file hcopy.entry)

theorem Stocked.ne_last (h : Stocked root here site l t) (hc : c ∈ l.copies) :
    place here root ++ c.run :: parts ≠ place here (Backups.lastPath root) :=
  Backups.ne_place_lastPath here root (h.ids _ (h.copies c hc).1).ne_last

/-- What changes on the disk when a run makes a copy. -/
structure Keeping (root : Path) (here site : Loc) (l : Ledger) (run : Text) (parts : List Text)
    (m : Manifest) (ok : Bool) (t u : Tree) : Prop where
  begun : run ∈ l.begun
  lists : l.Lists run m
  source : IsSource root here site run parts
  unlisted : ∀ e ∈ m.entries, e.file ≠ (entryAt root site run parts).file
  there : t.bytes? (site ++ parts) ≠ none
  changes : Changes (IsOf root here run)
    (fun loc => loc = place here root ++ run :: parts ∨
      loc = place here root ++ [run, Backups.manifestName run] ∨
      ok = true ∧ loc = place here (Backups.lastPath root)) t u
  mirrors : ∀ id, IsId root here id → Mirrors root here site id t → Mirrors root here site id u

theorem Keeping.spares {ok : Bool} (hkeeping : Keeping root here site l run parts m ok t u)
    (h : Stocked root here site l t) (hc : c ∈ l.copies) {parts' : List Text}
    (hcopy : CopyOf root here site c.run c.entry parts' t) :
    ¬ (place here root ++ c.run :: parts' = place here root ++ run :: parts ∨
      place here root ++ c.run :: parts' = place here root ++ [run, Backups.manifestName run] ∨
      ok = true ∧ place here root ++ c.run :: parts' = place here (Backups.lastPath root)) := by
  rintro (heq | heq | ⟨-, heq⟩)
  · exact hkeeping.lists.ne_copy hkeeping.unlisted hc hcopy heq
  · exact hcopy.ne_manifest heq
  · exact h.ne_last hc heq

theorem Stocked.keeps {ok : Bool} {bytes : Bytes} (h : Stocked root here site l t)
    (hkeeping : Keeping root here site l run parts m ok t u)
    (hcopy : u.bytes? (place here root ++ run :: parts) = some bytes) :
    Stocked root here site (l.keeps ⟨run, entryAt root site run parts, bytes⟩ ok) u := by
  have hisId := h.ids run hkeeping.begun
  have hold : Stocked root here site l u := by
    refine h.changes hkeeping.changes
      (fun c hc parts' hcopy => hkeeping.spares h hc hcopy)
      (fun id hid hnot hvacant => ?_) hkeeping.mirrors
    have hne : id ≠ run := fun heq => hnot (heq ▸ hkeeping.begun)
    refine hvacant.of_changes hkeeping.changes (fun rest => hid.not_isOf hne) fun rest => ?_
    rintro (heq | heq | ⟨-, heq⟩)
    · exact hne (List.cons.inj (List.append_cancel_left heq)).1
    · exact hne (List.cons.inj (List.append_cancel_left heq)).1
    · exact Backups.ne_place_lastPath here root hid.ne_last heq
  refine ⟨hold.wellFormed, hold.ids, hold.vacant, hold.mirrors, fun c hc => ?_, fun id hid => ?_⟩
  · rcases List.mem_cons.mp hc with rfl | hc
    · exact ⟨hkeeping.begun, Or.inl ⟨parts, ⟨hkeeping.source, rfl,
        hkeeping.changes.files _ hkeeping.there⟩, hcopy⟩⟩
    · exact hold.copies c hc
  · obtain ⟨c, hc, hlost⟩ := hold.removed id hid
    exact ⟨c, List.mem_cons_of_mem _ hc, hlost⟩

theorem Ledger.Lists.keeps {ok : Bool} (h : l.Lists run m) (c : Copied) (hrun : c.run = run) :
    (l.keeps c ok).Lists run (Backups.listing m c.entry) := fun e => by
  obtain ⟨run', entry, bytes⟩ := c
  dsimp only at hrun
  subst hrun
  rw [Backups.listing, List.mem_append, List.mem_singleton, h e]
  constructor
  · rintro (⟨bytes', hc⟩ | rfl)
    · exact ⟨bytes', List.mem_cons_of_mem _ hc⟩
    · exact ⟨bytes, List.mem_cons_self⟩
  · rintro ⟨bytes', hc⟩
    rcases List.mem_cons.mp hc with heq | hc
    · exact Or.inr (congrArg Copied.entry heq)
    · exact Or.inl ⟨bytes', hc⟩

/-- Another run has made a copy. -/
theorem Ledger.Lists.keeps_ne {ok : Bool} (h : l.Lists run m) (c : Copied) (hrun : c.run ≠ run) :
    (l.keeps c ok).Lists run m := fun e => by
  refine (h e).trans ⟨fun ⟨bytes, hc⟩ => ⟨bytes, List.mem_cons_of_mem _ hc⟩, fun ⟨bytes, hc⟩ => ?_⟩
  rcases List.mem_cons.mp hc with heq | hc
  · exact absurd (congrArg Copied.run heq).symm hrun
  · exact ⟨bytes, hc⟩

/-! ## The last manifest -/

/-- There is a last manifest if any run has written it. -/
structure Headed (root : Path) (here site : Loc) (l : Ledger) (t : Tree) : Prop where
  unwritten : l.last? = none → t.bytes? (place here (Backups.lastPath root)) = none
  written : ∀ run, l.last? = some run → run ∈ l.begun ∧ ∃ m, Leads root here site l run m t

theorem Headed.changes (h : Headed root here site l t) (hchanges : Changes P T t u)
    (hT : ∀ c ∈ l.copies, ∀ parts, CopyOf root here site c.run c.entry parts t →
      ¬ T (place here root ++ c.run :: parts))
    (hlast : ¬ T (place here (Backups.lastPath root))) : Headed root here site l u where
  unwritten hnone := (hchanges.bytes? hlast).trans (h.unwritten hnone)
  written run hrun := by
    obtain ⟨hbegun, m, hleads⟩ := h.written run hrun
    exact ⟨hbegun, m, hleads.changes hchanges hT hlast⟩

/-- A run that lists all its copies writes its manifest as the last one. -/
theorem Stocked.leads (h : Stocked root here site l t) (hpublished : Published root here m t)
    (hrunId : m.runId = run) (hentries : m.entries ≠ []) (hlists : l.Lists run m)
    (hmade : t.node? (place here root ++ [run]) = some .dir) : Leads root here site l run m t := by
  refine ⟨hpublished, hrunId, hentries, hmade, fun e he => (hlists e).mp he, fun hremoved => ?_⟩
  obtain ⟨c, hc, rfl, hlost⟩ := h.removed run hremoved
  exact ⟨c, hc, rfl, (hlists c.entry).mpr ⟨c.bytes, hc⟩, hlost⟩

/-- What a run would find out. -/
theorem Headed.obsolete? (h : Headed root here site l t) (hids : ∀ id ∈ l.begun, IsId root here id)
    (run : Text) : Backups.obsolete? root run here t =
      (l.last?.filter (· ≠ run)).map (Backups.runDir root) := by
  cases hlast : l.last? with
  | none => exact obsolete?_of_bytes? (h.unwritten hlast)
  | some other =>
      obtain ⟨hbegun, m, hleads⟩ := h.written other hlast
      obtain rfl := hleads.runId
      rw [hleads.published.obsolete? (hids _ hbegun).isName hleads.made run]
      by_cases hne : m.runId = run
      · rw [if_pos hne, Option.filter_some, if_neg (by simpa using hne)]
        rfl
      · rw [if_neg hne, Option.filter_some, if_pos (by simpa using hne)]
        rfl

end Ledgers

end Stencil
