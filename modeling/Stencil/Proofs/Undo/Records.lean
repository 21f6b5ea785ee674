import Stencil.Proofs.Backup.Frame
import Stencil.Proofs.Undo.Moves

/-!
# Backups as moves

What the backups of a run do to the disk is what its books allow, and what is in memory is what the
books say (`Ties`). A snapshot ends with nothing copied that is not listed, unless the manifest cannot
be written at all (`moves_snapshot`); so does the end of a run (`moves_finalize`).
-/

namespace Stencil

open Stencil.Path (IsName)
open Stencil.Tree (place Grows)

/-! ## Files that stay readable -/

namespace Tree

variable {t : Tree} {here : Loc} {p path target : Path} {bytes : Bytes} {P : Loc → Prop}

theorem wellFormed_replay (ht : t.WellFormed) (here : Loc) (tag : Text) (event : Event) :
    (event.replay here tag t).WellFormed := by
  cases event with
  | replace path bytes => exact (replace_bytes? ht here tag path bytes).1
  | copy source target =>
      obtain ⟨u, -, hwell, ⟨e, hcopy⟩ | ⟨bytes, t', hcopy, -, hputs, -⟩⟩ :=
        copy_cases ht here source target
      · rw [Event.replay, hcopy]
        exact hwell
      · rw [Event.replay, hcopy]
        exact hputs.wellFormed hwell
  | removeTree path => exact (removeTree_cases ht here path).1
  | _ => exact ht

/-- What changes files elsewhere and removes nothing leaves a file readable. -/
theorem read_replay (ht : t.WellFormed) (tag : Text) {event : Event} (h : event.Within here P)
    (hremoves : ∀ dir, event ≠ .removeTree dir) (hp : ¬ P (place here p))
    (hread : t.read here p = .ok bytes) : (event.replay here tag t).read here p = .ok bytes := by
  cases event with
  | replace path bytes' =>
      have hne : place here p ≠ place here path := fun heq => hp (heq ▸ h)
      obtain ⟨u, hgrows, hwell, ⟨e, hreplace⟩ | ⟨t', hreplace, hputs, -⟩⟩ :=
        replace_cases ht here tag path bytes'
      · rw [Event.replay, hreplace]
        exact (Step.of_grows hwell hgrows (place here path)).read hne hread
      · rw [Event.replay, hreplace]
        exact ((Step.of_grows hwell hgrows _).puts hputs).read hne hread
  | copy source target =>
      obtain ⟨hsource, htarget, hinside⟩ := h
      obtain ⟨u, hgrows, hwell, ⟨e, hcopy⟩ | ⟨bytes', t', hcopy, hsourceRead, hputs, -⟩⟩ :=
        copy_cases ht here source target
      · rw [Event.replay, hcopy]
        exact (Step.of_grows hwell hgrows (place here target)).read (fun heq => hp (heq ▸ htarget)) hread
      · rw [Event.replay, hcopy]
        refine ((Step.of_grows hwell hgrows _).puts hputs).read (fun heq => ?_) hread
        rcases place_goal ht hsource hsourceRead u with hgoal | ⟨name, hgoal⟩
        · exact hp (heq.trans hgoal ▸ htarget)
        · exact hp (heq.trans hgoal ▸ hinside name)
  | removeTree dir => exact absurd rfl (hremoves dir)
  | _ => exact hread

end Tree

theorem World.wellFormed_replay {t : Tree} (ht : t.WellFormed) (here : Loc) (tag : Text)
    (events : List Event) : (World.replay here tag t events).WellFormed := by
  induction events generalizing t with
  | nil => exact ht
  | cons event events ih => exact ih (Tree.wellFormed_replay ht here tag event)

/-- An event that changes files of a kind only, and removes none. -/
def Event.Stays (here : Loc) (P : Loc → Prop) (event : Event) : Prop :=
  event.Within here P ∧ ∀ dir, event ≠ .removeTree dir

theorem World.read_replay {t : Tree} {here : Loc} {P : Loc → Prop} {p : Path} {bytes : Bytes}
    (ht : t.WellFormed) (tag : Text) {events : List Event}
    (h : ∀ event ∈ events, event.Stays here P) (hp : ¬ P (place here p))
    (hread : t.read here p = .ok bytes) :
    (World.replay here tag t events).read here p = .ok bytes := by
  induction events generalizing t with
  | nil => exact hread
  | cons event events ih =>
      obtain ⟨hwithin, hremoves⟩ := h event List.mem_cons_self
      exact ih (Tree.wellFormed_replay ht here tag event)
        (fun event he => h event (List.mem_cons_of_mem _ he))
        (Tree.read_replay ht tag hwithin hremoves hp hread)

/-- The copy of a file lies below the directory of the run as the file does below the site. -/
theorem entryFor_eq {sitePath path : Path} {here : Loc} {run : Text} {parts : List Text} (root : Path)
    (hrun : IsName run) (hplace : place here path = place here sitePath ++ parts) :
    Backups.location root (Tree.resolve here sitePath) run (Tree.resolve here path) =
        Backups.kept root run parts ∧
      Backups.entryFor root here sitePath run path = entryAt root (place here sitePath) run parts := by
  have hresolve : Tree.resolve here path = ⟨.slash, place here sitePath ++ parts⟩ := by
    rw [← hplace]
    rfl
  have hlocation : Backups.location root (Tree.resolve here sitePath) run (Tree.resolve here path) =
      Backups.kept root run parts := by
    rw [hresolve]
    exact Backups.location_of_below root hrun (List.isPrefixOf?_eq_some_iff_append_eq.mpr rfl)
  refine ⟨hlocation, ?_⟩
  rw [Backups.entryFor, hlocation, hresolve]
  rfl

namespace Backups

variable {storage : Storage Sim} {root path : Path} {here site : Loc} {tag id : Text}
  {b : Books} {b? b?' : Option Books} {s s' : Standing Backups} {w : World} {parts : List Text}
  {bytes : Bytes}

theorem stays_of_isManifest (hid : IsName id) {event : Event} (h : IsManifest root id event) :
    event.Stays here (place here root <+: ·) := by
  refine ⟨isManifest_within_root hid h, fun dir heq => ?_⟩
  obtain ⟨bytes, rfl | rfl⟩ := h <;> cases heq

/-- A copy stays in the backup root. -/
theorem stays_of_copy (hid : IsName id) (hpath : path.IsProper)
    (hsource : IsSource root here site id parts) :
    (Event.copy path (kept root id parts)).Stays here (place here root <+: ·) := by
  refine ⟨⟨hpath, ?_, fun name => ?_⟩, fun dir heq => by cases heq⟩
  · rw [hsource.place_kept hid]
    exact List.prefix_append _ _
  · rw [hsource.place_kept hid, List.append_assoc]
    exact List.prefix_append _ _

/-! ## Memory and books -/

/-- What is in memory is what the books say, unless they have been lost. -/
structure Ties (root : Path) (here : Loc) (tag : Text) (site : Loc) (id : Text) (b? : Option Books)
    (s : Standing Backups) : Prop where
  here_eq : s.world.here = here
  tag_eq : s.world.tag = tag
  wellFormed : s.world.tree.WellFormed
  root : s.memory.root = root
  has : Has id s.memory
  books : ∀ b, b? = some b → place here s.memory.site = site ∧
    s.memory.runs.lookup id = some b.next ∧ s.memory.replaced.lookup id = b.stale?

/-- The books go on from one world to another. -/
def Goes (root : Path) (here : Loc) (tag : Text) (site : Loc) (id : Text) (b? : Option Books)
    (w : World) (b?' : Option Books) (w' : World) : Prop :=
  ∃ events, Trail w events w' ∧ Moves root here tag site id b? w.tree events b?'

namespace Goes

variable {b?'' : Option Books} {w' w'' : World}

theorem refl (b? : Option Books) (w : World) : Goes root here tag site id b? w b? w :=
  ⟨[], Trail.refl w, .nil b? _⟩

theorem trans (h : Goes root here tag site id b? w b?' w')
    (h' : Goes root here tag site id b?' w' b?'' w'') (hhere : w.here = here) (htag : w.tag = tag) :
    Goes root here tag site id b? w b?'' w'' := by
  obtain ⟨events, htrail, hmoves⟩ := h
  obtain ⟨events', htrail', hmoves'⟩ := h'
  rw [htrail.tree, hhere, htag] at hmoves'
  exact ⟨_, htrail.trans htrail', hmoves.append hmoves'⟩

theorem of_idle {events : List Event} (h : Trail w events w')
    (hidle : ∀ event ∈ events, event.isIdle = true) (b? : Option Books) :
    Goes root here tag site id b? w b? w' :=
  ⟨events, h, .of_idle hidle b? _⟩

theorem of_lost {events : List Event} (h : Trail w events w') :
    Goes root here tag site id none w none w' :=
  ⟨events, h, .of_lost _ _⟩

end Goes

/-! ## Manifests -/

/-- Writing the manifest that the books say is next: it becomes the last one, or it cannot be written at
all, or the books are lost. -/
theorem moves_persist (site : Loc) (hhere : w.here = here) (htag : w.tag = tag) (hid : b.next.runId = id)
    (hentries : b.next.entries ≠ []) (hnoted : b.copied? ≠ none → b.stale? ≠ none) :
    ∃ b?', Goes root here tag site id (some b) w b?'
        ((persist root b.next : Act Sim Unit).run.run w).2 ∧
      (b?' = none ∨
        b?' = some b ∧ Json.writeBytes? b.next.toJson = none ∧
          ((persist root b.next : Act Sim Unit).run.run w).1 = .error .unwritable ∨
        b?' = some ⟨b.next, none, b.stale?⟩ ∧
          ((persist root b.next : Act Sim Unit).run.run w).1 = .ok ()) := by
  subst hhere htag hid
  rcases persist_cases root b.next w with
    ⟨hnone, hrun⟩ | ⟨bytes, hbytes, ⟨e, hfails, hrun⟩ | ⟨hkept, hrun⟩⟩
  · rw [hrun]
    exact ⟨some b, .refl _ _, Or.inr (Or.inl ⟨rfl, hnone, rfl⟩)⟩
  · rw [hrun]
    refine ⟨none, ⟨_, Trail.after _ _, .fail ⟨bytes, Or.inl rfl⟩ hentries (fun hdone => ?_) (.nil _ _)⟩,
      Or.inl rfl⟩
    exact absurd (hfails.symm.trans hdone) fun heq => by cases heq
  · rw [hrun]
    have htrail := (Trail.after w (keeps root b.next bytes)).trans
      (Trail.after _ (publishes root bytes))
    cases hlast : ((w.after (keeps root b.next bytes)).tree.replace w.here w.tag (lastPath root)
        bytes).2 with
    | error e =>
        refine ⟨none, ⟨_, htrail, .step (.keeps hentries)
          (.fail ⟨bytes, Or.inr rfl⟩ hentries (fun hdone => ?_) (.nil _ _))⟩, Or.inl rfl⟩
        exact absurd (hlast.symm.trans hdone) fun heq => by cases heq
    | ok _ =>
        exact ⟨_, ⟨_, htrail, .step (.keeps hentries)
          (.single (.publishes hentries hnoted hbytes hlast))⟩, Or.inr (Or.inr ⟨rfl, rfl⟩)⟩

/-! ## Snapshots -/

/-- Once the directory made obsolete has been looked up it is known. -/
theorem goes_notes (tag : Text) (site : Loc) {known replaced : List (Text × Option Path)} {events : List Event} {w' : World}
    (hknown : known.lookup id = b.stale?) (h : Notes root id here w.tree known replaced)
    (htrail : Trail w events w') (haside : ∀ event ∈ events, event.isAside = true) :
    ∃ stale?, Goes root here tag site id (some b) w (some { b with stale? := stale? }) w' ∧
      replaced.lookup id = stale? ∧ stale? ≠ none := by
  have hidle : ∀ event ∈ events, event.isIdle = true :=
    fun event he => Event.isIdle_of_isAside (haside event he)
  cases h with
  | same hsome =>
      rw [hknown] at hsome
      exact ⟨b.stale?, .of_idle htrail hidle _, hknown, Option.isSome_iff_ne_none.mp hsome⟩
  | found hnone dir? hdir =>
      rw [List.lookup_cons, beq_self_eq_true]
      exact ⟨some dir?, ⟨events, htrail, .note dir? (hknown.symm.trans hnone) hdir
        (.of_idle hidle _ _)⟩, rfl, Option.some_ne_none _⟩

/-- A copy that has been made is listed, and the manifest written. -/
theorem moves_record (site : Loc) {entry : BackupEntry} {known replaced : List (Text × Option Path)}
    {events : List Event} {w₁ w₂ : World} {result : Except Failure Unit}
    (hcopied : b.copied? = some entry) (hid : IsName id) (hrunId : b.manifest.runId = id)
    (hknown : known.lookup id = b.stale?) (hnotes : Notes root id w.here w.tree known replaced)
    (hw : w.tree.WellFormed) (htrail : Trail w events w₁)
    (haside : ∀ event ∈ events, event.isAside = true)
    (hpersist : (persist root b.next : Act Sim Unit).run.run w₁ = (result, w₂)) :
    ∃ b?', Goes root w.here w.tag site id (some b) w b?' w₂ ∧ w₂.here = w.here ∧ w₂.tag = w.tag ∧
      w₂.tree.WellFormed ∧
      (∀ path bytes, ¬ place w.here root <+: place w.here path →
        w.tree.read w.here path = .ok bytes → w₂.tree.read w.here path = .ok bytes) ∧
      ∀ b', b?' = some b' → b'.next = b.next ∧ replaced.lookup id = b'.stale? ∧
        (result = .error .unwritable ∧ Json.writeBytes? b'.next.toJson = none ∨
          b'.copied? = none ∧ b'.manifest = b.next) := by
  have hentries : b.next.entries ≠ [] := by
    rw [Books.next, hcopied]
    exact List.append_ne_nil_of_right_ne_nil _ (List.cons_ne_nil _ _)
  obtain ⟨stale?, hnote, hstale, hnoted⟩ :=
    goes_notes w.tag site hknown hnotes htrail haside
  obtain ⟨b?', hgoes, hends⟩ := moves_persist (b := { b with stale? := stale? }) (w := w₁) site
    htrail.here htrail.tag hrunId hentries fun _ => hnoted
  obtain ⟨writes, hwrites, hmanifests, -⟩ := persist_trail root b.next w₁
  have hnext : ({ b with stale? := stale? } : Books).next = b.next := rfl
  have hnextRunId : b.next.runId = id := hrunId
  rw [hnext, hpersist] at hgoes hends
  rw [hpersist] at hwrites
  rw [hnextRunId] at hmanifests
  have hwell₁ : w₁.tree.WellFormed := htrail.tree ▸ World.wellFormed_replay hw _ _ _
  refine ⟨b?', hnote.trans hgoes rfl rfl, hwrites.here.trans htrail.here,
    hwrites.tag.trans htrail.tag, ?_, fun path bytes hout hread => ?_, fun b' hb' => ?_⟩
  · rw [hwrites.tree]
    exact World.wellFormed_replay hwell₁ _ _ _
  · rw [hwrites.tree, htrail.here]
    refine World.read_replay hwell₁ _ (fun event he => stays_of_isManifest hid (hmanifests event he))
      hout ?_
    rw [htrail.tree_eq fun event he => Event.isIdle_of_isAside (haside event he)]
    exact hread
  · rcases hends with rfl | ⟨rfl, hnone, hresult⟩ | ⟨rfl, hresult⟩
    · cases hb'
    · obtain rfl := Option.some.inj hb'
      exact ⟨rfl, hstale, Or.inl ⟨hresult, hnone⟩⟩
    · obtain rfl := Option.some.inj hb'
      exact ⟨Books.next_of_none rfl, hstale, Or.inr ⟨rfl, rfl⟩⟩

/-- A snapshot of a file that can be read. -/
theorem moves_snapshot (hs : storage.OverDisk) (h : Ties root here tag site id b? s)
    (hcopied : ∀ b, b? = some b → b.copied? = none) (hid : IsName id) (hpath : path.IsProper)
    (hplace : place here path = site ++ parts) (hsource : IsSource root here site id parts)
    (hread : s.world.tree.read here path = .ok bytes) :
    ∃ b?', Goes root here tag site id b? s.world b?' (play (snapshot storage id path) s).2.world ∧
      Ties root here tag site id b?' (play (snapshot storage id path) s).2 ∧
      ∀ b', b?' = some b' →
        (play (snapshot storage id path) s).2.world.tree.read here path = .ok bytes ∧
        ((play (snapshot storage id path) s).1 = .error .unwritable ∧
            Json.writeBytes? b'.next.toJson = none ∨
          b'.copied? = none ∧ ∀ entry, (play (snapshot storage id path) s).1 = .ok entry →
            Lists b'.manifest (site ++ parts)) := by
  cases b? with
  | none =>
      obtain ⟨events, htrail, -, hhas, hroot, -⟩ := snapshot_trail hs h.has path
      refine ⟨none, .of_lost htrail, ⟨htrail.here.trans h.here_eq, htrail.tag.trans h.tag_eq, ?_,
        hroot.trans h.root, hhas, fun b hb => (by cases hb)⟩, fun b hb => by cases hb⟩
      rw [htrail.tree]
      exact World.wellFormed_replay h.wellFormed _ _ _
  | some b =>
      obtain rfl := h.here_eq
      obtain rfl := h.tag_eq
      obtain ⟨hsite, hlookup, hreplaced⟩ := h.books b rfl
      have hnone := hcopied b rfl
      rw [Books.next_of_none hnone] at hlookup
      have hrunId : b.manifest.runId = id := by
        obtain ⟨manifest, hmanifest, hrunId⟩ := h.has
        obtain rfl := Option.some.inj (hmanifest.symm.trans hlookup)
        exact hrunId
      have hresolve : Tree.resolve s.world.here path = ⟨.slash, site ++ parts⟩ := by
        rw [← hplace]
        rfl
      have hbelow : place s.world.here path = place s.world.here s.memory.site ++ parts := by
        rw [hsite, hplace]
      obtain ⟨hlocation, hentryFor⟩ := entryFor_eq root hid hbelow
      rw [hsite] at hentryFor
      rcases snapshot_cases hs hlookup path with
        ⟨entry, hentry, hfile, hplay⟩ | ⟨target, htarget, hunlisted, hcases⟩
      · rw [hplay]
        rw [hresolve] at hfile
        refine ⟨some b, .refl _ _, h, fun b' hb' => ?_⟩
        obtain rfl := Option.some.inj hb'
        exact ⟨hread, Or.inr ⟨hnone, fun _ _ => ⟨hsource.names, entry, hentry, hfile⟩⟩⟩
      · rw [h.root, hlocation] at htarget
        rw [hresolve] at hunlisted
        subst htarget
        have hcopyStays := stays_of_copy hid hpath hsource
        have houtside : ¬ place s.world.here root <+: place s.world.here path :=
          hplace ▸ hsource.outside
        have hread₀ := Tree.read_replay h.wellFormed s.world.tag hcopyStays.1 hcopyStays.2 houtside
          hread
        have hwell₀ := Tree.wellFormed_replay h.wellFormed s.world.here s.world.tag
          (.copy path (kept root id parts))
        rcases hcases with ⟨o, w', hplay, rfl | ⟨hfails, rfl⟩⟩ |
          ⟨hdone, entry, events, w₁, rfl, htrail, haside, hplay⟩
        · rw [hplay]
          refine ⟨some b, .refl _ _, h, fun b' hb' => ?_⟩
          obtain rfl := Option.some.inj hb'
          exact ⟨hread, Or.inr ⟨hnone, fun entry heq => by cases heq⟩⟩
        · rw [hplay]
          refine ⟨some b, ⟨_, Trail.after _ _, .single (.refused hread hplace hsource hfails)⟩,
            ⟨rfl, rfl, hwell₀, h.root, h.has, h.books⟩, fun b' hb' => ?_⟩
          obtain rfl := Option.some.inj hb'
          exact ⟨hread₀, Or.inr ⟨hnone, fun entry heq => by cases heq⟩⟩
        · rw [h.root, hentryFor] at hplay
          have hnotes := notes_noted root id s.world.here
            (s.world.after (.copy path (kept root id parts))).tree s.memory.replaced
          rcases hpersist : (persist root (listing b.manifest (entryAt root site id parts)) :
            Act Sim Unit).run.run w₁ with ⟨result, w₂⟩
          have hcopy : Goes root s.world.here s.world.tag site id (some b) s.world
              (some { b with copied? := some (entryAt root site id parts) })
              (s.world.after (.copy path (kept root id parts))) := by
            refine ⟨_, Trail.after _ _, .single (.copies hread hplace hsource hnone ?_ hdone)⟩
            exact fun entry he heq => hunlisted entry he (heq ▸ rfl)
          obtain ⟨b?', hgoes, hhere, htag, hwell, hreads, hends⟩ := moves_record
            (b := { b with copied? := some (entryAt root site id parts) }) site rfl hid hrunId
            hreplaced hnotes hwell₀ htrail haside hpersist
          rw [hpersist] at hplay
          rw [hplay]
          refine ⟨b?', hcopy.trans hgoes rfl rfl, ⟨hhere, htag, hwell, h.root, ?_, fun b' hb' => ?_⟩,
            fun b' hb' => ⟨hreads path bytes houtside hread₀, ?_⟩⟩
          · exact ⟨_, lookup_setRun id _ _, hrunId⟩
          · obtain ⟨hnext, hstale, -⟩ := hends b' hb'
            rw [hnext]
            exact ⟨hsite, lookup_setRun id _ _, hstale⟩
          · obtain ⟨-, -, ⟨hresult, hstuck⟩ | ⟨hsettled, hmanifest⟩⟩ := hends b' hb'
            · exact Or.inl ⟨by rw [hresult]; rfl, hstuck⟩
            · refine Or.inr ⟨hsettled, fun _ _ => ⟨hsource.names, entryAt root site id parts, ?_, rfl⟩⟩
              rw [hmanifest]
              exact List.mem_append_right _ List.mem_cons_self

/-! ## Endings -/

/-- What is left to do once the last manifest has been written. -/
theorem moves_of_ending {events : List Event} (hcopied : b.copied? = none)
    (hentries : b.manifest.entries ≠ [])
    (h : ∀ event ∈ events, event.isLog = true ∨
      ∃ dir, b.stale? = some (some dir) ∧ event = .removeTree dir) (t : Tree) :
    Moves root here tag site id (some b) t events (some b) := by
  induction events generalizing t with
  | nil => exact .nil _ t
  | cons event events ih =>
      have hrest := ih (fun event he => h event (List.mem_cons_of_mem _ he))
        (event.replay here tag t)
      rcases h event List.mem_cons_self with hlog | ⟨dir, hstale, rfl⟩
      · exact .step (.idle b t (Event.isIdle_of_isLog hlog)) hrest
      · exact .step (.removes hcopied hentries hstale) hrest

/-- The end of a run that has backed something up. -/
theorem moves_finalize (h : Ties root here tag site id b? s)
    (hsettled : ∀ b, b? = some b → b.IsSettled)
    (hentries : ∀ manifest, s.memory.runs.lookup id = some manifest → manifest.entries ≠ []) :
    ∃ b?', Goes root here tag site id b? s.world b?' (play (finalize id) s).2.world := by
  obtain ⟨manifest, hlookup, hrunId⟩ := h.has
  obtain ⟨result, w₁, hpersist, hends⟩ := finalize_cases (s := s) hlookup
  rw [h.root] at hpersist
  cases b? with
  | none =>
      obtain ⟨writes, hwrites, -⟩ := persist_trail root manifest s.world
      rw [hpersist] at hwrites
      rcases hends with ⟨e, -, hplay⟩ | ⟨-, events, w₂, htrail, -, hplay⟩
      · rw [hplay]
        exact ⟨none, .of_lost hwrites⟩
      · rw [hplay]
        exact ⟨none, .of_lost (hwrites.trans htrail)⟩
  | some b =>
      obtain ⟨-, hnext, hstale⟩ := h.books b rfl
      obtain rfl := Option.some.inj (hlookup.symm.trans hnext)
      rcases hsettled b rfl with hcopied | hstuck
      · have hnonempty := hentries _ hnext
        obtain ⟨b?', hgoes, hdone⟩ := moves_persist site h.here_eq h.tag_eq hrunId
          hnonempty fun hne => absurd hcopied hne
        rw [hpersist] at hgoes hdone
        rcases hends with ⟨e, -, hplay⟩ | ⟨rfl, events, w₂, htrail, hevents, hplay⟩
        · rw [hplay]
          exact ⟨b?', hgoes⟩
        · rw [hplay]
          rcases hdone with rfl | ⟨-, -, hresult⟩ | ⟨rfl, -⟩
          · exact ⟨none, hgoes.trans (.of_lost htrail) h.here_eq h.tag_eq⟩
          · cases hresult
          · refine ⟨_, hgoes.trans ⟨events, htrail, moves_of_ending rfl hnonempty ?_ _⟩ h.here_eq
              h.tag_eq⟩
            rw [hstale] at hevents
            exact hevents
      · rcases persist_cases root b.next s.world with ⟨-, hrun⟩ | ⟨bytes, hbytes, -⟩
        · obtain ⟨rfl, rfl⟩ := Prod.mk.inj (hrun.symm.trans hpersist)
          rcases hends with ⟨e, -, hplay⟩ | ⟨hresult, -⟩
          · rw [hplay]
            exact ⟨some b, .refl _ _⟩
          · cases hresult
        · cases hstuck.symm.trans hbytes

end Backups

end Stencil
