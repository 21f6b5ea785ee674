import Stencil.Proofs.Backup.Frame
import Stencil.Proofs.Undo.Moves

/-!
# A run under way

While a run goes on, the disk and its books agree (`Stage`). A step in the directory of the run keeps them
so if it changes no copy that is listed (`Stage.inside`), and a copy that has been made goes into the books
(`Stage.copies`).
-/

namespace Stencil

open Stencil.Path (IsName)
open Stencil.Tree (place OnWay Grows Puts WellFormed)

section Stages

variable {root : Path} {here loc target site : Loc} {tag id : Text} {earlier : List Attempt}
  {a : Attempt} {b b' : Books} {t t' u : Tree} {e : BackupEntry} {m : Manifest}
  {parts rest : List Text} {P : Loc → Prop} {event : Event} {events : List Event}

/-- The way to a file that a run keeps. -/
theorem onWay_kept (hid : IsName id) (hparts : ∀ part ∈ parts, IsName part)
    (h : OnWay here (Backups.kept root id parts) loc) :
    OnWay here root loc ∨ ∃ q, q <+: parts ∧ loc = place here root ++ id :: q := by
  rcases Tree.onWay_below h (List.forall_mem_cons.mpr ⟨hid, hparts⟩) with hway | ⟨q, hq, rfl⟩
  · exact Or.inl hway
  · cases q with
    | nil =>
        rw [List.append_nil]
        exact Or.inl (Tree.onWay_place here root)
    | cons part q =>
        obtain ⟨rfl, hrest⟩ := List.cons_prefix_cons.mp hq
        exact Or.inr ⟨q, hrest, rfl⟩

/-- Making the directories above a file that a run keeps is a step for that run. -/
theorem isOf_of_onWay_kept (hid : IsName id) (hparts : ∀ part ∈ parts, IsName part)
    (h : OnWay here (Backups.kept root id parts) loc) : IsOf root here id loc := by
  rcases onWay_kept hid hparts h with hway | ⟨q, -, rfl⟩
  · exact Or.inl hway
  · refine Or.inr ?_
    rw [List.prefix_append_right_inj, List.cons_prefix_cons]
    exact ⟨rfl, List.nil_prefix⟩

theorem parent_kept (h : parts ≠ []) :
    (Backups.kept root id parts).parent = Backups.kept root id parts.dropLast := by
  rw [Path.parent, Backups.kept, List.dropLast_append_of_ne_nil (List.cons_ne_nil _ _)]
  cases parts with
  | nil => exact absurd rfl h
  | cons part parts => rfl

/-! ## Disk and books -/

/-- The disk while a run is under way. -/
structure Scene (root : Path) (here site : Loc) (earlier : List Attempt) (a : Attempt) (t : Tree) :
    Prop where
  wellFormed : t.WellFormed
  isId : IsId root here a.id
  ids : ∀ c ∈ earlier, IsId root here c.id
  fresh : ∀ c ∈ earlier, c.id ≠ a.id
  vacant : ∀ id, IsId root here id → a.id ≠ id → (∀ c ∈ earlier, c.id ≠ id) →
    ∀ parts, t.node? (place here root ++ id :: parts) = none
  /-- Until the run has written its manifest the run before it can be undone. -/
  before : a.hasBegun root = false → Awaits root here (latest root earlier) t
  /-- Where a copy lies in a directory no file lies at the place of that directory. -/
  mirror : ∀ parts, ¬ place here root <+: site ++ parts →
    t.node? (place here root ++ a.id :: parts) = some .dir → t.bytes? (site ++ parts) = none
  spared : ∀ loc, ¬ place here root <+: loc → ¬ a.Wrote root here loc →
    t.bytes? loc = a.before.bytes? loc

/-- The books of a run, compared with the disk. -/
structure Tally (root : Path) (here site : Loc) (earlier : List Attempt) (a : Attempt) (t : Tree)
    (b : Books) : Prop where
  runId : b.manifest.runId = a.id
  begun : a.hasBegun root = true ↔ b.manifest.entries ≠ []
  published : b.manifest.entries ≠ [] → Published root here b.manifest t ∧ b.stale? ≠ none
  keeps : ∀ e ∈ b.next.entries, ∃ parts, KeptAs root here site a t e parts
  listed : ∀ loc, a.Wrote root here loc → Lists b.manifest loc
  stale : ∀ dir, b.stale? = some (some dir) → ∃ c ∈ earlier, dir = Backups.runDir root c.id

/-- The disk and the books agree. -/
structure Stage (root : Path) (here site : Loc) (earlier : List Attempt) (a : Attempt) (t : Tree)
    (b : Books) : Prop where
  scene : Scene root here site earlier a t
  tally : Tally root here site earlier a t b

theorem Tally.keeps_manifest (h : Tally root here site earlier a t b) :
    ∀ e ∈ b.manifest.entries, ∃ parts, KeptAs root here site a t e parts :=
  fun e he => h.keeps e (List.mem_append_left _ he)

theorem Stage.ready (h : Stage root here site earlier a t b) : Ready root here (a :: earlier) t where
  wellFormed := h.scene.wellFormed
  ids := List.forall_mem_cons.mpr ⟨h.scene.isId, h.scene.ids⟩
  vacant id hid hne :=
    h.scene.vacant id hid (hne a List.mem_cons_self) fun c hc => hne c (List.mem_cons_of_mem _ hc)
  awaits := by
    rw [latest_cons]
    cases hbegun : a.hasBegun root with
    | false => exact h.scene.before hbegun
    | true =>
        obtain ⟨hpublished, -⟩ := h.tally.published (h.tally.begun.mp hbegun)
        refine ⟨fun hnone => (by cases hnone), fun c hc => ⟨b.manifest, site, ?_⟩⟩
        obtain rfl := Option.some.inj hc
        exact ⟨hpublished, h.tally.runId, h.tally.keeps_manifest, h.tally.listed⟩

/-- A run that has not done anything yet. -/
theorem Ready.stage (h : Ready root here earlier t) (hid : IsId root here id)
    (hfresh : ∀ c ∈ earlier, c.id ≠ id) (hrunId : m.runId = id) (hentries : m.entries = []) :
    Stage root here site earlier ⟨id, t, []⟩ t ⟨m, none, none⟩ where
  scene :=
    { wellFormed := h.wellFormed
      isId := hid
      ids := h.ids
      fresh := hfresh
      vacant := fun id hid _ hne => h.vacant id hid hne
      before := fun _ => h.awaits
      mirror := fun parts _ hdir => by
        rw [h.vacant id hid hfresh] at hdir
        cases hdir
      spared := fun loc _ _ => rfl }
  tally :=
    { runId := hrunId
      begun := by
        rw [hentries]
        exact ⟨fun hbegun => (by cases hbegun), fun hne => absurd rfl hne⟩
      published := fun hne => absurd hentries hne
      keeps := fun e he => by
        rw [Books.next_of_none rfl, hentries] at he
        cases he
      listed := fun loc hwrote => by
        obtain ⟨path, bytes, hmem, -⟩ := hwrote
        cases hmem
      stale := fun dir hdir => by cases hdir }

/-! ## Steps -/

/-- The disk after a step: what it changes is no other run's, and outside the backup root it is a file
that the run writes. -/
theorem Scene.step (h : Scene root here site earlier a t)
    (hstep : Step (IsOf root here a.id) target t t')
    (htarget : ∀ id, IsId root here id → id ≠ a.id → ∀ parts, target ≠ place here root ++ id :: parts)
    (hmirror : ∀ parts, ¬ place here root <+: site ++ parts →
      t'.node? (place here root ++ a.id :: parts) = some .dir → t.bytes? (site ++ parts) = none)
    (hwrites : ¬ place here root <+: target →
      t.bytes? target ≠ none ∧ (a.more events).Wrote root here target)
    (hbefore : (a.more events).hasBegun root = false →
      ∃ rest, target = place here root ++ a.id :: rest) :
    Scene root here site earlier (a.more events) t' where
  wellFormed := hstep.wellFormed
  isId := h.isId
  ids := h.ids
  fresh := h.fresh
  vacant id hid hother hne parts :=
    hstep.vacant hid hother.symm (htarget id hid hother.symm parts).symm
      (h.vacant id hid hother hne parts)
  before hbegun := by
    obtain ⟨rest, hrest⟩ := hbefore hbegun
    rw [Attempt.hasBegun_more, Bool.or_eq_false_iff] at hbegun
    have hmem : ∀ c, latest root earlier = some c → c ∈ earlier :=
      fun c hc => List.mem_of_find?_eq_some hc
    exact (h.before hbegun.1).step
      (fun c hc => (h.ids c (hmem c hc)).isName) hstep hrest h.isId.ne_last
      fun c hc => h.fresh c (hmem c hc)
  mirror parts hout hdir := by
    have hnone := hmirror parts hout hdir
    rw [hstep.bytes? (fun heq => ?_), hnone]
    rw [heq] at hnone hout
    exact (hwrites hout).1 hnone
  spared loc hout hnot := by
    rw [hstep.bytes? fun heq => ?_]
    · exact h.spared loc hout fun hwrote => hnot (hwrote.more events)
    · rw [heq] at hout hnot
      exact hnot (hwrites hout).2

/-- The books stay right while neither the last manifest nor a copy changes. -/
theorem Tally.step (h : Tally root here site earlier a t b) (hid : IsName a.id)
    (hstep : Step P target t t') (hlast : target ≠ place here (Backups.lastPath root))
    (hcopies : ∀ e ∈ b.next.entries, ∀ parts, KeptAs root here site a t e parts →
      target ≠ place here root ++ a.id :: parts)
    (hwrites : ¬ place here root <+: target →
      t'.bytes? target ≠ none ∧ (a.more events).Wrote root here target)
    (hbegun : (a.more events).hasBegun root = a.hasBegun root)
    (hlisted : ∀ loc, (a.more events).Wrote root here loc → Lists b.manifest loc) :
    Tally root here site earlier (a.more events) t' b where
  runId := h.runId
  begun := hbegun ▸ h.begun
  published hentries := (h.published hentries).imp_left fun hpublished => hpublished.step hstep hlast
  keeps e he := by
    obtain ⟨parts, hkept⟩ := h.keeps e he
    refine ⟨parts, hkept.step hid hstep (hcopies e he parts hkept) fun heq => ?_⟩
    rw [heq] at hwrites ⊢
    exact hwrites hkept.source.outside
  listed := hlisted
  stale := h.stale

/-- A step in the directory of the run, with events that write below the backup root only. -/
theorem Stage.inside (h : Stage root here site earlier a t b)
    (hstep : Step (IsOf root here a.id) (place here root ++ a.id :: rest) t t')
    (hcopies : ∀ e ∈ b.next.entries, ∀ parts, KeptAs root here site a t e parts → parts ≠ rest)
    (hmirror : ∀ parts, ¬ place here root <+: site ++ parts →
      t'.node? (place here root ++ a.id :: parts) = some .dir → t.bytes? (site ++ parts) = none)
    (hevents : ∀ path bytes, Event.replace path bytes ∈ events →
      place here root <+: place here path ∧ path ≠ Backups.lastPath root) :
    Stage root here site earlier (a.more events) t' b := by
  have hin : place here root <+: place here root ++ a.id :: rest := List.prefix_append _ _
  have hbegun : (a.more events).hasBegun root = a.hasBegun root := by
    have hquiet : events.any (Event.isPublishing root) = false := by
      refine List.any_eq_false.mpr fun event he => ?_
      cases event with
      | replace path bytes => exact fun hlast => (hevents path bytes he).2 (of_decide_eq_true hlast)
      | _ => exact Bool.false_ne_true
    rw [Attempt.hasBegun_more, hquiet, Bool.or_false]
  refine ⟨h.scene.step hstep ?_ hmirror (fun hout => absurd hin hout) fun _ => ⟨rest, rfl⟩,
    h.tally.step h.scene.isId.isName hstep ?_ ?_ (fun hout => absurd hin hout) hbegun ?_⟩
  · intro id _ hne parts heq
    exact hne (List.cons.inj (List.append_cancel_left heq)).1.symm
  · exact Backups.ne_place_lastPath here root h.scene.isId.ne_last
  · intro e he parts hkept heq
    exact hcopies e he parts hkept (List.cons.inj (List.append_cancel_left heq)).2.symm
  · intro loc hwrote
    rcases hwrote.of_more with hwrote | ⟨path, bytes, hmem, rfl, hout⟩
    · exact h.tally.listed loc hwrote
    · exact absurd (hevents path bytes hmem).1 hout

/-- No file changes. -/
theorem Stage.grows (h : Stage root here site earlier a t b) (hwell : u.WellFormed)
    (hgrows : Grows (IsOf root here a.id) t u)
    (hmirror : ∀ parts, ¬ place here root <+: site ++ parts →
      u.node? (place here root ++ a.id :: parts) = some .dir → t.bytes? (site ++ parts) = none)
    (hevents : ∀ path bytes, Event.replace path bytes ∈ events →
      place here root <+: place here path ∧ path ≠ Backups.lastPath root) :
    Stage root here site earlier (a.more events) u b := by
  have hstep : Step (IsOf root here a.id)
      (place here root ++ a.id :: [Backups.manifestName a.id]) t u := .of_grows hwell hgrows _
  exact h.inside hstep (fun _ _ _ hkept => hkept.source.ne_manifest) hmirror hevents

/-- An event that leaves the disk as it is. -/
theorem Stage.adds (h : Stage root here site earlier a t b)
    (hevent : ∀ path bytes, event ≠ .replace path bytes) :
    Stage root here site earlier (a.more [event]) t b :=
  h.grows h.scene.wellFormed (Grows.refl t) h.scene.mirror fun path bytes hmem =>
    absurd (List.mem_singleton.mp hmem).symm (hevent path bytes)

/-! ## Copies -/

/-- The directories on the way to a file are there. -/
theorem IsSource.dirs (h : IsSource root here site id parts) (ht : t.WellFormed)
    (hthere : t.node? (site ++ parts) ≠ none) {q : List Text} (hq : q <+: parts.dropLast) :
    t.node? (site ++ q) = some .dir := by
  obtain ⟨rest, hrest⟩ := hq
  have hparts := List.dropLast_concat_getLast h.ne_nil
  rw [← hrest, List.append_assoc] at hparts
  rw [← hparts, ← List.append_assoc] at hthere
  exact ht.dir_above (List.append_ne_nil_of_right_ne_nil _ (List.cons_ne_nil _ _)) hthere

/-- Directories for copies are made where the site has directories. -/
theorem Scene.mirror_of_grows (h : Scene root here site earlier a t) {dirs : List Text}
    (hdirs : ∀ q, q <+: dirs → t.node? (site ++ q) = some .dir)
    (hnames : ∀ part ∈ dirs, IsName part)
    (hgrows : Grows (OnWay here (Backups.kept root a.id dirs)) t u) (q : List Text)
    (hout : ¬ place here root <+: site ++ q)
    (hdir : u.node? (place here root ++ a.id :: q) = some .dir) : t.bytes? (site ++ q) = none := by
  rcases hgrows (place here root ++ a.id :: q) with heq | ⟨-, -, hway⟩
  · exact h.mirror q hout (heq.symm.trans hdir)
  · rcases onWay_kept h.isId.isName hnames hway with hroot | ⟨q', hq', heq⟩
    · exact absurd hroot h.isId.not_onWay
    · obtain rfl := (List.cons.inj (List.append_cancel_left heq)).2
      rw [Tree.bytes?, hdirs q hq']

/-- What the last manifest lists is one of its entries. -/
theorem Tally.exists_of_lists (h : Tally root here site earlier a t b)
    (hlists : Lists b.manifest loc) :
    ∃ e ∈ b.manifest.entries, ∃ parts, KeptAs root here site a t e parts ∧ loc = site ++ parts := by
  obtain ⟨hnames, e, he, hfile⟩ := hlists
  obtain ⟨parts, hkept⟩ := h.keeps_manifest e he
  refine ⟨e, he, parts, hkept, ?_⟩
  rw [hkept.entry] at hfile
  have hpath := Path.text_inj (p := ⟨.slash, site ++ parts⟩) (q := ⟨.slash, loc⟩)
    (fun part hpart => (hkept.source.names part hpart).isPart)
    (fun part hpart => (hnames part hpart).isPart) hfile
  exact (Path.mk.inj hpath).2.symm

/-- Directories are made for the copy of a file that can be read. -/
theorem Stage.grows_copy (h : Stage root here site earlier a t b) {path : Path} {bytes : Bytes}
    (hread : t.read here path = .ok bytes) (hplace : place here path = site ++ parts)
    (hsource : IsSource root here site a.id parts) (hwell : u.WellFormed)
    (hgrows : Grows (OnWay here (Backups.kept root a.id parts).parent) t u)
    (hevents : ∀ path bytes, Event.replace path bytes ∈ events →
      place here root <+: place here path ∧ path ≠ Backups.lastPath root) :
    Stage root here site earlier (a.more events) u b := by
  have hthere : t.node? (site ++ parts) ≠ none := by
    rw [← hplace, (Tree.read_eq_ok.mp hread).2]
    exact Option.some_ne_none _
  have hnames : ∀ part ∈ parts.dropLast, IsName part := fun part hpart =>
    hsource.names part (List.mem_append_right _ (List.mem_of_mem_dropLast hpart))
  rw [parent_kept hsource.ne_nil] at hgrows
  refine h.grows hwell (hgrows.mono fun loc => isOf_of_onWay_kept h.scene.isId.isName hnames) ?_ hevents
  exact h.scene.mirror_of_grows (fun q hq => hsource.dirs h.scene.wellFormed hthere hq) hnames hgrows

theorem Stage.refused (h : Stage root here site earlier a t b) {path : Path} {bytes : Bytes}
    {o : OsError} (hread : t.read here path = .ok bytes) (hplace : place here path = site ++ parts)
    (hsource : IsSource root here site a.id parts)
    (hfails : (t.copy here path (Backups.kept root a.id parts)).2 = .error o) :
    Stage root here site earlier (a.more [.copy path (Backups.kept root a.id parts)])
      (t.copy here path (Backups.kept root a.id parts)).1 b := by
  obtain ⟨u, hgrows, hwell, ⟨e, hcopy⟩ | ⟨bytes', t', hcopy, -⟩⟩ :=
    Tree.copy_cases h.scene.wellFormed here path (Backups.kept root a.id parts)
  · rw [hcopy]
    exact h.grows_copy hread hplace hsource hwell hgrows fun path bytes hmem => by
      cases List.mem_singleton.mp hmem
  · rw [hcopy] at hfails
    cases hfails

theorem Stage.copies (h : Stage root here site earlier a t b) {path : Path} {bytes : Bytes}
    (hread : t.read here path = .ok bytes) (hplace : place here path = site ++ parts)
    (hsource : IsSource root here site a.id parts) (hcopied : b.copied? = none)
    (hunlisted : ∀ e ∈ b.manifest.entries, e ≠ entryAt root site a.id parts)
    (hdone : (t.copy here path (Backups.kept root a.id parts)).2 = .ok ()) :
    Stage root here site earlier (a.more [.copy path (Backups.kept root a.id parts)])
      (t.copy here path (Backups.kept root a.id parts)).1
      { b with copied? := some (entryAt root site a.id parts) } := by
  have hbytes : t.bytes? (site ++ parts) = some bytes := by
    rw [← hplace]
    exact Tree.bytes?_eq_some.mpr (Tree.read_eq_ok.mp hread).2
  have hthere : t.node? (site ++ parts) ≠ none := by
    rw [Tree.bytes?_eq_some.mp hbytes]
    exact Option.some_ne_none _
  have hnames : ∀ part ∈ parts.dropLast, IsName part := fun part hpart =>
    hsource.names part (List.mem_append_right _ (List.mem_of_mem_dropLast hpart))
  have hkept := hsource.place_kept h.scene.isId.isName
  obtain ⟨u, hgrows, hwell, ⟨e, hcopy⟩ | ⟨bytes', t', hcopy, hread', hputs, -⟩⟩ :=
    Tree.copy_cases h.scene.wellFormed here path (Backups.kept root a.id parts)
  · rw [hcopy] at hdone
    cases hdone
  · obtain rfl := Except.ok.inj (hread'.symm.trans hread)
    rw [parent_kept hsource.ne_nil] at hgrows
    rw [hcopy]
    have hmirror := h.scene.mirror_of_grows
      (fun q hq => hsource.dirs h.scene.wellFormed hthere hq) hnames hgrows
    have hgoal : u.goal here path (Backups.kept root a.id parts) = Backups.kept root a.id parts := by
      refine if_neg fun hdir => ?_
      have hnode := (Tree.isDir_iff.mp hdir).2
      rw [hkept] at hnode
      rw [hmirror parts hsource.outside hnode] at hbytes
      cases hbytes
    rw [hgoal] at hputs
    have hstep : Step (IsOf root here a.id) (place here root ++ a.id :: parts) t t' := by
      rw [← hkept]
      exact (Step.of_grows hwell
        (hgrows.mono fun loc => isOf_of_onWay_kept h.scene.isId.isName hnames) _).puts hputs
    have hnode := hputs.node? hwell
    rw [hkept] at hnode
    have hstage : Stage root here site earlier
        (a.more [.copy path (Backups.kept root a.id parts)]) t' b := by
      refine h.inside hstep (fun e he parts' hkept' heq => ?_) (fun q hout hdir => ?_)
        fun path bytes hmem => by cases List.mem_singleton.mp hmem
      · rw [Books.next_of_none hcopied] at he
        rw [heq] at hkept'
        exact hunlisted e he hkept'.entry
      · refine hmirror q hout ?_
        rw [hnode] at hdir
        split at hdir
        · cases hdir
        · exact hdir
    have hunwritten : ¬ a.Wrote root here (site ++ parts) := fun hwrote => by
      obtain ⟨e, he, parts', hkept', heq⟩ := h.tally.exists_of_lists (h.tally.listed _ hwrote)
      obtain rfl := List.append_cancel_left heq
      exact hunlisted e he hkept'.entry
    have hnew : KeptAs root here site (a.more [.copy path (Backups.kept root a.id parts)]) t'
        (entryAt root site a.id parts) parts := by
      refine ⟨hsource, rfl, bytes', bytes', ?_, ?_, ?_, fun _ => rfl⟩
      · rw [Attempt.more_before, ← h.scene.spared _ hsource.outside hunwritten, hbytes]
      · have hlocate := (Step.of_grows hwell (Grows.refl u) _).puts (P := fun _ => False) hputs
        refine Tree.read_eq_ok.mpr ⟨hlocate.locate hputs.locate, ?_⟩
        rw [Attempt.more_id, hkept, hnode, if_pos rfl]
      · rw [hstep.bytes? fun heq => ?_, hbytes]
        exact hsource.outside (heq ▸ List.prefix_append _ _)
    refine ⟨hstage.scene, { hstage.tally with keeps := fun e he => ?_ }⟩
    rcases List.mem_append.mp he with he | he
    · exact hstage.tally.keeps_manifest e he
    · obtain rfl := List.mem_singleton.mp he
      exact ⟨parts, hnew⟩

end Stages

end Stencil
