import Stencil.Proofs.Backup.Steps
import Stencil.Proofs.Undo.Attempts

/-!
# What a run may do to the disk

With backups kept, the disk sees a run as a list of events that its books allow (`Moves`): a file is
written only if the last manifest lists it, and what a run has copied goes into the last manifest before
anything else happens. Once a manifest could not be written nothing is known of the books any more, and
nothing is said of what happens then.
-/

namespace Stencil

open Stencil.Path (IsName)
open Stencil.Tree (place)

/-- What a run has on record. -/
structure Books where
  /-- What the last manifest lists of the run. -/
  manifest : Manifest
  /-- The copy that has been made since. -/
  copied? : Option BackupEntry
  /-- The directory that the run makes obsolete, once it has been looked up. -/
  stale? : Option (Option Path)

/-- The manifest that is to be written next. -/
def Books.next (b : Books) : Manifest :=
  { b.manifest with entries := b.manifest.entries ++ b.copied?.toList }

theorem Books.next_of_none {b : Books} (h : b.copied? = none) : b.next = b.manifest := by
  rw [Books.next, h, Option.toList, List.append_nil]

/-- Nothing is pending in the books, or the manifest that is next cannot be written at all. -/
def Books.IsSettled (b : Books) : Prop :=
  b.copied? = none ∨ Json.writeBytes? b.next.toJson = none

/-- The file that an event makes, once the directories above it are there. -/
def Event.made? : Event → Option Path
  | replace path _ => some path
  | copy _ target => some target
  | _ => none

/-- The event does what it is to do. -/
def Event.Succeeds (here : Loc) (tag : Text) (t : Tree) : Event → Prop
  | replace path bytes => (t.replace here tag path bytes).2 = .ok ()
  | _ => True

section Moves

variable {root : Path} {here site : Loc} {tag id : Text} {t : Tree}

/-- An event that the books of a run allow, and the books after it. -/
inductive Move (root : Path) (here : Loc) (tag : Text) (site : Loc) (id : Text) :
    Books → Tree → Event → Books → Prop
  | idle (b : Books) (t : Tree) {event : Event} (h : event.isIdle = true) :
      Move root here tag site id b t event b
  /-- A copy that fails. -/
  | refused {b : Books} {t : Tree} {path : Path} {parts : List Text} {bytes : Bytes} {e : OsError}
      (hread : t.read here path = .ok bytes) (hplace : place here path = site ++ parts)
      (hsource : IsSource root here site id parts)
      (hfails : (t.copy here path (Backups.kept root id parts)).2 = .error e) :
      Move root here tag site id b t (.copy path (Backups.kept root id parts)) b
  | copies {b : Books} {t : Tree} {path : Path} {parts : List Text} {bytes : Bytes}
      (hread : t.read here path = .ok bytes) (hplace : place here path = site ++ parts)
      (hsource : IsSource root here site id parts) (hcopied : b.copied? = none)
      (hunlisted : ∀ entry ∈ b.manifest.entries, entry ≠ entryAt root site id parts)
      (hdone : (t.copy here path (Backups.kept root id parts)).2 = .ok ()) :
      Move root here tag site id b t (.copy path (Backups.kept root id parts))
        { b with copied? := some (entryAt root site id parts) }
  /-- The manifest in the directory of the run. -/
  | keeps {b : Books} {t : Tree} {bytes : Bytes} (hentries : b.next.entries ≠ []) :
      Move root here tag site id b t (.replace (Backups.runManifestPath root id) bytes) b
  /-- The last manifest. -/
  | publishes {b : Books} {t : Tree} {bytes : Bytes} (hentries : b.next.entries ≠ [])
      (hnoted : b.copied? ≠ none → b.stale? ≠ none)
      (hbytes : Json.writeBytes? b.next.toJson = some bytes)
      (hdone : (t.replace here tag (Backups.lastPath root) bytes).2 = .ok ()) :
      Move root here tag site id b t (.replace (Backups.lastPath root) bytes)
        ⟨b.next, none, b.stale?⟩
  | writes {b : Books} {t : Tree} {path : Path} {bytes old : Bytes} (hcopied : b.copied? = none)
      (hread : t.read here path = .ok old) (hnamed : path.parts ≠ [])
      (houtside : ¬ place here root <+: place here path)
      (hlisted : Lists b.manifest (place here path)) :
      Move root here tag site id b t (.replace path bytes) b
  | removes {b : Books} {t : Tree} {dir : Path} (hcopied : b.copied? = none)
      (hentries : b.manifest.entries ≠ []) (hstale : b.stale? = some (some dir)) :
      Move root here tag site id b t (.removeTree dir) b

/-- The events that the books of a run allow, and the books after them. The books are lost with the
first manifest that could not be written. -/
inductive Moves (root : Path) (here : Loc) (tag : Text) (site : Loc) (id : Text) :
    Option Books → Tree → List Event → Option Books → Prop
  | nil (b? : Option Books) (t : Tree) : Moves root here tag site id b? t [] b?
  /-- The directory that the run makes obsolete is looked up. -/
  | note {b : Books} {t : Tree} {events : List Event} {b? : Option Books} (dir? : Option Path)
      (hunknown : b.stale? = none)
      (hdir : ∀ dir, dir? = some dir → Backups.Obsoletes root id here t dir)
      (h : Moves root here tag site id (some { b with stale? := some dir? }) t events b?) :
      Moves root here tag site id (some b) t events b?
  | step {b b' : Books} {t : Tree} {event : Event} {events : List Event} {b? : Option Books}
      (hmove : Move root here tag site id b t event b')
      (h : Moves root here tag site id (some b') (event.replay here tag t) events b?) :
      Moves root here tag site id (some b) t (event :: events) b?
  | fail {b : Books} {t : Tree} {event : Event} {events : List Event} {b? : Option Books}
      (hmanifest : Backups.IsManifest root id event) (hentries : b.next.entries ≠ [])
      (hfails : ¬ event.Succeeds here tag t)
      (h : Moves root here tag site id none (event.replay here tag t) events b?) :
      Moves root here tag site id (some b) t (event :: events) b?
  | lost {t : Tree} {event : Event} {events : List Event} {b? : Option Books}
      (h : Moves root here tag site id none (event.replay here tag t) events b?) :
      Moves root here tag site id none t (event :: events) b?

namespace Moves

variable {b : Books} {b? b?' b?'' : Option Books} {event : Event} {events events' : List Event}

theorem append (h : Moves root here tag site id b? t events b?')
    (h' : Moves root here tag site id b?' (World.replay here tag t events) events' b?'') :
    Moves root here tag site id b? t (events ++ events') b?'' := by
  induction h with
  | nil b? t => exact h'
  | note dir? hunknown hdir h ih => exact .note dir? hunknown hdir (ih h')
  | step hmove h ih => exact .step hmove (ih h')
  | fail hmanifest hentries hfails h ih => exact .fail hmanifest hentries hfails (ih h')
  | lost h ih => exact .lost (ih h')

theorem of_lost (t : Tree) (events : List Event) :
    Moves root here tag site id none t events none := by
  induction events generalizing t with
  | nil => exact .nil none t
  | cons event events ih => exact .lost (ih _)

theorem of_idle (h : ∀ event ∈ events, event.isIdle = true) (b? : Option Books) (t : Tree) :
    Moves root here tag site id b? t events b? := by
  cases b? with
  | none => exact of_lost t events
  | some b =>
      induction events generalizing t with
      | nil => exact .nil _ t
      | cons event events ih =>
          exact .step (.idle b t (h event List.mem_cons_self))
            (ih (fun event he => h event (List.mem_cons_of_mem _ he)) _)

theorem single {b' : Books} (h : Move root here tag site id b t event b') :
    Moves root here tag site id (some b) t [event] (some b') := .step h (.nil _ _)

end Moves

/-- Every manifest that is written is written. -/
def Persists (root : Path) (here : Loc) (tag : Text) (id : Text) : Tree → List Event → Prop
  | _, [] => True
  | t, event :: events =>
    (Backups.IsManifest root id event → event.Succeeds here tag t) ∧
      Persists root here tag id (event.replay here tag t) events

instance decidableSucceeds : (event : Event) → Decidable (event.Succeeds here tag t)
  | .replace path bytes => inferInstanceAs (Decidable ((t.replace here tag path bytes).2 = .ok ()))
  | .read _ | .copy _ _ | .removeTree _ | .log _ _ | .out _ | .err _ | .asked _ | .proposed _ _
  | .polled _ => .isTrue trivial

theorem isManifest_replace {path : Path} {bytes : Bytes} :
    Backups.IsManifest root id (.replace path bytes) ↔
      path = Backups.runManifestPath root id ∨ path = Backups.lastPath root := by
  constructor
  · rintro ⟨bytes', heq | heq⟩
    · exact Or.inl (Event.replace.inj heq).1
    · exact Or.inr (Event.replace.inj heq).1
  · rintro (rfl | rfl)
    · exact ⟨bytes, Or.inl rfl⟩
    · exact ⟨bytes, Or.inr rfl⟩

instance decidableIsManifest :
    (event : Event) → Decidable (Backups.IsManifest root id event)
  | .replace _ _ => decidable_of_iff _ isManifest_replace.symm
  | .read _ | .copy _ _ | .removeTree _ | .log _ _ | .out _ | .err _ | .asked _ | .proposed _ _
  | .polled _ => .isFalse (by rintro ⟨bytes, heq | heq⟩ <;> cases heq)

instance decidablePersists (root : Path) (here : Loc) (tag : Text) (id : Text) (t : Tree) :
    (events : List Event) → Decidable (Persists root here tag id t events)
  | [] => .isTrue trivial
  | event :: events =>
    have := decidablePersists root here tag id (event.replay here tag t) events
    inferInstanceAs (Decidable (_ ∧ _))

end Moves

end Stencil
