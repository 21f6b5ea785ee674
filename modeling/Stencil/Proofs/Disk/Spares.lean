import Stencil.Proofs.Disk.Frame
import Stencil.World

/-!
# What events leave alone

Making directories is no change to any file, so a file operation that fails changes none
(`replace_bytes?`, `copy_bytes?`), and one that goes through changes just the file it is about. What a
list of events changes lies where one of them goes (`spares_replay`).
-/

namespace Stencil

open Stencil.Path (IsName parentName)

namespace Tree

variable {t t' t'' : Tree} {here loc : Loc} {p source target : Path} {P Q : Loc → Prop}

/-- No file has changed, come or gone, unless its location is of a kind. -/
def Spares (P : Loc → Prop) (t t' : Tree) : Prop := ∀ loc, ¬ P loc → t'.bytes? loc = t.bytes? loc

namespace Spares

theorem refl (t : Tree) : Spares P t t := fun _ _ => rfl

theorem trans (h : Spares P t t') (h' : Spares P t' t'') : Spares P t t'' :=
  fun loc hloc => (h' loc hloc).trans (h loc hloc)

theorem mono (h : Spares P t t') (hPQ : ∀ loc, P loc → Q loc) : Spares Q t t' :=
  fun loc hloc => h loc fun hP => hloc (hPQ loc hP)

end Spares

/-! ## One operation -/

theorem bytes?_of_node? (h : t'.node? loc = t.node? loc) : t'.bytes? loc = t.bytes? loc := by
  rw [bytes?, bytes?, h]

theorem Grows.bytes? (h : Grows P t t') (loc : Loc) : t'.bytes? loc = t.bytes? loc := by
  rcases h loc with hnode | ⟨hnone, hdir, -⟩
  · exact bytes?_of_node? hnode
  · rw [Tree.bytes?, Tree.bytes?, hnone, hdir]

theorem Puts.bytes? {bytes : Bytes} (h : Puts here p bytes t t') (ht : t.WellFormed) (loc : Loc) :
    t'.bytes? loc = if loc = place here p then some bytes else t.bytes? loc := by
  by_cases hloc : loc = place here p
  · rw [if_pos hloc, Tree.bytes?, h.node? ht, if_pos hloc]
  · rw [if_neg hloc]
    refine bytes?_of_node? ?_
    rw [h.node? ht, if_neg hloc]

theorem replace_bytes? (h : t.WellFormed) (here : Loc) (tag : Text) (p : Path) (bytes : Bytes) :
    (t.replace here tag p bytes).1.WellFormed ∧
      ((∃ e, (t.replace here tag p bytes).2 = .error e ∧
          ∀ loc, (t.replace here tag p bytes).1.bytes? loc = t.bytes? loc) ∨
        (t.replace here tag p bytes).2 = .ok () ∧
          ∀ loc, (t.replace here tag p bytes).1.bytes? loc =
            if loc = place here p then some bytes else t.bytes? loc) := by
  obtain ⟨u, hgrows, hwell, ⟨e, hfails⟩ | ⟨t', hreplaces, hputs, -⟩⟩ :=
    replace_cases h here tag p bytes
  · rw [hfails]
    exact ⟨hwell, Or.inl ⟨e, rfl, hgrows.bytes?⟩⟩
  · rw [hreplaces]
    refine ⟨hputs.wellFormed hwell, Or.inr ⟨rfl, fun loc => ?_⟩⟩
    rw [hputs.bytes? hwell, hgrows.bytes?]

/-- A directory takes a file under the name that the path to the file ends in. -/
theorem child_name (h : t.WellFormed) (hsource : source.IsProper) {bytes : Bytes}
    (hread : t.read here source = .ok bytes) (target : Path) :
    target.child source.name = target ∨ ∃ name, IsName name ∧
      target.child source.name = ⟨target.root, target.parts ++ [name]⟩ := by
  cases hname : source.parts.getLast? with
  | none =>
      rw [Path.name, hname, Option.getD_none, Path.child, Path.join]
      exact Or.inl (congrArg (Path.mk target.root) (List.append_nil _))
  | some name =>
      obtain ⟨hlocate, hnode⟩ := read_eq_ok.mp hread
      have hparts : source.parts ≠ [] := fun heq => by
        rw [heq] at hname
        cases hname
      obtain ⟨name', hname', hdots, -⟩ := exists_name h hlocate (by rw [hnode]; simp)
        fun heq => absurd heq hparts
      obtain rfl := Option.some.inj (hname'.symm.trans hname)
      have hisName : IsName name' := ⟨hsource name' (List.mem_of_getLast? hname), hdots⟩
      refine Or.inr ⟨name', hisName, ?_⟩
      rw [Path.name, hname, Option.getD_some, Path.child_of_isPart _ hisName.isPart]

/-- A copy goes where it was to go, or into the directory there. -/
theorem place_goal (h : t.WellFormed) (hsource : source.IsProper) {bytes : Bytes}
    (hread : t.read here source = .ok bytes) (u : Tree) :
    place here (u.goal here source target) = place here target ∨
      ∃ name, place here (u.goal here source target) = place here target ++ [name] := by
  rw [goal]
  split
  · rcases child_name h hsource hread target with hchild | ⟨name, hname, hchild⟩
    · exact Or.inl (by rw [hchild])
    · refine Or.inr ⟨name, ?_⟩
      rw [hchild]
      exact place_append here target fun part hpart => List.mem_singleton.mp hpart ▸ hname
  · exact Or.inl rfl

/-- A copy never goes to what is copied. -/
theorem copy_bytes? (h : t.WellFormed) (here : Loc) (hsource : source.IsProper) (target : Path) :
    (t.copy here source target).1.WellFormed ∧
      ((∃ e, (t.copy here source target).2 = .error e ∧
          ∀ loc, (t.copy here source target).1.bytes? loc = t.bytes? loc) ∨
        (t.copy here source target).2 = .ok () ∧ ∃ bytes goal,
          t.bytes? (place here source) = some bytes ∧ goal ≠ place here source ∧
          (goal = place here target ∨ ∃ name, goal = place here target ++ [name]) ∧
          ∀ loc, (t.copy here source target).1.bytes? loc =
            if loc = goal then some bytes else t.bytes? loc) := by
  obtain ⟨u, hgrows, hwell, ⟨e, hfails⟩ | ⟨bytes, t', hcopies, hread, hputs, hother, -⟩⟩ :=
    copy_cases h here source target
  · rw [hfails]
    exact ⟨hwell, Or.inl ⟨e, rfl, hgrows.bytes?⟩⟩
  · rw [hcopies]
    refine ⟨hputs.wellFormed hwell, Or.inr ⟨rfl, bytes, _, ?_, hother, place_goal h hsource hread u,
      fun loc => ?_⟩⟩
    · exact bytes?_eq_some.mpr (read_eq_ok.mp hread).2
    · rw [hputs.bytes? hwell, hgrows.bytes?]

theorem removeTree_spares (h : t.WellFormed) (here : Loc) (p : Path) :
    (t.removeTree here p).1.WellFormed ∧
      Spares (fun loc => place here p <+: loc) t (t.removeTree here p).1 := by
  obtain ⟨hwell, hnodes⟩ := removeTree_cases h here p
  refine ⟨hwell, fun loc hloc => bytes?_of_node? ?_⟩
  exact (hnodes loc).resolve_right fun hgone => hloc hgone.2

end Tree

/-! ## Many operations -/

open Stencil.Tree (Spares place)

variable {here : Loc} {tag : Text} {P : Loc → Prop} {t : Tree} {event : Event} {events : List Event}

/-- An event can only change files at locations of a kind. -/
def Event.Within (here : Loc) (P : Loc → Prop) : Event → Prop
  | replace path _ => P (place here path)
  | copy source target =>
    source.IsProper ∧ P (place here target) ∧ ∀ name, P (place here target ++ [name])
  | removeTree path => ∀ loc, place here path <+: loc → P loc
  | _ => True

theorem Event.spares_replay (tag : Text) (ht : t.WellFormed) (h : event.Within here P) :
    (event.replay here tag t).WellFormed ∧ Spares P t (event.replay here tag t) := by
  cases event with
  | replace path bytes =>
      obtain ⟨hwell, ⟨e, -, hsame⟩ | ⟨-, hbytes⟩⟩ := Tree.replace_bytes? ht here tag path bytes
      · exact ⟨hwell, fun loc _ => hsame loc⟩
      · refine ⟨hwell, fun loc hloc => (hbytes loc).trans (if_neg ?_)⟩
        rintro rfl
        exact hloc h
  | copy source target =>
      obtain ⟨hsource, htarget, hinside⟩ := h
      obtain ⟨hwell, ⟨e, -, hsame⟩ | ⟨-, bytes, goal, -, -, hgoal, hbytes⟩⟩ :=
        Tree.copy_bytes? ht here hsource target
      · exact ⟨hwell, fun loc _ => hsame loc⟩
      · refine ⟨hwell, fun loc hloc => (hbytes loc).trans (if_neg ?_)⟩
        rintro rfl
        rcases hgoal with rfl | ⟨name, rfl⟩
        · exact hloc htarget
        · exact hloc (hinside name)
  | removeTree path =>
      obtain ⟨hwell, hspares⟩ := Tree.removeTree_spares ht here path
      exact ⟨hwell, hspares.mono h⟩
  | _ => exact ⟨ht, Spares.refl t⟩

theorem World.spares_replay (tag : Text) (ht : t.WellFormed) (h : ∀ event ∈ events, event.Within here P) :
    (World.replay here tag t events).WellFormed ∧ Spares P t (World.replay here tag t events) := by
  induction events generalizing t with
  | nil => exact ⟨ht, Spares.refl t⟩
  | cons event events ih =>
      obtain ⟨hwell, hspares⟩ := Event.spares_replay tag ht (h event List.mem_cons_self)
      obtain ⟨hwell', hspares'⟩ := ih hwell fun event he => h event (List.mem_cons_of_mem _ he)
      exact ⟨hwell', hspares.trans hspares'⟩

end Stencil
