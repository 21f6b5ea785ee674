import Stencil.Disk.Tree
import Stencil.Proofs.Disk.Paths

/-!
# Where paths lead

What lies at a location after a change (`node?_put`, `node?_erase`, `node?_eraseBelow`), and where
a path leads. A path that can be followed leads to where its double dots say (`place_of_locate`), and
it can be followed just when all directories on its way are there (`follow_of_dirs`,
`dirs_of_follow`).
-/

namespace Stencil

open Stencil.Path (IsName collapse parentName)

namespace Tree

variable {t t' : Tree} {here loc : Loc} {p : Path}

/-! ## Nodes -/

theorem node?_put (t : Tree) {loc : Loc} (hloc : loc ≠ []) (node : Node) (other : Loc) :
    (t.put loc node).node? other = if other = loc then some node else t.node? other := by
  by_cases h : other = loc
  · rw [if_pos h, h, node?_put_self t loc node hloc]
  · rw [if_neg h, node?_put_of_ne t loc other node h]

theorem lookup_filter (nodes : List (Loc × Node)) (keep : Loc → Bool) (other : Loc) :
    (nodes.filter fun entry => keep entry.1).lookup other =
      if keep other then nodes.lookup other else none := by
  induction nodes with
  | nil => simp
  | cons entry nodes ih =>
      obtain ⟨key, node⟩ := entry
      by_cases hkey : other = key
      · subst hkey
        cases hkeep : keep other with
        | true => simp [hkeep]
        | false => simp [hkeep, ih]
      · have hne : (other == key) = false := beq_eq_false_iff_ne.mpr hkey
        cases hkeep : keep key with
        | true => simp [hkeep, List.lookup_cons, hne, ih]
        | false => simp [hkeep, List.lookup_cons, hne, ih]

theorem node?_erase (t : Tree) {loc : Loc} (hloc : loc ≠ []) (other : Loc) :
    (t.erase loc).node? other = if other = loc then none else t.node? other := by
  rw [node?, node?, erase]
  by_cases hother : other = []
  · rw [if_pos hother, if_neg (fun h => hloc (h.symm.trans hother)), if_pos hother]
  · have hfilter := lookup_filter t.nodes (fun key => decide (key ≠ loc)) other
    rw [if_neg hother, hfilter]
    by_cases h : other = loc
    · simp [h]
    · simp [h, hother]

theorem node?_eraseBelow (t : Tree) (loc other : Loc) :
    (t.eraseBelow loc).node? other = if isBelow loc other then none else t.node? other := by
  rw [node?, node?, eraseBelow]
  by_cases hother : other = []
  · subst hother
    simp [isBelow]
  · rw [if_neg hother, if_neg hother,
      lookup_filter t.nodes (fun key => !isBelow loc key) other]
    cases isBelow loc other <;> rfl

theorem isBelow_iff {above loc : Loc} : isBelow above loc = true ↔
    ∃ rest, rest ≠ [] ∧ loc = above ++ rest := by
  rw [isBelow, Bool.and_eq_true, List.isPrefixOf_iff_prefix, decide_eq_true_eq]
  constructor
  · rintro ⟨⟨rest, rfl⟩, hlength⟩
    refine ⟨rest, fun h => ?_, rfl⟩
    rw [h, List.append_nil] at hlength
    omega
  · rintro ⟨rest, hrest, rfl⟩
    have := List.length_pos_iff.mpr hrest
    refine ⟨List.prefix_append _ _, ?_⟩
    rw [List.length_append]
    omega

/-- Whatever is there is in a directory. -/
def WellFormed (t : Tree) : Prop :=
  ∀ loc part, t.node? (loc ++ [part]) ≠ none → t.node? loc = some .dir

theorem wellFormed_of_nodes (h : ∀ entry ∈ t.nodes, t.node? entry.1.dropLast = some .dir) :
    t.WellFormed := by
  intro loc part hnode
  rw [node?, if_neg (List.append_ne_nil_of_right_ne_nil _ (List.cons_ne_nil _ _)), ← Option.isSome_iff_ne_none,
    List.lookup_isSome_iff] at hnode
  obtain ⟨entry, hentry, hkey⟩ := hnode
  have hdir := h entry hentry
  rwa [← eq_of_beq hkey, List.dropLast_concat] at hdir

/-- Where nothing is listed nothing is. -/
theorem node?_append_eq_none (h : ∀ entry ∈ t.nodes, ¬ loc <+: entry.1) (hloc : loc ≠ [])
    (parts : List Text) : t.node? (loc ++ parts) = none := by
  rw [node?, if_neg (List.append_ne_nil_of_left_ne_nil hloc _), List.lookup_eq_none_iff]
  intro entry hentry
  refine bne_iff_ne.mpr fun heq => h entry hentry ?_
  rw [← heq]
  exact List.prefix_append _ _

theorem WellFormed.dir_above (h : t.WellFormed) {rest : List Text} (hrest : rest ≠ [])
    (hnode : t.node? (loc ++ rest) ≠ none) : t.node? loc = some .dir := by
  induction rest using List.reverseRecOn with
  | nil => exact absurd rfl hrest
  | append_singleton init part ih =>
      rw [← List.append_assoc] at hnode
      have hdir := h _ _ hnode
      cases init with
      | nil => rwa [List.append_nil] at hdir
      | cons next init =>
          refine ih (List.cons_ne_nil _ _) ?_
          rw [hdir]
          exact Option.some_ne_none _

theorem WellFormed.put_dir (h : t.WellFormed) {name : Text} {node : Node}
    (hdir : t.node? loc = some .dir) (hfree : t.node? (loc ++ [name]) = none) :
    (t.put (loc ++ [name]) node).WellFormed := by
  intro other part hnode
  have hne : other ≠ loc ++ [name] := by
    rintro rfl
    rw [node?_put_of_ne _ _ _ _ (by simp)] at hnode
    have hthere := h _ _ hnode
    rw [hfree] at hthere
    cases hthere
  rw [node?_put_of_ne _ _ _ _ hne]
  by_cases heq : other ++ [part] = loc ++ [name]
  · rw [(List.append_inj' heq rfl).1, hdir]
  · rw [node?_put_of_ne _ _ _ _ heq] at hnode
    exact h _ _ hnode

theorem WellFormed.put_file (h : t.WellFormed) {name : Text} {bytes : Bytes}
    (hdir : t.node? loc = some .dir) (hfree : t.node? (loc ++ [name]) ≠ some .dir) :
    (t.put (loc ++ [name]) (.file bytes)).WellFormed := by
  intro other part hnode
  have hne : other ≠ loc ++ [name] := by
    rintro rfl
    rw [node?_put_of_ne _ _ _ _ (by simp)] at hnode
    exact hfree (h _ _ hnode)
  rw [node?_put_of_ne _ _ _ _ hne]
  by_cases heq : other ++ [part] = loc ++ [name]
  · rw [(List.append_inj' heq rfl).1, hdir]
  · rw [node?_put_of_ne _ _ _ _ heq] at hnode
    exact h _ _ hnode

/-! ## Following paths -/

/-- Where a path is counted from. -/
def start (here : Loc) (p : Path) : Loc := if p.isAbsolute then [] else here

/-- Where a path leads if it can be followed. -/
def place (here : Loc) (p : Path) : Loc := collapse (start here p) p.parts

theorem locate_eq (t : Tree) (here : Loc) (p : Path) :
    t.locate here p = t.follow (start here p) p.parts := rfl

theorem collapse_cons (loc : Loc) (part : Text) (parts : List Text) :
    collapse loc (part :: parts) = collapse (into loc part) parts := by
  rw [collapse, into]
  by_cases h : part = parentName
  · rw [if_pos h, if_pos h]
  · rw [if_neg h, if_neg h]

theorem follow_cons {part : Text} {parts : List Text} {target : Loc} :
    t.follow loc (part :: parts) = .ok target ↔
      t.node? loc = some .dir ∧ t.follow (into loc part) parts = .ok target := by
  rw [follow]
  split
  · next heq => simp [heq]
  · next heq => simp [heq]
  · next heq => simp [heq]

theorem eq_collapse_of_follow {parts : List Text} {target : Loc}
    (h : t.follow loc parts = .ok target) : target = collapse loc parts := by
  induction parts generalizing loc with
  | nil => exact (Except.ok.inj h).symm
  | cons part parts ih => rw [collapse_cons, ih (follow_cons.mp h).2]

theorem place_of_locate {target : Loc} (h : t.locate here p = .ok target) :
    target = place here p :=
  eq_collapse_of_follow h

theorem follow_append {parts parts' : List Text} {target : Loc} :
    t.follow loc (parts ++ parts') = .ok target ↔
      t.follow loc parts = .ok (collapse loc parts) ∧
        t.follow (collapse loc parts) parts' = .ok target := by
  induction parts generalizing loc with
  | nil => simp [follow, collapse]
  | cons part parts ih =>
      rw [List.cons_append, follow_cons, ih, follow_cons, collapse_cons, and_assoc]

/-- A path can be followed where all directories on its way are. -/
theorem follow_of_dirs {parts : List Text}
    (h : ∀ q, q <+: parts → q ≠ parts → t.node? (collapse loc q) = some .dir) :
    t.follow loc parts = .ok (collapse loc parts) := by
  induction parts generalizing loc with
  | nil => rfl
  | cons part parts ih =>
      rw [follow_cons, collapse_cons]
      refine ⟨h [] List.nil_prefix (List.cons_ne_nil _ _).symm, ih fun q hq hne => ?_⟩
      have hdir := h (part :: q) ((List.cons_prefix_cons).mpr ⟨rfl, hq⟩)
        fun heq => hne (List.cons.inj heq).2
      rwa [collapse_cons] at hdir

theorem dirs_of_follow {parts : List Text} {target : Loc} (h : t.follow loc parts = .ok target)
    {q : List Text} (hq : q <+: parts) (hne : q ≠ parts) :
    t.node? (collapse loc q) = some .dir := by
  obtain ⟨rest, rfl⟩ := hq
  cases rest with
  | nil => exact absurd (List.append_nil q).symm hne
  | cons part rest => exact (follow_cons.mp (follow_append.mp h).2).1

/-- What lies in a well-formed disk can be reached. -/
theorem WellFormed.follow (h : t.WellFormed) {parts : List Text} (hdots : parentName ∉ parts)
    (hnode : t.node? (loc ++ parts) ≠ none) : t.follow loc parts = .ok (loc ++ parts) := by
  rw [← Path.collapse_of_not_mem hdots loc]
  refine follow_of_dirs fun q hq hne => ?_
  obtain ⟨rest, rfl⟩ := hq
  rw [Path.collapse_of_not_mem fun hmem => hdots (List.mem_append_left _ hmem)]
  rw [← List.append_assoc] at hnode
  refine h.dir_above (fun hrest => hne ?_) hnode
  rw [hrest, List.append_nil]

theorem look_eq_ok {target : Loc} {node : Node} : t.look here p = .ok (target, node) ↔
    target = place here p ∧ t.locate here p = .ok (place here p) ∧
      t.node? (place here p) = some node := by
  rw [look]
  cases hlocate : t.locate here p with
  | error errno => simp [bind, Except.bind]
  | ok found =>
      obtain rfl := place_of_locate hlocate
      cases hnode : t.node? (place here p) with
      | none => simp [bind, Except.bind, hnode]
      | some other => simp [bind, Except.bind, hnode, pure, Except.pure, eq_comm]

theorem isDir_iff : t.isDir here p = true ↔
    t.locate here p = .ok (place here p) ∧ t.node? (place here p) = some .dir := by
  rw [isDir]
  constructor
  · intro h
    split at h
    · next loc hlook =>
      exact (look_eq_ok.mp hlook).2
    · cases h
  · intro h
    rw [look_eq_ok.mpr ⟨rfl, h⟩]

theorem isFile_iff : t.isFile here p = true ↔ t.locate here p = .ok (place here p) ∧
    ∃ bytes, t.node? (place here p) = some (.file bytes) := by
  rw [isFile]
  constructor
  · intro h
    split at h
    · next loc bytes hlook =>
      obtain ⟨-, hlocate, hnode⟩ := look_eq_ok.mp hlook
      exact ⟨hlocate, bytes, hnode⟩
    · cases h
  · rintro ⟨hlocate, bytes, hnode⟩
    rw [look_eq_ok.mpr ⟨rfl, hlocate, hnode⟩]

theorem read_eq_ok {bytes : Bytes} : t.read here p = .ok bytes ↔
    t.locate here p = .ok (place here p) ∧ t.node? (place here p) = some (.file bytes) := by
  rw [read]
  constructor
  · intro h
    split at h
    · cases h
    · cases h
    · next loc found hlook =>
      rw [← Except.ok.inj h]
      exact (look_eq_ok.mp hlook).2
  · intro h
    rw [look_eq_ok.mpr ⟨rfl, h⟩]

theorem bytes?_eq_some {bytes : Bytes} :
    t.bytes? loc = some bytes ↔ t.node? loc = some (.file bytes) := by
  rw [bytes?]
  constructor
  · intro h
    split at h
    · next heq => rw [heq, Option.some.inj h]
    · cases h
  · intro h
    rw [h]

/-! ## Places -/

/-- A path that can be read leads through names. -/
theorem isName_of_mem_place (hhere : ∀ part ∈ here, IsName part) (hp : p.IsProper) :
    ∀ part ∈ place here p, IsName part := by
  have hstart : ∀ part ∈ start here p, IsName part := by
    rw [start]
    split
    · exact fun part hpart => by cases hpart
    · exact hhere
  intro part hpart
  have hdots : parentName ∉ place here p :=
    Path.parentName_not_mem_collapse (Path.parentName_not_mem hstart)
  refine ⟨?_, fun heq => hdots (heq ▸ hpart)⟩
  rcases Path.mem_collapse hpart with hpart | hpart
  · exact (hstart part hpart).isPart
  · exact hp part hpart

/-- Names behind a path lead down from where it leads. -/
theorem place_append (here : Loc) (p : Path) {parts : List Text}
    (h : ∀ part ∈ parts, IsName part) :
    place here ⟨p.root, p.parts ++ parts⟩ = place here p ++ parts := by
  rw [place, Path.collapse_append, Path.collapse_of_not_mem (Path.parentName_not_mem h)]
  rfl

end Tree

end Stencil
