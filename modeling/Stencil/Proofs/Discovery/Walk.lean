import Mathlib
import Stencil.Proofs.Discovery.Folders
import Stencil.Proofs.Text.Order

/-!
# The walk over a site

A site is searched folder by folder: first the files of a folder by name, then what is found in its
subfolders, one after the other by name. `Listed` says so, as a relation between a tree and a list,
and does not say how the list is come by. Candidates are chosen from all files at once, with the
folders on the way to each looked at, and then sorted. Both give the same list
(`candidates_listed`): the order of visits is linear, and a listing is sorted by it.
-/

namespace Stencil

namespace Tree

variable {t : Tree} {loc : Loc} {bytes : Bytes}

/-- A tree of directories and files: each is listed once, in a directory that is listed. -/
structure IsListing (t : Tree) : Prop where
  wellFormed : t.WellFormed
  nodup : (t.nodes.map Prod.fst).Nodup
  root : [] ∉ t.nodes.map Prod.fst

theorem IsListing.mem_nodes_iff (h : t.IsListing) {node : Node} :
    (loc, node) ∈ t.nodes ↔ t.nodes.lookup loc = some node := by
  have hnodup := h.nodup
  generalize t.nodes = nodes at hnodup
  induction nodes with
  | nil => simp
  | cons entry nodes ih =>
      obtain ⟨key, value⟩ := entry
      rw [List.map_cons, List.nodup_cons] at hnodup
      obtain ⟨hkey, hrest⟩ := hnodup
      by_cases hloc : loc = key
      · subst hloc
        have hnot : (loc, node) ∉ nodes := fun hm => hkey (List.mem_map.mpr ⟨_, hm, rfl⟩)
        simp [hnot, eq_comm]
      · rw [List.mem_cons, List.lookup_cons, beq_eq_false_iff_ne.mpr hloc]
        simp [hloc, ih hrest]

theorem IsListing.mem_files_iff (h : t.IsListing) :
    (loc, bytes) ∈ t.files ↔ t.bytes? loc = some bytes := by
  have hfile : (loc, bytes) ∈ t.files ↔ (loc, .file bytes) ∈ t.nodes := by
    rw [files, List.mem_filterMap]
    constructor
    · rintro ⟨⟨key, _ | found⟩, hentry, heq⟩
      · cases heq
      · obtain ⟨rfl, rfl⟩ := Prod.mk.inj (Option.some.inj heq)
        exact hentry
    · intro hentry
      exact ⟨_, hentry, rfl⟩
  rw [hfile, h.mem_nodes_iff, bytes?_eq_some, node?]
  split
  · next hnil =>
    have hnone : t.nodes.lookup loc = none := by
      rw [List.lookup_eq_none_iff]
      intro entry hentry
      refine bne_iff_ne.mpr fun heq => h.root (List.mem_map.mpr ⟨entry, hentry, ?_⟩)
      rw [← heq, hnil]
    rw [hnone]
    simp
  · rfl

/-- Where each file is listed once, a walk lists it once. -/
theorem IsListing.nodup_walk (h : t.IsListing) (here : Loc) (p : Path) (skip : Text → Bool) :
    (t.walk here p skip).Nodup := by
  have hfiles : t.files.Pairwise fun file other => file.1 ≠ other.1 := by
    rw [files, List.pairwise_filterMap]
    refine (List.pairwise_map.mp h.nodup).imp ?_
    rintro ⟨key, _ | bytes⟩ ⟨key', _ | bytes'⟩ hne _ hfile _ hother
    · cases hfile
    · cases hfile
    · cases hother
    · rw [← Option.some.inj hfile, ← Option.some.inj hother]
      exact hne
  rw [walk]
  split
  · next loc _ =>
    rw [List.nodup_iff_pairwise_ne, List.pairwise_filterMap]
    refine hfiles.imp ?_
    rintro ⟨file, _⟩ ⟨file', _⟩ hne rest hrest rest' hrest' rfl
    dsimp only at hrest hrest' hne
    split at hrest
    · next tail hprefix =>
      split at hrest'
      · next tail' hprefix' =>
        rw [List.isPrefixOf?_eq_some_iff_append_eq] at hprefix hprefix'
        rw [Option.ite_none_left_eq_some] at hrest hrest'
        refine hne ?_
        rw [← hprefix, ← hprefix', Option.some.inj hrest.2, Option.some.inj hrest'.2]
      · cases hrest'
    · cases hrest
  · exact List.nodup_nil

end Tree

namespace Discovery

variable {s : Settings} {t : Tree} {w : World} {base loc : Loc} {dirs file other : List Text}
  {found : List (List Text)}

/-! ## The order of visits -/

/-- What files are sorted by: name by name, where the last name, that of the file itself, comes
before those of folders. -/
def visitKey : List Text → List (List Nat)
  | [] => []
  | [name] => [0 :: name.map Glyph.code]
  | dir :: next :: file => (1 :: dir.map Glyph.code) :: visitKey (next :: file)

theorem visitedBy_iff :
    visitedBy file other = true ↔ (compare (visitKey file) (visitKey other)).isLE = true := by
  induction file generalizing other with
  | nil => rcases other with _ | ⟨dir', _ | ⟨next', other⟩⟩ <;> simp [visitedBy, visitKey]
  | cons dir file ih =>
      rcases file with _ | ⟨next, file⟩
      · rcases other with _ | ⟨dir', _ | ⟨next', other⟩⟩
        · simp [visitedBy, visitKey]
        · simp [visitedBy, visitKey, Text.le_iff, List.compare_cons_cons]
        · simp [visitedBy, visitKey, List.compare_cons_cons, Nat.compare_eq_lt.mpr Nat.one_pos]
      · rcases other with _ | ⟨dir', _ | ⟨next', other⟩⟩
        · simp [visitedBy, visitKey]
        · simp [visitedBy, visitKey, List.compare_cons_cons, Nat.compare_eq_gt.mpr Nat.one_pos]
        · have hcodes : dir = dir' ↔ dir.map Glyph.code = dir'.map Glyph.code :=
            (List.map_inj_right fun _ _ h => Glyph.code_injective h).symm
          rw [visitedBy, visitKey, visitKey, List.compare_cons_cons, List.compare_cons_cons,
            Nat.compare_eq_eq.mpr rfl, Ordering.eq_then]
          by_cases hdir : dir = dir'
          · rw [if_pos hdir, ih, ← hdir, Std.ReflOrd.compare_self, Ordering.eq_then]
          · have hne : compare (dir.map Glyph.code) (dir'.map Glyph.code) ≠ .eq :=
              fun heq => hdir (hcodes.mpr (Std.LawfulEqOrd.eq_of_compare heq))
            rw [if_neg hdir, Text.le_iff]
            cases hcompare : compare (dir.map Glyph.code) (dir'.map Glyph.code) with
            | lt => rfl
            | eq => exact absurd hcompare hne
            | gt => rfl
          all_goals simp

theorem visitKey_injective : Function.Injective visitKey := by
  intro file
  induction file with
  | nil =>
      intro other h
      rcases other with _ | ⟨dir', _ | ⟨next', other⟩⟩
      · rfl
      · cases h
      · cases h
  | cons dir file ih =>
      have hcodes : ∀ {dir' : Text}, dir.map Glyph.code = dir'.map Glyph.code → dir = dir' :=
        (List.map_inj_right fun _ _ h => Glyph.code_injective h).mp
      intro other h
      rcases file with _ | ⟨next, file⟩ <;>
        rcases other with _ | ⟨dir', _ | ⟨next', other⟩⟩ <;>
        simp only [visitKey, List.cons.injEq, reduceCtorEq, and_true, true_and, false_and,
          Nat.zero_ne_one, Nat.one_ne_zero] at h
      · rw [hcodes h]
      · rw [hcodes h.1, ih h.2]

theorem visitedBy_total (file other : List Text) :
    visitedBy file other = true ∨ visitedBy other file = true := by
  rw [visitedBy_iff, visitedBy_iff]
  exact isLE_total _ _

theorem visitedBy_trans {third : List Text} (h : visitedBy file other = true)
    (h' : visitedBy other third = true) : visitedBy file third = true :=
  visitedBy_iff.mpr (Std.TransCmp.isLE_trans (visitedBy_iff.mp h) (visitedBy_iff.mp h'))

theorem visitedBy_antisymm (h : visitedBy file other = true) (h' : visitedBy other file = true) :
    file = other :=
  visitKey_injective (Std.LawfulEqOrd.eq_of_compare
    (Std.OrientedCmp.isLE_antisymm (visitedBy_iff.mp h) (visitedBy_iff.mp h')))

/-! ## Listings -/

/-- Names in their order, each once. -/
def InOrder (names : List Text) : Prop :=
  names.Pairwise fun name other => Text.le name other = true ∧ name ≠ other

/-- What is found in the folder `base ++ dirs`: the accepted files of the folder itself in the order
of their names, and then what is found in each subfolder that is entered, in the order of theirs. -/
inductive Listed (s : Settings) (t : Tree) (base : Loc) :
    (dirs : List Text) → List (List Text) → Prop
  | folder {dirs : List Text} (names subs : List Text) (below : Text → List (List Text)) :
      InOrder names →
      (∀ name, name ∈ names ↔ (∃ bytes, t.bytes? (base ++ (dirs ++ [name])) = some bytes) ∧
        accepts s (Text.join "/" (dirs ++ [name])) = true) →
      InOrder subs →
      (∀ sub, sub ∈ subs ↔
        t.node? (base ++ (dirs ++ [sub])) = some .dir ∧ skipsDir s sub = false) →
      (∀ sub ∈ subs, Listed s t base (dirs ++ [sub]) (below sub)) →
      Listed s t base dirs ((names.map fun name => dirs ++ [name]) ++ subs.flatMap below)

/-- A listing holds what lies below the folder, but for what is not accepted and what lies in
folders that are not entered. -/
theorem Listed.mem_iff (h : Listed s t base dirs found) (ht : t.WellFormed) :
    file ∈ found ↔ ∃ rest, rest ≠ [] ∧ file = dirs ++ rest ∧
      (∃ bytes, t.bytes? (base ++ file) = some bytes) ∧
        (∀ dir ∈ rest.dropLast, skipsDir s dir = false) ∧
          accepts s (Text.join "/" file) = true := by
  induction h with
  | @folder dirs names subs below _ hnames _ hsubs _ ih =>
    rw [List.mem_append, List.mem_map, List.mem_flatMap]
    constructor
    · rintro (⟨name, hname, rfl⟩ | ⟨sub, hsub, hfile⟩)
      · obtain ⟨hthere, haccepts⟩ := (hnames name).mp hname
        exact ⟨[name], List.cons_ne_nil _ _, rfl, hthere, by simp, haccepts⟩
      · obtain ⟨rest, hrest, rfl, hthere, henter, haccepts⟩ := (ih sub hsub).mp hfile
        refine ⟨sub :: rest, List.cons_ne_nil _ _, by simp, hthere, fun dir hdir => ?_, haccepts⟩
        rw [List.dropLast_cons_of_ne_nil hrest, List.mem_cons] at hdir
        rcases hdir with rfl | hdir
        · exact ((hsubs dir).mp hsub).2
        · exact henter dir hdir
    · rintro ⟨rest, hrest, rfl, hthere, henter, haccepts⟩
      obtain ⟨part, rest, rfl⟩ := List.exists_cons_of_ne_nil hrest
      by_cases hlast : rest = []
      · subst hlast
        exact Or.inl ⟨part, (hnames part).mpr ⟨hthere, haccepts⟩, rfl⟩
      · obtain ⟨bytes, hbytes⟩ := hthere
        rw [List.append_cons dirs] at hbytes haccepts
        have hdir : t.node? (base ++ (dirs ++ [part])) = some .dir := by
          refine ht.dir_above hlast ?_
          rw [List.append_assoc base, Tree.bytes?_eq_some.mp hbytes]
          exact Option.some_ne_none _
        rw [List.dropLast_cons_of_ne_nil hlast] at henter
        obtain ⟨hpart, hbelow⟩ := List.forall_mem_cons.mp henter
        have hsub := (hsubs part).mpr ⟨hdir, hpart⟩
        refine Or.inr ⟨part, hsub, (ih part hsub).mpr
          ⟨rest, hlast, by simp, ⟨bytes, ?_⟩, hbelow, ?_⟩⟩
        · rwa [List.append_cons dirs]
        · rwa [List.append_cons dirs]

/-- Below the same folder, files are in the order of what follows it. -/
theorem visitedBy_append (dirs : List Text) {rest rest' : List Text} (h : rest ≠ [])
    (h' : rest' ≠ []) : visitedBy (dirs ++ rest) (dirs ++ rest') = visitedBy rest rest' := by
  induction dirs with
  | nil => rfl
  | cons dir dirs ih =>
      obtain ⟨next, tail, heq⟩ :=
        List.exists_cons_of_ne_nil (List.append_ne_nil_of_right_ne_nil dirs h)
      obtain ⟨next', tail', heq'⟩ :=
        List.exists_cons_of_ne_nil (List.append_ne_nil_of_right_ne_nil dirs h')
      rw [← ih, List.cons_append, List.cons_append, heq, heq', visitedBy, if_pos rfl]
      all_goals simp

/-- A listing is in the order of visits, and holds nothing twice. -/
theorem Listed.pairwise (h : Listed s t base dirs found) (ht : t.WellFormed) :
    found.Pairwise fun file other => visitedBy file other = true ∧ file ≠ other := by
  induction h with
  | @folder dirs names subs below hnamesOrder _ hsubsOrder _ hbelow ih =>
    have hparts : ∀ sub ∈ subs, ∀ file ∈ below sub,
        ∃ rest, rest ≠ [] ∧ file = dirs ++ sub :: rest := by
      intro sub hsub file hfile
      obtain ⟨rest, hrest, rfl, -⟩ := ((hbelow sub hsub).mem_iff ht).mp hfile
      exact ⟨rest, hrest, by simp⟩
    refine List.pairwise_append.mpr ⟨?_, ?_, ?_⟩
    · refine List.pairwise_map.mpr (hnamesOrder.imp fun {name other} hle => ?_)
      rw [visitedBy_append dirs (List.cons_ne_nil _ _) (List.cons_ne_nil _ _)]
      exact ⟨hle.1, fun heq => hle.2 (List.cons.inj (List.append_cancel_left heq)).1⟩
    · refine List.pairwise_flatMap.mpr ⟨ih, hsubsOrder.imp_of_mem ?_⟩
      rintro sub sub' hsub hsub' ⟨hle, hne⟩ file hfile file' hfile'
      obtain ⟨rest, hrest, rfl⟩ := hparts sub hsub file hfile
      obtain ⟨rest', hrest', rfl⟩ := hparts sub' hsub' file' hfile'
      obtain ⟨next, tail, rfl⟩ := List.exists_cons_of_ne_nil hrest
      obtain ⟨next', tail', rfl⟩ := List.exists_cons_of_ne_nil hrest'
      rw [visitedBy_append dirs (List.cons_ne_nil _ _) (List.cons_ne_nil _ _), visitedBy, if_neg hne]
      · exact ⟨hle, fun heq => hne (List.cons.inj (List.append_cancel_left heq)).1⟩
      all_goals simp
    · intro file hfile other hother
      obtain ⟨name, -, rfl⟩ := List.mem_map.mp hfile
      obtain ⟨sub, hsub, hother⟩ := List.mem_flatMap.mp hother
      obtain ⟨rest, hrest, rfl⟩ := hparts sub hsub other hother
      obtain ⟨next, tail, rfl⟩ := List.exists_cons_of_ne_nil hrest
      rw [visitedBy_append dirs (List.cons_ne_nil _ _) (List.cons_ne_nil _ _), visitedBy]
      refine ⟨rfl, fun heq => ?_⟩
      cases List.append_cancel_left heq

/-- The names in a folder that pass a test can be put in order. -/
theorem exists_inOrder (t : Tree) (loc : Loc) (passes : Text → Prop)
    (hthere : ∀ name, passes name → t.node? (loc ++ [name]) ≠ none) :
    ∃ names, InOrder names ∧ ∀ name, name ∈ names ↔ passes name := by
  classical
  let names := ((t.nodes.map fun entry => entry.1.getLastD []).filter passes).dedup.mergeSort
    Text.le
  refine ⟨names, ?_, fun name => ?_⟩
  · have htotal : ∀ name other : Text, (Text.le name other || Text.le other name) = true :=
      fun name other => (Bool.or_eq_true _ _).mpr (Text.le_total name other)
    have hsorted : names.Pairwise fun name other => Text.le name other = true := by
      refine List.pairwise_mergeSort ?_ htotal _
      exact fun _ _ _ => Text.le_trans
    have hnodup : names.Nodup := (List.mergeSort_perm _ _).nodup_iff.mpr (List.nodup_dedup _)
    exact hsorted.and hnodup
  · rw [List.mem_mergeSort, List.mem_dedup, List.mem_filter, decide_eq_true_eq,
      and_iff_right_iff_imp]
    intro hpasses
    have hnode := hthere name hpasses
    rw [Tree.node?, if_neg (List.append_ne_nil_of_right_ne_nil _ (List.cons_ne_nil _ _)),
      ← Option.isSome_iff_ne_none, List.lookup_isSome_iff] at hnode
    obtain ⟨entry, hentry, hkey⟩ := hnode
    refine List.mem_map.mpr ⟨entry, hentry, ?_⟩
    rw [← eq_of_beq hkey]
    simp

/-- Every folder of a tree has a listing. -/
theorem exists_listed (s : Settings) (t : Tree) (base : Loc) (dirs : List Text) :
    ∃ found, Listed s t base dirs found := by
  -- no name is longer than all that the tree lists, so the induction is on how much longer it is
  have hdepth : ∃ depth, ∀ loc, t.node? loc ≠ none → loc.length ≤ depth := by
    refine ⟨(t.nodes.map fun entry => entry.1.length).sum, fun loc hnode => ?_⟩
    rw [Tree.node?] at hnode
    split at hnode
    · next hnil => simp [hnil]
    · rw [← Option.isSome_iff_ne_none, List.lookup_isSome_iff] at hnode
      obtain ⟨entry, hentry, hkey⟩ := hnode
      rw [eq_of_beq hkey]
      exact List.le_sum_of_mem (List.mem_map.mpr ⟨entry, hentry, rfl⟩)
  obtain ⟨depth, hdepth⟩ := hdepth
  have hlevel : ∀ (levels : Nat) (dirs : List Text), depth ≤ (base ++ dirs).length + levels →
      ∃ found, Listed s t base dirs found := by
    intro levels
    induction levels with
    | zero =>
        intro dirs hle
        have hempty : ∀ name, t.node? (base ++ (dirs ++ [name])) = none := by
          intro name
          by_contra hnode
          have hlength := hdepth _ hnode
          simp only [List.length_append, List.length_singleton] at hle hlength
          omega
        refine ⟨_, .folder [] [] (fun _ => []) .nil (fun name => ?_) .nil (fun sub => ?_) ?_⟩
        · simp [Tree.bytes?, hempty]
        · simp [hempty]
        · simp
    | succ levels ih =>
        intro dirs hle
        have hbelow : ∀ sub, ∃ found, Listed s t base (dirs ++ [sub]) found := by
          intro sub
          refine ih _ ?_
          simp only [List.length_append, List.length_singleton] at hle ⊢
          omega
        choose below hbelow using hbelow
        obtain ⟨names, hnamesOrder, hnames⟩ := exists_inOrder t (base ++ dirs)
          (fun name => (∃ bytes, t.bytes? (base ++ (dirs ++ [name])) = some bytes) ∧
            accepts s (Text.join "/" (dirs ++ [name])) = true)
          (by
            rintro name ⟨⟨bytes, hbytes⟩, -⟩
            rw [List.append_assoc, Tree.bytes?_eq_some.mp hbytes]
            exact Option.some_ne_none _)
        obtain ⟨subs, hsubsOrder, hsubs⟩ := exists_inOrder t (base ++ dirs)
          (fun sub => t.node? (base ++ (dirs ++ [sub])) = some .dir ∧ skipsDir s sub = false)
          (by
            rintro sub ⟨hdir, -⟩
            rw [List.append_assoc, hdir]
            exact Option.some_ne_none _)
        exact ⟨_, .folder names subs below hnamesOrder hnames hsubsOrder hsubs
          fun sub _ => hbelow sub⟩
  exact hlevel depth dirs (Nat.le_add_left _ _)

/-! ## Candidates -/

/-- The candidates among the files below the site root `base`: some include pattern matches, no
exclude pattern does, and no folder on the way is one to skip. -/
structure IsWanted (s : Settings) (t : Tree) (base : Loc) (file : List Text) : Prop where
  isFile : ∃ bytes, t.bytes? (base ++ file) = some bytes
  included : ∃ pattern ∈ s.includePatterns, Glob.accepts pattern (Text.join "/" file) = true
  not_excluded : ∀ pattern ∈ s.excludePatterns, Glob.accepts pattern (Text.join "/" file) = false
  entered : ∀ dir ∈ file.dropLast,
    dir ∉ s.excludeDirs ∧ ∀ head ∈ s.skipDirPrefixes, ¬ head <+: dir

theorem skipsDir_eq_false_iff {name : Text} : skipsDir s name = false ↔
    name ∉ s.excludeDirs ∧ ∀ head ∈ s.skipDirPrefixes, ¬ head <+: name := by
  rw [skipsDir, Bool.or_eq_false_iff, List.any_eq_false]
  simp

theorem isWanted_iff : IsWanted s t base file ↔
    (∃ bytes, t.bytes? (base ++ file) = some bytes) ∧
      (∀ dir ∈ file.dropLast, skipsDir s dir = false) ∧
        accepts s (Text.join "/" file) = true := by
  have haccepts : accepts s (Text.join "/" file) = true ↔
      (∃ pattern ∈ s.includePatterns, Glob.accepts pattern (Text.join "/" file) = true) ∧
        ∀ pattern ∈ s.excludePatterns, Glob.accepts pattern (Text.join "/" file) = false := by
    rw [accepts, Bool.and_eq_true, List.any_eq_true, Bool.not_eq_true', List.any_eq_false]
    simp
  rw [haccepts]
  simp only [skipsDir_eq_false_iff]
  constructor
  · intro h
    exact ⟨h.isFile, h.entered, h.included, h.not_excluded⟩
  · rintro ⟨hfile, hentered, hincluded, hnot⟩
    exact ⟨hfile, hincluded, hnot, hentered⟩

theorem place_injective (s : Settings) : Function.Injective (place s) := by
  intro file other heq
  exact List.append_cancel_left (Path.mk.inj heq).2

theorem nodup_choose (hw : w.tree.IsListing) :
    (choose s (w.tree.walk w.here s.siteRoot (skipsDir s))).Nodup :=
  (List.mergeSort_perm _ _).nodup_iff.mpr ((hw.nodup_walk _ _ _).filter _)

theorem nodup_candidates (hw : w.tree.IsListing) :
    ((candidates s : Sim (List Path)).run w).1.Nodup :=
  (nodup_choose hw).map (place_injective s)

/-- In a tree that lists each file once, each candidate is found once, and nothing else is; and the
candidates come folder by folder, as the listing of the site has them. -/
theorem candidates_listed (hw : w.tree.IsListing) (hsite : w.tree.isDir w.here s.siteRoot = true) :
    ((candidates s : Sim (List Path)).run w).1.Nodup ∧
      (∀ path, path ∈ ((candidates s : Sim (List Path)).run w).1 ↔
        ∃ file, path = place s file ∧
          IsWanted s w.tree (Tree.place w.here s.siteRoot) file) ∧
      ∃ files, ((candidates s : Sim (List Path)).run w).1 = files.map (place s) ∧
        Listed s w.tree (Tree.place w.here s.siteRoot) [] files := by
  have hmem : ∀ path, path ∈ ((candidates s : Sim (List Path)).run w).1 ↔
      ∃ file, path = place s file ∧ IsWanted s w.tree (Tree.place w.here s.siteRoot) file := by
    intro path
    rw [mem_candidates_iff, and_iff_right hsite]
    simp only [isWanted_iff, hw.mem_files_iff]
  have hrun : ((candidates s : Sim (List Path)).run w).1 =
      (choose s (w.tree.walk w.here s.siteRoot (skipsDir s))).map (place s) := rfl
  obtain ⟨files, hfiles⟩ := exists_listed s w.tree (Tree.place w.here s.siteRoot) []
  have hpairwise := hfiles.pairwise hw.wellFormed
  have hperm : (choose s (w.tree.walk w.here s.siteRoot (skipsDir s))).Perm files := by
    refine (List.perm_ext_iff_of_nodup (nodup_choose hw) (hpairwise.imp And.right)).mpr fun file => ?_
    have hchosen : file ∈ choose s (w.tree.walk w.here s.siteRoot (skipsDir s)) ↔
        IsWanted s w.tree (Tree.place w.here s.siteRoot) file := by
      rw [← List.mem_map_of_injective (place_injective s), ← hrun, hmem]
      exact ⟨fun ⟨_, heq, h⟩ => place_injective s heq ▸ h, fun h => ⟨file, rfl, h⟩⟩
    rw [hchosen, hfiles.mem_iff hw.wellFormed, isWanted_iff]
    constructor
    · rintro ⟨⟨bytes, hbytes⟩, hentered, haccepts⟩
      refine ⟨file, fun hnil => ?_, rfl, ⟨bytes, hbytes⟩, hentered, haccepts⟩
      obtain ⟨-, hdir⟩ := Tree.isDir_iff.mp hsite
      rw [hnil, List.append_nil, Tree.bytes?_eq_some, hdir] at hbytes
      cases hbytes
    · rintro ⟨rest, -, rfl, hthere, hentered, haccepts⟩
      exact ⟨hthere, hentered, haccepts⟩
  have htotal : ∀ file other, (visitedBy file other || visitedBy other file) = true :=
    fun file other => (Bool.or_eq_true _ _).mpr (visitedBy_total file other)
  have hsorted : (choose s (w.tree.walk w.here s.siteRoot (skipsDir s))).Pairwise
      fun file other => visitedBy file other = true := by
    refine List.pairwise_mergeSort ?_ htotal _
    exact fun _ _ _ => visitedBy_trans
  have heq : choose s (w.tree.walk w.here s.siteRoot (skipsDir s)) = files :=
    hperm.eq_of_pairwise (fun _ _ _ _ => visitedBy_antisymm) hsorted (hpairwise.imp And.left)
  exact ⟨nodup_candidates hw, hmem, files, by rw [hrun, heq], hfiles⟩

namespace Walk

/-- A site with pages at its root and in a folder, listed in no order, and a template. -/
def world : World :=
  World.make ⟨[
    (["site", "docs", "a.html"], .file []),
    (["site", "b.html"], .file []),
    (["site"], .dir),
    (["site", "docs"], .dir),
    (["site", "Templates"], .dir),
    (["site", "Templates", "t.html"], .file []),
    (["site", "a.html"], .file [])]⟩ [] []

def settings : Settings := Settings.default ⟨.slash, ["site"]⟩

theorem candidates_listed_site : world.tree.IsListing ∧
    world.tree.isDir world.here settings.siteRoot = true ∧
    ∃ files, [Path.ofText "/site/a.html", Path.ofText "/site/b.html",
        Path.ofText "/site/docs/a.html"] = files.map (place settings) ∧
      Listed settings world.tree (Tree.place world.here settings.siteRoot) [] files := by
  have hlisting : world.tree.IsListing :=
    ⟨Tree.wellFormed_of_nodes (by decide +kernel), by decide +kernel, by decide +kernel⟩
  have hsite : world.tree.isDir world.here settings.siteRoot = true := by decide +kernel
  have hrun : ((candidates settings : Sim (List Path)).run world).1 =
      [Path.ofText "/site/a.html", Path.ofText "/site/b.html",
        Path.ofText "/site/docs/a.html"] := by
    cbv
  obtain ⟨-, -, files, hfiles, hlisted⟩ := candidates_listed (s := settings) hlisting hsite
  exact ⟨hlisting, hsite, files, hrun.symm.trans hfiles, hlisted⟩

end Walk

end Discovery

end Stencil
