import Mathlib.Data.List.Nodup
import Stencil.Proofs.Json.Lexemes
import Stencil.Proofs.Text.Bytes

/-!
# Reading what has been written

A value of texts, arrays and objects (`Woven`) is read back from what it is written as, but for the
order of the members of its objects, which are written by key (`read?_of_writeBytes?`).
-/

namespace Stencil.Json

mutual

/-- A value with the members of all its objects in the order in which they are written. -/
def tidy : Json → Json
  | array items => array (tidyItems items)
  | object members => object (sortByKey (tidyMembers members))
  | null => null
  | bool b => bool b
  | int n => int n
  | float x => float x
  | string t => string t

def tidyItems : List Json → List Json
  | [] => []
  | item :: items => tidy item :: tidyItems items

def tidyMembers : List (Text × Json) → List (Text × Json)
  | [] => []
  | (key, value) :: members => (key, tidy value) :: tidyMembers members

end

/-- A value of texts, arrays and objects, no more than so many of them within each other; no key
comes twice. -/
inductive Woven : Nat → Json → Prop
  | string (depth : Nat) (t : Text) : Woven depth (.string t)
  | array (depth : Nat) (items : List Json) (hitems : ∀ item ∈ items, Woven depth item) :
    Woven (depth + 1) (.array items)
  | object (depth : Nat) (members : List (Text × Json)) (hkeys : (members.map Prod.fst).Nodup)
    (hmembers : ∀ member ∈ members, Woven depth member.2) : Woven (depth + 1) (.object members)

theorem tidyItems_eq (items : List Json) : tidyItems items = items.map tidy := by
  induction items with
  | nil => rfl
  | cons item items ih => rw [tidyItems, ih, List.map_cons]

theorem tidyMembers_eq (members : List (Text × Json)) :
    tidyMembers members = members.map fun member => (member.1, tidy member.2) := by
  induction members with
  | nil => rfl
  | cons member members ih => rw [tidyMembers, ih, List.map_cons]

theorem writeItems_eq (level : Nat) (items : List Json) :
    writeItems level items = items.map (writeAt level) := by
  induction items with
  | nil => rfl
  | cons item items ih => rw [writeItems, ih, List.map_cons]

theorem writeMembers_eq (level : Nat) (members : List (Text × Json)) :
    writeMembers level members = members.map fun member => (member.1, writeAt level member.2) := by
  induction members with
  | nil => rfl
  | cons member members ih => rw [writeMembers, ih, List.map_cons]

theorem insertByKey_map {α β : Type} (f : α → β) (member : Text × α)
    (members : List (Text × α)) :
    insertByKey (member.1, f member.2) (members.map fun member => (member.1, f member.2)) =
      (insertByKey member members).map fun member => (member.1, f member.2) := by
  induction members with
  | nil => rfl
  | cons other members ih =>
      rw [List.map_cons, insertByKey, insertByKey]
      by_cases hle : Text.le member.1 other.1 = true
      · rw [if_pos hle, if_pos hle, List.map_cons, List.map_cons]
      · rw [if_neg hle, if_neg hle, ih, List.map_cons]

theorem sortByKey_map {α β : Type} (f : α → β) (members : List (Text × α)) :
    sortByKey (members.map fun member => (member.1, f member.2)) =
      (sortByKey members).map fun member => (member.1, f member.2) := by
  induction members with
  | nil => rfl
  | cons member members ih =>
      rw [List.map_cons, sortByKey, List.foldr_cons, ← sortByKey, ih, insertByKey_map]
      rfl

theorem insertByKey_perm {α : Type} (member : Text × α) (members : List (Text × α)) :
    (insertByKey member members).Perm (member :: members) := by
  induction members with
  | nil => exact List.Perm.refl _
  | cons other members ih =>
      rw [insertByKey]
      split
      · exact List.Perm.refl _
      · exact (ih.cons other).trans (List.Perm.swap member other members)

theorem sortByKey_perm {α : Type} (members : List (Text × α)) :
    (sortByKey members).Perm members := by
  induction members with
  | nil => exact List.Perm.refl _
  | cons member members ih => exact (insertByKey_perm member _).trans (ih.cons member)

section Reading

variable {dialect : Dialect} {depth : Nat}

/-- So many more arrays and objects may be opened. -/
def Dialect.Leaves (dialect : Dialect) (depth : Nat) (frames : List Frame) : Prop :=
  ∀ limit ∈ dialect.depth?, frames.length + depth ≤ limit

theorem Dialect.Leaves.admits {frames : List Frame} (h : dialect.Leaves (depth + 1) frames) :
    dialect.admits frames = true := by
  rw [Dialect.admits]
  split
  · rfl
  · next limit heq =>
    have hle := h limit heq
    rw [decide_eq_true_eq]
    omega

theorem Dialect.Leaves.push {frames : List Frame} (h : dialect.Leaves (depth + 1) frames)
    (frame : Frame) : dialect.Leaves depth (frame :: frames) := by
  intro limit hlimit
  have hle := h limit hlimit
  rw [List.length_cons]
  omega

/-- From these lexemes the value is put together, wherever it belongs. -/
def Builds (dialect : Dialect) (depth : Nat) (value : Json) (lexemes : List Lexeme) : Prop :=
  ∀ orClose frames more, dialect.Leaves depth frames →
    assemble? dialect (.value orClose) frames (lexemes ++ more) =
      assemble? dialect (deliver value frames).1 (deliver value frames).2 more

/-- A value is read back from what it is written as. -/
def Reads (dialect : Dialect) (depth level : Nat) (value : Json) : Prop :=
  ∃ lexemes, Lexes dialect (writeAt level value) lexemes ∧ Builds dialect depth (tidy value) lexemes

theorem deliver_array (value : Json) (items : List Json) (frames : List Frame) :
    deliver value (.array items :: frames) = (.commaOrClose, .array (value :: items) :: frames) :=
  rfl

theorem deliver_member (value : Json) (members : List (Text × Json)) (key : Text)
    (frames : List Frame) : deliver value (.member members key :: frames) =
      (.commaOrClose, .object (setMember key value members) :: frames) :=
  rfl

theorem reads_items {level : Nat} {between : Text} (hbetween : Lexes dialect between [.comma])
    {items : List Json} (hne : items ≠ [])
    (hitems : ∀ item ∈ items, Reads dialect depth level item) :
    ∃ lexemes, Lexes dialect (Text.join between (items.map (writeAt level))) lexemes ∧
      ∀ orClose done frames more, dialect.Leaves depth (.array done :: frames) →
        assemble? dialect (.value orClose) (.array done :: frames)
            (lexemes ++ .closeArray :: more) =
          assemble? dialect (deliver (.array (done.reverse ++ items.map tidy)) frames).1
            (deliver (.array (done.reverse ++ items.map tidy)) frames).2 more := by
  induction items with
  | nil => exact absurd rfl hne
  | cons item items ih =>
      obtain ⟨ls, hlexes, hbuilds⟩ := hitems item List.mem_cons_self
      cases items with
      | nil =>
          refine ⟨ls, hlexes, fun orClose done frames more hleaves => ?_⟩
          rw [hbuilds _ _ _ hleaves, deliver_array]
          simp only [assemble?, step?, List.reverse_cons, List.map_cons, List.map_nil]
      | cons next items =>
          obtain ⟨ms, hlexes', hbuilds'⟩ := ih (List.cons_ne_nil _ _)
            fun item h => hitems item (List.mem_cons_of_mem _ h)
          refine ⟨ls ++ [.comma] ++ ms, ?_, fun orClose done frames more hleaves => ?_⟩
          · rw [List.map_cons, List.map_cons, Text.join]
            · exact (hlexes.append hbetween).append hlexes'
            · exact List.cons_ne_nil _ _
          rw [List.append_assoc, List.append_assoc, hbuilds _ _ _ hleaves, deliver_array]
          simp only [List.singleton_append, assemble?, step?]
          rw [hbuilds' false (tidy item :: done) frames more hleaves, List.reverse_cons,
            List.append_assoc]
          rfl

theorem setMember_eq {key : Text} {value : Json} {members : List (Text × Json)}
    (h : key ∉ members.map Prod.fst) : setMember key value members = members ++ [(key, value)] := by
  induction members with
  | nil => rfl
  | cons member members ih =>
      obtain ⟨hne, hmem⟩ := not_or.mp (mt List.mem_cons.mpr h)
      rw [setMember, if_neg (Ne.symm hne), ih hmem, List.cons_append]

/-- How a member is written. -/
def writeMember (level : Nat) (member : Text × Json) : Text :=
  Text.concat [writeString member.1, ": ", writeAt level member.2]

theorem lexes_writeMember {level : Nat} {member : Text × Json} {ls : List Lexeme}
    (h : Lexes dialect (writeAt level member.2) ls) :
    Lexes dialect (writeMember level member) (.string member.1 :: .colon :: ls) := by
  have happend := (lexes_writeString member.1).append (lexes_colon.append h)
  rw [writeMember, Text.concat, List.flatten_cons, List.flatten_cons, List.flatten_singleton]
  exact happend

theorem reads_members {level : Nat} {between : Text} (hbetween : Lexes dialect between [.comma])
    {members : List (Text × Json)} (hne : members ≠ [])
    (hmembers : ∀ member ∈ members, Reads dialect depth level member.2) :
    ∃ lexemes, Lexes dialect (Text.join between (members.map (writeMember level))) lexemes ∧
      ∀ orClose done frames more, dialect.Leaves depth (.object done :: frames) →
        ((done ++ members).map Prod.fst).Nodup →
        assemble? dialect (.key orClose) (.object done :: frames)
            (lexemes ++ .closeObject :: more) =
          assemble? dialect
            (deliver (.object (done ++ members.map fun m => (m.1, tidy m.2))) frames).1
            (deliver (.object (done ++ members.map fun m => (m.1, tidy m.2))) frames).2 more := by
  induction members with
  | nil => exact absurd rfl hne
  | cons member members ih =>
      obtain ⟨ls, hlexes, hbuilds⟩ := hmembers member List.mem_cons_self
      have hlexesMember := lexes_writeMember hlexes
      have hset : ∀ {done}, ((done ++ member :: members).map Prod.fst).Nodup →
          setMember member.1 (tidy member.2) done = done ++ [(member.1, tidy member.2)] := by
        intro done hkeys
        refine setMember_eq fun hmem => ?_
        rw [List.map_append, List.nodup_append] at hkeys
        exact hkeys.2.2 _ hmem _ List.mem_cons_self rfl
      have hfirst : ∀ orClose done frames more, dialect.Leaves depth (.object done :: frames) →
          ((done ++ member :: members).map Prod.fst).Nodup →
          assemble? dialect (.key orClose) (.object done :: frames)
            (.string member.1 :: .colon :: ls ++ more) =
          assemble? dialect .commaOrClose
            (.object (done ++ [(member.1, tidy member.2)]) :: frames) more := by
        intro orClose done frames more hleaves hkeys
        simp only [List.cons_append, assemble?, step?]
        rw [hbuilds false (.member done member.1 :: frames) more hleaves, deliver_member,
          hset hkeys]
      cases members with
      | nil =>
          refine ⟨_, hlexesMember, fun orClose done frames more hleaves hkeys => ?_⟩
          rw [hfirst _ _ _ _ hleaves hkeys]
          simp only [assemble?, step?, List.map_cons, List.map_nil]
      | cons next members =>
          obtain ⟨ms, hlexes', hbuilds'⟩ := ih (List.cons_ne_nil _ _)
            fun member h => hmembers member (List.mem_cons_of_mem _ h)
          refine ⟨(.string member.1 :: .colon :: ls) ++ [.comma] ++ ms, ?_,
            fun orClose done frames more hleaves hkeys => ?_⟩
          · rw [List.map_cons, List.map_cons, Text.join]
            · exact (hlexesMember.append hbetween).append hlexes'
            · exact List.cons_ne_nil _ _
          rw [List.append_assoc, List.append_assoc, hfirst _ _ _ _ hleaves hkeys]
          simp only [List.singleton_append, assemble?, step?]
          rw [hbuilds' false (done ++ [(member.1, tidy member.2)]) frames more hleaves
            (by simpa using hkeys), List.append_assoc]
          rfl

theorem Woven.reads {value : Json} (h : Woven depth value) :
    ∀ level, Reads dialect depth level value := by
  induction h with
  | string depth t =>
      intro level
      refine ⟨[.string t], lexes_writeString t, fun orClose frames more _ => ?_⟩
      simp only [List.singleton_append, assemble?, step?, tidy]
  | array depth items hitems ih =>
      intro level
      cases items with
      | nil =>
          refine ⟨[.openArray, .closeArray], lexes_openArray.append lexes_closeArray,
            fun orClose frames more hleaves => ?_⟩
          simp only [List.cons_append, List.nil_append, assemble?, step?, hleaves.admits, if_true,
            List.reverse_nil, tidy, tidyItems]
      | cons item items =>
          have hbetween : Lexes dialect (.char ',' :: indent (level + 1)) [.comma] :=
            lexes_comma.append (lexes_indent _)
          obtain ⟨ls, hlexes, hbuilds⟩ := reads_items hbetween (List.cons_ne_nil item items)
            fun item hitem => ih item hitem (level + 1)
          refine ⟨.openArray :: (ls ++ [.closeArray]), ?_, fun orClose frames more hleaves => ?_⟩
          · have happend := lexes_openArray.append ((lexes_indent (level + 1)).append
              (hlexes.append ((lexes_indent level).append lexes_closeArray)))
            rw [writeAt, writeItems_eq]
            · simpa [Text.concat] using happend
            · exact List.cons_ne_nil _ _
          · simp only [List.cons_append, assemble?, step?, hleaves.admits, if_true]
            rw [List.append_assoc, List.singleton_append,
              hbuilds true [] frames more (hleaves.push _), tidy, tidyItems_eq]
            rfl
  | object depth members hkeys hmembers ih =>
      intro level
      cases members with
      | nil =>
          refine ⟨[.openObject, .closeObject], lexes_openObject.append lexes_closeObject,
            fun orClose frames more hleaves => ?_⟩
          simp only [List.cons_append, List.nil_append, assemble?, step?, hleaves.admits, if_true,
            tidy, tidyMembers, sortByKey, List.foldr_nil]
      | cons member members =>
          have hperm := sortByKey_perm (member :: members)
          have hne : sortByKey (member :: members) ≠ [] := fun h =>
            List.cons_ne_nil _ _ (List.perm_nil.mp (h ▸ hperm).symm)
          have hbetween : Lexes dialect (.char ',' :: indent (level + 1)) [.comma] :=
            lexes_comma.append (lexes_indent _)
          obtain ⟨ls, hlexes, hbuilds⟩ := reads_members hbetween hne
            fun member hmember => ih member (hperm.mem_iff.mp hmember) (level + 1)
          refine ⟨.openObject :: (ls ++ [.closeObject]), ?_, fun orClose frames more hleaves => ?_⟩
          · have happend := lexes_openObject.append ((lexes_indent (level + 1)).append
              (hlexes.append ((lexes_indent level).append lexes_closeObject)))
            rw [writeAt, writeMembers_eq, sortByKey_map, List.map_map]
            · show Lexes dialect (Text.concat ["\x7b", indent (level + 1), Text.join _
                ((sortByKey _).map (writeMember (level + 1))), indent level, "\x7d"]) _
              simpa [Text.concat] using happend
            · exact List.cons_ne_nil _ _
          · simp only [List.cons_append, assemble?, step?, hleaves.admits, if_true]
            rw [List.append_assoc, List.singleton_append,
              hbuilds true [] frames more (hleaves.push _) ((hperm.map _).nodup_iff.mpr hkeys), tidy,
              tidyMembers_eq, sortByKey_map]
            rfl

end Reading

/-- What has been written to a file is read back from it. -/
theorem read?_of_writeBytes? {dialect : Dialect} {depth : Nat} {value : Json} {bytes : Bytes}
    (hvalue : Woven depth value) (hdepth : dialect.Leaves depth [])
    (h : writeBytes? value = some bytes) : read? dialect bytes = some (tidy value) := by
  unfold writeBytes? at h
  dsimp only at h
  split at h
  · next hplain =>
    obtain rfl := Option.some.inj h
    have hreads : Reads dialect depth 0 value := hvalue.reads 0
    obtain ⟨ls, hlexes, hbuilds⟩ := hreads
    have hlex : lexFrom? dialect 0 (write value) = some ls := by
      have hnil := hlexes []
      rw [List.append_nil] at hnil
      rw [write, hnil, lexFrom?, Option.map_some, List.append_nil]
    have hbuild := hbuilds false [] [] hdepth
    rw [List.append_nil] at hbuild
    unfold read?
    dsimp only
    rw [Text.decode_encode hplain, if_pos hplain]
    show (lexFrom? dialect 0 (write value)).bind _ = _
    rw [hlex, Option.bind_some, hbuild, deliver, assemble?]
  · cases h

end Stencil.Json
