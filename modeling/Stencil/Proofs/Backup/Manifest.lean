import Stencil.Backup.Manifest
import Stencil.Proofs.Json.ReadWrite

/-!
# Manifests read back

A manifest that can be written at all is read back as it was (`exists_of_writeBytes?`).
-/

namespace Stencil

namespace Json

theorem lookup_of_perm {members members' : List (Text × Json)} (h : members.Perm members')
    (hkeys : (members.map Prod.fst).Nodup) (key : Text) :
    members.lookup key = members'.lookup key := by
  induction h with
  | nil => rfl
  | cons member hperm ih =>
      rw [List.lookup_cons, List.lookup_cons, ih (List.nodup_cons.mp hkeys).2]
  | swap member member' members =>
      have hne : member'.1 ≠ member.1 := fun heq =>
        (List.nodup_cons.mp hkeys).1 (heq ▸ List.mem_cons_self)
      rw [List.lookup_cons, List.lookup_cons, List.lookup_cons, List.lookup_cons]
      by_cases hkey : key = member.1
      · subst hkey
        rw [beq_self_eq_true, beq_eq_false_iff_ne.mpr (Ne.symm hne)]
      · rw [beq_eq_false_iff_ne.mpr hkey]
  | trans hperm hperm' ih ih' =>
      rw [ih hkeys, ih' ((hperm.map _).nodup_iff.mp hkeys)]

theorem lookup_tidyMembers (members : List (Text × Json)) (key : Text) :
    (tidyMembers members).lookup key = (members.lookup key).map tidy := by
  induction members with
  | nil => rfl
  | cons member members ih =>
      rw [tidyMembers, List.lookup_cons, List.lookup_cons, ih]
      cases key == member.1 <;> rfl

/-- The members of an object are found under their keys as before. -/
theorem exists_tidy_object {value : Json} {members : List (Text × Json)}
    (h : value = .object members) (hkeys : (members.map Prod.fst).Nodup) :
    ∃ members', tidy value = .object members' ∧
      ∀ key, members'.lookup key = (members.lookup key).map tidy := by
  subst h
  refine ⟨_, rfl, fun key => ?_⟩
  have hperm := (sortByKey_perm (tidyMembers members)).symm
  have hkeys' : ((tidyMembers members).map Prod.fst).Nodup := by
    rw [tidyMembers_eq, List.map_map]
    exact hkeys
  rw [← lookup_of_perm hperm hkeys', lookup_tidyMembers]

end Json

open Json

namespace BackupEntry

/-- The keys of an entry. -/
def keys : List Text := ["original_path", "backup_path"]

theorem nodup_keys : keys.Nodup := by decide

theorem woven_toJson (entry : BackupEntry) : Woven 1 entry.toJson := by
  refine .object 0 _ nodup_keys fun member hmember => ?_
  rcases List.mem_cons.mp hmember with rfl | hmember
  · exact .string 0 _
  · obtain rfl := List.mem_singleton.mp hmember
    exact .string 0 _

theorem readEntry_tidy (entry : BackupEntry) :
    Manifest.readEntry (tidy entry.toJson) = .ok entry := by
  obtain ⟨members, heq, hlookup⟩ := exists_tidy_object (rfl : entry.toJson = .object _) nodup_keys
  rw [heq, Manifest.readEntry, Manifest.required, Manifest.required, hlookup, hlookup]
  rfl

end BackupEntry

namespace Manifest

/-- The keys of a manifest. -/
def keys : List Text :=
  ["manifest_version", "template_name", "run_id", "created_at", "backup_dir", "entries"]

theorem nodup_keys : keys.Nodup := by decide

theorem woven_toJson (m : Manifest) : Woven 3 m.toJson := by
  refine .object 2 _ nodup_keys fun member hmember => ?_
  simp only [List.mem_cons, List.not_mem_nil, or_false] at hmember
  rcases hmember with rfl | rfl | rfl | rfl | rfl | rfl
  · exact .string 2 _
  · exact .string 2 _
  · exact .string 2 _
  · exact .string 2 _
  · exact .string 2 _
  · refine .array 1 _ fun item hitem => ?_
    obtain ⟨entry, -, rfl⟩ := List.mem_map.mp hitem
    exact entry.woven_toJson

theorem mapM_readEntry (entries : List BackupEntry) :
    ((entries.map BackupEntry.toJson).map tidy).mapM readEntry = .ok entries := by
  induction entries with
  | nil => rfl
  | cons entry entries ih =>
      rw [List.map_cons, List.map_cons, List.mapM_cons, entry.readEntry_tidy, ih]
      rfl

theorem ofJson_tidy (m : Manifest) : ofJson (tidy m.toJson) = .ok m := by
  obtain ⟨members, heq, hlookup⟩ := exists_tidy_object (rfl : m.toJson = .object _) nodup_keys
  have hentries : readEntries (members.lookup ("entries" : Text)) = .ok m.entries := by
    rw [hlookup]
    show readEntries (some (tidy (.array (m.entries.map BackupEntry.toJson)))) = _
    rw [tidy, tidyItems_eq, readEntries, mapM_readEntry]
  rw [heq, ofJson, hentries, required, required, optional, optional, hlookup, hlookup,
    hlookup, hlookup]
  rfl

/-- A manifest that has been written is read back from the file. -/
theorem exists_of_writeBytes? {m : Manifest} {bytes : Bytes}
    (h : writeBytes? m.toJson = some bytes) :
    ∃ value, read? .file bytes = some value ∧ ofJson value = .ok m := by
  refine ⟨_, read?_of_writeBytes? m.woven_toJson ?_ h, m.ofJson_tidy⟩
  rintro limit hlimit
  obtain rfl := Option.some.inj hlimit
  decide

end Manifest

end Stencil
