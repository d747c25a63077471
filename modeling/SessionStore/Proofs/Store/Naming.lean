import SessionStore.Proofs.Store.FileName

/-! # Ids and their paths

The path for an id is that of a name right inside of the directory. Two ids share a path only if one
digest names the files of both, even where capital letters are not told from small ones. No entry
ever has the path at which contents are written before they become an entry.
-/

namespace SessionStore

namespace FileStore

variable {f : FileStore} {a b : String}

/-- The path for an id up to the dot before the extension. -/
def stemPath (f : FileStore) (id : String) : String := Path.join f.directory (stem id)

/-- The path for an id as it looks if the ASCII letters before the extension are made small. -/
def folded (f : FileStore) (id : String) : String :=
  (f.stemPath id).map Char.toLower ++ ("." ++ f.extension)

theorem pathFor_eq (f : FileStore) (id : String) :
    f.pathFor id = f.stemPath id ++ ("." ++ f.extension) := by
  rw [pathFor, fileName, stemPath, String.append_assoc, Path.join_append]

/-- Stems have no capital letters. -/
theorem IsStemChar.toLower_eq {c : Char} (h : IsStemChar c) : c.toLower = c := by
  have hupper : ¬('A' ≤ c ∧ c ≤ 'Z') := by
    rintro ⟨hA, hZ⟩
    have hsmall : ¬ 'a' ≤ c := fun ha => absurd (Char.le_trans ha hZ) (by decide)
    have hdigit : ¬c ≤ '9' := fun h9 => absurd (Char.le_trans hA h9) (by decide)
    rcases h with h | rfl
    · rcases isPlainChar_iff.mp h with ⟨ha, -⟩ | ⟨-, h9⟩ | rfl | rfl
      · exact hsmall ha
      · exact hdigit h9
      · exact absurd hA (by decide)
      · exact absurd hZ (by decide)
    · exact absurd hZ (by decide)
  exact dif_neg hupper

theorem map_toLower_stem (id : String) : (stem id).toList.map Char.toLower = (stem id).toList := by
  have hsame : (stem id).toList.map Char.toLower = (stem id).toList.map fun c => c :=
    List.map_congr_left fun c hc => (isStemChar_of_mem hc).toLower_eq
  rw [hsame, List.map_id']

theorem folded_eq_iff : f.folded a = f.folded b ↔ a = b ∨ SameDigest a b := by
  rw [← stem_eq_iff]
  constructor
  · intro h
    obtain ⟨front, hfront⟩ := Path.exists_toList_join f.directory
    have htext := congrArg String.toList h
    simp only [folded, stemPath, String.toList_append, String.toList_map, hfront, List.map_append,
      map_toLower_stem] at htext
    rw [List.append_assoc, List.append_assoc] at htext
    exact String.toList_inj.mp (List.append_cancel_right (List.append_cancel_left htext))
  · intro h
    rw [folded, folded, stemPath, stemPath, h]

/-- The path for an id is right inside of the directory, with a name that has a bound, and ends in
the extension. It is the path for another id only if neither names its own file and their digests
agree, and where contents are written before they become an entry there is no entry. -/
theorem paths_apart (hslash : '/' ∉ f.extension.toList) (hnul : '\x00' ∉ f.extension.toList)
    (a b : String) :
    Path.IsChild f.directory (f.fileName a) (f.pathFor a) ∧
      (f.fileName a).utf8ByteSize ≤ f.extension.utf8ByteSize + 201 ∧
      f.pathFor a = f.stemPath a ++ ("." ++ f.extension) ∧
      (f.pathFor a = f.pathFor b ↔ a = b ∨ SameDigest a b) ∧
      (f.folded a = f.folded b ↔ a = b ∨ SameDigest a b) ∧
      temporary (f.pathFor a) ≠ f.pathFor b := by
  have hname := f.fileName_append_ne a ""
  rw [String.append_empty] at hname
  refine ⟨?_, utf8ByteSize_fileName_le f a, f.pathFor_eq a, ?_, folded_eq_iff, ?_⟩
  · exact Path.isChild_join f.directory (isSimple_fileName hslash hnul a) hname.1 hname.2
  · rw [pathFor, pathFor, Path.join_inj, fileName_eq_iff]
  · rw [temporary_pathFor, pathFor, Ne, Path.join_inj]
    exact f.temporaryName_ne a b

/-- An id that climbs and a capital letter, with an extension that looks unfinished. -/
theorem paths_apart_climbing :
    let f : FileStore := ⟨"s", "a.tmp"⟩
    '/' ∉ f.extension.toList ∧ '\x00' ∉ f.extension.toList ∧
      Path.IsChild "s" (f.fileName "../K") (f.pathFor "../K") ∧ f.folded "../K" ≠ f.folded "k" ∧
      temporary (f.pathFor "../K") ≠ f.pathFor "k" := by
  intro f
  have hslash : '/' ∉ f.extension.toList := by decide
  have hnul : '\x00' ∉ f.extension.toList := by decide
  obtain ⟨hchild, -, -, -, hfolded, htemporary⟩ := paths_apart hslash hnul "../K" "k"
  refine ⟨hslash, hnul, hchild, ?_, htemporary⟩
  rw [Ne, hfolded]
  rintro (h | ⟨-, h, -⟩) <;> revert h <;> decide

end FileStore

end SessionStore
