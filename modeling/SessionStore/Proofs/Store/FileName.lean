import SessionStore.Proofs.Disk.Directory
import SessionStore.Store.Files

/-! # The names of entry files

Ids with different digests have different files. The name of a file fits into any directory whose
path leaves room for it, has the extension of entries, and is never that of unfinished contents.
-/

namespace SessionStore

namespace Digest

theorem length_bigEndian (n x : Nat) : (bigEndian n x).length = n := by
  induction n with
  | zero => rfl
  | succ n ih => simp [bigEndian, ih]

theorem length_sha256 (m : Bytes) : (sha256 m).length = 32 := by
  simp [sha256, State.bytes, length_bigEndian]

theorem length_hex (bs : Bytes) : (hex bs).length = 2 * bs.length := by
  induction bs with
  | nil => rfl
  | cons b bs ih =>
    simp only [hex, List.flatMap_cons, List.length_append, List.length_cons,
      List.length_nil] at ih ⊢
    omega

theorem digitChar_inj {m n : Nat} (hm : m < 16) (hn : n < 16)
    (h : Nat.digitChar m = Nat.digitChar n) : m = n := by
  have hall : ∀ i : Fin 16, ∀ j : Fin 16, Nat.digitChar i = Nat.digitChar j → i = j := by decide
  exact congrArg Fin.val (hall ⟨m, hm⟩ ⟨n, hn⟩ h)

theorem hex_inj {bs cs : Bytes} (h : hex bs = hex cs) : bs = cs := by
  induction bs generalizing cs with
  | nil =>
    cases cs with
    | nil => rfl
    | cons c cs => simp [hex] at h
  | cons b bs ih =>
    cases cs with
    | nil => simp [hex] at h
    | cons c cs =>
      simp only [hex, List.flatMap_cons, List.cons_append, List.nil_append, List.cons.injEq] at h
      obtain ⟨hhigh, hlow, hrest⟩ := h
      have hb := b.toNat_lt
      have hc := c.toNat_lt
      have h₁ := digitChar_inj (by omega) (by omega) hhigh
      have h₂ := digitChar_inj (by omega) (by omega) hlow
      rw [ih hrest, UInt8.toNat_inj.mp (show b.toNat = c.toNat by omega)]

end Digest

namespace FileStore

variable {f : FileStore} {id : String} {c : Char}

/-- An extension that file names can have: short, and without dots, slashes and NUL characters. -/
structure HasExtension (f : FileStore) : Prop where
  nonempty : f.extension ≠ ""
  short : f.extension.utf8ByteSize ≤ 50
  no_dot : '.' ∉ f.extension.toList
  no_slash : '/' ∉ f.extension.toList
  no_nul : '\x00' ∉ f.extension.toList

/-- An extension, dots in it allowed, with which file names stay short and in one piece. -/
structure FitExtension (f : FileStore) : Prop where
  short : f.extension.utf8ByteSize ≤ 50
  no_slash : '/' ∉ f.extension.toList
  no_nul : '\x00' ∉ f.extension.toList

theorem HasExtension.fit (h : f.HasExtension) : f.FitExtension := ⟨h.short, h.no_slash, h.no_nul⟩

theorem isPlainChar_iff :
    isPlainChar c = true ↔
      ('a' ≤ c ∧ c ≤ 'z') ∨ ('0' ≤ c ∧ c ≤ '9') ∨ c = '-' ∨ c = '_' := by
  simp [isPlainChar, or_assoc]

theorem isPlainChar_digitChar {n : Nat} (h : n < 16) : isPlainChar (Nat.digitChar n) = true := by
  have hall : ∀ i : Fin 16, isPlainChar (Nat.digitChar i) = true := by decide
  exact hall ⟨n, h⟩

/-- The characters that stems are made of. -/
def IsStemChar (c : Char) : Prop := isPlainChar c = true ∨ c = '~'

theorem isPlainChar_hex {bs : Bytes} (h : c ∈ Digest.hex bs) : isPlainChar c = true := by
  simp only [Digest.hex, List.mem_flatMap, List.mem_cons, List.not_mem_nil, or_false] at h
  obtain ⟨b, -, rfl | rfl⟩ := h
  · have := b.toNat_lt
    exact isPlainChar_digitChar (by omega)
  · exact isPlainChar_digitChar (by omega)

theorem isPlain_iff : isPlain id = true ↔
    id ≠ "" ∧ id.utf8ByteSize ≤ plainLimit ∧ ∀ c ∈ id.toList, isPlainChar c = true := by
  simp [isPlain, and_assoc]

theorem stem_of_isPlain (h : isPlain id = true) : stem id = id := if_pos h

theorem toList_stem_of_not_isPlain (h : isPlain id = false) :
    (stem id).toList = '~' :: Digest.hex (Digest.sha256 (Utf8.encodeText id)) := by
  simp [stem, h]

theorem isStemChar_of_mem (h : c ∈ (stem id).toList) : IsStemChar c := by
  rcases hp : isPlain id with _ | _
  · rw [toList_stem_of_not_isPlain hp, List.mem_cons] at h
    rcases h with rfl | h
    · exact .inr rfl
    · exact .inl (isPlainChar_hex h)
  · rw [stem_of_isPlain hp] at h
    exact .inl ((isPlain_iff.mp hp).2.2 c h)

theorem IsStemChar.ne (h : IsStemChar c) : c ≠ '.' ∧ c ≠ '/' ∧ c ≠ '\x00' := by
  refine ⟨?_, ?_, ?_⟩ <;>
    · rintro rfl
      rcases h with h | h <;> revert h <;> decide

theorem utf8ByteSize_ofList_of_ascii {cs : List Char} (h : ∀ c ∈ cs, c.utf8Size = 1) :
    (String.ofList cs).utf8ByteSize = cs.length := by
  induction cs with
  | nil => rfl
  | cons c cs ih =>
    have hsplit : String.ofList (c :: cs) = String.singleton c ++ String.ofList cs := by
      rw [String.singleton_eq_ofList, ← String.ofList_append]
      rfl
    rw [hsplit, String.utf8ByteSize_append, String.utf8ByteSize_singleton, h c (by simp),
      ih fun c hc => h c (List.mem_cons_of_mem _ hc), List.length_cons, Nat.add_comm]

theorem isPlainChar_utf8Size (h : isPlainChar c = true) : c.utf8Size = 1 := by
  rw [Char.utf8Size_eq_one_iff]
  rcases isPlainChar_iff.mp h with ⟨-, h⟩ | ⟨-, h⟩ | rfl | rfl
  · exact UInt32.le_trans h (by decide)
  · exact UInt32.le_trans h (by decide)
  · decide
  · decide

theorem utf8ByteSize_stem_le (id : String) : (stem id).utf8ByteSize ≤ plainLimit := by
  rcases hp : isPlain id with _ | _
  · have hchars : ∀ c ∈ Digest.hex (Digest.sha256 (Utf8.encodeText id)), c.utf8Size = 1 :=
      fun c hc => isPlainChar_utf8Size (isPlainChar_hex hc)
    have hlen := utf8ByteSize_ofList_of_ascii hchars
    rw [Digest.length_hex, Digest.length_sha256] at hlen
    have htilde : "~".utf8ByteSize = 1 := by decide
    rw [stem, hp, if_neg (by simp), String.utf8ByteSize_append, hlen, htilde]
    decide
  · rw [stem_of_isPlain hp]
    exact (isPlain_iff.mp hp).2.1

theorem stem_ne_nil (id : String) : (stem id).toList ≠ [] := by
  rcases hp : isPlain id with _ | _
  · simp [toList_stem_of_not_isPlain hp]
  · rw [stem_of_isPlain hp]
    exact Path.toList_ne_nil (isPlain_iff.mp hp).1

/-- Neither id names its own file, and one digest names the files of both. -/
def SameDigest (a b : String) : Prop :=
  isPlain a = false ∧ isPlain b = false ∧
    Digest.sha256 (Utf8.encodeText a) = Digest.sha256 (Utf8.encodeText b)

/-- A tilde begins the stems that are digests, and no other. -/
theorem stem_ne_of_isPlain {a b : String} (ha : isPlain a = true) (hb : isPlain b = false) :
    stem a ≠ stem b := by
  intro heq
  have hmem : '~' ∈ a.toList := by
    rw [← stem_of_isPlain ha, heq, toList_stem_of_not_isPlain hb]
    exact List.mem_cons_self
  have hplain := (isPlain_iff.mp ha).2.2 '~' hmem
  revert hplain
  decide

/-- The stem tells the id, or at least its digest. -/
theorem stem_eq_iff {a b : String} : stem a = stem b ↔ a = b ∨ SameDigest a b := by
  constructor
  · intro h
    rcases ha : isPlain a with _ | _ <;> rcases hb : isPlain b with _ | _
    · have htext := congrArg String.toList h
      rw [toList_stem_of_not_isPlain ha, toList_stem_of_not_isPlain hb] at htext
      exact .inr ⟨ha, hb, Digest.hex_inj (List.cons.inj htext).2⟩
    · exact absurd h.symm (stem_ne_of_isPlain hb ha)
    · exact absurd h (stem_ne_of_isPlain ha hb)
    · rw [stem_of_isPlain ha, stem_of_isPlain hb] at h
      exact .inl h
  · rintro (rfl | ⟨ha, hb, hd⟩)
    · rfl
    · apply String.toList_inj.mp
      rw [toList_stem_of_not_isPlain ha, toList_stem_of_not_isPlain hb, hd]

/-! ## Whole names -/

theorem toList_fileName (f : FileStore) (id : String) :
    (f.fileName id).toList = (stem id).toList ++ '.' :: f.extension.toList := by
  simp [fileName]

theorem fileName_eq_iff {a b : String} : f.fileName a = f.fileName b ↔ a = b ∨ SameDigest a b := by
  rw [← stem_eq_iff]
  constructor
  · intro h
    have htext := congrArg String.toList h
    rw [toList_fileName, toList_fileName] at htext
    exact String.toList_inj.mp (List.append_cancel_right htext)
  · intro h
    rw [fileName, fileName, h]

theorem fileName_inj {id₁ id₂ : String}
    (hd : Digest.sha256 (Utf8.encodeText id₁) = Digest.sha256 (Utf8.encodeText id₂) → id₁ = id₂)
    (h : f.fileName id₁ = f.fileName id₂) : id₁ = id₂ := by
  rcases fileName_eq_iff.mp h with h | ⟨-, -, h⟩
  · exact h
  · exact hd h

theorem utf8ByteSize_fileName_le (f : FileStore) (id : String) :
    (f.fileName id).utf8ByteSize ≤ f.extension.utf8ByteSize + 201 := by
  have hstem := utf8ByteSize_stem_le id
  have hdot : ".".utf8ByteSize = 1 := by decide
  rw [fileName, String.utf8ByteSize_append, String.utf8ByteSize_append, hdot]
  unfold plainLimit at hstem
  omega

/-- The name of what is written before it becomes the entry of an id. -/
def temporaryName (f : FileStore) (id : String) : String := f.fileName id ++ ".tmp"

theorem temporary_pathFor (f : FileStore) (id : String) :
    temporary (f.pathFor id) = Path.join f.directory (f.temporaryName id) :=
  (Path.join_append f.directory (f.fileName id) ".tmp").symm

theorem fileName_append_ne_empty (f : FileStore) (id ending : String) :
    f.fileName id ++ ending ≠ "" := by
  intro heq
  have := congrArg String.toList heq
  simp [toList_fileName] at this

theorem fileName_ne_empty (f : FileStore) (id : String) : f.fileName id ≠ "" := by
  have hne := f.fileName_append_ne_empty id ""
  rwa [String.append_empty] at hne

theorem slash_not_mem_fileName {f : FileStore} (h : '/' ∉ f.extension.toList) (id : String) :
    '/' ∉ (f.fileName id).toList := by
  have hstem : '/' ∉ (stem id).toList := fun hmem => (isStemChar_of_mem hmem).ne.2.1 rfl
  simp [toList_fileName, hstem, h]

theorem slash_not_mem_temporaryName {f : FileStore} (h : '/' ∉ f.extension.toList) (id : String) :
    '/' ∉ (f.temporaryName id).toList := by
  simp [temporaryName, slash_not_mem_fileName h id]

theorem isSimple_fileName (hslash : '/' ∉ f.extension.toList) (hnul : '\x00' ∉ f.extension.toList)
    (id : String) : Path.IsSimple (f.fileName id) where
  nonempty := f.fileName_ne_empty id
  no_slash := slash_not_mem_fileName hslash id
  no_nul := by
    have hstem : '\x00' ∉ (stem id).toList := fun hmem => (isStemChar_of_mem hmem).ne.2.2 rfl
    simp [toList_fileName, hstem, hnul]

/-- The name of a file neither stays in its directory nor leaves it upwards. -/
theorem fileName_append_ne (f : FileStore) (id ending : String) :
    f.fileName id ++ ending ≠ "." ∧ f.fileName id ++ ending ≠ ".." := by
  obtain ⟨c, cs, hstem⟩ := List.exists_cons_of_ne_nil (stem_ne_nil id)
  have hc : c ≠ '.' := (isStemChar_of_mem (by rw [hstem]; exact List.mem_cons_self)).ne.1
  have htext : (f.fileName id ++ ending).toList =
      c :: (cs ++ '.' :: (f.extension.toList ++ ending.toList)) := by
    simp [toList_fileName, hstem]
  constructor <;> intro heq <;> rw [heq] at htext
  · exact hc (List.cons.inj htext).1.symm
  · exact hc (List.cons.inj htext).1.symm

/-- Where the longer name can be used, so can the shorter one. -/
theorem fits_of_temporaryName {f : FileStore} {id : String}
    (h : Disk.Fits f.directory (f.temporaryName id)) : Disk.Fits f.directory (f.fileName id) := by
  have hne := f.fileName_append_ne id ""
  rw [String.append_empty] at hne
  have htext : (f.temporaryName id).toList = (f.fileName id).toList ++ ".tmp".toList := by
    rw [temporaryName, String.toList_append]
  refine ⟨⟨f.fileName_ne_empty id, ?_, ?_⟩, ⟨hne.1, hne.2, ?_⟩, ?_⟩
  · intro hmem
    exact h.no_slash (by rw [htext]; exact List.mem_append_left _ hmem)
  · intro hmem
    exact h.no_nul (by rw [htext]; exact List.mem_append_left _ hmem)
  · have hshort := h.short
    rw [temporaryName, String.utf8ByteSize_append] at hshort
    exact Nat.le_trans (Nat.le_add_right _ _) hshort
  · have hlt := h.path_lt
    rw [← temporary_pathFor, temporary, String.utf8ByteSize_append] at hlt
    exact Nat.lt_of_le_of_lt (Nat.le_add_right _ _) hlt

/-- What comes before the first dot of a name is the stem. -/
theorem takeWhile_fileName_append (f : FileStore) (id : String) (ending : List Char) :
    ((f.fileName id).toList ++ ending).takeWhile (· ≠ '.') = (stem id).toList := by
  have hstem : ∀ c ∈ (stem id).toList, decide (c ≠ '.') = true := by
    intro c hc
    simpa using (isStemChar_of_mem hc).ne.1
  rw [toList_fileName, List.append_assoc, List.takeWhile_append_of_pos hstem]
  simp

/-- Unfinished contents never have the name of an entry, whatever the extension is. -/
theorem temporaryName_ne (f : FileStore) (a b : String) : f.temporaryName a ≠ f.fileName b := by
  intro heq
  have htext : (f.fileName a).toList ++ ".tmp".toList = (f.fileName b).toList := by
    rw [← String.toList_append]
    exact congrArg String.toList heq
  have hstem : (stem a).toList = (stem b).toList := by
    rw [← f.takeWhile_fileName_append a ".tmp".toList, htext,
      ← f.takeWhile_fileName_append b [], List.append_nil]
  rw [toList_fileName, toList_fileName, hstem, List.append_assoc,
    List.append_cancel_left_eq] at htext
  simpa using congrArg List.length htext

/-! ## Names told apart by their endings -/

theorem cut?_append {stem ext : List Char} (hs : stem ≠ []) (he : '.' ∉ ext)
    (hdots : stem ++ '.' :: ext ≠ ['.', '.']) : cut? (stem ++ '.' :: ext) = some (stem, ext) := by
  have hrev : (stem ++ '.' :: ext).reverse = ext.reverse ++ '.' :: stem.reverse := by simp
  have hext : ∀ c ∈ ext.reverse, decide (c ≠ '.') = true := by
    intro c hc
    have hne : c ≠ '.' := by
      rintro rfl
      exact he (List.mem_reverse.mp hc)
    simpa using hne
  have hdrop : (stem ++ '.' :: ext).reverse.dropWhile (· ≠ '.') = '.' :: stem.reverse := by
    rw [hrev, List.dropWhile_append_of_pos hext]
    simp
  have htake : (stem ++ '.' :: ext).reverse.takeWhile (· ≠ '.') = ext.reverse := by
    rw [hrev, List.takeWhile_append_of_pos hext]
    simp
  unfold cut?
  rw [if_neg hdots, hdrop, htake]
  rcases hr : stem.reverse with _ | ⟨c, cs⟩
  · exact absurd (List.reverse_eq_nil_iff.mp hr) hs
  · simp [← hr]

/-- The name of an entry is recognised if its extension has no dot. -/
theorem isEntry_fileName (h : '.' ∉ f.extension.toList) (id : String) :
    f.isEntry (f.fileName id).toList = true := by
  have hdots : (f.fileName id).toList ≠ ['.', '.'] := fun heq =>
    (f.fileName_append_ne id "").2 (by rw [String.append_empty]; exact String.toList_inj.mp heq)
  rw [toList_fileName] at hdots ⊢
  simp [isEntry, cut?_append (stem_ne_nil id) h hdots]

/-! ## Where names fit -/

namespace FitExtension

variable (h : f.FitExtension)
include h

theorem isSimple_temporaryName (id : String) : Path.IsSimple (f.temporaryName id) where
  nonempty := f.fileName_append_ne_empty id ".tmp"
  no_slash := slash_not_mem_temporaryName h.no_slash id
  no_nul := by
    simp [temporaryName, (isSimple_fileName h.no_slash h.no_nul id).no_nul]

theorem utf8ByteSize_fileName_le (id : String) : (f.fileName id).utf8ByteSize ≤ 251 := by
  have hname := FileStore.utf8ByteSize_fileName_le f id
  have hext := h.short
  omega

theorem isName_temporaryName (id : String) : Disk.IsName (f.temporaryName id) where
  ne_dot := (f.fileName_append_ne id ".tmp").1
  ne_dots := (f.fileName_append_ne id ".tmp").2
  short := by
    have hsize := h.utf8ByteSize_fileName_le id
    have htmp : ".tmp".utf8ByteSize = 4 := by decide
    rw [temporaryName, String.utf8ByteSize_append, htmp]
    unfold Path.nameLimit
    omega

theorem isName_fileName (id : String) : Disk.IsName (f.fileName id) := by
  have hne := f.fileName_append_ne id ""
  have hsize := h.utf8ByteSize_fileName_le id
  rw [String.append_empty] at hne
  refine ⟨hne.1, hne.2, ?_⟩
  unfold Path.nameLimit
  omega

/-- Where there is room for unfinished contents, they can be written. -/
theorem fits_temporaryName {id : String}
    (hp : (temporary (f.pathFor id)).utf8ByteSize < Path.lengthLimit) :
    Disk.Fits f.directory (f.temporaryName id) where
  toIsSimple := h.isSimple_temporaryName id
  toIsName := h.isName_temporaryName id
  path_lt := by rwa [← temporary_pathFor]

theorem fits_fileName {id : String}
    (hp : (temporary (f.pathFor id)).utf8ByteSize < Path.lengthLimit) :
    Disk.Fits f.directory (f.fileName id) :=
  fits_of_temporaryName (h.fits_temporaryName hp)

end FitExtension

end FileStore

end SessionStore
