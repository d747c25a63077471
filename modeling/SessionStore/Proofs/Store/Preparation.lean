import SessionStore.Proofs.Disk.Straight
import SessionStore.Store.Files

/-! # Preparing the directory

A store that is started over a tree without links makes its directory where nothing is in the way,
and fails before it has made anything where a file is. No file is touched in either case, and a
directory that is there is used as it is.
-/

namespace SessionStore

namespace Disk

variable {d : Disk} {l front : Location} {name : String} {rest : List String}

/-- A directory is there, or nothing is, and everything that is on the way to it is a directory. -/
def IsOpenTo (d : Disk) (l : Location) : Prop :=
  d.IsDir l ∨ d.node? l = none ∧ ∀ m, m <+: l → m ≠ l → d.node? m ≠ none → d.IsDir m

/-- What decides is the first place on the way that is no directory. -/
theorem isOpenTo_iff (ht : d.IsTree) (hl : l = front ++ name :: rest) (hfront : d.IsDir front)
    (hend : d.IsEnd (front ++ [name])) : d.IsOpenTo l ↔ d.node? (front ++ [name]) = none := by
  rw [List.append_cons] at hl
  constructor
  · rintro (hdir | ⟨hnone, hway⟩)
    · rw [hl] at hdir
      exact absurd hend (ht.isDir_left hdir).not_isEnd
    · by_contra hsome
      have hbegins : front ++ [name] <+: l := hl ▸ List.prefix_append _ rest
      have hne : front ++ [name] ≠ l := fun heq => hsome (heq ▸ hnone)
      exact absurd hend (hway _ hbegins hne hsome).not_isEnd
  · intro hnone
    have hbelow : ∀ m, front ++ [name] <+: m → d.node? m = none := by
      rintro m ⟨xs, rfl⟩
      exact ht.missing_below hnone xs
    refine .inr ⟨hbelow l (hl ▸ List.prefix_append _ rest), fun m hm _ hsome => ?_⟩
    rcases List.prefix_or_prefix_of_prefix hm (hl ▸ List.prefix_append _ rest) with hle | hge
    · rcases List.prefix_concat_iff.mp hle with heq | ⟨xs, hxs⟩
      · exact absurd (heq ▸ hnone) hsome
      · exact ht.isDir_left (hxs ▸ hfront)
    · exact absurd (hbelow m hge) hsome

end Disk

namespace FileStore

open Disk

variable {f : FileStore} {d : Disk} {l : Location}

/-- Where the directory is there already a start has nothing to do. -/
theorem start_of_houses (h : d.Houses f.directory l) (now : Instant) :
    f.perform now d .start = .done d () [.directoryReady f.directory] := by
  unfold perform prepare
  rcases h with h | ⟨hdir, -⟩
  · obtain ⟨mode, modified, hstat⟩ := h.stat
    simp only [hstat]
  · have hstat : d.stat "" = .error .notFound := rfl
    have hmade : d.makeDirectories now 0o700 "" = (.ok (), d) := rfl
    simp only [hdir, hstat, hmade]
    rfl

section Straight

variable {front : Location} {name : String} {rest : List String} (ht : d.IsTree)
  (hp : Path.IsStraight f.directory)
  (hnames : Path.namesOf f.directory.toList = front ++ name :: rest) (hfront : d.IsDir front)
include ht hp hnames hfront

/-- Where something is missing on the way, everything that is missing is made. -/
theorem start_of_missing (hnone : d.node? (front ++ [name]) = none) (now : Instant) :
    ∃ e, f.perform now d .start = .done e () [.directoryReady f.directory] ∧ e.IsTree ∧
      Provides now 0o700 (Path.namesOf f.directory.toList) d e := by
  have hstat := stat_missing ht hp hnames hfront hnone
  obtain ⟨e, hmade, htree, hprovides⟩ :=
    makeDirectories_provides ht hp hnames hfront hnone now 0o700
  refine ⟨e, ?_, htree, hprovides⟩
  unfold perform prepare
  simp only [hstat, hmade]
  rfl

/-- Where a file is in the way, nothing is done. -/
theorem start_of_file (hfile : d.IsEnd (front ++ [name])) (hsome : d.node? (front ++ [name]) ≠ none)
    (now : Instant) : ∃ why, why.isBackend = true ∧ f.perform now d .start = .failed d why := by
  obtain ⟨contents, mode, modified, hnode⟩ := hfile.resolve_left hsome
  rcases stat_file ht hp hnames hfront hnode with hstat | hstat
  · refine ⟨.backend (.notDirectory f.directory), rfl, ?_⟩
    unfold perform prepare
    simp only [hstat]
  · refine ⟨.backend (.directoryUnknown f.directory .notDirectory), rfl, ?_⟩
    unfold perform prepare
    simp only [hstat]
    rfl

end Straight

/-- On a tree without links and for a path that goes straight down, the store starts exactly where
its directory is or nothing is in the way of making it. The directory is there then, nothing has
changed but on the way to it, and to start once more changes nothing. Otherwise the medium is to
blame, and everything is as it was. -/
theorem start_prepares (ht : d.IsTree) (hlinks : d.NoLinks) (f : FileStore)
    (hp : Path.IsStraight f.directory) (now : Instant) :
    let l := Path.namesOf f.directory.toList
    let o := f.perform now d .start
    (o.result = .ok () ↔ d.IsOpenTo l) ∧
      (o.result = .ok () → o.store.LeadsTo f.directory l ∧ Provides now 0o700 l d o.store ∧
        ∀ later, (f.perform later o.store .start).result = .ok () ∧
          (f.perform later o.store .start).store = o.store) ∧
      ∀ why, o.result = .error why → why.isBackend = true ∧ o.store = d := by
  intro l o
  have hagain : ∀ {e : Disk}, e.LeadsTo f.directory l → ∀ later,
      (f.perform later e .start).result = .ok () ∧ (f.perform later e .start).store = e := by
    intro e he later
    rw [start_of_houses he.houses]
    exact ⟨rfl, rfl⟩
  rcases isDir_or_isEnd hlinks l with hdir | ⟨front, name, rest, hnames, hfront, hend⟩
  · have hleads : d.LeadsTo f.directory l := leadsTo_down ht hp hdir
    have hstart : o = .done d () _ := start_of_houses hleads.houses now
    rw [hstart]
    exact ⟨⟨fun _ => .inl hdir, fun _ => rfl⟩, fun _ => ⟨hleads, .refl hdir, hagain hleads⟩, nofun⟩
  · rw [isOpenTo_iff ht hnames hfront hend]
    by_cases hnone : d.node? (front ++ [name]) = none
    · obtain ⟨e, hstart, htree, hprovides⟩ := start_of_missing ht hp hnames hfront hnone now
      have hstart : o = .done e () _ := hstart
      have hleads : e.LeadsTo f.directory l := leadsTo_down htree hp hprovides.isDir
      rw [hstart]
      exact ⟨⟨fun _ => hnone, fun _ => rfl⟩, fun _ => ⟨hleads, hprovides, hagain hleads⟩, nofun⟩
    · obtain ⟨why, hbackend, hstart⟩ := start_of_file ht hp hnames hfront hend hnone now
      have hstart : o = .failed d why := hstart
      rw [hstart]
      refine ⟨⟨nofun, fun h => absurd h hnone⟩, nofun, fun fault hfault => ?_⟩
      cases hfault
      exact ⟨hbackend, rfl⟩

/-- A directory with a file in it. -/
def occupied : Disk :=
  ((⟨∅⟩ : Disk).put ["a"] (.directory 0o755 0)).put ["a", "note"] (.file [0x78] 0o644 0)

theorem node?_occupied (m : Location) :
    occupied.node? m = if m = ["a", "note"] then some (.file [0x78] 0o644 0)
      else if m = ["a"] then some (.directory 0o755 0)
      else if m = [] then some Disk.top else none := by
  rw [occupied, node?_put (by simp), node?_put (by simp)]
  simp [node?]

theorem isTree_occupied : occupied.IsTree := by
  intro l name h
  rw [node?_occupied] at h
  split at h
  · next heq =>
    change l ++ [name] = ["a"] ++ ["note"] at heq
    obtain ⟨rfl, -⟩ := List.append_inj' heq rfl
    exact ⟨0o755, 0, by simp [node?_occupied]⟩
  · split at h
    · next heq =>
      change l ++ [name] = [] ++ ["a"] at heq
      obtain ⟨rfl, -⟩ := List.append_inj' heq rfl
      exact occupied.isDir_top
    · simp at h

theorem noLinks_occupied : occupied.NoLinks := by
  intro l target
  rw [node?_occupied]
  repeat' split
  all_goals simp [Disk.top]

/-- Two directories are made beside the file, on a path with slashes to spare, and none in it. -/
theorem start_prepares_occupied :
    let f : FileStore := ⟨"a/b//c/", "sess"⟩
    let g : FileStore := ⟨"a/note/c", "sess"⟩
    let o := f.perform 7 occupied .start
    occupied.IsTree ∧ occupied.NoLinks ∧ Path.IsStraight f.directory ∧
      Path.IsStraight g.directory ∧ o.result = .ok () ∧ o.store.IsDir ["a", "b", "c"] ∧
      o.store.node? ["a", "note"] = some (.file [0x78] 0o644 0) ∧
      ∃ why, (g.perform 7 occupied .start).result = .error why ∧ why.isBackend = true := by
  intro f g o
  have hfnames : Path.namesOf f.directory.toList = ["a", "b", "c"] := by decide
  have hgnames : Path.namesOf g.directory.toList = ["a", "note", "c"] := by decide
  have hf : Path.IsStraight f.directory := by
    refine ⟨by decide, by decide, by decide, ?_⟩
    simp only [hfnames, List.forall_mem_cons]
    exact ⟨⟨by decide, by decide, by decide⟩, ⟨by decide, by decide, by decide⟩,
      ⟨by decide, by decide, by decide⟩, nofun⟩
  have hg : Path.IsStraight g.directory := by
    refine ⟨by decide, by decide, by decide, ?_⟩
    simp only [hgnames, List.forall_mem_cons]
    exact ⟨⟨by decide, by decide, by decide⟩, ⟨by decide, by decide, by decide⟩,
      ⟨by decide, by decide, by decide⟩, nofun⟩
  have ha : occupied.IsDir ["a"] := ⟨0o755, 0, by simp [node?_occupied]⟩
  obtain ⟨hopen, hdone, -⟩ := start_prepares isTree_occupied noLinks_occupied f hf 7
  obtain ⟨hgopen, -, hfailed⟩ := start_prepares isTree_occupied noLinks_occupied g hg 7
  have hb : occupied.node? (["a"] ++ ["b"]) = none := by simp [node?_occupied]
  have hok : o.result = .ok () :=
    hopen.mpr ((isOpenTo_iff isTree_occupied hfnames ha (.inl hb)).mpr hb)
  obtain ⟨-, hprovides, -⟩ := hdone hok
  have hnote : occupied.node? (["a"] ++ ["note"]) = some (.file [0x78] 0o644 0) := by
    simp [node?_occupied]
  refine ⟨isTree_occupied, noLinks_occupied, hf, hg, hok, hfnames ▸ hprovides.isDir, ?_, ?_⟩
  · rcases hprovides.node? ["a", "note"] with hsame | ⟨hbegins, -⟩
    · exact hsame.trans hnote
    · rw [hfnames] at hbegins
      exact absurd hbegins (by decide)
  · have hend : occupied.IsEnd (["a"] ++ ["note"]) := .inr ⟨_, _, _, hnote⟩
    rcases hresult : (g.perform 7 occupied .start).result with why | u
    · exact ⟨why, rfl, (hfailed why hresult).1⟩
    · have hnone := (isOpenTo_iff isTree_occupied hgnames ha hend).mp (hgopen.mp hresult)
      rw [hnote] at hnone
      cases hnone

end FileStore

end SessionStore
