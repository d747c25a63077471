import Mathlib.Data.List.Nodup
import SessionStore.Properties.Document

/-! # Entries that are settings

A list of entries gives settings if every entry has a known key and a value that fits it, and no key
occurs twice. Then the settings hold exactly these entries, in whatever order they came.
-/

namespace SessionStore.Settings

/-- The types of settings. -/
inductive Kind
  | number
  | switch
  | text

/-- The known keys and their types. -/
def schema : List (String × Kind) :=
  [("age_limit_secs", .number), ("enabled", .switch), ("name", .text), ("prefix", .text),
    ("purge_interval_secs", .number), ("id_length", .number)]

inductive Kind.Takes : Kind → Toml.Value → Prop
  | number (n : Int) : Takes .number (.integer n)
  | switch (b : Bool) : Takes .switch (.boolean b)
  | text (s : String) : Takes .text (.text s)

/-- The value is of the key's type, and a number that a setting can hold. -/
inductive Fits : String → Toml.Value → Prop
  | number {k : String} {n : Int} : (k, .number) ∈ schema → 0 ≤ n → n ≤ numberLimit →
      Fits k (.integer n)
  | switch {k : String} {b : Bool} : (k, .switch) ∈ schema → Fits k (.boolean b)
  | text {k : String} {s : String} : (k, .text) ∈ schema → Fits k (.text s)

/-- No settings have these entries: a key is unknown or occurs twice, or a value is of another type
than its key's or a number below zero or beyond 64 bits. -/
def IsRefused (es : List (String × Toml.Value)) : Prop :=
  (∃ e ∈ es, ∀ kind, (e.1, kind) ∉ schema) ∨ ¬(es.map (·.1)).Nodup ∨
    (∃ e ∈ es, ∃ kind, (e.1, kind) ∈ schema ∧ ¬kind.Takes e.2) ∨
      ∃ e ∈ es, ∃ n, e.2 = .integer n ∧ (n < 0 ∨ 0xFFFFFFFFFFFFFFFF < n)

/-- The entry under a key, if the settings have it. -/
def held? (s : Settings) : String → Option Toml.Value
  | "age_limit_secs" => s.ageLimit?.map fun n : Nat => .integer n
  | "enabled" => s.enabled?.map .boolean
  | "name" => s.name?.map .text
  | "prefix" => s.keyspace?.map .text
  | "purge_interval_secs" => s.purgeInterval?.map fun n : Nat => .integer n
  | "id_length" => s.idLength?.map fun n : Nat => .integer n
  | _ => none

variable {s s' : Settings} {k : String} {v : Toml.Value} {es : List (String × Toml.Value)}

theorem number_mem_schema : (k, Kind.number) ∈ schema ↔
    k = "age_limit_secs" ∨ k = "purge_interval_secs" ∨ k = "id_length" := by
  simp [schema]

theorem switch_mem_schema : (k, Kind.switch) ∈ schema ↔ k = "enabled" := by
  simp [schema]

theorem text_mem_schema : (k, Kind.text) ∈ schema ↔ k = "name" ∨ k = "prefix" := by
  simp [schema]

theorem held?_ageLimit (s : Settings) :
    s.held? "age_limit_secs" = s.ageLimit?.map fun n : Nat => .integer n := by
  simp only [held?]

theorem held?_enabled (s : Settings) : s.held? "enabled" = s.enabled?.map .boolean := by
  simp only [held?]

theorem held?_name (s : Settings) : s.held? "name" = s.name?.map .text := by
  simp only [held?]

theorem held?_keyspace (s : Settings) : s.held? "prefix" = s.keyspace?.map .text := by
  simp only [held?]

theorem held?_purgeInterval (s : Settings) :
    s.held? "purge_interval_secs" = s.purgeInterval?.map fun n : Nat => .integer n := by
  simp only [held?]

theorem held?_idLength (s : Settings) :
    s.held? "id_length" = s.idLength?.map fun n : Nat => .integer n := by
  simp only [held?]

theorem fits_of_put? (h : s.put? k v = some s') : Fits k v ∧ s.held? k = none := by
  unfold put? at h
  split at h
  case h_1 | h_5 | h_6 =>
    obtain ⟨⟨hnone, hlow, hhigh⟩, -⟩ := Option.ite_none_right_eq_some.mp h
    exact ⟨.number (by simp [schema]) hlow hhigh, by simp [held?, hnone]⟩
  case h_2 =>
    obtain ⟨hnone, -⟩ := Option.ite_none_right_eq_some.mp h
    exact ⟨.switch (by simp [schema]), by simp [held?, hnone]⟩
  case h_3 | h_4 =>
    obtain ⟨hnone, -⟩ := Option.ite_none_right_eq_some.mp h
    exact ⟨.text (by simp [schema]), by simp [held?, hnone]⟩
  case h_7 => cases h

/-- An entry that fits a key without one is put there, and nowhere else. -/
theorem put?_of_fits (hv : Fits k v) (hk : s.held? k = none) :
    ∃ s', s.put? k v = some s' ∧ ∀ l, s'.held? l = if l = k then some v else s.held? l := by
  cases hv with
  | @number n hkey hlow hhigh =>
    have hn : (n.toNat : Int) = n := Int.toNat_of_nonneg hlow
    rcases number_mem_schema.mp hkey with rfl | rfl | rfl
    case' inl =>
      rw [held?_ageLimit, Option.map_eq_none_iff] at hk
      refine ⟨{ s with ageLimit? := n.toNat }, if_pos ⟨hk, hlow, hhigh⟩, fun l => ?_⟩
    case' inr.inl =>
      rw [held?_purgeInterval, Option.map_eq_none_iff] at hk
      refine ⟨{ s with purgeInterval? := n.toNat }, if_pos ⟨hk, hlow, hhigh⟩, fun l => ?_⟩
    case' inr.inr =>
      rw [held?_idLength, Option.map_eq_none_iff] at hk
      refine ⟨{ s with idLength? := n.toNat }, if_pos ⟨hk, hlow, hhigh⟩, fun l => ?_⟩
    all_goals
      unfold held?
      split <;> simp_all
  | @switch b hkey =>
    obtain rfl := switch_mem_schema.mp hkey
    rw [held?_enabled, Option.map_eq_none_iff] at hk
    refine ⟨{ s with enabled? := b }, if_pos hk, fun l => ?_⟩
    unfold held?
    split <;> simp_all
  | @text t hkey =>
    rcases text_mem_schema.mp hkey with rfl | rfl
    case' inl =>
      rw [held?_name, Option.map_eq_none_iff] at hk
      refine ⟨{ s with name? := t }, if_pos hk, fun l => ?_⟩
    case' inr =>
      rw [held?_keyspace, Option.map_eq_none_iff] at hk
      refine ⟨{ s with keyspace? := t }, if_pos hk, fun l => ?_⟩
    all_goals
      unfold held?
      split <;> simp_all

/-! ## Lists of entries -/

/-- Entries that fit, under keys without one and no two under the same, are all put there. -/
theorem foldlM_put?_of_fits (hfits : ∀ e ∈ es, Fits e.1 e.2) (hdistinct : (es.map (·.1)).Nodup)
    (hnew : ∀ e ∈ es, s.held? e.1 = none) :
    ∃ s', es.foldlM (fun s e => s.put? e.1 e.2) s = some s' ∧
      ∀ k v, s'.held? k = some v ↔ s.held? k = some v ∨ (k, v) ∈ es := by
  induction es generalizing s with
  | nil => exact ⟨s, rfl, fun k v => by simp⟩
  | cons e es ih =>
    obtain ⟨hfit, hfits⟩ := List.forall_mem_cons.mp hfits
    obtain ⟨hfree, hnew⟩ := List.forall_mem_cons.mp hnew
    rw [List.map_cons, List.nodup_cons] at hdistinct
    obtain ⟨s₁, hput, hentries⟩ := put?_of_fits hfit hfree
    have hnew₁ : ∀ d ∈ es, s₁.held? d.1 = none := by
      intro d hd
      have hne : d.1 ≠ e.1 := fun h => hdistinct.1 (h ▸ List.mem_map_of_mem hd)
      rw [hentries, if_neg hne, hnew d hd]
    obtain ⟨s', hfold, hs'⟩ := ih hfits hdistinct.2 hnew₁
    refine ⟨s', ?_, fun k v => ?_⟩
    · rw [List.foldlM_cons, hput]
      exact hfold
    · rw [hs', hentries, List.mem_cons, ← or_assoc]
      refine or_congr_left ?_
      by_cases hk : k = e.1
      · rw [if_pos hk, hk, hfree]
        simp [Prod.ext_iff, eq_comm]
      · rw [if_neg hk]
        simp [Prod.ext_iff, hk]

theorem fits_of_foldlM_put? (h : es.foldlM (fun s e => s.put? e.1 e.2) s = some s') :
    (∀ e ∈ es, Fits e.1 e.2) ∧ (es.map (·.1)).Nodup ∧ ∀ e ∈ es, s.held? e.1 = none := by
  induction es generalizing s with
  | nil => simp
  | cons e es ih =>
    rw [List.foldlM_cons] at h
    obtain ⟨s₁, hput, hfold⟩ := Option.bind_eq_some_iff.mp h
    obtain ⟨hfit, hfree⟩ := fits_of_put? hput
    obtain ⟨s₂, hput', hentries⟩ := put?_of_fits hfit hfree
    cases hput.symm.trans hput'
    obtain ⟨hfits, hdistinct, hnew⟩ := ih hfold
    have hne : ∀ d ∈ es, d.1 ≠ e.1 := by
      intro d hd heq
      have hnone := hnew d hd
      rw [hentries, if_pos heq] at hnone
      cases hnone
    refine ⟨List.forall_mem_cons.mpr ⟨hfit, hfits⟩, ?_, List.forall_mem_cons.mpr ⟨hfree, ?_⟩⟩
    · rw [List.map_cons, List.nodup_cons]
      refine ⟨fun hmem => ?_, hdistinct⟩
      obtain ⟨d, hd, heq⟩ := List.mem_map.mp hmem
      exact hne d hd heq
    · intro d hd
      have hnone := hnew d hd
      rwa [hentries, if_neg (hne d hd)] at hnone

theorem held?_empty (k : String) : held? {} k = none := by
  unfold held?
  split <;> rfl

theorem exists_ofEntries?_iff :
    (∃ s, ofEntries? es = some s) ↔ (∀ e ∈ es, Fits e.1 e.2) ∧ (es.map (·.1)).Nodup := by
  constructor
  · rintro ⟨s, h⟩
    obtain ⟨hfits, hdistinct, -⟩ := fits_of_foldlM_put? h
    exact ⟨hfits, hdistinct⟩
  · rintro ⟨hfits, hdistinct⟩
    obtain ⟨s, h, -⟩ := foldlM_put?_of_fits hfits hdistinct fun e _ => held?_empty e.1
    exact ⟨s, h⟩

/-- The settings of entries hold these entries and no others. -/
theorem held?_of_ofEntries? (h : ofEntries? es = some s) :
    s.held? k = some v ↔ (k, v) ∈ es := by
  obtain ⟨hfits, hdistinct, hnew⟩ := fits_of_foldlM_put? h
  obtain ⟨s', hfold, hentries⟩ := foldlM_put?_of_fits hfits hdistinct hnew
  cases h.symm.trans hfold
  rw [hentries, held?_empty]
  simp

theorem kind_unique {kind kind' : Kind} (h : (k, kind) ∈ schema) (h' : (k, kind') ∈ schema) :
    kind = kind' := by
  simp only [schema, List.mem_cons, Prod.mk.injEq, List.not_mem_nil, or_false] at h h'
  rcases h with ⟨rfl, rfl⟩ | ⟨rfl, rfl⟩ | ⟨rfl, rfl⟩ | ⟨rfl, rfl⟩ | ⟨rfl, rfl⟩ | ⟨rfl, rfl⟩ <;>
    simpa [eq_comm] using h'

theorem Fits.exists_kind (h : Fits k v) : ∃ kind, (k, kind) ∈ schema ∧ kind.Takes v := by
  cases h with
  | number hk => exact ⟨_, hk, .number _⟩
  | switch hk => exact ⟨_, hk, .switch _⟩
  | text hk => exact ⟨_, hk, .text _⟩

theorem Fits.of_takes {kind : Kind} (hk : (k, kind) ∈ schema) (hv : kind.Takes v)
    (hn : ∀ n, v = .integer n → ¬(n < 0 ∨ 0xFFFFFFFFFFFFFFFF < n)) : Fits k v := by
  cases hv with
  | number n =>
    have hlimit := hn n rfl
    refine .number hk ?_ ?_
    · omega
    · rw [numberLimit]
      omega
  | switch b => exact .switch hk
  | text t => exact .text hk

theorem isRefused_iff : IsRefused es ↔ ofEntries? es = none := by
  rw [Option.eq_none_iff_forall_ne_some, ← not_exists, exists_ofEntries?_iff]
  constructor
  · rintro (⟨e, he, hunknown⟩ | hdouble | ⟨e, he, kind, hkind, htype⟩ | ⟨e, he, n, hn, hrange⟩)
      ⟨hfits, hdistinct⟩
    · obtain ⟨kind, hkind, -⟩ := (hfits e he).exists_kind
      exact hunknown kind hkind
    · exact hdouble hdistinct
    · obtain ⟨kind', hkind', htakes⟩ := (hfits e he).exists_kind
      exact htype (kind_unique hkind' hkind ▸ htakes)
    · have hfit := hfits e he
      rw [hn] at hfit
      cases hfit with
      | number _ hlow hhigh =>
        rw [numberLimit] at hhigh
        omega
  · intro h
    by_contra hrefused
    simp only [IsRefused, not_or, not_exists, not_and, not_forall, not_not] at hrefused
    obtain ⟨hknown, hdistinct, htypes, hrange⟩ := hrefused
    refine h ⟨fun e he => ?_, hdistinct⟩
    obtain ⟨kind, hkind⟩ := hknown e he
    exact .of_takes hkind (htypes e he kind hkind) fun n hn => by simpa using hrange e he n hn

end SessionStore.Settings
