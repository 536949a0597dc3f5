import NimMarkdown.Settings.Basic

/-!
# The settings of a table

A table is taken as settings if each of its keys is the name of a setting, with dashes
read as underscores; a setting has the value at its name, or its default
(`ofTable_eq_ok_iff`). Values are given one after the other; as names are different
for different settings (`Setting.name_injective`), each one changes its own setting
only, and where no key stands twice no value is lost (`setAll_eq_some_iff`).
-/

namespace NimMarkdown

/-- A key with underscores for dashes. -/
def plainKey (key : Text) : Text := key.map fun c => if c == '-' then '_' else c

namespace Setting

theorem name_injective {j k : Setting} (h : j.name.toList = k.name.toList) : j = k := by
  have distinct : ∀ j ∈ all, ∀ k ∈ all, j.name.toList = k.name.toList → j = k := by decide
  exact distinct j (mem_all j) k (mem_all k) h

theorem ofName?_eq_some_iff {name : Text} {k : Setting} :
    ofName? name = some k ↔ k.name.toList = name := by
  constructor
  · intro h
    simpa using List.find?_some h
  · rintro rfl
    cases h : ofName? k.name.toList with
    | none => simpa using List.find?_eq_none.1 h k (mem_all k)
    | some j => exact congrArg some (name_injective (by simpa using List.find?_some h))

theorem ofName?_eq_none_iff {name : Text} :
    ofName? name = none ↔ ∀ k : Setting, k.name.toList ≠ name := by
  rw [Option.eq_none_iff_forall_ne_some]
  simp only [ne_eq, ofName?_eq_some_iff]

end Setting

namespace Settings

variable {s s' : Settings} {entries : List (Text × Value)}

theorem ext_get (h : ∀ k, s.get k = s'.get k) : s = s' := by
  cases s
  cases s'
  exact congrArg Settings.mk (funext h)

/-- The settings hold the values that stand at their names, and else those of other settings. -/
def Holds (entries : List (Text × Value)) (base s : Settings) : Prop :=
  ∀ k : Setting, (∀ entry ∈ entries, entry.1 = k.name.toList → s.get k = entry.2) ∧
    ((∀ entry ∈ entries, entry.1 ≠ k.name.toList) → s.get k = base.get k)

theorem Holds.unique {base : Settings} (h : Holds entries base s) (h' : Holds entries base s') :
    s = s' := by
  apply ext_get
  intro k
  by_cases given : ∃ entry ∈ entries, entry.1 = k.name.toList
  · obtain ⟨entry, hm, hn⟩ := given
    rw [(h k).1 entry hm hn, (h' k).1 entry hm hn]
  · have absent : ∀ entry ∈ entries, entry.1 ≠ k.name.toList :=
      fun entry hm hn => given ⟨entry, hm, hn⟩
    rw [(h k).2 absent, (h' k).2 absent]

/-- The first value is given, and the others after it. -/
theorem Holds.cons {key : Setting} {v : Value} {base : Settings}
    (fresh : ∀ entry ∈ entries, entry.1 ≠ key.name.toList) (h : Holds entries (base.set key v) s) :
    Holds ((key.name.toList, v) :: entries) base s := by
  intro k
  obtain ⟨given, absent⟩ := h k
  rw [List.forall_mem_cons, List.forall_mem_cons]
  refine ⟨⟨fun hn => ?_, given⟩, fun ⟨hn, ha⟩ => ?_⟩
  · obtain rfl := Setting.name_injective hn
    rw [absent fresh, get_set, if_pos rfl]
  · have other : k ≠ key := fun he => hn (he ▸ rfl)
    rw [absent ha, get_set, if_neg other]

/-- All names have to be known, and no value is lost. -/
theorem setAll_spec (nodup : (entries.map Prod.fst).Nodup) (base : Settings) :
    (∃ s, base.setAll entries = some s ∧ Holds entries base s ∧
      ∀ entry ∈ entries, ∃ k : Setting, k.name.toList = entry.1) ∨
    base.setAll entries = none ∧ ∃ entry ∈ entries, ∀ k : Setting, k.name.toList ≠ entry.1 := by
  induction entries generalizing base with
  | nil => exact .inl ⟨base, rfl, fun k => ⟨nofun, fun _ => rfl⟩, nofun⟩
  | cons entry rest ih =>
    obtain ⟨name, v⟩ := entry
    rw [List.map_cons, List.nodup_cons] at nodup
    rw [setAll]
    cases hk : Setting.ofName? name with
    | none => exact .inr ⟨rfl, _, List.mem_cons_self, Setting.ofName?_eq_none_iff.1 hk⟩
    | some key =>
      obtain rfl := Setting.ofName?_eq_some_iff.1 hk
      have fresh : ∀ entry ∈ rest, entry.1 ≠ key.name.toList :=
        fun entry hm hn => nodup.1 (List.mem_map.2 ⟨entry, hm, hn⟩)
      rw [Option.bind_some]
      rcases ih nodup.2 (base.set key v) with ⟨s, hs, holds, known⟩ | ⟨hs, entry, hm, unknown⟩
      · exact .inl ⟨s, hs, holds.cons fresh, List.forall_mem_cons.2 ⟨⟨key, rfl⟩, known⟩⟩
      · exact .inr ⟨hs, entry, List.mem_cons_of_mem _ hm, unknown⟩

theorem setAll_eq_some_iff (nodup : (entries.map Prod.fst).Nodup) {base : Settings} :
    base.setAll entries = some s ↔ (∀ entry ∈ entries, ∃ k : Setting, k.name.toList = entry.1) ∧
      Holds entries base s := by
  rcases setAll_spec nodup base with ⟨s', hs, holds, known⟩ | ⟨hs, entry, hm, unknown⟩
  · rw [hs, Option.some.injEq]
    constructor
    · rintro rfl
      exact ⟨known, holds⟩
    · exact fun h => holds.unique h.2
  · rw [hs]
    refine ⟨nofun, fun h => ?_⟩
    obtain ⟨k, hk⟩ := h.1 entry hm
    exact (unknown k hk).elim

/-- The settings in a value. -/
theorem ofTable_eq_ok_iff {v : Value} {keys : List Text} {file : Text} (null : v.isNull = false)
    (nodup : ∀ entries, v = .table entries →
      (entries.map fun entry => plainKey entry.1).Nodup) :
    ofTable v keys file = .ok s ↔ ∃ entries, v = .table entries ∧
      (∀ entry ∈ entries, ∃ k : Setting, k.name.toList = plainKey entry.1) ∧
      Holds (entries.map fun entry => (plainKey entry.1, entry.2)) byDefault s := by
  cases v with
  | table entries =>
    have plain : ((entries.map fun entry => (plainKey entry.1, entry.2)).map Prod.fst).Nodup := by
      rw [List.map_map]
      exact nodup entries rfl
    have given : byDefault.setAll _ = some s ↔ _ := setAll_eq_some_iff plain
    simp only [List.forall_mem_map] at given
    simp only [Value.table.injEq, exists_eq_left', ← given, ofTable]
    cases hs : byDefault.setAll (entries.map fun entry => (plainKey entry.1, entry.2)) with
    | some s' =>
      unfold plainKey at hs
      simp only [hs, Except.ok.injEq, Option.some.injEq]
    | none =>
      unfold plainKey at hs
      simp only [hs, reduceCtorEq]
  | null => cases null
  | _ =>
    constructor
    · nofun
    · rintro ⟨entries, he, -⟩
      cases he

/-- A value that gives no settings is an invalid table. -/
theorem error_of_ofTable {v : Value} {keys : List Text} {file : Text} {e : SettingsError}
    (h : ofTable v keys file = .error e) : e = .invalidTable keys file := by
  unfold ofTable at h
  split at h
  · cases h
  · dsimp only at h
    split at h <;> cases h
    rfl
  · cases h
    rfl

end Settings

end NimMarkdown
