import Mathlib.Data.List.Nodup
import NimMarkdown.Command.Request
import NimMarkdown.Proofs.SettingsTable
import NimMarkdown.Proofs.Text

/-!
# Overrides

Overrides whose names are known are merged into settings: each setting has the last
value that is given at its name, or else the one it had (`Settings.merged`,
`override_eq`). A null gives no value, and so may have any name but the reserved one
(`Settings.Refused`). Overrides on top of others are the same as the others with their
values put in (`override_override`). Nothing is said here about the types of the
values, which nothing looks at before everything is merged.
-/

namespace NimMarkdown

namespace Settings

variable {base base' : Settings} {overrides : List (Text × Value)}

/-- What overrides give a setting: the last value at its name that is not null. -/
def given? (overrides : List (Text × Value)) (k : Setting) : Option Value :=
  (overrides.filter fun entry => !entry.2.isNull).reverse.lookup k.name.toList

/-- Every setting has the value that the overrides give it, or else the one it had. -/
def merged (base : Settings) (overrides : List (Text × Value)) : Settings where
  get k := (given? overrides k).getD (base.get k)

theorem setAll_eq {entries : List (Text × Value)}
    (known : ∀ entry ∈ entries, ∃ k : Setting, k.name.toList = entry.1) (base : Settings) :
    base.setAll entries =
      some ⟨fun k => (entries.reverse.lookup k.name.toList).getD (base.get k)⟩ := by
  induction entries generalizing base with
  | nil => rfl
  | cons entry rest ih =>
    obtain ⟨name, v⟩ := entry
    obtain ⟨⟨key, rfl⟩, others⟩ := List.forall_mem_cons.1 known
    rw [setAll, Setting.ofName?_eq_some_iff.2 rfl, Option.bind_some, ih others]
    refine congrArg some (ext_get fun k => ?_)
    simp only [List.reverse_cons, List.lookup_append, get_set]
    cases rest.reverse.lookup k.name.toList with
    | some later => rfl
    | none =>
      by_cases hk : k = key
      · subst hk
        simp
      · have other : (k.name.toList == key.name.toList) = false :=
          beq_eq_false_iff_ne.2 fun he => hk (Setting.name_injective he)
        simp [hk, List.lookup_cons, other]

theorem setAll_eq_none {entries : List (Text × Value)} {entry : Text × Value} (hm : entry ∈ entries)
    (unknown : ∀ k : Setting, k.name.toList ≠ entry.1) (base : Settings) :
    base.setAll entries = none := by
  induction entries generalizing base with
  | nil => cases hm
  | cons first rest ih =>
    rw [setAll]
    rcases List.mem_cons.1 hm with rfl | hm
    · rw [Setting.ofName?_eq_none_iff.2 unknown]
      rfl
    · exact Option.bind_eq_none_iff.2 fun key _ => ih hm (base.set key first.2)

/-- A name of the overrides is reserved, or has a value and is the name of no setting. -/
def Refused (overrides : List (Text × Value)) : Prop :=
  ∃ entry ∈ overrides, entry.1 = reservedName ∨
    entry.2.isNull = false ∧ ∀ k : Setting, k.name.toList ≠ entry.1

theorem override_of_refused (h : Refused overrides) (base : Settings) :
    base.override overrides = none := by
  rw [override]
  obtain ⟨entry, hm, reserved | ⟨valued, unknown⟩⟩ := h
  · have named : (overrides.any fun entry => entry.1 == reservedName) = true :=
      List.any_eq_true.2 ⟨entry, hm, by simpa using reserved⟩
    rw [if_pos named]
  · split
    · rfl
    · exact setAll_eq_none (List.mem_filter.2 ⟨hm, by rw [valued]; rfl⟩) unknown base

theorem override_of_accepted (h : ¬ Refused overrides) (base : Settings) :
    base.override overrides = some (base.merged overrides) := by
  have plain : (overrides.any fun entry => entry.1 == reservedName) = false :=
    List.any_eq_false.2 fun entry hm reserved => h ⟨entry, hm, .inl (beq_iff_eq.1 reserved)⟩
  rw [override, plain, if_neg Bool.false_ne_true]
  refine setAll_eq (fun entry hm => ?_) base
  obtain ⟨hm, valued⟩ := List.mem_filter.1 hm
  by_contra unknown
  exact h ⟨entry, hm, .inr ⟨by simpa using valued, not_exists.1 unknown⟩⟩

theorem override_eq_none_iff : base.override overrides = none ↔ Refused overrides := by
  by_cases h : Refused overrides
  · simp [override_of_refused h, h]
  · simp [override_of_accepted h, h]

theorem eq_merged (h : base.override overrides = some base') :
    base' = base.merged overrides := by
  by_cases refused : Refused overrides
  · rw [override_of_refused refused] at h
    cases h
  · rw [override_of_accepted refused] at h
    exact (Option.some.inj h).symm

/-- Names of settings are never reserved. -/
theorem not_named {name : Text} (other : ∀ k ∈ Setting.all, k.name.toList ≠ name)
    (known : ∀ entry ∈ overrides, ∃ k : Setting, k.name.toList = entry.1) :
    (overrides.any fun entry => entry.1 == name) = false := by
  refine List.any_eq_false.2 fun entry hm => ?_
  obtain ⟨k, hk⟩ := known entry hm
  rw [← hk]
  simpa using other k (Setting.mem_all k)

theorem override_eq (known : ∀ entry ∈ overrides, ∃ k : Setting, k.name.toList = entry.1)
    (base : Settings) : base.override overrides = some (base.merged overrides) := by
  refine override_of_accepted ?_ base
  rintro ⟨entry, hm, reserved | ⟨-, unknown⟩⟩
  · have plain : (overrides.any fun entry => entry.1 == reservedName) = false :=
      not_named (by decide) known
    exact List.any_eq_false.1 plain entry hm (beq_iff_eq.2 reserved)
  · obtain ⟨k, hk⟩ := known entry hm
    exact unknown k hk

/-- In a map, a value stands at a name if it is found there. -/
theorem lookup_eq_some_iff {entries : List (Text × Value)} (nodup : (entries.map Prod.fst).Nodup)
    {name : Text} {v : Value} : entries.lookup name = some v ↔ (name, v) ∈ entries := by
  refine ⟨mem_of_lookup, fun hm => ?_⟩
  obtain ⟨before, behind, he⟩ := List.append_of_mem hm
  refine List.lookup_eq_some_iff.2 ⟨before, behind, he, fun entry hb => bne_iff_ne.2 fun same => ?_⟩
  rw [he, List.map_append, List.nodup_append] at nodup
  exact nodup.2.2 _ (List.mem_map_of_mem hb) _ List.mem_cons_self same.symm

/-- Where no name stands twice, an override counts unless it is null. -/
theorem given?_eq_some_iff (nodup : (overrides.map Prod.fst).Nodup) {k : Setting} {v : Value} :
    given? overrides k = some v ↔ (k.name.toList, v) ∈ overrides ∧ v.isNull = false := by
  have distinct :
      ((overrides.filter fun entry => !entry.2.isNull).reverse.map Prod.fst).Nodup := by
    rw [List.map_reverse, List.nodup_reverse]
    exact nodup.sublist (List.filter_sublist.map _)
  rw [given?, lookup_eq_some_iff distinct]
  simp

/-- What a setting had does not matter where it is overridden. -/
theorem merged_congr (same : ∀ k, given? overrides k = none → base'.get k = base.get k) :
    base'.merged overrides = base.merged overrides := by
  refine ext_get fun k => ?_
  simp only [merged]
  cases hg : given? overrides k with
  | some v => rfl
  | none => exact same k hg

/-! ## Overrides on top of others -/

section

variable {a b m : List (Text × Value)}

/-- The overrides `m` have the values of `b` that are not null, and where `b` has none, the entries
of `a`. -/
def Updates (a b m : List (Text × Value)) : Prop :=
  ∀ name, m.lookup name = ((b.lookup name).filter (!·.isNull)).or (a.lookup name)

theorem given?_eq (nodup : (a.map Prod.fst).Nodup) (k : Setting) :
    given? a k = (a.lookup k.name.toList).filter (!·.isNull) := by
  ext v
  rw [given?_eq_some_iff nodup, ← lookup_eq_some_iff nodup, Option.filter_eq_some_iff,
    Bool.not_eq_true']

theorem refused_iff (nodup : (a.map Prod.fst).Nodup) : Refused a ↔
    ∃ name v, a.lookup name = some v ∧
      (name = reservedName ∨ v.isNull = false ∧ ∀ k : Setting, k.name.toList ≠ name) := by
  simp only [lookup_eq_some_iff nodup, Refused, Prod.exists]

namespace Updates

variable (updates : Updates a b m) (na : (a.map Prod.fst).Nodup) (nb : (b.map Prod.fst).Nodup)
  (nm : (m.map Prod.fst).Nodup)
include updates na nb nm

theorem merged (base : Settings) : base.merged m = (base.merged a).merged b := by
  refine ext_get fun k => ?_
  have given : given? m k = (given? b k).or (given? a k) := by
    rw [given?_eq nm, given?_eq nb, given?_eq na, updates]
    cases b.lookup k.name.toList with
    | none => rfl
    | some v => cases hv : v.isNull <;> simp [Option.filter, hv]
  simp only [Settings.merged, given]
  cases given? b k <;> rfl

/-- A null at the reserved name of `b` is refused, and is no value of `m`. -/
theorem refused (unreserved : ∀ entry ∈ b, entry.1 = reservedName → entry.2.isNull = false) :
    Refused m ↔ Refused a ∨ Refused b := by
  rw [refused_iff nm, refused_iff na, refused_iff nb]
  constructor
  · rintro ⟨name, v, hv, wrong⟩
    rw [updates, Option.or_eq_some_iff, Option.filter_eq_some_iff] at hv
    rcases hv with ⟨hb, -⟩ | ⟨-, ha⟩
    · exact .inr ⟨name, v, hb, wrong⟩
    · exact .inl ⟨name, v, ha, wrong⟩
  · rintro (⟨name, v, hv, wrong⟩ | ⟨name, v, hv, wrong⟩)
    · cases hb : (b.lookup name).filter (!·.isNull) with
      | none => exact ⟨name, v, by rw [updates, hb, hv]; rfl, wrong⟩
      | some v' =>
        have valued : v'.isNull = false := by
          simpa using (Option.filter_eq_some_iff.1 hb).2
        exact ⟨name, v', by rw [updates, hb]; rfl, wrong.imp_right fun h => ⟨valued, h.2⟩⟩
    · have valued : v.isNull = false := by
        rcases wrong with rfl | ⟨valued, -⟩
        · exact unreserved _ ((lookup_eq_some_iff nb).1 hv) rfl
        · exact valued
      exact ⟨name, v, by rw [updates, hv]; simp [Option.filter, valued], wrong⟩

end Updates

/-- Where the reserved name has no null, only a value can be refused. -/
theorem refused_iff_unknown
    (unreserved : ∀ entry ∈ a, entry.1 = reservedName → entry.2.isNull = false) :
    Refused a ↔ ∃ entry ∈ a, entry.2.isNull = false ∧
      ∀ k : Setting, k.name.toList ≠ entry.1 := by
  have notSetting : ∀ k ∈ Setting.all, k.name.toList ≠ reservedName := by decide
  constructor
  · rintro ⟨entry, hm, reserved | unknown⟩
    · refine ⟨entry, hm, unreserved entry hm reserved, fun k => ?_⟩
      rw [reserved]
      exact notSetting k (Setting.mem_all k)
    · exact ⟨entry, hm, unknown⟩
  · rintro ⟨entry, hm, unknown⟩
    exact ⟨entry, hm, .inr unknown⟩

theorem override_withoutNulls
    (unreserved : ∀ entry ∈ a, entry.1 = reservedName → entry.2.isNull = false)
    (base : Settings) :
    base.override (a.filter fun entry => !entry.2.isNull) = base.override a := by
  have sameRefusal : Refused (a.filter fun entry => !entry.2.isNull) ↔ Refused a := by
    rw [refused_iff_unknown unreserved,
      refused_iff_unknown fun entry hm => unreserved entry (List.mem_of_mem_filter hm)]
    constructor
    · rintro ⟨entry, hm, unknown⟩
      exact ⟨entry, List.mem_of_mem_filter hm, unknown⟩
    · rintro ⟨entry, hm, valued, unknown⟩
      exact ⟨entry, List.mem_filter.2 ⟨hm, by rw [valued]; rfl⟩, valued, unknown⟩
  by_cases h : Refused a
  · rw [override_of_refused h, override_of_refused (sameRefusal.2 h)]
  · rw [override_of_accepted h, override_of_accepted (mt sameRefusal.1 h)]
    simp only [Settings.merged, given?, List.filter_filter, Bool.and_self]

/-- **Overrides compose.** No name stands twice in the maps `a`, `b` and `m`, of which the last is
the first with the values of the second put in, and neither `a` nor `b` has a null at the reserved
name. To override with `a` and then with `b` is to override with `m`: it is refused exactly for a
value at a name that is unknown; otherwise a setting has the value at its name, or where there is
none, the one it had. Nulls make no difference. At the reserved name anything is refused. -/
theorem override_override (na : (a.map Prod.fst).Nodup) (nb : (b.map Prod.fst).Nodup)
    (nm : (m.map Prod.fst).Nodup) (updates : Updates a b m)
    (unreserved : ∀ entry ∈ a ++ b, entry.1 = reservedName → entry.2.isNull = false)
    (s : Settings) :
    (s.override a).bind (·.override b) = s.override m ∧
    (s.override m = none ↔ ∃ entry ∈ a ++ b, entry.2.isNull = false ∧
      ∀ k : Setting, k.name.toList ≠ entry.1) ∧
    (∀ s', s.override m = some s' → ∀ k : Setting,
      (∀ v, (k.name.toList, v) ∈ m → v.isNull = false → s'.get k = v) ∧
      ((∀ entry ∈ a ++ b, entry.1 = k.name.toList → entry.2.isNull = true) →
        s'.get k = s.get k)) ∧
    s.override (a.filter fun entry => !entry.2.isNull) = s.override a ∧
    ∀ overrides, (∃ entry ∈ overrides, entry.1 = reservedName) → s.override overrides = none := by
  have unreservedA := fun entry hm => unreserved entry (List.mem_append_left b hm)
  have unreservedB := fun entry hm => unreserved entry (List.mem_append_right a hm)
  have refused := updates.refused na nb nm unreservedB
  refine ⟨?_, ?_, fun s' hs k => ?_, override_withoutNulls unreservedA s,
    fun overrides ⟨entry, hm, reserved⟩ => override_of_refused ⟨entry, hm, .inl reserved⟩ s⟩
  · by_cases ha : Refused a
    · rw [override_of_refused ha, override_of_refused (refused.2 (.inl ha)), Option.bind_none]
    rw [override_of_accepted ha, Option.bind_some]
    by_cases hb : Refused b
    · rw [override_of_refused hb, override_of_refused (refused.2 (.inr hb))]
    rw [override_of_accepted hb, override_of_accepted (mt refused.1 (not_or.2 ⟨ha, hb⟩)),
      updates.merged na nb nm]
  · rw [override_eq_none_iff, refused, refused_iff_unknown unreservedA,
      refused_iff_unknown unreservedB]
    simp only [List.mem_append, or_and_right, exists_or]
  · obtain rfl := eq_merged hs
    refine ⟨fun v hm valued => ?_, fun absent => ?_⟩
    · simp only [Settings.merged, (given?_eq_some_iff nm).2 ⟨hm, valued⟩, Option.getD_some]
    · have nothing : ∀ {c : List (Text × Value)}, (c.map Prod.fst).Nodup → c ⊆ a ++ b →
          given? c k = none := by
        intro c nodup within
        refine Option.eq_none_iff_forall_ne_some.2 fun v given => ?_
        obtain ⟨hm, valued⟩ := (given?_eq_some_iff nodup).1 given
        exact Bool.eq_false_iff.1 valued (absent _ (within hm) rfl)
      rw [updates.merged na nb nm]
      simp only [Settings.merged, nothing na (List.subset_append_left a b),
        nothing nb (List.subset_append_right a b), Option.getD_none]

/-- The null of the second map takes nothing back, and its string counts, although it is no limit;
a null may have an unknown name. -/
theorem override_override_mixed :
    (byDefault.override [("nope".toList, .null), ("include_headings".toList, .bool false),
        ("max_file_size".toList, .integer 5)]).bind
      (·.override [("include_headings".toList, .null), ("max_file_size".toList, .string ['x'])]) =
    some ((byDefault.set (.toggle .headings) (.bool false)).set (.limit .fileSize)
      (.string ['x'])) := by
  have updates : Updates
      [("nope".toList, .null), ("include_headings".toList, .bool false),
        ("max_file_size".toList, .integer 5)]
      [("include_headings".toList, .null), ("max_file_size".toList, .string ['x'])]
      [("nope".toList, .null), ("include_headings".toList, .bool false),
        ("max_file_size".toList, .string ['x'])] := by
    intro name
    by_cases size : name = "max_file_size".toList
    · subst size
      rfl
    by_cases headings : name = "include_headings".toList
    · subst headings
      rfl
    simp only [List.lookup_cons, beq_eq_false_iff_ne.2 size, beq_eq_false_iff_ne.2 headings,
      List.lookup_nil, Option.filter_none, Option.none_or]
  rw [(override_override (by decide) (by decide) (by decide) updates (by decide) byDefault).1]
  rfl

/-- A null at the reserved name gives no value, and still nothing can be overridden with it. -/
theorem override_nullAtReservedName :
    Updates [] [(reservedName, .null)] [] ∧
    (byDefault.override []).bind (·.override [(reservedName, .null)]) = none ∧
    byDefault.override [] = some byDefault := by
  refine ⟨fun name => ?_, rfl, rfl⟩
  by_cases reserved : name = reservedName
  · subst reserved
    rfl
  · simp only [List.lookup_cons, beq_eq_false_iff_ne.2 reserved, List.lookup_nil,
      Option.filter_none, Option.none_or]

end

end Settings

/-- The overrides of a request are those of its toggles. -/
theorem Command.Request.overrides_known (r : Command.Request) :
    ∀ entry ∈ r.overrides, ∃ k : Setting, k.name.toList = entry.1 := by
  intro entry hm
  obtain ⟨given, -, rfl⟩ := List.mem_map.1 hm
  exact ⟨.toggle given.1, rfl⟩

end NimMarkdown
