import NimMarkdown.Proofs.Crashes

/-!
# Effective settings

A setting has the value of the last override that gives it one, else the value of the
settings file, else its default: the overrides are merged into what was loaded
(`Settings.merged`), and only then is anything checked. So a value of the wrong type in
a file does no harm where an override covers it. What is checked, and in which order, is
the list `Settings.checks`; the error is the first of the list that applies
(`firstError_eq_some_iff`).

A run has the limits of its environment on top. They are put in behind the check, and
leave the settings valid.
-/

namespace NimMarkdown

/-- The setting whose value is wrong. -/
def SettingsError.setting? : SettingsError → Option Setting
  | .notBoolean t => some (.toggle t)
  | .notInteger l => some (.limit l)
  | .notPositive l => some (.limit l)
  | .invalidTable _ _ => none

namespace Settings

variable {s : Settings}

/-! ## Checking -/

/-- What can be wrong with values, in the order in which it is looked for. -/
def checks : List SettingsError :=
  Toggle.all.map .notBoolean ++ Limit.all.map .notInteger ++ Limit.all.map .notPositive

/-- The error applies to the values of the settings. -/
def Offends (s : Settings) : SettingsError → Prop
  | .notBoolean t => ∀ b, s.get (.toggle t) ≠ .bool b
  | .notInteger l => ∀ n, s.get (.limit l) ≠ .integer n
  | .notPositive l => ∃ n, s.get (.limit l) = .integer n ∧ n ≤ 0
  | .invalidTable _ _ => False

theorem Offends.setting {e : SettingsError} (h : s.Offends e) : ∃ k, e.setting? = some k := by
  cases e with
  | invalidTable => exact h.elim
  | _ => exact ⟨_, rfl⟩

/-- Toggles are booleans, and limits are positive integers. -/
structure Valid (s : Settings) : Prop where
  toggle : ∀ t, ∃ b, s.get (.toggle t) = .bool b
  limit : ∀ l, ∃ n, s.get (.limit l) = .integer n ∧ 0 < n

theorem toBool?_isNone_iff {v : Value} : v.toBool?.isNone = true ↔ ∀ b, v ≠ .bool b := by
  cases v <;> simp [Value.toBool?]

theorem toInt?_isNone_iff {v : Value} : v.toInt?.isNone = true ↔ ∀ n, v ≠ .integer n := by
  cases v <;> simp [Value.toInt?]

theorem toInt?_any_iff {v : Value} :
    v.toInt?.any (· ≤ 0) = true ↔ ∃ n, v = .integer n ∧ n ≤ 0 := by
  cases v <;> simp [Value.toInt?]

/-- The decision of `Offends` that the checks are made with. -/
def offends (s : Settings) : SettingsError → Bool
  | .notBoolean t => (s.get (.toggle t)).toBool?.isNone
  | .notInteger l => (s.get (.limit l)).toInt?.isNone
  | .notPositive l => (s.get (.limit l)).toInt?.any (· ≤ 0)
  | .invalidTable _ _ => false

theorem offends_iff {e : SettingsError} : s.offends e = true ↔ s.Offends e := by
  cases e with
  | notBoolean t => exact toBool?_isNone_iff
  | notInteger l => exact toInt?_isNone_iff
  | notPositive l => exact toInt?_any_iff
  | invalidTable => simp [offends, Offends]

/-- The error is the first of the checks that applies. -/
theorem firstError_eq (s : Settings) : s.firstError = checks.find? s.offends := by
  simp only [checks, List.find?_append, List.find?_map, firstError, Option.orElse_eq_orElse,
    Option.orElse_eq_or, Option.or_assoc]
  rfl

theorem firstError_eq_some_iff {e : SettingsError} : s.firstError = some e ↔
    ∃ before behind, checks = before ++ e :: behind ∧ s.Offends e ∧
      ∀ e' ∈ before, ¬ s.Offends e' := by
  rw [firstError_eq, List.find?_eq_some_iff_append, offends_iff]
  simp only [Bool.not_eq_true', ← Bool.not_eq_true, offends_iff]
  constructor
  · rintro ⟨he, before, behind, split, first⟩
    exact ⟨before, behind, split, he, first⟩
  · rintro ⟨before, behind, split, he, first⟩
    exact ⟨he, before, behind, split, first⟩

theorem firstError_eq_none_iff : s.firstError = none ↔ s.Valid := by
  rw [firstError_eq, List.find?_eq_none]
  simp only [offends_iff]
  constructor
  · intro none
    refine ⟨fun t => ?_, fun l => ?_⟩
    · have toggle := none (.notBoolean t) (by simp [checks, Toggle.mem_all])
      simpa only [Offends, ne_eq, not_forall, not_not] using toggle
    · have integer := none (.notInteger l) (by simp [checks, Limit.mem_all])
      have positive := none (.notPositive l) (by simp [checks, Limit.mem_all])
      simp only [Offends, ne_eq, not_forall, not_not, not_exists, not_and, Int.not_le]
        at integer positive
      obtain ⟨n, hn⟩ := integer
      exact ⟨n, hn, positive n hn⟩
  · intro valid e _
    cases e with
    | notBoolean t =>
      obtain ⟨b, hb⟩ := valid.toggle t
      exact fun h => h b hb
    | notInteger l =>
      obtain ⟨n, hn, -⟩ := valid.limit l
      exact fun h => h n hn
    | notPositive l =>
      obtain ⟨n, hn, positive⟩ := valid.limit l
      rintro ⟨m, hm, le⟩
      cases hn.symm.trans hm
      omega
    | invalidTable => exact not_false

theorem validate_eq_ok_iff {options : Options} :
    s.validate = .ok options ↔ s.Valid ∧ options = s.toOptions := by
  rw [← firstError_eq_none_iff, validate]
  cases s.firstError <;> simp [eq_comm]

end Settings

/-- The message begins with the name of the setting. -/
theorem SettingsError.name_isPrefix_message {e : SettingsError} {k : Setting}
    (h : e.setting? = some k) : '\x60' :: (k.name.toList ++ ['\x60']) <+: e.message := by
  have named (name : String) {rest : String} (h : rest.toList.head? = some '\x60') :
      '\x60' :: (name.toList ++ ['\x60']) <+: ("`" ++ name ++ rest).toList := by
    obtain ⟨more, hm⟩ := List.head?_eq_some_iff.1 h
    refine ⟨more, ?_⟩
    rw [String.toList_append, String.toList_append, hm]
    simp
  cases e with
  | notBoolean t | notInteger l | notPositive l =>
    cases h
    exact named _ (by decide)
  | invalidTable => cases h

namespace Host

open Command Settings

variable {h : Host} {r : Request} {base s : Settings} {overrides : List (Text × Value)}
  {directory : Path}

/-! ## Settings of a directory -/

theorem buildSettings_eq (loaded : h.loadSettings directory = .ok base)
    (known : ∀ entry ∈ overrides, ∃ k : Setting, k.name.toList = entry.1) :
    h.buildSettings directory overrides =
      match (base.merged overrides).firstError with
      | none => .ok (base.merged overrides, (base.merged overrides).toOptions)
      | some e => .error (.settings e) := by
  rw [buildSettings, not_named (by decide) known, if_neg Bool.false_ne_true, loaded]
  simp only [bind, Except.bind, override_eq known, validate]
  cases (base.merged overrides).firstError <;> rfl

theorem buildSettings_eq_ok_iff {options : Options}
    (known : ∀ entry ∈ overrides, ∃ k : Setting, k.name.toList = entry.1) :
    h.buildSettings directory overrides = .ok (s, options) ↔
      ∃ base, h.loadSettings directory = .ok base ∧ s = base.merged overrides ∧ s.Valid ∧
        options = s.toOptions := by
  constructor
  · intro built
    cases loaded : h.loadSettings directory with
    | error e =>
      rw [buildSettings, not_named (by decide) known, if_neg Bool.false_ne_true, loaded] at built
      cases built
    | ok base =>
      rw [buildSettings_eq loaded known] at built
      cases he : (base.merged overrides).firstError with
      | some e =>
        rw [he] at built
        cases built
      | none =>
        rw [he] at built
        cases built
        exact ⟨base, rfl, rfl, firstError_eq_none_iff.1 he, rfl⟩
  · rintro ⟨base, loaded, rfl, valid, rfl⟩
    rw [buildSettings_eq loaded known, firstError_eq_none_iff.2 valid]

/-! ## The limits of a run -/

/-- The limit of a run: that of its variable, if it is set, else that of the settings. No variable
has a null character. -/
def HasLimit (h : Host) (s : Settings) (l : Limit) (n : Int) : Prop :=
  match h.environment.lookup l.variableName.toList with
  | some value => '\x00' ∉ value ∧ Text.integer? value = some n ∧ 0 < n
  | none => s.get (.limit l) = .integer n

theorem limitInForce_eq_ok_iff (valid : s.Valid) {l : Limit} {n : Int} :
    h.limitInForce s.toOptions l = .ok n ↔ h.HasLimit s l n := by
  rw [limitInForce, mapError_eq_ok_iff]
  unfold Limit.inForce HasLimit
  cases h.environment.lookup l.variableName.toList with
  | none =>
    have given := limit_of_valid (validate_eq_ok_iff.2 ⟨valid, rfl⟩) l
    simp only [given, Except.ok.injEq, Value.integer.injEq]
  | some value =>
    dsimp only
    split
    · next null =>
      have null : '\x00' ∈ value := by simpa using null
      exact ⟨nofun, fun sound => (sound.1 null).elim⟩
    · next null =>
      have null : '\x00' ∉ value := by simpa using null
      split
      · next unread => simp [unread]
      · next m read =>
        split
        · next low =>
          refine ⟨nofun, fun ⟨_, hn, positive⟩ => ?_⟩
          cases read.symm.trans hn
          omega
        · next high =>
          simp only [read, Except.ok.injEq, Option.some.injEq, null, not_false_eq_true, true_and]
          constructor
          · rintro rfl
            exact ⟨rfl, by omega⟩
          · exact And.left

/-- A limit that a run has may be put into its settings. -/
theorem HasLimit.valid_set {l : Limit} {n : Int} (hn : h.HasLimit s l n) (valid : s.Valid) :
    (s.set (.limit l) (.integer n)).Valid := by
  have positive : 0 < n := by
    unfold HasLimit at hn
    split at hn
    · exact hn.2.2
    · obtain ⟨m, hm, positive⟩ := valid.limit l
      cases hn.symm.trans hm
      exact positive
  refine ⟨fun t => ?_, fun l' => ?_⟩
  · rw [get_set, if_neg (nofun)]
    exact valid.toggle t
  · rw [get_set]
    split
    · exact ⟨n, rfl, positive⟩
    · exact valid.limit l'

theorem toOptions_lineLength (s : Settings) (n : Int) :
    (s.set (.limit .lineLength) (.integer n)).toOptions =
      { s.toOptions with
        limit := fun
          | .fileSize => s.toOptions.limit .fileSize
          | .lineLength => n.toNat } := by
  simp only [toOptions, Options.mk.injEq]
  refine ⟨rfl, funext fun l => ?_⟩
  cases l <;> rfl

/-- A run comes to the source with the settings of its directory, merged with what was given, and
with the limits of the environment. -/
theorem prepare_eq_ok_iff {job : Job} : h.prepare r = .ok job ↔ ∃ base size length,
    h.sourceFile r.source = .ok job.source ∧ h.loadSettings job.source.parent = .ok base ∧
      (base.merged r.overrides).Valid ∧ h.HasLimit (base.merged r.overrides) .fileSize size ∧
      h.HasLimit (base.merged r.overrides) .lineLength length ∧
      h.checkSize job.source size = .ok () ∧
      job.options = ((base.merged r.overrides).set (.limit .lineLength)
        (.integer length)).toOptions := by
  simp only [prepare, bind_eq_ok_iff, mapError_eq_ok_iff, Prod.exists,
    buildSettings_eq_ok_iff (Request.overrides_known r)]
  constructor
  · rintro ⟨source, found, s, options, ⟨base, loaded, rfl, valid, rfl⟩, size, hs, length, hl, _,
      checked, hj⟩
    cases hj
    exact ⟨base, size, length, found, loaded, valid, (limitInForce_eq_ok_iff valid).1 hs,
      (limitInForce_eq_ok_iff valid).1 hl, checked, (toOptions_lineLength _ _).symm⟩
  · rintro ⟨base, size, length, found, loaded, valid, hs, hl, checked, ho⟩
    refine ⟨_, found, _, _, ⟨base, loaded, rfl, valid, rfl⟩, size,
      (limitInForce_eq_ok_iff valid).2 hs, length, (limitInForce_eq_ok_iff valid).2 hl, (), checked,
      ?_⟩
    rw [toOptions_lineLength] at ho
    cases job
    cases ho
    rfl

/-- **Effective settings.** Overrides count before the settings that were loaded, and of what they
are merged into the first wrong value is reported, so what is overridden may have any value. A run
comes to its source with such settings, under the limits of its environment where they are set; a
file is refused for its size by no other limit. -/
theorem settings_effective (h : Host) :
    (∀ directory base overrides, h.loadSettings directory = .ok base →
      (∀ entry ∈ overrides, ∃ k : Setting, k.name.toList = entry.1) →
      let merged := base.merged overrides
      ((overrides.map Prod.fst).Nodup → ∀ k v, given? overrides k = some v ↔
        (k.name.toList, v) ∈ overrides ∧ v.isNull = false) ∧
      (merged.Valid → h.buildSettings directory overrides = .ok (merged, merged.toOptions)) ∧
      (¬ merged.Valid → ∃ before e behind k, checks = before ++ e :: behind ∧
        (∀ e' ∈ before, ¬ merged.Offends e') ∧ merged.Offends e ∧
        h.buildSettings directory overrides = .error (.settings e) ∧ e.setting? = some k ∧
        '\x60' :: (k.name.toList ++ ['\x60']) <+: e.message) ∧
      ∀ other base', h.loadSettings other = .ok base' →
        (∀ k, given? overrides k = none → base'.get k = base.get k) →
        h.buildSettings other overrides = h.buildSettings directory overrides) ∧
    ∀ r job, h.prepare r = .ok job ↔ ∃ base merged passed size length,
      h.sourceFile r.source = .ok job.source ∧ h.loadSettings job.source.parent = .ok base ∧
      merged = base.merged r.overrides ∧ merged.Valid ∧
      h.HasLimit merged .fileSize size ∧ h.checkSize job.source size = .ok () ∧
      h.HasLimit merged .lineLength length ∧
      passed = merged.set (.limit .lineLength) (.integer length) ∧ passed.Valid ∧
      job.options = passed.toOptions ∧
      h.fileOutline job.source passed =
        (h.scanFile job.source job.options).map Scan.outline := by
  refine ⟨fun directory base overrides loaded known => ?_, fun r job => ?_⟩
  · have built := buildSettings_eq loaded known
    refine ⟨fun nodup k v => given?_eq_some_iff nodup, fun valid => ?_, fun invalid => ?_,
      fun other base' loaded' same => ?_⟩
    · rw [built, firstError_eq_none_iff.2 valid]
    · cases he : (base.merged overrides).firstError with
      | none => exact (invalid (firstError_eq_none_iff.1 he)).elim
      | some e =>
        rw [he] at built
        obtain ⟨before, behind, split, offends, first⟩ := firstError_eq_some_iff.1 he
        obtain ⟨k, hk⟩ := offends.setting
        exact ⟨before, e, behind, k, split, first, offends, built, hk,
          SettingsError.name_isPrefix_message hk⟩
    · rw [built, buildSettings_eq loaded' known, merged_congr same]
  · rw [prepare_eq_ok_iff]
    constructor
    · rintro ⟨base, size, length, found, loaded, valid, hs, hl, checked, ho⟩
      have passed := hl.valid_set valid
      refine ⟨base, _, _, size, length, found, loaded, rfl, valid, hs, checked, hl, rfl, passed, ho,
        ?_⟩
      rw [fileOutline, validate_eq_ok_iff.2 ⟨passed, ho⟩]
      rfl
    · rintro ⟨base, _, _, size, length, found, loaded, rfl, valid, hs, checked, hl, rfl, -, ho, -⟩
      exact ⟨base, size, length, found, loaded, valid, hs, hl, checked, ho⟩

/-- A working directory with a source, and with a settings file in which a toggle is a number; the
environment has a limit. -/
def limited : Host where
  tree := { entries := [([['w']], .directory),
    ([['w'], "a.nim".toList], .file 0o644 (Utf8.encode greeting)),
    ([['w'], "pyproject.toml".toList], .file 0o644 (Utf8.encode
      "[tool.nimtomd]\nonly-public = 3\nmax-file-size = 50\n".toList))] }
  workingDirectory := [['w']]
  home := "/w".toList
  environment := [("NIMTOMD_MAX_LINE_LENGTH".toList, "20".toList)]

/-- A request with that toggle. -/
def exported : Request := { printing with toggles := [(.exportedOnly, true)] }

theorem exists_ok_of_map_toOption {ε α β : Type} {x : Except ε α} {f : α → β} {b : β}
    (h : x.toOption.map f = some b) : ∃ a, x = .ok a ∧ f a = b := by
  cases x with
  | error e => cases h
  | ok a => exact ⟨a, rfl, Option.some.inj h⟩

/-- What is in the settings file, and what is wrong with it unless the toggle is given. -/
theorem limited_loads : ∃ base, limited.loadSettings (FileTree.pathOf [['w']]) = .ok base ∧
    (base.get (.toggle .exportedOnly)).toInt? = some 3 ∧
    (base.merged exported.overrides).Valid ∧
    (base.merged []).firstError = some (.notBoolean .exportedOnly) ∧
    ((base.merged exported.overrides).get (.limit .fileSize)).toInt? = some 50 := by
  have values : (limited.loadSettings (FileTree.pathOf [['w']])).toOption.map (fun s =>
      ((s.get (.toggle .exportedOnly)).toInt?, (s.merged exported.overrides).firstError,
        (s.merged []).firstError, ((s.merged exported.overrides).get (.limit .fileSize)).toInt?)) =
      some (some 3, none, some (.notBoolean .exportedOnly), some 50) := by decide +kernel
  obtain ⟨base, loaded, values⟩ := exists_ok_of_map_toOption values
  simp only [Prod.mk.injEq] at values
  obtain ⟨number, covered, bare, fileSize⟩ := values
  exact ⟨base, loaded, number, firstError_eq_none_iff.1 covered, bare, fileSize⟩

theorem limited_prepares : ∃ job, limited.prepare exported = .ok job ∧
    job.source = FileTree.pathOf [['w'], "a.nim".toList] :=
  exists_ok_of_map_toOption (f := Job.source) (by decide +kernel)

/-- The number in the file counts unless the toggle is given, and the limits come from the file and
the environment. -/
theorem settings_effective_limited :
    let directory := FileTree.pathOf [['w']]
    ∃ base, limited.loadSettings directory = .ok base ∧
      (base.get (.toggle .exportedOnly)).toInt? = some 3 ∧
      (base.merged exported.overrides).Valid ∧
      limited.buildSettings directory exported.overrides =
        .ok (base.merged exported.overrides, (base.merged exported.overrides).toOptions) ∧
      ¬ (base.merged []).Valid ∧
      limited.buildSettings directory [] = .error (.settings (.notBoolean .exportedOnly)) ∧
      ∃ job size length, limited.prepare exported = .ok job ∧
        limited.HasLimit (base.merged exported.overrides) .fileSize size ∧
        limited.checkSize job.source size = .ok () ∧
        limited.HasLimit (base.merged exported.overrides) .lineLength length ∧
        job.options = ((base.merged exported.overrides).set (.limit .lineLength)
          (.integer length)).toOptions ∧ (size, length) = (50, 20) := by
  intro directory
  obtain ⟨base, loaded, number, valid, bare, fileSize⟩ := limited_loads
  obtain ⟨job, prepared, source⟩ := limited_prepares
  obtain ⟨merges, runs⟩ := settings_effective limited
  have invalid : ¬ (base.merged []).Valid := by
    intro h
    rw [firstError_eq_none_iff.2 h] at bare
    cases bare
  obtain ⟨-, taken, -, -⟩ :=
    merges directory base exported.overrides loaded (Request.overrides_known _)
  obtain ⟨-, -, refused, -⟩ := merges directory base [] loaded nofun
  obtain ⟨before, e, behind, k, split, first, offends, built, -⟩ := refused invalid
  obtain rfl := Option.some.inj
    ((firstError_eq_some_iff.2 ⟨before, behind, split, offends, first⟩).symm.trans bare)
  obtain ⟨_, _, _, size, length, -, found, rfl, -, hs, checked, hl, rfl, -, ho, -⟩ :=
    (runs exported job).1 prepared
  rw [source] at found
  obtain rfl := Except.ok.inj (loaded.symm.trans found)
  refine ⟨base, loaded, number, valid, taken valid, invalid, built, job, size, length, prepared, hs,
    checked, hl, ho, ?_⟩
  have given : (base.merged exported.overrides).get (.limit .fileSize) = .integer size := hs
  have read : Text.integer? "20".toList = some length := hl.2.1
  have twenty : Text.integer? "20".toList = some 20 := by decide +kernel
  rw [given] at fileSize
  rw [Option.some.inj fileSize, Option.some.inj (read.symm.trans twenty)]

end Host

end NimMarkdown
