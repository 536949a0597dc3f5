import NimMarkdown.Proofs.Delivery
import NimMarkdown.Proofs.FileReading
import NimMarkdown.Proofs.Overrides
import NimMarkdown.Proofs.SettingsSearch
import NimMarkdown.Proofs.SourcePath

/-!
# Errors that are not reported

A run completes, or reports a usage error or a failure, unless it breaks
(`serve_crashes`). What it may break on is said stage by stage: the path of the source
(`Astray`), a settings file (`Barred`), and standard output or the output path
(`Undelivered`). The stages between them report whatever goes wrong.
-/

namespace NimMarkdown

open Command

section

variable {α β ε δ : Type} {x : Except ε α} {f : α → Except ε β} {g : ε → δ}

/-- Of two steps the first fails, or the second after the first. -/
theorem bind_eq_error_iff {e : ε} :
    x >>= f = .error e ↔ x = .error e ∨ ∃ a, x = .ok a ∧ f a = .error e := by
  cases x <;> simp [bind, Except.bind]

theorem bind_eq_ok_iff {b : β} : x >>= f = .ok b ↔ ∃ a, x = .ok a ∧ f a = .ok b := by
  cases x <;> simp [bind, Except.bind]

theorem mapError_eq_error_iff {e : δ} :
    x.mapError g = .error e ↔ ∃ e', x = .error e' ∧ g e' = e := by
  cases x <;> simp [Except.mapError]

theorem mapError_eq_ok_iff {a : α} : x.mapError g = .ok a ↔ x = .ok a := by
  cases x <;> simp [Except.mapError]

end

namespace Host

variable {h : Host} {k : Toolkit} {r : Request} {c : Crash} {text given : Text} {source : Path}

/-! ## The source -/

/-- The path of the source leads to an error that is not reported. -/
inductive Astray (h : Host) (text : Text) : Crash → Prop where
  | unknownHome (home : h.expandHome (.ofText text) = .error .unknown) :
      Astray h text (.path (.home .unknown))
  | loop {p : Path} {path : Text} (home : h.expandHome (.ofText text) = .ok p)
      (unseen : h.containsLink p = false)
      (canonical : h.tree.canonical h.linkRoom h.workingDirectory p = .error (.loop path)) :
      Astray h text (.path (.loop path))
  | tooDeep {p : Path} (home : h.expandHome (.ofText text) = .ok p)
      (unseen : h.containsLink p = false)
      (canonical : h.tree.canonical h.linkRoom h.workingDirectory p = .error .tooDeep) :
      Astray h text (.path .tooDeep)
  | refused {p q : Path} {cause : SystemError} (home : h.expandHome (.ofText text) = .ok p)
      (unseen : h.containsLink p = false)
      (canonical : h.tree.canonical h.linkRoom h.workingDirectory p = .ok q)
      (asked : h.isFile? q = .error cause) : Astray h text (.path (.refused cause))

theorem Astray.sourceFile (astray : h.Astray text c) :
    ∃ e, h.sourceFile text = .error e ∧ c = .path e ∧ Stop.ofSourcePath e = .crash c := by
  cases astray with
  | unknownHome home => exact ⟨_, by rw [Host.sourceFile, home], rfl, rfl⟩
  | @loop p path home unseen canonical =>
    exact ⟨.loop path, by simp [Host.sourceFile, home, unseen, canonical], rfl, rfl⟩
  | @tooDeep p home unseen canonical =>
    exact ⟨.tooDeep, by simp [Host.sourceFile, home, unseen, canonical], rfl, rfl⟩
  | @refused p q cause home unseen canonical asked =>
    exact ⟨.refused cause, by simp [Host.sourceFile, home, unseen, canonical, asked], rfl, rfl⟩

theorem astray_of_sourceFile {e : SourcePathError} (he : h.sourceFile text = .error e)
    (hc : Stop.ofSourcePath e = .crash c) : h.Astray text c := by
  unfold sourceFile at he
  split at he
  · next e' home =>
    cases he
    cases e' with
    | unknown =>
      cases hc
      exact .unknownHome home
    | nullByte => cases hc
  · next p home =>
    split at he
    · cases he
      cases hc
    · next unseen =>
      have unseen : h.containsLink p = false := by simpa using unseen
      split at he
      · next path canonical =>
        cases he
        cases hc
        exact .loop home unseen canonical
      · next canonical =>
        cases he
        cases hc
        exact .tooDeep home unseen canonical
      · cases he
        cases hc
      · cases he
        split at hc <;> cases hc
      · next q canonical =>
        split at he
        · next cause asked =>
          cases he
          cases hc
          exact .refused home unseen canonical asked
        · cases he
          cases hc
        · split at he
          · cases he
            cases hc
          · cases he

/-- A path that the system sees all of leads to the source or is turned down. -/
theorem Visible.not_astray {p : Path} (settled : h.tree.Settled h.workingDirectory)
    (he : h.expandHome (.ofText text) = .ok p) (visible : h.Visible p) : ¬ h.Astray text c := by
  intro astray
  obtain ⟨e, hs, hc, -⟩ := astray.sourceFile
  obtain ⟨loops, refuses, deep⟩ := sourceFile_turnedDown settled he visible hs
  cases astray with
  | unknownHome home => cases home.symm.trans he
  | loop =>
    cases hc
    exact loops _ rfl
  | tooDeep =>
    cases hc
    exact deep rfl
  | refused =>
    cases hc
    exact refuses _ rfl

/-! ## The settings -/

theorem loadSettings_of_source (settled : h.tree.Settled h.workingDirectory)
    (plain : Path.Plain h.workingDirectory) (hs : h.sourceFile text = .ok source) :
    h.loadSettings source.parent =
      h.loadFirst ((tablePlaces source.parent).map TablePlace.candidate) := by
  obtain ⟨p, -, -, canonical, hf, -⟩ := sourceFile_eq_ok_iff.1 hs
  obtain ⟨loc, mode, bytes, rfl, direct, hn, regular⟩ := sourceFile_direct settled hs
  obtain ⟨l, found⟩ := lstat_of_regularFile regular
  have short := (FileTree.accepted_of_find found).2
  have names : Path.Plain loc := FileTree.canonical_plain plain canonical
  have clear := direct.clear_of_find found
  refine loadSettings_of_resolved (FileTree.canonicalLax_direct settled
    (names.of_subset (List.dropLast_subset loc)) direct.dropLast
    (clear.of_prefix (List.dropLast_prefix loc)) ?_)
  exact Nat.le_trans (Path.length_toText_le (List.dropLast_sublist loc) .root) short

theorem Barred.ofLoad {places : List TablePlace} {e : LoadError} (barred : h.Barred places e) :
    Stop.ofLoad e = .crash (.settings e) := by
  obtain ⟨_, q, _, _, _, hi⟩ := barred
  cases hi <;> rfl

/-- The settings break a run if their search does not get past a file. -/
theorem buildSettings_breaks_iff (settled : h.tree.Settled h.workingDirectory)
    (plain : Path.Plain h.workingDirectory) (hs : h.sourceFile r.source = .ok source) :
    (∃ e, h.buildSettings source.parent r.overrides = .error e ∧ Stop.ofLoad e = .crash c) ↔
      ∃ e, h.Barred (tablePlaces source.parent) e ∧ c = .settings e := by
  have search : (r.overrides.any fun entry => entry.1 == directoryName) = false :=
    Settings.not_named (by decide) r.overrides_known
  simp only [buildSettings, search, if_neg Bool.false_ne_true, bind_eq_error_iff,
    loadSettings_of_source settled plain hs]
  constructor
  · rintro ⟨e, he | ⟨loaded, -, he⟩, hc⟩
    · rcases loadFirst_eq_error he with ⟨e', rfl⟩ | barred
      · cases hc
      · exact ⟨e, barred, (Stop.crash.inj (barred.ofLoad.symm.trans hc)).symm⟩
    · -- The toggles are known, so what is wrong is a value, which is reported.
      simp only [Settings.override_eq r.overrides_known, bind_eq_error_iff,
        mapError_eq_error_iff] at he
      obtain ⟨e', -, rfl⟩ | ⟨options, -, he⟩ := he
      · cases hc
      · cases he
  · rintro ⟨e, barred, rfl⟩
    exact ⟨e, .inl (loadFirst_of_barred barred), barred.ofLoad⟩

/-! ## Preparing and converting -/

theorem limitInForce_reported (options : Options) (l : Limit) :
    h.limitInForce options l ≠ .error (.crash c) := by
  intro he
  obtain ⟨e, -, hc⟩ := mapError_eq_error_iff.1 he
  cases hc

/-- The source is a file, so it is no more than too large. -/
theorem checkSize_reported {limit : Int} {e : FileError}
    (settled : h.tree.Settled h.workingDirectory) (hs : h.sourceFile text = .ok source)
    (he : h.checkSize source limit = .error e) : Stop.ofFile e ≠ .crash c := by
  obtain ⟨loc, mode, bytes, -, -, -, regular⟩ := sourceFile_direct settled hs
  rw [checkSize, regular, bind_eq_error_iff] at he
  obtain he | ⟨file, -, he⟩ := he
  · cases he
  · split at he
    · cases he
      nofun
    · cases he

/-- A run breaks before the source is read on its path or on the settings. -/
theorem prepare_breaks_iff (settled : h.tree.Settled h.workingDirectory)
    (plain : Path.Plain h.workingDirectory) :
    h.prepare r = .error (.crash c) ↔ h.Astray r.source c ∨ ∃ source e,
      h.sourceFile r.source = .ok source ∧ h.Barred (tablePlaces source.parent) e ∧
      c = .settings e := by
  simp only [prepare, bind_eq_error_iff, mapError_eq_error_iff, mapError_eq_ok_iff]
  constructor
  · rintro (⟨e, hs, hc⟩ | ⟨source, hs, hb | ⟨found, -, rest⟩⟩)
    · exact .inl (astray_of_sourceFile hs hc)
    · obtain ⟨e, barred, hc⟩ := (buildSettings_breaks_iff settled plain hs).1 hb
      exact .inr ⟨source, e, hs, barred, hc⟩
    · rcases rest with he | ⟨size, -, he | ⟨length, -, ⟨e, he, hc⟩ | ⟨-, -, he⟩⟩⟩
      · exact (limitInForce_reported _ _ he).elim
      · exact (limitInForce_reported _ _ he).elim
      · exact (checkSize_reported settled hs he hc).elim
      · cases he
  · rintro (astray | ⟨source, e, hs, barred, hc⟩)
    · obtain ⟨e, hs, -, hc⟩ := astray.sourceFile
      exact .inl ⟨e, hs, hc⟩
    · exact .inr ⟨source, hs, .inl ((buildSettings_breaks_iff settled plain hs).2 ⟨e, barred, hc⟩)⟩

theorem sourceFile_of_prepare {job : Job} (hj : h.prepare r = .ok job) :
    h.sourceFile r.source = .ok job.source := by
  simp only [prepare, bind_eq_ok_iff, mapError_eq_ok_iff] at hj
  obtain ⟨source, hs, _, _, _, _, _, _, _, _, hj⟩ := hj
  cases hj
  exact hs

/-- The source is found, so its path has no null character. -/
theorem readBytes_refused {e : SystemError} (hs : h.sourceFile text = .ok source)
    (he : h.readBytes source = .error e) : ∃ refusal, e = .refused refusal := by
  obtain ⟨-, -, -, -, hf, -⟩ := sourceFile_eq_ok_iff.1 hs
  obtain ⟨found, hstat⟩ := stat_of_isFile hf
  exact refused_of_readBytes (FileTree.accepted_of_find hstat).1 he

theorem ofOpen_reported (p : Path) (refusal : Refusal) :
    Stop.ofFile (.ofOpen p (.refused refusal)) ≠ .crash c := by
  unfold FileError.ofOpen
  dsimp only
  split <;> (intro hc; cases hc)

theorem readSource_reported {limit : Nat} {e : SourceFileError}
    (hs : h.sourceFile text = .ok source) (he : h.readSource source limit = .error e) :
    Stop.ofSourceFile e ≠ .crash c := by
  rw [readSource, readText] at he
  cases read : h.readBytes source with
  | error cause =>
    rw [read] at he
    cases he
    obtain ⟨refusal, rfl⟩ := readBytes_refused hs read
    exact ofOpen_reported source refusal
  | ok bytes =>
    rw [read] at he
    dsimp only at he
    cases hd : Utf8.decode bytes with
    | error e' =>
      rw [hd] at he
      cases he
      intro hc
      cases hc
    | ok content =>
      rw [hd] at he
      dsimp only at he
      split at he
      · cases he
        intro hc
        cases hc
      · cases he

theorem convert_reported {job : Job} (hs : h.sourceFile text = .ok job.source) (verbose : Bool) :
    h.convert k job verbose ≠ .error (.crash c) := by
  intro he
  simp only [convert, scanFile, bind_eq_error_iff, mapError_eq_error_iff] at he
  obtain ⟨e, he | ⟨content, -, e', he, -⟩, hc⟩ | ⟨scan, -, he⟩ := he
  · exact readSource_reported hs he hc
  · obtain ⟨s, hs⟩ := Source.scan_ok job.options content
    cases hs.symm.trans he
  · cases he

theorem produce_breaks_iff (settled : h.tree.Settled h.workingDirectory)
    (plain : Path.Plain h.workingDirectory) :
    h.produce k r = .error (.crash c) ↔ h.Astray r.source c ∨ ∃ source e,
      h.sourceFile r.source = .ok source ∧ h.Barred (tablePlaces source.parent) e ∧
      c = .settings e := by
  rw [produce, bind_eq_error_iff, ← prepare_breaks_iff settled plain]
  refine or_iff_left ?_
  rintro ⟨job, hj, he⟩
  exact convert_reported (sourceFile_of_prepare hj) r.verbose he

/-! ## The output -/

/-- A text leads to an error that is not reported, where it is printed or written. -/
inductive Undelivered (h : Host) (k : Toolkit) (text : Text) : Option Text → Crash → Prop where
  | output {e : StreamError} (some : text ≠ []) (print : k.print text = .error e) :
      Undelivered h k text none (.output e)
  | home {given : Text} {e : HomeError} (home : h.expandHome (.ofText given) = .error e) :
      Undelivered h k text (some given) (.path (.home e))
  /-- A null character is met where the temporary file is made, or where it is renamed. -/
  | null {given : Text} {p : Path} (home : h.expandHome (.ofText given) = .ok p)
      (null : p.hasNull = true)
      (asked : p.parent.hasNull = true ∨
        (∃ temporary, h.Makes p temporary) ∧ h.storage (Utf8.encode text) = none) :
      Undelivered h k text (some given) (.path .nullByte)

variable {p : Path} {lines : List Text} {overwrite : Bool}

/-- Nothing is found at a path with a null character. -/
theorem occupied_of_null (null : p.hasNull = true) : h.occupied? p = .ok false := by
  have missing (follow : Bool) : h.tree.find follow h.workingDirectory p = .error .nullByte := by
    rw [FileTree.find_eq, if_pos null]
  simp [occupied?, exists?, isLink?, stat, lstat, missing, SystemError.isAbsence]

theorem occupied_eq_error {e : SystemError} (he : h.occupied? p = .error e) :
    e.isAbsence = false := by
  unfold occupied? exists? isLink? at he
  cases hs : h.stat p with
  | ok found => simp [hs] at he
  | error e' =>
    cases ha : e'.isAbsence with
    | false =>
      simp only [hs, ha, Bool.false_eq_true, if_false] at he
      cases he
      exact ha
    | true =>
      simp only [hs, ha, if_true] at he
      split at he
      · cases he
      · cases he
      · split at he
        · cases he
        · next e'' _ absent =>
          cases he
          simpa using absent

theorem modeToWrite_of_null (null : p.hasNull = true) :
    h.modeToWrite p overwrite = .ok newFileMode := by
  rw [modeToWrite_eq, occupied_of_null null]

/-- A null character is no reason not to go on to the temporary file. -/
theorem modeToWrite_ne_null : h.modeToWrite p overwrite ≠ .error (.system .nullByte) := by
  intro he
  cases null : p.hasNull with
  | true => cases (modeToWrite_of_null null).symm.trans he
  | false =>
    rw [modeToWrite_eq] at he
    split at he
    · next e ho =>
      cases he
      cases occupied_eq_error ho
    · split at he
      · unfold regularFile at he
        split at he
        · next cause hl =>
          obtain ⟨refusal, rfl⟩ := FileTree.refused_of_find null hl
          cases he
        · cases he
        · cases he
        · cases he
      · cases he
    · cases he

theorem freeSlot_refused {directory : Path} {draws : List Draw} {e : SystemError}
    (he : h.freeSlot directory draws = .error e) : e ≠ .nullByte := by
  induction draws with
  | nil =>
    cases he
    intro hn
    cases hn
  | cons draw draws ih =>
    rw [freeSlot] at he
    dsimp only at he
    split at he
    · cases he
      intro hn
      cases hn
    · split at he
      · exact ih he
      · split at he
        · cases he
          intro hn
          cases hn
        · cases he

theorem createTemporary_null (he : h.createTemporary p = .error .nullByte) :
    p.parent.hasNull = true := by
  unfold createTemporary at he
  split at he
  · assumption
  · cases hf : h.freeSlot (FileTree.absolute h.workingDirectory p.parent) h.draws with
    | error cause =>
      rw [hf] at he
      cases he
      exact (freeSlot_refused hf rfl).elim
    | ok temporary =>
      rw [hf] at he
      cases he

theorem fillTemporary_ne_null {temporary : Temporary} {mode : Nat} {bytes : List Byte} :
    h.fillTemporary temporary mode bytes ≠ .error .nullByte := by
  unfold fillTemporary
  split <;> nofun

theorem moveInPlace_null {temporary : Temporary} {mode : Nat} {bytes : List Byte} :
    h.moveInPlace temporary p mode bytes = .error .nullByte ↔ p.hasNull = true := by
  unfold moveInPlace
  dsimp only
  split
  · next null => simp [null]
  · next null =>
    split
    · simp [null]
    · split <;> simp [null]

/-- A write fails before the temporary file is made, there, where it is filled, or where it is
renamed. -/
theorem writeLines_eq_error_iff {e : FileError} : (h.writeLines p lines overwrite).1 = .error e ↔
    h.modeToWrite p overwrite = .error e ∨ ∃ mode, h.modeToWrite p overwrite = .ok mode ∧
      ((∃ cause, h.createTemporary p = .error cause ∧ FileError.ofWrite p cause = e) ∨
      ∃ temporary created, h.createTemporary p = .ok (temporary, created) ∧
        ((∃ cause, created.fillTemporary temporary mode (Utf8.encode (endedLines lines)) =
          .error cause ∧ FileError.ofWrite p cause = e) ∨
        ∃ filled cause, created.fillTemporary temporary mode (Utf8.encode (endedLines lines)) =
            .ok filled ∧
          filled.moveInPlace temporary p mode (Utf8.encode (endedLines lines)) = .error cause ∧
          FileError.ofWrite p cause = e)) := by
  unfold writeLines
  cases h.modeToWrite p overwrite with
  | error e' => simp
  | ok mode =>
    dsimp only
    cases hc : h.createTemporary p with
    | error cause => simp
    | ok made =>
      obtain ⟨temporary, created⟩ := made
      dsimp only
      cases hs : created.fillTemporary temporary mode (Utf8.encode (endedLines lines)) with
      | error cause => simp [hs]
      | ok filled =>
        dsimp only
        cases hm : filled.moveInPlace temporary p mode (Utf8.encode (endedLines lines)) <;>
          simp [hs, hm]

theorem ofWrite_eq_null_iff {cause : SystemError} :
    FileError.ofWrite p cause = .system .nullByte ↔ cause = .nullByte := by
  cases cause <;> simp [FileError.ofWrite]

/-- A null character is met where the temporary file is made, or where it is renamed. -/
theorem writeLines_null_iff : (h.writeLines p lines overwrite).1 = .error (.system .nullByte) ↔
    p.hasNull = true ∧ (p.parent.hasNull = true ∨
      (∃ temporary, h.Makes p temporary) ∧ h.storage (Utf8.encode (endedLines lines)) = none) := by
  generalize hb : Utf8.encode (endedLines lines) = bytes
  simp only [writeLines_eq_error_iff, ofWrite_eq_null_iff, exists_eq_right, hb]
  constructor
  · rintro (he | ⟨mode, -, he | ⟨temporary, created, hc, he | ⟨filled, cause, hs, he, rfl⟩⟩⟩)
    · exact (modeToWrite_ne_null he).elim
    · have bare := createTemporary_null he
      exact ⟨Path.hasNull_of_subset (List.dropLast_subset p.names) bare, .inl bare⟩
    · exact (fillTemporary_ne_null he).elim
    · rcases createTemporary_cases h p with ⟨cause, he'⟩ | ⟨temporary', makes, hc'⟩
      · cases hc.symm.trans he'
      · obtain ⟨rfl, rfl⟩ := Prod.mk.inj (Except.ok.inj (hc.symm.trans hc'))
        refine ⟨moveInPlace_null.1 he, .inr ⟨⟨temporary, makes⟩, ?_⟩⟩
        unfold fillTemporary at hs
        split at hs
        · cases hs
        · assumption
  · rintro ⟨null, asked⟩
    refine .inr ⟨newFileMode, modeToWrite_of_null null, ?_⟩
    cases bare : p.parent.hasNull with
    | true => exact .inl (by rw [createTemporary, bare, if_pos rfl])
    | false =>
      obtain ⟨⟨temporary, makes⟩, stored⟩ := asked.resolve_left (by simp [bare])
      have created := createTemporary_of_makes makes bare
      exact .inr ⟨temporary, _, created, .inr ⟨_, .nullByte, by rw [fillTemporary, stored],
        moveInPlace_null.2 null, rfl⟩⟩

theorem crash_of_file {e : FileError} (messages : Text) :
    ((Stop.ofFile e).outcome k messages).crash = some c ↔
      e = .system .nullByte ∧ c = .path .nullByte := by
  unfold Stop.ofFile
  split
  · simp [Stop.outcome, eq_comm]
  · next other => exact ⟨nofun, fun he => (other he.1).elim⟩

theorem not_undelivered_of_shows {output : Text} (shows : k.Shows text output) :
    ¬ h.Undelivered k text none c := by
  intro undelivered
  cases undelivered with
  | output ne refused =>
    rcases shows with ⟨empty, -⟩ | ⟨-, printed⟩
    · exact ne empty
    · cases printed.symm.trans refused

theorem not_undelivered_of_home {target : Path}
    (he : h.expandHome (.ofText given) = .ok target) (bare : target.hasNull = false) :
    ¬ h.Undelivered k text (some given) c := by
  intro undelivered
  cases undelivered with
  | home home => cases he.symm.trans home
  | null home null =>
    obtain rfl := Except.ok.inj (he.symm.trans home)
    rw [bare] at null
    cases null

theorem printDocument_breaks_iff {rendering : Rendering} :
    (printDocument k rendering).crash = some c ↔
      h.Undelivered k (endedLines rendering.document.lines) none c := by
  rcases printDocument_cases k rendering with ⟨output, shows, hp⟩ | ⟨e, ne, refused, hp⟩ <;> rw [hp]
  · exact ⟨nofun, fun undelivered => (not_undelivered_of_shows shows undelivered).elim⟩
  · rw [Stop.outcome, Option.some.injEq]
    constructor
    · rintro rfl
      exact .output ne refused
    · intro undelivered
      cases undelivered with
      | output ne' refused' => rw [Except.error.inj (refused.symm.trans refused')]

theorem deliver_breaks_iff {rendering : Rendering} : (h.deliver k r rendering).1.crash = some c ↔
    h.Undelivered k (endedLines rendering.document.lines) r.output c := by
  cases ho : r.output with
  | none =>
    rw [deliver_printed ho]
    exact printDocument_breaks_iff
  | some given =>
    cases he : h.expandHome (.ofText given) with
    | error e =>
      rw [deliver_homeless ho he, Stop.outcome, Option.some.injEq]
      constructor
      · rintro rfl
        exact .home he
      · intro undelivered
        cases undelivered with
        | home home => rw [Except.error.inj (he.symm.trans home)]
        | null home => cases he.symm.trans home
    | ok p =>
      have broken : (h.deliver k r rendering).1.crash = some c ↔
          (h.writeLines p rendering.document.lines r.overwrite).1 = .error (.system .nullByte) ∧
            c = .path .nullByte := by
        rw [deliver_written ho he]
        obtain ⟨answer, after⟩ := h.writeLines p rendering.document.lines r.overwrite
        cases answer with
        | error e => simpa using crash_of_file rendering.messages
        | ok done => simp
      rw [broken, writeLines_null_iff]
      constructor
      · rintro ⟨⟨null, asked⟩, rfl⟩
        exact .null he null asked
      · intro undelivered
        cases undelivered with
        | home home => cases he.symm.trans home
        | null home null asked =>
          obtain rfl := Except.ok.inj (he.symm.trans home)
          exact ⟨⟨null, asked⟩, rfl⟩

/-! ## Runs -/

/-- What a run of a request breaks on. -/
inductive Breaks (h : Host) (k : Toolkit) (r : Request) : Crash → Prop where
  | source {c : Crash} (astray : h.Astray r.source c) : Breaks h k r c
  | settings {source : Path} {e : LoadError} (found : h.sourceFile r.source = .ok source)
      (barred : h.Barred (tablePlaces source.parent) e) : Breaks h k r (.settings e)
  | output {rendering : Rendering} {c : Crash} (produced : h.produce k r = .ok rendering)
      (undelivered : h.Undelivered k (endedLines rendering.document.lines) r.output c) :
      Breaks h k r c

theorem serve_breaks_iff (settled : h.tree.Settled h.workingDirectory)
    (plain : Path.Plain h.workingDirectory) :
    (h.serve k r).1.crash = some c ↔ h.Breaks k r c := by
  have early := produce_breaks_iff (k := k) (r := r) (c := c) settled plain
  constructor
  · intro hc
    cases hr : h.produce k r with
    | error stop =>
      rw [serve_of_stop hr] at hc
      cases stop with
      | usage | failure => cases hc
      | crash c' =>
        cases hc
        rcases early.1 hr with astray | ⟨source, e, hs, barred, rfl⟩
        · exact .source astray
        · exact .settings hs barred
    | ok rendering =>
      rw [serve_of_rendering hr, deliver_breaks_iff] at hc
      exact .output hr hc
  · intro breaks
    cases breaks with
    | source astray =>
      rw [serve_of_stop (early.2 (.inl astray))]
      rfl
    | settings found barred =>
      rw [serve_of_stop (early.2 (.inr ⟨_, _, found, barred, rfl⟩))]
      rfl
    | output produced undelivered =>
      rw [serve_of_rendering produced]
      exact deliver_breaks_iff.2 undelivered

/-- A run that does not break completes, or says what is wrong. -/
theorem serve_reports (hc : (h.serve k r).1.crash = none) : (h.serve k r).1.exitCode = 0 ∨
    (∃ messages e, (h.serve k r).1 = (Stop.usage e).outcome k messages) ∨
    ∃ messages e, (h.serve k r).1 = (Stop.failure e).outcome k messages := by
  refine (serve_cases h k r).imp_right ?_
  rintro ⟨stop, messages, hs⟩
  rw [hs] at hc ⊢
  cases stop with
  | usage e => exact .inl ⟨messages, e, rfl⟩
  | failure e => exact .inr ⟨messages, e, rfl⟩
  | crash c => cases hc

/-- **Errors that are not reported.** A run crashes exactly if it breaks on the path of the source,
a settings file, standard output or the output path, and any other run completes or reports a usage
error or a failure. No run breaks for which the system sees all of the path of the source, no
settings file is illegible that may be searched, standard output takes what it is given, and the
output path has a home that is known and no null character. -/
theorem serve_crashes (settled : h.tree.Settled h.workingDirectory)
    (plain : Path.Plain h.workingDirectory) (k : Toolkit) (r : Request) :
    (∀ c, (h.serve k r).1.crash = some c ↔ h.Breaks k r c) ∧
    ((∀ c, ¬ h.Breaks k r c) → (h.serve k r).1.exitCode = 0 ∨
      (∃ messages e, (h.serve k r).1 = (Stop.usage e).outcome k messages) ∨
      ∃ messages e, (h.serve k r).1 = (Stop.failure e).outcome k messages) ∧
    ∀ p, h.expandHome (.ofText r.source) = .ok p → h.Visible p →
      (∀ source, h.sourceFile r.source = .ok source →
        ∀ q ∈ tablePlaces source.parent, ∀ e, ¬ h.Illegible q.file e) →
      (r.output = none → ∀ rendering, h.produce k r = .ok rendering →
        ∃ output, k.Shows (endedLines rendering.document.lines) output) →
      (∀ given, r.output = some given →
        ∃ target, h.expandHome (.ofText given) = .ok target ∧ target.hasNull = false) →
      ∀ c, ¬ h.Breaks k r c := by
  refine ⟨fun c => serve_breaks_iff settled plain, fun whole => ?_, ?_⟩
  · refine serve_reports (Option.eq_none_iff_forall_ne_some.2 fun c hc => ?_)
    exact whole c ((serve_breaks_iff settled plain).1 hc)
  · intro p he visible legible prints writes c breaks
    cases breaks with
    | source astray => exact visible.not_astray settled he astray
    | @settings source e found barred =>
      obtain ⟨before, q, after, split, -, hi⟩ := barred
      exact legible source found q (by simp [split]) e hi
    | @output rendering c produced undelivered =>
      cases ho : r.output with
      | none =>
        rw [ho] at undelivered
        obtain ⟨output, shows⟩ := prints ho rendering produced
        exact not_undelivered_of_shows shows undelivered
      | some given =>
        rw [ho] at undelivered
        obtain ⟨target, he, bare⟩ := writes given ho
        exact not_undelivered_of_home he bare undelivered

theorem study_visible : (study greeting).Visible (.ofText "a.nim".toList) where
  short := by decide
  short_lexical := by decide
  clear := fun _ _ _ => nofun
  stays := by
    rintro ⟨done, rest, hn, -⟩
    have up : ['.', '.'] ∈ (Path.ofText "a.nim".toList).names := by
      rw [hn]
      exact List.mem_append_right _ List.mem_cons_self
    revert up
    decide

/-- A request that completes, with a source that is found where no settings are. -/
theorem serve_crashes_study :
    (study greeting).tree.Settled (study greeting).workingDirectory ∧
      Path.Plain (study greeting).workingDirectory ∧
      (study greeting).Visible (.ofText "a.nim".toList) ∧
      (study greeting).sourceFile printing.source = .ok (FileTree.pathOf [['w'], "a.nim".toList]) ∧
      (∀ q ∈ tablePlaces (FileTree.pathOf [['w']]), ∀ e, ¬ (study greeting).Illegible q.file e) ∧
      (∀ c, ¬ (study greeting).Breaks .plain (printing.toFile "l/o.md".toList) c) ∧
      ((study greeting).serve .plain (printing.toFile "l/o.md".toList)).1.crash = none := by
  have settled := study_settled greeting
  have plain : Path.Plain (study greeting).workingDirectory := by
    intro name hm
    rw [List.mem_singleton.1 hm]
    decide
  have visible := study_visible
  have found : (study greeting).sourceFile printing.source =
      .ok (FileTree.pathOf [['w'], "a.nim".toList]) := by decide +kernel
  have legible : ∀ q ∈ tablePlaces (FileTree.pathOf [['w']]), ∀ e,
      ¬ (study greeting).Illegible q.file e := by
    have read : ∀ q ∈ tablePlaces (FileTree.pathOf [['w']]),
        ((study greeting).loadDocument q.file).isOk = true := by decide +kernel
    exact fun q hq e => legible_of_ok (read q hq)
  obtain ⟨crashes, -, orderly⟩ :=
    serve_crashes settled plain .plain (printing.toFile "l/o.md".toList)
  have whole := orderly _ rfl visible
    (fun source hs => Except.ok.inj (found.symm.trans hs) ▸ legible) nofun
    (fun given hg => ⟨.ofText given, by cases hg; rfl, by cases hg; rfl⟩)
  refine ⟨settled, plain, visible, found, legible, whole, ?_⟩
  exact Option.eq_none_iff_forall_ne_some.2 fun c hc => whole c ((crashes c).1 hc)

/-- A working directory with a source, and with a settings file that holds no text. -/
def unreadable : Host where
  tree := { entries := [([['w']], .directory),
    ([['w'], "a.nim".toList], .file 0o644 (Utf8.encode greeting)),
    ([['w'], "pyproject.toml".toList], .file 0o644 [0xFF])] }
  workingDirectory := [['w']]
  home := "/w".toList

/-- A settings file that holds no text, a user who is not known, in either path, and a null
character are not reported. -/
theorem serve_crashes_unreadable :
    (unreadable.serve .plain printing).1.crash =
        some (.settings (.encoding ⟨.invalidStart, 0, 1, 0xFF⟩)) ∧
      ((study greeting).serve .plain { source := "~nobody/a.nim".toList }).1.crash =
        some (.path (.home .unknown)) ∧
      ((study greeting).serve .plain (printing.toFile "~nobody/o.md".toList)).1.crash =
        some (.path (.home .unknown)) ∧
      ((study greeting).serve .plain (printing.toFile "o\x00.md".toList)).1.crash =
        some (.path .nullByte) := by
  decide +kernel

end Host

end NimMarkdown
