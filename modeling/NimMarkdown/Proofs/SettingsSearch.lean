import NimMarkdown.Proofs.Decoding
import NimMarkdown.Proofs.SettingsTable
import NimMarkdown.Settings.File

/-!
# The nearest settings

Settings are looked for at a list of places (`tablePlaces`), and the first table that is
found counts (`loadSettings_nearest`). A place is passed over if no table is there; what
may end the search before a table is found is a file that cannot be read for another
reason than that it is missing or malformed (`Host.Illegible`). `loadDocument_cases`
says what is found in a single file, and `loadFile_cases` what at a single place; all
else is an induction over the places.
-/

namespace NimMarkdown

/-- Where a settings table may stand: a file, and the keys that lead to the table in it. -/
structure TablePlace where
  file : Path
  keys : List Text
  deriving DecidableEq, Repr

/-- The places for a directory, the nearest first. -/
def tablePlaces (directory : Path) : List TablePlace :=
  directory.upward.flatMap fun d =>
    [⟨d.child "pyproject.toml".toList, ["tool".toList, "nimtomd".toList]⟩,
      ⟨d.child ".nimtomd.toml".toList, ["nimtomd".toList]⟩,
      ⟨d.child ".nimtomd.toml".toList, ["tool".toList, "nimtomd".toList]⟩]

/-- A place, as a file that may have its table at one path only. -/
def TablePlace.candidate (q : TablePlace) : Path × List (List Text) := (q.file, [q.keys])

namespace Host

variable {h h' : Host} {file : Path} {q : TablePlace} {places upTo rest : List TablePlace}

/-! ## What a file holds -/

/-- The document in a file, if the file can be opened and holds one. -/
def document? (h : Host) (file : Path) : Option Value := do
  let bytes ← (h.readBytes file).toOption
  let text ← (Utf8.decode bytes).toOption
  (Toml.parse h.valueRoom text).toOption

/-- The value at a place, if there is one. -/
def tableAt? (h : Host) (q : TablePlace) : Option Value :=
  (h.document? q.file).bind fun v => v.atPath q.keys

/-- Why a search does not get past a file. -/
inductive Illegible (h : Host) (file : Path) : LoadError → Prop where
  | system {e : SystemError} (unknown : h.exists? file = .error e) : Illegible h file (.system e)
  | encoding {bytes : List Byte} {e : Utf8.DecodeError} (read : h.readBytes file = .ok bytes)
      (invalid : Utf8.decode bytes = .error e) : Illegible h file (.encoding e)
  | tooManyDigits {text : Text} {count : Nat} (read : h.readBytes file = .ok (Utf8.encode text))
      (digits : Toml.parse h.valueRoom text = .error (.tooManyDigits count)) :
      Illegible h file (.tooManyDigits count)
  | tooDeep {text : Text} (read : h.readBytes file = .ok (Utf8.encode text))
      (deep : Toml.parse h.valueRoom text = .error .tooDeep) : Illegible h file .tooDeep

theorem exists_of_readBytes {bytes : List Byte} (hb : h.readBytes file = .ok bytes) :
    h.exists? file = .ok true := by
  unfold readBytes at hb
  unfold exists?
  cases hs : h.stat file with
  | ok found => rfl
  | error e => rw [hs] at hb; cases hb

theorem document?_of_error {e : SystemError} (hb : h.readBytes file = .error e) :
    h.document? file = none := by
  rw [document?, hb]
  rfl

theorem document?_of_text {text : Text} (hb : h.readBytes file = .ok (Utf8.encode text)) :
    h.document? file = (Toml.parse h.valueRoom text).toOption := by
  rw [document?, hb]
  show (Utf8.decode (Utf8.encode text)).toOption.bind _ = _
  rw [Utf8.decode_encode]
  rfl

/-- The document in bytes. Bytes that are malformed hold none. -/
def documentIn (room : Nat) (bytes : List Byte) : Except LoadError (Option Value) :=
  match Utf8.decode bytes with
  | .error e => .error (.encoding e)
  | .ok text =>
    match Toml.parse room text with
    | .ok v => .ok (some v)
    | .error .malformed => .ok none
    | .error (.tooManyDigits count) => .error (.tooManyDigits count)
    | .error .tooDeep => .error .tooDeep

/-- A file whose bytes can be read holds a document, or none, or ends the search. -/
theorem loadDocument_of_bytes {bytes : List Byte} (hb : h.readBytes file = .ok bytes) :
    h.loadDocument file = documentIn h.valueRoom bytes := by
  simp only [loadDocument, exists_of_readBytes hb, hb, documentIn, bind, Except.bind,
    Except.mapError, if_true]
  cases Utf8.decode bytes with
  | error e => rfl
  | ok text =>
    dsimp only
    rcases Toml.parse h.valueRoom text with (_ | count | _) | v <;> rfl

theorem loadDocument_of_illegible {e : LoadError} (hi : h.Illegible file e) :
    h.loadDocument file = .error e := by
  cases hi with
  | system unknown =>
    rw [loadDocument, unknown]
    rfl
  | encoding read invalid => rw [loadDocument_of_bytes read, documentIn, invalid]
  | tooManyDigits read digits =>
    rw [loadDocument_of_bytes read, documentIn, Utf8.decode_encode]
    dsimp only
    rw [digits]
  | tooDeep read deep =>
    rw [loadDocument_of_bytes read, documentIn, Utf8.decode_encode]
    dsimp only
    rw [deep]

theorem legible_of_ok {e : LoadError} (ok : (h.loadDocument file).isOk = true) :
    ¬ h.Illegible file e := by
  intro hi
  rw [loadDocument_of_illegible hi] at ok
  cases ok

/-- A file ends the search, or the search goes on with its document, if it holds one. -/
theorem loadDocument_cases (h : Host) (file : Path) :
    (∃ e, h.loadDocument file = .error e ∧ h.Illegible file e) ∨
      h.loadDocument file = .ok (h.document? file) := by
  cases hb : h.readBytes file with
  | error e =>
    rw [document?_of_error hb]
    cases he : h.exists? file with
    | error e => exact .inl ⟨.system e, by rw [loadDocument, he]; rfl, .system he⟩
    | ok found =>
      refine .inr ?_
      simp only [loadDocument, he, hb, bind, Except.bind, Except.mapError]
      cases found <;> rfl
  | ok bytes =>
    have load := loadDocument_of_bytes hb
    rw [documentIn] at load
    cases hd : Utf8.decode bytes with
    | error e => exact .inl ⟨.encoding e, by rw [load, hd], .encoding hb hd⟩
    | ok text =>
      obtain rfl := Utf8.decode_eq_ok_iff.1 hd
      rw [hd] at load
      dsimp only at load
      have document := document?_of_text hb
      rcases hp : Toml.parse h.valueRoom text with (_ | count | _) | v <;> rw [hp] at load document
      · exact .inr (by rw [load, document]; rfl)
      · exact .inl ⟨_, load, .tooManyDigits hb hp⟩
      · exact .inl ⟨_, load, .tooDeep hb hp⟩
      · exact .inr (by rw [load, document]; rfl)

/-! ## What is found at a place -/

/-- The settings in a value that is found in a file at a path. -/
def settingsIn (file : Path) (keys : List Text) (v : Value) : Except LoadError Settings :=
  (Settings.ofTable v keys file.toText).mapError .settings

theorem loadFile_of_document {d : Option Value} (hd : h.loadDocument file = .ok d)
    (paths : List (List Text)) : h.loadFile file paths =
      match d.bind fun v => firstTable v paths with
      | none => .ok none
      | some (keys, v) => (settingsIn file keys v).map some := by
  rw [loadFile, hd]
  cases d with
  | none => rfl
  | some document =>
    simp only [bind, Except.bind, Option.bind_some]
    rcases firstTable document paths with _ | ⟨keys, v⟩
    · rfl
    · dsimp only [settingsIn]
      cases Settings.ofTable v keys file.toText <;> rfl

theorem loadFile_of_illegible {e : LoadError} (hi : h.Illegible file e)
    (paths : List (List Text)) : h.loadFile file paths = .error e := by
  rw [loadFile, loadDocument_of_illegible hi]
  rfl

theorem loadFile_of_place (hd : h.loadDocument q.file = .ok (h.document? q.file)) :
    h.loadFile q.file [q.keys] =
      match h.tableAt? q with
      | none => .ok none
      | some v => (settingsIn q.file q.keys v).map some := by
  rw [loadFile_of_document hd, tableAt?]
  cases h.document? q.file with
  | none => rfl
  | some document =>
    rw [Option.bind_some, Option.bind_some, firstTable, List.findSome?_cons]
    cases document.atPath q.keys <;> rfl

/-- A place ends the search with the error of its file, is passed over, or has the settings. -/
theorem loadFile_cases (h : Host) (q : TablePlace) :
    (∃ e, h.loadFile q.file [q.keys] = .error e ∧ h.Illegible q.file e) ∨
    (h.loadFile q.file [q.keys] = .ok none ∧ h.tableAt? q = none) ∨
    ∃ v, h.loadFile q.file [q.keys] = (settingsIn q.file q.keys v).map some ∧
      h.tableAt? q = some v := by
  rcases loadDocument_cases h q.file with ⟨e, -, hi⟩ | hd
  · exact .inl ⟨e, loadFile_of_illegible hi _, hi⟩
  · rw [loadFile_of_place hd]
    cases h.tableAt? q with
    | none => exact .inr (.inl ⟨rfl, rfl⟩)
    | some v => exact .inr (.inr ⟨v, rfl, rfl⟩)

/-! ## The search -/

/-- A file with several paths is searched as a file with one path after the other. -/
theorem loadFirst_paths {d : Option Value} (hd : h.loadDocument file = .ok d)
    (paths : List (List Text)) (rest : List (Path × List (List Text))) :
    h.loadFirst ((file, paths) :: rest) =
      h.loadFirst ((paths.map fun keys => (file, [keys])) ++ rest) := by
  have load := loadFile_of_document hd
  induction paths with
  | nil =>
    rw [loadFirst, load]
    cases d <;> rfl
  | cons keys paths ih =>
    rw [loadFirst] at ih
    rw [List.map_cons, List.cons_append, loadFirst, loadFirst, ← ih, load, load, load]
    cases d with
    | none => rfl
    | some document =>
      simp only [Option.bind_some, firstTable, List.findSome?_cons, List.findSome?_nil]
      cases document.atPath keys with
      | none => rfl
      | some v =>
        dsimp only [Option.map_some, settingsIn]
        cases Settings.ofTable v keys file.toText <;> rfl

/-- The files are searched place by place. -/
theorem loadFirst_places (candidates : List (Path × List (List Text)))
    (paths : ∀ c ∈ candidates, c.2 ≠ []) : h.loadFirst candidates =
      h.loadFirst (candidates.flatMap fun c => c.2.map fun keys => (c.1, [keys])) := by
  induction candidates with
  | nil => rfl
  | cons c rest ih =>
    obtain ⟨file, keys⟩ := c
    rw [List.forall_mem_cons] at paths
    have behind (first : Path × List (List Text)) : h.loadFirst (first :: rest) =
        h.loadFirst (first :: rest.flatMap fun c => c.2.map fun keys => (c.1, [keys])) := by
      rw [loadFirst, loadFirst, ih paths.2]
    rw [List.flatMap_cons, behind]
    rcases loadDocument_cases h file with ⟨e, -, hi⟩ | hd
    · obtain ⟨first, more, rfl⟩ := List.exists_cons_of_ne_nil paths.1
      rw [loadFirst, List.map_cons, List.cons_append, loadFirst, loadFile_of_illegible hi,
        loadFile_of_illegible hi]
    · exact loadFirst_paths hd _ _

theorem loadFirst_tablePlaces (directory : Path) :
    h.loadFirst (settingsCandidates directory) =
      h.loadFirst ((tablePlaces directory).map TablePlace.candidate) := by
  have places : (settingsCandidates directory).flatMap
      (fun c => c.2.map fun keys => (c.1, [keys])) =
        (tablePlaces directory).map TablePlace.candidate := by
    rw [settingsCandidates, tablePlaces, List.flatMap_assoc, List.map_flatMap]
    rfl
  rw [← places]
  refine loadFirst_places _ fun c hc => ?_
  have paths : ∀ entry ∈ settingsFiles, entry.2 ≠ [] := by decide
  obtain ⟨d, -, hc⟩ := List.mem_flatMap.1 hc
  obtain ⟨entry, he, rfl⟩ := List.mem_map.1 hc
  exact paths entry he

/-- The first of the places that has a value, with the value. -/
def firstTable? (h : Host) (places : List TablePlace) : Option (TablePlace × Value) :=
  places.findSome? fun q => (h.tableAt? q).map (q, ·)

theorem firstTable?_cons (h : Host) (q : TablePlace) (places : List TablePlace) :
    h.firstTable? (q :: places) =
      match h.tableAt? q with
      | none => h.firstTable? places
      | some v => some (q, v) := by
  rw [firstTable?, List.findSome?_cons]
  cases h.tableAt? q <;> rfl

/-- Where all files can be read, the search comes to the first value, or gets past the places. -/
theorem loadFirst_append (legible : ∀ q ∈ upTo, ∀ e, ¬ h.Illegible q.file e) :
    h.loadFirst ((upTo ++ rest).map TablePlace.candidate) =
      match h.firstTable? upTo with
      | none => h.loadFirst (rest.map TablePlace.candidate)
      | some (q, v) => settingsIn q.file q.keys v := by
  induction upTo with
  | nil => rfl
  | cons q upTo ih =>
    rw [List.forall_mem_cons] at legible
    rw [List.cons_append, List.map_cons, TablePlace.candidate, loadFirst, firstTable?_cons,
      ih legible.2]
    rcases loadFile_cases h q with ⟨e, -, hi⟩ | ⟨load, ht⟩ | ⟨v, load, ht⟩
    · exact (legible.1 e hi).elim
    · rw [load, ht]
    · rw [load, ht]
      dsimp only
      cases settingsIn q.file q.keys v <;> rfl

theorem firstTable?_eq_none_iff :
    h.firstTable? places = none ↔ ∀ q ∈ places, h.tableAt? q = none := by
  simp only [firstTable?, List.findSome?_eq_none_iff, Option.map_eq_none_iff]

/-- The search comes to a file that it does not get past, and to no value before. -/
def Barred (h : Host) (places : List TablePlace) (e : LoadError) : Prop :=
  ∃ before q after, places = before ++ q :: after ∧
    (∀ q ∈ before, h.tableAt? q = none ∧ ∀ e, ¬ h.Illegible q.file e) ∧ h.Illegible q.file e

theorem loadFirst_of_barred {e : LoadError} (barred : h.Barred places e) :
    h.loadFirst (places.map TablePlace.candidate) = .error e := by
  obtain ⟨before, q, after, rfl, passed, hi⟩ := barred
  have none := firstTable?_eq_none_iff.2 fun q hq => (passed q hq).1
  rw [loadFirst_append fun q hq => (passed q hq).2, none, List.map_cons, TablePlace.candidate]
  dsimp only
  rw [loadFirst, loadFile_of_illegible hi]

/-- A search fails at a value that gives no settings, or does not get past a file. -/
theorem loadFirst_eq_error {e : LoadError}
    (he : h.loadFirst (places.map TablePlace.candidate) = .error e) :
    (∃ e', e = .settings e') ∨ h.Barred places e := by
  induction places with
  | nil => cases he
  | cons q places ih =>
    rw [List.map_cons, TablePlace.candidate, loadFirst] at he
    rcases loadFile_cases h q with ⟨e', load, hi⟩ | ⟨load, ht⟩ | ⟨v, load, -⟩
    · rw [load] at he
      cases he
      exact .inr ⟨[], q, places, rfl, nofun, hi⟩
    · rw [load] at he
      refine (ih he).imp_right ?_
      rintro ⟨before, other, after, rfl, passed, hi⟩
      have legible : ∀ e, ¬ h.Illegible q.file e :=
        fun e' hi' => by cases load.symm.trans (loadFile_of_illegible hi' _)
      exact ⟨q :: before, other, after, rfl, List.forall_mem_cons.2 ⟨⟨ht, legible⟩, passed⟩, hi⟩
    · rw [load, settingsIn] at he
      cases ht : Settings.ofTable v q.keys q.file.toText with
      | error e' =>
        rw [ht] at he
        cases he
        exact .inl ⟨e', rfl⟩
      | ok s =>
        rw [ht] at he
        cases he

/-- A search that ends among the places is not concerned with what follows. -/
theorem loadFirst_congr {rest' : List TablePlace}
    (same : ∀ q ∈ upTo, h'.loadFile q.file [q.keys] = h.loadFile q.file [q.keys])
    (enough : (∃ q ∈ upTo, h.tableAt? q ≠ none) ∨ rest = [] ∧ rest' = []) :
    h'.loadFirst ((upTo ++ rest').map TablePlace.candidate) =
      h.loadFirst ((upTo ++ rest).map TablePlace.candidate) := by
  induction upTo with
  | nil =>
    rcases enough with ⟨q, hq, -⟩ | ⟨rfl, rfl⟩
    · cases hq
    · rfl
  | cons q upTo ih =>
    rw [List.forall_mem_cons] at same
    rw [List.cons_append, List.map_cons, List.cons_append, List.map_cons, TablePlace.candidate,
      loadFirst, loadFirst, same.1]
    rcases loadFile_cases h q with ⟨e, load, -⟩ | ⟨load, ht⟩ | ⟨v, load, -⟩
    · rw [load]
    · rw [load]
      refine ih same.2 (enough.imp_left ?_)
      rintro ⟨other, hm, hit⟩
      rcases List.mem_cons.1 hm with rfl | hm
      · exact (hit ht).elim
      · exact ⟨other, hm, hit⟩
    · rw [load]
      cases settingsIn q.file q.keys v <;> rfl

/-- Two hosts find the same in a file, and have the same room for its values. -/
structure SameFile (h h' : Host) (file : Path) : Prop where
  exists? : h'.exists? file = h.exists? file
  bytes : h'.readBytes file = h.readBytes file
  room : h'.valueRoom = h.valueRoom

theorem SameFile.loadFile (same : h.SameFile h' file) (paths : List (List Text)) :
    h'.loadFile file paths = h.loadFile file paths := by
  rw [Host.loadFile, Host.loadFile, loadDocument, loadDocument, same.exists?, same.bytes, same.room]

theorem loadSettings_of_resolved {directory resolved : Path}
    (hr : h.tree.canonicalLax h.linkRoom h.workingDirectory directory = .ok resolved) :
    h.loadSettings directory = h.loadFirst ((tablePlaces resolved).map TablePlace.candidate) := by
  rw [loadSettings, hr]
  exact loadFirst_tablePlaces resolved

/-- **The nearest settings.** Take places from the nearest on, up to one that has a value or all of
them. If none of their files ends the search, the settings are those in the first value, or the
default where there is none. What the system finds elsewhere does not matter. The settings in a
value are those of a table whose keys are names of settings; all else is an invalid table. -/
theorem loadSettings_nearest (h : Host) (directory : Path) :
    (∀ resolved upTo rest,
      h.tree.canonicalLax h.linkRoom h.workingDirectory directory = .ok resolved →
      tablePlaces resolved = upTo ++ rest →
      ((∃ q ∈ upTo, h.tableAt? q ≠ none) ∨ rest = []) →
      ((∀ q ∈ upTo, ∀ e, ¬ h.Illegible q.file e) →
        h.loadSettings directory =
          match h.firstTable? upTo with
          | none => .ok .byDefault
          | some (q, v) => (Settings.ofTable v q.keys q.file.toText).mapError .settings) ∧
      ∀ h' : Host, h'.tree.canonicalLax h'.linkRoom h'.workingDirectory directory = .ok resolved →
        (∀ q ∈ upTo, h.SameFile h' q.file) →
        h'.loadSettings directory = h.loadSettings directory) ∧
    ∀ v keys file, v.isNull = false →
      (∀ entries, v = .table entries → (entries.map fun entry => plainKey entry.1).Nodup) →
      (∀ s, Settings.ofTable v keys file = .ok s ↔ ∃ entries, v = .table entries ∧
        (∀ entry ∈ entries, ∃ k : Setting, k.name.toList = plainKey entry.1) ∧
        Settings.Holds (entries.map fun entry => (plainKey entry.1, entry.2)) .byDefault s) ∧
      ∀ e, Settings.ofTable v keys file = .error e → e = .invalidTable keys file := by
  refine ⟨fun resolved upTo rest hr split enough => ⟨fun legible => ?_, fun h' hr' same => ?_⟩,
    fun v keys file null nodup => ⟨fun s => Settings.ofTable_eq_ok_iff null nodup,
      fun e => Settings.error_of_ofTable⟩⟩
  · rw [loadSettings_of_resolved hr, split, loadFirst_append legible]
    cases ht : h.firstTable? upTo with
    | some found => rfl
    | none =>
      rcases enough with ⟨q, hq, hit⟩ | rfl
      · exact (hit (firstTable?_eq_none_iff.1 ht q hq)).elim
      · rfl
  · rw [loadSettings_of_resolved hr, loadSettings_of_resolved hr', split]
    exact loadFirst_congr (fun q hq => (same q hq).loadFile _)
      (enough.imp_right fun he => ⟨he, he⟩)

/-- A directory with settings in two files, of which the first may not be read, below one whose
file has the given bytes. -/
def nested (outer : List Byte) : Host where
  tree := {
    entries := [([['w']], .directory), ([['w'], "pyproject.toml".toList], .file 0o644 outer),
      ([['w'], ['p']], .directory),
      ([['w'], ['p'], "pyproject.toml".toList],
        .file 0o000 (Utf8.encode "[tool.nimtomd]\nonly-public = false\n".toList)),
      ([['w'], ['p'], ".nimtomd.toml".toList],
        .file 0o644 (Utf8.encode "[tool.nimtomd]\nonly-public = true\n".toList))]
    unreadable := [([['w'], ['p'], "pyproject.toml".toList], .denied)] }
  workingDirectory := [['w']]
  home := "/w".toList

/-- The settings are those that can be read, whether the file above is malformed or no text at
all. -/
theorem loadSettings_nearest_nested :
    let places := (tablePlaces (FileTree.pathOf [['w'], ['p']])).take 3
    let h := nested (Utf8.encode ['x'])
    (∃ q ∈ places, h.tableAt? q ≠ none) ∧ (∀ q ∈ places, ∀ e, ¬ h.Illegible q.file e) ∧
      h.loadSettings (.ofText ['p']) =
        (match h.firstTable? places with
        | none => .ok .byDefault
        | some (q, v) => (Settings.ofTable v q.keys q.file.toText).mapError .settings) ∧
      (nested [0xFF]).loadSettings (.ofText ['p']) = h.loadSettings (.ofText ['p']) ∧
      ((h.loadSettings (.ofText ['p'])).toOption.bind fun s =>
        (s.get (.toggle .exportedOnly)).toBool?) = some true ∧
      ∀ e, Settings.ofTable (.bool true) [] [] = .error e → e = .invalidTable [] [] := by
  intro places h
  have resolved : h.tree.canonicalLax h.linkRoom h.workingDirectory (.ofText ['p']) =
      .ok (FileTree.pathOf [['w'], ['p']]) := by decide +kernel
  have resolved' : (nested [0xFF]).tree.canonicalLax (nested [0xFF]).linkRoom
      (nested [0xFF]).workingDirectory (.ofText ['p']) =
        .ok (FileTree.pathOf [['w'], ['p']]) := by decide +kernel
  have exists? : ∀ q ∈ places, (nested [0xFF]).exists? q.file = h.exists? q.file := by
    decide +kernel
  have bytes : ∀ q ∈ places, (nested [0xFF]).readBytes q.file = h.readBytes q.file := by
    decide +kernel
  have hit : ∃ q ∈ places, h.tableAt? q ≠ none := by
    have found : places.any (fun q => (h.tableAt? q).isSome) = true := by decide +kernel
    obtain ⟨q, hq, some⟩ := List.any_eq_true.1 found
    exact ⟨q, hq, fun none => by rw [none] at some; cases some⟩
  have legible : ∀ q ∈ places, ∀ e, ¬ h.Illegible q.file e := by
    have read : ∀ q ∈ places, (h.loadDocument q.file).isOk = true := by decide +kernel
    exact fun q hq e => legible_of_ok (read q hq)
  have nearest := loadSettings_nearest h (.ofText ['p'])
  obtain ⟨found, unconcerned⟩ := nearest.1 _ places _ resolved (List.take_append_drop 3 _).symm
    (.inl hit)
  have same := unconcerned _ resolved' fun q hq => ⟨exists? q hq, bytes q hq, rfl⟩
  exact ⟨hit, legible, found legible, same, by decide +kernel,
    (nearest.2 (.bool true) [] [] rfl nofun).2⟩

/-- A working directory whose settings file is a link to a name that is too long. -/
def misled : Host where
  tree := { entries := [([['w']], .directory),
    ([['w'], "pyproject.toml".toList], .link (List.replicate 300 'x'))] }
  workingDirectory := [['w']]
  home := "/w".toList

/-- No file can be read at any place, and yet the default is not what the search comes to. -/
theorem loadSettings_nearest_longTarget :
    misled.tree.canonicalLax misled.linkRoom misled.workingDirectory (.ofText ['.']) =
        .ok (FileTree.pathOf [['w']]) ∧
      (∀ q ∈ tablePlaces (FileTree.pathOf [['w']]), (misled.readBytes q.file).toOption = none) ∧
      misled.loadSettings (.ofText ['.']) =
        .error (.system (.refused ⟨.nameTooLong, ["/w/pyproject.toml".toList]⟩)) := by
  have resolved : misled.tree.canonicalLax misled.linkRoom misled.workingDirectory (.ofText ['.']) =
      .ok (FileTree.pathOf [['w']]) := by decide +kernel
  have refused : misled.exists? ((FileTree.pathOf [['w']]).child "pyproject.toml".toList) =
      .error (.refused ⟨.nameTooLong, ["/w/pyproject.toml".toList]⟩) := by decide +kernel
  refine ⟨resolved, by decide +kernel, ?_⟩
  rw [loadSettings_of_resolved resolved]
  exact loadFirst_of_barred ⟨[], _, _, rfl, nofun, .system refused⟩

end Host

end NimMarkdown
