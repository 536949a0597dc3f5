import Mathlib.Data.List.Infix
import NimMarkdown.Proofs.Decoding
import NimMarkdown.Proofs.Run
import NimMarkdown.Proofs.Trim
import NimMarkdown.Proofs.Walks
import NimMarkdown.SourceFile

/-!
# Source files and their texts

A source file has the outline and the document of the text that it holds
(`fileOutline_agrees`). A file is read with its line endings made the same, and a scan
drops the carriage returns at the end of a line itself; where every carriage return
stands before a line feed the lines are the same (`sourceLines_unifyLineEndings`), and
with them all that is made of a source.
-/

namespace NimMarkdown

namespace Text

variable {t : Text}

/-- Every carriage return has a line feed behind it. -/
def ReturnsPaired (t : Text) : Prop := ∀ rest, '\r' :: rest <:+ t → rest.head? = some '\n'

instance (t : Text) : Decidable (ReturnsPaired t) :=
  decidable_of_iff
    (∀ part ∈ t.tails, part.head? = some '\r' → part.tail.head? = some '\n') (by
      constructor
      · intro h rest hr
        exact h ('\r' :: rest) ((List.mem_tails _ _).2 hr) rfl
      · intro h part hp hc
        obtain ⟨rest, rfl⟩ := List.head?_eq_some_iff.1 hc
        exact h rest ((List.mem_tails _ _).1 hp))

theorem ReturnsPaired.tail {c : Char} (h : ReturnsPaired (c :: t)) : ReturnsPaired t :=
  fun rest hr => h rest (hr.trans (List.suffix_cons c t))

/-! ## Lines with and without carriage returns -/

theorem unifyLineEndings_other {c : Char} (hc : c ≠ '\r') (t : Text) :
    unifyLineEndings (c :: t) = c :: unifyLineEndings t := by
  unfold unifyLineEndings
  rw [List.foldr_cons]
  dsimp only
  rw [if_neg hc]

/-- A carriage return before a line feed is left out. -/
theorem unifyLineEndings_pair (t : Text) :
    unifyLineEndings ('\r' :: '\n' :: t) = '\n' :: unifyLineEndings t := rfl

theorem splitLines_feed (t : Text) : splitLines ('\n' :: t) = [] :: splitLines t := rfl

theorem splitLines_other {c : Char} (hc : c ≠ '\n') {line : Text} {rest : List Text}
    (h : splitLines t = line :: rest) : splitLines (c :: t) = (c :: line) :: rest := by
  unfold splitLines at h ⊢
  rw [List.foldr_cons, if_neg hc, h]

theorem dropReturns_other {c : Char} (hc : c ≠ '\r') (line : Text) :
    dropReturns (c :: line) = c :: dropReturns line := by
  have other : (c == '\r') = false := by simpa using hc
  rw [dropReturns, dropEndWhile_cons, other, Bool.and_false]
  rfl

/-- The lines of a text whose line endings are made the same. -/
theorem splitLines_unifyLineEndings (h : ReturnsPaired t) :
    splitLines (unifyLineEndings t) = (splitLines t).map dropReturns := by
  induction t with
  | nil => rfl
  | cons c t ih =>
    have behind := ih h.tail
    by_cases hr : c = '\r'
    · subst hr
      obtain ⟨rest, rfl⟩ := List.head?_eq_some_iff.1 (h t List.suffix_rfl)
      have hn : '\n' ≠ '\r' := by decide
      rw [unifyLineEndings_pair, splitLines_other (by decide) (splitLines_feed rest)]
      rw [unifyLineEndings_other hn, splitLines_feed, splitLines_feed] at behind
      rw [splitLines_feed, List.map_cons, (List.cons.inj behind).2]
      rfl
    · rw [unifyLineEndings_other hr]
      by_cases hn : c = '\n'
      · subst hn
        rw [splitLines_feed, splitLines_feed, List.map_cons, behind]
        rfl
      · obtain ⟨line, rest, hl, -, -⟩ := splitLines_spec t
        rw [hl, List.map_cons] at behind
        rw [splitLines_other hn behind, splitLines_other hn hl, List.map_cons, dropReturns_other hr]

theorem dropReturns_dropReturns (line : Text) :
    dropReturns (dropReturns line) = dropReturns line := by
  induction line with
  | nil => rfl
  | cons c line ih =>
    unfold dropReturns at ih ⊢
    rw [dropEndWhile_cons]
    split
    · rfl
    · next h => rw [dropEndWhile_cons, ih, if_neg h]

/-- **Line endings** make no difference to the lines of a source. -/
theorem sourceLines_unifyLineEndings (h : ReturnsPaired t) :
    Scan.sourceLines (unifyLineEndings t) = Scan.sourceLines t := by
  rw [Scan.sourceLines, Scan.sourceLines, splitLines_unifyLineEndings h, List.map_map]
  exact List.map_congr_left fun line _ => dropReturns_dropReturns line

end Text

/-! ## Long lines -/

theorem firstLongLine_eq_none {limit : Int} {ls : List Text}
    (h : ∀ line ∈ ls, (line.length : Int) ≤ limit) (n : Nat) :
    firstLongLine limit n ls = none := by
  induction ls generalizing n with
  | nil => rfl
  | cons line rest ih =>
    rw [List.forall_mem_cons] at h
    rw [firstLongLine, if_neg (by omega), ih h.2]

/-- The first line that is too long is reported by its number. -/
theorem firstLongLine_eq_some {limit : Int} {ls : List Text} {i : Nat} {line : Text}
    (hl : ls[i]? = some line) (long : limit < line.length)
    (before : ∀ j other, j < i → ls[j]? = some other → (other.length : Int) ≤ limit) (n : Nat) :
    firstLongLine limit n ls = some ⟨n + i, limit⟩ := by
  induction ls generalizing i n with
  | nil => cases hl
  | cons first rest ih =>
    cases i with
    | zero =>
      obtain rfl := Option.some.inj hl
      rw [firstLongLine, if_pos long]
      rfl
    | succ i =>
      have short := before 0 first (Nat.succ_pos i) rfl
      have later := ih (i := i) hl (fun j other hj ho => before (j + 1) other (by omega) ho) (n + 1)
      rw [firstLongLine, if_neg (by omega), later, Nat.add_right_comm, Nat.add_assoc]

/-- The limit of valid settings is the one that they give. -/
theorem Settings.limit_of_valid {settings : Settings} {options : Options}
    (valid : settings.validate = .ok options) (l : Limit) :
    settings.get (.limit l) = .integer (options.limit l) := by
  unfold validate at valid
  split at valid
  · cases valid
  · next none =>
    cases valid
    simp only [firstError, Option.orElse_eq_orElse, Option.orElse_eq_or, Option.or_eq_none_iff,
      Option.map_eq_none_iff, List.find?_eq_none] at none
    obtain ⟨-, integer, positive⟩ := none
    have hi := integer l (Limit.mem_all l)
    have hp := positive l (Limit.mem_all l)
    cases hv : settings.get (.limit l) with
    | integer n =>
      rw [hv] at hp
      have pos : 0 < n := by simpa [Value.toInt?] using hp
      simp only [toOptions, hv, Value.toInt?, Option.getD_some]
      rw [Int.toNat_of_nonneg (by omega)]
    | _ => simp [hv, Value.toInt?] at hi

/-- What is made of a source is made of its lines. -/
theorem Source.outline_of_sourceLines {t t' : Text}
    (hl : Scan.sourceLines t = Scan.sourceLines t') (settings : Settings) :
    outline settings t = outline settings t' := by
  unfold outline scan Scan.source
  rw [hl]

namespace Host

variable {h : Host} {p : Path} {settings : Settings} {options : Options} {t : Text}

/-! ## Reading a source file -/

theorem fileDocument_of_error {e : SourceFileError} (he : h.fileOutline p settings = .error e) :
    h.fileDocument p settings = .error e := by
  rw [fileDocument, he]
  rfl

theorem fileOutline_of_invalid {e : SettingsError} (invalid : settings.validate = .error e) :
    h.fileOutline p settings = .error (.settings e) := by
  rw [fileOutline, invalid]
  rfl

theorem fileOutline_of_readSource {e : SourceFileError} (valid : settings.validate = .ok options)
    (he : h.readSource p (options.limit .lineLength) = .error e) :
    h.fileOutline p settings = .error e := by
  rw [fileOutline, valid]
  show (h.scanFile p options >>= fun s => pure s.outline) = .error e
  rw [scanFile, he]
  rfl

theorem readSource_of_text (ht : h.readText p = .ok t) (limit : Nat) :
    h.readSource p limit =
      match longLine? limit t with
      | some line => .error (.longLine p line)
      | none => .ok t := by
  rewrite [readSource, ht]
  rfl

/-- The path leads to a regular file with the bytes, and the user may read it. -/
def Readable (h : Host) (p : Path) (bytes : List Byte) : Prop :=
  ∃ loc mode, h.stat p = .ok (loc, .file mode bytes) ∧ h.tree.unreadable.lookup loc = none

theorem readBytes_eq_ok_iff {bytes : List Byte} :
    h.readBytes p = .ok bytes ↔ h.Readable p bytes := by
  constructor
  · intro hb
    unfold readBytes at hb
    split at hb
    · cases hb
    · next loc node hs =>
      split at hb
      · cases hb
      · next mode bytes readable =>
        cases hb
        exact ⟨loc, mode, hs, readable⟩
      · cases hb
  · rintro ⟨loc, mode, hs, readable⟩
    simp only [readBytes, hs, readable]

/-- A file of a text is read as that text, with its line endings made the same. -/
theorem readText_of_file (hr : h.Readable p (Utf8.encode t)) :
    h.readText p = .ok t.unifyLineEndings := by
  rw [readText, readBytes_eq_ok_iff.2 hr]
  dsimp only
  rw [Utf8.decode_encode]

/-- The outline of a file is that of its text. -/
theorem fileOutline_of_short (valid : settings.validate = .ok options)
    (ht : h.readText p = .ok t) (short : longLine? (options.limit .lineLength) t = none) :
    ∃ o, Source.outline settings t = .ok o ∧ h.fileOutline p settings = .ok o := by
  obtain ⟨s, hs, ho⟩ := Source.outline_of_valid valid t
  refine ⟨s.outline, ho, ?_⟩
  rw [fileOutline, valid]
  show (h.scanFile p options >>= fun s => pure s.outline) = .ok s.outline
  rw [scanFile, readSource_of_text ht, short]
  show ((Source.scan options t).mapError _ >>= fun s => pure s.outline) = .ok s.outline
  rw [hs]
  rfl

theorem fileDocument_of_outline {o : Outline} (valid : settings.validate = .ok options)
    (ho : Source.outline settings t = .ok o) (hf : h.fileOutline p settings = .ok o) :
    ∃ d, Source.document settings t = .ok d ∧ h.fileDocument p settings = .ok d := by
  refine ⟨o.render options.on, Source.document_of_valid valid ho, ?_⟩
  rw [fileDocument, hf]
  show ((Source.render settings o).mapError _) = .ok (o.render options.on)
  rw [Source.render, valid]
  rfl

/-- Bytes that are no encoding of a text are refused. -/
theorem readText_of_invalid {bytes : List Byte} (hr : h.Readable p bytes)
    (invalid : ∀ t, bytes ≠ Utf8.encode t) : ∃ e, h.readText p = .error (.encoding e) := by
  cases hd : Utf8.decode bytes with
  | ok t => exact (invalid t (Utf8.decode_eq_ok_iff.1 hd)).elim
  | error e =>
    refine ⟨e, ?_⟩
    rw [readText, readBytes_eq_ok_iff.2 hr]
    dsimp only
    rw [hd]

/-- Only a null character keeps the system from being asked for the bytes. -/
theorem refused_of_readBytes {e : SystemError} (null : p.hasNull = false)
    (hb : h.readBytes p = .error e) : ∃ cause, e = .refused cause := by
  unfold readBytes at hb
  split at hb
  · next hs =>
    cases hb
    exact FileTree.refused_of_find null hs
  · split at hb <;> cases hb <;> exact ⟨_, rfl⟩

/-- Where the path leads to no file that may be read there is nothing to read. -/
theorem readText_of_unreadable (null : p.hasNull = false)
    (unreadable : ∀ bytes, ¬ h.Readable p bytes) :
    ∃ e, h.readText p = .error (.file e) ∧ e ≠ .system .nullByte := by
  cases hb : h.readBytes p with
  | ok bytes => exact (unreadable bytes (readBytes_eq_ok_iff.1 hb)).elim
  | error e =>
    obtain ⟨cause, rfl⟩ := refused_of_readBytes null hb
    refine ⟨.ofOpen p (.refused cause), by rw [readText, hb], ?_⟩
    unfold FileError.ofOpen
    dsimp only
    split <;> nofun

/-- A file of a text is refused for the first line beyond the limit. -/
theorem fileOutline_of_long (valid : settings.validate = .ok options)
    (paired : t.ReturnsPaired) (hr : h.Readable p (Utf8.encode t)) {i : Nat} {line : Text}
    (hl : ((Text.splitLines t).map Text.dropReturns)[i]? = some line)
    (long : options.limit .lineLength < line.length)
    (before : ∀ j other, j < i → ((Text.splitLines t).map Text.dropReturns)[j]? = some other →
      other.length ≤ options.limit .lineLength) :
    h.fileOutline p settings = .error (.longLine p ⟨i + 1, options.limit .lineLength⟩) := by
  have found : longLine? (options.limit .lineLength) t.unifyLineEndings =
      some ⟨i + 1, options.limit .lineLength⟩ := by
    rw [longLine?, Text.sourceLines_unifyLineEndings paired, Scan.sourceLines,
      firstLongLine_eq_some hl (by omega) ?_ 1, Nat.add_comm]
    intro j other hj ho
    exact Int.ofNat_le.2 (before j other hj ho)
  exact fileOutline_of_readSource valid (by rw [readSource_of_text (readText_of_file hr), found])

/-- A file of a text without such a line is read as the text. -/
theorem fileOutline_of_text (valid : settings.validate = .ok options)
    (paired : t.ReturnsPaired) (hr : h.Readable p (Utf8.encode t))
    (short : ∀ line ∈ (Text.splitLines t).map Text.dropReturns,
      line.length ≤ options.limit .lineLength) :
    ∃ o, Source.outline settings t = .ok o ∧ h.fileOutline p settings = .ok o := by
  have same := Text.sourceLines_unifyLineEndings paired
  have none : longLine? (options.limit .lineLength) t.unifyLineEndings = none := by
    rw [longLine?, same]
    exact firstLongLine_eq_none (fun line hl => Int.ofNat_le.2 (short line hl)) 1
  obtain ⟨o, ho, hf⟩ := fileOutline_of_short valid (readText_of_file hr) none
  rw [Source.outline_of_sourceLines same] at ho
  exact ⟨o, ho, hf⟩

/-- **A source file and its text.** Settings that are not valid are refused before the file is
opened, with their message. Else a file that can be read, and holds a text in which carriage
returns stand before line feeds only, is refused if the text has a line beyond the limit, which is
the one in the settings, and the first such line is named; if not, its outline and its document are
those of the text. Bytes that are no encoding are refused, and so is a path without null characters
that leads to no file that can be read. -/
theorem fileOutline_agrees (h : Host) (p : Path) (settings : Settings) :
    (∀ e, settings.validate = .error e →
      h.fileOutline p settings = .error (.settings e) ∧
      h.fileDocument p settings = .error (.settings e) ∧
      (SourceFileError.settings e).message = e.message) ∧
    ∀ options, settings.validate = .ok options →
      let limit := options.limit .lineLength
      settings.get (.limit .lineLength) = .integer limit ∧
      (∀ t, t.ReturnsPaired → h.Readable p (Utf8.encode t) →
        let lines := (Text.splitLines t).map Text.dropReturns
        (∀ i line, lines[i]? = some line → limit < line.length →
          (∀ j other, j < i → lines[j]? = some other → other.length ≤ limit) →
          h.fileOutline p settings = .error (.longLine p ⟨i + 1, limit⟩) ∧
          h.fileDocument p settings = .error (.longLine p ⟨i + 1, limit⟩)) ∧
        ((∀ line ∈ lines, line.length ≤ limit) →
          ∃ o d, Source.outline settings t = .ok o ∧ h.fileOutline p settings = .ok o ∧
            Source.document settings t = .ok d ∧ h.fileDocument p settings = .ok d)) ∧
      (∀ bytes, h.Readable p bytes → (∀ t, bytes ≠ Utf8.encode t) →
        ∃ e, h.fileOutline p settings = .error (.encoding p e) ∧
          h.fileDocument p settings = .error (.encoding p e)) ∧
      (p.hasNull = false → (∀ bytes, ¬ h.Readable p bytes) →
        ∃ e, h.fileOutline p settings = .error (.file e) ∧
          h.fileDocument p settings = .error (.file e) ∧ e ≠ .system .nullByte) := by
  refine ⟨fun e invalid => ?_, fun options valid => ⟨Settings.limit_of_valid valid _, ?_, ?_, ?_⟩⟩
  · have refused := fileOutline_of_invalid (h := h) (p := p) invalid
    exact ⟨refused, fileDocument_of_error refused, rfl⟩
  · intro t paired hr lines
    constructor
    · intro i line hl long before
      have refused := fileOutline_of_long valid paired hr hl long before
      exact ⟨refused, fileDocument_of_error refused⟩
    · intro short
      obtain ⟨o, ho, hf⟩ := fileOutline_of_text valid paired hr short
      obtain ⟨d, hd, hfd⟩ := fileDocument_of_outline valid ho hf
      exact ⟨o, d, ho, hf, hd, hfd⟩
  · intro bytes hr invalid
    obtain ⟨e, he⟩ := readText_of_invalid hr invalid
    have refused := fileOutline_of_readSource valid (e := .encoding p e) (by rw [readSource, he])
    exact ⟨e, refused, fileDocument_of_error refused⟩
  · intro null unreadable
    obtain ⟨e, he, hn⟩ := readText_of_unreadable null unreadable
    have refused := fileOutline_of_readSource valid (e := .file e) (by rw [readSource, he])
    exact ⟨e, refused, fileDocument_of_error refused, hn⟩

/-- A source with both kinds of line endings. -/
def mixedEndings : Text := "## Tool\r\nproc run*() =\n  ## Runs\r\n".toList

/-- A working directory with that source, with a file that holds no text, and with one that may
not be read. -/
def shelf : Host where
  tree := {
    entries := [([['w']], .directory),
      ([['w'], "a.nim".toList], .file 0o644 (Utf8.encode mixedEndings)),
      ([['w'], "b.nim".toList], .file 0o644 [0x23, 0xFF]),
      ([['w'], "c.nim".toList], .file 0o000 [])]
    unreadable := [([['w'], "c.nim".toList], .denied)] }
  workingDirectory := [['w']]
  home := "/w".toList

/-- Settings that allow lines of ten characters. -/
def shortLines : Settings := Settings.byDefault.set (.limit .lineLength) (.integer 10)

theorem fileOutline_agrees_shelf :
    mixedEndings.ReturnsPaired ∧
      shelf.Readable (.ofText "a.nim".toList) (Utf8.encode mixedEndings) ∧
      (∃ o d, Source.outline .byDefault mixedEndings = .ok o ∧
        shelf.fileOutline (.ofText "a.nim".toList) .byDefault = .ok o ∧
        Source.document .byDefault mixedEndings = .ok d ∧
        shelf.fileDocument (.ofText "a.nim".toList) .byDefault = .ok d) ∧
      shelf.fileOutline (.ofText "a.nim".toList) shortLines =
        .error (.longLine (.ofText "a.nim".toList) ⟨2, 10⟩) ∧
      (∃ e, shelf.fileOutline (.ofText "b.nim".toList) .byDefault =
        .error (.encoding (.ofText "b.nim".toList) e)) ∧
      ∃ e, shelf.fileOutline (.ofText "c.nim".toList) .byDefault = .error (.file e) ∧
        e ≠ .system .nullByte := by
  have paired : mixedEndings.ReturnsPaired := by decide
  have mixed : shelf.readBytes (.ofText "a.nim".toList) = .ok (Utf8.encode mixedEndings) := by
    decide +kernel
  have binary : shelf.readBytes (.ofText "b.nim".toList) = .ok [0x23, 0xFF] := by decide +kernel
  have locked : shelf.readBytes (.ofText "c.nim".toList) =
      .error (.refused ⟨.denied, ["c.nim".toList]⟩) := by decide +kernel
  have invalid (t : Text) : [0x23, 0xFF] ≠ Utf8.encode t := by
    intro he
    have decoded := Utf8.decode_eq_ok_iff.2 he
    revert decoded
    exact nofun
  have readable := readBytes_eq_ok_iff.1 mixed
  obtain ⟨-, text, bytes, absent⟩ :=
    (fileOutline_agrees shelf (.ofText "a.nim".toList) .byDefault).2 _ rfl
  obtain ⟨-, narrow, -, -⟩ :=
    (fileOutline_agrees shelf (.ofText "a.nim".toList) shortLines).2 _ rfl
  obtain ⟨-, -, encoding, -⟩ :=
    (fileOutline_agrees shelf (.ofText "b.nim".toList) .byDefault).2 _ rfl
  obtain ⟨-, -, -, file⟩ :=
    (fileOutline_agrees shelf (.ofText "c.nim".toList) .byDefault).2 _ rfl
  refine ⟨paired, readable, (text _ paired readable).2 (by decide), ?_, ?_, ?_⟩
  · refine ((narrow _ paired readable).1 1 "proc run*() =".toList rfl (by decide) ?_).1
    intro j other hj ho
    obtain rfl : j = 0 := by omega
    obtain rfl := Option.some.inj ho
    decide
  · obtain ⟨e, he, -⟩ := encoding _ (readBytes_eq_ok_iff.1 binary) invalid
    exact ⟨e, he⟩
  · obtain ⟨e, he, -, hn⟩ := file (by decide) fun bytes hr => by
      cases locked.symm.trans (readBytes_eq_ok_iff.2 hr)
    exact ⟨e, he, hn⟩

/-- A path with a null character leads to no file, and its error is not one of the file. -/
theorem fileOutline_agrees_nullPath :
    (∀ found, shelf.stat (.ofText "a\x00.nim".toList) ≠ .ok found) ∧
      shelf.fileOutline (.ofText "a\x00.nim".toList) .byDefault =
        .error (.file (.system .nullByte)) := by
  have refused : shelf.stat (.ofText "a\x00.nim".toList) = .error .nullByte := by decide +kernel
  refine ⟨fun found => by rw [refused]; nofun, ?_⟩
  have valid : Settings.byDefault.validate = .ok Settings.byDefault.toOptions := rfl
  refine fileOutline_of_readSource valid ?_
  rw [readSource, readText, readBytes, refused]
  rfl

end Host

end NimMarkdown
