import Mathlib.Data.List.Basic
import NimMarkdown.Files.Write
import NimMarkdown.Proofs.Encoding
import NimMarkdown.Proofs.Text
import NimMarkdown.Proofs.TreeChanges

/-!
# Writing a document

A document is written as a whole or not at all (`writeLines_atomic`): where the
write fails the host is as before, and where it succeeds its tree differs in the
destination only. It succeeds exactly where the host admits it (`Host.Admits`). The
temporary file stands where nothing stood, so it is gone without a trace, and the
destination with it if they have the same name; the walks to the destination cannot
pass it, nor the file that is overwritten, so they are the same before and after.
-/

namespace NimMarkdown

/-- What stands in the tree stands in a directory. -/
def FileTree.Grounded (t : FileTree) : Prop :=
  ∀ loc node, t.get? loc = some node → t.get? loc.dropLast = some .directory

theorem grounded_of_entries {t : FileTree}
    (h : ∀ entry ∈ t.entries, t.get? entry.1.dropLast = some .directory) : t.Grounded := by
  intro loc node hn
  unfold FileTree.get? at hn
  split at hn
  · next root =>
    rw [List.isEmpty_iff.1 root]
    rfl
  · exact h (loc, node) (mem_of_lookup hn)

namespace Host

open FileTree (pathOf maxPathBytes maxNameBytes AgreeOff)

variable {h : Host} {p : Path} {d loc : Location} {name : Text} {mode : Nat} {overwrite : Bool}

/-! ## The destination -/

/-- The last name of the path, in the directory that the path without it leads to. -/
structure LeadsTo (h : Host) (p : Path) (d : Location) (name : Text) : Prop where
  last : p.names = p.parent.names ++ [name]
  walk : h.tree.walk true FileTree.maxLinks (FileTree.base h.workingDirectory p) p.parent.names =
    .ok (d, .directory)

/-- Something is made or replaced in the directory that a path leads to. -/
theorem slot_eq_ok_iff : h.tree.slot h.workingDirectory p = .ok loc ↔
    (Utf8.encode p.toText).length ≤ maxPathBytes ∧
      ∃ d name, h.LeadsTo p d name ∧ d ∉ h.tree.closed ∧ loc = d ++ [name] := by
  constructor
  · intro hs
    unfold FileTree.slot at hs
    split at hs
    · cases hs
    · next short =>
      split at hs
      · cases hs
      · next d name walk last =>
        split at hs
        · cases hs
        · next opens =>
          cases hs
          exact ⟨Nat.not_lt.1 short, d, name,
            ⟨(List.dropLast_append_getLast? name last).symm, walk⟩, by simpa using opens, rfl⟩
      · cases hs
  · rintro ⟨short, d, name, leads, opens, rfl⟩
    have last : p.names.getLast? = some name := by
      rw [leads.last, List.getLast?_concat]
    have walk : h.tree.walk true FileTree.maxLinks (FileTree.base h.workingDirectory p)
        p.names.dropLast = .ok (d, .directory) := leads.walk
    rw [FileTree.slot, if_neg (Nat.not_lt.2 short), walk, last]
    exact if_neg (by simpa using opens)

theorem leadsTo_child (walk : h.tree.walk true FileTree.maxLinks
    (FileTree.base h.workingDirectory p) p.names = .ok (d, .directory)) (name : Text) :
    h.LeadsTo (p.child name) d name := by
  refine ⟨by rw [Path.parent_child]; rfl, ?_⟩
  rw [Path.parent_child]
  exact walk

/-- The directory is the same in a tree that differs where no directory is. -/
theorem LeadsTo.of_agree {tree : FileTree} (leads : h.LeadsTo p d name)
    (agree : h.tree.AgreeOff tree loc) (blocked : h.tree.Blocked loc) :
    { h with tree }.LeadsTo p d name :=
  ⟨leads.last, FileTree.walk_of_agree agree blocked leads.walk⟩

theorem slot_of_agree {tree : FileTree} {l : Location}
    (hs : h.tree.slot h.workingDirectory p = .ok l) (agree : h.tree.AgreeOff tree loc)
    (blocked : h.tree.Blocked loc) : tree.slot h.workingDirectory p = .ok l := by
  obtain ⟨short, d, name, leads, opens, rfl⟩ := slot_eq_ok_iff.1 hs
  exact slot_eq_ok_iff (h := { h with tree }).2
    ⟨short, d, name, leads.of_agree agree blocked, agree.closed ▸ opens, rfl⟩

theorem LeadsTo.unique {d' : Location} {name' : Text} (leads : h.LeadsTo p d name)
    (leads' : h.LeadsTo p d' name') : d' = d ∧ name' = name := by
  have directory := leads.walk.symm.trans leads'.walk
  have last := leads.last.symm.trans leads'.last
  simp_all

theorem LeadsTo.directory (leads : h.LeadsTo p d name) : h.tree.get? d = some .directory :=
  (FileTree.walk_append leads.walk).1

/-- A directory is found at `.` and `..`, unless they are not looked up. -/
theorem walk_dots {t : FileTree} (grounded : t.Grounded) (directory : t.get? d = some .directory)
    (hn : ¬ FileTree.IsChild name) (follow : Bool) (left : Nat) :
    t.walk follow left d [name] = .error .denied ∨
      ∃ l, t.walk follow left d [name] = .ok (l, .directory) := by
  have dots : name = [] ∨ name = ['.'] ∨ name = ['.', '.'] := by
    by_contra none
    exact hn ⟨fun he => none (.inl he), fun he => none (.inr (.inl he)),
      fun he => none (.inr (.inr he))⟩
  rw [FileTree.walk_cons, FileTree.stride, directory]
  by_cases closed : d ∈ t.closed
  · rcases dots with rfl | rfl | rfl
    · exact .inr ⟨d, by simp [FileTree.walk_nil directory]⟩
    · exact .inl (by simp [closed])
    · exact .inl (by simp [closed])
  · refine .inr ?_
    rcases dots with rfl | rfl | rfl
    · exact ⟨d, by simp [FileTree.walk_nil directory]⟩
    · exact ⟨d, by simp [FileTree.walk_nil directory, closed]⟩
    · exact ⟨d.dropLast, by simp [FileTree.walk_nil (grounded d _ directory), closed]⟩

/-! ## What is there before -/

/-- Something stands at the path, or a link that leads nowhere. -/
def occupied? (h : Host) (p : Path) : Except SystemError Bool :=
  match h.exists? p with
  | .error e => .error e
  | .ok true => .ok true
  | .ok false => h.isLink? p

theorem modeToWrite_eq (h : Host) (p : Path) (overwrite : Bool) :
    h.modeToWrite p overwrite =
      match h.occupied? p with
      | .error e => .error (.system e)
      | .ok true =>
        if overwrite then (h.regularFile p).map RegularFile.mode else .error (.alreadyExists p)
      | .ok false => .ok newFileMode := by
  unfold modeToWrite occupied?
  cases h.exists? p with
  | error e => rfl
  | ok found =>
    cases found with
    | true =>
      cases overwrite with
      | false => rfl
      | true => cases h.regularFile p <;> rfl
    | false =>
      cases h.isLink? p with
      | error e => rfl
      | ok isLink =>
        cases isLink with
        | false => rfl
        | true =>
          cases overwrite with
          | false => rfl
          | true => cases h.regularFile p <;> rfl

theorem lstat_of_regularFile {file : RegularFile} (hf : h.regularFile p = .ok file) :
    ∃ l, h.lstat p = .ok (l, .file file.mode file.bytes) := by
  unfold regularFile at hf
  split at hf
  · cases hf
  · cases hf
  · cases hf
  · next l mode bytes hl =>
    cases hf
    exact ⟨l, hl⟩

theorem occupied_of_found {found : Location × Node} (hs : h.stat p = .ok found) :
    h.occupied? p = .ok true := by
  rw [occupied?, exists?, hs]

/-- Where nothing is, the system finds nothing, with links followed or not. -/
theorem absent_of_occupied (hf : h.occupied? p = .ok false) :
    (∃ e, h.stat p = .error e ∧ e.isAbsence = true) ∧
      ∀ l target, h.lstat p ≠ .ok (l, .link target) := by
  unfold occupied? at hf
  split at hf
  · cases hf
  · cases hf
  · next he =>
    unfold exists? at he
    split at he
    · cases he
    · next e hs =>
      split at he
      · next absent =>
        refine ⟨⟨e, hs, absent⟩, fun l target hl => ?_⟩
        rw [isLink?, hl] at hf
        cases hf
      · cases he

/-- The name is such as a file can have, it is looked up in its directory, and what stands there
is the file that is overwritten, or nothing. -/
structure Writable (h : Host) (p : Path) (d : Location) (name : Text) (overwrite : Bool)
    (mode : Nat) : Prop where
  isName : FileTree.IsName name
  short : (Utf8.encode p.toText).length ≤ maxPathBytes
  opens : d ∉ h.tree.closed
  before : (overwrite = true ∧ ∃ bytes, h.tree.get? (d ++ [name]) = some (.file mode bytes)) ∨
    (h.tree.get? (d ++ [name]) = none ∧ mode = newFileMode)

theorem Writable.slot (writable : h.Writable p d name overwrite mode)
    (leads : h.LeadsTo p d name) : h.tree.slot h.workingDirectory p = .ok (d ++ [name]) :=
  slot_eq_ok_iff.2 ⟨writable.short, d, name, leads, writable.opens, rfl⟩

theorem Writable.blocked (writable : h.Writable p d name overwrite mode) :
    h.tree.Blocked (d ++ [name]) := by
  rcases writable.before with ⟨-, bytes, hb⟩ | ⟨hb, -⟩
  · exact .inr ⟨mode, bytes, hb⟩
  · exact .inl hb

/-- What the system finds at a path that it takes, from the directory on. -/
theorem LeadsTo.asks (leads : h.LeadsTo p d name) (null : p.hasNull = false)
    (short : (Utf8.encode p.toText).length ≤ maxPathBytes) : ∃ left, ∀ follow,
    h.tree.find follow h.workingDirectory p =
      (h.tree.walk follow left d [name]).mapError fun errno =>
        .refused ⟨errno, [p.toText]⟩ := by
  obtain ⟨-, left, taken⟩ := FileTree.walk_append leads.walk
  refine ⟨left, fun follow => ?_⟩
  have steps : p.steps = p.parent.names ++ [name] :=
    (FileTree.steps_of_ne_nil (by rw [leads.last]; simp)).trans leads.last
  rw [FileTree.find_eq_walk null short, steps]
  exact congrArg _ (taken follow [name] (List.cons_ne_nil _ _))

theorem LeadsTo.bare (leads : h.LeadsTo p d name) (null : p.hasNull = false) : '\x00' ∉ name := by
  intro hm
  rw [Path.hasNull, leads.last] at null
  simp [hm] at null

theorem writable_of_file (grounded : h.tree.Grounded) (leads : h.LeadsTo p d name)
    {l : Location} {bytes : List Byte} (found : h.lstat p = .ok (l, .file mode bytes)) :
    h.Writable p d name true mode := by
  obtain ⟨null, short⟩ := FileTree.accepted_of_find found
  obtain ⟨left, asks⟩ := leads.asks null short
  rw [lstat, asks] at found
  by_cases hn : FileTree.IsChild name
  · cases hl : h.tree.look d name with
    | error e =>
      rw [FileTree.walk_of_look hn hl] at found
      cases found
    | ok node =>
      rw [FileTree.walk_last hn hl (.inr rfl)] at found
      cases found
      obtain ⟨-, opens, shortName, hc⟩ := FileTree.look_eq_ok_iff.1 hl
      exact ⟨⟨hn, shortName, leads.bare null⟩, short, opens, .inl ⟨rfl, bytes, hc⟩⟩
  · rcases walk_dots grounded leads.directory hn false left with hw | ⟨l', hw⟩ <;> rw [hw] at found
      <;> cases found

theorem writable_of_absent (grounded : h.tree.Grounded) (leads : h.LeadsTo p d name)
    (null : p.hasNull = false) {e : SystemError} (missing : h.stat p = .error e)
    (absent : e.isAbsence = true) (unlinked : ∀ l target, h.lstat p ≠ .ok (l, .link target)) :
    h.Writable p d name overwrite newFileMode := by
  have short : (Utf8.encode p.toText).length ≤ maxPathBytes := by
    by_contra long
    rw [stat, FileTree.find_eq, null, if_neg Bool.false_ne_true, if_pos (by omega)] at missing
    cases missing
    cases absent
  obtain ⟨left, asks⟩ := leads.asks null short
  rw [stat, asks] at missing
  by_cases hn : FileTree.IsChild name
  · cases hl : h.tree.look d name with
    | ok node =>
      cases hlink : node.isLink with
      | false =>
        rw [FileTree.walk_last hn hl (.inl hlink)] at missing
        cases missing
      | true =>
        cases node with
        | link target =>
          refine (unlinked (d ++ [name]) target ?_).elim
          rw [lstat, asks, FileTree.walk_last hn hl (.inr rfl)]
          rfl
        | file | directory => cases hlink
    | error errno =>
      rw [FileTree.walk_of_look hn hl] at missing
      cases missing
      obtain ⟨opens, shortName, hc⟩ := FileTree.free_of_look leads.directory hl absent
      exact ⟨⟨hn, shortName, leads.bare null⟩, short, opens, .inr ⟨hc, rfl⟩⟩
  · rcases walk_dots grounded leads.directory hn true left with hw | ⟨l', hw⟩ <;> rw [hw] at missing
    · cases missing
      cases absent
    · cases missing

theorem writable_of_mode (grounded : h.tree.Grounded) (leads : h.LeadsTo p d name)
    (null : p.hasNull = false) (hm : h.modeToWrite p overwrite = .ok mode) :
    h.Writable p d name overwrite mode := by
  rw [modeToWrite_eq] at hm
  split at hm
  · cases hm
  · split at hm
    · next ho =>
      cases hf : h.regularFile p with
      | error e =>
        rw [hf] at hm
        cases hm
      | ok file =>
        rw [hf] at hm
        cases hm
        obtain ⟨l, hl⟩ := lstat_of_regularFile hf
        exact ho ▸ writable_of_file grounded leads hl
    · cases hm
  · next free =>
    cases hm
    obtain ⟨⟨e, missing, absent⟩, unlinked⟩ := absent_of_occupied free
    exact writable_of_absent grounded leads null missing absent unlinked

/-! ## The temporary file -/

/-- A file with the drawn name is in the directory already. -/
def Taken (h : Host) (directory : Path) (draw : Draw) : Prop :=
  ∃ l, h.tree.slot h.workingDirectory (directory.child draw.name) = .ok l ∧
    (h.tree.get? l).isSome = true

/-- The temporary file gets the first of the drawn names that is not taken, in a directory where
files may be made. -/
structure FreeSlot (h : Host) (directory : Path) (draws : List Draw) (temporary : Temporary) :
    Prop where
  drawn : ∃ before draw after, draws = before ++ draw :: after ∧
    temporary.path = directory.child draw.name ∧ ∀ other ∈ before, h.Taken directory other
  slot : h.tree.slot h.workingDirectory temporary.path = .ok temporary.loc
  free : h.tree.get? temporary.loc = none
  loose : h.tree.fixed? temporary.loc = none

variable {directory : Path} {draws : List Draw} {first : Draw} {temporary : Temporary}

theorem FreeSlot.later (taken : h.Taken directory first)
    (free : h.FreeSlot directory draws temporary) :
    h.FreeSlot directory (first :: draws) temporary := by
  obtain ⟨⟨before, draw, after, rfl, path, all⟩, slot, free, loose⟩ := free
  exact ⟨⟨first :: before, draw, after, rfl, path, List.forall_mem_cons.2 ⟨taken, all⟩⟩, slot,
    free, loose⟩

/-- The first of the names is the one, or it is taken. -/
theorem FreeSlot.cases_cons (free : h.FreeSlot directory (first :: draws) temporary) :
    temporary.path = directory.child first.name ∨
      h.Taken directory first ∧ h.FreeSlot directory draws temporary := by
  obtain ⟨⟨before, draw, after, he, path, all⟩, slot, free, loose⟩ := free
  cases before with
  | nil =>
    obtain ⟨rfl, rfl⟩ := List.cons.inj he
    exact .inl path
  | cons other before =>
    obtain ⟨rfl, rfl⟩ := List.cons.inj he
    rw [List.forall_mem_cons] at all
    exact .inr ⟨all.1, ⟨before, draw, after, rfl, path, all.2⟩, slot, free, loose⟩

theorem freeSlot_eq_ok_iff :
    h.freeSlot directory draws = .ok temporary ↔ h.FreeSlot directory draws temporary := by
  induction draws with
  | nil =>
    constructor
    · nofun
    · rintro ⟨⟨before, draw, after, he, -⟩, -, -, -⟩
      exact (List.append_ne_nil_of_right_ne_nil before (List.cons_ne_nil draw after) he.symm).elim
  | cons first draws ih =>
    rw [freeSlot]
    constructor
    · intro hf
      split at hf
      · cases hf
      · next l hs =>
        split at hf
        · next taken => exact .later ⟨l, hs, taken⟩ (ih.1 hf)
        · next free =>
          split at hf
          · cases hf
          · next loose =>
            cases hf
            exact ⟨⟨[], first, draws, rfl, rfl, nofun⟩, hs, by simpa using free, loose⟩
    · intro free
      rcases free.cases_cons with path | ⟨⟨l, hs, taken⟩, later⟩
      · rw [← path, free.slot]
        simp only [free.free, free.loose]
        exact if_neg Bool.false_ne_true
      · rw [hs]
        dsimp only
        rw [if_pos taken]
        exact ih.2 later

/-- The temporary file that a write to the path makes. -/
def Makes (h : Host) (p : Path) (temporary : Temporary) : Prop :=
  h.FreeSlot (FileTree.absolute h.workingDirectory p.parent) h.draws temporary

theorem Makes.unique {temporary' : Temporary} (makes : h.Makes p temporary)
    (makes' : h.Makes p temporary') : temporary = temporary' :=
  Except.ok.inj ((freeSlot_eq_ok_iff.2 makes).symm.trans (freeSlot_eq_ok_iff.2 makes'))

theorem createTemporary_of_makes (makes : h.Makes p temporary)
    (bare : p.parent.hasNull = false) : h.createTemporary p =
      .ok (temporary, { h with tree := h.tree.put temporary.loc (.file 0o600 []) }) := by
  rw [createTemporary, bare, if_neg Bool.false_ne_true, freeSlot_eq_ok_iff.2 makes]
  rfl

/-- The temporary file is put where nothing stood. -/
theorem createTemporary_cases (h : Host) (p : Path) :
    (∃ cause, h.createTemporary p = .error cause) ∨
    ∃ temporary, h.Makes p temporary ∧ h.createTemporary p =
      .ok (temporary, { h with tree := h.tree.put temporary.loc (.file 0o600 []) }) := by
  unfold createTemporary
  split
  · exact .inl ⟨_, rfl⟩
  · cases hf : h.freeSlot (FileTree.absolute h.workingDirectory p.parent) h.draws with
    | error cause => exact .inl ⟨cause, rfl⟩
    | ok temporary => exact .inr ⟨temporary, freeSlot_eq_ok_iff.1 hf, rfl⟩

/-- The temporary file becomes the destination, or stays where it is. -/
theorem moveInPlace_cases (h : Host) (temporary : Temporary) (p : Path) (mode : Nat)
    (bytes : List Byte) :
    (∃ cause, h.moveInPlace temporary p mode bytes = .error cause) ∨
    ∃ loc, h.moveInPlace temporary p mode bytes = .ok { h with
        tree := (h.tree.erase temporary.loc).putNew loc mode bytes (h.unreadableMode mode) } ∧
      h.tree.slot h.workingDirectory p = .ok loc ∧ h.tree.fixed? loc = none ∧
      p.hasNull = false := by
  unfold moveInPlace
  dsimp only
  split
  · exact .inl ⟨_, rfl⟩
  · next null =>
    cases hs : h.tree.slot h.workingDirectory p with
    | error errno => exact .inl ⟨_, rfl⟩
    | ok loc =>
      dsimp only
      cases hf : h.tree.fixed? loc with
      | some errno => exact .inl ⟨_, rfl⟩
      | none => exact .inr ⟨loc, rfl, rfl, hf, by simpa using null⟩

/-- The tree after a write: the file at the destination, without what stands under the name of the
temporary file. -/
def written (h : Host) (temporary : Temporary) (loc : Location) (mode : Nat) (bytes : List Byte) :
    FileTree :=
  (h.tree.putNew loc mode bytes (h.unreadableMode mode)).erase temporary.loc

variable {bytes : List Byte}

variable (mode bytes) in
theorem get?_written (free : h.tree.get? temporary.loc = none) (root : loc ≠ []) (l : Location) :
    (h.written temporary loc mode bytes).get? l =
      if l = temporary.loc then none
      else if l = loc then some (.file mode bytes) else h.tree.get? l := by
  rw [written, FileTree.get?_erase (FileTree.ne_nil_of_free free), FileTree.get?_putNew root]

variable (mode bytes) in
theorem agreeOff_written (free : h.tree.get? temporary.loc = none) (root : loc ≠ []) :
    h.tree.AgreeOff (h.written temporary loc mode bytes) loc where
  get l hl := by
    rw [get?_written mode bytes free root, if_neg hl]
    split
    · next he => rw [he, free]
    · rfl
  unreadable l hl := (FileTree.lookup_putNew h.tree mode bytes _ l).trans (if_neg hl)
  closed := rfl
  fixed := rfl

/-- A write fails and changes nothing, or puts a file at the destination. -/
theorem writeLines_cases (h : Host) (p : Path) (lines : List Text) (overwrite : Bool) :
    (∃ e, h.writeLines p lines overwrite = (.error e, h)) ∨
    ∃ temporary loc mode, h.writeLines p lines overwrite =
        (.ok (), { h with tree := h.written temporary loc mode (Utf8.encode (endedLines lines)) }) ∧
      h.modeToWrite p overwrite = .ok mode ∧ h.Makes p temporary ∧
      h.storage (Utf8.encode (endedLines lines)) = none ∧
      h.tree.slot h.workingDirectory p = .ok loc ∧ h.tree.fixed? loc = none ∧
      p.hasNull = false := by
  unfold writeLines
  cases hm : h.modeToWrite p overwrite with
  | error e => exact .inl ⟨e, rfl⟩
  | ok mode =>
    generalize Utf8.encode (endedLines lines) = bytes
    dsimp only
    rcases createTemporary_cases h p with ⟨cause, hc⟩ | ⟨temporary, makes, hc⟩ <;> rw [hc]
    · exact .inl ⟨_, rfl⟩
    have root := FileTree.ne_nil_of_free makes.free
    dsimp only [fillTemporary]
    cases hs : h.storage bytes with
    | some errno =>
      refine .inl ⟨.ofWrite p (.refused ⟨errno, []⟩), ?_⟩
      dsimp only [removeTemporary]
      rw [FileTree.erase_put makes.free]
    | none =>
      dsimp only
      rw [FileTree.put_put makes.free]
      generalize hf : Node.file mode bytes = file
      rcases moveInPlace_cases { h with tree := h.tree.put temporary.loc file } temporary p mode
        bytes with ⟨cause, he⟩ | ⟨loc, he, slot, loose, null⟩ <;> rw [he] <;>
        dsimp only [removeTemporary] <;> rw [FileTree.erase_put makes.free]
      · exact .inl ⟨_, rfl⟩
      · -- No walk passes the temporary file.
        have agree := FileTree.agreeOff_put root h.tree file
        have blocked : (h.tree.put temporary.loc file).Blocked temporary.loc :=
          .inr ⟨mode, bytes, by rw [FileTree.get?_put root, if_pos rfl, ← hf]⟩
        exact .inr ⟨temporary, loc, mode, rfl, rfl, makes, rfl,
          slot_of_agree (h := { h with tree := h.tree.put temporary.loc file }) slot agree.symm
            blocked, agree.fixed? loc ▸ loose, null⟩

/-! ## When a write succeeds -/

/-- There is room for the temporary file, which takes the bytes, and a directory for the
destination, where nothing is, or a regular file that may be overwritten. -/
structure Admits (h : Host) (p : Path) (lines : List Text) (overwrite : Bool) : Prop where
  null : p.hasNull = false
  room : ∃ temporary, h.Makes p temporary
  stored : h.storage (Utf8.encode (endedLines lines)) = none
  destination : ∃ loc, h.tree.slot h.workingDirectory p = .ok loc ∧ h.tree.fixed? loc = none
  before : h.occupied? p = .ok false ∨ overwrite = true ∧ ∃ file, h.regularFile p = .ok file

theorem modeToWrite_isOk : (∃ mode, h.modeToWrite p overwrite = .ok mode) ↔
    h.occupied? p = .ok false ∨ overwrite = true ∧ ∃ file, h.regularFile p = .ok file := by
  rw [modeToWrite_eq]
  constructor
  · rintro ⟨mode, hm⟩
    split at hm
    · cases hm
    · split at hm
      · next ho =>
        cases hf : h.regularFile p with
        | error e =>
          rw [hf] at hm
          cases hm
        | ok file => exact .inr ⟨ho, file, rfl⟩
      · cases hm
    · next free => exact .inl free
  · rintro (free | ⟨rfl, file, hf⟩)
    · rw [free]
      exact ⟨newFileMode, rfl⟩
    · obtain ⟨l, hl⟩ := lstat_of_regularFile hf
      rw [occupied_of_found (FileTree.find_follow hl rfl), hf]
      exact ⟨file.mode, rfl⟩

theorem writeLines_of_admits {lines : List Text} (admits : h.Admits p lines overwrite) :
    (h.writeLines p lines overwrite).1 = .ok () := by
  obtain ⟨mode, hm⟩ := modeToWrite_isOk.2 admits.before
  obtain ⟨loc, slot, loose⟩ := admits.destination
  obtain ⟨temporary, makes⟩ := admits.room
  have agree (node : Node) : h.tree.AgreeOff (h.tree.put temporary.loc node) temporary.loc :=
    FileTree.agreeOff_put (FileTree.ne_nil_of_free makes.free) h.tree node
  have slot' (node : Node) : (h.tree.put temporary.loc node).slot h.workingDirectory p = .ok loc :=
    slot_of_agree slot (agree node) (.inl makes.free)
  rw [writeLines, hm]
  dsimp only
  rw [createTemporary_of_makes makes (Path.hasNull_parent admits.null)]
  dsimp only [fillTemporary]
  rw [admits.stored]
  dsimp only
  rw [FileTree.put_put makes.free, moveInPlace, if_neg (by simp [admits.null])]
  simp only [slot', (agree _).fixed?, loose]

/-! ## Reading back -/

/-- A text without carriage returns has its lines ended by line feeds. -/
theorem unifyLineEndings_eq_self {t : Text} (h : '\r' ∉ t) : Text.unifyLineEndings t = t := by
  unfold Text.unifyLineEndings
  induction t with
  | nil => rfl
  | cons c t ih =>
    simp only [List.mem_cons, not_or] at h
    rw [List.foldr_cons]
    dsimp only
    rw [if_neg (Ne.symm h.1), ih h.2]

theorem return_not_mem_endedLines {lines : List Text} (h : ∀ line ∈ lines, '\r' ∉ line) :
    '\r' ∉ endedLines lines := by
  intro hm
  obtain ⟨line, hl, hm⟩ := List.mem_flatMap.1 hm
  rcases List.mem_append.1 hm with hm | hm
  · exact h line hl hm
  · exact absurd (List.mem_singleton.1 hm) (by decide)

/-- A file that is put at the destination is found there. -/
theorem readText_of_put {tree : FileTree} (leads : h.LeadsTo p d name)
    (writable : h.Writable p d name overwrite mode) (null : p.hasNull = false) {t : Text}
    (agree : h.tree.AgreeOff tree (d ++ [name]))
    (stands : tree.get? (d ++ [name]) = some (.file mode (Utf8.encode t)))
    (readable : tree.unreadable.lookup (d ++ [name]) = none) (returns : '\r' ∉ t) :
    readText { h with tree } p = .ok t := by
  have leads' := leads.of_agree agree writable.blocked
  obtain ⟨left, asks⟩ := leads'.asks null writable.short
  have here : tree.look d name = .ok (.file mode (Utf8.encode t)) := FileTree.look_eq_ok_iff.2
    ⟨leads'.directory, agree.closed ▸ writable.opens, writable.isName.short, stands⟩
  have read : readBytes { h with tree } p = .ok (Utf8.encode t) := by
    rw [readBytes, stat, asks, FileTree.walk_last writable.isName.toIsChild here (.inl rfl)]
    simp [Except.mapError, readable]
  rw [readText, read]
  dsimp only
  rw [Utf8.decode_encode]
  dsimp only
  rw [unifyLineEndings_eq_self returns]

/-! ## All or nothing -/

/-- Where something is in the way nothing is written. -/
theorem writeLines_occupied (ho : h.occupied? p = .ok true) (lines : List Text) :
    h.writeLines p lines false = (.error (.alreadyExists p), h) := by
  rw [writeLines, modeToWrite_eq, ho]
  rfl

theorem occupied_of_link {l : Location} {target : Text} (hl : h.lstat p = .ok (l, .link target))
    (absent : ∀ e, h.stat p = .error e → e.isAbsence = true) : h.occupied? p = .ok true := by
  cases hs : h.stat p with
  | ok found => exact occupied_of_found hs
  | error e => simp [occupied?, exists?, hs, absent e hs, isLink?, hl]

/-- What is in the way is asked for without a refusal, or with one of the system. -/
theorem occupied_of_lstat {l : Location} {node : Node} (hl : h.lstat p = .ok (l, node)) :
    h.occupied? p = .ok true ∨ ∃ e, h.occupied? p = .error e ∧ e ≠ .nullByte := by
  cases hs : h.stat p with
  | ok found => exact .inl (occupied_of_found hs)
  | error e =>
    cases ha : e.isAbsence with
    | false =>
      refine .inr ⟨e, by simp [occupied?, exists?, hs, ha], ?_⟩
      rintro rfl
      cases ha
    | true =>
      cases node with
      | link target =>
        refine .inl (occupied_of_link hl fun e' hs' => ?_)
        exact Except.error.inj (hs.symm.trans hs') ▸ ha
      | file | directory => cases hs.symm.trans (FileTree.find_follow hl rfl)

/-- What is no regular file is not overwritten. -/
theorem writeLines_irregular {l : Location} {node : Node} (hl : h.lstat p = .ok (l, node))
    (irregular : ∀ mode bytes, node ≠ .file mode bytes) (lines : List Text) :
    ∃ e, h.writeLines p lines true = (.error e, h) ∧ e ≠ .system .nullByte := by
  have refused : ∃ e, h.modeToWrite p true = .error e ∧ e ≠ .system .nullByte := by
    rw [modeToWrite_eq]
    rcases occupied_of_lstat hl with ho | ⟨e, ho, he⟩ <;> rw [ho]
    · dsimp only
      rw [if_pos rfl, regularFile, hl]
      cases node with
      | link target => exact ⟨_, rfl, nofun⟩
      | directory => exact ⟨_, rfl, nofun⟩
      | file mode bytes => exact (irregular mode bytes rfl).elim
    · exact ⟨_, rfl, by simpa using he⟩
  obtain ⟨e, hm, he⟩ := refused
  exact ⟨e, by rw [writeLines, hm], he⟩

/-- **All or nothing.** A write fails and leaves the host as it was, or its destination alone
changes: it is the file of the lines, with the mode bits of the file that was there or those of
a new one, and lines without carriage returns are read back if these let the user read. Only if
the temporary file gets the very name of the destination, nothing is there after the write. Without
the wish to overwrite it fails where something is found at the path, or a link that leads nowhere,
and with it where what is there is no regular file. It succeeds exactly where the host admits it. -/
theorem writeLines_atomic (grounded : h.tree.Grounded) (p : Path) (lines : List Text)
    (overwrite : Bool) :
    ((∃ e, h.writeLines p lines overwrite = (.error e, h)) ∨
      ∃ temporary loc mode tree, h.writeLines p lines overwrite = (.ok (), { h with tree }) ∧
        h.Makes p temporary ∧ h.tree.slot h.workingDirectory p = .ok loc ∧
        h.tree.AgreeOff tree loc ∧
        ((overwrite = true ∧ ∃ bytes, h.tree.get? loc = some (.file mode bytes)) ∨
          (h.tree.get? loc = none ∧ mode = newFileMode)) ∧
        (temporary.loc ≠ loc →
          tree.get? loc = some (.file mode (Utf8.encode (endedLines lines))) ∧
          tree.unreadable.lookup loc = h.unreadableMode mode ∧
          ((∀ line ∈ lines, '\r' ∉ line) → h.unreadableMode mode = none →
            readText { h with tree } p = .ok (endedLines lines))) ∧
        (temporary.loc = loc → tree.get? loc = none)) ∧
    (overwrite = false →
      ((∃ found, h.stat p = .ok found) ∨ (∃ l target, h.lstat p = .ok (l, .link target)) ∧
        ∀ e, h.stat p = .error e → e.isAbsence = true) →
      h.writeLines p lines overwrite = (.error (.alreadyExists p), h)) ∧
    (overwrite = true → ∀ l node, h.lstat p = .ok (l, node) →
      (∀ mode bytes, node ≠ .file mode bytes) →
      ∃ e, h.writeLines p lines overwrite = (.error e, h) ∧ e ≠ .system .nullByte) ∧
    ((h.writeLines p lines overwrite).1 = .ok () ↔ h.Admits p lines overwrite) := by
  have cases := writeLines_cases h p lines overwrite
  refine ⟨?_, ?_, ?_, ?_, writeLines_of_admits⟩
  · rcases cases with failed | ⟨temporary, loc, mode, he, hm, makes, -, slot, -, null⟩
    · exact .inl failed
    · obtain ⟨-, d, name, leads, -, rfl⟩ := slot_eq_ok_iff.1 slot
      have writable := writable_of_mode grounded leads null hm
      have root : d ++ [name] ≠ [] := by simp
      have get := get?_written mode (Utf8.encode (endedLines lines)) makes.free root
      have agree := agreeOff_written mode (Utf8.encode (endedLines lines)) makes.free root
      have lookup := (FileTree.lookup_putNew h.tree mode (Utf8.encode (endedLines lines))
        (h.unreadableMode mode) (d ++ [name])).trans (if_pos rfl)
      refine .inr ⟨temporary, d ++ [name], mode, _, he, makes, slot, agree, writable.before,
        fun other => ?_, fun same => ?_⟩
      · have stands := (get (d ++ [name])).trans ((if_neg (Ne.symm other)).trans (if_pos rfl))
        exact ⟨stands, lookup, fun returns readable => readText_of_put leads writable null agree
          stands (lookup.trans readable) (return_not_mem_endedLines returns)⟩
      · exact (get (d ++ [name])).trans (if_pos same.symm)
  · rintro rfl (⟨found, hs⟩ | ⟨⟨l, target, hl⟩, absent⟩)
    · exact writeLines_occupied (occupied_of_found hs) lines
    · exact writeLines_occupied (occupied_of_link hl absent) lines
  · rintro rfl l node hl irregular
    exact writeLines_irregular hl irregular lines
  · intro done
    rcases cases with ⟨e, he⟩ | ⟨temporary, loc, mode, -, hm, makes, stored, slot, loose, null⟩
    · rw [he] at done
      cases done
    · exact ⟨null, ⟨temporary, makes⟩, stored, ⟨loc, slot, loose⟩, modeToWrite_isOk.1 ⟨mode, hm⟩⟩

/-- A working directory with a document, and a link whose target is too long for a name. -/
def desk : Host where
  tree := { entries := [([['w']], .directory), ([['w'], "o.md".toList], .file 0o600 []),
    ([['w'], "l.md".toList], .link (List.replicate 300 'x'))] }
  workingDirectory := [['w']]
  home := "/w".toList

theorem desk_grounded : desk.tree.Grounded := grounded_of_entries (by decide +kernel)

theorem writeLines_atomic_desk :
    desk.tree.Grounded ∧
      desk.writeLines (.ofText "o.md".toList) [['a']] false =
        (.error (.alreadyExists (.ofText "o.md".toList)), desk) ∧
      (∃ e, desk.writeLines (.ofText "l.md".toList) [['a']] true = (.error e, desk) ∧
        e ≠ .system .nullByte) ∧
      desk.writeLines (.ofText "o.md".toList) [['a']] true = (.ok (), { desk with
        tree := desk.tree.putNew [['w'], "o.md".toList] 0o600 (Utf8.encode "a\n".toList)
          none }) := by
  have note : desk.stat (.ofText "o.md".toList) = .ok ([['w'], "o.md".toList], .file 0o600 []) := by
    decide +kernel
  have astray : desk.lstat (.ofText "l.md".toList) =
      .ok ([['w'], "l.md".toList], .link (List.replicate 300 'x')) := by
    decide +kernel
  refine ⟨desk_grounded, ?_, ?_, by rfl⟩
  · exact (writeLines_atomic desk_grounded _ [['a']] false).2.1 rfl (.inl ⟨_, note⟩)
  · exact (writeLines_atomic desk_grounded _ [['a']] true).2.2.1 rfl _ _ astray nofun

/-- The name of the target is refused before it is asked whether there is a link. -/
theorem writeLines_atomic_longTarget :
    desk.tree.Grounded ∧
      desk.lstat (.ofText "l.md".toList) =
        .ok ([['w'], "l.md".toList], .link (List.replicate 300 'x')) ∧
      desk.writeLines (.ofText "l.md".toList) [['a']] false =
        (.error (.system (.refused ⟨.nameTooLong, ["l.md".toList]⟩)), desk) := by
  refine ⟨desk_grounded, by decide +kernel, ?_⟩
  have refused : desk.modeToWrite (.ofText "l.md".toList) false =
      .error (.system (.refused ⟨.nameTooLong, ["l.md".toList]⟩)) := by
    decide +kernel
  rw [writeLines, refused]

end Host

end NimMarkdown
