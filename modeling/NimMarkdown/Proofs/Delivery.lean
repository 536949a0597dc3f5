import NimMarkdown.Command.Run
import NimMarkdown.Proofs.Controls
import NimMarkdown.Proofs.Writing

/-!
# Where the document goes

A document is printed, or written to a file (`serve_delivers`). What is printed is what
is written, if the toolkit keeps a text without control sequences as it is. Only the tree
of the host can change, and it changes only where a file is written.

A new file is written wherever its directory is there (`Vacant`) and the temporary file
has room. That is in the directory which the text of the path names, so it may be
another one: `..` behind a link leads elsewhere than its text says.
-/

namespace NimMarkdown

open Command

/-- The line feed at the end of what is printed is that of the last line. -/
theorem joinLines_lineFeed {lines : List Text} (h : lines ≠ []) :
    Text.joinLines lines ++ ['\n'] = endedLines lines := by
  unfold Text.joinLines endedLines
  induction lines with
  | nil => exact (h rfl).elim
  | cons line rest ih =>
    cases rest with
    | nil => simp
    | cons next rest =>
      rw [List.intercalate_cons_cons, List.flatMap_cons, ← ih (List.cons_ne_nil next rest)]
      simp

theorem endedLines_eq_nil_iff {lines : List Text} : endedLines lines = [] ↔ lines = [] := by
  cases lines <;> simp [endedLines]

namespace Command

variable {k : Toolkit} {rendering : Rendering} {text output : Text} {c : Crash}

theorem Stop.exitCode_outcome (k : Toolkit) (stop : Stop) (messages : Text) :
    (stop.outcome k messages).exitCode ≠ 0 := by
  cases stop <;> nofun

theorem Stop.exitCode_ofFile (k : Toolkit) (e : FileError) (messages : Text) :
    ((ofFile e).outcome k messages).exitCode = 1 := by
  unfold ofFile
  split <;> rfl

/-- The same request with a file as its output. -/
def Request.toFile (r : Request) (given : Text) : Request := { r with output := some given }

/-! ## Standard output -/

/-- Standard output leaves out control sequences and nothing else. -/
def Toolkit.Keeps (k : Toolkit) : Prop :=
  ∀ text output, k.print text = .ok output → (∀ seq, Text.IsControl seq → ¬ seq <:+: text) →
    output = text

theorem Toolkit.plain_keeps : Toolkit.plain.Keeps := by
  intro text output printed none
  obtain rfl : text.withoutControls = output := Except.ok.inj printed
  exact Text.withoutControls_eq_self_iff.2 none

/-- What standard output gets of a text. It is not asked to take an empty one. -/
def Toolkit.Shows (k : Toolkit) (text output : Text) : Prop :=
  text = [] ∧ output = [] ∨ text ≠ [] ∧ k.print text = .ok output

theorem Toolkit.Keeps.shows (keeps : k.Keeps) (shows : k.Shows text output)
    (none : ∀ seq, Text.IsControl seq → ¬ seq <:+: text) : output = text := by
  rcases shows with ⟨rfl, rfl⟩ | ⟨-, printed⟩
  · rfl
  · exact keeps text output printed none

/-- The text of the lines is printed, or standard output does not take it. -/
theorem printDocument_cases (k : Toolkit) (rendering : Rendering) :
    (∃ output, k.Shows (endedLines rendering.document.lines) output ∧
      printDocument k rendering = { output, messages := rendering.messages }) ∨
    ∃ e, endedLines rendering.document.lines ≠ [] ∧
      k.print (endedLines rendering.document.lines) = .error e ∧
      printDocument k rendering = (Stop.crash (.output e)).outcome k rendering.messages := by
  unfold printDocument
  dsimp only
  split
  · next empty =>
    have lines : endedLines rendering.document.lines = [] :=
      endedLines_eq_nil_iff.2 (List.isEmpty_iff.1 empty)
    exact .inl ⟨[], .inl ⟨lines, rfl⟩, rfl⟩
  · next full =>
    have lines : rendering.document.lines ≠ [] := by simpa [Document.isEmpty] using full
    have ne : endedLines rendering.document.lines ≠ [] := mt endedLines_eq_nil_iff.1 lines
    rw [Document.text, joinLines_lineFeed lines]
    cases printed : k.print (endedLines rendering.document.lines) with
    | error e => exact .inr ⟨e, ne, rfl, rfl⟩
    | ok output => exact .inl ⟨output, .inr ⟨ne, printed⟩, rfl⟩

end Command

namespace Host

open FileTree (pathOf maxPathBytes maxNameBytes)

variable {h : Host} {k : Toolkit} {r : Request} {rendering : Rendering} {given name : Text}
  {d loc : Location} {p : Path} {text : Text}

/-! ## What a request comes to -/

/-- The document of a request, wherever it goes. -/
def produce (h : Host) (k : Toolkit) (r : Request) : Except Stop Rendering :=
  h.prepare r >>= fun job => h.convert k job r.verbose

theorem serve_of_stop {stop : Stop} (hr : h.produce k r = .error stop) :
    h.serve k r = (stop.outcome k [], h) := by
  unfold produce at hr
  rw [serve, hr]

theorem serve_of_rendering (hr : h.produce k r = .ok rendering) :
    h.serve k r = h.deliver k r rendering := by
  unfold produce at hr
  rw [serve, hr]

/-- Where the document goes makes no difference to it. -/
theorem produce_toFile (h : Host) (k : Toolkit) (r : Request) (given : Text) :
    h.produce k (r.toFile given) = h.produce k r := rfl

theorem deliver_printed (ho : r.output = none) :
    h.deliver k r rendering = (printDocument k rendering, h) := by
  rw [deliver, ho]

theorem deliver_written {target : Path} (ho : r.output = some given)
    (he : h.expandHome (.ofText given) = .ok target) : h.deliver k r rendering =
      match h.writeLines target rendering.document.lines r.overwrite with
      | (.error e, h) => ((Stop.ofFile e).outcome k rendering.messages, h)
      | (.ok _, h) =>
        ({ messages := rendering.messages ++
            k.tell .success ("Markdown written to ".toList ++ target.toText ++ ['\n']) }, h) := by
  rewrite [deliver, ho]
  dsimp only
  rewrite [he]
  rfl

theorem deliver_homeless {e : HomeError} (ho : r.output = some given)
    (he : h.expandHome (.ofText given) = .error e) :
    h.deliver k r rendering = ((Stop.crash (.path (.home e))).outcome k rendering.messages, h) := by
  rewrite [deliver, ho]
  dsimp only
  rewrite [he]
  rfl

/-- A document is delivered, or leaves no trace. -/
theorem deliver_cases (h : Host) (k : Toolkit) (r : Request) (rendering : Rendering) :
    (h.deliver k r rendering).1.exitCode = 0 ∨
      ∃ stop, h.deliver k r rendering = (Stop.outcome k rendering.messages stop, h) := by
  cases ho : r.output with
  | none =>
    rw [deliver_printed ho]
    rcases printDocument_cases k rendering with ⟨output, -, hp⟩ | ⟨e, -, -, hp⟩ <;> rw [hp]
    · exact .inl rfl
    · exact .inr ⟨_, rfl⟩
  | some given =>
    cases he : h.expandHome (.ofText given) with
    | error e => exact .inr ⟨_, deliver_homeless ho he⟩
    | ok target =>
      rw [deliver_written ho he]
      rcases writeLines_cases h target rendering.document.lines r.overwrite with
        ⟨e, hw⟩ | ⟨temporary, loc, mode, hw, -⟩
      · exact .inr ⟨.ofFile e, by rw [hw]⟩
      · exact .inl (by rw [hw])

/-- A run completes, or ends early and leaves no trace. -/
theorem serve_cases (h : Host) (k : Toolkit) (r : Request) : (h.serve k r).1.exitCode = 0 ∨
    ∃ stop messages, h.serve k r = (Stop.outcome k messages stop, h) := by
  cases hr : h.produce k r with
  | error stop => exact .inr ⟨stop, [], serve_of_stop hr⟩
  | ok rendering =>
    rw [serve_of_rendering hr]
    exact (deliver_cases h k r rendering).imp_right fun ⟨stop, hs⟩ => ⟨stop, _, hs⟩

/-! ## New files -/

/-- Nothing is at the path, which has a name that a file can have and a directory to put it in. -/
structure Vacant (h : Host) (given : Text) (d : Location) (name : Text) : Prop where
  leads : h.LeadsTo (.ofText given) d name
  ne_up : name ≠ ['.', '.']
  short_name : (Utf8.encode name).length ≤ maxNameBytes
  opens : d ∉ h.tree.closed
  free : h.tree.get? (d ++ [name]) = none
  /-- The system takes the path. -/
  null : (Path.ofText given).hasNull = false
  short : (Utf8.encode (Path.ofText given).toText).length ≤ maxPathBytes
  /-- The path is not one from a home directory. -/
  home : ∀ first rest, Path.ofText given = ⟨.relative, first :: rest⟩ → first.head? ≠ some '~'

theorem Vacant.expandHome (vacant : h.Vacant given d name) :
    h.expandHome (.ofText given) = .ok (.ofText given) := by
  have home := vacant.home
  unfold Host.expandHome
  generalize Path.ofText given = p at home ⊢
  split
  · next user rest ha hn =>
    obtain ⟨anchor, names⟩ := p
    subst ha hn
    exact (home ('~' :: user) rest rfl rfl).elim
  · rfl

theorem Vacant.outputPath (vacant : h.Vacant given d name) (colon : given.head? ≠ some ':') :
    Command.outputPath given = .ok given := by
  cases given with
  | nil =>
    have last : ([] : List Text) = [] ++ [name] := vacant.leads.last
    cases last
  | cons c rest =>
    unfold Command.outputPath
    dsimp only
    split
    · next he =>
      obtain ⟨rfl, -⟩ := List.cons.inj he
      exact (colon rfl).elim
    · rfl

theorem Vacant.slot (vacant : h.Vacant given d name) :
    h.tree.slot h.workingDirectory (.ofText given) = .ok (d ++ [name]) :=
  slot_eq_ok_iff.2 ⟨vacant.short, d, name, vacant.leads, vacant.opens, rfl⟩

theorem Vacant.isChild (vacant : h.Vacant given d name) : FileTree.IsChild name := by
  refine FileTree.isChild_of_proper ?_ vacant.ne_up
  have last : name ∈ (Path.ofText given).names := by
    rw [vacant.leads.last]
    exact List.mem_append_right _ List.mem_cons_self
  exact (List.mem_filter.1 last).2

theorem Vacant.occupied (vacant : h.Vacant given d name) :
    h.occupied? (.ofText given) = .ok false := by
  have look : h.tree.look d name = .error .noEntry := by
    rw [FileTree.look_of_open vacant.leads.directory vacant.opens vacant.short_name, vacant.free]
  obtain ⟨left, asks⟩ := vacant.leads.asks vacant.null vacant.short
  have missing (follow : Bool) : h.tree.find follow h.workingDirectory (.ofText given) =
      .error (.refused ⟨.noEntry, [(Path.ofText given).toText]⟩) := by
    rw [asks, FileTree.walk_of_look vacant.isChild look]
    rfl
  simp [occupied?, exists?, isLink?, stat, lstat, missing, SystemError.isAbsence, Errno.isAbsence]

/-- The text can be stored, and renamed to the location from a temporary file of another name. -/
structure HasRoom (h : Host) (p : Path) (loc : Location) (text : Text) : Prop where
  temporary : ∃ temporary, h.Makes p temporary ∧ temporary.loc ≠ loc
  stored : h.storage (Utf8.encode text) = none
  loose : h.tree.fixed? loc = none

/-- A new file is written if there is room. If there is none the write fails, or the file is gone
with the temporary file, which has got its name. -/
theorem Vacant.writeLines (vacant : h.Vacant given d name) (lines : List Text) (overwrite : Bool) :
    (h.HasRoom (.ofText given) (d ++ [name]) (endedLines lines) →
      ∃ tree, h.writeLines (.ofText given) lines overwrite = (.ok (), { h with tree }) ∧
        h.tree.AgreeOff tree (d ++ [name]) ∧ tree.get? (d ++ [name]) =
          some (.file newFileMode (Utf8.encode (endedLines lines)))) ∧
    (¬ h.HasRoom (.ofText given) (d ++ [name]) (endedLines lines) →
      (∃ e, h.writeLines (.ofText given) lines overwrite = (.error e, h)) ∨
      ∃ tree, h.writeLines (.ofText given) lines overwrite = (.ok (), { h with tree }) ∧
        (∃ temporary, h.Makes (.ofText given) temporary ∧ temporary.loc = d ++ [name]) ∧
        ∀ l, tree.get? l = h.tree.get? l) := by
  have root : d ++ [name] ≠ [] := by simp
  rcases writeLines_cases h (.ofText given) lines overwrite with
    ⟨e, he⟩ | ⟨temporary, loc, mode, he, hm, makes, stored, slot, loose, null⟩
  · refine ⟨fun room => ?_, fun _ => .inl ⟨e, he⟩⟩
    obtain ⟨temporary, makes, -⟩ := room.temporary
    have done : (h.writeLines (.ofText given) lines overwrite).1 = .ok () :=
      writeLines_of_admits ⟨vacant.null, ⟨temporary, makes⟩, room.stored,
        ⟨_, vacant.slot, room.loose⟩, .inl vacant.occupied⟩
    rw [he] at done
    cases done
  · obtain rfl : d ++ [name] = loc := Except.ok.inj (vacant.slot.symm.trans slot)
    have get := get?_written mode (Utf8.encode (endedLines lines)) makes.free root
    refine ⟨fun room => ?_, fun none => .inr ⟨_, he, ?_⟩⟩
    · obtain ⟨temporary', makes', other⟩ := room.temporary
      obtain rfl := makes.unique makes'
      rw [modeToWrite_eq, vacant.occupied] at hm
      cases hm
      refine ⟨_, he, agreeOff_written _ _ makes.free root, ?_⟩
      rw [get, if_neg (Ne.symm other), if_pos rfl]
    · have same : temporary.loc = d ++ [name] := by
        by_contra other
        exact none ⟨⟨temporary, makes, other⟩, stored, loose⟩
      refine ⟨⟨temporary, makes, same⟩, fun l => ?_⟩
      rw [get]
      by_cases hl : l = d ++ [name]
      · rw [hl, same, if_pos rfl, vacant.free]
      · rw [if_neg (same ▸ hl), if_neg hl]

/-! ## Room -/

/-- The directory of the path is found by its text as well, and takes a new file by one of the
drawn names, which are others than that of the path. -/
structure Ample (h : Host) (p : Path) (d : Location) (name : Text) : Prop where
  settled : h.tree.Settled h.workingDirectory
  clear : h.tree.Clear [] h.workingDirectory
  plain : ['.', '.'] ∉ p.parent.names
  /-- There is place for a slash and a drawn name. -/
  short : (Utf8.encode (FileTree.absolute h.workingDirectory p.parent).toText).length + 12 ≤
    maxPathBytes
  loose : ∀ other, h.tree.fixed? (d ++ [other]) = none
  drawn : ∃ draw ∈ h.draws, h.tree.get? (d ++ [draw.name]) = none
  apart : ∀ draw ∈ h.draws, draw.name ≠ name

theorem length_encodeChar_drawn {c : Char} (drawn : isDrawn c = true) :
    (Utf8.encodeChar c).length = 1 := by
  have ascii : c.toNat < 0x80 := by
    simp only [isDrawn, Bool.or_eq_true, Bool.and_eq_true, decide_eq_true_eq,
      beq_iff_eq] at drawn
    rcases drawn with (⟨-, high⟩ | ⟨-, high⟩) | rfl
    · exact Nat.lt_of_le_of_lt high (by decide)
    · exact Nat.lt_of_le_of_lt high (by decide)
    · decide
  rw [Utf8.encodeChar]
  simp [ascii]

theorem length_encode_drawn (draw : Draw) : (Utf8.encode draw.name).length = 11 := by
  have single : ∀ c ∈ draw.text, (Utf8.encodeChar c).length = 1 := fun c hc =>
    length_encodeChar_drawn (List.all_eq_true.1 draw.characters c hc)
  rw [Draw.name, Utf8.encode, List.flatMap_append, List.length_append,
    List.length_flatMap (l := draw.text), List.map_congr_left single]
  simp [draw.length, Utf8.encodeChar]

/-- Without `..` the text of the path leads to its directory, from the root on. -/
theorem Ample.walk (ample : h.Ample p d name) (leads : h.LeadsTo p d name) :
    let directory := FileTree.absolute h.workingDirectory p.parent
    h.tree.walk true FileTree.maxLinks (FileTree.base h.workingDirectory directory)
      directory.names = .ok (d, .directory) := by
  intro directory
  have walk := leads.walk
  cases ha : p.parent.isAbsolute with
  | true =>
    have same : directory = p.parent := by
      show FileTree.absolute h.workingDirectory p.parent = _
      rw [FileTree.absolute, if_pos ha, Path.collapse_of_plain ample.plain]
    rw [same]
    exact walk
  | false =>
    have from_root : directory = pathOf (h.workingDirectory ++ p.parent.names) := by
      show FileTree.absolute h.workingDirectory p.parent = _
      rw [FileTree.absolute, if_neg (by simp [ha]), Path.collapse_append _ ample.plain,
        Path.collapse_of_plain ample.settled.direct.up_not_mem]
    have start : FileTree.base h.workingDirectory p = h.workingDirectory :=
      if_neg (Bool.eq_false_iff.1 ha)
    rw [start] at walk
    rw [from_root]
    exact (ample.settled.direct.walk ample.clear true FileTree.maxLinks p.parent.names).trans walk

theorem freeSlot_of_loose {directory : Path}
    (slots : ∀ draw : Draw,
      h.tree.slot h.workingDirectory (directory.child draw.name) = .ok (d ++ [draw.name]))
    (loose : ∀ other, h.tree.fixed? (d ++ [other]) = none) {draws : List Draw}
    (drawn : ∃ draw ∈ draws, h.tree.get? (d ++ [draw.name]) = none) : ∃ draw ∈ draws,
    h.freeSlot directory draws = .ok ⟨directory.child draw.name, d ++ [draw.name]⟩ := by
  induction draws with
  | nil => simp at drawn
  | cons first draws ih =>
    rw [freeSlot, slots]
    cases hf : h.tree.get? (d ++ [first.name]) with
    | none =>
      refine ⟨first, List.mem_cons_self, ?_⟩
      simp [hf, loose]
    | some node =>
      have later : ∃ draw ∈ draws, h.tree.get? (d ++ [draw.name]) = none := by
        obtain ⟨draw, hm, free⟩ := drawn
        rcases List.mem_cons.1 hm with rfl | hm
        · cases hf.symm.trans free
        · exact ⟨draw, hm, free⟩
      obtain ⟨draw, hm, hd⟩ := ih later
      exact ⟨draw, List.mem_cons_of_mem first hm, by simp [hf, hd]⟩

theorem hasRoom_of_ample (leads : h.LeadsTo p d name) (opens : d ∉ h.tree.closed)
    (ample : h.Ample p d name) (stored : h.storage (Utf8.encode text) = none) :
    h.HasRoom p (d ++ [name]) text := by
  have slots (draw : Draw) : h.tree.slot h.workingDirectory
      ((FileTree.absolute h.workingDirectory p.parent).child draw.name) =
        .ok (d ++ [draw.name]) := by
    have longer := Path.length_toText_child
      (FileTree.absolute h.workingDirectory p.parent) draw.name
    have short := ample.short
    rw [length_encode_drawn] at longer
    exact slot_eq_ok_iff.2 ⟨by omega, d, draw.name, leadsTo_child (ample.walk leads) _, opens, rfl⟩
  obtain ⟨draw, hm, made⟩ := freeSlot_of_loose slots ample.loose ample.drawn
  refine ⟨⟨_, freeSlot_eq_ok_iff.1 made, ?_⟩, stored, ample.loose name⟩
  show d ++ [draw.name] ≠ d ++ [name]
  intro same
  exact ample.apart draw hm (List.singleton_inj.1 (List.append_cancel_left same))

/-! ## Printing and writing -/

/-- A run whose document goes to a new file. -/
theorem serve_toFile (hr : h.produce k r = .ok rendering) (vacant : h.Vacant given d name) :
    (h.HasRoom (.ofText given) (d ++ [name]) (endedLines rendering.document.lines) →
      (h.serve k (r.toFile given)).1.exitCode = 0 ∧ (h.serve k (r.toFile given)).1.output = [] ∧
      ∃ tree, (h.serve k (r.toFile given)).2 = { h with tree } ∧
        h.tree.AgreeOff tree (d ++ [name]) ∧ tree.get? (d ++ [name]) =
          some (.file newFileMode (Utf8.encode (endedLines rendering.document.lines)))) ∧
    (¬ h.HasRoom (.ofText given) (d ++ [name]) (endedLines rendering.document.lines) →
      (h.serve k (r.toFile given)).1.exitCode = 1 ∧ (h.serve k (r.toFile given)).2 = h ∨
      (∃ temporary, h.Makes (.ofText given) temporary ∧ temporary.loc = d ++ [name]) ∧
        ∃ tree, (h.serve k (r.toFile given)).2 = { h with tree } ∧
          ∀ l, tree.get? l = h.tree.get? l) := by
  have delivered := (serve_of_rendering ((produce_toFile h k r given).trans hr)).trans
    (deliver_written rfl vacant.expandHome)
  obtain ⟨done, failed⟩ := vacant.writeLines rendering.document.lines (r.toFile given).overwrite
  rw [delivered]
  refine ⟨fun room => ?_, fun none => ?_⟩
  · obtain ⟨tree, hw, agree, stands⟩ := done room
    rw [hw]
    exact ⟨rfl, rfl, tree, rfl, agree, stands⟩
  · rcases failed none with ⟨e, hw⟩ | ⟨tree, hw, same, get⟩ <;> rw [hw]
    · exact .inl ⟨Stop.exitCode_ofFile k e _, rfl⟩
    · exact .inr ⟨same, tree, rfl, get⟩

/-- **Printing and writing.** A run that prints, or fails, leaves the host as it was, also where
standard output does not take the document. What standard output gets is the text of the lines of
the document, if it has no control sequence. With a new file as its output the same run prints
nothing, and the file, with that text, is all that it changes. It needs room for the temporary
file, which it has if the path has no `..` and names may be made in the directory of the path
(`Ample`); otherwise it fails, or leaves nothing where the temporary file gets the name of the
new one. -/
theorem serve_delivers (h : Host) (k : Toolkit) (keeps : k.Keeps) (r : Request) :
    (r.output = none → (h.serve k r).2 = h) ∧
    ((h.serve k r).1.exitCode ≠ 0 → (h.serve k r).2 = h) ∧
    (r.output = none → (h.serve k r).1.exitCode = 0 → ∃ document text,
      (h.produce k r).map Rendering.document = .ok document ∧ text = endedLines document.lines ∧
      k.Shows text (h.serve k r).1.output ∧
      ((∀ seq, Text.IsControl seq → ¬ seq <:+: text) → (h.serve k r).1.output = text) ∧
      (document.isEmpty = true ↔ text = []) ∧
      ∀ given d name, given.head? ≠ some ':' → h.Vacant given d name →
        let written := h.serve k (r.toFile given)
        outputPath given = .ok given ∧
        (h.HasRoom (.ofText given) (d ++ [name]) text →
          written.1.exitCode = 0 ∧ written.1.output = [] ∧
          ∃ tree, written.2 = { h with tree } ∧ h.tree.AgreeOff tree (d ++ [name]) ∧
            tree.get? (d ++ [name]) = some (.file newFileMode (Utf8.encode text))) ∧
        (¬ h.HasRoom (.ofText given) (d ++ [name]) text →
          written.1.exitCode = 1 ∧ written.2 = h ∨
          (∃ temporary, h.Makes (.ofText given) temporary ∧ temporary.loc = d ++ [name]) ∧
            ∃ tree, written.2 = { h with tree } ∧ ∀ l, tree.get? l = h.tree.get? l)) ∧
    ∀ given d name text, h.Vacant given d name → h.Ample (.ofText given) d name →
      h.storage (Utf8.encode text) = none → h.HasRoom (.ofText given) (d ++ [name]) text := by
  refine ⟨fun ho => ?_, fun hc => ?_, fun ho hc => ?_, fun given d name text vacant ample stored =>
    hasRoom_of_ample vacant.leads vacant.opens ample stored⟩
  · cases hr : h.produce k r with
    | error stop => rw [serve_of_stop hr]
    | ok rendering => rw [serve_of_rendering hr, deliver_printed ho]
  · rcases serve_cases h k r with done | ⟨stop, messages, hs⟩
    · exact (hc done).elim
    · rw [hs]
  · cases hr : h.produce k r with
    | error stop =>
      rw [serve_of_stop hr] at hc
      exact (stop.exitCode_outcome k [] hc).elim
    | ok rendering =>
      have printed : (h.serve k r).1 = printDocument k rendering := by
        rw [serve_of_rendering hr, deliver_printed ho]
      rw [printed] at hc ⊢
      rcases printDocument_cases k rendering with ⟨output, shows, hp⟩ | ⟨e, -, -, hp⟩
      · rw [hp]
        refine ⟨rendering.document, _, rfl, rfl, shows, keeps.shows shows, ?_, ?_⟩
        · rw [endedLines_eq_nil_iff]
          exact List.isEmpty_iff
        · intro given d name colon vacant written
          exact ⟨vacant.outputPath colon, serve_toFile hr vacant⟩
      · rw [hp] at hc
        exact (Stop.exitCode_outcome k _ _ hc).elim

/-- A working directory with a source, a directory that is called `~`, and a link to a directory
two levels down. -/
def study (source : Text) : Host where
  tree := { entries := [([['w']], .directory),
    ([['w'], "a.nim".toList], .file 0o644 (Utf8.encode source)),
    ([['w'], ['~']], .directory), ([['w'], ['l']], .link "s/d".toList),
    ([['w'], ['s']], .directory), ([['w'], ['s'], ['d']], .directory),
    ([['w'], ['s'], ['x']], .directory)] }
  workingDirectory := [['w']]
  home := "/w".toList

/-- A request to print the document of that source. -/
def printing : Request := { source := "a.nim".toList }

def greeting : Text := "## Hi\n".toList

/-- A comment with a control sequence. -/
def colored : Text := "## \x1b[31mred\n".toList

theorem study_settled (source : Text) : (study source).tree.Settled [['w']] :=
  FileTree.settled_single ⟨⟨by decide, by decide, by decide⟩, by decide, by decide⟩ rfl

theorem study_vacant (source : Text) :
    (study source).Vacant "l/o.md".toList [['w'], ['s'], ['d']] "o.md".toList where
  leads := ⟨rfl, rfl⟩
  ne_up := by decide
  short_name := by decide
  opens := nofun
  free := rfl
  null := rfl
  short := by decide
  home := by
    intro first rest he
    obtain rfl : ['l'] = first := (List.cons.inj (Path.mk.inj he).2).1
    decide

theorem study_ample (source : Text) :
    (study source).Ample (.ofText "l/o.md".toList) [['w'], ['s'], ['d']] "o.md".toList where
  settled := study_settled source
  clear := fun _ _ _ => nofun
  plain := by decide
  short := by
    show (Utf8.encode "/w/l".toList).length + 12 ≤ maxPathBytes
    decide
  loose := fun _ => rfl
  drawn := ⟨_, List.mem_cons_self, rfl⟩
  apart := by
    show ∀ draw ∈ (study []).draws, draw.name ≠ "o.md".toList
    decide

/-- The document is printed, or written behind the link. -/
theorem serve_delivers_study :
    Toolkit.plain.Keeps ∧
      ((study greeting).serve .plain printing).1 = { output := "Hi\n".toList } ∧
      (study greeting).Vacant "l/o.md".toList [['w'], ['s'], ['d']] "o.md".toList ∧
      (study greeting).Ample (.ofText "l/o.md".toList) [['w'], ['s'], ['d']] "o.md".toList ∧
      ((study greeting).serve .plain (printing.toFile "l/o.md".toList)).1.exitCode = 0 ∧
      ((study greeting).serve .plain (printing.toFile "l/o.md".toList)).1.output = [] ∧
      ∃ tree, ((study greeting).serve .plain (printing.toFile "l/o.md".toList)).2 =
          { study greeting with tree } ∧
        (study greeting).tree.AgreeOff tree [['w'], ['s'], ['d'], "o.md".toList] ∧
        tree.get? [['w'], ['s'], ['d'], "o.md".toList] =
          some (.file newFileMode (Utf8.encode "Hi\n".toList)) := by
  have printed : ((study greeting).serve .plain printing).1 = { output := "Hi\n".toList } := by
    decide +kernel
  have rendered : ((study greeting).produce .plain printing).map Rendering.document =
      .ok ⟨["Hi".toList]⟩ := by
    decide +kernel
  have vacant := study_vacant greeting
  have ample := study_ample greeting
  obtain ⟨-, -, delivers, roomy⟩ :=
    serve_delivers (study greeting) .plain Toolkit.plain_keeps printing
  obtain ⟨document, text, hd, rfl, -, -, -, files⟩ := delivers rfl (by rw [printed])
  obtain rfl := Except.ok.inj (rendered.symm.trans hd)
  obtain ⟨-, done, -⟩ := files _ _ _ (by decide) vacant
  obtain ⟨code, output, tree, after, agree, stands⟩ := done (roomy _ _ _ _ vacant ample rfl)
  exact ⟨Toolkit.plain_keeps, printed, vacant, ample, code, output, tree, after, agree, stands⟩

/-- A control sequence is written and not printed, `~` is a home directory also behind `./`, and
the temporary file has no room in the directory that the text names. -/
theorem serve_delivers_elsewhere :
    let h := study colored
    let write (given : String) := h.serve .plain (printing.toFile given.toList)
    let red := Node.file newFileMode (Utf8.encode "\x1b[31mred\n".toList)
    (h.serve .plain printing).1 = { output := "red\n".toList } ∧
      (write "s/o.md").2.tree.get? [['w'], ['s'], "o.md".toList] = some red ∧
      h.stat (.ofText "./~".toList) = .ok ([['w'], ['~']], .directory) ∧
      h.tree.get? [['w'], ['~'], "o.md".toList] = none ∧
      (write "./~/o.md").2.tree.get? [['w'], ['~'], "o.md".toList] = none ∧
      (write "./~/o.md").2.tree.get? [['w'], "o.md".toList] = some red ∧
      h.stat (.ofText "l/../x".toList) = .ok ([['w'], ['s'], ['x']], .directory) ∧
      h.tree.get? [['w'], ['s'], ['x'], "o.md".toList] = none ∧
      (write "l/../x/o.md").1.exitCode = 1 := by
  decide +kernel

end Host

end NimMarkdown
