import NimMarkdown.Proofs.Readings

/-!
# Routines of a source

`routineLines` are the numbers of the lines that open a routine of a kind. A
scan that leaves nothing out finds them all, and each once: `Ledger.starts` are
the lines of the routines that have been found or are being read, and a line adds
its number to them if it opens a routine, and nothing otherwise
(`Reads.starts_eq`). Whether the signature before it was finished, a code block or
a section open or the top matter not yet over does not matter. Only a comment
beside code, which drops an unfinished signature, and the examples of an element,
which are not read as code, can make a routine disappear.
-/

namespace NimMarkdown

/-- The numbers of the lines that open a routine of a kind; the first line has number 1. -/
def routineLines (kind : Routine) (ls : List Text) : List Int :=
  ((ls.zipIdx 1).filter fun entry => Line.routine? entry.1 == some kind).map fun entry => entry.2

/-- The number of the line, if it opens a routine of the kind. -/
def opening (kind : Routine) (number : Int) (line : Text) : List Int :=
  if Line.routine? line = some kind then [number] else []

theorem routineLines_take_succ (kind : Routine) {ls : List Text} {i : Nat} {line : Text}
    (h : ls[i]? = some line) :
    routineLines kind (ls.take (i + 1)) =
      routineLines kind (ls.take i) ++ opening kind ((i + 1 : Nat) : Int) line := by
  have hi : i < ls.length := (List.getElem?_eq_some_iff.1 h).1
  have hn : 1 + (ls.take i).length = i + 1 := by
    rw [List.length_take]
    omega
  simp only [routineLines, opening, List.take_add_one, h, Option.toList_some, List.zipIdx_append,
    List.filter_append, List.map_append, hn]
  congr 1
  by_cases hr : Line.routine? line = some kind <;> simp [hr]

theorem Category.ofRoutine_eq_iff {kind : Routine} {r : Option Routine} :
    Category.ofRoutine r = .routine kind ↔ r = some kind := by
  cases r <;> simp [ofRoutine]

/-- A category of sections is not that of a routine. -/
theorem Category.ne_routine_of_sections {c : Category} (h : c ∈ Category.sections)
    (kind : Routine) : c ≠ .routine kind := by
  rintro rfl
  simp [sections] at h

namespace Ledger

variable {l : Ledger} {line : Text} {number : Int} {kind : Routine} {d : Declaration}

/-- The lines of the routines of a kind that have been found or are being read. -/
def starts (kind : Routine) (l : Ledger) : List Int :=
  (l.declared.filter (·.category == .routine kind)).map (·.lineNumber) ++
    l.pending.lines.head?.toList.flatMap (opening kind l.pending.lineNumber)

theorem starts_of_empty (hp : l.pending.lines = []) :
    l.starts kind = (l.declared.filter (·.category == .routine kind)).map (·.lineNumber) := by
  simp [starts, hp]

theorem starts_register (all : l.exportedOnly = false) (hp : l.pending.lines = []) :
    (l.register d).starts kind =
      l.starts kind ++ if d.category = .routine kind then [d.lineNumber] else [] := by
  have hd : d.head.category = d.category := rfl
  have hn : d.head.lineNumber = d.lineNumber := rfl
  have hr : l.register d = { l with declared := l.declared ++ [d.head] } := by simp [register, all]
  rw [hr]
  by_cases h : d.category = .routine kind <;> simp [starts, hp, List.filter_append, hd, hn, h]

/-- A signature is found where it began. -/
theorem starts_flush (all : l.exportedOnly = false) : l.flush.starts kind = l.starts kind := by
  unfold flush
  split
  · rfl
  · next first rest hl =>
    rw [starts_register (l := l.clear) all rfl, starts_of_empty (l := l.clear) rfl]
    simp only [starts, hl, List.head?_cons, Option.toList_some, List.flatMap_cons,
      List.flatMap_nil, List.append_nil, opening, signature, Category.ofRoutine_eq_iff]
    rfl

theorem exportedOnly_register (l : Ledger) (d : Declaration) :
    (l.register d).exportedOnly = l.exportedOnly := by
  unfold register
  split <;> rfl

theorem exportedOnly_flush (l : Ledger) : l.flush.exportedOnly = l.exportedOnly := by
  unfold flush
  split
  · rfl
  · exact exportedOnly_register _ _

theorem exportedOnly_settle (l : Ledger) (line : Text) :
    (l.settle line).exportedOnly = l.exportedOnly := by
  unfold settle
  split
  · exact exportedOnly_flush l
  · rfl

theorem starts_settle (all : l.exportedOnly = false) (line : Text) :
    (l.settle line).starts kind = l.starts kind := by
  unfold settle
  split
  · exact starts_flush all
  · rfl

theorem starts_start (all : l.exportedOnly = false) :
    (l.start line number).starts kind = l.starts kind ++ opening kind number line := by
  unfold start
  rw [starts_settle]
  · rw [← starts_flush all, starts_of_empty (flush_pending l)]
    simp [starts]
  · exact (exportedOnly_flush l).trans all

theorem starts_extend (all : l.exportedOnly = false) (pending : l.pending.lines ≠ []) :
    (l.extend line).starts kind = l.starts kind := by
  obtain ⟨first, rest, hf⟩ := List.exists_cons_of_ne_nil pending
  unfold extend
  rw [starts_settle]
  · simp [starts, hf]
  · exact all

end Ledger

namespace Scan

variable {s s' : Scan} {line : Text} {number : Int} {kind : Routine} {ls : List Text}

theorem Booked.exportedOnly (h : Booked number line s s') :
    s'.ledger.exportedOnly = s.ledger.exportedOnly := by
  cases h with
  | keep _ he => rw [he]
  | flush _ he => rw [he, Ledger.exportedOnly_flush]
  | start _ he =>
    rw [he]
    exact (Ledger.exportedOnly_settle _ line).trans (Ledger.exportedOnly_flush _)
  | extend _ _ he =>
    rw [he]
    exact Ledger.exportedOnly_settle _ line
  | inline _ he =>
    rw [he, Ledger.exportedOnly_register]
    rfl
  | entry _ _ _ _ he => rw [he, Ledger.exportedOnly_register]

/-- A scan that leaves nothing out, reads no examples as such and has a section of a category
that sections have. -/
structure Plain (s : Scan) : Prop where
  all : s.ledger.exportedOnly = false
  code : s.capture.active = false
  shelved : s.Shelved

theorem Plain.reads (h : s.Plain) (hr : Reads number line s s')
    (silent : Line.leadingWord line ≠ some "runnableExamples".toList) : s'.Plain where
  all := hr.booked.exportedOnly.trans h.all
  code := by
    cases ha : s'.capture.active with
    | false => rfl
    | true =>
      rcases hr.capture ha with hc | hx
      · rw [h.code] at hc
        cases hc
      · rw [Line.opensExamples, beq_iff_eq, Line.leadingWord_trim.strip] at hx
        exact (silent hx).elim
  shelved := h.shelved.reads hr

/-- A line that opens a routine is entered, and no other. -/
theorem Reads.starts_eq (hr : Reads number line s s') (h : s.Plain)
    (beside : Line.splitInlineDoc line = none) :
    s'.ledger.starts kind = s.ledger.starts kind ++ opening kind number line := by
  have nothing (inert : Line.routine? line = none) : opening kind number line = [] := by
    simp [opening, inert]
  cases hr.booked with
  | keep inert he =>
    rcases inert with inert | active
    · rw [he, nothing inert, List.append_nil]
    · rw [h.code] at active
      cases active
  | flush inert he => rw [he, nothing inert, List.append_nil, Ledger.starts_flush h.all]
  | start _ he => rw [he, Ledger.starts_start h.all]
  | extend inert pending he =>
    rw [he, nothing inert, List.append_nil, Ledger.starts_extend h.all pending]
  | inline some _ =>
    rw [beside] at some
    cases some
  | @entry category inert _ pending filed he =>
    have listed : category ∈ Category.sections := by
      rcases filed with hc | ⟨rest, hc⟩
      · exact h.shelved category hc
      · exact Line.sections_of_sectionStart? hc
    have other : (lineDeclaration line.strip [] number category).category ≠ .routine kind :=
      Category.ne_routine_of_sections listed kind
    rw [he, nothing inert, Ledger.starts_register h.all pending, if_neg other]

/-- The scan of a source finds each of its routines once. -/
theorem lines_starts (ls : List Text) (beside : ∀ line ∈ ls, Line.splitInlineDoc line = none)
    (silent : ∀ line ∈ ls, Line.leadingWord line ≠ some "runnableExamples".toList) :
    ∃ s, (fresh false).lines 1 ls = .ok s ∧
      ∀ kind, (s.finish.outline.declared.filter (·.category == .routine kind)).map (·.lineNumber) =
        routineLines kind ls := by
  obtain ⟨s, he, hs, h, plain⟩ := lines_read
    (P := fun i s => (∀ kind, s.ledger.starts kind = routineLines kind (ls.take i)) ∧ s.Plain) ls
    (fun i line hl s s' _ hP hr => by
      have hm := List.mem_of_getElem? hl
      refine ⟨fun kind => ?_, hP.2.reads hr (silent line hm)⟩
      rw [hr.starts_eq hP.2 (beside line hm), hP.1, routineLines_take_succ kind hl])
    (fresh_sound false) ⟨fun _ => rfl, rfl, rfl, nofun⟩
  refine ⟨s, he, fun kind => ?_⟩
  have found : s.finish.ledger.starts kind = routineLines kind ls := by
    rw [finish_ledger hs, Ledger.starts_flush plain.all, h, List.take_length]
  rwa [Ledger.starts_of_empty] at found
  rw [finish_ledger hs]
  exact Ledger.flush_pending _

end Scan

namespace Source

/-- **No routine is lost, and none is found twice.** Where no line has a doc comment beside its
code and none opens examples, the routines of each kind in an outline that leaves nothing out
are at the lines that open a routine of the kind, in their order. -/
theorem outline_routineLines {settings : Settings} {options : Options}
    (valid : settings.validate = .ok options) (all : options.on .exportedOnly = false)
    {content : Text} (beside : ∀ line ∈ Scan.sourceLines content, Line.splitInlineDoc line = none)
    (silent : ∀ line ∈ Scan.sourceLines content,
      Line.leadingWord line ≠ some "runnableExamples".toList) :
    ∃ o, outline settings content = .ok o ∧
      ∀ kind, ((o.ofCategory (.routine kind)).filter (·.heading.isSome)).map (·.lineNumber) =
        routineLines kind (Scan.sourceLines content) := by
  obtain ⟨s, hs, h⟩ := Scan.lines_starts (Scan.sourceLines content) beside silent
  have source := Scan.source_of_lines hs
  rw [← all] at source
  refine ⟨s.finish.outline, outline_of_source valid source, fun kind => ?_⟩
  rw [← h, Outline.declared_eq, List.filter_map, List.map_map, Outline.ofCategory,
    List.filter_comm]
  rfl

/-- A source with an unfinished signature in front of a routine, an open code block and an open
section in front of others, and one behind a guard. -/
def crowdedRoutines : Text :=
  Text.joinLines (["proc one(a: int,", "", "proc two*(a: int,", "method three*() =",
    "  ## .. code-block::", "  ##   three()", "func four() =", "const", "  func five*()",
    "when isMainModule:", "proc six ="].map String.toList)

theorem outline_routineLines_crowdedRoutines :
    Settings.byDefault.validate = .ok Settings.byDefault.toOptions ∧
      Settings.byDefault.toOptions.on .exportedOnly = false ∧
      (∀ line ∈ Scan.sourceLines crowdedRoutines, Line.splitInlineDoc line = none) ∧
      (∀ line ∈ Scan.sourceLines crowdedRoutines,
        Line.leadingWord line ≠ some "runnableExamples".toList) ∧
      ∃ o, outline .byDefault crowdedRoutines = .ok o ∧
        ∀ kind, ((o.ofCategory (.routine kind)).filter (·.heading.isSome)).map (·.lineNumber) =
          routineLines kind (Scan.sourceLines crowdedRoutines) := by
  have beside : ∀ line ∈ Scan.sourceLines crowdedRoutines, Line.splitInlineDoc line = none := by
    decide +kernel
  have silent : ∀ line ∈ Scan.sourceLines crowdedRoutines,
      Line.leadingWord line ≠ some "runnableExamples".toList := by decide +kernel
  exact ⟨rfl, rfl, beside, silent, outline_routineLines rfl rfl beside silent⟩

end Source

end NimMarkdown
