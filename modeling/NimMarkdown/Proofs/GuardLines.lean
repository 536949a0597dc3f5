import NimMarkdown.Proofs.Faithful
import NimMarkdown.Proofs.Relabel
import NimMarkdown.Proofs.WellFormed

/-!
# Guard lines and carriage returns

A guard line of the main module may stand anywhere in a source, and any line may end
with carriage returns. A `Dressing` says where both were added to the lines of a
source, and so which number each of the lines has then. A scan passes over the guard
lines in whatever state it is, so it goes through the dressed lines as through the
plain ones, with the numbers of the dressed lines (`lines_dressed`): it is the scan of
the plain lines, relabeled.
-/

namespace NimMarkdown

namespace Text

theorem dropReturns_append_returns (t : Text) (count : Nat) :
    dropReturns (t ++ List.replicate count '\r') = t.dropReturns :=
  dropEndWhile_append_of_all t fun _ hc => beq_iff_eq.2 (List.eq_of_mem_replicate hc)

theorem strip_dropReturns (t : Text) : t.dropReturns.strip = t.strip := by
  obtain ⟨returns, he, blank⟩ := t.dropReturns_append
  calc t.dropReturns.strip = Text.strip (t.dropReturns ++ returns) :=
        (strip_trim.right _ returns blank).symm
    _ = t.strip := congrArg Text.strip he.symm

end Text

theorem lineAt_cons {ls : List Text} {n : Nat} {text first : Text}
    (h : lineAt ls n = some text) : lineAt (first :: ls) (n + 1) = some text := by
  cases n with
  | zero => cases h
  | succ n => exact h

theorem lineAt_map (f : Text → Text) (ls : List Text) (n : Nat) :
    lineAt (ls.map f) n = (lineAt ls n).map f := by
  cases n with
  | zero => rfl
  | succ n => exact List.getElem?_map

/-- A declaration that has been found has the number of a line. -/
theorem Entered.lineAt_of_mem {ls : List Text} {spans : List (List Nat)} {ds : List Declaration}
    {d : Declaration} (h : List.Forall₂ (Declaration.StandsAt ls) spans ds) (hd : d ∈ ds) :
    ∃ (n : Nat) (line : Text), d.lineNumber = n ∧ lineAt ls n = some line := by
  induction h with
  | nil => cases hd
  | cons hs _ ih =>
    rcases List.mem_cons.1 hd with rfl | hd
    · obtain ⟨n, _, line, _, -, hl, -, ht⟩ := hs
      exact ⟨n, line, ht.lineNumber, hl⟩
    · exact ih hd

/-- Guard lines of the main module are put between the lines of a source, and carriage returns
behind them. -/
inductive Dressing : List Text → List Text → Type
  | nil : Dressing [] []
  | guard {ls ls' : List Text} (text : Text) (isGuard : text.strip = "when isMainModule:".toList)
      (d : Dressing ls ls') : Dressing ls (text :: ls')
  | line {ls ls' : List Text} (text : Text) (returns : Nat) (d : Dressing ls ls') :
      Dressing (text :: ls) ((text ++ List.replicate returns '\r') :: ls')

namespace Dressing

variable {ls ls' : List Text}

/-- The number that the line with a number gets; the first line has the number 1. -/
def lineNumber {ls ls' : List Text} : Dressing ls ls' → Nat → Nat
  | .nil, n => n
  | .guard _ _ _, 0 => 0
  | .guard _ _ d, n + 1 => d.lineNumber (n + 1) + 1
  | .line _ _ _, 0 => 0
  | .line _ _ d, n + 1 => d.lineNumber n + 1

@[simp] theorem lineNumber_zero (d : Dressing ls ls') : d.lineNumber 0 = 0 := by
  cases d <;> rfl

/-- Under its new number stands the same line, maybe with carriage returns. -/
theorem lineAt_lineNumber (d : Dressing ls ls') {n : Nat} {text : Text}
    (h : lineAt ls n = some text) :
    ∃ returns, lineAt ls' (d.lineNumber n) = some (text ++ List.replicate returns '\r') := by
  induction d generalizing n with
  | nil => cases n <;> cases h
  | guard _ _ d ih =>
    cases n with
    | zero => cases h
    | succ n =>
      obtain ⟨returns, hr⟩ := ih h
      exact ⟨returns, lineAt_cons hr⟩
  | line first returns d ih =>
    match n, h with
    | 1, h =>
      obtain rfl : first = text := Option.some.inj h
      exact ⟨returns, by rw [lineNumber, lineNumber_zero]; rfl⟩
    | n + 2, h =>
      obtain ⟨more, hr⟩ := ih (n := n + 1) h
      exact ⟨more, lineAt_cons hr⟩

/-- The new number of a declaration. Narratives have the number zero and keep it. -/
def renumber (d : Dressing ls ls') (number : Int) : Int := d.lineNumber number.toNat

@[simp] theorem renumber_zero (d : Dressing ls ls') : d.renumber 0 = 0 := by simp [renumber]

end Dressing

namespace Scan

variable {s s' : Scan} {ls ls' : List Text}

/-- A scan passes over a guard line in any state. -/
theorem line_of_guard {text : Text} (h : text.strip = "when isMainModule:".toList) (s : Scan)
    (number : Int) : s.line number text.dropReturns = .ok s := by
  have guard : Line.isMainGuard text.dropReturns = true := by
    rw [Line.isMainGuard, Text.strip_dropReturns, h]
    decide
  exact if_pos guard

/-- Behind `before` lines a scan reads lines, and behind `before'` lines it reads them dressed. -/
theorem lines_dressed {r : Relabeling} (filtered : ∀ b, r.exportedOnly b = b)
    (section_ : ∀ o, r.openSection o = o) (d : Dressing ls ls') {before before' : Nat}
    (numbers : ∀ i, 1 ≤ i → i ≤ ls.length →
      r.number (before + i : Nat) = (before' + d.lineNumber i : Nat))
    (h : s.lines (before + 1) (ls.map Text.dropReturns) = .ok s') :
    (s.relabel r).lines (before' + 1) (ls'.map Text.dropReturns) = .ok (s'.relabel r) := by
  induction d generalizing s before before' with
  | nil =>
    cases h
    rfl
  | guard text isGuard d ih =>
    rw [List.map_cons, lines, line_of_guard isGuard]
    refine ih (fun i hi hl => ?_) h
    obtain ⟨i, rfl⟩ := Nat.exists_eq_add_of_le' hi
    rw [numbers (i + 1) hi hl, Dressing.lineNumber]
    omega
  | line text returns d ih =>
    rw [List.map_cons, lines] at h
    rw [List.map_cons, lines, Text.dropReturns_append_returns]
    split at h
    · next next he =>
      have first := numbers 1 (Nat.le_refl 1) (Nat.succ_le_succ (Nat.zero_le _))
      rw [Dressing.lineNumber, Dressing.lineNumber_zero, Nat.zero_add] at first
      rw [← first, line_relabel filtered section_ he]
      refine ih (fun i _ hl => ?_) h
      have later := numbers (i + 1) (Nat.succ_le_succ (Nat.zero_le _)) (Nat.succ_le_succ hl)
      rw [Dressing.lineNumber] at later
      rw [Nat.add_assoc, Nat.add_comm 1, later]
      omega
    · cases h

end Scan

/-- The numbers of the lines are seen only where the document shows them. -/
theorem Declaration.render_relabel {on : Toggle → Bool} (h : on .lineNumbers = false)
    (number : Int → Int) (d : Declaration) : (d.relabel number).render on = d.render on := by
  simp only [Declaration.render, Declaration.renderCode, h]
  rfl

theorem Outline.render_relabel {on : Toggle → Bool} (h : on .lineNumbers = false)
    (number : Int → Int) (o : Outline) : (o.relabel number).render on = o.render on := by
  have category (c : Category) :
      (o.relabel number).ofCategory c = (o.ofCategory c).map (·.relabel number) :=
    List.filter_map
  have shown : (o.relabel number).shownCategories on = o.shownCategories on := by
    simp only [shownCategories, category, List.isEmpty_map]
  have chunks (c : Category) :
      (o.relabel number).categoryChunks on c = o.categoryChunks on c := by
    simp only [categoryChunks, category, List.map_map, Function.comp_def,
      Declaration.render_relabel h]
  simp only [render, Outline.chunks, shown, chunks]
  rfl

namespace Source

/-- **Guard lines and carriage returns are transparent.** Whatever guard lines of the main module
are put into a source and whatever carriage returns behind its lines, narratives stay as they are,
elements move with their lines, and nothing else changes. A document without line numbers is the
same. -/
theorem outline_dressed {settings : Settings} {options : Options}
    (valid : settings.validate = .ok options) {content content' : Text} {ls ls' : List Text}
    (lines : Text.splitLines content = ls) (lines' : Text.splitLines content' = ls')
    (d : Dressing ls ls') :
    ∃ o, outline settings content = .ok o ∧
      outline settings content' = .ok (o.relabel d.renumber) ∧
      (∀ e ∈ o.declarations, e.heading = none → e.relabel d.renumber = e) ∧
      (∀ e ∈ o.declarations, e.heading ≠ none → ∃ n line returns,
        e.lineNumber = (n : Nat) ∧ lineAt ls n = some line ∧
        (e.relabel d.renumber).lineNumber = d.lineNumber n ∧
        lineAt ls' (d.lineNumber n) = some (line ++ List.replicate returns '\r')) ∧
      (options.on .lineNumbers = false →
        document settings content' = document settings content) := by
  let r : Relabeling := { number := d.renumber, narrative := d.renumber_zero }
  have filtered (b : Bool) : r.exportedOnly b = b := rfl
  have section_ (o : OpenSection) : r.openSection o = o := rfl
  obtain ⟨s, he, -, wellFormed, -⟩ :=
    Scan.lines_wellFormed (options.on .exportedOnly) (Scan.sourceLines content)
  have dressed : (Scan.fresh (options.on .exportedOnly)).lines 1 (Scan.sourceLines content') =
      .ok (s.relabel r) := by
    rw [Scan.sourceLines, lines] at he
    have numbers (i : Nat) (_ : 1 ≤ i) (_ : i ≤ ls.length) :
        r.number (0 + i : Nat) = (0 + d.lineNumber i : Nat) := by
      rw [Nat.zero_add, Nat.zero_add]
      rfl
    have run := Scan.lines_dressed filtered section_ d numbers he
    rwa [Scan.fresh_relabel filtered section_, ← lines'] at run
  have plain := outline_of_source valid (Scan.source_of_lines he)
  have other := outline_of_source valid (Scan.source_of_lines dressed)
  rw [Scan.finish_relabel filtered] at other
  refine ⟨s.finish.outline, plain, other, fun e hm hn => ?_, fun e hm hh => ?_, fun hidden => ?_⟩
  · have number := ((wellFormed.declarations e hm).narrative hn).1
    rw [Declaration.relabel, number, d.renumber_zero, ← number]
  · obtain ⟨t, ht, _, _, entered, -⟩ :=
      Scan.lines_recorded (options.on .exportedOnly) (Scan.sourceLines content)
    obtain rfl : s = t := Except.ok.inj (he.symm.trans ht)
    have declared : e.head ∈ s.finish.ledger.declared :=
      List.mem_filter.2 ⟨List.mem_map_of_mem hm, Option.isSome_iff_ne_none.2 hh⟩
    obtain ⟨n, text, number, hl⟩ := Entered.lineAt_of_mem entered.stand declared
    rw [Scan.sourceLines, lines, lineAt_map] at hl
    obtain ⟨line, hl, -⟩ := Option.map_eq_some_iff.1 hl
    obtain ⟨returns, hr⟩ := d.lineAt_lineNumber hl
    have same : e.lineNumber = (n : Int) := number
    refine ⟨n, line, returns, same, hl, ?_, hr⟩
    rw [Declaration.relabel, same]
    rfl
  · rw [document_of_valid valid other, document_of_valid valid plain]
    exact congrArg Except.ok (Outline.render_relabel hidden d.renumber s.finish.outline)

/-- A source with a code block in its top matter, a signature on two lines, a captured example and
a section. -/
def plainLines : List Text :=
  ["## About", "## .. code-block:: nim", "##   let x = 1", "##   let y = 2", "proc a*(x: int,",
    "    y: int) =", "  runnableExamples:", "    a(1,", "      2)", "const", "  b* = 1",
    "  c* = 2", ""].map String.toList

/-- A guard line in each of these, and before and behind the whole; some lines end with carriage
returns. -/
def guardedLines : List Text :=
  ["when isMainModule:", "## About", "## .. code-block:: nim\r", "##   let x = 1",
    "when isMainModule:\r", "##   let y = 2", "proc a*(x: int,\r\r", " when isMainModule: ",
    "    y: int) =", "  runnableExamples:", "    a(1,", "when isMainModule:", "      2)", "const\r",
    "  b* = 1", "  when isMainModule:", "  c* = 2", "\r", "when isMainModule:"].map String.toList

def guards : Dressing plainLines guardedLines :=
  .guard _ rfl <| .line _ 0 <| .line _ 1 <| .line _ 0 <| .guard _ rfl <| .line _ 0 <| .line _ 2 <|
    .guard _ rfl <| .line _ 0 <| .line _ 0 <| .line _ 0 <| .guard _ rfl <| .line _ 0 <|
    .line _ 1 <| .line _ 0 <| .guard _ rfl <| .line _ 0 <| .line _ 1 <| .guard _ rfl .nil

/-- The elements move from the lines 5, 11 and 12 to the lines 7, 15 and 17. -/
theorem outline_dressed_guards :
    Settings.byDefault.validate = .ok Settings.byDefault.toOptions ∧
      [5, 11, 12].map guards.lineNumber = [7, 15, 17] ∧
      ∃ o, outline .byDefault (Text.joinLines plainLines) = .ok o ∧
        outline .byDefault (Text.joinLines guardedLines) = .ok (o.relabel guards.renumber) ∧
        (∀ e ∈ o.declarations, e.heading = none → e.relabel guards.renumber = e) ∧
        (∀ e ∈ o.declarations, e.heading ≠ none → ∃ n line returns,
          e.lineNumber = (n : Nat) ∧ lineAt plainLines n = some line ∧
          (e.relabel guards.renumber).lineNumber = guards.lineNumber n ∧
          lineAt guardedLines (guards.lineNumber n) =
            some (line ++ List.replicate returns '\r')) ∧
        (Settings.byDefault.toOptions.on .lineNumbers = false →
          document .byDefault (Text.joinLines guardedLines) =
            document .byDefault (Text.joinLines plainLines)) :=
  ⟨rfl, by decide, outline_dressed rfl (Text.splitLines_joinLines (by decide) (by decide))
    (Text.splitLines_joinLines (by decide) (by decide)) guards⟩

end Source

end NimMarkdown
