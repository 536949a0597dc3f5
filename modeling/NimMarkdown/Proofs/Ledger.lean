import NimMarkdown.Proofs.Run
import NimMarkdown.Proofs.Trim

/-!
# The ledger of a scan

The ledger is what a scan knows about declarations: those it has found, without
their comments and examples, and the signature of which lines are missing. Each
operation that declares something is one on the ledger (`register_ledger`,
`flushPending_ledger` and so on). Doc lines, code blocks and examples do not
touch it (`Keeps`).
-/

namespace NimMarkdown

/-- The categories of elements that are no routines. -/
def Category.sections : List Category := [.consts, .lets, .vars, .other]

/-- The declarations with a heading, without their comments and examples. -/
def Outline.declared (o : Outline) : List Declaration := o.heads.filter (·.heading.isSome)

theorem Outline.declared_eq (o : Outline) :
    o.declared = (o.declarations.filter (·.heading.isSome)).map Declaration.head := by
  rw [declared, heads, List.filter_map]
  rfl

theorem Outline.declared_of_heads {o o' : Outline} (h : o'.heads = o.heads) :
    o'.declared = o.declared := by
  rw [declared, h, declared]

theorem Outline.declared_add (o : Outline) (d : Declaration) :
    (o.add d).declared = o.declared ++ if d.heading.isSome then [d.head] else [] := by
  have hh : d.head.heading = d.heading := rfl
  cases h : d.heading <;> simp [declared, heads, add, List.filter_append, hh, h]

/-- The declaration of a signature. -/
def signature (lineNumber : Int) (first : Text) (rest : List Text) : Declaration where
  lineNumber
  isExported := (first :: rest).any Line.isExported
  category := .ofRoutine (Line.routine? first)
  heading := some (Line.declarationHeading first)
  code := first.strip :: rest.map Text.stripRight

/-- The declarations that have been found, and the signature that is being read. -/
structure Ledger where
  exportedOnly : Bool
  pending : Pending
  declared : List Declaration

namespace Ledger

/-- Enters a declaration, or leaves it out. -/
def register (l : Ledger) (d : Declaration) : Ledger :=
  if l.exportedOnly && !d.isExported then l else { l with declared := l.declared ++ [d.head] }

/-- Without the signature that is being read. -/
def clear (l : Ledger) : Ledger := { l with pending := { l.pending with lines := [] } }

/-- Enters the signature that is being read. -/
def flush (l : Ledger) : Ledger :=
  match l.pending.lines with
  | [] => l
  | first :: rest => l.clear.register (signature l.pending.lineNumber first rest)

/-- Enters the signature if the line ends it. -/
def settle (l : Ledger) (line : Text) : Ledger := if Line.endsSignature line then l.flush else l

/-- The first line of a signature. -/
def start (l : Ledger) (line : Text) (lineNumber : Int) : Ledger :=
  settle { l.flush with pending := { lines := [line], lineNumber } } line

/-- A further line of a signature. -/
def extend (l : Ledger) (line : Text) : Ledger :=
  settle { l with pending := { l.pending with lines := l.pending.lines ++ [line] } } line

theorem clear_of_empty {l : Ledger} (h : l.pending.lines = []) : l.clear = l := by
  obtain ⟨b, ⟨lines, n⟩, ds⟩ := l
  simp only at h
  rw [h]
  rfl

theorem flush_pending (l : Ledger) : l.flush.pending.lines = [] := by
  unfold flush
  split
  · assumption
  · unfold register
    split <;> rfl

end Ledger

namespace Scan

open Relation

variable {s s' s1 : Scan} {text line code doc : Text} {number : Int} {place : Place}

def ledger (s : Scan) : Ledger := ⟨s.exportedOnly, s.pending, s.outline.declared⟩

/-! ## What the operations enter -/

theorem register_ledger (s : Scan) {d : Declaration} (h : d.heading.isSome = true) :
    (s.register d).ledger = s.ledger.register d := by
  have hx : (s.ledger.exportedOnly && !d.isExported) = (s.exportedOnly && !d.isExported) := rfl
  rw [register, Ledger.register, hx]
  split
  · rfl
  · simp only [ledger, Outline.declared_add, h, if_true]

theorem register_openSection (s : Scan) (d : Declaration) :
    (s.register d).openSection = s.openSection := by
  unfold register
  split <;> rfl

theorem flushPending_ledger (s : Scan) : s.flushPending.ledger = s.ledger.flush := by
  have hl : s.ledger.pending = s.pending := rfl
  cases hp : s.pending.lines with
  | nil => simp only [flushPending, Ledger.flush, hl, hp]
  | cons first rest =>
    simp only [flushPending, Ledger.flush, hl, hp]
    exact register_ledger { s with pending := { s.pending with lines := [] } }
      (d := signature s.pending.lineNumber first rest) rfl

theorem flushPending_openSection (s : Scan) : s.flushPending.openSection = s.openSection := by
  unfold flushPending
  split
  · rfl
  · exact register_openSection _ _

theorem startDeclaration_frame (s : Scan) (line : Text) (number : Int) :
    (s.startDeclaration line number).openSection = s.openSection ∧
      (s.startDeclaration line number).capture = s.capture := by
  simp only [startDeclaration]
  split <;> simp [flushPending_openSection, endDeclaration]

theorem continueDeclaration_frame (s : Scan) (line : Text) :
    (s.continueDeclaration line).openSection = s.openSection ∧
      (s.continueDeclaration line).capture = s.capture := by
  simp only [continueDeclaration]
  split <;> simp [flushPending_openSection]

theorem declareLine_ledger (s : Scan) (code doc : Text) (number : Int) (category : Category) :
    (s.declareLine code doc number category).ledger =
      s.ledger.register (lineDeclaration code doc number category) := by
  rw [declareLine_eq]
  exact register_ledger s.endDeclaration rfl

theorem declareLine_frame (s : Scan) (code doc : Text) (number : Int) (category : Category) :
    (s.declareLine code doc number category).openSection = s.openSection ∧
      (s.declareLine code doc number category).capture = s.capture := by
  rw [declareLine_eq]
  exact ⟨register_openSection _ _, (register_frame _ _).2.2.1⟩

theorem startDeclaration_ledger (s : Scan) (line : Text) (number : Int) :
    (s.startDeclaration line number).ledger = s.ledger.start line number := by
  have begun : ledger { s.flushPending.endDeclaration with
      pending := { lines := [line], lineNumber := number } } =
      { s.ledger.flush with pending := { lines := [line], lineNumber := number } } := by
    rw [← flushPending_ledger]
    rfl
  simp only [startDeclaration, Ledger.start, Ledger.settle]
  split
  · rw [flushPending_ledger, begun]
  · exact begun

theorem continueDeclaration_ledger (s : Scan) (line : Text) :
    (s.continueDeclaration line).ledger = s.ledger.extend line := by
  simp only [continueDeclaration, Ledger.extend, Ledger.settle]
  split
  · rw [flushPending_ledger]
    rfl
  · rfl

theorem dropPending_ledger (s : Scan) (number : Int) :
    (s.dropPending number).ledger = s.ledger.clear := by
  unfold dropPending
  split
  · next h => exact (Ledger.clear_of_empty (List.isEmpty_iff.1 h)).symm
  · rfl

/-! ## What does not touch the ledger -/

/-- The second scan knows no more about declarations than the first. -/
structure Keeps (s s' : Scan) : Prop where
  ledger : s'.ledger = s.ledger
  openSection : s'.openSection = s.openSection
  capture : s'.capture.active = true → s.capture.active = true

theorem Keeps.refl (s : Scan) : Keeps s s := ⟨rfl, rfl, id⟩

theorem Keeps.trans (h : Keeps s s1) (h' : Keeps s1 s') : Keeps s s' :=
  ⟨h'.ledger.trans h.ledger, h'.openSection.trans h.openSection, h.capture ∘ h'.capture⟩

theorem Keeps.of_heads (hl : s'.exportedOnly = s.exportedOnly ∧ s'.pending = s.pending)
    (hh : s'.outline.heads = s.outline.heads) (ho : s'.openSection = s.openSection)
    (hc : s'.capture.active = true → s.capture.active = true) : Keeps s s' :=
  ⟨by simp only [Scan.ledger, hl.1, hl.2, Outline.declared_of_heads hh], ho, hc⟩

theorem DocMove.keeps (hs : s.Sound) (h : DocMove text s s') : Keeps s s' := by
  cases h.effect hs with
  | fence => exact ⟨rfl, rfl, id⟩
  | append | heading => exact .of_heads ⟨rfl, rfl⟩ Outline.heads_modifyLines rfl id
  | narrative hc hn =>
    simp only [commentPlace, hc, hn]
    split
    · split <;> exact ⟨rfl, rfl, id⟩
    · refine ⟨?_, rfl, id⟩
      simp only [Scan.ledger, Outline.declared_add]
      simp

theorem docMoves_keep (hs : s.Sound) (h : ReflTransGen (DocMove text) s s') : Keeps s s' := by
  induction h with
  | refl => exact .refl s
  | tail hm h ih => exact ih.trans (h.keeps (docMoves_sound hs hm))

theorem commitHeld_keeps (s : Scan) : Keeps s s.commitHeld := by
  unfold commitHeld
  split <;> exact ⟨rfl, rfl, id⟩

theorem topText_keeps (s : Scan) (text : Text) : Keeps s (s.topText text) := by
  simp only [topText]
  split
  · exact (commitHeld_keeps s).trans ⟨rfl, rfl, id⟩
  · split
    · exact ⟨rfl, rfl, id⟩
    · split <;> exact ⟨rfl, rfl, id⟩

theorem topLine_keeps (hs : s.Sound) (h : s.topLine text = .ok s') : Keeps s s' := by
  unfold topLine at h
  split at h
  · next ho =>
    obtain ⟨taken, s1, he, hm, -⟩ := feedFence_moves hs ho text
    rw [he] at h
    have fed := docMoves_keep hs hm
    cases taken with
    | true => exact Except.ok.inj h ▸ fed
    | false => exact Except.ok.inj h ▸ fed.trans (topText_keeps s1 text)
  · exact Except.ok.inj h ▸ topText_keeps s text

theorem topComment_keeps (hs : s.Sound) (h : s.topComment line = .ok s') : Keeps s s' := by
  unfold topComment at h
  split at h
  · split at h
    · exact topLine_keeps hs h
    · exact Except.ok.inj h ▸ ⟨rfl, rfl, id⟩
  · exact Except.ok.inj h ▸ .refl s

theorem topDoc_keeps (hs : s.Sound) {taken : Bool} (h : s.topDoc line = .ok (taken, s')) :
    Keeps s s' := by
  unfold topDoc at h
  split at h
  · cases he : s.topLine (Line.docText line) with
    | error failure =>
      rw [he] at h
      cases h
    | ok s1 =>
      rw [he] at h
      cases h
      exact topLine_keeps hs he
  · split at h <;> cases h <;> exact .refl s

theorem takeTop_keeps (hs : s.Sound) {taken : Bool} (h : s.takeTop line = .ok (taken, s')) :
    Keeps s s' := by
  have begun : Keeps s { s with docSeen := true } := ⟨rfl, rfl, id⟩
  unfold takeTop at h
  split at h
  · exact topDoc_keeps hs h
  · split at h
    · exact begun.trans (topDoc_keeps (s := { s with docSeen := true }) { hs with } h)
    · split at h
      · cases he : s.topComment line with
        | error failure =>
          rw [he] at h
          cases h
        | ok s1 =>
          rw [he] at h
          cases h
          exact topComment_keeps hs he
      · split at h
        · cases h
          exact .refl s
        · cases h
          exact begun

theorem closeFence_keeps (hs : s.Sound) : Keeps s s.closeFence :=
  (DocMove.closeFence s : DocMove [] s _).keeps hs

theorem enterCode_keeps (hs : s.Sound) (number : Int) : Keeps s (s.enterCode number) :=
  ((commitHeld_keeps s).trans (closeFence_keeps hs.commitHeld)).trans ⟨rfl, rfl, id⟩

theorem captureLine_keeps (active : s.capture.active = true) (line : Text) :
    Keeps s (s.captureLine line).2 := by
  unfold captureLine
  split
  · exact ⟨rfl, rfl, fun _ => active⟩
  · split
    · exact .refl s
    · next index _ =>
      split
      · refine .of_heads ⟨rfl, rfl⟩ (Outline.heads_modify s.outline index fun d => ?_) rfl id
        split <;> rfl
      · exact .of_heads ⟨rfl, rfl⟩ (Outline.heads_modify s.outline index fun d => rfl) rfl
          fun _ => active

theorem captured_keeps (s : Scan) (line : Text) : Keeps s (s.captured line).2 := by
  unfold captured
  split
  · next h => exact captureLine_keeps h line
  · exact .refl s

end Scan

end NimMarkdown
