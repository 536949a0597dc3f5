import Mathlib.Data.List.Forall2
import NimMarkdown.Proofs.Readings

/-!
# Declarations and their lines

A declaration stands on lines of its source: the first is written without its doc
comment and trimmed, the others trimmed at their end, and heading, export marker and
category are read off what is written (`Declaration.StandsAt`).

`Ledger.Recorded` is the invariant of a scan: the declarations that have been found,
and behind them the signature that is being read, stand on lines that come one after
the other, none of them twice. A signature is entered with lines that were read long
before, so the lines in use include those of the signature. From it,
`outline_standsAt` says that the declarations of an outline are faithful to the source
and stand in its order.
-/

namespace NimMarkdown

/-- The line with a number; the first has the number 1. -/
def lineAt (ls : List Text) : Nat → Option Text
  | 0 => none
  | n + 1 => ls[n]?

/-- The code of a line: what stands before its first doc marker. -/
def Line.codePart (line : Text) : Text :=
  match Text.cutAt Line.docMarker line with
  | some (before, _) => before
  | none => line

/-- The category suits the code: that of the routine which the code opens, else one that
sections have. -/
def Category.Suits (c : Category) (code : Text) : Prop :=
  match Line.routine? code with
  | some kind => c = .ofRoutine (some kind)
  | none => c ∈ Category.sections

namespace Declaration

/-- What a declaration tells of the line with a number and of the lines that continue it. -/
structure Tells (d : Declaration) (number : Nat) (line : Text) (further : List Text) : Prop where
  lineNumber : d.lineNumber = number
  code : d.code = (Line.codePart line).strip :: further.map Text.stripRight
  heading : d.heading = some (Line.declarationHeading (Line.codePart line).strip)
  isExported : d.isExported = d.code.any Line.isExported
  category : d.category.Suits (Line.codePart line).strip

/-- The declaration tells of the lines with the given numbers. -/
def StandsAt (ls : List Text) (numbers : List Nat) (d : Declaration) : Prop :=
  ∃ number more line further, numbers = number :: more ∧ lineAt ls number = some line ∧
    List.Forall₂ (fun n text => lineAt ls n = some text) more further ∧ d.Tells number line further

variable {ls : List Text} {numbers : List Nat} {d : Declaration}

theorem StandsAt.head (h : d.StandsAt ls numbers) : d.head.StandsAt ls numbers := by
  obtain ⟨number, more, line, further, hn, hl, hm, ht⟩ := h
  exact ⟨number, more, line, further, hn, hl, hm, ⟨ht.1, ht.2, ht.3, ht.4, ht.5⟩⟩

theorem StandsAt.of_head (h : d.head.StandsAt ls numbers) : d.StandsAt ls numbers := by
  obtain ⟨number, more, line, further, hn, hl, hm, ht⟩ := h
  exact ⟨number, more, line, further, hn, hl, hm, ⟨ht.1, ht.2, ht.3, ht.4, ht.5⟩⟩

end Declaration

/-! ## What is entered is faithful -/

section

variable {ls : List Text} {line first : Text} {number : Nat}

theorem Line.codePart_of_bare (h : Text.cutAt Line.docMarker line = none) :
    Line.codePart line = line := by
  simp only [codePart, h]

/-- A line that opens a routine has no comment in it. -/
theorem Line.codePart_of_routine? (h : (Line.routine? line).isSome = true) :
    Line.codePart line = line := by
  apply codePart_of_bare
  cases hc : Text.cutAt docMarker line with
  | none => rfl
  | some ends =>
    obtain ⟨before, after⟩ := ends
    have marked : '#' ∈ line := by
      rw [Text.cutAt_eq hc]
      simp [docMarker]
    rw [routine?_of_mark marked] at h
    cases h

/-- A signature tells of its lines. -/
theorem signature_standsAt {numbers : List Nat} {rest : List Text} {start : Int}
    (routine : (Line.routine? first).isSome = true)
    (read : List.Forall₂ (fun n text => lineAt ls n = some text) numbers (first :: rest))
    (hn : ∀ n ∈ numbers.head?, start = (n : Int)) :
    (signature start first rest).StandsAt ls numbers := by
  cases read with
  | @cons number _ more _ hl hm =>
    have hc := Line.codePart_of_routine? routine
    refine ⟨number, more, first, rest, rfl, hl, hm, hn number rfl, ?_, ?_, ?_, ?_⟩
    · rw [hc]
      rfl
    · rw [hc, Line.declarationHeading_trim.strip]
      rfl
    · have trimmed : Line.isExported ∘ Text.stripRight = Line.isExported :=
        funext Line.isExported_trim.stripRight
      simp only [signature, List.any_cons, List.any_map, Line.isExported_trim.strip, trimmed]
    · rw [hc]
      unfold Category.Suits
      rw [Line.routine?_trim.strip]
      obtain ⟨kind, hk⟩ := Option.isSome_iff_exists.1 routine
      rw [hk]
      simp only [signature, hk]

/-- An element on one line tells of that line, if its category suits it. -/
theorem lineDeclaration_standsAt {code doc : Text} {category : Category}
    (hl : lineAt ls number = some line) (hc : code.strip = (Line.codePart line).strip)
    (hcat : category.Suits code.strip) :
    (Scan.lineDeclaration code doc number category).StandsAt ls [number] := by
  refine ⟨number, [], line, [], rfl, hl, .nil, rfl, ?_, ?_, ?_, hc ▸ hcat⟩
  · rw [← hc]
    rfl
  · rw [← hc, Line.declarationHeading_trim.strip]
    rfl
  · simp [Scan.lineDeclaration, Line.isExported_trim.strip]

theorem Scan.Shelved.lineCategory_suits {s : Scan} (h : s.Shelved) (code : Text) :
    (s.lineCategory code).Suits code := by
  unfold Scan.lineCategory Category.Suits
  cases hr : Line.routine? code with
  | some kind => rfl
  | none =>
    simp only
    split
    · next category rest hk =>
      split at hk
      · exact Line.sections_of_sectionStart? hk
      · cases hk
    · cases ho : s.openSection.category with
      | none => decide
      | some c => exact h c ho

end

/-! ## The invariant of a scan -/

/-- The declarations stand on the lines `spans`; these and behind them the lines `used` come
one after the other, before the line `next`. -/
structure Entered (ls : List Text) (next : Nat) (ds : List Declaration) (spans : List (List Nat))
    (used : List Nat) : Prop where
  stand : List.Forall₂ (Declaration.StandsAt ls) spans ds
  ordered : (spans.flatten ++ used).Pairwise (· < ·)
  before : ∀ n ∈ spans.flatten ++ used, n < next

namespace Entered

variable {ls : List Text} {next : Nat} {ds : List Declaration} {spans : List (List Nat)}
  {used : List Nat} {d : Declaration}

theorem mono (h : Entered ls next ds spans used) {later : Nat} (hl : next ≤ later) :
    Entered ls later ds spans used :=
  { h with before := fun n hn => Nat.lt_of_lt_of_le (h.before n hn) hl }

/-- The next line is put to use. -/
theorem use (h : Entered ls next ds spans used) :
    Entered ls (next + 1) ds spans (used ++ [next]) where
  stand := h.stand
  ordered := by
    rw [← List.append_assoc, List.pairwise_append]
    refine ⟨h.ordered, List.pairwise_singleton _ _, fun n hn m hm => ?_⟩
    rw [List.mem_singleton.1 hm]
    exact h.before n hn
  before n hn := by
    rw [← List.append_assoc, List.mem_append, List.mem_singleton] at hn
    rcases hn with hn | rfl
    · exact Nat.lt_succ_of_lt (h.before n hn)
    · exact Nat.lt_succ_self n

/-- The lines in use are given up. -/
theorem drop (h : Entered ls next ds spans used) : Entered ls next ds spans [] := by
  have sub : (spans.flatten ++ []).Sublist (spans.flatten ++ used) :=
    List.Sublist.append_left (List.nil_sublist used) _
  exact ⟨h.stand, h.ordered.sublist sub, fun n hn => h.before n (sub.subset hn)⟩

/-- The lines in use become those of a declaration. -/
theorem enter (h : Entered ls next ds spans used) (hd : d.StandsAt ls used) :
    Entered ls next (ds ++ [d]) (spans ++ [used]) [] := by
  have same : (spans ++ [used]).flatten ++ [] = spans.flatten ++ used := by simp
  refine ⟨List.rel_append h.stand (.cons hd .nil), ?_, ?_⟩
  · rw [same]
    exact h.ordered
  · rw [same]
    exact h.before

/-- The lines of the declarations are among the lines they stand on. -/
theorem lineNumbers_sublist (h : List.Forall₂ (Declaration.StandsAt ls) spans ds) :
    (ds.map (·.lineNumber)).Sublist (spans.flatten.map (↑·)) := by
  induction h with
  | nil => exact .slnil
  | @cons span d spans ds hd _ ih =>
    obtain ⟨number, more, _, _, rfl, -, -, ht⟩ := hd
    rw [List.map_cons, ht.lineNumber, List.flatten_cons, List.map_append, List.map_cons]
    exact (ih.trans (List.sublist_append_right _ _)).cons_cons _

/-- The lines of the declarations come one after the other. -/
theorem lineNumbers_ordered (h : Entered ls next ds spans used) :
    ds.Pairwise fun d e => d.lineNumber < e.lineNumber := by
  have ordered : (spans.flatten.map ((↑·) : Nat → Int)).Pairwise (· < ·) :=
    List.pairwise_map.2 ((List.pairwise_append.1 h.ordered).1.imp Int.ofNat_lt.2)
  exact List.pairwise_map.1 (ordered.sublist (lineNumbers_sublist h.stand))

end Entered

namespace Ledger

variable {ls : List Text} {next : Nat} {l : Ledger} {d : Declaration} {line : Text}

/-- What has been found stands on the lines before the next one, and so does the signature
that is being read. -/
def Recorded (ls : List Text) (next : Nat) (l : Ledger) : Prop :=
  ∃ spans used, Entered ls next l.declared spans used ∧
    List.Forall₂ (fun n text => lineAt ls n = some text) used l.pending.lines ∧
    (∀ n ∈ used.head?, l.pending.lineNumber = (n : Int)) ∧
    ∀ first ∈ l.pending.lines.head?, (Line.routine? first).isSome = true

theorem Recorded.mono (h : l.Recorded ls next) {later : Nat} (hl : next ≤ later) :
    l.Recorded ls later := by
  obtain ⟨spans, used, he, hp⟩ := h
  exact ⟨spans, used, he.mono hl, hp⟩

/-- The ledger stands, apart from a signature: nothing is pending. -/
theorem Recorded.of_entered {spans : List (List Nat)} (h : Entered ls next l.declared spans [])
    (hp : l.pending.lines = []) : l.Recorded ls next :=
  ⟨spans, [], h, hp ▸ .nil, nofun, by simp [hp]⟩

/-- A declaration is entered on the lines in use, or left out. -/
theorem Recorded.register {spans : List (List Nat)} {used : List Nat}
    (h : Entered ls next l.declared spans used) (hp : l.pending.lines = [])
    (hd : d.StandsAt ls used) : (l.register d).Recorded ls next := by
  unfold Ledger.register
  split
  · exact .of_entered h.drop hp
  · exact .of_entered (h.enter hd.head) hp

theorem Recorded.clear (h : l.Recorded ls next) : l.clear.Recorded ls next := by
  obtain ⟨spans, used, he, -⟩ := h
  exact .of_entered (l := l.clear) he.drop rfl

theorem Recorded.flush (h : l.Recorded ls next) : l.flush.Recorded ls next := by
  unfold Ledger.flush
  split
  · exact h
  · next first rest hl =>
    obtain ⟨spans, used, he, hp, hn, hr⟩ := h
    rw [hl] at hp hr
    exact .register (l := l.clear) he rfl (signature_standsAt (hr first rfl) hp hn)

theorem Recorded.settle (h : l.Recorded ls next) (line : Text) :
    (l.settle line).Recorded ls next := by
  unfold Ledger.settle
  split
  · exact h.flush
  · exact h

theorem Recorded.start (h : l.Recorded ls next) (hl : lineAt ls next = some line)
    (routine : (Line.routine? line).isSome = true) :
    (l.start line next).Recorded ls (next + 1) := by
  apply Recorded.settle
  obtain ⟨spans, used, he, hp, -⟩ := h.flush
  rw [flush_pending, List.forall₂_nil_right_iff] at hp
  subst hp
  exact ⟨spans, [next], he.use, .cons hl .nil, by simp, by simpa using routine⟩

theorem Recorded.extend (h : l.Recorded ls next) (hl : lineAt ls next = some line)
    (pending : l.pending.lines ≠ []) : (l.extend line).Recorded ls (next + 1) := by
  apply Recorded.settle
  obtain ⟨spans, used, he, hp, hn, hr⟩ := h
  obtain ⟨first, rest, hf⟩ := List.exists_cons_of_ne_nil pending
  rw [hf] at hp
  cases hp with
  | @cons n _ more _ h1 hm =>
    refine ⟨spans, n :: more ++ [next], he.use, ?_, hn, ?_⟩
    · simp only [hf]
      exact List.rel_append (R := fun n text => lineAt ls n = some text) (.cons h1 hm)
        (.cons hl .nil)
    · simpa [hf] using hr

/-- An element on one line is entered at once. -/
theorem Recorded.registerLine (h : l.Recorded ls next) (hp : l.pending.lines = [])
    (hd : d.StandsAt ls [next]) : (l.register d).Recorded ls (next + 1) := by
  obtain ⟨spans, used, he, hu, -⟩ := h
  rw [hp, List.forall₂_nil_right_iff] at hu
  subst hu
  exact .register he.use hp hd

end Ledger

namespace Scan

variable {s s' : Scan} {ls : List Text} {line : Text}

/-- A line keeps the declarations faithful. -/
theorem Reads.recorded {number : Nat} (hr : Reads (number : Int) line s s')
    (hl : lineAt ls number = some line) (shelved : s.Shelved)
    (h : s.ledger.Recorded ls number) : s'.ledger.Recorded ls (number + 1) := by
  have later := Nat.le_succ number
  cases hr.booked with
  | keep _ he => exact he ▸ h.mono later
  | flush _ he => exact he ▸ h.flush.mono later
  | start routine he => exact he ▸ h.start hl routine
  | extend _ pending he => exact he ▸ h.extend hl pending
  | @inline code doc beside he =>
    rw [he]
    obtain ⟨before, after, hc, rfl⟩ := Line.cutAt_of_splitInlineDoc beside
    have hp : Line.codePart line = before := by simp only [Line.codePart, hc]
    refine h.clear.registerLine rfl (lineDeclaration_standsAt hl ?_ ?_)
    · rw [hp, Text.strip_trim.stripRight]
    · have suits := shelved.lineCategory_suits before.stripRight
      unfold Category.Suits at suits ⊢
      rwa [Line.routine?_trim.strip]
  | @entry category inert bare pending filed he =>
    rw [he]
    refine h.registerLine pending (lineDeclaration_standsAt hl ?_ ?_)
    · rw [Line.codePart_of_bare bare, Text.strip_trim.strip]
    · unfold Category.Suits
      rw [Line.routine?_trim.strip, Line.routine?_trim.strip, inert]
      rcases filed with hc | ⟨rest, hc⟩
      · exact shelved category hc
      · exact Line.sections_of_sectionStart? hc

/-- The scan of a source has found declarations that are faithful to it. -/
theorem lines_recorded (exportedOnly : Bool) (ls : List Text) :
    ∃ s, (fresh exportedOnly).lines 1 ls = .ok s ∧
      s.finish.ledger.Recorded ls (ls.length + 1) := by
  have nothing : Entered ls 1 (fresh exportedOnly).ledger.declared [] [] := ⟨.nil, .nil, nofun⟩
  have begun : (fresh exportedOnly).ledger.Recorded ls 1 := .of_entered nothing rfl
  obtain ⟨s, he, hs, h, -⟩ := lines_read
    (P := fun i s => s.ledger.Recorded ls (i + 1) ∧ s.Shelved) ls
    (fun i line hl s s' _ hP hr => ⟨hr.recorded hl hP.2 hP.1, hP.2.reads hr⟩)
    (fresh_sound exportedOnly) ⟨begun, nofun⟩
  refine ⟨s, he, ?_⟩
  rw [finish_ledger hs]
  exact h.flush

end Scan

namespace Source

/-- **Declarations are faithful to their lines.** The declarations of an outline that have a
heading stand on lines of the source. These come one after the other: those of each
declaration in order, and no line is used by two of them. In each category the line numbers
increase, and no two declarations have the same. -/
theorem outline_standsAt {settings : Settings} {options : Options}
    (valid : settings.validate = .ok options) (content : Text) :
    ∃ o spans, outline settings content = .ok o ∧
      List.Forall₂ (Declaration.StandsAt (Scan.sourceLines content)) spans
        (o.declarations.filter (·.heading.isSome)) ∧
      spans.flatten.Pairwise (· < ·) ∧
      (∀ c, ((o.ofCategory c).filter (·.heading.isSome)).Pairwise
        fun d e => d.lineNumber < e.lineNumber) ∧
      (o.declarations.filter (·.heading.isSome)).Pairwise
        fun d e => d.lineNumber ≠ e.lineNumber := by
  obtain ⟨t, ht, spans, used, he, -⟩ :=
    Scan.lines_recorded (options.on .exportedOnly) (Scan.sourceLines content)
  have ho := outline_of_source valid (Scan.source_of_lines ht)
  have hd : t.finish.ledger.declared = _ := t.finish.outline.declared_eq
  have ordered := he.lineNumbers_ordered
  rw [hd, List.pairwise_map] at ordered
  refine ⟨_, spans, ho, ?_, (List.pairwise_append.1 he.ordered).1, fun c => ?_, ?_⟩
  · have stand := he.stand
    rw [hd, List.forall₂_map_right_iff] at stand
    exact stand.imp fun _ _ => Declaration.StandsAt.of_head
  · refine ordered.sublist ?_
    rw [Outline.ofCategory, List.filter_comm]
    exact List.filter_sublist
  · exact ordered.imp fun h => Int.ne_of_lt h

/-- A source with a signature on two lines, and with a section that has an entry with a
comment beside it and one without. -/
def threeElements : Text :=
  ("proc add*(a: int,\n    b: int): int =\n  a + b\n\nconst\n  Limit* = 10 ## At most\n" ++
    "  low = 1\n").toList

theorem outline_standsAt_threeElements :
    Settings.byDefault.validate = .ok Settings.byDefault.toOptions ∧
      ∃ o spans, outline .byDefault threeElements = .ok o ∧
        List.Forall₂ (Declaration.StandsAt (Scan.sourceLines threeElements)) spans
          (o.declarations.filter (·.heading.isSome)) ∧
        spans.flatten.Pairwise (· < ·) ∧
        (∀ c, ((o.ofCategory c).filter (·.heading.isSome)).Pairwise
          fun d e => d.lineNumber < e.lineNumber) ∧
        (o.declarations.filter (·.heading.isSome)).Pairwise
          fun d e => d.lineNumber ≠ e.lineNumber :=
  ⟨rfl, outline_standsAt rfl threeElements⟩

end Source

end NimMarkdown
