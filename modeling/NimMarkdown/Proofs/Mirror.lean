import NimMarkdown.Proofs.Relabel
import NimMarkdown.Proofs.TopMatter
import NimMarkdown.Proofs.View

/-!
# Two scans side by side

One scan keeps all declarations, the other leaves out those that are not
exported. Up to the first one that is left out they are in the same state
(`onlyExported`). From then on they are `Apart`: they may stand in different code
blocks, and one may write narratives where the other has a declaration, but both
have the same view, and the top matter of the first begins that of the second.
`Mirrors` is kept by each operation that a line is made of.
-/

namespace NimMarkdown.Scan

open Relation

variable {s s' f f' p p' : Scan} {text line : Text} {number : Int} {d : Declaration}

/-- The state of a scan that leaves out what is not exported. -/
def onlyExported (s : Scan) : Scan := { s with exportedOnly := true }

/-- A declaration of the first scan may be missing in the second. -/
structure Apart (f p : Scan) : Prop where
  inCode : p.inCode = true
  declared : f.outline.declarations ≠ []
  same : p.view = f.view
  top : p.Extends f.outline.topMatter

/-- The second scan is where the first one would be without the declarations that are not
exported. -/
structure Mirrors (f p : Scan) : Prop where
  full : f.Sound
  part : p.Sound
  unfiltered : f.exportedOnly = false
  filtered : p.exportedOnly = true
  together : p = f.onlyExported ∨ Apart f p

theorem Mirrors.same (h : Mirrors f p) : p.view = f.view := by
  obtain rfl | ha := h.together
  · rfl
  · exact ha.same

theorem Mirrors.pending (h : Mirrors f p) : p.pending = f.pending := congrArg View.pending h.same

theorem Mirrors.openSection (h : Mirrors f p) : p.openSection = f.openSection :=
  congrArg View.openSection h.same

/-! ## Moves side by side -/

theorem Move.exportedOnly (hs : s.Sound) (h : Move number line s s') :
    s'.exportedOnly = s.exportedOnly := by
  cases h with
  | doc _ h => exact (h.frame hs).2.2.2
  | commitHeld => exact (commitHeld_frame s).2.2.2
  | flush | declare => simp
  | capture =>
    unfold captureLine
    split
    · rfl
    · split
      · rfl
      · split <;> rfl
  | _ => rfl

theorem Moves.exportedOnly (hn : 1 ≤ number) (hs : s.Sound) (h : Moves number line s s') :
    s'.exportedOnly = s.exportedOnly := by
  induction h with
  | refl => rfl
  | tail hm h ih => exact (h.exportedOnly (Moves.sound hn hs hm)).trans ih

theorem Moves.topMatter_eq (hn : 1 ≤ number) (hs : s.Sound) (hd : s.outline.declarations ≠ [])
    (h : Moves number line s s') :
    s'.outline.topMatter = s.outline.topMatter ∧ s'.outline.declarations ≠ [] := by
  induction h with
  | refl => exact ⟨rfl, hd⟩
  | tail hm h ih =>
    obtain ⟨ht, hd'⟩ := h.topMatter_eq (Moves.sound hn hs hm) ih.2
    exact ⟨ht.trans ih.1, hd'⟩

theorem Moves.extends (hn : 1 ≤ number) {base : List Text} (hi : s.inCode = true) (hs : s.Sound)
    (he : s.Extends base) (h : Moves number line s s') : s'.Extends base ∧ s'.inCode = true := by
  induction h with
  | refl => exact ⟨he, hi⟩
  | tail hm h ih => exact h.extends ih.2 (Moves.sound hn hs hm) ih.1

/-- Where a declaration may be missing, moves that lead to the same view keep the scans side
by side. -/
theorem Mirrors.apart (h : Mirrors f p) (ha : Apart f p) (hn : 1 ≤ number)
    (hf : Moves number line f f') (hp : Moves number line p p') (same : p'.view = f'.view) :
    Mirrors f' p' := by
  obtain ⟨ht, hd⟩ := hf.topMatter_eq hn h.full ha.declared
  obtain ⟨he, hi⟩ := hp.extends hn ha.inCode h.part ha.top
  exact ⟨hf.sound hn h.full, hp.sound hn h.part, (hf.exportedOnly hn h.full).trans h.unfiltered,
    (hp.exportedOnly hn h.part).trans h.filtered, .inr ⟨hi, hd, same, ht ▸ he⟩⟩

/-- Moves of both scans keep them side by side if they lead to the same view, and to the same
state where the scans have been in the same state. -/
theorem Mirrors.moves (h : Mirrors f p) (hn : 1 ≤ number) (hf : Moves number line f f')
    (hp : Moves number line p p') (same : p'.view = f'.view)
    (together : p = f.onlyExported → p' = f'.onlyExported ∨ Apart f' p') : Mirrors f' p' := by
  rcases h.together with he | ha
  · exact ⟨hf.sound hn h.full, hp.sound hn h.part, (hf.exportedOnly hn h.full).trans h.unfiltered,
      (hp.exportedOnly hn h.part).trans h.filtered, together he⟩
  · exact h.apart ha hn hf hp same

/-- Moves that lead to the same state. -/
theorem Mirrors.alike (h : Mirrors f p) (hn : 1 ≤ number) (hf : Moves number line f f')
    (hp : Moves number line p p') (he : p' = f'.onlyExported) : Mirrors f' p' :=
  h.moves hn hf hp (by rw [he]; rfl) fun _ => .inl he

/-- A move that does the same in both scans. -/
theorem Mirrors.move (h : Mirrors f p) (hn : 1 ≤ number) (hf : Move number line f f')
    (hp : Move number line p p') (same : p'.view = f'.view)
    (together : p = f.onlyExported → p' = f'.onlyExported) : Mirrors f' p' :=
  h.moves hn (.single hf) (.single hp) same fun he => .inl (together he)

/-! ## The same state

Only `register` asks whether a scan leaves out declarations. -/

theorem onlyExported_eq (s : Scan) :
    s.onlyExported = s.relabel { exportedOnly := fun _ => true } :=
  (relabel_of_numbers s (fun _ => true) id).symm

theorem closeFence_onlyExported (s : Scan) :
    s.onlyExported.closeFence = s.closeFence.onlyExported := by
  rw [onlyExported_eq, onlyExported_eq, closeFence_relabel]

theorem commitHeld_onlyExported (s : Scan) :
    s.onlyExported.commitHeld = s.commitHeld.onlyExported := by
  rw [onlyExported_eq, onlyExported_eq, commitHeld_relabel]

theorem takeTop_onlyExported {taken : Bool} (h : s.takeTop line = .ok (taken, s')) :
    s.onlyExported.takeTop line = .ok (taken, s'.onlyExported) := by
  rw [onlyExported_eq, onlyExported_eq, takeTop_relabel h]

theorem enterCode_onlyExported (s : Scan) (number : Int) :
    s.onlyExported.enterCode number = (s.enterCode number).onlyExported := by
  rw [onlyExported_eq, onlyExported_eq, ← enterCode_relabel]
  rfl

theorem captured_onlyExported (s : Scan) (line : Text) :
    s.onlyExported.captured line = ((s.captured line).1, (s.captured line).2.onlyExported) := by
  rw [onlyExported_eq, onlyExported_eq, captured_relabel]

theorem fencedLine_onlyExported {taken : Bool} (h : s.fencedLine line = .ok (taken, s')) :
    s.onlyExported.fencedLine line = .ok (taken, s'.onlyExported) := by
  rw [onlyExported_eq, onlyExported_eq, fencedLine_relabel h]

theorem takeDoc_onlyExported (s : Scan) (text : Text) :
    s.onlyExported.takeDoc text = (s.takeDoc text).onlyExported := by
  rw [onlyExported_eq, onlyExported_eq, takeDoc_relabel]

end NimMarkdown.Scan
