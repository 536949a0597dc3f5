import NimMarkdown.Proofs.Steps

/-!
# The top matter behind the first declaration

In the code the top matter changes only by narratives before the first
declaration. `Move.topMatter_eq`: once a declaration is in the outline, no move
changes the top matter. `Move.extends`: where there is none, as when it was left
out, what stood in the top matter stays at its beginning (`Extends`). The one move
that changes a line is an underline, which makes a heading of the line above it;
a narrative begins behind an empty line, so that this is a line of its own.
-/

namespace NimMarkdown.Scan

open Relation

variable {s s' : Scan} {text line : Text} {number : Int} {place : Place}

theorem Sound.inCode_of_declared (hs : s.Sound) (hd : s.outline.declarations ≠ []) :
    s.inCode = true := by
  cases hi : s.inCode with
  | true => rfl
  | false => exact (hd (hs.top hi).2.2.2.1).elim

/-- Behind a declaration doc lines go to a comment. -/
theorem Sound.docPlace_comment (hs : s.Sound) (hd : s.outline.declarations ≠ [])
    (hp : s.docPlace = some place) : ∃ index, place = .comment index := by
  simp only [docPlace, hs.inCode_of_declared hd, if_true] at hp
  split at hp
  · next index _ => exact ⟨index, (Option.some.inj hp).symm⟩
  · obtain ⟨-, ⟨-, hnil⟩ | ⟨index, -, rfl, -⟩⟩ := hs.narrative place hp
    · exact (hd hnil).elim
    · exact ⟨index, rfl⟩

theorem edit_declared (hd : s.outline.declarations ≠ []) (hp : ∃ index, place = .comment index)
    (f : List Text → List Text) :
    (s.edit place f).outline.topMatter = s.outline.topMatter ∧
      (s.edit place f).outline.declarations ≠ [] := by
  obtain ⟨index, rfl⟩ := hp
  refine ⟨rfl, fun hnil => hd ?_⟩
  have hlen := congrArg List.length hnil
  simpa [edit, Outline.modifyLines, Outline.modify] using hlen

theorem register_declared (hd : s.outline.declarations ≠ []) (d : Declaration) :
    (s.register d).outline.topMatter = s.outline.topMatter ∧
      (s.register d).outline.declarations ≠ [] := by
  unfold register
  split
  · exact ⟨rfl, hd⟩
  · exact ⟨rfl, by simp [Outline.add]⟩

theorem DocMove.topMatter_eq (hs : s.Sound) (hd : s.outline.declarations ≠ [])
    (h : DocMove text s s') :
    s'.outline.topMatter = s.outline.topMatter ∧ s'.outline.declarations ≠ [] := by
  cases h.effect hs with
  | fence => exact ⟨rfl, hd⟩
  | append at_ | heading at_ => exact edit_declared hd (hs.docPlace_comment hd at_) _
  | narrative hc hn =>
    have hlast : s.lastCategory ≠ none := by simpa [hs.lastCategory] using hd
    simp only [commentPlace, hc, hn]
    split
    · next hl => exact (hlast hl).elim
    · exact ⟨rfl, by simp [Outline.add]⟩

/-- Behind a declaration the top matter stays as it is. -/
theorem Move.topMatter_eq (hs : s.Sound) (hd : s.outline.declarations ≠ [])
    (h : Move number line s s') :
    s'.outline.topMatter = s.outline.topMatter ∧ s'.outline.declarations ≠ [] := by
  have hi := hs.inCode_of_declared hd
  cases h with
  | doc _ h => exact h.topMatter_eq hs hd
  | beginDoc top | copyright top | commitHeld top | hold top | headHeld top | enterCode top =>
    simp [hi] at top
  | flush =>
    unfold flushPending
    split
    · exact ⟨rfl, hd⟩
    · exact register_declared (s := { s with pending := { s.pending with lines := [] } }) hd _
  | declare => exact register_declared hd _
  | capture =>
    unfold captureLine
    split
    · exact ⟨rfl, hd⟩
    · split
      · exact ⟨rfl, hd⟩
      · split
        · exact ⟨rfl, by simpa [addBlankExample, Outline.modify] using hd⟩
        · exact ⟨rfl, by simpa [addExample, Outline.modify] using hd⟩
  | endDeclaration | accept | enterSection | start | extend | replace | listImport | listInclude |
      startCapture => exact ⟨rfl, hd⟩

/-! ## Where the declarations were left out -/

/-- The top matter begins with `base`, and an underline does not reach into it. -/
def Extends (s : Scan) (base : List Text) : Prop :=
  ∃ rest, s.outline.topMatter = base ++ rest ∧
    (s.narrative = some .topMatter → rest = [] → base.getLast?.getD [] = [])

variable {base : List Text}

theorem extends_nil (s : Scan) : s.Extends [] := ⟨_, rfl, fun _ _ => rfl⟩

theorem Extends.of_eq (h : s.Extends base) (ht : s'.outline.topMatter = s.outline.topMatter)
    (hn : s'.narrative = some .topMatter → s.narrative = some .topMatter) : s'.Extends base := by
  obtain ⟨rest, hr, hu⟩ := h
  exact ⟨rest, ht.trans hr, fun h => hu (hn h)⟩

theorem Extends.append (h : s.Extends base) (place : Place) (ls : List Text) (fence : Fence) :
    Extends { s.edit place (· ++ ls) with fence } base := by
  cases place with
  | comment index => exact h.of_eq rfl id
  | topMatter =>
    obtain ⟨rest, hr, hu⟩ := h
    refine ⟨rest ++ ls, ?_, fun hn hnil => hu hn (List.append_eq_nil_iff.1 hnil).1⟩
    show s.outline.topMatter ++ ls = _
    rw [hr, List.append_assoc]

theorem Extends.register (h : s.Extends base) (d : Declaration) : (s.register d).Extends base := by
  unfold Scan.register
  split <;> exact h.of_eq rfl id

theorem Extends.commentPlace (h : s.Extends base) (hc : s.current = none)
    (hn : s.narrative = none) : s.commentPlace.2.Extends base := by
  obtain ⟨rest, hr, -⟩ := h
  simp only [Scan.commentPlace, hc, hn]
  split
  · split
    · refine ⟨rest ++ [[]], ?_, fun _ hnil => by simp at hnil⟩
      show s.outline.topMatter ++ [[]] = _
      rw [hr, List.append_assoc]
    · next hlast =>
      refine ⟨rest, hr, fun _ hnil => ?_⟩
      rw [hr, hnil, List.append_nil] at hlast
      cases hg : base.getLast? with
      | none => rfl
      | some last =>
        cases last with
        | nil => rfl
        | cons c t => exact (hlast c t hg).elim
  · refine ⟨rest, hr, fun h => ?_⟩
    cases h

/-- A heading takes the place of a line of the narrative. -/
theorem Extends.heading (h : s.Extends base) (hn : s.narrative = some .topMatter) {above : Text}
    (ha : s.outline.topMatter.getLast? = some above) (hb : above.isBlankText = false) (t : Text) :
    (s.edit .topMatter (·.dropLast ++ [t])).Extends base := by
  obtain ⟨rest, hr, hu⟩ := h
  -- Otherwise the line above would be the last of `base`, which is empty.
  have hne : rest ≠ [] := by
    rintro rfl
    rw [hr, List.append_nil] at ha
    have : above = [] := by simpa [ha] using hu hn rfl
    simp [this, Text.isBlankText] at hb
  refine ⟨rest.dropLast ++ [t], ?_, fun _ hnil => by simp at hnil⟩
  show s.outline.topMatter.dropLast ++ [t] = _
  rw [hr, List.dropLast_append_of_ne_nil hne, List.append_assoc]

theorem DocMove.extends (hi : s.inCode = true) (hs : s.Sound) (h : s.Extends base)
    (hm : DocMove text s s') : s'.Extends base := by
  cases hm.effect hs with
  | fence => exact h.of_eq rfl id
  | append _ ls fence => exact h.append _ ls fence
  | @heading place above at_ last nonblank =>
    cases place with
    | comment index => exact h.of_eq rfl id
    | topMatter =>
      have hn : s.narrative = some .topMatter := by
        simp only [docPlace, hi, if_true] at at_
        split at at_
        · cases at_
        · exact at_
      exact h.heading hn last nonblank _
  | narrative hc hn => exact h.commentPlace hc hn

theorem Move.extends (hi : s.inCode = true) (hs : s.Sound) (h : s.Extends base)
    (hm : Move number line s s') : s'.Extends base ∧ s'.inCode = true := by
  cases hm with
  | doc _ hm => exact ⟨hm.extends hi hs h, (hm.frame hs).2.2.1.trans hi⟩
  | beginDoc top | copyright top | commitHeld top | hold top | headHeld top | enterCode top =>
    simp [hi] at top
  | flush =>
    refine ⟨?_, by simpa using hi⟩
    unfold flushPending
    split
    · exact h
    · exact Extends.register (s := { s with pending := { s.pending with lines := [] } })
        (h.of_eq rfl id) _
  | declare => exact ⟨h.register _, by simpa using hi⟩
  | endDeclaration => exact ⟨h.of_eq rfl nofun, hi⟩
  | capture =>
    unfold captureLine
    split
    · exact ⟨h.of_eq rfl id, hi⟩
    · split
      · exact ⟨h, hi⟩
      · split <;> exact ⟨h.of_eq rfl id, hi⟩
  | accept | enterSection | start | extend | replace | listImport | listInclude | startCapture =>
    exact ⟨h.of_eq rfl id, hi⟩

end NimMarkdown.Scan
