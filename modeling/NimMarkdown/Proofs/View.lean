import NimMarkdown.Proofs.Steps

/-!
# The exported view of a scan

What becomes of the exported declarations depends on a part of the state only:
its `View`. It has the declarations that are exported and have a heading
(`shown`), and of the fence and the examples only what concerns the current
declaration while that is one of them (`focus`).

* `DocMove.quiet`: while no such declaration is current, doc lines do not change
  the view;
* `Focused.revise`: while one is, the view of every change of its texts is the
  same change of the view;
* `view_register`: a declaration changes the view in the same way whether or not
  those that are not exported are left out.
-/

namespace NimMarkdown

/-- The declaration stands in the outline whether or not only exported elements are wanted. -/
def Declaration.isShown (d : Declaration) : Bool := d.heading.isSome && d.isExported

/-- The declarations with a heading that are exported. -/
def Outline.shown (o : Outline) : List Declaration := o.declarations.filter Declaration.isShown

theorem Declaration.isShown_of_head {d e : Declaration} (h : d.head = e.head) :
    d.isShown = e.isShown := by
  obtain ⟨-, he, -, hh, -⟩ := Declaration.head_eq_iff.1 h
  simp only [isShown, he, hh]

theorem filter_modify_of_not {α : Type} {p : α → Bool} {f : α → α} {xs : List α} {i : Nat}
    (h : ∀ x, xs[i]? = some x → p x = false ∧ p (f x) = false) :
    (xs.modify i f).filter p = xs.filter p := by
  induction xs generalizing i with
  | nil => simp
  | cons x xs ih =>
    cases i with
    | zero =>
      obtain ⟨h1, h2⟩ := h x rfl
      simp [h1, h2]
    | succ i => simp [List.filter_cons, ih h]

/-- What the exported declarations depend on. -/
@[ext] structure View where
  pending : Pending
  openSection : OpenSection
  capturing : Bool
  captureIndent : Nat
  imports : List Text
  includes : List Text
  shown : List Declaration
  /-- The fence, but for its place, and the indent of the examples of a current declaration
  that is shown. -/
  focus : Option (Fence × Option Nat)

/-- What a declaration does to a view. -/
def View.register (v : View) (d : Declaration) : View :=
  if d.isExported then { v with shown := v.shown ++ [d], focus := some ({}, none) }
  else { v with focus := none }

namespace Scan

open Relation

variable {s s' : Scan} {text line : Text} {number : Int} {place : Place}

/-- The current declaration is shown. -/
def inFocus (s : Scan) : Bool :=
  (s.current.bind fun index => s.outline.declarations[index]?).any Declaration.isShown

def focus (s : Scan) : Option (Fence × Option Nat) :=
  if s.inFocus then some ({ s.fence with place := none }, s.capture.bodyIndent) else none

def view (s : Scan) : View where
  pending := s.pending
  openSection := s.openSection
  capturing := s.capture.active
  captureIndent := s.capture.indent
  imports := s.outline.imports
  includes := s.outline.includes
  shown := s.outline.shown
  focus := s.focus

theorem focus_of_not (h : s.inFocus = false) : s.focus = none := by simp [focus, h]

theorem view_fence (s : Scan) (fence : Fence) :
    view { s with fence } =
      { s.view with focus := s.focus.map fun x => ({ fence with place := none }, x.2) } := by
  refine View.ext rfl rfl rfl rfl rfl rfl rfl ?_
  show (if s.inFocus then _ else _) = Option.map _ (if s.inFocus then _ else _)
  split <;> rfl

theorem view_capture (s : Scan) (c : Capture) :
    view { s with capture := c } =
      { s.view with
        capturing := c.active
        captureIndent := c.indent
        focus := s.focus.map fun x => (x.1, c.bodyIndent) } := by
  refine View.ext rfl rfl rfl rfl rfl rfl rfl ?_
  show (if s.inFocus then _ else _) = Option.map _ (if s.inFocus then _ else _)
  split <;> rfl

theorem inFocus_of_focus (h : s.focus = none) : s.inFocus = false := by
  cases hf : s.inFocus with
  | false => rfl
  | true => simp [focus, hf] at h

/-! ## Out of focus -/

/-- Changes at the place are not seen in the view. -/
def Hidden (s : Scan) : Place → Prop
  | .topMatter => True
  | .comment index => ∀ d, s.outline.declarations[index]? = some d → d.isShown = false

theorem Sound.docPlace_hidden (hs : s.Sound) (hf : s.focus = none) (hp : s.docPlace = some place) :
    s.Hidden place := by
  unfold docPlace at hp
  split at hp
  · split at hp
    · next index hc =>
      cases hp
      intro d hd
      simpa [inFocus, hc, hd] using inFocus_of_focus hf
    · obtain ⟨-, ⟨rfl, -⟩ | ⟨index, d, rfl, -, hd, hh⟩⟩ := hs.narrative place hp
      · trivial
      · intro e he
        rw [Option.some.inj (he.symm.trans hd)]
        simp [Declaration.isShown, hh]
  · cases hp
    trivial

theorem inFocus_of_heads (hc : s'.current = s.current) (h : s'.outline.heads = s.outline.heads) :
    s'.inFocus = s.inFocus := by
  unfold inFocus
  rw [hc]
  cases s.current with
  | none => rfl
  | some index =>
    simp only [Option.bind_some]
    cases hd : s.outline.declarations[index]? with
    | none =>
      rw [List.getElem?_eq_none_iff, ← Outline.length_eq_of_heads h,
        ← List.getElem?_eq_none_iff] at hd
      rw [hd]
    | some d =>
      obtain ⟨e, he, heq⟩ := Outline.getElem?_of_heads h hd
      rw [he]
      exact Declaration.isShown_of_head heq

theorem focus_none_of_heads (hf : s.focus = none) (hc : s'.current = s.current)
    (h : s'.outline.heads = s.outline.heads) : s'.focus = s.focus := by
  rw [hf]
  exact focus_of_not ((inFocus_of_heads hc h).trans (inFocus_of_focus hf))

/-- A change of the texts of a declaration that is not shown is not seen, nor is a change of
the fence. -/
theorem view_modify_hidden (hf : s.focus = none) {index : Nat} (hp : s.Hidden (.comment index))
    {g : Declaration → Declaration} (hg : ∀ d, (g d).head = d.head) (fence : Fence) (c : Capture) :
    view { s with outline := s.outline.modify index g, fence, capture := c } =
      { s.view with capturing := c.active, captureIndent := c.indent } := by
  refine View.ext rfl rfl rfl rfl rfl rfl ?_
    (focus_none_of_heads hf (by rfl) (Outline.heads_modify s.outline index hg))
  refine filter_modify_of_not fun d hd => ⟨hp d hd, ?_⟩
  rw [Declaration.isShown_of_head (hg d), hp d hd]

/-- A change at a hidden place is not seen, nor is a change of the fence. -/
theorem view_hidden (hf : s.focus = none) (hp : s.Hidden place) (f : List Text → List Text)
    (fence : Fence) : view { s.edit place f with fence } = s.view := by
  cases place with
  | topMatter =>
    exact View.ext rfl rfl rfl rfl rfl rfl rfl (focus_none_of_heads hf (by rfl) (by rfl))
  | comment index =>
    exact view_modify_hidden hf hp (g := fun d => { d with comment := f d.comment })
      (fun _ => rfl) fence s.capture

theorem view_commentPlace (hf : s.focus = none) (hc : s.current = none) (hn : s.narrative = none) :
    s.commentPlace.2.view = s.view := by
  simp only [commentPlace, hc, hn]
  split
  · split
    · exact view_hidden hf (show s.Hidden .topMatter from trivial) (· ++ [[]]) s.fence
    · rfl
  · refine View.ext rfl rfl rfl rfl rfl rfl ?_ ?_
    · simp [view, Outline.shown, Outline.add, Declaration.isShown]
    · simp only [view, hf]
      simp [Scan.focus, inFocus]

/-- While no exported declaration is current, a doc text does not change the view. -/
theorem DocMove.quiet (hs : s.Sound) (hf : s.focus = none) (h : DocMove text s s') :
    s'.view = s.view := by
  cases h.effect hs with
  | fence fence => exact view_hidden hf (show s.Hidden .topMatter from trivial) id fence
  | append at_ ls fence => exact view_hidden hf (hs.docPlace_hidden hf at_) (· ++ ls) fence
  | heading at_ => exact view_hidden hf (hs.docPlace_hidden hf at_) _ s.fence
  | narrative hc hn => exact view_commentPlace hf hc hn

theorem docMoves_quiet (hs : s.Sound) (hf : s.focus = none) (h : ReflTransGen (DocMove text) s s') :
    s'.view = s.view := by
  induction h with
  | refl => rfl
  | tail hm h ih =>
    have hf' := (congrArg View.focus ih).trans hf
    exact (h.quiet (docMoves_sound hs hm) hf').trans ih

/-! ## In focus -/

/-- The current declaration is `d`, and it is shown. -/
structure Focused (s : Scan) (before : List Declaration) (d : Declaration) : Prop where
  declarations : s.outline.declarations = before ++ [d]
  current : s.current = some before.length
  isShown : d.isShown = true

variable {before : List Declaration} {d : Declaration}

theorem Sound.focused (hs : s.Sound) (h : s.focus ≠ none) : ∃ before d, s.Focused before d := by
  cases hc : s.current with
  | none => exact (h (focus_of_not (by simp [inFocus, hc]))).elim
  | some index =>
    obtain ⟨before, d, hb, rfl, -⟩ := hs.current_concat hc
    refine ⟨before, d, hb, hc, ?_⟩
    cases hd : d.isShown with
    | true => rfl
    | false => exact (h (focus_of_not (by simp [inFocus, hc, hb, hd]))).elim

theorem Focused.focus (h : s.Focused before d) :
    s.focus = some ({ s.fence with place := none }, s.capture.bodyIndent) := by
  have hin : s.inFocus = true := by simp [inFocus, h.current, h.declarations, h.isShown]
  simp [Scan.focus, hin]

theorem Focused.shown (h : s.Focused before d) :
    s.outline.shown = before.filter Declaration.isShown ++ [d] := by
  simp [Outline.shown, h.declarations, h.isShown]

theorem Focused.comment (h : s.Focused before d) :
    s.outline.linesAt (.comment before.length) = d.comment := by
  simp [Outline.linesAt, h.declarations]

theorem Focused.docPlace (h : s.Focused before d) (hs : s.Sound) :
    s.docPlace = some (.comment before.length) := by
  have hi : s.inCode = true := by
    cases hi : s.inCode with
    | true => rfl
    | false =>
      have := (hs.top hi).2.1
      simp [h.current] at this
  simp [Scan.docPlace, hi, h.current]

/-- A change of the texts of the current declaration, of the fence and of the block of
examples. -/
theorem Focused.revise (h : s.Focused before d) {g : Declaration → Declaration}
    (hg : (g d).head = d.head) (fence : Fence) (capture : Capture) :
    view { s with outline := s.outline.modify before.length g, fence, capture } =
      { s.view with
        capturing := capture.active
        captureIndent := capture.indent
        shown := before.filter Declaration.isShown ++ [g d]
        focus := some ({ fence with place := none }, capture.bodyIndent) } := by
  have h' : Focused { s with outline := s.outline.modify before.length g, fence, capture } before
      (g d) :=
    { declarations := by simp [Outline.modify, h.declarations, modify_concat]
      current := h.current
      isShown := (Declaration.isShown_of_head hg).trans h.isShown }
  exact View.ext rfl rfl rfl rfl rfl rfl h'.shown h'.focus

/-! ## Declarations -/

/-- The view does not tell whether declarations that are not exported are left out. -/
theorem view_register (hs : s.Sound) (idle : s.Idle) (hd : d.heading.isSome = true) :
    (s.register d).view = s.view.register d := by
  have hfence : s.fence = {} := hs.fence.closed idle.2.1
  have hbody : s.capture.bodyIndent = none := hs.capture idle.2.2
  cases he : d.isExported with
  | true =>
    have hr : s.register d = { s with
        outline := s.outline.add d
        current := some s.outline.declarations.length
        admitting := true
        lastCategory := some d.category } := by simp [Scan.register, he]
    have hfoc : Focused (s.register d) s.outline.declarations d :=
      { declarations := by rw [hr]; rfl
        current := by rw [hr]
        isShown := by simp [Declaration.isShown, hd, he] }
    rw [View.register, if_pos he]
    refine View.ext (by rw [hr]; rfl) (by rw [hr]; rfl) (by rw [hr]; rfl) (by rw [hr]; rfl)
      (by rw [hr]; rfl) (by rw [hr]; rfl) hfoc.shown ?_
    refine hfoc.focus.trans ?_
    simp [hfence, hbody]
  | false =>
    have hidden : d.isShown = false := by simp [Declaration.isShown, he]
    have hin : (s.register d).inFocus = false := by
      unfold Scan.register
      split
      · rfl
      · simp [inFocus, Outline.add, hidden]
    have hshown : (s.register d).outline.shown = s.outline.shown := by
      unfold Scan.register
      split
      · rfl
      · simp [Outline.shown, Outline.add, hidden]
    rw [View.register, if_neg (by simp [he])]
    refine View.ext ?_ ?_ ?_ ?_ ?_ ?_ hshown (focus_of_not hin) <;>
      (unfold Scan.register; split <;> rfl)

/-! ## Two scans with the same view -/

variable {f p : Scan}

theorem flushPending_view (hf : f.Sound) (hp : p.Sound) (h : p.view = f.view) :
    p.flushPending.view = f.flushPending.view := by
  have hpending : p.pending = f.pending := congrArg View.pending h
  simp only [Scan.flushPending, hpending]
  split
  · exact h
  · next first rest hl =>
    have cleared (s : Scan) (hs : s.Sound) (hl : s.pending.lines ≠ []) :
        Sound { s with pending := { s.pending with lines := [] } } ∧ s.Idle :=
      ⟨hs.clearPending, hs.idle_of_pending hl⟩
    obtain ⟨hcf, idlef⟩ := cleared f hf (by simp [hl])
    obtain ⟨hcp, idlep⟩ := cleared p hp (by simp [hpending, hl])
    rw [hpending] at hcp
    rw [view_register hcf idlef rfl, view_register hcp idlep rfl]
    have hv : view { p with pending := { f.pending with lines := [] } } =
        view { f with pending := { f.pending with lines := [] } } :=
      congrArg (fun v : View => { v with pending := { f.pending with lines := [] } }) h
    rw [hv]

theorem capture_view (h : p.view = f.view) (c : Capture) :
    view { p with capture := c } = view { f with capture := c } := by
  have hfocus : p.focus = f.focus := congrArg View.focus h
  rw [view_capture p c, view_capture f c, h, hfocus]

/-- The same declaration is current in both scans, and is shown. -/
structure Abreast (f p : Scan) (bf bp : List Declaration) (d : Declaration) : Prop where
  same : p.view = f.view
  left : f.Focused bf d
  right : p.Focused bp d

variable {bf bp : List Declaration}

theorem abreast (hf : f.Sound) (hp : p.Sound) (h : p.view = f.view) (hn : f.focus ≠ none) :
    ∃ bf bp d, Abreast f p bf bp d := by
  obtain ⟨bf, d, hfd⟩ := hf.focused hn
  obtain ⟨bp, e, hpe⟩ := hp.focused fun he => hn ((congrArg View.focus h).symm.trans he)
  have hshown : p.outline.shown = f.outline.shown := congrArg View.shown h
  rw [hfd.shown, hpe.shown] at hshown
  obtain ⟨-, hlast⟩ := List.append_inj' hshown rfl
  obtain rfl : e = d := List.singleton_inj.1 hlast
  exact ⟨bf, bp, e, h, hfd, hpe⟩

theorem Abreast.shown_before (h : Abreast f p bf bp d) :
    bp.filter Declaration.isShown = bf.filter Declaration.isShown := by
  have hshown : p.outline.shown = f.outline.shown := congrArg View.shown h.same
  rw [h.left.shown, h.right.shown] at hshown
  exact (List.append_inj' hshown rfl).1

theorem Abreast.focus (h : Abreast f p bf bp d) :
    { p.fence with place := none } = { f.fence with place := none } ∧
      p.capture.bodyIndent = f.capture.bodyIndent := by
  have hfocus : p.focus = f.focus := congrArg View.focus h.same
  rw [h.left.focus, h.right.focus] at hfocus
  exact Prod.mk.inj (Option.some.inj hfocus)

theorem Abreast.fence (h : Abreast f p bf bp d) :
    p.fence = { f.fence with place := p.fence.place } := by
  obtain ⟨h1, h2, h3, h4, -⟩ := Fence.mk.inj h.focus.1
  simp only [← h1, ← h2, ← h3, ← h4]

theorem Abreast.capture (h : Abreast f p bf bp d) : p.capture = f.capture := by
  have hactive : p.capture.active = f.capture.active := congrArg View.capturing h.same
  have hindent : p.capture.indent = f.capture.indent := congrArg View.captureIndent h.same
  calc p.capture = { f.capture with bodyIndent := p.capture.bodyIndent } := by
        simp only [← hactive, ← hindent]
    _ = f.capture := by rw [h.focus.2]

/-- The same change of the current declaration in both scans. -/
theorem Abreast.revise (h : Abreast f p bf bp d) {g : Declaration → Declaration}
    (hg : (g d).head = d.head) {F G : Fence}
    (hF : { G with place := none } = { F with place := none }) {c e : Capture} (hc : e = c) :
    view { p with outline := p.outline.modify bp.length g, fence := G, capture := e } =
      view { f with outline := f.outline.modify bf.length g, fence := F, capture := c } := by
  rw [h.left.revise hg, h.right.revise hg, h.same, h.shown_before, hF, hc]

/-- The same change of the comment in both scans. -/
theorem Abreast.write (h : Abreast f p bf bp d) (g : List Text → List Text) {F G : Fence}
    (hF : { G with place := none } = { F with place := none }) :
    view { p.edit (.comment bp.length) g with fence := G } =
      view { f.edit (.comment bf.length) g with fence := F } :=
  h.revise (g := fun d => { d with comment := g d.comment }) rfl hF h.capture

theorem Abreast.closeFence (h : Abreast f p bf bp d) (hf : f.Sound) (hp : p.Sound) :
    p.closeFence.view = f.closeFence.view := by
  have hopen : p.fence.isOpen = f.fence.isOpen := by rw [h.fence]
  cases ho : f.fence.isOpen with
  | false => rw [closeFence_of_closed ho, closeFence_of_closed (hopen.trans ho), h.same]
  | true =>
    have hclosing : p.fence.closing = f.fence.closing := by rw [h.fence]; rfl
    have hpf := (hf.fence_open ho).2.2.2.2.trans (h.left.docPlace hf)
    have hpp := (hp.fence_open (hopen.trans ho)).2.2.2.2.trans (h.right.docPlace hp)
    rw [closeFence_of_open ho hpf, closeFence_of_open (hopen.trans ho) hpp, hclosing]
    exact h.write (· ++ f.fence.closing) rfl

/-- Another state of the code block in both scans. -/
theorem Abreast.fenced (h : Abreast f p bf bp d) {F G : Fence}
    (hF : { G with place := none } = { F with place := none }) :
    Abreast { f with fence := F } { p with fence := G } bf bp d := by
  refine ⟨?_, { h.left with }, { h.right with }⟩
  have hfocus : p.focus = f.focus := congrArg View.focus h.same
  rw [view_fence f F, view_fence p G, h.same, hfocus, hF]

theorem Abreast.places (h : Abreast f p bf bp d) (hf : f.Sound) (hp : p.Sound)
    (ho : f.fence.isOpen = true) : f.fence.place = some (.comment bf.length) ∧
      p.fence = { f.fence with place := some (.comment bp.length) } := by
  have hopen : p.fence.isOpen = true := by rw [h.fence]; exact ho
  have hpp := (hp.fence_open hopen).2.2.2.2.trans (h.right.docPlace hp)
  exact ⟨(hf.fence_open ho).2.2.2.2.trans (h.left.docPlace hf), by rw [← hpp]; exact h.fence⟩

/-- An open code block takes a doc text in both scans, or is closed in both. -/
theorem Abreast.feedFence (h : Abreast f p bf bp d) (hf : f.Sound) (hp : p.Sound)
    (ho : f.fence.isOpen = true) (text : Text) :
    ∃ taken f' p', f.feedFence text = .ok (taken, f') ∧ p.feedFence text = .ok (taken, p') ∧
      p'.view = f'.view := by
  obtain ⟨hpf, hpp⟩ := h.places hf hp ho
  have hpo : p.fence.isOpen = true := by rw [hpp]; exact ho
  have hclose := h.closeFence hf hp
  simp only [Scan.feedFence, hpp]
  split
  · exact ⟨false, _, _, rfl, rfl, hclose⟩
  · split
    · split
      · exact ⟨true, _, _, rfl, rfl, h.same⟩
      · split
        · refine ⟨false, _, _, rfl, rfl, ?_⟩
          have hf' := (DocMove.dropBlank ho : DocMove text f _).sound hf
          have hp' := (DocMove.dropBlank hpo : DocMove text p _).sound hp
          rw [hpp] at hp'
          exact (h.fenced (F := { f.fence with blankHeld := false }) (G := { f.fence with
            blankHeld := false, place := some (.comment bp.length) }) rfl).closeFence hf' hp'
        · exact ⟨true, _, _, rfl, rfl, (h.fenced rfl).same⟩
    · next hb =>
      split
      · exact (hb rfl).elim
      · split
        · simp only [hpf]
          refine ⟨true, _, _, rfl, rfl, ?_⟩
          simp only [writeFenced_eq]
          exact h.write _ rfl
        · exact ⟨false, _, _, rfl, rfl, hclose⟩

theorem Abreast.takeDoc (h : Abreast f p bf bp d) (hf : f.Sound) (hp : p.Sound) (text : Text) :
    (p.takeDoc text).view = (f.takeDoc text).view := by
  have hfa := (hf.current _ h.left.current).2.1
  have hpa := (hp.current _ h.right.current).2.1
  have hcf : f.commentPlace = (.comment bf.length, f) := by simp [commentPlace, h.left.current]
  have hcp : p.commentPlace = (.comment bp.length, p) := by simp [commentPlace, h.right.current]
  have hfence := h.focus.1
  simp only [Scan.takeDoc, hfa, hpa, hcf, hcp, if_true]
  split
  · exact h.write _ rfl
  · simp only [docTextAt, h.left.comment, h.right.comment]
    split
    · split
      · exact h.same
      · exact h.write (· ++ [text]) hfence
    · split
      · exact h.write (·.dropLast ++ [_]) hfence
      · exact h.write (· ++ [text]) hfence

/-- The line ends the block of examples. -/
def endsCapture (s : Scan) (line : Text) : Bool :=
  !line.isBlankText && line.indent ≤ s.capture.indent

theorem captureLine_hidden (hf : s.focus = none) (h : s.endsCapture line = false) :
    (s.captureLine line).1 = true ∧ (s.captureLine line).2.view = s.view := by
  unfold captureLine
  rw [if_neg (by simpa [endsCapture] using h)]
  split
  · exact ⟨rfl, rfl⟩
  · next index hc =>
    have hidden : s.Hidden (.comment index) := by
      intro d hd
      simpa [inFocus, hc, hd] using inFocus_of_focus hf
    split
    · refine ⟨rfl, view_modify_hidden hf hidden (fun d => ?_) s.fence s.capture⟩
      split <;> rfl
    · refine ⟨rfl, view_modify_hidden hf hidden (g := fun d => { d with examples := _ })
        (fun d => ?_) s.fence { s.capture with bodyIndent := _ }⟩
      rfl

theorem Focused.captureLine (h : s.Focused before d) (he : s.endsCapture line = false) :
    s.captureLine line = (true,
      if line.isBlankText then s.addBlankExample before.length
      else addExample { s with capture := { s.capture with
          bodyIndent := some (s.capture.bodyIndent.getD line.indent) } } before.length
        (Text.stripRight
          (line.drop (min (s.capture.bodyIndent.getD line.indent) line.indent)))) := by
  unfold Scan.captureLine
  rw [if_neg (by simpa [endsCapture] using he)]
  split
  · next hc => simp [h.current] at hc
  · next index hc =>
    obtain rfl : index = before.length := Option.some.inj (hc.symm.trans h.current)
    split <;> rfl

theorem Abreast.captureLine (h : Abreast f p bf bp d) (he : f.endsCapture line = false) :
    (p.captureLine line).1 = (f.captureLine line).1 ∧
      (p.captureLine line).2.view = (f.captureLine line).2.view := by
  have hfence := h.focus.1
  have hcapture := h.capture
  have hpe : p.endsCapture line = false := by simpa [endsCapture, hcapture] using he
  rw [h.left.captureLine he, h.right.captureLine hpe, hcapture]
  refine ⟨rfl, ?_⟩
  dsimp only
  split
  · refine h.revise ?_ hfence hcapture
    split <;> rfl
  · exact h.revise (g := fun d => { d with examples := d.examples ++ [_] }) rfl hfence rfl

/-- A line below `runnableExamples` belongs to the block in both scans or in none. -/
theorem captured_view (hf : f.Sound) (hp : p.Sound) (h : p.view = f.view) (line : Text) :
    (p.captured line).1 = (f.captured line).1 ∧
      (p.captured line).2.view = (f.captured line).2.view := by
  have hactive : p.capture.active = f.capture.active := congrArg View.capturing h
  have hindent : p.capture.indent = f.capture.indent := congrArg View.captureIndent h
  have hfocus : p.focus = f.focus := congrArg View.focus h
  have hends : p.endsCapture line = f.endsCapture line := by simp only [endsCapture, hindent]
  simp only [captured, hactive]
  split
  · cases he : f.endsCapture line with
    | true =>
      have ended (s : Scan) (he : s.endsCapture line = true) : s.captureLine line =
          (false, { s with capture := { s.capture with active := false, bodyIndent := none } }) :=
        if_pos he
      rw [ended f he, ended p (hends.trans he)]
      refine ⟨rfl, ?_⟩
      simp only [hindent]
      exact capture_view h _
    | false =>
      cases hn : f.focus with
      | none =>
        obtain ⟨h1, h2⟩ := captureLine_hidden hn he
        obtain ⟨h3, h4⟩ := captureLine_hidden (hfocus.trans hn) (hends.trans he)
        exact ⟨h3.trans h1.symm, h4.trans (h.trans h2.symm)⟩
      | some x =>
        obtain ⟨bf, bp, d, hab⟩ := abreast hf hp h (by simp [hn])
        exact hab.captureLine he
  · exact ⟨rfl, h⟩

end Scan

end NimMarkdown
