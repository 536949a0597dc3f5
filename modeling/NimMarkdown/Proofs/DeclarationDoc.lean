import Mathlib.Data.List.Chain
import NimMarkdown.Proofs.ModuleDoc

/-!
# The comment of a declaration, with all its texts in view

The doc texts below a declaration are written to its comment at once, and an
underline changes the last line there. `commentLines` says what the comment is for
the items of the texts: the same lines as in the top matter, without the blank ones
at the start and with headings three levels deeper. `Written` is the invariant of
the scan: the comment has the items `done` and behind them the last text, if an
underline may still make a heading of it. What is still owed is the same as in the
top matter (`owed`).

The two ways of writing part at an underline below an underline: the comment would
make a heading of the heading, while the top matter has written it. And a text
that looks like a fence is no heading in a comment. Both are excluded here.
-/

namespace NimMarkdown

/-- The line of the item in the comment of a declaration. Headings nest below that of the
declaration. -/
def DocItem.nested : DocItem → Text
  | .text line => line
  | .heading level title => "###".toList ++ headingLine level title

@[simp] theorem DocItem.map_nested_text (lines : List Text) :
    lines.map (DocItem.nested ∘ DocItem.text) = lines := List.map_id lines

/-- The comment with the given items. -/
def commentLines (items : List DocItem) : List Text :=
  (items.dropWhile (·.line.isBlankText)).map DocItem.nested

theorem Line.isMainGuard_of_isDoc {line : Text} (h : isDoc line = true) :
    isMainGuard line = false := by
  have mark := Text.mem_strip (mark_mem_of_isDoc h) (by decide)
  cases hg : isMainGuard line with
  | false => rfl
  | true =>
    rw [beq_iff_eq.1 hg] at mark
    exact absurd mark (by decide)

section

variable {xs : List DocItem} {item : DocItem}

theorem commentLines_append (xs ys : List DocItem) :
    commentLines (xs ++ ys) =
      if commentLines xs = [] then commentLines ys
      else commentLines xs ++ ys.map DocItem.nested := by
  unfold commentLines
  rw [List.dropWhile_append]
  cases xs.dropWhile (·.line.isBlankText) <;> simp

theorem commentLines_concat (xs : List DocItem) (item : DocItem)
    (h : item.line.isBlankText = false) :
    commentLines (xs ++ [item]) = commentLines xs ++ [item.nested] := by
  rw [commentLines_append]
  split
  · next hx =>
    rw [hx]
    simp [commentLines, h]
  · rfl

theorem commentLines_eq_nil (h : commentLines xs = []) :
    ∀ item ∈ xs, item.line.isBlankText = true := by
  simpa [commentLines, List.map_eq_nil_iff, List.dropWhile_eq_nil_iff] using h

/-- The last item is the last line, if there is a line at all. -/
theorem commentLines_getLast? (h : commentLines (xs ++ [item]) ≠ []) :
    (commentLines (xs ++ [item])).getLast? = some item.nested := by
  cases hb : item.line.isBlankText with
  | false => simp [commentLines_concat xs item hb]
  | true =>
    rw [commentLines_append] at h ⊢
    split at h
    · simp [commentLines, hb] at h
    · next hx => simp [hx]

theorem isBlankText_headingLine {level : Nat} (h : level ≠ 0) (title : Text) :
    (headingLine level title).isBlankText = false := by
  cases level with
  | zero => exact absurd rfl h
  | succ n =>
    have mark : isBlank '#' = false := by decide
    simp [headingLine, List.replicate_succ, Text.isBlankText, mark]

theorem isBlankText_openingLine (text : Text) : (openingLine text).isBlankText = false := by
  unfold openingLine
  split <;> decide

end

namespace Scan

variable {s s' : Scan} {i : Nat} {t line : Text} {ts : List Text} {target done : List DocItem}
  {held : Option Text} {heads : List Declaration} {number : Int}

/-- Doc lines go to the comment of the declaration with index `i`; the declarations are, but for
their comments and examples, the given ones. -/
structure Commenting (s : Scan) (heads : List Declaration) (i : Nat) : Prop where
  heads_eq : s.outline.heads = heads
  inCode : s.inCode = true
  current : s.current = some i
  pending : s.pending.lines = []
  code : s.capture.active = false
  admitting : s.admitting = true
  has : s.outline.Has (.comment i)

theorem Commenting.edit (h : s.Commenting heads i) (place : Place) (f : List Text → List Text) :
    (s.edit place f).Commenting heads i :=
  { h with
    heads_eq := Outline.heads_modifyLines.trans h.heads_eq
    has := Outline.has_of_heads Outline.heads_modifyLines h.has }

theorem Commenting.fenced (h : s.Commenting heads i) (fence : Fence) :
    Commenting { s with fence } heads i :=
  { h with }

/-- A change of the comment is seen there. -/
theorem Commenting.linesAt_edit (h : s.Commenting heads i) (f : List Text → List Text) :
    (s.edit (.comment i) f).outline.linesAt (.comment i) = f (s.outline.linesAt (.comment i)) := by
  rw [Scan.edit, Outline.linesAt_modifyLines h.has, if_pos rfl]

/-- The comment has the items `done`, and behind them the text `held` that an underline may make
a heading of. With the texts to come it will have the items `target`. -/
structure Written (target : List DocItem) (heads : List Declaration) (i : Nat) (s : Scan)
    (done : List DocItem) (held : Option Text) (ts : List Text) : Prop where
  commenting : s.Commenting heads i
  lines : s.outline.linesAt (.comment i) = commentLines (done ++ held.toList.map .text)
  owes : done ++ owed s.fence held ts = target
  text : ∀ t, held = some t → Line.isCodeBlock t = false ∧ isFenceLine t = false
  opened : s.fence.isOpen = true → held = none ∧ commentLines done ≠ []
  /-- No underline comes to a line that is not held back, but is no fence either. -/
  settled : s.fence.isOpen = false → held = none → ∀ u ∈ ts.head?, Line.underlineLevel u ≠ 0 →
    ∀ last ∈ (s.outline.linesAt (.comment i)).getLast?,
      last.isBlankText = true ∨ isFenceLine last = true

/-- What a doc text does outside of code blocks. -/
def noteText (s : Scan) (i : Nat) (text : Text) : Scan :=
  if Line.isCodeBlock text then s.openFence (.comment i) text else s.docTextAt (.comment i) text

theorem Written.directive (h : Written target heads i s done held (t :: ts))
    (closed : s.fence.isOpen = false) (hd : Line.isCodeBlock t = true) :
    Written target heads i (s.openFence (.comment i) t)
      (done ++ held.toList.map .text ++ [.text (openingLine t)]) none ts := by
  have solid := isBlankText_openingLine t
  have lines : commentLines (done ++ held.toList.map .text ++ [.text (openingLine t)]) =
      commentLines (done ++ held.toList.map .text) ++ [openingLine t] :=
    commentLines_concat _ (.text (openingLine t)) solid
  rw [openFence_eq]
  refine ⟨(h.commenting.edit _ _).fenced _, ?_, ?_, nofun, fun _ => ⟨rfl, ?_⟩, nofun⟩
  · refine (h.commenting.linesAt_edit _).trans ?_
    rw [h.lines, Option.toList_none, List.map_nil, List.append_nil, lines]
    rfl
  · have owes := h.owes
    rw [owed_closed closed, docItems_held_directive (fun t ht => (h.text t ht).1) hd (.comment i)]
      at owes
    simpa using owes
  · rw [lines]
    exact List.concat_ne_nil _ _

/-- A text is written behind the one that was held back. -/
theorem Written.append (h : Written target heads i s done held (t :: ts))
    (closed : s.fence.isOpen = false) (hd : Line.isCodeBlock t = false)
    (plain : isFenceLine t = false)
    (below : Line.underlineLevel t ≠ 0 → ∀ above, held = some above → above.isBlankText = true)
    (hc : s'.Commenting heads i) (hf : s'.fence = s.fence)
    (lines : s'.outline.linesAt (.comment i) =
      commentLines (done ++ held.toList.map .text ++ [.text t])) :
    Written target heads i s' (done ++ held.toList.map .text) (some t) ts := by
  refine ⟨hc, lines, ?_, ?_, ?_, nofun⟩
  · have owes := h.owes
    rw [owed_closed closed, docItems_held (fun t ht => (h.text t ht).1) (by simpa using below)]
      at owes
    rw [hf, owed_closed closed]
    simpa using owes
  · intro t' ht
    cases ht
    exact ⟨hd, plain⟩
  · intro ho
    rw [hf, closed] at ho
    cases ho

/-- The last line of the comment is the text that is held back, if it is not left out. -/
theorem Written.last_eq (h : Written target heads i s done (some t) ts) {last : Text}
    (hl : (s.outline.linesAt (.comment i)).getLast? = some last) : last = t := by
  rw [h.lines, Option.toList_some, List.map_singleton] at hl
  have filled : commentLines (done ++ [.text t]) ≠ [] := by
    intro hn
    simp [hn] at hl
  rw [commentLines_getLast? filled] at hl
  exact (Option.some.inj hl).symm

/-- A text is written to an empty comment, unless it is blank. -/
theorem Written.first (h : Written target heads i s done held (t :: ts))
    (closed : s.fence.isOpen = false) (hd : Line.isCodeBlock t = false)
    (plain : isFenceLine t = false) (hl : s.outline.linesAt (.comment i) = []) :
    Written target heads i (if t.isBlankText then s else s.appendLine (.comment i) t)
      (done ++ held.toList.map .text) (some t) ts := by
  have empty : commentLines (done ++ held.toList.map .text) = [] := h.lines ▸ hl
  have below : Line.underlineLevel t ≠ 0 →
      ∀ above, held = some above → above.isBlankText = true := by
    rintro - above rfl
    exact commentLines_eq_nil empty (.text above) (by simp)
  have lines : commentLines (done ++ held.toList.map .text ++ [.text t]) =
      if t.isBlankText then [] else [t] := by
    rw [commentLines_append, if_pos empty]
    cases hb : t.isBlankText <;> simp [commentLines, DocItem.line, hb, DocItem.nested]
  split
  · next hb => exact h.append closed hd plain below h.commenting rfl (by rw [lines, if_pos hb, hl])
  · next hb =>
    refine h.append closed hd plain below (h.commenting.edit _ (· ++ [t])) rfl ?_
    rw [lines, if_neg hb]
    exact (h.commenting.linesAt_edit (· ++ [t])).trans (by rw [hl]; rfl)

/-- An underline makes a heading of the text that is held back. -/
theorem Written.heading (h : Written target heads i s done held (t :: ts))
    (closed : s.fence.isOpen = false) (hu : Line.underlineLevel t ≠ 0) {last : Text}
    (hl : (s.outline.linesAt (.comment i)).getLast? = some last)
    (hb : last.isBlankText = false) (hf : isFenceLine last = false)
    (apart : ∀ u ∈ ts.head?, Line.underlineLevel u = 0) :
    Written target heads i
      (s.edit (.comment i) (·.dropLast ++ [headingLine (Line.underlineLevel t + 3) last]))
      (done ++ [.heading (Line.underlineLevel t) last]) none ts := by
  obtain rfl : held = some last := by
    cases held with
    | none =>
      rcases h.settled closed rfl t rfl hu last hl with hb' | hf'
      · rw [hb] at hb'
        cases hb'
      · rw [hf] at hf'
        cases hf'
    | some above => rw [h.last_eq hl]
  refine ⟨h.commenting.edit _ _, ?_, ?_, nofun, ?_, ?_⟩
  · refine (h.commenting.linesAt_edit _).trans ?_
    have before : commentLines (done ++ [.text last]) = commentLines done ++ [last] :=
      commentLines_concat done (.text last) hb
    have solid := isBlankText_headingLine hu last
    rw [h.lines, Option.toList_some, List.map_singleton, before, List.dropLast_concat,
      Option.toList_none, List.map_nil, List.append_nil,
      commentLines_concat done (.heading (Line.underlineLevel t) last) solid]
    rfl
  · have owes := h.owes
    rw [owed_closed closed, Option.toList_some, List.singleton_append,
      docItems_heading (h.text last rfl).1 hu hb] at owes
    show _ ++ owed s.fence none ts = target
    rw [owed_closed closed]
    simpa using owes
  · intro ho
    rw [show s.fence.isOpen = true from ho] at closed
    cases closed
  · intro _ _ u hu' hl'
    exact absurd (apart u hu') hl'

/-- A text outside of code blocks is written as it should be. -/
theorem Written.noteText (h : Written target heads i s done held (t :: ts))
    (closed : s.fence.isOpen = false) (plain : isFenceLine t = false)
    (apart : Line.underlineLevel t ≠ 0 → ∀ u ∈ ts.head?, Line.underlineLevel u = 0) :
    ∃ done held, Written target heads i (s.noteText i t) done held ts := by
  unfold Scan.noteText
  split
  · next hd => exact ⟨_, _, h.directive closed hd⟩
  · next hd =>
    have hd : Line.isCodeBlock t = false := by simpa using hd
    simp only [docTextAt]
    split
    · next hl => exact ⟨_, _, h.first closed hd plain (List.getLast?_eq_none_iff.1 hl)⟩
    · next last hl =>
      split
      · next hu =>
        simp only [Bool.and_eq_true, bne_iff_ne, ne_eq, Bool.not_eq_true'] at hu
        obtain ⟨⟨hu, hb⟩, hf⟩ := hu
        exact ⟨_, _, h.heading closed hu hl hb hf (apart hu)⟩
      · next hu =>
        refine ⟨_, _, h.append closed hd plain ?_ (h.commenting.edit _ (· ++ [t])) rfl ?_⟩
        · rintro hlevel above rfl
          obtain rfl := h.last_eq hl
          have hf := (h.text last rfl).2
          simpa [hlevel, show Text.startsWith fenceMark last = false from hf] using hu
        · refine (h.commenting.linesAt_edit (· ++ [t])).trans ?_
          have filled : commentLines (done ++ held.toList.map .text) ≠ [] := by
            rw [← h.lines]
            intro hn
            simp [hn] at hl
          rw [commentLines_append, if_neg filled, h.lines]
          rfl

/-- An open code block writes what it owes. -/
theorem Written.fed (h : Written target heads i s done held (t :: ts)) (hs : s.Sound)
    (ho : s.fence.isOpen = true) :
    ∃ taken s1 done1, s.feedFence t = .ok (taken, s1) ∧ s1.fence.isOpen = taken ∧
      Written target heads i s1 done1 none (if taken then ts else t :: ts) := by
  obtain ⟨rfl, filled⟩ := h.opened ho
  have place : s.fence.place = some (.comment i) := by
    obtain ⟨-, -, -, -, hp⟩ := hs.fence_open ho
    rw [hp, docPlace, h.commenting.inCode, h.commenting.current]
    rfl
  obtain ⟨taken, written, fence, he, hf, hend, hr⟩ := answersFenced hs.fence ho place t
  have lines : commentLines (done ++ written.map .text) = commentLines done ++ written := by
    rw [commentLines_append, if_neg filled, List.map_map, DocItem.map_nested_text]
  have before : s.outline.linesAt (.comment i) = commentLines done := by
    simpa using h.lines
  have after : (s.edit (.comment i) (· ++ written)).outline.linesAt (.comment i) =
      commentLines done ++ written := by
    rw [h.commenting.linesAt_edit, before]
  refine ⟨taken, _, done ++ written.map .text, he, hf, (h.commenting.edit _ _).fenced fence, ?_, ?_,
    fun u hu => absurd hu.symm (Option.some_ne_none u), fun _ => ⟨rfl, ?_⟩, ?_⟩
  · simpa [lines] using after
  · rw [List.append_assoc, ← hr]
    exact h.owes
  · rw [lines]
    exact List.append_ne_nil_of_left_ne_nil filled _
  · intro closed _ u _ _ last hl
    -- The block has just ended, with a fence and maybe a blank line.
    have ends := hend (hf.symm.trans closed)
    have hl : (commentLines done ++ written).getLast? = some last := after ▸ hl
    rcases ends with rfl | rfl
    · simp only [List.getLast?_append, List.getLast?_singleton, Option.some_or,
        Option.some.injEq] at hl
      exact .inr (hl ▸ isFenceLine_mark)
    · simp at hl
      exact .inl (hl ▸ rfl)

/-! ## Lines of the comment -/

theorem bodyLine_doc (h : s.Commenting heads i) (hd : Line.isDoc line = true)
    (todo : Line.isTodo (Line.docText line) = false) :
    s.bodyLine number line = s.noteText i (Line.docText line) := by
  have solid := Line.isBlankText_of_mark (Line.mark_mem_of_isDoc hd)
  have margin : s.atMargin line = s := by
    have := h.admitting
    unfold atMargin
    split
    · rw [← this]
    · rfl
  have flushed : s.flushPending = s := by simp only [flushPending, h.pending]
  rw [bodyLine_eq, solid, if_neg Bool.false_ne_true, margin, textLine, if_pos hd, docLine_eq, todo,
    if_neg Bool.false_ne_true, flushed, takeDoc, if_pos h.admitting]
  simp only [commentPlace, h.current, noteText]

/-- A doc line below the declaration is written as it should be. -/
theorem Written.docLine (h : Written target heads i s done held (Line.docText line :: ts))
    (hs : s.Sound) (hd : Line.isDoc line = true) (todo : Line.isTodo (Line.docText line) = false)
    (plain : isFenceLine (Line.docText line) = false)
    (apart : Line.underlineLevel (Line.docText line) ≠ 0 →
      ∀ u ∈ ts.head?, Line.underlineLevel u = 0) (number : Int) :
    ∃ s' done held, s.line number line = .ok s' ∧ Written target heads i s' done held ts := by
  have read : s.line number line = s.plainLine number line := by
    have captured : s.captured line = (false, s) := by
      rw [Scan.captured, if_neg (by simp [h.commenting.code])]
    rw [Scan.line, if_neg (by simp [Line.isMainGuard_of_isDoc hd]), if_pos h.commenting.inCode,
      codeLine_eq, captured]
    rfl
  rw [read]
  cases ho : s.fence.isOpen with
  | false =>
    have refused : s.fencedLine line = .ok (false, s) := by
      rw [fencedLine, if_neg (by simp [ho])]
    obtain ⟨done', held', h'⟩ := h.noteText ho plain apart
    refine ⟨_, done', held', plainLine_of_refused refused, ?_⟩
    rwa [bodyLine_doc h.commenting hd todo]
  | true =>
    obtain ⟨taken, s1, done1, he, hf, h1⟩ := h.fed hs ho
    cases taken with
    | true =>
      refine ⟨s1, done1, none, plainLine_of_taken ?_, h1⟩
      rw [fencedLine, if_pos ho, if_pos hd, he]
      rfl
    | false =>
      have refused : s.fencedLine line = .ok (false, s1) := by
        rw [fencedLine, if_pos ho, if_pos hd, he, ← closeFence_of_closed hf]
        simp [bind, Except.bind, pure, Except.pure, closeFence_of_closed hf]
      obtain ⟨done', held', h'⟩ := h1.noteText hf plain apart
      refine ⟨_, done', held', plainLine_of_refused refused, ?_⟩
      rwa [bodyLine_doc h1.commenting hd todo]

/-- Doc lines below the declaration are written as they should be. -/
theorem Written.docLines (ls : List Text)
    (h : Written target heads i s done held (ls.map Line.docText)) (hs : s.Sound)
    (doc : ∀ line ∈ ls, Line.isDoc line = true)
    (todo : ∀ t ∈ ls.map Line.docText, Line.isTodo t = false)
    (plain : ∀ t ∈ ls.map Line.docText, isFenceLine t = false)
    (apart : (ls.map Line.docText).IsChain fun t u =>
      Line.underlineLevel t ≠ 0 → Line.underlineLevel u = 0) {n : Nat} (hn : 1 ≤ n) :
    ∃ s' done held, s.lines n ls = .ok s' ∧ s'.Sound ∧ Written target heads i s' done held [] := by
  induction ls generalizing s done held n with
  | nil => exact ⟨s, done, held, rfl, hs, h⟩
  | cons line rest ih =>
    have hn' : (1 : Int) ≤ n := by omega
    simp only [List.map_cons, List.forall_mem_cons] at doc todo plain
    rw [List.map_cons, List.isChain_cons] at apart
    obtain ⟨s1, done1, held1, he, h1⟩ :=
      h.docLine hs doc.1 todo.1 plain.1 (fun hu u hm => apart.1 u hm hu) n
    obtain ⟨s1', he', hm⟩ := line_moves hs hn' line
    obtain rfl := Except.ok.inj (he.symm.trans he')
    obtain ⟨s2, done2, held2, he2, h2⟩ :=
      ih h1 (hm.sound hn' hs) doc.2 todo.2 plain.2 apart.2 (Nat.le_succ_of_le hn)
    exact ⟨s2, done2, held2, by simp only [Scan.lines, he, he2], h2⟩

theorem Written.closeFence (h : Written target heads i s done held []) (hs : s.Sound) :
    s.closeFence.Commenting heads i ∧
      s.closeFence.outline.linesAt (.comment i) = commentLines target := by
  have owes := h.owes
  rcases hs.closeFence_cases with ⟨closed, he⟩ | ⟨place, ho, hp, at_, he⟩ <;> rw [he]
  · refine ⟨h.commenting, ?_⟩
    rw [owed_closed closed, List.append_nil, docItems_held_end fun t ht => (h.text t ht).1] at owes
    rw [h.lines, owes]
  · obtain rfl : place = .comment i := by
      simpa [docPlace, h.commenting.inCode, h.commenting.current] using at_.symm
    obtain ⟨rfl, filled⟩ := h.opened ho
    refine ⟨(h.commenting.edit _ _).fenced {}, (h.commenting.linesAt_edit _).trans ?_⟩
    rw [owed_open ho, Fence.rest_nil hs.fence ho, docItems, List.append_nil] at owes
    rw [← owes, commentLines_append, if_neg filled, List.map_map, DocItem.map_nested_text, h.lines]
    simp

/-- At the end of the source the comment is complete. -/
theorem Written.finish (h : Written target heads i s done held []) (hs : s.Sound) :
    s.finish.outline.linesAt (.comment i) = commentLines target ∧
      s.finish.outline.heads = heads := by
  obtain ⟨hc, hl⟩ := h.closeFence hs
  have ended : s.finish = s.closeFence.endDeclaration := by
    simp only [Scan.finish, h.commenting.inCode, if_true, flushPending, hc.pending]
  rw [ended]
  exact ⟨hl, hc.heads_eq⟩

end Scan

end NimMarkdown
