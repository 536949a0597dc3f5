import NimMarkdown.Proofs.Steps
import NimMarkdown.Source

/-!
# Runs of a scan

A run takes a scan through all lines of a source. `lines_keep` is the induction
over a run: what every move keeps holds at its end. `states_keep` says the same
of every state on the way. From them, every state on the way of a scan is sound
(`Reached.sound` says it of a single one), no step of a scan ever fails, and a
source has an outline and a document unless its settings are not valid.
-/

namespace NimMarkdown

namespace Scan

variable {s s' : Scan} {line : Text} {number : Int} {P : Scan → Prop}

theorem Moves.keep (hn : 1 ≤ number)
    (step : ∀ s s', s.Sound → P s → Move number line s s' → P s') (hs : s.Sound) (hP : P s)
    (h : Moves number line s s') : P s' := by
  induction h with
  | refl => exact hP
  | tail hm h ih => exact step _ _ (Moves.sound hn hs hm) ih h

/-- A line keeps what all its moves keep. -/
theorem line_keep (hn : 1 ≤ number)
    (step : ∀ s s', s.Sound → P s → Move number line s s' → P s') (hs : s.Sound) (hP : P s) :
    ∃ s', s.line number line = .ok s' ∧ s'.Sound ∧ P s' := by
  obtain ⟨s', he, hm⟩ := line_moves hs hn line
  exact ⟨s', he, hm.sound hn hs, hm.keep hn step hs hP⟩

theorem finish_keep (step : ∀ s s', s.Sound → P s → Move 1 [] s s' → P s') (hs : s.Sound)
    (hP : P s) : s.finish.Sound ∧ P s.finish :=
  ⟨(finish_moves hs).sound (by decide) hs, (finish_moves hs).keep (by decide) step hs hP⟩

theorem lines_cons {n : Nat} (he : s.line n line = .ok s') (rest : List Text) :
    s.lines n (line :: rest) = s'.lines (n + 1) rest := by
  simp only [lines, he]

theorem states_cons {n : Nat} (he : s.line n line = .ok s') (rest : List Text) :
    s.states n (line :: rest) = (s'.states (n + 1) rest).map (s :: ·) := by
  simp only [Scan.states, he]

/-- A run keeps what the moves of its lines keep. -/
theorem lines_keep (ls : List Text)
    (step : ∀ n line, 1 ≤ n → line ∈ ls → ∀ s s', s.Sound → P s → Move n line s s' → P s')
    (n : Nat) (hn : 1 ≤ n) (hs : s.Sound) (hP : P s) :
    ∃ s', s.lines n ls = .ok s' ∧ s'.Sound ∧ P s' := by
  induction ls generalizing s n with
  | nil => exact ⟨s, rfl, hs, hP⟩
  | cons line rest ih =>
    have hn' : (1 : Int) ≤ n := by omega
    obtain ⟨s1, he, hs1, hP1⟩ := line_keep hn' (step n line hn' List.mem_cons_self) hs hP
    obtain ⟨s2, he2, h2⟩ := ih (fun m l hm hl => step m l hm (List.mem_cons_of_mem _ hl)) (n + 1)
      (by omega) hs1 hP1
    exact ⟨s2, (lines_cons he rest).trans he2, h2⟩

/-- Every state of a run has what the moves of its lines and of its end keep. The last of
them is the end of the run. -/
theorem states_keep (ls : List Text)
    (step : ∀ n line, 1 ≤ n → line ∈ ls ∨ line = [] →
      ∀ s s', s.Sound → P s → Move n line s s' → P s')
    (n : Nat) (hn : 1 ≤ n) (hs : s.Sound) (hP : P s) :
    ∃ states final, s.states n ls = .ok states ∧ (s.lines n ls).map finish = .ok final ∧
      states.getLast? = some final ∧ states.length = ls.length + 1 ∧
      ∀ t ∈ states, t.Sound ∧ P t := by
  induction ls generalizing s n with
  | nil =>
    refine ⟨[s.finish], s.finish, rfl, rfl, rfl, rfl, fun t ht => ?_⟩
    rw [List.mem_singleton.1 ht]
    exact finish_keep (step 1 [] (by decide) (.inr rfl)) hs hP
  | cons line rest ih =>
    have hn' : (1 : Int) ≤ n := by omega
    obtain ⟨s1, he, hs1, hP1⟩ := line_keep hn' (step n line hn' (.inl List.mem_cons_self)) hs hP
    obtain ⟨states, final, hst, hfin, hlast, hlen, hall⟩ :=
      ih (fun m l hm hl => step m l hm (hl.imp_left (List.mem_cons_of_mem _))) (n + 1) (by omega)
        hs1 hP1
    refine ⟨s :: states, final, ?_, ?_, ?_, ?_, ?_⟩
    · rw [states_cons he, hst]
      rfl
    · rw [lines_cons he, hfin]
    · rw [List.getLast?_cons, hlast]
      rfl
    · simp [hlen]
    · intro t ht
      rcases List.mem_cons.1 ht with rfl | ht
      · exact ⟨hs, hP⟩
      · exact hall t ht

/-- The current declaration is the latest one of its category. -/
theorem Sound.current_latest (hs : s.Sound) {i : Nat} (h : s.current = some i) :
    ∃ d, s.outline.declarations[i]? = some d ∧ d.heading.isSome = true ∧
      (s.outline.ofCategory d.category).getLast? = some d ∧ s.lastCategory = some d.category := by
  obtain ⟨before, d, hb, rfl, hh⟩ := hs.current_concat h
  refine ⟨d, by simp [hb], hh, ?_, ?_⟩
  · simp [Outline.ofCategory, hb, List.filter_append]
  · simp [hs.lastCategory, hb]

/-- **Every state of a scan is sound**, before each line and at the end; its current
declaration, if there is one, is the latest of its category. -/
theorem states_sound (options : Options) (content : Text) :
    ∃ states final, sourceStates (options.on .exportedOnly) content = .ok states ∧
      Source.scan options content = .ok final ∧ states.getLast? = some final ∧
      states.length = (sourceLines content).length + 1 ∧
      ∀ s ∈ states, s.Sound ∧ ∀ i, s.current = some i →
        ∃ d, s.outline.declarations[i]? = some d ∧ d.heading.isSome = true ∧
          (s.outline.ofCategory d.category).getLast? = some d ∧
          s.lastCategory = some d.category := by
  obtain ⟨states, final, hst, hfin, hlast, hlen, hall⟩ :=
    states_keep (P := fun _ => True) (sourceLines content) (fun _ _ _ _ _ _ _ _ _ => trivial) 1
      (Nat.le_refl 1) (fresh_sound (options.on .exportedOnly)) trivial
  refine ⟨states, final, hst, ?_, hlast, hlen, fun s hm => ?_⟩
  · simp only [Source.scan, source, hfin]
    rfl
  · have hs := (hall s hm).1
    exact ⟨hs, fun i hi => hs.current_latest hi⟩

/-- A run over any lines comes to its end. -/
theorem lines_ok (exportedOnly : Bool) (ls : List Text) :
    ∃ s, (fresh exportedOnly).lines 1 ls = .ok s ∧ s.Sound := by
  obtain ⟨s, he, hs, -⟩ := lines_keep (P := fun _ => True) ls (fun _ _ _ _ _ _ _ _ _ => trivial) 1
    (Nat.le_refl 1) (fresh_sound exportedOnly) trivial
  exact ⟨s, he, hs⟩

theorem lines_append (n : Nat) (ls ls' : List Text) :
    s.lines n (ls ++ ls') = (s.lines n ls).bind fun t => t.lines (n + ls.length) ls' := by
  induction ls generalizing s n with
  | nil => rfl
  | cons line rest ih =>
    simp only [List.cons_append, lines]
    split
    · rw [ih, List.length_cons, Nat.add_right_comm, Nat.add_assoc]
    · rfl

/-- The states of a scan: those between two lines, and the one where the code begins at a
line. -/
inductive Reached : Scan → Prop where
  | between {exportedOnly : Bool} {ls : List Text} {s : Scan}
      (read : (fresh exportedOnly).lines 1 ls = .ok s) : Reached s
  | atCode {exportedOnly : Bool} {ls : List Text} {s t : Scan} {line : Text}
      (read : (fresh exportedOnly).lines 1 ls = .ok s) (top : s.inCode = false)
      (refused : s.takeTop line = .ok (false, t)) : Reached (t.enterCode (ls.length + 1))

theorem Reached.sound (h : s.Reached) : s.Sound := by
  cases h with
  | @between exportedOnly ls _ read =>
    obtain ⟨t, ht, hs⟩ := lines_ok exportedOnly ls
    exact Except.ok.inj (ht.symm.trans read) ▸ hs
  | @atCode exportedOnly ls s t line read top refused =>
    obtain ⟨s', hs', hs⟩ := lines_ok exportedOnly ls
    obtain rfl := Except.ok.inj (hs'.symm.trans read)
    obtain rfl := takeTop_refused refused
    have begun : Sound { s' with docSeen := true } := { hs with }
    exact (enterCode_moves begun top _ line).sound (by omega) begun

/-- A scan has come to the state `s` behind some lines. -/
def HasRead (exportedOnly : Bool) (ls : List Text) (s : Scan) : Prop :=
  (fresh exportedOnly).lines 1 ls = .ok s

section

variable {exportedOnly : Bool} {ls : List Text}

theorem HasRead.sound (h : HasRead exportedOnly ls s) : s.Sound := (Reached.between h).sound

theorem HasRead.unique (h : HasRead exportedOnly ls s) (h' : HasRead exportedOnly ls s') :
    s' = s :=
  Except.ok.inj (h'.symm.trans h)

theorem HasRead.concat (h : HasRead exportedOnly ls s) (line : Text) :
    HasRead exportedOnly (ls ++ [line]) s' ↔ s.line (ls.length + 1 : Nat) line = .ok s' := by
  unfold HasRead at h ⊢
  rw [lines_append, h, Nat.add_comm 1]
  simp only [Except.bind, lines]
  split
  · next he => rw [he]
  · next he => rw [he]

end

theorem source_of_lines {exportedOnly : Bool} {content : Text}
    (h : (fresh exportedOnly).lines 1 (sourceLines content) = .ok s) :
    source exportedOnly content = .ok s.finish := by
  rw [source, h]
  rfl

end Scan

namespace Source

theorem scan_ok (options : Options) (content : Text) : ∃ s, scan options content = .ok s := by
  obtain ⟨s, he, -⟩ := Scan.lines_ok (options.on .exportedOnly) (Scan.sourceLines content)
  exact ⟨s.finish, by simp only [scan, Scan.source, he]; rfl⟩

theorem outline_of_valid {settings : Settings} {options : Options}
    (h : settings.validate = .ok options) (content : Text) :
    ∃ s, scan options content = .ok s ∧ outline settings content = .ok s.outline := by
  obtain ⟨s, hs⟩ := scan_ok options content
  refine ⟨s, hs, ?_⟩
  simp only [outline, h]
  show (scan options content >>= fun s => pure s.outline) = .ok s.outline
  rw [hs]
  rfl

theorem outline_of_source {settings : Settings} {options : Options}
    (valid : settings.validate = .ok options) {content : Text} {s : Scan}
    (h : Scan.source (options.on .exportedOnly) content = .ok s) :
    outline settings content = .ok s.outline := by
  obtain ⟨t, ht, ho⟩ := outline_of_valid valid content
  have hs : scan options content = .ok s := by
    rw [scan, h]
    rfl
  rw [ho, Except.ok.inj (ht.symm.trans hs)]

theorem outline_of_invalid {settings : Settings} {e : SettingsError}
    (h : settings.validate = .error e) (content : Text) :
    outline settings content = .error (.settings e) := by
  simp only [outline, h]
  rfl

theorem document_of_valid {settings : Settings} {options : Options}
    (h : settings.validate = .ok options) {content : Text} {o : Outline}
    (ho : outline settings content = .ok o) :
    document settings content = .ok (o.render options.on) := by
  simp only [document, ho, render, h]
  rfl

theorem document_of_invalid {settings : Settings} {e : SettingsError}
    (h : settings.validate = .error e) (content : Text) :
    document settings content = .error (.settings e) := by
  simp only [document, outline_of_invalid h]
  rfl

/-- **Only settings fail.** A source text has an outline and a document unless the
settings are not valid, and then the error is theirs; whatever its lines are, no step of
a scan fails. -/
theorem error_iff_settings_error (settings : Settings) (content : Text) :
    (∀ e, outline settings content = .error e ↔
      ∃ error, settings.validate = .error error ∧ e = .settings error) ∧
    (∀ e, document settings content = .error e ↔
      ∃ error, settings.validate = .error error ∧ e = .settings error) ∧
    ∀ exportedOnly ls, ∃ s, (Scan.fresh exportedOnly).lines 1 ls = .ok s := by
  refine ⟨?_, ?_, fun b ls => (Scan.lines_ok b ls).imp fun _ h => h.1⟩
  · intro e
    cases h : settings.validate with
    | error error => simp [outline_of_invalid h, eq_comm]
    | ok options =>
      obtain ⟨s, -, ho⟩ := outline_of_valid h content
      simp [ho]
  · intro e
    cases h : settings.validate with
    | error error => simp [document_of_invalid h, eq_comm]
    | ok options =>
      obtain ⟨s, -, ho⟩ := outline_of_valid h content
      simp [document_of_valid h ho]

end Source

end NimMarkdown
