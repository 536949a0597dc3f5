import NimMarkdown.Proofs.Walks

/-!
# Walks in a changed tree

A node that is put at a location is found there, and what stands elsewhere stays
(`get?_put`); a node that was put where nothing stood is taken away without a trace
(`erase_put`).

A walk that ends at a directory goes through directories and links only. So it
does not matter to it what stands at a location where there is nothing or a file
(`walk_of_agree`), and a longer walk can be taken up where it ends
(`walk_append`). Both follow from what one name of a walk can do (`walkNames_cons`).
-/

namespace NimMarkdown.FileTree

variable {t t' : FileTree} {follow : Bool} {here loc d : Location} {name : Text} {node : Node}
  {onLink onLink' : Location → List Text → Except Errno (Location × Node)}

/-! ## What stands at a location -/

theorem lookup_filter_ne {α : Type} (entries : List (Location × α)) (l : Location) :
    (entries.filter fun entry => entry.1 != loc).lookup l =
      if l = loc then none else entries.lookup l := by
  induction entries with
  | nil => simp
  | cons entry entries ih =>
    obtain ⟨key, a⟩ := entry
    by_cases hk : key = loc
    · subst hk
      rw [List.filter_cons_of_neg (by simp), ih, List.lookup_cons]
      split
      · rfl
      · next hl => rw [beq_eq_false_iff_ne.2 hl]
    · rw [List.filter_cons_of_pos (by simpa using hk), List.lookup_cons, List.lookup_cons, ih]
      split
      · next he =>
        have he : l = key := by simpa using he
        rw [if_neg (he ▸ hk)]
      · rfl

theorem get?_erase (h : loc ≠ []) (t : FileTree) (l : Location) :
    (t.erase loc).get? l = if l = loc then none else t.get? l := by
  unfold get? erase
  split
  · next he => rw [if_neg (by rw [List.isEmpty_iff.1 he]; exact Ne.symm h)]
  · exact lookup_filter_ne t.entries l

theorem get?_put (h : loc ≠ []) (t : FileTree) (node : Node) (l : Location) :
    (t.put loc node).get? l = if l = loc then some node else t.get? l := by
  have erased := get?_erase h t l
  unfold get? put at *
  split
  · next he => rw [if_neg (by rw [List.isEmpty_iff.1 he]; exact Ne.symm h)]
  · next he =>
    rw [if_neg he, if_neg he] at erased
    rw [List.lookup_append, erased]
    split
    · next hl => simp [hl]
    · next hl => simp [List.lookup_cons, beq_eq_false_iff_ne.2 hl]

theorem get?_putNew (h : loc ≠ []) (t : FileTree) (mode : Nat) (bytes : List Byte)
    (unreadable : Option Errno) (l : Location) :
    (t.putNew loc mode bytes unreadable).get? l =
      if l = loc then some (.file mode bytes) else t.get? l :=
  get?_put h t (.file mode bytes) l

theorem lookup_putNew (t : FileTree) (mode : Nat) (bytes : List Byte) (unreadable : Option Errno)
    (l : Location) : (t.putNew loc mode bytes unreadable).unreadable.lookup l =
      if l = loc then unreadable else t.unreadable.lookup l := by
  unfold putNew
  dsimp only
  rw [List.lookup_append, lookup_filter_ne]
  split
  · next hl =>
    subst hl
    cases unreadable <;> simp
  · next hl => cases unreadable <;> simp [List.lookup_cons, beq_eq_false_iff_ne.2 hl]

/-- The trees are the same but for what stands at the location, and whether it may be read. -/
structure AgreeOff (t t' : FileTree) (loc : Location) : Prop where
  get : ∀ l, l ≠ loc → t'.get? l = t.get? l
  unreadable : ∀ l, l ≠ loc → t'.unreadable.lookup l = t.unreadable.lookup l
  closed : t'.closed = t.closed
  fixed : t'.fixed = t.fixed

theorem AgreeOff.symm (h : t.AgreeOff t' loc) : t'.AgreeOff t loc :=
  ⟨fun l hl => (h.get l hl).symm, fun l hl => (h.unreadable l hl).symm, h.closed.symm, h.fixed.symm⟩

theorem AgreeOff.fixed? (h : t.AgreeOff t' loc) (l : Location) : t'.fixed? l = t.fixed? l := by
  rw [FileTree.fixed?, FileTree.fixed?, h.fixed]

theorem agreeOff_put (h : loc ≠ []) (t : FileTree) (node : Node) :
    t.AgreeOff (t.put loc node) loc where
  get l hl := by rw [get?_put h, if_neg hl]
  unreadable _ _ := rfl
  closed := rfl
  fixed := rfl

theorem ne_nil_of_free (free : t.get? loc = none) : loc ≠ [] := by
  rintro rfl
  cases free

theorem ne_of_free (free : t.get? loc = none) : ∀ entry ∈ t.entries, entry.1 ≠ loc := by
  have root := ne_nil_of_free free
  rw [get?, if_neg (by simpa using root)] at free
  intro entry hm he
  simpa [he] using List.lookup_eq_none_iff.1 free entry hm

/-- Where nothing stands there is nothing to erase. -/
theorem filter_of_free (free : t.get? loc = none) :
    t.entries.filter (fun entry => entry.1 != loc) = t.entries :=
  List.filter_eq_self.2 fun entry hm => by simpa using ne_of_free free entry hm

/-- What was put where nothing stood is taken away without a trace. -/
theorem erase_put (free : t.get? loc = none) (node : Node) : (t.put loc node).erase loc = t := by
  simp [put, erase, List.filter_append, filter_of_free free]

/-- What is put twice is there once. -/
theorem put_put (free : t.get? loc = none) (node node' : Node) :
    (t.put loc node).put loc node' = t.put loc node' := by
  simp [put, erase, List.filter_append, filter_of_free free]

/-! ## Links at the end of a walk -/

theorem walkNames_follow (link : node.isLink = false)
    (links : ∀ here names, onLink here names = .ok (loc, node) →
      onLink' here names = .ok (loc, node)) {names : List Text}
    (h : walkNames t false onLink here names = .ok (loc, node)) :
    walkNames t true onLink' here names = .ok (loc, node) := by
  induction names generalizing here with
  | nil => exact h
  | cons name rest ih =>
    rw [walkNames_cons] at h ⊢
    cases hs : t.stride here name with
    | error e =>
      rw [hs] at h
      cases h
    | ok stride =>
      rw [hs] at h
      cases stride with
      | place l => exact ih h
      | link target =>
        dsimp only at h ⊢
        split at h
        · exact links _ _ h
        · cases h
          cases link

/-- A walk that ends at no link does not ask whether to follow one at its end. -/
theorem walk_follow {links : Nat} {names : List Text}
    (h : walk t false links here names = .ok (loc, node)) (link : node.isLink = false) :
    walk t true links here names = .ok (loc, node) := by
  induction links generalizing here names with
  | zero => exact walkNames_follow link (fun _ _ h => h) h
  | succ links ih => exact walkNames_follow link (fun _ _ h => ih h) h

theorem find_follow {p : Path} (h : t.find false here p = .ok (loc, node))
    (link : node.isLink = false) : t.find true here p = .ok (loc, node) := by
  obtain ⟨null, short⟩ := accepted_of_find h
  rw [find_eq_walk null short] at h ⊢
  cases hw : t.walk false maxLinks (base here p) p.steps with
  | error e =>
    rw [hw] at h
    cases h
  | ok found =>
    rw [hw] at h
    cases h
    rw [walk_follow hw link]
    rfl

/-! ## Walks to a directory -/

/-- No walk to a directory passes the location. -/
def Blocked (t : FileTree) (loc : Location) : Prop :=
  t.get? loc = none ∨ ∃ mode bytes, t.get? loc = some (.file mode bytes)

theorem Blocked.not_directory (h : t.Blocked loc) : t.get? loc ≠ some .directory := by
  rcases h with h | ⟨mode, bytes, h⟩ <;> rw [h] <;> nofun

theorem Blocked.walkNames (h : t.Blocked loc) (names : List Text) :
    FileTree.walkNames t follow onLink loc names ≠ .ok (d, .directory) := by
  intro hw
  cases names with
  | nil =>
    rw [FileTree.walkNames] at hw
    rcases h with h | ⟨mode, bytes, h⟩ <;> rw [h] at hw <;> cases hw
  | cons name rest =>
    rw [walkNames_cons] at hw
    cases hs : t.stride loc name with
    | error e =>
      rw [hs] at hw
      cases hw
    | ok stride => exact h.not_directory (directory_of_stride hs)

theorem stride_of_agree {stride : Stride} (agree : t.AgreeOff t' loc)
    (blocked : t.Blocked loc) (h : t.stride here name = .ok stride) (hl : stride ≠ .place loc) :
    t'.stride here name = .ok stride := by
  have directory := directory_of_stride h
  have hh : here ≠ loc := fun he => blocked.not_directory (he ▸ directory)
  unfold FileTree.stride at h ⊢
  rw [directory] at h
  rw [agree.get here hh, directory, agree.closed]
  dsimp only at h ⊢
  split_ifs at h ⊢
  · exact h
  · exact h
  · exact h
  · by_cases hc : here ++ [name] = loc
    · rw [hc] at h
      rcases blocked with hb | ⟨mode, bytes, hb⟩ <;> rw [hb] at h
      · cases h
      · cases h
        exact (hl rfl).elim
    · rwa [agree.get _ hc]

theorem walkNames_of_agree (agree : t.AgreeOff t' loc) (blocked : t.Blocked loc)
    (links : ∀ here names, onLink here names = .ok (d, .directory) →
      onLink' here names = .ok (d, .directory)) {names : List Text}
    (h : walkNames t true onLink here names = .ok (d, .directory)) :
    walkNames t' true onLink' here names = .ok (d, .directory) := by
  induction names generalizing here with
  | nil =>
    have hh : here ≠ loc := fun he => blocked.walkNames [] (he ▸ h)
    rw [walkNames] at h ⊢
    rwa [agree.get here hh]
  | cons name rest ih =>
    rw [walkNames_cons] at h ⊢
    cases hs : t.stride here name with
    | error e =>
      rw [hs] at h
      cases h
    | ok stride =>
      rw [hs] at h
      cases stride with
      | place l =>
        have hl : Stride.place l ≠ .place loc := by
          rintro ⟨⟩
          exact blocked.walkNames rest h
        rw [stride_of_agree agree blocked hs hl]
        exact ih h
      | link target =>
        have hl : Stride.link target ≠ .place loc := by
          intro he
          cases he
        rw [stride_of_agree agree blocked hs hl]
        exact links _ _ h

/-- A walk to a directory is the same in a tree that differs where it cannot pass. -/
theorem walk_of_agree (agree : t.AgreeOff t' loc) (blocked : t.Blocked loc)
    {links : Nat} {names : List Text} (h : walk t true links here names = .ok (d, .directory)) :
    walk t' true links here names = .ok (d, .directory) := by
  induction links generalizing here names with
  | zero => exact walkNames_of_agree agree blocked (fun _ _ h => h) h
  | succ links ih => exact walkNames_of_agree agree blocked (fun _ _ h => ih h) h

/-- Behind the names the walk is at the directory, and may follow some more links. -/
def TakesUp (t : FileTree) (names : List Text) (d : Location)
    (onward : Bool → List Text → Except Errno (Location × Node)) : Prop :=
  t.get? d = some .directory ∧
    ∃ left, ∀ follow rest, rest ≠ [] → onward follow (names ++ rest) = walk t follow left d rest

theorem walkNames_append {links : Nat} {names : List Text}
    (behind : ∀ here names, afterLink t true links here names = .ok (d, .directory) →
      TakesUp t names d fun follow => afterLink t follow links here)
    (h : walk t true links here names = .ok (d, .directory)) :
    TakesUp t names d fun follow => walk t follow links here := by
  rw [walk_eq] at h
  induction names generalizing here with
  | nil =>
    rw [walkNames] at h
    split at h
    · next node hn =>
      cases h
      exact ⟨hn, links, fun _ _ _ => rfl⟩
    · cases h
  | cons name names ih =>
    rw [walkNames_cons] at h
    cases hs : t.stride here name with
    | error e =>
      rw [hs] at h
      cases h
    | ok stride =>
      rw [hs] at h
      cases stride with
      | place l =>
        obtain ⟨directory, left, hl⟩ := ih h
        refine ⟨directory, left, fun follow rest hr => ?_⟩
        rw [← hl follow rest hr]
        dsimp only
        rw [walk_eq, List.cons_append, walkNames_cons, hs]
      | link target =>
        obtain ⟨directory, left, hl⟩ := behind _ _ h
        refine ⟨directory, left, fun follow rest hr => ?_⟩
        rw [← hl follow rest hr]
        dsimp only
        rw [walk_eq, List.cons_append, walkNames_cons, hs, List.append_assoc]
        exact if_pos (by simp [hr])

/-- A walk is taken up where its first part ends. -/
theorem walk_append {links : Nat} {names : List Text}
    (h : walk t true links here names = .ok (d, .directory)) :
    TakesUp t names d fun follow => walk t follow links here := by
  induction links generalizing here names with
  | zero => exact walkNames_append nofun h
  | succ links ih => exact walkNames_append (fun _ _ h => ih h) h

end NimMarkdown.FileTree
