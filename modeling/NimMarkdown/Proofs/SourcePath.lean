import NimMarkdown.Files.Read
import NimMarkdown.Proofs.Canonical

/-!
# The path of the source file

The path that `Host.sourceFile` gives has no link on it and leads to a regular file
with an extension of the language, whatever the text is that names it. It is the
path that the text stands for, without any link followed, unless something keeps the
system from seeing a link: `..` behind a regular file or behind a directory that may
not be searched, or a path that is too long to be looked at. Without these,
`sourceFile_unlinked` says which texts name a source file and that all others are turned
down.
-/

namespace NimMarkdown

namespace Host

open FileTree (pathOf maxPathBytes)

variable {h : Host} {text : Text} {p q : Path}

/-- The path from the root that a path stands for by its text. -/
def lexical (h : Host) (p : Path) : Path :=
  pathOf (Path.collapse (FileTree.base h.workingDirectory p ++ p.names))

theorem plain_of_expandHome (he : h.expandHome (.ofText text) = .ok p) : Path.Plain p.names := by
  have plain := Path.plain_ofText text
  unfold expandHome at he
  split at he
  · next user rest ha hn =>
    cases hu : h.homeOf user with
    | error e =>
      rw [hu] at he
      cases he
    | ok home =>
      rw [hu] at he
      cases he
      rw [hn] at plain
      exact (Path.plain_ofText home).append fun name hm => plain name (List.mem_cons_of_mem _ hm)
  · cases he
    exact plain

/-- Where no link is seen, none is found behind the names of the path. -/
theorem unlinked_of_containsLink (hc : h.containsLink p = false) :
    h.tree.Unlinked h.workingDirectory p := by
  intro names hp l target hf
  have upward : ⟨p.anchor, names⟩ ∈ p.upward := by
    refine List.mem_map.2 ⟨p.names.length - names.length, List.mem_range.2 (by omega), ?_⟩
    rw [Nat.sub_sub_self hp.length_le, ← List.prefix_iff_eq_take.1 hp]
  have seen := List.any_eq_false.1 hc _ upward
  simp [isLink?, lstat, hf] at seen

theorem sourceFile_eq_ok_iff : h.sourceFile text = .ok q ↔
    ∃ p, h.expandHome (.ofText text) = .ok p ∧ h.containsLink p = false ∧
      h.tree.canonical h.linkRoom h.workingDirectory p = .ok q ∧ h.isFile? q = .ok true ∧
      q.suffix.lower ∈ sourceExtensions := by
  constructor
  · intro hs
    unfold sourceFile at hs
    split at hs
    · cases hs
    · next p he =>
      split at hs
      · cases hs
      · next hc =>
        split at hs
        · cases hs
        · cases hs
        · cases hs
        · cases hs
        · next r hr =>
          split at hs
          · cases hs
          · cases hs
          · next hf =>
            split at hs
            · cases hs
            · next suffix =>
              cases hs
              exact ⟨p, he, by simpa using hc, hr, hf, by simpa using suffix⟩
  · rintro ⟨p, he, hc, hr, hf, suffix⟩
    simp [sourceFile, he, hc, hr, hf, suffix]

theorem stat_of_isFile (hf : h.isFile? p = .ok true) : ∃ found, h.stat p = .ok found := by
  unfold isFile? at hf
  split at hf
  · next found hs => exact ⟨_, hs⟩
  · cases hf
  · split at hf <;> cases hf

/-- An answer is a path without links to a regular file. -/
theorem sourceFile_direct (settled : h.tree.Settled h.workingDirectory)
    (hs : h.sourceFile text = .ok q) :
    ∃ loc mode bytes, q = pathOf loc ∧ h.tree.Direct loc ∧
      h.tree.get? loc = some (.file mode bytes) ∧ h.regularFile q = .ok ⟨mode, bytes⟩ := by
  obtain ⟨p, -, -, hr, hf, -⟩ := sourceFile_eq_ok_iff.1 hs
  obtain ⟨loc, rfl, direct⟩ := FileTree.canonical_direct settled hr
  obtain ⟨node, hn, -⟩ := direct.stands
  obtain ⟨found, hstat⟩ := stat_of_isFile hf
  have clear := direct.clear_of_find hstat
  have short := (FileTree.accepted_of_find hstat).2
  rw [isFile?, stat, direct.find clear hn short] at hf
  cases node with
  | link target => cases hf
  | directory => cases hf
  | file mode bytes =>
    refine ⟨loc, mode, bytes, rfl, direct, hn, ?_⟩
    rw [regularFile, lstat, direct.find clear hn short]

/-- The system sees all of the path: it is not too long, as it is given and from the root, and
no directory that may not be searched, nor a `..` behind a regular file, ends a walk. -/
structure Visible (h : Host) (p : Path) : Prop where
  short : (Utf8.encode p.toText).length ≤ maxPathBytes
  short_lexical : (Utf8.encode (h.lexical p).toText).length ≤ maxPathBytes
  clear : h.tree.Clear [] (h.lexical p).names
  stays : ¬ h.tree.LeavesDeadEnd h.workingDirectory p

/-- Without a link, a path that the system sees all of is canonical as it stands, and leads to the
same from the root, or it has no canonical form and leads nowhere. -/
theorem Visible.canonical (visible : h.Visible p) (settled : h.tree.Settled h.workingDirectory)
    (plain : Path.Plain p.names) (hc : h.containsLink p = false) :
    (∃ loc node, h.tree.canonical h.linkRoom h.workingDirectory p = .ok (pathOf loc) ∧
      pathOf loc = h.lexical p ∧ h.stat (pathOf loc) = .ok (loc, node) ∧
      (h.lstat p = .ok (loc, node) ∨ node = .directory ∧ ∀ found, h.lstat p ≠ .ok found) ∧
      node.isLink = false) ∨
    (∃ cause, h.tree.canonical h.linkRoom h.workingDirectory p = .error (.system cause)) ∧
      ∀ found, h.lstat p ≠ .ok found := by
  have unlinked := unlinked_of_containsLink hc
  rcases FileTree.canonical_unlinked h.linkRoom settled plain unlinked visible.short
    visible.stays with ⟨loc, node, hr, hl, direct, hn, found⟩ | missing
  · have lexical : pathOf loc = h.lexical p := congrArg pathOf hl
    have clear : h.tree.Clear [] loc := hl ▸ visible.clear
    obtain ⟨other, ho, link⟩ := direct.stands
    obtain rfl := Option.some.inj (hn.symm.trans ho)
    exact .inl ⟨loc, node, hr, lexical,
      direct.find clear hn (lexical ▸ visible.short_lexical), found, link⟩
  · exact .inr missing

/-- Which texts name a source file, and which one. -/
theorem sourceFile_visible (settled : h.tree.Settled h.workingDirectory)
    (he : h.expandHome (.ofText text) = .ok p) (visible : h.Visible p) :
    h.sourceFile text = .ok q ↔ q = h.lexical p ∧ h.containsLink p = false ∧
      (∃ mode bytes, h.lstat p = .ok (q.names, .file mode bytes)) ∧
      q.suffix.lower ∈ sourceExtensions := by
  have canonical := visible.canonical settled (plain_of_expandHome he)
  rw [sourceFile_eq_ok_iff]
  constructor
  · rintro ⟨p', he', hc, hr, hf, suffix⟩
    obtain rfl := Except.ok.inj (he.symm.trans he')
    rcases canonical hc with ⟨loc, node, hr', lexical, hs, found, -⟩ | ⟨⟨cause, hr'⟩, -⟩
    · obtain rfl := Except.ok.inj (hr'.symm.trans hr)
      refine ⟨lexical, hc, ?_, suffix⟩
      rw [isFile?, hs] at hf
      cases node with
      | file mode bytes =>
        obtain found | ⟨directory, -⟩ := found
        · exact ⟨mode, bytes, found⟩
        · cases directory
      | link target => cases hf
      | directory => cases hf
    · cases hr'.symm.trans hr
  · rintro ⟨rfl, hc, ⟨mode, bytes, found⟩, suffix⟩
    refine ⟨p, he, hc, ?_⟩
    rcases canonical hc with ⟨loc, node, hr, lexical, hs, found' | ⟨-, none⟩, -⟩ | ⟨-, missing⟩
    · obtain ⟨-, rfl⟩ := Prod.mk.inj (Except.ok.inj (found'.symm.trans found))
      rw [← lexical]
      refine ⟨hr, ?_, lexical ▸ suffix⟩
      rw [isFile?, hs]
    · exact (none _ found).elim
    · exact (missing _ found).elim

/-- The other texts are turned down. -/
theorem sourceFile_turnedDown {e : SourcePathError} (settled : h.tree.Settled h.workingDirectory)
    (he : h.expandHome (.ofText text) = .ok p) (visible : h.Visible p)
    (hs : h.sourceFile text = .error e) :
    (∀ path, e ≠ .loop path) ∧ (∀ cause, e ≠ .refused cause) ∧ e ≠ .tooDeep := by
  unfold sourceFile at hs
  rw [he] at hs
  dsimp only at hs
  split at hs
  · cases hs
    exact ⟨nofun, nofun, nofun⟩
  · next hc =>
    rcases visible.canonical settled (plain_of_expandHome he) (by simpa using hc) with
      ⟨loc, node, hr, -, found, -, link⟩ | ⟨⟨cause, hr⟩, -⟩
    · simp only [hr, isFile?, found] at hs
      cases node with
      | link target => cases link
      | file mode bytes =>
        dsimp only at hs
        split at hs
        · cases hs
          exact ⟨nofun, nofun, nofun⟩
        · cases hs
      | directory =>
        cases hs
        exact ⟨nofun, nofun, nofun⟩
    · rw [hr] at hs
      cases cause with
      | nullByte =>
        cases hs
        exact ⟨nofun, nofun, nofun⟩
      | refused cause =>
        cases hs
        split <;> exact ⟨nofun, nofun, nofun⟩

/-- **Paths of source files.** An answer has no link on it and is a regular file with an
extension of the language, which can be looked at. If the system sees all of the path that the
text stands for, the answer is that path with `.` and `..` taken out, it is given exactly
where no link is seen and the system finds a file of that kind there, and any other text is
turned down. -/
theorem sourceFile_unlinked (settled : h.tree.Settled h.workingDirectory) (text : Text) :
    (∀ q, h.sourceFile text = .ok q → ∃ loc mode bytes, q = pathOf loc ∧
      (∀ above, above <+: loc → ∀ target, h.tree.get? above ≠ some (.link target)) ∧
      h.tree.get? loc = some (.file mode bytes) ∧ q.suffix.lower ∈ sourceExtensions ∧
      h.regularFile q = .ok ⟨mode, bytes⟩) ∧
    ∀ p, h.expandHome (.ofText text) = .ok p → h.Visible p →
      (∀ q, h.sourceFile text = .ok q ↔ q = h.lexical p ∧ h.containsLink p = false ∧
        (∃ mode bytes, h.lstat p = .ok (q.names, .file mode bytes)) ∧
        q.suffix.lower ∈ sourceExtensions) ∧
      ∀ e, h.sourceFile text = .error e →
        (∀ path, e ≠ .loop path) ∧ (∀ cause, e ≠ .refused cause) ∧ e ≠ .tooDeep := by
  refine ⟨fun q hs => ?_, fun p he visible => ⟨fun q => sourceFile_visible settled he visible,
    fun e => sourceFile_turnedDown settled he visible⟩⟩
  obtain ⟨loc, mode, bytes, hq, direct, hn, regular⟩ := sourceFile_direct settled hs
  obtain ⟨-, -, -, -, -, suffix⟩ := sourceFile_eq_ok_iff.1 hs
  exact ⟨loc, mode, bytes, hq, fun above ha => direct.not_link ha, hn, suffix, regular⟩

/-- A working directory with a source file, a directory, and a link to the file. -/
def workshop : Host where
  tree := { entries := [([['w']], .directory), ([['w'], ['d']], .directory),
    ([['w'], "a.nim".toList], .file 0o644 []), ([['w'], "t.nim".toList], .file 0o644 []),
    ([['w'], "l.nim".toList], .link "t.nim".toList)] }
  workingDirectory := [['w']]
  home := "/w".toList

theorem workshop_settled : workshop.tree.Settled workshop.workingDirectory :=
  FileTree.settled_single ⟨⟨by decide, by decide, by decide⟩, by decide, by decide⟩ rfl

/-- A path with `..` behind a directory. -/
def roundabout : Path := ⟨.root, [['w'], ['d'], ['.', '.'], "a.nim".toList]⟩

theorem roundabout_visible : workshop.Visible roundabout where
  short := by decide
  short_lexical := by decide
  clear := by
    intro names _ _ closed
    cases closed
  stays := by
    rintro ⟨done, rest, hn, ⟨mode, bytes, hf⟩ | closed⟩
    · obtain rfl : done = [['w'], ['d']] := by
        rcases done with _ | ⟨a, _ | ⟨b, _ | ⟨c, _ | ⟨d, done⟩⟩⟩⟩ <;> simp_all [roundabout]
      cases hf
    · cases closed

theorem sourceFile_unlinked_workshop :
    workshop.tree.Settled workshop.workingDirectory ∧
      workshop.expandHome (.ofText "~/d/../a.nim".toList) = .ok roundabout ∧
      workshop.Visible roundabout ∧
      (∀ q, workshop.sourceFile "~/d/../a.nim".toList = .ok q ↔ q = workshop.lexical roundabout ∧
        workshop.containsLink roundabout = false ∧
        (∃ mode bytes, workshop.lstat roundabout = .ok (q.names, .file mode bytes)) ∧
        q.suffix.lower ∈ sourceExtensions) ∧
      workshop.sourceFile "~/d/../a.nim".toList = .ok (pathOf [['w'], "a.nim".toList]) := by
  have expands : workshop.expandHome (.ofText "~/d/../a.nim".toList) = .ok roundabout := by decide
  have answers := (sourceFile_unlinked workshop_settled "~/d/../a.nim".toList).2 roundabout expands
    roundabout_visible
  exact ⟨workshop_settled, expands, roundabout_visible, answers.1, by decide +kernel⟩

/-- Behind a regular file a link is followed. -/
theorem sourceFile_unlinked_leavesFile :
    workshop.tree.Settled workshop.workingDirectory ∧
      workshop.lexical (.ofText "a.nim/../l.nim".toList) = pathOf [['w'], "l.nim".toList] ∧
      workshop.tree.get? [['w'], "l.nim".toList] = some (.link "t.nim".toList) ∧
      workshop.sourceFile "a.nim/../l.nim".toList = .ok (pathOf [['w'], "t.nim".toList]) :=
  ⟨workshop_settled, by decide +kernel⟩

end Host

end NimMarkdown
