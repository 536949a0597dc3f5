import NimMarkdown.Proofs.Text
import NimMarkdown.Proofs.Walks

/-!
# Canonical paths and walks

The canonical path of a path goes over directories only and ends at no link,
whatever links the path itself has (`canonical_direct`), and its names are such as a
text is split into (`canonical_plain`). Both are properties that every step of a
resolution keeps (`Kept`). Such a path is its own canonical form
(`canonicalLax_direct`).

A path in which no link is seen is resolved along the walk that it describes:
`Along` is the state of both, the resolution by names and the walk of the system,
behind the same names; `Along.up` and `Along.next` take it one name further and
`resolveNames_follows` to the end. The two part only where `..` stands behind a
`DeadEnd`, a file or a directory that may not be searched: the walk ends there, and
the resolution goes on.
-/

namespace NimMarkdown.FileTree

variable {t : FileTree} {room : Nat} {here loc : Location} {name : Text} {p q : Path} {node : Node}
  {seen : Resolved} {onLink : Resolved → Path → Text → Except CanonicalError Resolution}

/-! ## Steps of a resolution -/

/-- Empty names and `.` are passed over. -/
theorem resolveNames_skip {strict : Bool} (proper : Path.isProperName name = false)
    (rest : List Text) : resolveNames t strict here onLink seen p (name :: rest) =
      resolveNames t strict here onLink seen p rest := by
  rw [resolveNames, proper]
  rfl

theorem resolveNames_up (rest : List Text) :
    resolveNames t true here onLink seen p (['.', '.'] :: rest) =
      resolveNames t true here onLink seen (up p) rest := by
  rw [resolveNames]
  rfl

/-- Strictly, a link is known or to be resolved. -/
theorem metLink_cases {link : Path} {met : Met} (h : metLink t true here seen link = .ok met) :
    (∃ path, met = .known path ∧ (link, some path) ∈ seen) ∨ met = .new := by
  unfold metLink at h
  split at h
  · next path hl =>
    cases h
    exact .inl ⟨path, rfl, mem_of_lookup hl⟩
  · cases h
    exact .inr rfl
  · rw [if_pos rfl] at h
    cases hf : t.find true here link with
    | error e =>
      rw [hf] at h
      cases h
    | ok found =>
      rw [hf] at h
      cases h
      exact .inr rfl

section

variable (proper : Path.isProperName name = true) (hu : name ≠ ['.', '.'])

include proper hu

theorem resolveNames_of_error {e : SystemError} (hf : t.find false here (p.child name) = .error e)
    (rest : List Text) :
    resolveNames t true here onLink seen p (name :: rest) = .error (.ofSystem e) := by
  rw [resolveNames]
  simp [proper, hu, hf]

theorem resolveNames_of_found {strict : Bool}
    (hf : t.find false here (p.child name) = .ok (loc, node)) (link : node.isLink = false)
    (rest : List Text) : resolveNames t strict here onLink seen p (name :: rest) =
      resolveNames t strict here onLink seen (p.child name) rest := by
  rw [resolveNames]
  cases node with
  | link target => cases link
  | file mode bytes => simp [proper, hu, hf]
  | directory => simp [proper, hu, hf]

/-- A link that is known takes the resolution to where it leads, and another one is resolved
first. -/
theorem resolveNames_of_link {target : Text} {rest : List Text} {r : Resolution}
    (hf : t.find false here (p.child name) = .ok (loc, .link target))
    (h : resolveNames t true here onLink seen p (name :: rest) = .ok r) :
    (∃ path, (p.child name, some path) ∈ seen ∧
      resolveNames t true here onLink seen path rest = .ok r) ∨
    ∃ r', onLink ((p.child name, none) :: seen) p target = .ok r' ∧
      (r'.complete = true →
        resolveNames t true here onLink ((p.child name, some r'.path) :: r'.seen) r'.path rest =
          .ok r) := by
  rw [resolveNames] at h
  simp only [proper, hu, hf, Bool.not_true, Bool.false_eq_true, if_false, beq_iff_eq] at h
  cases hm : metLink t true here seen (p.child name) with
  | error e =>
    rw [hm] at h
    cases h
  | ok met =>
    rw [hm] at h
    obtain ⟨path, rfl, mem⟩ | rfl := metLink_cases hm
    · exact .inl ⟨path, mem, h⟩
    · cases hr : onLink ((p.child name, none) :: seen) p target with
      | error e =>
        simp only [hr] at h
        cases h
      | ok r' =>
        simp only [hr] at h
        exact .inr ⟨r', rfl, fun complete => by rwa [if_pos complete] at h⟩

end

/-! ## The end of a resolution -/

/-- A property of paths that the steps of a strict resolution keep. -/
structure Kept (t : FileTree) (here : Location) (P : Path → Prop) : Prop where
  root : P ⟨.root, []⟩
  up : ∀ {p}, P p → P (up p)
  child : ∀ {p name loc node}, P p → Path.isProperName name = true → '/' ∉ name →
    name ≠ ['.', '.'] → t.find false here (p.child name) = .ok (loc, node) →
    node.isLink = false → P (p.child name)

/-- The links that are resolved lead to paths with the property. -/
def Known (P : Path → Prop) (seen : Resolved) : Prop :=
  ∀ link path, (link, some path) ∈ seen → P path

/-- A resolution that has come to its end. -/
structure Ends (P : Path → Prop) (r : Resolution) : Prop where
  complete : r.complete = true
  holds : P r.path
  known : Known P r.seen

variable {P : Path → Prop}

theorem Known.cons (h : Known P seen) (link : Path) {path : Option Path}
    (hp : ∀ q, path = some q → P q) : Known P ((link, path) :: seen) := by
  intro other r hm
  rcases List.mem_cons.1 hm with he | hm
  · exact hp r (Prod.mk.inj he).2.symm
  · exact h other r hm

theorem resolveNames_ends (kept : Kept t here P)
    (links : ∀ seen p target r, Known P seen → P p → onLink seen p target = .ok r → Ends P r)
    {names : List Text} {r : Resolution} (slash : ∀ name ∈ names, '/' ∉ name)
    (known : Known P seen) (hp : P p)
    (h : resolveNames t true here onLink seen p names = .ok r) : Ends P r := by
  induction names generalizing seen p with
  | nil =>
    cases h
    exact ⟨rfl, hp, known⟩
  | cons name rest ih =>
    rw [List.forall_mem_cons] at slash
    cases proper : Path.isProperName name with
    | false =>
      rw [resolveNames_skip proper] at h
      exact ih slash.2 known hp h
    | true =>
      by_cases hu : name = ['.', '.']
      · rw [hu, resolveNames_up] at h
        exact ih slash.2 known (kept.up hp) h
      · cases hf : t.find false here (p.child name) with
        | error e =>
          rw [resolveNames_of_error proper hu hf] at h
          cases h
        | ok found =>
          obtain ⟨l, node⟩ := found
          cases hl : node.isLink with
          | false =>
            rw [resolveNames_of_found proper hu hf hl] at h
            exact ih slash.2 known (kept.child hp proper slash.1 hu hf hl) h
          | true =>
            obtain ⟨target, rfl⟩ : ∃ target, node = .link target := by
              cases node with
              | link target => exact ⟨target, rfl⟩
              | file | directory => cases hl
            rcases resolveNames_of_link proper hu hf h with ⟨path, mem, h⟩ | ⟨r', hr, h⟩
            · exact ih slash.2 known (known _ _ mem) h
            · have ends := links _ _ _ _ (known.cons _ (by simp)) hp hr
              refine ih slash.2 (ends.known.cons _ fun q hq => ?_) ends.holds (h ends.complete)
              exact Option.some.inj hq ▸ ends.holds

theorem resolveText_ends (kept : Kept t here P) {depth : Nat} {target : Text} {r : Resolution}
    (known : Known P seen) (hp : P p)
    (h : resolveText t true here depth seen p target = .ok r) : Ends P r := by
  induction depth generalizing seen p target r with
  | zero => cases h
  | succ depth ih =>
    refine resolveNames_ends kept (fun _ _ _ _ known hp h => ih known hp h)
      (Path.slash_not_mem_splitNames target) known ?_ h
    split
    · exact kept.root
    · exact hp

/-- The path stands for a location that only directories lead to. -/
def Arrives (t : FileTree) (here : Location) (p : Path) : Prop :=
  ∃ loc, Stands here p loc ∧ t.Direct loc

theorem kept_arrives (settled : t.Settled here) : Kept t here (Arrives t here) where
  root := ⟨[], .root [], direct_nil t⟩
  up := fun ⟨loc, stands, direct⟩ =>
    ⟨loc.dropLast, stands.up direct.up_not_mem, direct.dropLast⟩
  child := by
    rintro p name l node ⟨loc, stands, direct⟩ proper - hu hf link
    obtain ⟨directory, isName, hc⟩ :=
      stands.found_child direct settled (isChild_of_proper proper hu) hf
    exact ⟨_, stands.child name, direct.child directory isName hc link⟩

/-- **A canonical path** goes over directories only, and no link stands at its end. -/
theorem canonical_direct (settled : t.Settled here) (h : t.canonical room here p = .ok q) :
    ∃ loc, q = pathOf loc ∧ t.Direct loc := by
  unfold canonical at h
  split at h
  · cases h
  · next r hr =>
    cases h
    have ends := resolveText_ends (kept_arrives settled) (by simp [Known])
      ⟨here, stands_here here, settled.direct⟩ hr
    obtain ⟨loc, stands, direct⟩ := ends.holds
    exact ⟨loc, stands.absolute ⟨settled.direct.up_not_mem, direct.up_not_mem⟩, direct⟩

/-- The names of a path stay such as a text is split into. -/
theorem kept_plain : Kept t here fun p => Path.Plain p.names where
  root := nofun
  up := by
    intro p plain
    rcases up_cases p with he | he | he <;> rw [he]
    · exact plain
    · exact plain.append (by simp [Path.Plain, Path.isProperName])
    · exact plain.of_subset (List.dropLast_subset p.names)
  child := by
    intro p name loc node plain proper slash _ _ _
    exact plain.append (by simpa [Path.Plain] using ⟨proper, slash⟩)

theorem canonical_plain (plain : Path.Plain here) (h : t.canonical room here p = .ok q) :
    Path.Plain q.names := by
  unfold canonical at h
  split at h
  · cases h
  · next r hr =>
    cases h
    have ends := resolveText_ends kept_plain (by simp [Known]) (by simp [Path.Plain]) hr
    have names : Path.Plain r.path.names := ends.holds
    unfold absolute
    split
    · exact names.of_subset (Path.collapse_sublist _).subset
    · exact (plain.append names).of_subset (Path.collapse_sublist _).subset

/-! ## Paths that are canonical -/

theorem resolveNames_direct {strict : Bool} {names done : List Text}
    (direct : t.Direct (done ++ names.filter Path.isProperName))
    (clear : t.Clear [] (done ++ names.filter Path.isProperName))
    (short : (Utf8.encode (pathOf (done ++ names.filter Path.isProperName)).toText).length ≤
      maxPathBytes) :
    resolveNames t strict here onLink seen (pathOf done) names =
      .ok ⟨pathOf (done ++ names.filter Path.isProperName), true, seen⟩ := by
  induction names generalizing done with
  | nil =>
    rw [resolveNames, List.filter_nil, List.append_nil]
  | cons name rest ih =>
    cases proper : Path.isProperName name with
    | false =>
      rw [List.filter_cons_of_neg (by simp [proper])] at direct clear short ⊢
      rw [resolveNames_skip proper]
      exact ih direct clear short
    | true =>
      have next : done ++ (name :: rest).filter Path.isProperName =
          done ++ [name] ++ rest.filter Path.isProperName := by
        simp [List.filter_cons_of_pos proper]
      rw [next] at direct clear short ⊢
      have begins := List.prefix_append (done ++ [name]) (rest.filter Path.isProperName)
      have child := direct.of_prefix begins
      obtain ⟨node, hn, link⟩ := child.stands
      have hu : name ≠ ['.', '.'] := (child.names name (by simp)).ne_up
      have found : t.find false here ((pathOf done).child name) = .ok (done ++ [name], node) :=
        child.find (clear.of_prefix begins) hn
          (Nat.le_trans (Path.length_toText_le begins.sublist .root) short)
      rw [resolveNames_of_found proper hu found link]
      exact ih direct clear short

/-- A path over directories is its own canonical form. -/
theorem canonicalLax_direct (settled : t.Settled here) (plain : Path.Plain loc)
    (direct : t.Direct loc) (clear : t.Clear [] loc)
    (short : (Utf8.encode (pathOf loc).toText).length ≤ maxPathBytes) :
    t.canonicalLax room here (pathOf loc) = .ok (pathOf loc) := by
  have names : [] ++ (Path.splitNames (pathOf loc).toText).filter Path.isProperName = loc :=
    Path.filter_splitNames_toText plain
  have resolved : resolveText t false here (room + 1) [] ⟨.relative, []⟩ (pathOf loc).toText =
      .ok ⟨pathOf loc, true, []⟩ := by
    have absolute : (pathOf loc).isAbsolute = true := rfl
    rw [resolveText, Path.head?_toText plain, absolute, if_pos rfl]
    refine (resolveNames_direct (names.symm ▸ direct) (names.symm ▸ clear)
      (names.symm ▸ short)).trans ?_
    rw [names]
  have stands : absolute here (pathOf loc) = pathOf loc :=
    (Stands.root loc).absolute ⟨settled.direct.up_not_mem, direct.up_not_mem⟩
  obtain ⟨node, hn, -⟩ := direct.stands
  have found : t.find true here (pathOf loc) = .ok (loc, node) := direct.find clear hn short
  rw [canonicalLax, resolved]
  dsimp only
  rw [stands, found]

/-! ## The resolution beside the walk -/

/-- Behind the names `done` of the path `q` the resolution has come to the path `p`, and the walk
and the text of the names lead to the location that it stands for. -/
structure Along (t : FileTree) (here : Location) (q : Path) (done : List Text) (p : Path)
    (loc : Location) : Prop where
  stands : Stands here p loc
  direct : t.Direct loc
  clear : t.Clear (base here p) p.names
  walked : ∀ follow links rest,
    t.walk follow links (base here q) (done ++ rest) = t.walk follow links loc rest
  lexical : loc = Path.collapse (base here q ++ done)
  bare : ∀ name ∈ done, '\x00' ∉ name
  absolute : p.isAbsolute = q.isAbsolute
  names : p.names.Sublist done

variable {done : List Text}

theorem along_start (settled : t.Settled here) (q : Path) :
    Along t here q [] (if q.isAbsolute then ⟨.root, []⟩ else ⟨.relative, []⟩) (base here q) := by
  cases ha : q.isAbsolute with
  | true =>
    have start : base here q = [] := by rw [base, ha]; rfl
    rw [start]
    exact ⟨.root [], direct_nil t, clear_nil t _, fun _ _ _ => by rw [start]; rfl,
      by rw [start]; rfl, nofun, ha.symm, .refl _⟩
  | false =>
    have start : base here q = here := by rw [base, ha]; rfl
    rw [start]
    refine ⟨stands_here here, settled.direct, clear_nil t _, fun _ _ _ => by rw [start]; rfl, ?_,
      nofun, ha.symm, .refl _⟩
    rw [start, List.append_nil, Path.collapse_of_plain settled.direct.up_not_mem]

/-- A directory that may be searched does not keep a walk from going on behind it. -/
theorem Along.clear_child (h : Along t here q done p loc) (settled : t.Settled here)
    (opens : loc ∉ t.closed) (name : Text) :
    t.Clear (base here (p.child name)) (p.child name).names := by
  have collapse := h.stands.collapse ⟨settled.direct.up_not_mem, h.direct.up_not_mem⟩
  exact h.clear.concat (collapse.symm ▸ opens) name

theorem Along.up (h : Along t here q done p loc) (settled : t.Settled here)
    (directory : t.get? loc = some .directory) (opens : loc ∉ t.closed) :
    Along t here q (done ++ [['.', '.']]) (up p) loc.dropLast where
  stands := h.stands.up h.direct.up_not_mem
  direct := h.direct.dropLast
  clear := by
    rcases up_cases p with he | he | he <;> rw [he]
    · exact h.clear
    · exact h.clear_child settled opens _
    · exact h.clear.of_prefix (List.dropLast_prefix p.names)
  walked follow links rest := by
    rw [List.append_assoc, h.walked, List.singleton_append, walk_up directory opens]
  lexical := by
    rw [← List.append_assoc, Path.collapse_concat, if_pos BEq.rfl, h.lexical]
  bare := by
    intro name hm
    rcases List.mem_append.1 hm with hm | hm
    · exact h.bare name hm
    · rw [List.mem_singleton.1 hm]
      decide
  absolute := by
    rcases up_cases p with he | he | he <;> rw [he] <;> exact h.absolute
  names := by
    rcases up_cases p with he | he | he <;> rw [he]
    · exact h.names.trans (List.sublist_append_left _ _)
    · exact h.names.append_right _
    · exact (List.dropLast_sublist _).trans (h.names.trans (List.sublist_append_left _ _))

theorem Along.child (h : Along t here q done p loc) (settled : t.Settled here)
    (directory : t.get? loc = some .directory) (opens : loc ∉ t.closed) (hn : IsName name)
    (hc : t.get? (loc ++ [name]) = some node) (link : node.isLink = false) :
    Along t here q (done ++ [name]) (p.child name) (loc ++ [name]) where
  stands := h.stands.child name
  direct := h.direct.child directory hn hc link
  clear := h.clear_child settled opens name
  walked follow links rest := by
    rw [List.append_assoc, h.walked, List.singleton_append,
      walk_child directory opens hn hc link]
  lexical := by
    rw [← List.append_assoc, Path.collapse_concat, if_neg (by simpa using hn.ne_up), ← h.lexical]
  bare := by
    intro other hm
    rcases List.mem_append.1 hm with hm | hm
    · exact h.bare other hm
    · exact List.mem_singleton.1 hm ▸ hn.bare
  absolute := h.absolute
  names := h.names.append_right [name]

/-- The last name of a path begins no longer path than the whole. -/
theorem Along.short (h : Along t here q done p loc) (hp : done ++ [name] <+: q.names) :
    (Utf8.encode (p.child name).toText).length ≤ (Utf8.encode q.toText).length := by
  have single : p.anchor ≠ .doubleRoot := by
    cases h.stands <;> nofun
  calc (Utf8.encode (p.child name).toText).length
      ≤ (Utf8.encode (Path.toText ⟨p.anchor, q.names⟩)).length :=
        Path.length_toText_le ((h.names.append_right [name]).trans hp.sublist) p.anchor
    _ ≤ (Utf8.encode q.toText).length := Path.length_toText_anchor h.absolute single q.names

/-- A link that is met on the way is seen by the system behind the same names. -/
theorem Along.find_link (h : Along t here q done p loc) (hp : done ++ [name] <+: q.names)
    (short : (Utf8.encode q.toText).length ≤ maxPathBytes) (hn : IsChild name)
    (bare : '\x00' ∉ name) (hl : t.look loc name = .ok node) :
    t.find false here ⟨q.anchor, done ++ [name]⟩ = .ok (loc ++ [name], node) := by
  have walked : t.walk false maxLinks (base here ⟨q.anchor, done ++ [name]⟩) (done ++ [name]) =
      .ok (loc ++ [name], node) :=
    (h.walked false maxLinks [name]).trans (walk_last hn hl (.inr rfl))
  have null : Path.hasNull ⟨q.anchor, done ++ [name]⟩ = false := by
    simpa [Path.hasNull, bare] using h.bare
  have long : (Utf8.encode (Path.toText ⟨q.anchor, done ++ [name]⟩)).length ≤ maxPathBytes :=
    Nat.le_trans (Path.length_toText_le hp.sublist q.anchor) short
  rw [find_eq_walk null long, steps_of_ne_nil (by simp), walked]
  rfl

/-- A regular file, or a directory that may not be searched: no name behind it is looked up. -/
def DeadEnd (t : FileTree) (loc : Location) : Prop :=
  (∃ mode bytes, t.get? loc = some (.file mode bytes)) ∨ loc ∈ t.closed

/-- A `..` stands in the path right behind a dead end. -/
def LeavesDeadEnd (t : FileTree) (here : Location) (q : Path) : Prop :=
  ∃ done rest, q.names = done ++ ['.', '.'] :: rest ∧
    t.DeadEnd (Path.collapse (base here q ++ done))

/-- The system sees no link at the path or above it. -/
def Unlinked (t : FileTree) (here : Location) (q : Path) : Prop :=
  ∀ names, names <+: q.names → ∀ l target,
    t.find false here ⟨q.anchor, names⟩ ≠ .ok (l, .link target)

/-- One name further, where the system sees no link: the name has a null character, or it stands
for nothing, or the resolution and the walk go on together. -/
theorem Along.next (h : Along t here q done p loc) (settled : t.Settled here)
    (unlinked : Unlinked t here q) (short : (Utf8.encode q.toText).length ≤ maxPathBytes)
    (hn : IsChild name) (begins : done ++ [name] <+: q.names) :
    t.find false here (p.child name) = .error .nullByte ∧ q.hasNull = true ∨
    (∃ errno, t.find false here (p.child name) =
        .error (.refused ⟨errno, [(p.child name).toText]⟩) ∧ t.look loc name = .error errno) ∨
    ∃ node, t.find false here (p.child name) = .ok (loc ++ [name], node) ∧ node.isLink = false ∧
      Along t here q (done ++ [name]) (p.child name) (loc ++ [name]) := by
  have found := h.stands.find_child h.direct settled h.clear hn
  split at found
  · next null =>
    exact .inl ⟨found, Path.hasNull_of_subset
      ((h.names.append_right [name]).trans begins.sublist).subset null⟩
  · next null =>
    split at found
    · next long => exact (Nat.not_lt.2 (Nat.le_trans (h.short begins) short) long).elim
    · split at found
      · next node hl =>
        refine .inr (.inr ⟨node, found, ?_⟩)
        have bare : '\x00' ∉ name := by
          intro hm
          simp [Path.hasNull, Path.child, hm] at null
        obtain ⟨directory, opens, shortName, hc⟩ := look_eq_ok_iff.1 hl
        cases node with
        | link target =>
          exact (unlinked _ begins _ _ (h.find_link begins short hn bare hl)).elim
        | file | directory =>
          exact ⟨rfl, h.child settled directory opens ⟨hn, shortName, bare⟩ hc rfl⟩
      · next errno hl => exact .inr (.inl ⟨errno, found, hl⟩)

/-- What a resolution comes to, beside the walk of the path: to the same location, to an error
where the walk has one, or anywhere behind a dead end that `..` leaves. -/
inductive Follows (t : FileTree) (here : Location) (q : Path) :
    Except CanonicalError Resolution → Prop where
  | arrives {r : Resolution} {loc : Location} (along : Along t here q q.names r.path loc) :
      Follows t here q (.ok r)
  | null (h : q.hasNull = true) : Follows t here q (.error (.system .nullByte))
  | refused {cause : Refusal}
      (walked : t.walk false maxLinks (base here q) q.names = .error cause.errno) :
      Follows t here q (.error (.system (.refused cause)))
  | leaves {answer : Except CanonicalError Resolution} (leaves : LeavesDeadEnd t here q) :
      Follows t here q answer

theorem CanonicalError.ofSystem_refused {cause : Refusal} (h : cause.errno ≠ .tooManyLinks) :
    CanonicalError.ofSystem (.refused cause) = .system (.refused cause) := by
  unfold ofSystem
  split
  · next he =>
    cases he
    exact (h rfl).elim
  · rfl

theorem resolveNames_follows (settled : t.Settled here) (unlinked : Unlinked t here q)
    (short : (Utf8.encode q.toText).length ≤ maxPathBytes) {names : List Text}
    (hq : q.names = done ++ names.filter Path.isProperName) (h : Along t here q done p loc) :
    Follows t here q (resolveNames t true here onLink seen p names) := by
  induction names generalizing done p loc with
  | nil =>
    rw [List.filter_nil, List.append_nil] at hq
    exact .arrives (r := ⟨p, true, seen⟩) (hq ▸ h)
  | cons name rest ih =>
    cases proper : Path.isProperName name with
    | false =>
      rw [resolveNames_skip proper]
      rw [List.filter_cons_of_neg (by simp [proper])] at hq
      exact ih hq h
    | true =>
      rw [List.filter_cons_of_pos proper] at hq
      have next : q.names = done ++ [name] ++ rest.filter Path.isProperName := by simp [hq]
      by_cases hu : name = ['.', '.']
      · subst hu
        by_cases closed : loc ∈ t.closed
        · exact .leaves ⟨done, _, hq, .inr (h.lexical ▸ closed)⟩
        obtain ⟨node, hn, link⟩ := h.direct.stands
        cases node with
        | link target => cases link
        | file mode bytes => exact .leaves ⟨done, _, hq, .inl ⟨mode, bytes, h.lexical ▸ hn⟩⟩
        | directory =>
          rw [resolveNames_up]
          exact ih next (h.up settled hn closed)
      · have hn := isChild_of_proper proper hu
        rcases h.next settled unlinked short hn (next ▸ List.prefix_append _ _) with
          ⟨found, null⟩ | ⟨errno, found, look⟩ | ⟨node, found, link, along⟩
        · rw [resolveNames_of_error proper hu found]
          exact .null null
        · rw [resolveNames_of_error proper hu found,
            CanonicalError.ofSystem_refused (errno_of_look look)]
          refine .refused ?_
          rw [hq, h.walked]
          exact walk_of_look hn look _
        · rw [resolveNames_of_found proper hu found link]
          exact ih next along

theorem resolveText_follows (settled : t.Settled here) (plain : Path.Plain q.names)
    (unlinked : Unlinked t here q) (short : (Utf8.encode q.toText).length ≤ maxPathBytes)
    (depth : Nat) :
    Follows t here q (resolveText t true here (depth + 1) [] ⟨.relative, []⟩ q.toText) := by
  have names : q.names = [] ++ (Path.splitNames q.toText).filter Path.isProperName :=
    (Path.filter_splitNames_toText plain).symm
  rw [resolveText, Path.head?_toText plain]
  exact resolveNames_follows settled unlinked short names (along_start settled q)

/-- The system finds at the path what stands at the location, unless the path is `.` and the
directory may not be searched. -/
theorem Along.find (h : Along t here q q.names p loc) (settled : t.Settled here)
    (hn : t.get? loc = some node) (short : (Utf8.encode q.toText).length ≤ maxPathBytes) :
    t.find false here q = .ok (loc, node) ∨
      node = .directory ∧ ∀ found, t.find false here q ≠ .ok found := by
  have walked : t.walk false maxLinks (base here q) q.names = .ok (loc, node) := by
    rw [← List.append_nil q.names, h.walked, walk_nil hn]
  have null : q.hasNull = false := by simpa [Path.hasNull] using h.bare
  by_cases steps : q.steps = q.names
  · refine .inl ?_
    rw [find_eq_walk null short, steps, walked]
    rfl
  · have bare : q.names = [] ∧ q.isAbsolute = false := by
      by_contra named
      exact steps (if_neg (by simpa using named))
    have start : loc = here := by
      rw [h.lexical, bare.1, List.append_nil, collapse_base settled, base, bare.2]
      rfl
    have directory : node = .directory :=
      Option.some.inj (hn.symm.trans (start ▸ settled.directories here List.prefix_rfl))
    by_cases found : t.find false here q = .ok (loc, node)
    · exact .inl found
    · refine .inr ⟨directory, fun other ho => found ?_⟩
      exact Except.ok.inj ((walk_of_find ho).symm.trans walked) ▸ ho

/-- **The canonical path of a path without links** is what it stands for by its text, and it has
one where the system finds something. -/
theorem canonical_unlinked (room : Nat) (settled : t.Settled here) (plain : Path.Plain q.names)
    (unlinked : Unlinked t here q) (short : (Utf8.encode q.toText).length ≤ maxPathBytes)
    (stays : ¬ LeavesDeadEnd t here q) :
    (∃ loc node, t.canonical room here q = .ok (pathOf loc) ∧
      loc = Path.collapse (base here q ++ q.names) ∧ t.Direct loc ∧ t.get? loc = some node ∧
      (t.find false here q = .ok (loc, node) ∨
        node = .directory ∧ ∀ found, t.find false here q ≠ .ok found)) ∨
    (∃ cause, t.canonical room here q = .error (.system cause)) ∧
      ∀ found, t.find false here q ≠ .ok found := by
  unfold canonical
  have follows := resolveText_follows settled plain unlinked short room
  cases he : resolveText t true here (room + 1) [] ⟨.relative, []⟩ q.toText with
  | ok r =>
    rw [he] at follows
    cases follows with
    | @arrives _ loc along =>
      obtain ⟨node, hn, -⟩ := along.direct.stands
      refine .inl ⟨loc, node, ?_, along.lexical, along.direct, hn, along.find settled hn short⟩
      exact congrArg Except.ok
        (along.stands.absolute ⟨settled.direct.up_not_mem, along.direct.up_not_mem⟩)
    | leaves leaves => exact (stays leaves).elim
  | error e =>
    rw [he] at follows
    refine .inr ?_
    cases follows with
    | null null =>
      refine ⟨⟨_, rfl⟩, fun found hf => ?_⟩
      rw [(accepted_of_find hf).1] at null
      cases null
    | @refused cause walked =>
      refine ⟨⟨_, rfl⟩, fun found hf => ?_⟩
      cases walked.symm.trans (walk_of_find hf)
    | leaves leaves => exact (stays leaves).elim

end NimMarkdown.FileTree
