import NimMarkdown.Proofs.Paths

/-!
# Walks without links

One name takes a walk to a location or to a link (`walk_cons`); for a name of its own,
that depends on what it stands for (`look`).

A location is `Direct` if only directories lead to it and no link stands there. Names that
lead over directories meet no link, so it does not matter whether links are followed and how
many; all that can keep a walk from its end is a directory that may not be searched
(`Over.walk`). `Stands here p loc`: the path names the location without any name that a
`..` behind it takes back. Such a path is walked to its location where it is `Clear`, and
`FileTree.up` and `Path.child` take it to the locations next to it.
-/

namespace NimMarkdown

/-- A symbolic link. -/
def Node.isLink : Node → Bool
  | .link _ => true
  | _ => false

namespace FileTree

variable {t : FileTree} {follow : Bool} {here loc q : Location} {name : Text} {p : Path}
  {node : Node} {links : Nat} {onLink : Location → List Text → Except Errno (Location × Node)}

@[simp] theorem get?_nil (t : FileTree) : t.get? [] = some .directory := rfl

/-- A name that is looked up in a directory. -/
structure IsChild (name : Text) : Prop where
  ne_nil : name ≠ []
  ne_dot : name ≠ ['.']
  ne_up : name ≠ ['.', '.']

theorem isChild_of_proper (proper : Path.isProperName name = true) (hu : name ≠ ['.', '.']) :
    IsChild name where
  ne_nil := by
    rintro rfl
    cases proper
  ne_dot := by
    rintro rfl
    cases proper
  ne_up := hu

/-- A name that a directory can have. -/
structure IsName (name : Text) : Prop extends IsChild name where
  short : (Utf8.encode name).length ≤ maxNameBytes
  bare : '\x00' ∉ name

/-- Directories lead to the location, and something stands there that is no link. -/
structure Direct (t : FileTree) (loc : Location) : Prop where
  names : ∀ name ∈ loc, IsName name
  above : ∀ q, q <+: loc → q ≠ loc → t.get? q = some .directory
  stands : ∃ node, t.get? loc = some node ∧ node.isLink = false

theorem direct_nil (t : FileTree) : t.Direct [] where
  names := nofun
  above _ hq hn := (hn (List.prefix_nil.1 hq)).elim
  stands := ⟨.directory, rfl, rfl⟩

theorem Direct.of_prefix (h : t.Direct loc) (hq : q <+: loc) : t.Direct q where
  names name hm := h.names name (hq.subset hm)
  above r hr hn := h.above r (hr.trans hq) fun he =>
    hn (hr.eq_of_length_le (he ▸ hq.length_le))
  stands := by
    by_cases he : q = loc
    · exact he ▸ h.stands
    · exact ⟨.directory, h.above q hq he, rfl⟩

theorem Direct.dropLast (h : t.Direct loc) : t.Direct loc.dropLast :=
  h.of_prefix (List.dropLast_prefix loc)

theorem Direct.child (h : t.Direct loc) (directory : t.get? loc = some .directory)
    (hn : IsName name) (hc : t.get? (loc ++ [name]) = some node) (link : node.isLink = false) :
    t.Direct (loc ++ [name]) where
  names := by
    intro other hm
    rcases List.mem_append.1 hm with hm | hm
    · exact h.names other hm
    · exact List.mem_singleton.1 hm ▸ hn
  above q hq hne := by
    rcases List.prefix_concat_iff.1 hq with he | hq
    · exact (hne he).elim
    · by_cases he : q = loc
      · exact he ▸ directory
      · exact h.above q hq he
  stands := ⟨node, hc, link⟩

theorem Direct.not_link (h : t.Direct loc) (hq : q <+: loc) (target : Text) :
    t.get? q ≠ some (.link target) := by
  obtain ⟨node, hn, link⟩ := (h.of_prefix hq).stands
  intro he
  rw [Option.some.inj (hn.symm.trans he)] at link
  cases link

theorem Direct.up_not_mem (h : t.Direct loc) : ['.', '.'] ∉ loc :=
  fun hm => (h.names _ hm).ne_up rfl

theorem Direct.hasNull (h : t.Direct loc) : (pathOf loc).hasNull = false := by
  simpa [Path.hasNull, pathOf] using fun name hm => (h.names name hm).bare

/-- Directories stand all the way to the location, and on it. -/
structure Settled (t : FileTree) (here : Location) : Prop where
  names : ∀ name ∈ here, IsName name
  directories : ∀ q, q <+: here → t.get? q = some .directory

theorem Settled.direct (h : t.Settled here) : t.Direct here where
  names := h.names
  above q hq _ := h.directories q hq
  stands := ⟨.directory, h.directories here List.prefix_rfl, rfl⟩

theorem settled_single (hn : IsName name) (hd : t.get? [name] = some .directory) :
    t.Settled [name] where
  names := by
    intro other hm
    exact List.mem_singleton.1 hm ▸ hn
  directories := by
    intro q hq
    rcases List.prefix_concat_iff.1 (show q <+: [] ++ [name] from hq) with rfl | hq
    · exact hd
    · rw [List.prefix_nil.1 hq]
      rfl

/-! ## Steps of a walk -/

/-- Where a name takes a walk: to a location, or to a link. -/
inductive Stride where
  | place (loc : Location)
  | link (target : Text)

/-- Where a name takes a walk from a location. -/
def stride (t : FileTree) (here : Location) (name : Text) : Except Errno Stride :=
  match t.get? here with
  | none => .error .noEntry
  | some .directory =>
    if name.isEmpty then .ok (.place here)
    else if t.closed.contains here then .error .denied
    else if name == ['.'] then .ok (.place here)
    else if name == ['.', '.'] then .ok (.place here.dropLast)
    else if (Utf8.encode name).length > maxNameBytes then .error .nameTooLong
    else match t.get? (here ++ [name]) with
      | none => .error .noEntry
      | some (.link target) => .ok (.link target)
      | some _ => .ok (.place (here ++ [name]))
  | some _ => .error .notDirectory

theorem walkNames_cons (rest : List Text) :
    walkNames t follow onLink here (name :: rest) =
      match t.stride here name with
      | .error e => .error e
      | .ok (.place l) => walkNames t follow onLink l rest
      | .ok (.link target) =>
        if follow || !rest.isEmpty then
          onLink (if target.head? == some '/' then [] else here) (targetNames target ++ rest)
        else .ok (here ++ [name], .link target) := by
  rw [walkNames, stride]
  cases t.get? here with
  | none => rfl
  | some node =>
    cases node with
    | file mode bytes => rfl
    | link target => rfl
    | directory =>
      dsimp only
      by_cases empty : name.isEmpty
      · rw [if_pos empty, if_pos empty]
      by_cases closed : t.closed.contains here
      · rw [if_neg empty, if_neg empty, if_pos closed, if_pos closed]
      by_cases hd : name == ['.']
      · rw [if_neg empty, if_neg empty, if_neg closed, if_neg closed, if_pos hd, if_pos hd]
      by_cases hu : name == ['.', '.']
      · rw [if_neg empty, if_neg empty, if_neg closed, if_neg closed, if_neg hd, if_neg hd,
          if_pos hu, if_pos hu]
      rw [if_neg empty, if_neg empty, if_neg closed, if_neg closed, if_neg hd, if_neg hd,
        if_neg hu, if_neg hu]
      by_cases long : (Utf8.encode name).length > maxNameBytes
      · rw [if_pos long, if_pos long]
      rw [if_neg long, if_neg long]
      cases t.get? (here ++ [name]) with
      | none => rfl
      | some node => cases node <;> rfl

/-- How a walk goes on behind a link. -/
def afterLink (t : FileTree) (follow : Bool) :
    (links : Nat) → Location → List Text → Except Errno (Location × Node)
  | 0 => fun _ _ => .error .tooManyLinks
  | links + 1 => walk t follow links

theorem walk_eq (t : FileTree) (follow : Bool) (links : Nat) :
    walk t follow links = walkNames t follow (afterLink t follow links) := by
  cases links <;> rfl

theorem walk_nil (hn : t.get? here = some node) :
    t.walk follow links here [] = .ok (here, node) := by
  rw [walk_eq, walkNames, hn]

theorem walk_cons (rest : List Text) :
    t.walk follow links here (name :: rest) =
      match t.stride here name with
      | .error e => .error e
      | .ok (.place l) => t.walk follow links l rest
      | .ok (.link target) =>
        if follow || !rest.isEmpty then
          t.afterLink follow links (if target.head? == some '/' then [] else here)
            (targetNames target ++ rest)
        else .ok (here ++ [name], .link target) := by
  rw [walk_eq, walkNames_cons]

theorem directory_of_stride {stride : Stride} (h : t.stride here name = .ok stride) :
    t.get? here = some .directory := by
  unfold FileTree.stride at h
  split at h
  · cases h
  · assumption
  · cases h

/-- What a name stands for at a location. -/
def look (t : FileTree) (loc : Location) (name : Text) : Except Errno Node :=
  match t.get? loc with
  | none => .error .noEntry
  | some .directory =>
    if t.closed.contains loc then .error .denied
    else if (Utf8.encode name).length > maxNameBytes then .error .nameTooLong
    else match t.get? (loc ++ [name]) with
      | none => .error .noEntry
      | some node => .ok node
  | some _ => .error .notDirectory

/-- A name in a directory that may be searched. -/
theorem look_of_open (directory : t.get? loc = some .directory) (opens : loc ∉ t.closed)
    (short : (Utf8.encode name).length ≤ maxNameBytes) :
    t.look loc name = match t.get? (loc ++ [name]) with
      | none => .error .noEntry
      | some node => .ok node := by
  rw [look, directory]
  dsimp only
  rw [if_neg (by simpa using opens), if_neg (Nat.not_lt.2 short)]

theorem look_eq_ok_iff : t.look loc name = .ok node ↔ t.get? loc = some .directory ∧
    loc ∉ t.closed ∧ (Utf8.encode name).length ≤ maxNameBytes ∧
    t.get? (loc ++ [name]) = some node := by
  constructor
  · intro h
    unfold look at h
    split at h
    · cases h
    · next directory =>
      split at h
      · cases h
      · next opens =>
        split at h
        · cases h
        · next short =>
          split at h
          · cases h
          · next hc =>
            cases h
            exact ⟨directory, by simpa using opens, Nat.not_lt.1 short, hc⟩
    · cases h
  · rintro ⟨directory, opens, short, hc⟩
    rw [look_of_open directory opens short, hc]

/-- In a directory a name that stands for nothing is free, or it is not looked up. -/
theorem free_of_look {e : Errno} (directory : t.get? loc = some .directory)
    (h : t.look loc name = .error e) (absent : e.isAbsence = true) :
    loc ∉ t.closed ∧ (Utf8.encode name).length ≤ maxNameBytes ∧
      t.get? (loc ++ [name]) = none := by
  rw [look, directory] at h
  dsimp only at h
  split at h
  · cases h
    cases absent
  · next opens =>
    split at h
    · cases h
      cases absent
    · next short =>
      split at h
      · next hc => exact ⟨by simpa using opens, Nat.not_lt.1 short, hc⟩
      · cases h

theorem errno_of_look {e : Errno} (h : t.look loc name = .error e) : e ≠ .tooManyLinks := by
  rintro rfl
  unfold look at h
  split at h
  · cases h
  · split_ifs at h <;> try cases h
    split at h <;> cases h
  · cases h

/-- What a name takes a walk to, by the node that stands there. -/
def Stride.ofNode (loc : Location) : Node → Stride
  | .link target => .link target
  | _ => .place loc

/-- Where a name takes a walk is what it stands for. -/
theorem stride_eq_look (hn : IsChild name) :
    t.stride here name = (t.look here name).map (Stride.ofNode (here ++ [name])) := by
  unfold stride look
  cases t.get? here with
  | none => rfl
  | some node =>
    cases node with
    | file | link => rfl
    | directory =>
      simp only [List.isEmpty_iff, beq_iff_eq, hn.ne_nil, hn.ne_dot, hn.ne_up, if_false]
      split
      · rfl
      · split
        · rfl
        · cases t.get? (here ++ [name]) with
          | none => rfl
          | some node => cases node <;> rfl

/-- In a directory that may not be searched no name is looked up. -/
theorem walk_closed (directory : t.get? here = some .directory) (closed : here ∈ t.closed)
    (hn : name ≠ []) (rest : List Text) :
    t.walk follow links here (name :: rest) = .error .denied := by
  have stands : t.stride here name = .error .denied := by
    simp [stride, directory, closed, hn]
  rw [walk_cons, stands]

theorem walk_child (directory : t.get? here = some .directory) (opens : here ∉ t.closed)
    (hn : IsName name) (hc : t.get? (here ++ [name]) = some node) (link : node.isLink = false)
    (rest : List Text) :
    t.walk follow links here (name :: rest) = t.walk follow links (here ++ [name]) rest := by
  rw [walk_cons, stride_eq_look hn.toIsChild,
    look_eq_ok_iff.2 ⟨directory, opens, hn.short, hc⟩]
  cases node with
  | link target => cases link
  | file | directory => rfl

theorem walk_up (directory : t.get? here = some .directory) (opens : here ∉ t.closed)
    (rest : List Text) :
    t.walk follow links here (['.', '.'] :: rest) = t.walk follow links here.dropLast rest := by
  have stands : t.stride here ['.', '.'] = .ok (.place here.dropLast) := by
    simp [stride, directory, opens]
  rw [walk_cons, stands]

/-- Where a name stands for nothing no walk gets past it. -/
theorem walk_of_look {e : Errno} (hn : IsChild name) (h : t.look loc name = .error e)
    (rest : List Text) : t.walk follow links loc (name :: rest) = .error e := by
  rw [walk_cons, stride_eq_look hn, h]
  rfl

/-- `.` leads to where it is looked up. -/
theorem walk_dot {found : Location × Node} (h : t.walk follow links here [['.']] = .ok found) :
    t.walk follow links here [] = .ok found := by
  rw [walk_cons] at h
  cases hs : t.stride here ['.'] with
  | error e =>
    rw [hs] at h
    cases h
  | ok stride =>
    have directory := directory_of_stride hs
    have place : stride = .place here := by
      simp only [FileTree.stride, directory] at hs
      split_ifs at hs <;> simp_all
    rw [hs, place] at h
    exact h

/-- The last name of a walk, if no link is followed there. -/
theorem walk_last (hn : IsChild name) (h : t.look loc name = .ok node)
    (link : node.isLink = false ∨ follow = false) :
    t.walk follow links loc [name] = .ok (loc ++ [name], node) := by
  obtain ⟨-, -, -, hc⟩ := look_eq_ok_iff.1 h
  rw [walk_cons, stride_eq_look hn, h]
  cases node with
  | link target =>
    obtain link | rfl := link
    · cases link
    · rfl
  | file | directory => exact walk_nil hc

/-- The last name of a path, whose link is not followed. -/
theorem walk_single (hn : IsChild name) :
    t.walk false links loc [name] = (t.look loc name).map fun node => (loc ++ [name], node) := by
  cases h : t.look loc name with
  | error e => exact walk_of_look hn h []
  | ok node => exact walk_last hn h (.inr rfl)

/-! ## Names over directories -/

/-- All the directories may be searched in which names are looked up, behind other names. -/
def Clear (t : FileTree) (done names : List Text) : Prop :=
  ∀ ns, ns <+: names → ns ≠ names → Path.collapse (done ++ ns) ∉ t.closed

theorem clear_nil (t : FileTree) (done : List Text) : t.Clear done [] :=
  fun _ hns hne => (hne (List.prefix_nil.1 hns)).elim

variable {done names : List Text}

theorem clear_cons_iff : t.Clear done (name :: names) ↔
    Path.collapse done ∉ t.closed ∧ t.Clear (done ++ [name]) names := by
  constructor
  · intro clear
    refine ⟨by simpa using clear [] List.nil_prefix (by simp), fun ns hns hne => ?_⟩
    have behind := clear (name :: ns) ((List.prefix_cons_inj name).2 hns) (by simpa using hne)
    simpa using behind
  · rintro ⟨first, rest⟩ ns hns hne
    cases ns with
    | nil => simpa using first
    | cons other ns =>
      obtain ⟨rfl, behind⟩ := List.cons_prefix_cons.1 hns
      simpa using rest ns behind (by simpa using hne)

theorem Clear.of_prefix {ns : List Text} (clear : t.Clear done names) (hp : ns <+: names) :
    t.Clear done ns := by
  intro ms hms hne
  refine clear ms (hms.trans hp) ?_
  rintro rfl
  exact hne (hms.eq_of_length_le hp.length_le)

theorem Clear.concat (clear : t.Clear done names)
    (opens : Path.collapse (done ++ names) ∉ t.closed) (name : Text) :
    t.Clear done (names ++ [name]) := by
  intro ns hns hne
  rcases List.prefix_concat_iff.1 hns with rfl | hns
  · exact (hne rfl).elim
  · by_cases he : ns = names
    · exact he ▸ opens
    · exact clear ns hns he

/-- The names lead over directories, behind other names, to where no link stands. -/
structure Over (t : FileTree) (done names : List Text) : Prop where
  passes : ∀ name ∈ names, IsName name ∨ name = ['.', '.']
  directories : ∀ ns, ns <+: names → ns ≠ names →
    t.get? (Path.collapse (done ++ ns)) = some .directory
  stands : ∃ node, t.get? (Path.collapse (done ++ names)) = some node ∧ node.isLink = false

theorem Over.directory (across : t.Over done (name :: names)) :
    t.get? (Path.collapse done) = some .directory := by
  simpa using across.directories [] List.nil_prefix (by simp)

theorem Over.tail (across : t.Over done (name :: names)) : t.Over (done ++ [name]) names where
  passes other hm := across.passes other (List.mem_cons_of_mem name hm)
  directories ns hns hne := by
    have behind := across.directories (name :: ns) ((List.prefix_cons_inj name).2 hns)
    simpa using behind (by simpa using hne)
  stands := by simpa using across.stands

/-- Behind the first name stands a directory, or what the names lead to. -/
theorem Over.first (across : t.Over done names) :
    ∃ node, t.get? (Path.collapse done) = some node ∧ node.isLink = false := by
  cases names with
  | nil => simpa using across.stands
  | cons name names => exact ⟨.directory, across.directory, rfl⟩

theorem Over.step (across : t.Over done (name :: names)) (opens : Path.collapse done ∉ t.closed)
    (rest : List Text) : t.walk follow links (Path.collapse done) (name :: rest) =
      t.walk follow links (Path.collapse (done ++ [name])) rest := by
  rcases across.passes name List.mem_cons_self with hn | rfl
  · obtain ⟨node, hc, link⟩ := across.tail.first
    have behind : Path.collapse (done ++ [name]) = Path.collapse done ++ [name] := by
      rw [Path.collapse_concat, if_neg (by simpa using hn.ne_up)]
    rw [behind] at hc ⊢
    exact walk_child across.directory opens hn hc link rest
  · rw [Path.collapse_concat, if_pos BEq.rfl]
    exact walk_up across.directory opens rest

/-- A walk over directories that may all be searched. -/
theorem Over.walk (across : t.Over done names) (clear : t.Clear done names) (follow : Bool)
    (links : Nat) (rest : List Text) : t.walk follow links (Path.collapse done) (names ++ rest) =
      t.walk follow links (Path.collapse (done ++ names)) rest := by
  induction names generalizing done with
  | nil => simp
  | cons name names ih =>
    obtain ⟨opens, clear⟩ := clear_cons_iff.1 clear
    rw [List.cons_append, across.step opens, ih across.tail clear, List.append_assoc,
      List.singleton_append]

/-- A walk over directories of which one may not be searched. -/
theorem Over.walk_denied (across : t.Over done names) (barred : ¬ t.Clear done names)
    (follow : Bool) (links : Nat) (rest : List Text) :
    t.walk follow links (Path.collapse done) (names ++ rest) = .error .denied := by
  induction names generalizing done with
  | nil => exact (barred (clear_nil t done)).elim
  | cons name names ih =>
    rw [List.cons_append]
    by_cases closed : Path.collapse done ∈ t.closed
    · refine walk_closed across.directory closed ?_ _
      rintro rfl
      rcases across.passes [] List.mem_cons_self with hn | hu
      · exact hn.ne_nil rfl
      · cases hu
    · rw [across.step closed]
      exact ih across.tail fun clear => barred (clear_cons_iff.2 ⟨closed, clear⟩)

theorem Direct.leadsOver (h : t.Direct loc) : t.Over [] loc := by
  have same {ns : List Text} (hns : ns <+: loc) : Path.collapse ([] ++ ns) = ns :=
    Path.collapse_of_plain fun hm => h.up_not_mem (hns.subset hm)
  refine ⟨fun name hm => .inl (h.names name hm), fun ns hns hne => ?_, ?_⟩
  · rw [same hns]
    exact h.above ns hns hne
  · rw [same List.prefix_rfl]
    exact h.stands

/-- From the root names lead to the location that they are. -/
theorem Direct.walk (h : t.Direct loc) (clear : t.Clear [] loc) (follow : Bool) (links : Nat)
    (rest : List Text) : t.walk follow links [] (loc ++ rest) = t.walk follow links loc rest := by
  have across := h.leadsOver.walk clear follow links rest
  rwa [List.nil_append, Path.collapse_of_plain h.up_not_mem] at across

/-! ## What is found at a path -/

theorem find_eq (t : FileTree) (follow : Bool) (here : Location) (p : Path) :
    t.find follow here p =
      if p.hasNull then .error .nullByte
      else if (Utf8.encode p.toText).length > maxPathBytes then
        .error (.refused ⟨.nameTooLong, [p.toText]⟩)
      else (t.walk follow maxLinks (base here p) p.steps).mapError fun errno =>
        .refused ⟨errno, [p.toText]⟩ := by
  unfold find locate
  split
  · rfl
  · split <;> rfl

/-- A path that the system takes is walked. -/
theorem find_eq_walk (null : p.hasNull = false)
    (short : (Utf8.encode p.toText).length ≤ maxPathBytes) :
    t.find follow here p = (t.walk follow maxLinks (base here p) p.steps).mapError fun errno =>
      .refused ⟨errno, [p.toText]⟩ := by
  rw [find_eq, null, if_neg Bool.false_ne_true, if_neg (Nat.not_lt.2 short)]

/-- What is found is asked for by a path that the system takes. -/
theorem accepted_of_find {found : Location × Node} (h : t.find follow here p = .ok found) :
    p.hasNull = false ∧ (Utf8.encode p.toText).length ≤ maxPathBytes := by
  unfold find locate at h
  split at h
  · cases h
  · next null =>
    split at h
    · cases h
    · next short => exact ⟨by simpa using null, Nat.not_lt.1 short⟩

theorem steps_of_ne_nil (h : p.names ≠ []) : p.steps = p.names := by
  rw [Path.steps, if_neg (by simp [h])]

/-- What is found is where the names of the path lead. -/
theorem walk_of_find {found : Location × Node} (h : t.find follow here p = .ok found) :
    t.walk follow maxLinks (base here p) p.names = .ok found := by
  obtain ⟨null, short⟩ := accepted_of_find h
  rw [find_eq_walk null short] at h
  cases hw : t.walk follow maxLinks (base here p) p.steps with
  | error e =>
    rw [hw] at h
    cases h
  | ok place =>
    rw [hw] at h
    cases h
    unfold Path.steps at hw
    split at hw
    · next bare =>
      have names : p.names = [] := by simpa using (Bool.and_eq_true_iff.1 bare).1
      rw [names]
      exact walk_dot hw
    · exact hw

/-- Only a null character keeps the system from being asked. -/
theorem refused_of_find {e : SystemError} (null : p.hasNull = false)
    (h : t.find follow here p = .error e) : ∃ cause, e = .refused cause := by
  rw [find, null, if_neg Bool.false_ne_true] at h
  cases hl : t.locate follow here p with
  | ok found =>
    rw [hl] at h
    cases h
  | error errno =>
    rw [hl] at h
    cases h
    exact ⟨_, rfl⟩

/-- A location that only directories lead to is found, if they may all be searched. -/
theorem Direct.find (h : t.Direct loc) (clear : t.Clear [] loc) (hn : t.get? loc = some node)
    (short : (Utf8.encode (pathOf loc).toText).length ≤ maxPathBytes) :
    t.find follow here (pathOf loc) = .ok (loc, node) := by
  have walked : t.walk follow maxLinks [] loc = .ok (loc, node) := by
    have direct := h.walk clear follow maxLinks []
    rw [List.append_nil] at direct
    exact direct.trans (walk_nil hn)
  have steps : (pathOf loc).steps = loc := by simp [Path.steps, pathOf, Path.isAbsolute]
  have start : base here (pathOf loc) = [] := rfl
  rw [find_eq_walk h.hasNull short, steps, start, walked]
  rfl

/-- What is found at such a location is found through directories that may all be searched. -/
theorem Direct.clear_of_find (h : t.Direct loc) {found : Location × Node}
    (hf : t.find follow here (pathOf loc) = .ok found) : t.Clear [] loc := by
  by_contra barred
  have denied : t.walk follow maxLinks [] loc = .error .denied := by
    have across := h.leadsOver.walk_denied barred follow maxLinks []
    rwa [List.append_nil] at across
  cases denied.symm.trans (walk_of_find hf)

/-! ## Paths that stand for a location -/

/-- The path names the location, and has `..` only at the start of its names. -/
inductive Stands (here : Location) : Path → Location → Prop where
  | root (loc : Location) : Stands here ⟨.root, loc⟩ loc
  | relative (n : Nat) (names : List Text) : Stands here
      ⟨.relative, List.replicate n ['.', '.'] ++ names⟩ (here.take (here.length - n) ++ names)

theorem stands_here (here : Location) : Stands here ⟨.relative, []⟩ here := by
  have stands : Stands here ⟨.relative, List.replicate 0 ['.', '.'] ++ []⟩ _ := .relative 0 []
  simpa using stands

theorem Stands.child (h : Stands here p loc) (name : Text) :
    Stands here (p.child name) (loc ++ [name]) := by
  cases h with
  | root => exact .root _
  | relative n names =>
    rw [Path.child, List.append_assoc, List.append_assoc]
    exact .relative n (names ++ [name])

theorem up_cases (p : Path) : up p = p ∨ up p = p.child ['.', '.'] ∨ up p = p.parent := by
  unfold up
  split
  · split
    · exact .inl rfl
    · exact .inr (.inl rfl)
  · split
    · exact .inr (.inl rfl)
    · exact .inr (.inr rfl)

theorem Stands.up (h : Stands here p loc) (names : ['.', '.'] ∉ loc) :
    Stands here (up p) loc.dropLast := by
  cases h with
  | root =>
    rcases List.eq_nil_or_concat loc with rfl | ⟨init, last, rfl⟩
    · exact .root []
    · rw [List.concat_eq_append] at names ⊢
      have hl : last ≠ ['.', '.'] := fun he => names (by simp [he])
      have up : FileTree.up ⟨.root, init ++ [last]⟩ = ⟨.root, init⟩ := by
        simp [FileTree.up, hl, Path.parent]
      rw [up, List.dropLast_concat]
      exact .root init
  | relative n ns =>
    rcases List.eq_nil_or_concat ns with rfl | ⟨init, last, rfl⟩
    · have up : FileTree.up ⟨.relative, List.replicate n ['.', '.'] ++ []⟩ =
          ⟨.relative, List.replicate (n + 1) ['.', '.'] ++ []⟩ := by
        cases n with
        | zero => rfl
        | succ n => simp [FileTree.up, Path.child, List.replicate_succ', List.getLast?_append]
      have drop : (here.take (here.length - n) ++ []).dropLast =
          here.take (here.length - (n + 1)) ++ [] := by
        simp only [List.append_nil, List.dropLast_eq_take, List.take_take, List.length_take]
        congr 1
        omega
      rw [up, drop]
      exact .relative (n + 1) []
    · rw [List.concat_eq_append] at names ⊢
      have hl : last ≠ ['.', '.'] := fun he => names (by simp [he])
      have up : FileTree.up ⟨.relative, List.replicate n ['.', '.'] ++ (init ++ [last])⟩ =
          ⟨.relative, List.replicate n ['.', '.'] ++ init⟩ := by
        simp only [FileTree.up, ← List.append_assoc, List.getLast?_concat, beq_iff_eq, hl, if_false,
          Path.parent, List.dropLast_concat]
      rw [up, ← List.append_assoc, List.dropLast_concat]
      exact .relative n init

theorem Stands.collapse (h : Stands here p loc) (names : ['.', '.'] ∉ here ∧ ['.', '.'] ∉ loc) :
    Path.collapse (base here p ++ p.names) = loc := by
  cases h with
  | root => exact Path.collapse_of_plain names.2
  | relative n ns =>
    have start : base here ⟨.relative, List.replicate n ['.', '.'] ++ ns⟩ = here := rfl
    have behind : ['.', '.'] ∉ ns := fun hm => names.2 (List.mem_append_right _ hm)
    rw [start, ← List.append_assoc, Path.collapse_append _ behind, Path.collapse_ups names.1]

/-- The location that a path names by its text alone. -/
theorem Stands.absolute (h : Stands here p loc) (names : ['.', '.'] ∉ here ∧ ['.', '.'] ∉ loc) :
    absolute here p = pathOf loc := by
  have collapse := h.collapse names
  cases h with
  | root => exact congrArg (Path.mk .root) collapse
  | relative n ns => exact congrArg pathOf collapse

theorem collapse_base (settled : t.Settled here) (p : Path) :
    Path.collapse (base here p) = base here p := by
  unfold base
  split
  · rfl
  · exact Path.collapse_of_plain settled.direct.up_not_mem

theorem Stands.leadsOver (h : Stands here p loc) (direct : t.Direct loc) (settled : t.Settled here) :
    t.Over (base here p) p.names := by
  have collapse := h.collapse ⟨settled.direct.up_not_mem, direct.up_not_mem⟩
  cases h with
  | root => exact direct.leadsOver
  | relative n ns =>
    have start : base here ⟨.relative, List.replicate n ['.', '.'] ++ ns⟩ = here := rfl
    rw [start] at collapse ⊢
    refine ⟨fun name hm => ?_, fun ms hms hne => ?_, ?_⟩
    · rcases List.mem_append.1 hm with hm | hm
      · exact .inr (List.eq_of_mem_replicate hm)
      · exact .inl (direct.names name (List.mem_append_right _ hm))
    · -- The names are some of the first `..`, or all of them and some of the names behind.
      rcases List.prefix_or_prefix_of_prefix hms (List.prefix_append _ ns) with ups | ⟨ks, rfl⟩
      · obtain ⟨-, rest⟩ := List.prefix_replicate_iff.1 ups
        rw [rest, Path.collapse_ups settled.direct.up_not_mem]
        exact settled.directories _ (List.take_prefix _ _)
      · have hks := (List.prefix_append_right_inj _).1 hms
        have behind : ['.', '.'] ∉ ks := fun hm =>
          direct.up_not_mem (List.mem_append_right _ (hks.subset hm))
        rw [← List.append_assoc, Path.collapse_append _ behind,
          Path.collapse_ups settled.direct.up_not_mem]
        exact direct.above _ ((List.prefix_append_right_inj _).2 hks) fun he =>
          hne (congrArg _ (List.append_cancel_left he))
    · rw [collapse]
      exact direct.stands

theorem Stands.walk (h : Stands here p loc) (direct : t.Direct loc) (settled : t.Settled here)
    (clear : t.Clear (base here p) p.names) (follow : Bool) (links : Nat) (rest : List Text) :
    t.walk follow links (base here p) (p.names ++ rest) = t.walk follow links loc rest := by
  have across := (h.leadsOver direct settled).walk clear follow links rest
  rwa [collapse_base settled, h.collapse ⟨settled.direct.up_not_mem, direct.up_not_mem⟩] at across

theorem steps_child (p : Path) (name : Text) : (p.child name).steps = p.names ++ [name] :=
  steps_of_ne_nil (by simp [Path.child])

/-- What is found one name behind a path. -/
theorem Stands.find_child (h : Stands here p loc) (direct : t.Direct loc)
    (settled : t.Settled here) (clear : t.Clear (base here p) p.names) (hn : IsChild name) :
    t.find false here (p.child name) =
      if (p.child name).hasNull then .error .nullByte
      else if (Utf8.encode (p.child name).toText).length > maxPathBytes then
        .error (.refused ⟨.nameTooLong, [(p.child name).toText]⟩)
      else match t.look loc name with
        | .ok node => .ok (loc ++ [name], node)
        | .error errno => .error (.refused ⟨errno, [(p.child name).toText]⟩) := by
  have walked : t.walk false maxLinks (base here (p.child name)) (p.child name).steps =
      (t.look loc name).map fun node => (loc ++ [name], node) := by
    rw [steps_child]
    exact (h.walk direct settled clear false maxLinks [name]).trans (walk_single hn)
  rw [find_eq, walked]
  cases t.look loc name <;> rfl

/-- What is found one name behind a path stands in a directory. -/
theorem Stands.found_child {l : Location} (h : Stands here p loc) (direct : t.Direct loc)
    (settled : t.Settled here) (hn : IsChild name)
    (found : t.find false here (p.child name) = .ok (l, node)) :
    t.get? loc = some .directory ∧ IsName name ∧ t.get? (loc ++ [name]) = some node := by
  have clear : t.Clear (base here p) p.names := by
    by_contra barred
    have denied : t.walk false maxLinks (base here (p.child name)) (p.child name).names =
        .error .denied := by
      have across := (h.leadsOver direct settled).walk_denied barred false maxLinks [name]
      rwa [collapse_base settled] at across
    cases denied.symm.trans (walk_of_find found)
  rw [h.find_child direct settled clear hn] at found
  split at found
  · cases found
  · next null =>
    have bare : '\x00' ∉ name := by
      intro hm
      simp [Path.hasNull, Path.child, hm] at null
    split at found
    · cases found
    · split at found
      · next node' hl =>
        cases found
        obtain ⟨directory, -, short, hc⟩ := look_eq_ok_iff.1 hl
        exact ⟨directory, ⟨hn, short, bare⟩, hc⟩
      · cases found

end FileTree

end NimMarkdown
