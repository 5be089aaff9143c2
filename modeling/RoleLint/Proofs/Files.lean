import RoleLint.FileSystem

/- What paths lead to, and what a write leaves as it is.

   1. `Path.names_join` - the parts of a path that is seen from a directory.
   2. `step_eq_ok_iff`, `LeadsTo`, `lookup_eq_ok_iff` - one step along a path, all of them, and
      what is found in the end; `lookup_join` - a name seen from the working directory, under
      any path to it.
   3. `find?_set_self`, `find?_set_of_ne` - a write changes what stands under its own names and
      nothing else.
   4. `DifferAt`, `DifferAt.lookup_eq_ok` - file systems that differ in one file look the same
      along every path that does not lead to it. -/
namespace RoleLint

/-! ## Paths -/

namespace Path

theorem segments_ne_nil (bs : List UInt8) : segments bs ≠ [] := by
  cases bs with
  | nil => simp [segments]
  | cons b bs =>
    rw [segments]
    split
    · simp
    · split <;> simp

theorem segments_append_slash (x y : List UInt8) :
    segments (x ++ slash :: y) = segments x ++ segments y := by
  induction x with
  | nil => simp [segments]
  | cons b x ih =>
    rw [List.cons_append, segments, segments, ih]
    split
    · simp
    · obtain ⟨s, rest, hs⟩ := List.exists_cons_of_ne_nil (segments_ne_nil x)
      simp [hs]

/-- What a path starts with names nothing. -/
theorem names_eq (path : Path) :
    names path = (segments path.bytes).filter fun s => !isTrivial s := by
  rw [names]
  generalize path.bytes = bs
  unfold splitHead
  split
  · next hslash =>
    obtain ⟨rest, rfl⟩ := List.head?_eq_some_iff.mp (beq_iff_eq.mp hslash)
    simp [segments, isTrivial]
  · split
    · next hdot =>
      rcases Bool.or_eq_true_iff.mp hdot with hdot | hdot
      · rw [beq_iff_eq.mp hdot]
        rfl
      · obtain ⟨rest, rfl⟩ := List.isPrefixOf_iff_prefix.mp hdot
        rw [List.cons_append, List.tail_cons, List.singleton_append,
          show dot :: slash :: rest = [dot] ++ slash :: rest from rfl, segments_append_slash]
        simp [segments, isTrivial, slash, dot]
    · rfl

/-- A path seen from a directory: what is left of the directory, a slash and the path. -/
theorem join_cases {name : Path} (h : isAbsolute name = false) (dir : Path) :
    dir.bytes = [] ∧ join dir name = name ∨
      ∃ d, (join dir name).bytes = d ++ slash :: name.bytes ∧
        (dir.bytes = d ++ [slash] ∨ dir.bytes = d ∧ d ≠ []) := by
  unfold join
  rw [h, Bool.false_or]
  split
  · next hempty => exact .inl ⟨List.isEmpty_iff.mp hempty, rfl⟩
  · next hempty =>
    right
    split
    · next hslash =>
      obtain ⟨d, hd⟩ := List.getLast?_eq_some_iff.mp (beq_iff_eq.mp hslash)
      exact ⟨d, by simp [hd], .inl hd⟩
    · exact ⟨dir.bytes, rfl, .inr ⟨rfl, fun hnil => hempty (List.isEmpty_iff.mpr hnil)⟩⟩

theorem names_join {name : Path} (h : isAbsolute name = false) (dir : Path) :
    names (join dir name) = names dir ++ names name := by
  rcases join_cases h dir with ⟨hdir, hjoin⟩ | ⟨d, hjoin, hdir⟩
  · rw [hjoin, names_eq dir, hdir]
    simp [segments, isTrivial]
  · rw [names_eq, hjoin, segments_append_slash, List.filter_append, ← names_eq name]
    congr 1
    rcases hdir with hdir | ⟨hdir, -⟩
    · rw [names_eq dir, hdir, segments_append_slash]
      simp [segments, isTrivial]
    · rw [names_eq dir, hdir]

theorem isAbsolute_join {name : Path} (h : isAbsolute name = false) (dir : Path) :
    isAbsolute (join dir name) = isAbsolute dir := by
  rcases join_cases h dir with ⟨hdir, hjoin⟩ | ⟨d, hjoin, hdir⟩
  · rw [hjoin, h, isAbsolute, hdir]
    rfl
  · rw [isAbsolute, isAbsolute, hjoin]
    rcases hdir with hdir | ⟨rfl, hne⟩
    · rw [hdir]
      cases d <;> rfl
    · obtain ⟨c, d, hd⟩ := List.exists_cons_of_ne_nil hne
      rw [hd]
      rfl

end Path

/-! ## Where paths lead -/

namespace FileSystem

theorem meansDirectory_join {name : Path} (h : Path.isAbsolute name = false) (dir : Path) :
    meansDirectory (Path.join dir name) = meansDirectory name := by
  rcases Path.join_cases h dir with ⟨-, hjoin⟩ | ⟨d, hjoin, -⟩
  · rw [hjoin]
  · have hlast := List.getLast?_eq_some_getLast (Path.segments_ne_nil name.bytes)
    rw [meansDirectory, meansDirectory, hjoin, Path.segments_append_slash, List.getLast?_append,
      hlast, Option.some_or]

/-- What a step along a path does: it goes from a directory to something that exists. -/
theorem step_eq_ok_iff {fs : FileSystem} {here next : Names} {name : Path.Segment} :
    fs.step here name = .ok next ↔
      fs.find? here = some .directory ∧ next = child here name ∧
        (fs.find? next).isSome = true := by
  unfold step
  generalize child here name = target
  split
  · next h => simp [h]
  · next h => simp [h]
  · next h =>
    simp only [h, true_and]
    split
    · next hsome =>
      simp only [Except.ok.injEq]
      exact ⟨fun heq => ⟨heq.symm, heq ▸ hsome⟩, fun heq => heq.1.symm⟩
    · next hnone =>
      simp only [reduceCtorEq, false_iff, not_and]
      rintro rfl
      exact hnone

theorem foldlM_step_cons {fs : FileSystem} {part : Path.Segment} {parts : Names}
    {here stop : Names} :
    (part :: parts).foldlM fs.step here = .ok stop ↔
      ∃ next, fs.step here part = .ok next ∧ parts.foldlM fs.step next = .ok stop := by
  rw [List.foldlM_cons]
  cases fs.step here part with
  | error e => simp [bind, Except.bind]
  | ok next => simp [bind, Except.bind]

/-- A path leads to what stands under some names. -/
def LeadsTo (fs : FileSystem) (path : Path) (names : Names) : Prop :=
  (Path.names path).foldlM fs.step (fs.origin path) = .ok names

theorem lookup_eq_ok_iff {fs : FileSystem} {path : Path} {e : Entry} :
    fs.lookup path = .ok e ↔
      path.isEmpty = false ∧ ∃ names, fs.LeadsTo path names ∧ fs.find? names = some e ∧
        (e = .directory ∨ meansDirectory path = false) := by
  unfold lookup LeadsTo
  cases path.isEmpty with
  | true => simp
  | false =>
    cases (Path.names path).foldlM fs.step (fs.origin path) with
    | error f => simp [bind, Except.bind]
    | ok names =>
      simp only [Bool.false_eq_true, if_false, bind, Except.bind, pure, Except.pure, true_and,
        Except.ok.injEq, exists_eq_left']
      cases fs.find? names with
      | none => simp
      | some found =>
        cases found with
        | directory =>
          simp only [Except.ok.injEq, Option.some.injEq]
          exact ⟨fun h => ⟨h, .inl h.symm⟩, fun h => h.1⟩
        | file content =>
          cases meansDirectory path with
          | true =>
            simp only [if_true, reduceCtorEq, or_false, false_iff, not_and, Option.some.injEq]
            rintro rfl
            simp
          | false => simp

theorem isFile_iff {fs : FileSystem} {path : Path} :
    fs.isFile path = true ↔ ∃ content, fs.lookup path = .ok (.file content) := by
  unfold isFile
  split
  · next content h => simp [h]
  · next h => simpa using h

theorem readText_eq_ok_iff {fs : FileSystem} {path : Path} {text : String} :
    fs.readText path = .ok text ↔
      fs.lookup path = .ok (.file (some text)) ∧ byteLength text.toList < textLimit := by
  unfold readText
  split
  · next h => simp [h]
  · next h => simp [h]
  · next h => simp [h]
  · next s h =>
    simp only [h, Except.ok.injEq, Entry.file.injEq, Option.some.injEq]
    split
    · next hlimit =>
      simp only [Except.ok.injEq]
      exact ⟨fun heq => ⟨heq, heq ▸ hlimit⟩, fun heq => heq.1⟩
    · next hlimit =>
      simp only [reduceCtorEq, false_iff, not_and]
      rintro rfl
      exact hlimit

/-- What is looked up from the working directory is looked up by its name alone, however the
    path to that directory is spelled. -/
theorem lookup_join {fs : FileSystem} {dir name : Path} (hdir : fs.LeadsTo dir fs.cwd)
    (hname : Path.isAbsolute name = false) (hne : name.isEmpty = false) :
    fs.lookup (Path.join dir name) = fs.lookup name := by
  have hempty : (Path.join dir name).isEmpty = false := by
    rcases Path.join_cases hname dir with ⟨-, hjoin⟩ | ⟨d, hjoin, -⟩
    · rw [hjoin, hne]
    · rw [RawText.isEmpty, hjoin]
      simp
  have horigin : fs.origin (Path.join dir name) = fs.origin dir := by
    rw [origin, origin, Path.isAbsolute_join hname]
  have hstart : fs.origin name = fs.cwd := by
    rw [origin, hname]
    rfl
  unfold lookup
  rw [hempty, hne, horigin, hstart, Path.names_join hname, List.foldlM_append, hdir,
    meansDirectory_join hname]
  rfl

/-! ## Writes -/

theorem find?_cwd {fs : FileSystem} {names : Names} (h : names <+: fs.cwd) :
    fs.find? names = some .directory := by
  rw [find?, if_pos (List.isPrefixOf_iff_prefix.mpr h)]

theorem find?_cwd_self (fs : FileSystem) : fs.find? fs.cwd = some .directory :=
  find?_cwd (List.prefix_refl fs.cwd)

theorem find?_of_not_cwd {fs : FileSystem} {names : Names} (h : ¬ names <+: fs.cwd) :
    fs.find? names =
      match fs.entries.find? fun e => e.1 == names with
      | some e => some e.2
      | none => if fs.isAboveEntry names then some .directory else none := by
  unfold find?
  exact if_neg (mt List.isPrefixOf_iff_prefix.mp h)

theorem find?_set_self {fs : FileSystem} {names : Names} (h : ¬ names <+: fs.cwd) (entry : Entry) :
    (fs.set names entry).find? names = some entry := by
  have hgone : (fs.entries.filter fun e => e.1 != names).find? (fun e => e.1 == names) = none := by
    simp [List.find?_filter]
  have hset : ¬ names <+: (fs.set names entry).cwd := h
  rw [find?_of_not_cwd hset]
  simp [set, List.find?_append, hgone]

theorem isAboveEntry_iff {fs : FileSystem} {names : Names} :
    fs.isAboveEntry names = true ↔ ∃ e ∈ fs.entries, names <+: e.1 ∧ names ≠ e.1 := by
  simp [isAboveEntry]

/-- Where something is, there is something all the way down to it. -/
theorem find?_isSome_of_isPrefix {fs : FileSystem} {upper names : Names}
    (h : (fs.find? names).isSome = true) (hpre : upper <+: names) :
    (fs.find? upper).isSome = true := by
  by_cases hne : upper = names
  · rw [hne, h]
  by_cases hcwd : upper <+: fs.cwd
  · rw [find?_cwd hcwd, Option.isSome_some]
  have hbelow : fs.isAboveEntry upper = true := by
    rw [find?_of_not_cwd fun hnames => hcwd (hpre.trans hnames)] at h
    rw [isAboveEntry_iff]
    split at h
    · next x hx =>
      have hnames : x.1 = names := by simpa using List.find?_some hx
      exact ⟨x, List.mem_of_find?_eq_some hx, hnames ▸ hpre, hnames ▸ hne⟩
    · split at h
      · next habove =>
        obtain ⟨x, hx, hbelow, -⟩ := isAboveEntry_iff.mp habove
        refine ⟨x, hx, hpre.trans hbelow, ?_⟩
        rintro rfl
        exact hne (hpre.eq_of_length (Nat.le_antisymm hpre.length_le hbelow.length_le))
      · cases h
  rw [find?_of_not_cwd hcwd]
  split <;> simp [hbelow]

theorem isAboveEntry_set {fs : FileSystem} {names other : Names} {entry : Entry} :
    (fs.set names entry).isAboveEntry other = true ↔
      fs.isAboveEntry other = true ∨ other <+: names ∧ other ≠ names := by
  rw [isAboveEntry_iff, isAboveEntry_iff]
  constructor
  · rintro ⟨e, he, hpre, hne⟩
    rcases List.mem_append.mp he with he | he
    · exact .inl ⟨e, (List.mem_filter.mp he).1, hpre, hne⟩
    · cases List.mem_singleton.mp he
      exact .inr ⟨hpre, hne⟩
  · rintro (⟨e, he, hpre, hne⟩ | ⟨hpre, hne⟩)
    · -- What is replaced has the names of what takes its place.
      by_cases hold : e.1 = names
      · exact ⟨(names, entry), by simp [set], hold ▸ hpre, hold ▸ hne⟩
      · exact ⟨e, by simp [set, he, hold], hpre, hne⟩
    · exact ⟨(names, entry), by simp [set], hpre, hne⟩

theorem find?_entries_set (fs : FileSystem) (entry : Entry) {names other : Names}
    (hne : other ≠ names) :
    (fs.set names entry).entries.find? (fun e => e.1 == other) =
      fs.entries.find? fun e => e.1 == other := by
  have hkeep : (fun e : Names × Entry => decide ((e.1 != names) = true ∧ (e.1 == other) = true)) =
      fun e => e.1 == other := by
    funext e
    by_cases he : e.1 = other
    · simp [he, hne]
    · simp [he]
  simp only [set, List.find?_append, List.find?_filter, hkeep]
  simp [Ne.symm hne]

/-- **A write into a directory changes nothing else.** -/
theorem find?_set_of_ne {fs : FileSystem} {parent other : Names} {name : Path.Segment}
    (hparent : fs.find? parent = some .directory) (entry : Entry)
    (hne : other ≠ parent ++ [name]) :
    (fs.set (parent ++ [name]) entry).find? other = fs.find? other := by
  by_cases hcwd : other <+: fs.cwd
  · have hset : other <+: (fs.set (parent ++ [name]) entry).cwd := hcwd
    rw [find?_cwd hcwd, find?_cwd hset]
  -- The directories above the new entry were there before.
  have hopen : other <+: parent ++ [name] → (fs.find? other).isSome = true := by
    intro hpre
    rcases List.prefix_concat_iff.mp hpre with heq | hpre
    · exact absurd heq hne
    · exact find?_isSome_of_isPrefix (by simp [hparent]) hpre
  rw [find?_of_not_cwd hcwd] at hopen ⊢
  have hset : ¬ other <+: (fs.set (parent ++ [name]) entry).cwd := hcwd
  rw [find?_of_not_cwd hset, find?_entries_set fs entry hne]
  split
  · rfl
  · next hnone =>
    have habove : (fs.set (parent ++ [name]) entry).isAboveEntry other = fs.isAboveEntry other := by
      rw [Bool.eq_iff_iff, isAboveEntry_set]
      refine ⟨?_, .inl⟩
      rintro (h | ⟨hpre, -⟩)
      · exact h
      · simpa [hnone] using hopen hpre
    rw [habove]

/-- A text is written into a directory, and not over one. -/
theorem writeText_eq_ok {fs fs' : FileSystem} {path : Path} {content : String}
    (h : fs.writeText path content = .ok fs') :
    ∃ parent, (Path.names path).dropLast.foldlM fs.step (fs.origin path) = .ok parent ∧
      fs.find? parent = some .directory ∧ fs.lookup path ≠ .ok .directory ∧
      fs' = fs.set (parent ++ [(Path.names path).getLastD []]) (.file (some content)) := by
  unfold writeText at h
  split at h
  · cases h
  · split at h
    · cases h
    · cases h
    · next hdir _ =>
      simp only [bind, Except.bind, pure, Except.pure] at h
      split at h
      · cases h
      · next parent hparent =>
        split at h
        · next hfind =>
          split at h
          · cases h
          · cases h
            exact ⟨parent, hparent, hfind, hdir, rfl⟩
        · cases h
        · cases h

/-! ## File systems that differ in one file -/

/-- Two file systems with the same working directory and the same under all names but `names`,
    where neither has a directory. -/
structure DifferAt (names : Names) (fs fs' : FileSystem) : Prop where
  cwd : fs'.cwd = fs.cwd
  elsewhere : ∀ other, other ≠ names → fs'.find? other = fs.find? other
  left : fs.find? names ≠ some .directory
  right : fs'.find? names ≠ some .directory

namespace DifferAt

variable {names : Names} {fs fs' : FileSystem}

theorem symm (h : DifferAt names fs fs') : DifferAt names fs' fs :=
  ⟨h.cwd.symm, fun other hne => (h.elsewhere other hne).symm, h.right, h.left⟩

theorem origin_eq (h : DifferAt names fs fs') (path : Path) : fs'.origin path = fs.origin path := by
  rw [origin, origin, h.cwd]

/-- A walk does not come by, unless that is where it ends. -/
theorem foldlM_step (h : DifferAt names fs fs') {stop : Names}
    (hstop : stop = names → (fs'.find? names).isSome = true) (parts : Names)
    (here : Names) (hwalk : parts.foldlM fs.step here = .ok stop) :
    parts.foldlM fs'.step here = .ok stop := by
  induction parts generalizing here with
  | nil => exact hwalk
  | cons part parts ih =>
    obtain ⟨next, hstep, hwalk⟩ := foldlM_step_cons.mp hwalk
    obtain ⟨hdir, htarget, hsome⟩ := step_eq_ok_iff.mp hstep
    have hhere : here ≠ names := by
      rintro rfl
      exact h.left hdir
    have hsome' : (fs'.find? next).isSome = true := by
      by_cases hnext : next = names
      · subst hnext
        cases parts with
        | nil =>
          cases hwalk
          exact hstop rfl
        | cons =>
          -- There is no way on from a file.
          obtain ⟨_, hon, -⟩ := foldlM_step_cons.mp hwalk
          exact absurd (step_eq_ok_iff.mp hon).1 h.left
      · rw [h.elsewhere next hnext, hsome]
    refine foldlM_step_cons.mpr ⟨next, step_eq_ok_iff.mpr ?_, ih next hwalk⟩
    exact ⟨(h.elsewhere here hhere).trans hdir, htarget, hsome'⟩

theorem leadsTo (h : DifferAt names fs fs') {path : Path} {stop : Names}
    (hstop : stop = names → (fs'.find? names).isSome = true) (hlead : fs.LeadsTo path stop) :
    fs'.LeadsTo path stop := by
  rw [LeadsTo, h.origin_eq]
  exact h.foldlM_step hstop _ _ hlead

theorem lookup_eq_ok (h : DifferAt names fs fs') {path : Path} {e : Entry}
    (hpath : ¬ fs.LeadsTo path names) (he : fs.lookup path = .ok e) :
    fs'.lookup path = .ok e := by
  obtain ⟨hempty, stop, hlead, hfind, hmeans⟩ := lookup_eq_ok_iff.mp he
  have hstop : stop ≠ names := by
    rintro rfl
    exact hpath hlead
  rw [← h.elsewhere stop hstop] at hfind
  have hlead' := h.leadsTo (fun heq => absurd heq hstop) hlead
  exact lookup_eq_ok_iff.mpr ⟨hempty, stop, hlead', hfind, hmeans⟩

theorem isFile_of_isFile (h : DifferAt names fs fs') {path : Path}
    (hpath : ¬ fs.LeadsTo path names) (hfile : fs.isFile path = true) :
    fs'.isFile path = true := by
  obtain ⟨content, hlookup⟩ := isFile_iff.mp hfile
  exact isFile_iff.mpr ⟨content, h.lookup_eq_ok hpath hlookup⟩

theorem readText_eq_ok (h : DifferAt names fs fs') {path : Path} {text : String}
    (hpath : ¬ fs.LeadsTo path names) (hread : fs.readText path = .ok text) :
    fs'.readText path = .ok text := by
  obtain ⟨hlookup, hlimit⟩ := readText_eq_ok_iff.mp hread
  exact readText_eq_ok_iff.mpr ⟨h.lookup_eq_ok hpath hlookup, hlimit⟩

end DifferAt

end FileSystem

end RoleLint
