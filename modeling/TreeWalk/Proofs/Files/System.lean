import Mathlib.Data.List.Infix
import Mathlib.Tactic.SplitIfs
import TreeWalk.Disk

/-! File systems. A file system is a disk with a state. Looking leaves the state as it is; a write either
fails without effect, or gives one file its content and leaves the content of every other file. Several
paths may lead to one file, whether it is there or not. The files below a working directory are a file
system: a write creates no directory, so afterwards every path leads to the same file as before. -/

namespace TreeWalk

/-- A disk whose state maps paths to contents. -/
structure FileSystem (σ : Type) where
  disk : Disk (StateM σ)
  read : σ → String → Except IoError ByteArray
  isFile : σ → String → Bool
  write : σ → String → ByteArray → Except IoError σ
  /-- The two paths lead to one file. -/
  SameFile : σ → String → String → Prop
  run_read : ∀ s path, StateT.run (disk.read path) s = (read s path, s)
  run_isFile : ∀ s path, StateT.run (disk.isFile path) s = (isFile s path, s)
  run_write : ∀ {s path bytes after}, write s path bytes = .ok after →
    StateT.run (disk.write path bytes) s = (.ok (), after)
  run_write_error : ∀ {s path bytes e}, write s path bytes = .error e →
    StateT.run (disk.write path bytes) s = (.error e, s)
  sameFile_self : ∀ {s path bytes after}, write s path bytes = .ok after → SameFile s path path
  content_same : ∀ {s path bytes after other}, write s path bytes = .ok after →
    SameFile s path other → (read after other).toOption = some bytes
  content_other : ∀ {s path bytes after other}, write s path bytes = .ok after →
    ¬ SameFile s path other → (read after other).toOption = (read s other).toOption

theorem toOption_eq_some_iff {ε α : Type} {x : Except ε α} {a : α} :
    x.toOption = some a ↔ x = .ok a := by
  cases x <;> simp [Except.toOption]

theorem toOption_bind {ε α β : Type} (x : Except ε α) (f : α → Except ε β) :
    (x >>= f).toOption = x.toOption.bind fun a => (f a).toOption := by
  cases x <;> rfl

namespace Files

/-! ### Contents -/

theorem content?_put_self (files : Files) (names : List String) (bytes : ByteArray) :
    (files.put names bytes).content? names = some bytes := by
  simp [put, content?]

theorem lookup_filter_of_ne {names n : List String} (h : n ≠ names)
    (entries : List (List String × ByteArray)) :
    (entries.filter (·.1 != names)).lookup n = entries.lookup n := by
  induction entries with
  | nil => rfl
  | cons entry entries ih =>
    by_cases hentry : entry.1 = names
    · have hn : (n == entry.1) = false := by
        rw [hentry]
        simpa using h
      rw [List.filter_cons_of_neg (by simpa using hentry), ih, List.lookup_cons, hn]
    · rw [List.filter_cons_of_pos (by simpa using hentry), List.lookup_cons, List.lookup_cons, ih]

theorem content?_put_of_ne {names n : List String} (h : n ≠ names) (files : Files) (bytes : ByteArray) :
    (files.put names bytes).content? n = files.content? n := by
  have hn : (n == names) = false := by simpa using h
  rw [content?, put, List.lookup_cons, hn]
  exact lookup_filter_of_ne h files.entries

/-! ### Directories -/

theorem hasDirectory_iff {files : Files} {names : List String} :
    files.hasDirectory names ↔
      names = [] ∨ ∃ entry ∈ files.entries, names <+: entry.1 ∧ names.length < entry.1.length := by
  have hentry (path : List String) : (decide (names.length < path.length) &&
      path.take names.length == names) = true ↔ names <+: path ∧ names.length < path.length := by
    rw [Bool.and_eq_true, decide_eq_true_eq, beq_iff_eq, List.prefix_iff_eq_take, and_comm, eq_comm]
  simp only [hasDirectory, Bool.or_eq_true, List.isEmpty_iff, List.any_eq_true, hentry]

theorem hasDirectory_of_prefix {files : Files} {above names : List String} (h : above <+: names)
    (hnames : files.hasDirectory names) : files.hasDirectory above := by
  rw [hasDirectory_iff] at hnames ⊢
  obtain rfl | ⟨entry, hentry, hprefix, hlength⟩ := hnames
  · exact .inl (List.prefix_nil.1 h)
  · exact .inr ⟨entry, hentry, h.trans hprefix, h.length_le.trans_lt hlength⟩

/-- Every directory above the names is there. -/
def IsOpen (files : Files) (names : List String) : Prop :=
  ∀ above, above <+: names → above ≠ names → files.hasDirectory above

theorem isOpen_append {files : Files} {names : List String} (h : files.hasDirectory names) (part : String) :
    files.IsOpen (names ++ [part]) := by
  intro above habove hne
  have hprefix := (List.prefix_concat_iff.1 habove).resolve_left hne
  exact hasDirectory_of_prefix hprefix h

/-- A file in a directory that is there makes no new directory. -/
theorem hasDirectory_put {files : Files} {names : List String} (h : files.IsOpen names) (bytes : ByteArray)
    (n : List String) : (files.put names bytes).hasDirectory n = files.hasDirectory n := by
  rw [Bool.eq_iff_iff]
  constructor
  · intro hput
    obtain rfl | ⟨entry, hentry, hprefix, hlength⟩ := hasDirectory_iff.1 hput
    · exact hasDirectory_iff.2 (.inl rfl)
    · rcases List.mem_cons.1 hentry with rfl | hold
      · exact h n hprefix fun hself => (hself ▸ hlength).false
      · exact hasDirectory_iff.2 (.inr ⟨entry, List.mem_of_mem_filter hold, hprefix, hlength⟩)
  · intro hdirectory
    obtain rfl | ⟨entry, hentry, hprefix, hlength⟩ := hasDirectory_iff.1 hdirectory
    · exact hasDirectory_iff.2 (.inl rfl)
    · refine hasDirectory_iff.2 (.inr ?_)
      -- the entry of the file itself is replaced by one with the same names
      by_cases hself : entry.1 = names
      · exact ⟨(names, bytes), List.mem_cons_self, hself ▸ hprefix, hself ▸ hlength⟩
      · have hkept : entry ∈ files.entries.filter (·.1 != names) := by simpa using ⟨hentry, hself⟩
        exact ⟨entry, List.mem_cons_of_mem _ hkept, hprefix, hlength⟩

/-! ### Places -/

/-- The names of the file that a place is, or would be. -/
def Place.names? : Place → Option (List String)
  | .file names => some names
  | .absent (name :: names) => some (name :: names)
  | .absent [] | .directory _ | .outside => none

/-- The place after a file with the names is written. -/
def Place.filled (names : List String) : Place → Place
  | .absent n => if n = names then .file n else .absent n
  | place => place

/-- The bytes at a place. -/
def contentAt (files : Files) : Place → Option ByteArray
  | .file names => files.content? names
  | _ => none

/-- Names that a file has or may be given. -/
structure Writable (files : Files) (names : List String) : Prop where
  ne_nil : names ≠ []
  isOpen : files.IsOpen names
  notDirectory : files.placeOf names ≠ .directory names

/-- What is known of a place that a path leads to. -/
structure Founded (files : Files) (place : Place) : Prop where
  directory : ∀ names, place = .directory names → files.hasDirectory names
  writable : ∀ names, place.names? = some names → files.Writable names

theorem founded_of_names?_eq_none {files : Files} {place : Place} (hplace : place.names? = none)
    (h : ∀ names, place = .directory names → files.hasDirectory names) : files.Founded place where
  directory := h
  writable := by simp [hplace]

theorem eq_of_names?_placeOf {files : Files} {n names : List String}
    (h : (files.placeOf n).names? = some names) : names = n := by
  unfold placeOf at h
  split_ifs at h
  · exact (Option.some.inj h).symm
  · simp [Place.names?] at h
  · cases n with
    | nil => simp [Place.names?] at h
    | cons name n => exact (Option.some.inj h).symm

theorem hasDirectory_of_placeOf {files : Files} {n names : List String}
    (h : files.placeOf n = .directory names) : files.hasDirectory names := by
  unfold placeOf at h
  split_ifs at h with hfile hdirectory
  cases h
  exact hdirectory

theorem founded_placeOf {files : Files} {names : List String} (h : files.hasDirectory names) (part : String) :
    files.Founded (files.placeOf (names ++ [part])) where
  directory _ hn := hasDirectory_of_placeOf hn
  writable n hn := by
    obtain rfl := eq_of_names?_placeOf hn
    refine ⟨by simp, isOpen_append h part, fun hdirectory => ?_⟩
    rw [hdirectory] at hn
    cases hn

theorem step_founded {files : Files} {place next : Place} {part : String} (h : files.Founded place)
    (hstep : files.step place part = .ok next) : files.Founded next := by
  unfold step at hstep
  split at hstep
  · cases hstep
  · cases hstep
  · rename_i names
    have hdirectory := h.directory names rfl
    split_ifs at hstep
    · cases hstep
      exact h
    · cases hstep
      exact founded_of_names?_eq_none rfl (by simp)
    · cases hstep
      refine founded_of_names?_eq_none rfl fun n hn => ?_
      cases hn
      exact hasDirectory_of_prefix (List.dropLast_prefix names) hdirectory
    · cases hstep
      exact founded_placeOf hdirectory part
  · split_ifs at hstep
    · cases hstep
      exact founded_of_names?_eq_none rfl (by simp)
    · cases hstep
      exact founded_of_names?_eq_none rfl (by simp)

theorem follow_founded {files : Files} {place last : Place} {parts : List String} (h : files.Founded place)
    (hfollow : files.follow place parts = .ok last) : files.Founded last := by
  induction parts generalizing place with
  | nil =>
    cases hfollow
    exact h
  | cons part rest ih =>
    cases hstep : files.step place part with
    | error e => simp [follow, hstep, bind, Except.bind] at hfollow
    | ok next =>
      refine ih (step_founded h hstep) ?_
      simpa [follow, hstep, bind, Except.bind] using hfollow

theorem locate_founded {files : Files} {path : String} {place : Place}
    (h : files.locate path = .ok place) : files.Founded place := by
  refine follow_founded ?_ h
  unfold startOf
  split_ifs
  · exact founded_of_names?_eq_none rfl (by simp)
  · refine founded_of_names?_eq_none rfl fun names hnames => ?_
    cases hnames
    exact hasDirectory_iff.2 (.inl rfl)

/-! ### Places after a write -/

section Put

variable {files : Files} {names : List String} (bytes : ByteArray)

theorem placeOf_put (h : files.Writable names) (n : List String) :
    (files.put names bytes).placeOf n = (files.placeOf n).filled names := by
  have hdirectory := h.notDirectory
  unfold placeOf at hdirectory ⊢
  rw [hasDirectory_put h.isOpen]
  by_cases hn : n = names
  · subst hn
    rw [content?_put_self]
    split_ifs at hdirectory ⊢ <;> simp_all [Place.filled]
  · rw [content?_put_of_ne hn]
    split_ifs <;> simp [Place.filled, hn]

/-- A step fails after the write where it failed before, although the cause may be another one. -/
theorem step_put (h : files.Writable names) (place : Place) (part : String) :
    ((files.put names bytes).step (place.filled names) part).toOption =
      (files.step place part).toOption.map (Place.filled names) := by
  cases place with
  | file n => rfl
  | directory n =>
    simp only [Place.filled, step, placeOf_put bytes h]
    split_ifs <;> rfl
  | absent n =>
    simp only [Place.filled]
    split_ifs <;> rfl
  | outside =>
    simp only [Place.filled, step]
    split_ifs
    · rfl
    · rfl
    · simp [Except.toOption, Place.filled, h.ne_nil.symm]

theorem follow_put (h : files.Writable names) (place : Place) (parts : List String) :
    ((files.put names bytes).follow (place.filled names) parts).toOption =
      (files.follow place parts).toOption.map (Place.filled names) := by
  induction parts generalizing place with
  | nil => rfl
  | cons part rest ih =>
    rw [follow, follow, toOption_bind, toOption_bind, step_put bytes h, Option.bind_map, Option.map_bind]
    exact Option.bind_congr fun next _ => ih next

theorem locate_put (h : files.Writable names) (path : String) :
    ((files.put names bytes).locate path).toOption =
      (files.locate path).toOption.map (Place.filled names) := by
  have hstart : (startOf path).filled names = startOf path := by
    unfold startOf
    split_ifs <;> rfl
  rw [locate, locate, ← follow_put bytes h, hstart]

end Put

/-! ### Reading and writing -/

/-- The names of the file that a path leads to, there or not. -/
def target? (files : Files) (path : String) : Option (List String) :=
  (checkPath path).toOption.bind fun _ => (files.locate path).toOption.bind Place.names?

theorem toOption_read (files : Files) (path : String) :
    (files.read path).toOption =
      (checkPath path).toOption.bind fun _ => (files.locate path).toOption.bind files.contentAt := by
  rw [read, toOption_bind]
  refine Option.bind_congr fun _ _ => ?_
  rw [toOption_bind]
  refine Option.bind_congr fun place _ => ?_
  cases place with
  | file names =>
    simp only [contentAt]
    cases files.content? names <;> rfl
  | directory names | absent names | outside => rfl

/-- A write that succeeds gives the file that its path leads to the bytes. -/
theorem exists_of_write {files after : Files} {path : String} {bytes : ByteArray}
    (h : files.write path bytes = .ok after) :
    ∃ names, files.target? path = some names ∧ after = files.put names bytes := by
  unfold target?
  cases hcheck : checkPath path with
  | error e => simp [write, hcheck, bind, Except.bind] at h
  | ok _ =>
    simp only [write, hcheck, bind, Except.bind] at h
    split_ifs at h with hslash
    · split at h <;> cases h
    · cases hlocate : files.locate path with
      | error e => simp [hlocate] at h
      | ok place =>
        rw [hlocate] at h
        cases place with
        | file names =>
          cases h
          exact ⟨names, rfl, rfl⟩
        | directory names => cases h
        | absent names =>
          cases names with
          | nil => cases h
          | cons name names =>
            cases h
            exact ⟨name :: names, rfl, rfl⟩
        | outside => cases h

theorem contentAt_put {names : List String} (hne : names ≠ []) (files : Files) (bytes : ByteArray)
    (place : Place) : (files.put names bytes).contentAt (place.filled names) =
      if place.names? = some names then some bytes else files.contentAt place := by
  cases place with
  | file n =>
    by_cases hn : n = names
    · subst hn
      simp [Place.filled, Place.names?, contentAt, content?_put_self]
    · simp [Place.filled, Place.names?, contentAt, content?_put_of_ne hn, hn]
  | absent n =>
    by_cases hn : n = names
    · subst hn
      obtain ⟨name, rest, rfl⟩ := List.exists_cons_of_ne_nil hne
      simp [Place.filled, Place.names?, contentAt, content?_put_self]
    · cases n <;> simp_all [Place.filled, Place.names?, contentAt]
  | directory n | outside => rfl

/-- After a write every path that leads to its file gives the bytes, and every other one what it gave. -/
theorem toOption_read_put {files : Files} {path : String} {names : List String}
    (h : files.target? path = some names) (bytes : ByteArray) (other : String) :
    ((files.put names bytes).read other).toOption =
      if files.target? other = some names then some bytes else (files.read other).toOption := by
  simp only [target?, Option.bind_eq_some_iff] at h
  obtain ⟨_, _, place, hplace, hnames⟩ := h
  have hfounded : files.Founded place := locate_founded (toOption_eq_some_iff.1 hplace)
  have hwritable := hfounded.writable names hnames
  rw [toOption_read, toOption_read, target?, locate_put bytes hwritable]
  cases (checkPath other).toOption with
  | none => simp
  | some _ =>
    cases (files.locate other).toOption with
    | none => simp
    | some place => simpa using contentAt_put hwritable.ne_nil files bytes place

example (bytes : ByteArray) : ((put {} ["out"] bytes).read "./out").toOption = some bytes := rfl

/-- The paths lead to a file with the same names. -/
def SameFile (files : Files) (path other : String) : Prop :=
  ∃ names, files.target? path = some names ∧ files.target? other = some names

/-- The files below a working directory as a file system. -/
def system : FileSystem Files where
  disk := Files.disk
  read := Files.read
  isFile := Files.isFile
  write := Files.write
  SameFile := Files.SameFile
  run_read _ _ := rfl
  run_isFile _ _ := rfl
  run_write h := by
    simp only [disk, StateT.run_bind, StateT.run_get, pure_bind, h]
    rfl
  run_write_error h := by
    simp only [disk, StateT.run_bind, StateT.run_get, pure_bind, h]
    rfl
  sameFile_self h := by
    obtain ⟨names, hnames, -⟩ := exists_of_write h
    exact ⟨names, hnames, hnames⟩
  content_same {s path bytes after other} h hsame := by
    obtain ⟨names, hnames, rfl⟩ := exists_of_write h
    obtain ⟨n, hn, hother⟩ := hsame
    have hself : n = names := Option.some.inj (hn.symm.trans hnames)
    rw [toOption_read_put hnames, if_pos (hself ▸ hother)]
  content_other {s path bytes after other} h hother := by
    obtain ⟨names, hnames, rfl⟩ := exists_of_write h
    rw [toOption_read_put hnames, if_neg fun hsame => hother ⟨names, hnames, hsame⟩]

end Files

end TreeWalk
