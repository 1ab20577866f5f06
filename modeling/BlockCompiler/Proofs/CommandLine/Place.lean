import BlockCompiler.CommandLine.FileTree
import BlockCompiler.Proofs.Text.Comment
import BlockCompiler.Proofs.Text.Passage

set_option autoImplicit false

/-! # Paths and places

A path leads to a place part by part, through directories only; the last part may lead to a file.
The full name of that place leads there again, so what is located under one name can be read under
the other.

A text is written at a place in a directory that exists. That changes what stands at this place and
at no other, and leads no path astray: a path that led to some place before leads there still. So a
second text can be written exactly where it could have been written at first. -/

namespace BlockCompiler

namespace Text

variable {separator : Char}

theorem pieces_of_not_mem {cs : List Char} (h : separator ∉ cs) : pieces separator cs = [cs] := by
  induction cs with
  | nil => rfl
  | cons c cs ih =>
    have hc : c ≠ separator := fun hc => h (hc ▸ List.mem_cons_self)
    rw [pieces, if_neg hc, ih fun hmem => h (List.mem_cons_of_mem c hmem)]

theorem pieces_append {cs : List Char} (h : separator ∉ cs) (rest : List Char) :
    pieces separator (cs ++ separator :: rest) = cs :: pieces separator rest := by
  induction cs with
  | nil => rw [List.nil_append, pieces, if_pos rfl]
  | cons c cs ih =>
    have hc : c ≠ separator := fun hc => h (hc ▸ List.mem_cons_self)
    rw [List.cons_append, pieces, if_neg hc, ih fun hmem => h (List.mem_cons_of_mem c hmem)]

/-- Texts that are joined by a separator come apart again. -/
theorem pieces_intercalate {texts : List (List Char)} (hne : texts ≠ [])
    (h : ∀ text ∈ texts, separator ∉ text) :
    pieces separator ([separator].intercalate texts) = texts := by
  induction texts with
  | nil => exact absurd rfl hne
  | cons first texts ih =>
    have hfirst := h first List.mem_cons_self
    cases texts with
    | nil => rw [List.intercalate_singleton, pieces_of_not_mem hfirst]
    | cons next texts =>
      have hrest := ih (List.cons_ne_nil _ _) fun text hmem =>
        h text (List.mem_cons_of_mem first hmem)
      rw [List.intercalate_cons_cons, List.append_assoc, List.singleton_append,
        pieces_append hfirst, hrest]

end Text

namespace CommandLine

/-- A part of a path that leads down. -/
structure IsStep (part : String) : Prop where
  ne_empty : part ≠ ""
  ne_dot : part ≠ "."
  ne_dots : part ≠ ".."

/-- What a file or a directory can be called. -/
structure IsName (part : String) : Prop extends IsStep part where
  slashless : '/' ∉ part.toList

namespace FileTree

/-! ## Parts -/

theorem parts_slashless (path : String) : ∀ part ∈ parts path, '/' ∉ part.toList := by
  intro part hpart hslash
  obtain ⟨piece, hpiece, rfl⟩ := List.mem_map.1 hpart
  rw [String.toList_ofList] at hslash
  exact (Text.mem_of_mem_pieces hpiece hslash).2 rfl

theorem parts_ne_nil (path : String) : parts path ≠ [] := by
  rw [parts, ne_eq, List.map_eq_nil_iff]
  exact Text.pieces_ne_nil _ _

theorem parts_fullName {place : List String} (hne : place ≠ [])
    (h : ∀ part ∈ place, IsName part) : parts (fullName place) = place := by
  have hslashless : ∀ text ∈ place.map String.toList, '/' ∉ text := by
    intro text htext
    obtain ⟨part, hpart, rfl⟩ := List.mem_map.1 htext
    exact (h part hpart).slashless
  have hslash : "/".toList = ['/'] := rfl
  rw [parts, fullName, String.toList_intercalate, hslash,
    Text.pieces_intercalate (List.map_eq_nil_iff.not.2 hne) hslashless, List.map_map]
  simp

/-! ## Following a path -/

/-- A path leads from a place to a place. -/
inductive Follows (t : FileTree) : List String → List String → List String → Prop
  | done {place : List String} : Follows t place [] place
  | skip {place rest found : List String} {part : String} (hpart : part = "" ∨ part = ".")
      (h : Follows t place rest found) : Follows t place (part :: rest) found
  | up {place rest found : List String} (h : Follows t place.dropLast rest found) :
      Follows t place (".." :: rest) found
  | down {place rest found : List String} {part : String} (hpart : IsStep part)
      (hentry : t.entry? (place ++ [part]) = some .directory)
      (h : Follows t (place ++ [part]) rest found) : Follows t place (part :: rest) found
  | file {place : List String} {part : String} {entry : Entry} (hpart : IsStep part)
      (hentry : t.entry? (place ++ [part]) = some entry) (hfile : entry ≠ .directory) :
      Follows t place [part] (place ++ [part])

variable {t : FileTree} {place : List String} {part : String}

theorem follow_ok_iff {rest found : List String} :
    t.follow place rest = .ok found ↔ t.Follows place rest found := by
  constructor
  · intro h
    induction rest generalizing place with
    | nil =>
      cases h
      exact .done
    | cons part rest ih =>
      rw [follow] at h
      split at h
      · next hpart => exact .skip (by simpa using hpart) (ih h)
      · next hskip =>
        obtain ⟨hempty, hdot⟩ := by simpa using hskip
        split at h
        · next hup => exact eq_of_beq hup ▸ .up (ih h)
        · next hdots =>
          have hpart : IsStep part := ⟨hempty, hdot, by simpa using hdots⟩
          split at h
          · cases h
          · next hentry => exact .down hpart hentry (ih h)
          · next entry hfile hentry =>
            split at h
            · next hlast =>
              cases h
              exact List.isEmpty_iff.1 hlast ▸ .file hpart hentry hfile
            · cases h
  · intro h
    induction h with
    | done => rfl
    | skip hpart h ih => rw [follow, if_pos (by simpa using hpart), ih]
    | up h ih => rw [follow, if_neg (by decide), if_pos (by decide), ih]
    | down hpart hentry h ih =>
      rw [follow, if_neg (by simp [hpart.ne_empty, hpart.ne_dot]),
        if_neg (by simpa using hpart.ne_dots), hentry]
      exact ih
    | @file place part entry hpart hentry hfile =>
      rw [follow, if_neg (by simp [hpart.ne_empty, hpart.ne_dot]),
        if_neg (by simpa using hpart.ne_dots), hentry]
      cases entry with
      | text content => rfl
      | binary => rfl
      | directory => exact absurd rfl hfile

/-! ## Places that are reached -/

/-- There are directories all the way down to a place. -/
structure IsOpen (t : FileTree) (place : List String) : Prop where
  names : ∀ part ∈ place, IsName part
  directory : ∀ start, start ≠ [] → start <+: place → t.entry? start = some .directory

/-- A path can lead to the place: it is a directory or a file in one. -/
inductive Reached (t : FileTree) : List String → Prop
  | directory {place : List String} (h : t.IsOpen place) : Reached t place
  | file {place : List String} {name : String} {entry : Entry} (h : t.IsOpen place)
      (hname : IsName name) (hentry : t.entry? (place ++ [name]) = some entry)
      (hfile : entry ≠ .directory) : Reached t (place ++ [name])

theorem IsOpen.nil (t : FileTree) : t.IsOpen [] where
  names := nofun
  directory _ hne hstart := absurd (List.prefix_nil.1 hstart) hne

theorem IsOpen.dropLast (h : t.IsOpen place) : t.IsOpen place.dropLast where
  names part hpart := h.names part (place.dropLast_subset hpart)
  directory start hne hstart := h.directory start hne (hstart.trans place.dropLast_prefix)

theorem IsOpen.concat (h : t.IsOpen place) (hname : IsName part)
    (hentry : t.entry? (place ++ [part]) = some .directory) : t.IsOpen (place ++ [part]) where
  names other hother := by
    rcases List.mem_append.1 hother with hother | hother
    · exact h.names other hother
    · exact List.mem_singleton.1 hother ▸ hname
  directory start hne hstart := by
    rcases List.prefix_concat_iff.1 hstart with rfl | hstart
    · exact hentry
    · exact h.directory start hne hstart

/-- A path leads to a directory or to a file in one. -/
theorem Follows.reached {rest found : List String} (h : t.Follows place rest found)
    (hplace : t.IsOpen place) (hrest : ∀ part ∈ rest, '/' ∉ part.toList) : Reached t found := by
  induction h with
  | done => exact .directory hplace
  | skip _ _ ih => exact ih hplace fun part hpart => hrest part (List.mem_cons_of_mem _ hpart)
  | up _ ih => exact ih hplace.dropLast fun part hpart => hrest part (List.mem_cons_of_mem _ hpart)
  | down hpart hentry _ ih =>
    have hname : IsName _ := ⟨hpart, hrest _ List.mem_cons_self⟩
    exact ih (hplace.concat hname hentry) fun part hpart =>
      hrest part (List.mem_cons_of_mem _ hpart)
  | file hpart hentry hfile => exact .file hplace ⟨hpart, hrest _ List.mem_cons_self⟩ hentry hfile

/-- Names of directories lead down through them. -/
theorem IsOpen.follows {rest more found : List String} (h : t.IsOpen (place ++ rest))
    (hmore : t.Follows (place ++ rest) more found) : t.Follows place (rest ++ more) found := by
  induction rest generalizing place with
  | nil => rwa [List.append_nil] at hmore
  | cons part rest ih =>
    have hname : IsName part := h.names part (List.mem_append_right _ List.mem_cons_self)
    rw [List.append_cons] at h hmore
    refine .down hname.toIsStep (h.directory _ (List.concat_ne_nil _ _) ?_) (ih h hmore)
    exact List.prefix_append _ _

/-- The parts of a place that is reached lead there. -/
theorem Reached.follows (h : Reached t place) : t.Follows [] place place := by
  cases h with
  | directory h =>
    have hdown : t.Follows [] (place ++ []) place := IsOpen.follows h .done
    rwa [List.append_nil] at hdown
  | @file directory name entry h hname hentry hfile =>
    have hlast : t.Follows ([] ++ directory) [name] (directory ++ [name]) :=
      .file hname.toIsStep hentry hfile
    exact IsOpen.follows h hlast

/-- After a path to a directory a name may come. -/
theorem Follows.concat {rest directory found : List String} {name : String}
    (h : t.Follows place rest directory) (hdirectory : t.entry? directory = some .directory)
    (hname : t.Follows directory [name] found) : t.Follows place (rest ++ [name]) found := by
  induction h with
  | done => exact hname
  | skip hpart _ ih => exact .skip hpart (ih hdirectory hname)
  | up _ ih => exact .up (ih hdirectory hname)
  | down hpart hentry _ ih => exact .down hpart hentry (ih hdirectory hname)
  | file hpart hentry hfile =>
    rw [hentry] at hdirectory
    exact absurd (Option.some_inj.1 hdirectory) hfile

theorem Reached.names (h : Reached t place) : ∀ part ∈ place, IsName part := by
  cases h with
  | directory h => exact h.names
  | file h hname hentry hfile =>
    intro part hpart
    rcases List.mem_append.1 hpart with hpart | hpart
    · exact h.names part hpart
    · exact List.mem_singleton.1 hpart ▸ hname

/-! ## Finding -/

theorem find_ok_iff {path : String} {entry : Entry} : t.find path = .ok (place, entry) ↔
    t.Follows [] (parts path) place ∧ t.entry? place = some entry := by
  rw [← follow_ok_iff]
  unfold find
  cases t.follow [] (parts path) with
  | error cause => exact ⟨nofun, fun h => nomatch h.1⟩
  | ok found =>
    simp only [Bind.bind, Except.bind]
    constructor
    · intro h
      split at h
      · next other hentry =>
        cases h
        exact ⟨rfl, hentry⟩
      · cases h
    · rintro ⟨⟨⟩, hentry⟩
      rw [hentry]
      rfl

/-- The full name of what is found leads to the same place. -/
theorem find_fullName {path : String} {entry : Entry} (h : t.find path = .ok (place, entry)) :
    t.find (fullName place) = .ok (place, entry) := by
  obtain ⟨hfollows, hentry⟩ := find_ok_iff.1 h
  have hreached := hfollows.reached (.nil t) (parts_slashless path)
  refine find_ok_iff.2 ⟨?_, hentry⟩
  by_cases hne : place = []
  · subst hne
    exact .skip (.inl rfl) .done
  · rw [parts_fullName hne hreached.names]
    exact hreached.follows

/-! ## Writing -/

/-- The place at which a text is written. -/
def target (t : FileTree) (path : String) : Except FileError (List String) := do
  let directory ← t.parent path
  let name := (parts path).getLast?.getD ""
  if ["", ".", ".."].contains name then throw .isDirectory
  match t.entry? (directory ++ [name]) with
  | some .directory => throw .isDirectory
  | _ => return directory ++ [name]

theorem writeText_eq (t : FileTree) (path content : String) :
    t.writeText path content = (t.target path).map fun place => t.put place content := by
  unfold writeText target
  cases t.parent path with
  | error cause => rfl
  | ok directory =>
    simp only [Bind.bind, Except.bind]
    split
    · rfl
    · generalize t.entry? _ = entry?
      rcases entry? with _ | _ | _ | _ <;> rfl

theorem parent_ok_iff {path : String} : t.parent path = .ok place ↔
    t.Follows [] (parts path).dropLast place ∧ t.entry? place = some .directory := by
  rw [← follow_ok_iff]
  unfold parent
  cases t.follow [] (parts path).dropLast with
  | error cause => exact ⟨nofun, fun h => nomatch h.1⟩
  | ok found =>
    simp only [Bind.bind, Except.bind]
    constructor
    · intro h
      split at h
      · next hentry =>
        cases h
        exact ⟨rfl, hentry⟩
      · cases h
      · cases h
    · rintro ⟨⟨⟩, hentry⟩
      rw [hentry]
      rfl

/-- A text is written in a directory that exists, under a name that no directory has. -/
theorem target_ok_iff {path : String} : t.target path = .ok place ↔
    ∃ directory name, place = directory ++ [name] ∧ (parts path).getLast? = some name ∧
      IsName name ∧ t.Follows [] (parts path).dropLast directory ∧
      t.entry? directory = some .directory ∧ t.entry? place ≠ some .directory := by
  obtain ⟨name, hlast⟩ : ∃ name, (parts path).getLast? = some name :=
    ⟨_, List.getLast?_eq_some_getLast (parts_ne_nil path)⟩
  have hslashless := parts_slashless path name (List.mem_of_getLast? hlast)
  unfold target
  rw [hlast, Option.getD_some]
  constructor
  · intro h
    cases hparent : t.parent path with
    | error cause => rw [hparent] at h; cases h
    | ok directory =>
      obtain ⟨hfollow, hdirectory⟩ := parent_ok_iff.1 hparent
      rw [hparent] at h
      simp only [Bind.bind, Except.bind] at h
      split at h
      · cases h
      · next hname =>
        have hname' : ¬(name = "" ∨ name = "." ∨ name = "..") := by simpa using hname
        obtain ⟨hempty, hdot, hdots⟩ := by simpa only [not_or] using hname'
        split at h
        · cases h
        · next hfree =>
          cases h
          exact ⟨directory, name, rfl, rfl, ⟨⟨hempty, hdot, hdots⟩, hslashless⟩, hfollow,
            hdirectory, hfree⟩
  · rintro ⟨directory, name', rfl, ⟨⟩, hname, hfollow, hdirectory, hfree⟩
    have hplain : ["", ".", ".."].contains name = false := by
      simp [hname.ne_empty, hname.ne_dot, hname.ne_dots]
    rw [parent_ok_iff.2 ⟨hfollow, hdirectory⟩]
    simp only [Bind.bind, Except.bind, hplain]
    rw [if_neg Bool.false_ne_true]
    rfl

theorem lookup_filter_bne (entries : List (List String × Entry)) (other : List String) :
    (entries.filter fun (key, _) => key != place).lookup other =
      if other = place then none else entries.lookup other := by
  induction entries with
  | nil => simp
  | cons entry entries ih =>
    obtain ⟨key, entry⟩ := entry
    by_cases hkey : key = place
    · rw [List.filter_cons_of_neg (by simpa using hkey), ih]
      split
      · rfl
      · next hne => rw [List.lookup_cons, beq_eq_false_iff_ne.2 (hkey ▸ hne)]
    · rw [List.filter_cons_of_pos (by simpa using hkey), List.lookup_cons, List.lookup_cons, ih]
      split
      · next heq => rw [if_neg (eq_of_beq heq ▸ hkey)]
      · rfl

/-- What cannot lie above a place does not miss what lies there. -/
theorem any_filter_bne (entries : List (List String × Entry)) {above : List String → Bool}
    (h : above place = false) :
    (entries.filter fun (key, _) => key != place).any (fun (key, _) => above key) =
      entries.any fun (key, _) => above key := by
  rw [List.any_filter]
  refine List.any_congr rfl ?_
  rintro ⟨key, entry⟩
  by_cases hkey : key = place
  · simp [hkey, h]
  · simp [hkey]

/-- Writing in a directory changes what stands at one place. -/
theorem entry?_put {directory : List String} (h : t.IsOpen directory) (name content : String)
    (other : List String) : entry? (t.put (directory ++ [name]) content) other =
      if other = directory ++ [name] then some (.text content) else t.entry? other := by
  unfold put entry?
  rw [List.lookup_append, lookup_filter_bne]
  by_cases heq : other = directory ++ [name]
  · rw [if_pos heq, if_pos heq, heq]
    simp
  · rw [if_neg heq, if_neg heq, List.lookup_cons, beq_eq_false_iff_ne.2 heq]
    cases hlookup : t.entries.lookup other with
    | some entry => rfl
    | none =>
      simp only [List.lookup_nil, Option.or_none, List.any_append, List.any_cons, List.any_nil]
      by_cases hprefix : other <+: directory ++ [name]
      · -- a directory above the place was there before
        have hdirectory : t.entry? other = some .directory := by
          by_cases hne : other = []
          · unfold entry?
            rw [hlookup, hne]
            rfl
          · exact h.directory other hne ((List.prefix_concat_iff.1 hprefix).resolve_left heq)
        unfold entry? at hdirectory
        rw [hlookup] at hdirectory
        rw [List.isPrefixOf_iff_prefix.2 hprefix, Bool.true_or, Bool.or_true, Bool.or_true,
          if_pos rfl]
        exact hdirectory.symm
      · have hnot : other.isPrefixOf (directory ++ [name]) = false :=
          Bool.eq_false_iff.2 (mt List.isPrefixOf_iff_prefix.1 hprefix)
        rw [any_filter_bne _ hnot, hnot, Bool.or_false, Bool.or_false]

/-! ## What stands after a text is written -/

/-- The place at which a text is written is in an open directory. -/
theorem isOpen_of_target {path : String} (h : t.target path = .ok place) :
    ∃ directory name, place = directory ++ [name] ∧ t.IsOpen directory := by
  obtain ⟨directory, name, rfl, -, -, hfollow, hdirectory, -⟩ := target_ok_iff.1 h
  have hslashless : ∀ part ∈ (parts path).dropLast, '/' ∉ part.toList := fun part hpart =>
    parts_slashless path part ((parts path).dropLast_subset hpart)
  refine ⟨directory, name, rfl, ?_⟩
  cases hfollow.reached (.nil t) hslashless with
  | directory hopen => exact hopen
  | file hopen hname hentry hfile =>
    rw [hentry] at hdirectory
    cases hdirectory
    exact absurd rfl hfile

/-- The tree differs from another by a text at one place, where no directory was. -/
structure Written (t t' : FileTree) (place : List String) (content : String) : Prop where
  free : t.entry? place ≠ some .directory
  entry : ∀ other, t'.entry? other = if other = place then some (.text content) else t.entry? other

theorem written_of_target {path : String} (h : t.target path = .ok place) (content : String) :
    Written t (t.put place content) place content := by
  obtain ⟨directory, name, rfl, hopen⟩ := isOpen_of_target h
  obtain ⟨-, -, -, -, -, -, -, hfree⟩ := target_ok_iff.1 h
  exact ⟨hfree, entry?_put hopen name content⟩

namespace Written

variable {t' : FileTree} {content : String}

theorem directory_iff (h : Written t t' place content) (other : List String) :
    t'.entry? other = some .directory ↔ t.entry? other = some .directory := by
  rw [h.entry]
  split
  · next heq =>
    subst heq
    exact ⟨nofun, fun hdirectory => absurd hdirectory h.free⟩
  · rfl

/-- A path that led to a directory or a file before leads there still. -/
theorem follows (h : Written t t' place content) {start rest found : List String}
    (hfollows : t.Follows start rest found) : t'.Follows start rest found := by
  induction hfollows with
  | done => exact .done
  | skip hpart _ ih => exact .skip hpart ih
  | up _ ih => exact .up ih
  | down hpart hentry _ ih => exact .down hpart ((h.directory_iff _).2 hentry) ih
  | @file start part entry hpart hentry hfile =>
    by_cases heq : start ++ [part] = place
    · exact .file hpart ((h.entry _).trans (if_pos heq)) nofun
    · exact .file hpart ((h.entry _).trans ((if_neg heq).trans hentry)) hfile

/-- No path leads to anything new but the place itself. -/
theorem follows_of (h : Written t t' place content) {start rest found : List String}
    (hfollows : t'.Follows start rest found) (hne : found ≠ place) :
    t.Follows start rest found := by
  induction hfollows with
  | done => exact .done
  | skip hpart _ ih => exact .skip hpart (ih hne)
  | up _ ih => exact .up (ih hne)
  | down hpart hentry _ ih => exact .down hpart ((h.directory_iff _).1 hentry) (ih hne)
  | file hpart hentry hfile =>
    rw [h.entry, if_neg hne] at hentry
    exact .file hpart hentry hfile

/-- Texts are written where they could have been written before. -/
theorem target_iff (h : Written t t' place content) {path : String} {other : List String} :
    t'.target path = .ok other ↔ t.target path = .ok other := by
  rw [target_ok_iff, target_ok_iff]
  constructor
  · rintro ⟨directory, name, heq, hlast, hname, hfollows, hdirectory, hfree⟩
    have hne : directory ≠ place := by
      rintro rfl
      exact h.free ((h.directory_iff _).1 hdirectory)
    exact ⟨directory, name, heq, hlast, hname, h.follows_of hfollows hne,
      (h.directory_iff _).1 hdirectory, mt (h.directory_iff _).2 hfree⟩
  · rintro ⟨directory, name, heq, hlast, hname, hfollows, hdirectory, hfree⟩
    exact ⟨directory, name, heq, hlast, hname, h.follows hfollows, (h.directory_iff _).2 hdirectory,
      mt (h.directory_iff _).1 hfree⟩

end Written

/-- A text that stands where a path writes is what the path reads. -/
theorem readText_of_target {path content : String} (h : t.target path = .ok place)
    (hentry : t.entry? place = some (.text content)) : t.readText path = .ok content := by
  obtain ⟨directory, name, rfl, hlast, hname, hfollows, hdirectory, -⟩ := target_ok_iff.1 h
  have hname : t.Follows directory [name] (directory ++ [name]) :=
    .file hname.toIsStep hentry nofun
  have hparts : parts path = (parts path).dropLast ++ [name] := by
    obtain ⟨start, hstart⟩ := List.getLast?_eq_some_iff.1 hlast
    rw [hstart, List.dropLast_concat]
  have hfind : t.find path = .ok (directory ++ [name], .text content) := by
    refine find_ok_iff.2 ⟨?_, hentry⟩
    rw [hparts]
    exact hfollows.concat hdirectory hname
  rw [readText, hfind]
  rfl

end FileTree

end CommandLine

end BlockCompiler
