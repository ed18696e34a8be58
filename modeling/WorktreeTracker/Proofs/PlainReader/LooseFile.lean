import WorktreeTracker.Proofs.PlainReader.References
import WorktreeTracker.Proofs.Resolution

/-!
# The file of a reference

The file of a reference is looked up by its path and met in a walk of the directory of the
references. Both find the same file, unless a link is on the way: a lookup follows it and a walk
does not.
-/

namespace WorktreeTracker.PlainReader

variable {t : FileTree} {l : Layout} {dir lead rest : String}

/-! ## Parts of a name -/

theorem along_splitOn (rest : String) : along (Text.splitOn '/' rest) = rest :=
  Text.intercalate_splitOn rest

theorem relative_of_keeps (h : NameProblem.Keeps rest) : Path.Relative rest := by
  rw [Path.Relative, ← Bool.not_eq_true, Text.startsWith_iff]
  exact h.start

theorem areNames_splitOn (h : NameProblem.Keeps rest) : FileTree.AreNames (Text.splitOn '/' rest) :=
  fun _ hpart => h.ne_of_mem hpart

/-- The file of a reference is not passed over as a lock. -/
theorem Leads.isLock_looseRef (h : Leads dir lead) (hrest : NameProblem.Keeps rest) :
    (l.looseRef (lead ++ rest)).fileName?.any isLock = false := by
  obtain ⟨front, last, hsplit⟩ := (List.eq_nil_or_concat (Text.splitOn '/' rest)).resolve_left
    (Text.splitOn_ne_nil rest)
  have hmem : last ∈ Text.splitOn '/' rest := by
    rw [hsplit, List.concat_eq_append]
    exact List.mem_append_right _ List.mem_cons_self
  obtain ⟨hempty, hdot, hdots⟩ := hrest.ne_of_mem hmem
  have hcomponent : Path.componentOf? last = some (.name last) := by
    rw [Path.componentOf?, if_neg (by simp [hempty, hdot]), if_neg hdots]
  have hpieces : (Path.mk rest).pieces = front ++ [last] := by
    rw [← List.concat_eq_append, ← hsplit]
    rfl
  rw [← h.div (relative_of_keeps hrest), Path.fileName?_div _ (relative_of_keeps hrest) hpieces
    hcomponent, Option.any_some, ← Bool.not_eq_true]
  intro hlock
  obtain ⟨before, hbefore, -⟩ := (Option.any_eq_true _ _).1 hlock
  have hend : Text.endsWith ".lock" last = true := by
    rw [Text.endsWith, hbefore]
    rfl
  exact (hrest.components last hmem).2 (Text.endsWith_iff.1 hend)

/-! ## Looking up and walking -/

/-- Whether an entry is a link. -/
def isLink : Entry → Bool
  | .link _ => true
  | _ => false

variable (t l lead rest)

/-- No other file is listed under a name: a file below the directory of the references that has the
name once its backslashes are slashes has it with its own slashes. -/
def Unaliased : Prop :=
  ∀ location names contents, t.resolve (looseDirectory l lead) true = .ok (location, .directory) →
    t.Leaf location names (.file contents) → slashed (along names) = rest → along names = rest

/-- A regular file is met at the name of a reference: from the directory of the references the parts
of the name lead to it through directories alone. -/
def IsFile (contents : ByteArray) : Prop :=
  ∃ location, t.resolve (looseDirectory l lead) true = .ok (location, .directory) ∧
    t.Leaf location (Text.splitOn '/' rest) (.file contents)

/-- No link is below the directory of the references. -/
def Unlinked : Prop :=
  ∀ location, t.resolve (looseDirectory l lead) true = .ok (location, .directory) →
    ∀ names target, t.entryAt? (location ++ names) ≠ some (.link target)

variable {t l lead rest}

theorem linkFree_of_entries (h : ∀ e ∈ t.entries, isLink e.2 = false) : t.LinkFree := by
  intro place target hlink
  by_cases hnil : place = []
  · rw [hnil] at hlink
    cases hlink
  · rw [FileTree.entryAt?_of_ne_nil hnil] at hlink
    cases h _ (FileTree.mem_of_lookup hlink)

/-- In a tree without links there is none below the directory of the references. -/
theorem unlinked_of_entries (h : ∀ e ∈ t.entries, isLink e.2 = false) : Unlinked t l lead :=
  fun location _ names target => linkFree_of_entries h (location ++ names) target

/-- Without backslashes in the names of files every name is its own. -/
theorem unaliased_of_entries (h : ∀ e ∈ t.entries, ∀ name ∈ e.1, '\\' ∉ name.toList) :
    Unaliased t l lead rest := by
  intro location names contents _ hleaf hshown
  have hentry := hleaf.entryAt?
  rw [FileTree.entryAt?_of_ne_nil (by simp [hleaf.ne_nil])] at hentry
  have hplain := h _ (FileTree.mem_of_lookup hentry)
  rwa [slashed_along fun name hname => hplain name (List.mem_append_right _ hname)] at hshown

/-- At most one file is at the name of a reference. -/
theorem IsFile.unique {contents other : ByteArray} (h : IsFile t l lead rest contents)
    (hother : IsFile t l lead rest other) : contents = other := by
  obtain ⟨location, hdirectory, hleaf⟩ := h
  obtain ⟨location', hdirectory', hleaf'⟩ := hother
  obtain ⟨rfl, -⟩ := Prod.mk.inj (Except.ok.inj (hdirectory.symm.trans hdirectory'))
  exact Entry.file.inj (Option.some.inj (hleaf.entryAt?.symm.trans hleaf'.entryAt?))

/-- How the file of a reference is looked up: it is refused, or its names are followed from where
the directory of the references is. -/
theorem Leads.resolve_looseRef (h : Leads dir lead) (hrest : Path.Relative rest) (t : FileTree)
    (l : Layout) :
    (∃ fault, fault ≠ .notFound ∧ t.resolve (l.looseRef (lead ++ rest)) true = .error fault) ∨
      t.GoesOn (Text.splitOn '/' rest) (t.resolve (looseDirectory l lead) true)
        (t.resolve (l.looseRef (lead ++ rest)) true) := by
  obtain ⟨hne, hend⟩ := h.text_looseDirectory (l := l)
  rw [← h.div hrest]
  exact FileTree.resolve_div hrest hne hend

/-- A file that is looked up without a link on the way is met at the name of the reference. -/
theorem Leads.isFile_of_resolve (h : Leads dir lead) (hrest : NameProblem.Keeps rest)
    (hunlinked : ∀ location, t.resolve (looseDirectory l lead) true = .ok (location, .directory) →
      ∀ front back target, Text.splitOn '/' rest = front ++ back →
        t.entryAt? (location ++ front) ≠ some (.link target))
    {place : Location} {contents : ByteArray}
    (hresolve : t.resolve (l.looseRef (lead ++ rest)) true = .ok (place, .file contents)) :
    IsFile t l lead rest contents := by
  rcases h.resolve_looseRef (relative_of_keeps hrest) t l with ⟨fault, -, hfault⟩ |
    ⟨fault, -, hfault⟩ | ⟨location, entry, left, hdirectory, hentry, hnames⟩
  · cases hfault.symm.trans hresolve
  · cases hfault.symm.trans hresolve
  · rw [hresolve] at hnames
    -- the names lead on from where the directory of the references is, so a directory is there
    have hstart := FileTree.directory_of_followLinks (Text.splitOn_ne_nil rest) hnames.symm
    obtain rfl := Option.some.inj (hentry.symm.trans hstart)
    exact ⟨location, hdirectory, FileTree.leaf_of_followLinks (Text.splitOn_ne_nil rest)
      (areNames_splitOn hrest) (hunlinked location hdirectory) hnames.symm⟩

/-- A file at the name of a reference is what a lookup finds, unless the path is refused. -/
theorem Leads.resolve_of_isFile (h : Leads dir lead) (hrest : NameProblem.Keeps rest)
    {contents : ByteArray} (hfile : IsFile t l lead rest contents) :
    (∃ fault, fault ≠ .notFound ∧ t.resolve (l.looseRef (lead ++ rest)) true = .error fault) ∨
      ∃ place, t.resolve (l.looseRef (lead ++ rest)) true = .ok (place, .file contents) := by
  obtain ⟨location, hdirectory, hleaf⟩ := hfile
  rcases h.resolve_looseRef (relative_of_keeps hrest) t l with hfault | ⟨fault, hfault, -⟩ |
    ⟨place, entry, left, hfound, hentry, hnames⟩
  · exact .inl hfault
  · cases hfault.symm.trans hdirectory
  · obtain ⟨rfl, rfl⟩ := Prod.mk.inj (Except.ok.inj (hfound.symm.trans hdirectory))
    exact .inr ⟨_, hnames.trans (hleaf.followLinks hentry)⟩

/-- Without a link below the directory of the references, the file that is read at the path of a
reference is the one at its name. -/
theorem Leads.isFile_iff (h : Leads dir lead) (hrest : NameProblem.Keeps rest)
    (hunlinked : Unlinked t l lead) {contents : ByteArray}
    (hsize : (l.looseRef (lead ++ rest)).text.utf8ByteSize < FileTree.pathLengthLimit) :
    IsFile t l lead rest contents ↔ t.readFile (l.looseRef (lead ++ rest)) = .ok contents := by
  rw [FileTree.readFile_eq_ok_iff]
  constructor
  · rintro ⟨location, hdirectory, hleaf⟩
    obtain ⟨hne, hend⟩ := h.text_looseDirectory (l := l)
    have hrel := relative_of_keeps hrest
    -- the path is not refused: neither the directory that was found nor the name has a zero in it
    have hplain : FileTree.IsPlainText (looseDirectory l lead / rest).text := by
      have hzero : '\x00' ∉ (looseDirectory l lead).text.toList := by
        intro hzero
        rw [FileTree.resolve, if_pos (by simpa using hzero)] at hdirectory
        cases hdirectory
      have hname : '\x00' ∉ rest.toList := by
        intro hzero
        exact absurd (hrest.control _ hzero) (by decide)
      refine ⟨?_, ?_, ?_⟩
      · rw [FileTree.text_div_of_ending hrel hne hend]
        simp [hne]
      · rw [FileTree.text_div_of_ending hrel hne hend]
        simp [hzero, hname]
      · rw [h.div hrel]
        exact hsize
    have hgoes := FileTree.goesOn_div (t := t) hrel hne hend hplain
    rw [hdirectory] at hgoes
    obtain ⟨hentry, left, hnames⟩ := hgoes.ok
    rw [← h.div hrel]
    exact ⟨_, hnames.trans (hleaf.followLinks hentry)⟩
  · rintro ⟨place, hresolve⟩
    refine h.isFile_of_resolve hrest ?_ hresolve
    intro location hdirectory front back target _
    exact hunlinked location hdirectory front target

end WorktreeTracker.PlainReader
