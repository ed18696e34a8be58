import WorktreeTracker.Proofs.FileTree.Without
import WorktreeTracker.Proofs.PlainReader.Exactness

/-!
# Files that a listing does not need

A listing reads every regular file below the directory of its references, whatever the file is
called, and looks at names only at the end. So a file is unnoticed by a listing in a few cases alone:
it is a lock, the listing fails before it comes to the file, or the file can be read and its name is
no reference, is taken by a later file, or has what the file says anyway. A file that cannot be read
makes the listing fail, also when its name is no reference.
-/

namespace WorktreeTracker.PlainReader

variable {t : FileTree} {l : Layout} {dir lead rest : String} {place : Location}
  {contents : ByteArray}

/-! ## Tables with one more entry -/

/-- One more entry is without effect on what is listed when no reference can have its name, when a
later entry has the name, or when the name is listed with the value of the entry anyway. -/
theorem directRefs_insert_iff {front back : List (String × Option Oid)} {name : String}
    {value : Option Oid} :
    directRefs (.ofList (front ++ back)) = directRefs (.ofList (front ++ (name, value) :: back)) ↔
      ¬ NameProblem.Keeps name ∨ (∃ e ∈ back, e.1 = name) ∨
        ∀ oid, (⟨name⟩, oid) ∈ directRefs (.ofList (front ++ back)) ↔ value = some oid := by
  have hfind (key : String) : (OrderedMap.ofList (front ++ (name, value) :: back)).find? key =
      ((OrderedMap.ofList back).find? key).or
        ((if key = name then some value else none).or ((OrderedMap.ofList front).find? key)) := by
    rw [OrderedMap.find?_ofList_append, OrderedMap.find?_ofList_cons, Option.or_assoc]
  have hother (key : String) (hkey : key ≠ name ∨ ∃ e ∈ back, e.1 = name) :
      (OrderedMap.ofList (front ++ (name, value) :: back)).find? key =
        (OrderedMap.ofList (front ++ back)).find? key := by
    rw [hfind, OrderedMap.find?_ofList_append]
    by_cases hname : key = name
    · obtain ⟨e, he, heq⟩ := hkey.resolve_left fun hne => hne hname
      -- what the later entries have is found first
      obtain ⟨found, hfound⟩ := Option.ne_none_iff_exists'.1 fun hnone =>
        OrderedMap.find?_ofList_eq_none_iff.1 hnone e he (heq.trans hname.symm)
      rw [hfound, Option.some_or, Option.some_or]
    · rw [if_neg hname, Option.none_or]
  by_cases hkeeps : NameProblem.Keeps name
  swap
  · refine iff_of_true (directRefs_ext fun other oid => ?_) (.inl hkeeps)
    rw [mem_directRefs_iff, mem_directRefs_iff]
    refine and_congr_left fun hrules => ?_
    rw [hother other.text (.inl fun heq => hkeeps (heq ▸ NameProblem.find?_eq_none_iff.1 hrules))]
  by_cases hlater : ∃ e ∈ back, e.1 = name
  · refine iff_of_true (directRefs_ext fun other oid => ?_) (.inr (.inl hlater))
    rw [mem_directRefs_iff, mem_directRefs_iff, hother other.text (.inr hlater)]
  -- the entry is what is found under its name
  have hself (oid : Oid) :
      (⟨name⟩, oid) ∈ directRefs (.ofList (front ++ (name, value) :: back)) ↔ value = some oid := by
    have hnone : (OrderedMap.ofList back).find? name = none :=
      OrderedMap.find?_ofList_eq_none_iff.2 fun e he heq => hlater ⟨e, he, heq⟩
    rw [mem_directRefs_iff, hfind, hnone, if_pos rfl, Option.none_or, Option.some_or,
      Option.some.injEq, and_iff_left]
    exact NameProblem.find?_eq_none_iff.2 hkeeps
  constructor
  · intro hsame
    exact .inr (.inr fun oid => by rw [hsame, hself])
  · intro h
    have hknown := (h.resolve_left (not_not.2 hkeeps)).resolve_left hlater
    refine directRefs_ext fun ⟨text⟩ oid => ?_
    by_cases htext : text = name
    · rw [htext, hself, hknown]
    · rw [mem_directRefs_iff, mem_directRefs_iff, hother text (.inl htext)]

/-! ## One more file -/

variable (l) in
/-- What a listing reads in a file. -/
abbrev looseRead (file : Path × ByteArray) : Except ReadError (Option (String × Option Oid)) :=
  looseEntry? l file.1 file.2

variable (l) in
/-- A file stops the listing that comes to it. -/
def Refused (file : Path × ByteArray) : Prop := ∃ err, looseRead l file = .error err

/-- The refusals of files at different paths differ. -/
theorem path_eq_of_refusal {file other : Path × ByteArray} {err : ReadError}
    (h : looseRead l file = .error err) (hother : looseRead l other = .error err) :
    file.1 = other.1 := by
  have hnamed {path : Path} {contents : ByteArray} (h : looseEntry? l path contents = .error err) :
      err = .ofFault path .notText ∨ ∃ problem, err = .corrupt path problem := by
    unfold looseEntry? at h
    split at h
    next => cases h
    next =>
      split at h
      next => cases h
      next =>
        rcases bind_eq_error.1 h with htext | ⟨text, -, h⟩
        · obtain ⟨fault, hfault, rfl⟩ := mapError_eq_error.1 htext
          rcases decodeText_cases contents with ⟨text, hread⟩ | hnot
          · cases hread.symm.trans hfault
          · exact .inl (by rw [Except.error.inj (hnot.symm.trans hfault)])
        · rcases bind_eq_error.1 h with hvalue | ⟨value, -, h⟩
          · obtain ⟨e, he⟩ := RefFile.parse_eq_error hvalue
            exact .inr ⟨_, he⟩
          · cases h
  rcases hnamed h with rfl | ⟨problem, rfl⟩
  · rcases hnamed hother with heq | ⟨problem, heq⟩
    · have htext : file.1.text ++ ": " ++ Fault.notText.message =
          other.1.text ++ ": " ++ Fault.notText.message := ReadError.access.inj heq
      rw [String.append_left_inj, String.append_left_inj] at htext
      exact congrArg Path.mk htext
    · cases heq
  · rcases hnamed hother with heq | ⟨problem, heq⟩
    · cases heq
    · exact (ReadError.corrupt.inj heq).1

variable (l lead) in
/-- The direct references of the lines of the packed file and of loose files. -/
def listed (packed : List (String × Oid)) (files : List (Path × ByteArray)) :
    Except ReadError (List (RefName × Oid)) :=
  (files.mapM (looseRead l)).map fun loose =>
    directRefs (.ofList (packedEntries lead packed ++ loose.filterMap id))

theorem listRefs_eq_listed (t : FileTree) :
    listRefs t l lead =
      packedRefs t l >>= fun packed => listed l lead packed (looseFiles t l lead) := by
  have hentries : refEntries t l lead = packedRefs t l >>= fun packed =>
      (looseFiles t l lead).mapM (looseRead l) >>= fun loose =>
        .ok (packedEntries lead packed ++ loose.filterMap id) := rfl
  rw [listRefs, hentries]
  cases packedRefs t l with
  | error err => rfl
  | ok packed =>
    simp only [bind, Except.bind, listed]
    cases (looseFiles t l lead).mapM (looseRead l) <;> rfl

section

variable {packed : List (String × Oid)} {before after : List (Path × ByteArray)}
  {front : List (Option (String × Option Oid))} {err : ReadError}

/-- What the first files give stands before what the others give. -/
theorem listed_append {back : List (Option (String × Option Oid))}
    (hbefore : before.mapM (looseRead l) = .ok front)
    (hafter : after.mapM (looseRead l) = .ok back) :
    listed l lead packed (before ++ after) = .ok (directRefs (.ofList
      (packedEntries lead packed ++ front.filterMap id ++ back.filterMap id))) := by
  rw [listed, List.mapM_append, hbefore, hafter, List.append_assoc, ← List.filterMap_append]
  rfl

/-- A refusal of one of the first files is reported. -/
theorem listed_of_refused_before (hbefore : before.mapM (looseRead l) = .error err) :
    listed l lead packed (before ++ after) = .error err := by
  rw [listed, List.mapM_append, hbefore]
  rfl

/-- A refusal of a later file is reported when the first files can be read. -/
theorem listed_of_refused_after (hbefore : before.mapM (looseRead l) = .ok front)
    (hafter : after.mapM (looseRead l) = .error err) :
    listed l lead packed (before ++ after) = .error err := by
  rw [listed, List.mapM_append, hbefore, hafter]
  rfl

/-- Files give an entry under a name when one of them is listed under it. -/
theorem exists_entry_iff {back : List (Option (String × Option Oid))}
    (hafter : after.mapM (looseRead l) = .ok back) {name : String} :
    (∃ e ∈ back.filterMap id, e.1 = name) ↔
      ∃ file ∈ after, isListedAs l name file.1 = true := by
  constructor
  · rintro ⟨e, he, rfl⟩
    obtain ⟨file, hfile, hread⟩ := (mem_filterMap_of_mapM hafter).1 he
    rcases looseEntry?_cases hread with ⟨hnone, -⟩ | ⟨shown, text, value, hsome, -, -, hname⟩
    · cases hnone
    · obtain rfl := Option.some.inj hsome
      exact ⟨file, hfile, by rw [hname, decide_eq_true rfl]⟩
  · rintro ⟨file, hfile, hlisted⟩
    obtain ⟨found, -, hread⟩ := exists_of_mapM hafter hfile
    rcases looseEntry?_cases hread with ⟨-, hnot⟩ | ⟨shown, text, value, rfl, -, -, hname⟩
    · cases hlisted.symm.trans (hnot name)
    · rw [hname] at hlisted
      exact ⟨_, (mem_filterMap_of_mapM hafter).2 ⟨file, hfile, hread⟩, of_decide_eq_true hlisted⟩

/-- What is listed of other files is not the refusal of a file that is at none of their paths. -/
theorem listed_ne_refusal {file : Path × ByteArray} (hbefore : before.mapM (looseRead l) = .ok front)
    (hfile : looseRead l file = .error err) (hpath : ∀ other ∈ after, other.1 ≠ file.1) :
    listed l lead packed (before ++ after) ≠ .error err := by
  intro hsame
  cases hafter : after.mapM (looseRead l) with
  | error other =>
    rw [listed_of_refused_after hbefore hafter] at hsame
    obtain rfl := Except.error.inj hsame
    obtain ⟨late, hlate, herr⟩ := mapM_eq_error hafter
    exact hpath late hlate (path_eq_of_refusal herr hfile)
  | ok back =>
    rw [listed_append hbefore hafter] at hsame
    cases hsame

/-- What is listed is the same without a file exactly when the file is passed over, when a file before
it is refused, or when it can be read and is without effect on what is listed. -/
theorem listed_same_iff (lead : String) (packed : List (String × Oid)) (file : Path × ByteArray)
    (hpath : ∀ other ∈ after, other.1 ≠ file.1) :
    listed l lead packed (before ++ after) = listed l lead packed (before ++ file :: after) ↔
      looseRead l file = .ok none ∨ (∃ other ∈ before, Refused l other) ∨
        ∃ name value, looseRead l file = .ok (some (name, value)) ∧
          (¬ NameProblem.Keeps name ∨ (∃ other ∈ after, isListedAs l name other.1 = true) ∨
            ∀ refs, listed l lead packed (before ++ after) = .ok refs →
              ∀ oid, (⟨name⟩, oid) ∈ refs ↔ value = some oid) := by
  cases hbefore : before.mapM (looseRead l) with
  | error err =>
    obtain ⟨other, hother, herr⟩ := mapM_eq_error hbefore
    rw [listed_of_refused_before hbefore, listed_of_refused_before hbefore]
    exact iff_of_true rfl (.inr (.inl ⟨other, hother, err, herr⟩))
  | ok front =>
    have hread : ¬ ∃ other ∈ before, Refused l other := by
      rintro ⟨other, hother, err, herr⟩
      obtain ⟨_, -, hok⟩ := exists_of_mapM hbefore hother
      cases herr.symm.trans hok
    cases hfile : looseRead l file with
    | error err =>
      have hfiles : (file :: after).mapM (looseRead l) = .error err := by
        rw [List.mapM_cons, hfile]
        rfl
      rw [listed_of_refused_after hbefore hfiles]
      refine iff_of_false (listed_ne_refusal hbefore hfile hpath) ?_
      rintro (hnone | hrefused | ⟨name, value, hsome, -⟩)
      · cases hnone
      · exact hread hrefused
      · cases hsome
    | ok found =>
      cases hafter : after.mapM (looseRead l) with
      | error err =>
        have hfiles : (file :: after).mapM (looseRead l) = .error err := by
          rw [List.mapM_cons, hfile, hafter]
          rfl
        rw [listed_of_refused_after hbefore hafter, listed_of_refused_after hbefore hfiles]
        refine iff_of_true rfl ?_
        cases found with
        | none => exact .inl rfl
        | some entry =>
          exact .inr (.inr ⟨entry.1, entry.2, rfl, .inr (.inr fun refs hrefs => nomatch hrefs)⟩)
      | ok back =>
        have hfiles : (file :: after).mapM (looseRead l) = .ok (found :: back) := by
          rw [List.mapM_cons, hfile, hafter]
          rfl
        rw [listed_append hbefore hafter, listed_append hbefore hfiles]
        cases found with
        | none => exact iff_of_true rfl (.inl rfl)
        | some entry =>
          obtain ⟨name, value⟩ := entry
          have hcons : (some (name, value) :: back).filterMap id =
              (name, value) :: back.filterMap id := rfl
          rw [hcons, Except.ok.injEq, directRefs_insert_iff, exists_entry_iff hafter]
          constructor
          · intro h
            refine .inr (.inr ⟨name, value, rfl, h.imp_right (Or.imp_right ?_)⟩)
            rintro hknown refs hrefs
            rwa [← Except.ok.inj hrefs]
          · rintro (hnone | hrefused | ⟨other, found, hsome, h⟩)
            · cases hnone
            · exact absurd hrefused hread
            · obtain ⟨rfl, rfl⟩ := Prod.mk.inj (Option.some.inj (Except.ok.inj hsome))
              exact h.imp_right (Or.imp_right fun hknown => hknown _ rfl)

end

/-! ## The files that are met -/

/-- The files that are met below the directory of the references, by their path. -/
theorem Leads.looseFiles_of_directory (h : Leads dir lead) {location : Location}
    (hdirectory : t.resolve (looseDirectory l lead) true = .ok (location, .directory)) :
    looseFiles t l lead =
      (t.filesBelow location).map fun file => (l.looseRef (lead ++ along file.1), file.2) := by
  rw [looseFiles, hdirectory, filesUnder]
  refine List.map_congr_left fun file hfile => ?_
  have hleaf := FileTree.mem_filesBelow_iff.1 hfile
  exact congrArg (·, file.2) (h.div_along hleaf.ne_nil hleaf.isEntryName)

/-- No files are met when there is no such directory. -/
theorem looseFiles_of_no_directory
    (h : ∀ location, t.resolve (looseDirectory l lead) true ≠ .ok (location, .directory)) :
    looseFiles t l lead = [] := by
  rw [looseFiles]
  generalize t.resolve (looseDirectory l lead) true = found at h ⊢
  rcases found with fault | ⟨location, entry⟩
  · rfl
  · cases entry with
    | directory => exact absurd rfl (h location)
    | file contents => rfl
    | link target => rfl

/-- Different names lead to different paths. -/
theorem Leads.names_eq (h : Leads dir lead) {location : Location} {names names' : List String}
    {entry entry' : Entry} (hleaf : t.Leaf location names entry)
    (hleaf' : t.Leaf location names' entry')
    (hpath : l.looseRef (lead ++ along names) = l.looseRef (lead ++ along names')) :
    names = names' := by
  have hname := h.after?_looseRef (l := l) hleaf.ne_nil hleaf.isEntryName
  rw [hpath, h.after?_looseRef hleaf'.ne_nil hleaf'.isEntryName, Option.some.injEq,
    String.append_right_inj] at hname
  rw [← pieces_along hleaf.ne_nil hleaf.isEntryName, ← hname,
    pieces_along hleaf'.ne_nil hleaf'.isEntryName]

/-- No path is met twice. -/
theorem Leads.nodup_looseFiles (h : Leads dir lead) (t : FileTree) (l : Layout) :
    ((looseFiles t l lead).map Prod.fst).Nodup := by
  by_cases hdirectory : ∃ location,
      t.resolve (looseDirectory l lead) true = .ok (location, .directory)
  · obtain ⟨location, hdirectory⟩ := hdirectory
    have hpaths : (looseFiles t l lead).map Prod.fst =
        ((t.filesBelow location).map Prod.fst).map fun names => l.looseRef (lead ++ along names) := by
      rw [h.looseFiles_of_directory hdirectory, List.map_map, List.map_map]
      rfl
    rw [hpaths]
    refine (FileTree.nodup_filesBelow location).map_on fun names hmem other hother hpath => ?_
    obtain ⟨⟨_, contents⟩, hfile, rfl⟩ := List.mem_map.1 hmem
    obtain ⟨⟨_, found⟩, hfound, rfl⟩ := List.mem_map.1 hother
    exact h.names_eq (FileTree.mem_filesBelow_iff.1 hfile) (FileTree.mem_filesBelow_iff.1 hfound)
      hpath
  · rw [looseFiles_of_no_directory fun location hfound => hdirectory ⟨location, hfound⟩]
    exact .nil

variable (t l lead place contents) in
/-- A listing meets the file at a place, by its names below the directory of the references. -/
def Meets (names : List String) : Prop :=
  ∃ location, t.resolve (looseDirectory l lead) true = .ok (location, .directory) ∧
    location ++ names = place ∧ t.Leaf location names (.file contents)

variable {names : List String}

/-- Without a file that is met the listing meets the others. -/
theorem Leads.looseFiles_without (h : Leads dir lead)
    (hmeets : Meets t l lead place contents names) :
    looseFiles (t.without place) l lead =
      (looseFiles t l lead).filter fun file => file.1 ≠ l.looseRef (lead ++ along names) := by
  obtain ⟨location, hdirectory, rfl, hleaf⟩ := hmeets
  have hfile := hleaf.entryAt?
  rw [h.looseFiles_of_directory hdirectory,
    h.looseFiles_of_directory (FileTree.resolve_without_directory hfile hdirectory),
    FileTree.filesBelow_without hfile, List.filter_map]
  refine congrArg (List.map _) (List.filter_congr fun file hmem => ?_)
  have hother := FileTree.mem_filesBelow_iff.1 hmem
  by_cases hnames : file.1 = names
  · simp [hnames]
  · have hpath : l.looseRef (lead ++ along file.1) ≠ l.looseRef (lead ++ along names) :=
      fun heq => hnames (h.names_eq hother hleaf heq)
    simp [hnames, hpath]

/-- Without a file that is not met the listing meets the same. -/
theorem Leads.looseFiles_without_of_not (h : Leads dir lead)
    (hfile : t.entryAt? place = some (.file contents))
    (hmeets : ∀ names, ¬ Meets t l lead place contents names) :
    looseFiles (t.without place) l lead = looseFiles t l lead := by
  by_cases hdirectory : ∃ location,
      t.resolve (looseDirectory l lead) true = .ok (location, .directory)
  · obtain ⟨location, hdirectory⟩ := hdirectory
    rw [h.looseFiles_of_directory hdirectory,
      h.looseFiles_of_directory (FileTree.resolve_without_directory hfile hdirectory),
      FileTree.filesBelow_without hfile, List.filter_eq_self.2]
    rintro ⟨names, found⟩ hmem
    have hleaf := FileTree.mem_filesBelow_iff.1 hmem
    refine decide_eq_true fun hplace => hmeets names ⟨location, hdirectory, hplace, ?_⟩
    have hentry := hleaf.entryAt?
    rw [hplace, hfile] at hentry
    rwa [Entry.file.inj (Option.some.inj hentry)]
  · have hnone (location : Location) :
        t.resolve (looseDirectory l lead) true ≠ .ok (location, .directory) :=
      fun hfound => hdirectory ⟨location, hfound⟩
    rw [looseFiles_of_no_directory hnone, looseFiles_of_no_directory]
    exact fun location hfound => hnone location (FileTree.resolve_of_resolve_without hfile hfound)

/-- A file that is met is read between others, and without it the others are read. -/
theorem Leads.looseFiles_without_of_split (h : Leads dir lead)
    (hmeets : Meets t l lead place contents names) {before after : List (Path × ByteArray)}
    (hfiles : looseFiles t l lead =
      before ++ (l.looseRef (lead ++ along names), contents) :: after) :
    looseFiles (t.without place) l lead = before ++ after ∧
      ∀ other ∈ after, other.1 ≠ l.looseRef (lead ++ along names) := by
  have hnodup := h.nodup_looseFiles t l
  rw [hfiles, List.map_append, List.map_cons, List.nodup_middle, List.nodup_cons,
    List.mem_append, not_or] at hnodup
  obtain ⟨⟨hbefore, hafter⟩, -⟩ := hnodup
  have hother {files : List (Path × ByteArray)}
      (hpath : l.looseRef (lead ++ along names) ∉ files.map Prod.fst) :
      ∀ other ∈ files, other.1 ≠ l.looseRef (lead ++ along names) :=
    fun other hmem heq => hpath (heq ▸ List.mem_map_of_mem hmem)
  refine ⟨?_, hother hafter⟩
  rw [h.looseFiles_without hmeets, hfiles, List.filter_append, List.filter_cons_of_neg (by simp),
    List.filter_eq_self.2 fun other hmem => decide_eq_true (hother hbefore other hmem),
    List.filter_eq_self.2 fun other hmem => decide_eq_true (hother hafter other hmem)]

/-- A file that is met is one of those that are read. -/
theorem Leads.exists_split (h : Leads dir lead) (hmeets : Meets t l lead place contents names) :
    ∃ before after, looseFiles t l lead =
      before ++ (l.looseRef (lead ++ along names), contents) :: after := by
  obtain ⟨location, hdirectory, -, hleaf⟩ := hmeets
  exact List.append_of_mem (h.mem_looseFiles_iff.2 ⟨location, names, hdirectory, hleaf, rfl⟩)

/-- The packed references are the same without a file that their path leads neither to nor
through. -/
theorem packedRefs_without (hfile : t.entryAt? place = some (.file contents))
    (hfound : ∀ entry, t.resolve l.packedRefs true ≠ .ok (place, entry))
    (hthrough : t.resolve l.packedRefs true ≠ .error .notADirectory) :
    packedRefs (t.without place) l = packedRefs t l := by
  have hresolve := FileTree.resolve_without hfile hfound hthrough
  rw [packedRefs, packedRefs, readOptional, readOptional, FileTree.readText, FileTree.readText,
    FileTree.readFile, FileTree.readFile, FileTree.entry, FileTree.entry, hresolve]

/-! ## Unnoticed files -/

/-- The contents of the file at a path say something. -/
def FileSays (path : Path) (contents : ByteArray) (value : RefValue) : Prop :=
  ∃ text, FileTree.decodeText contents = .ok text ∧ RefFile.parse path text = .ok value

variable (t l lead contents names) in
/-- The listing fails before it comes to a file: the packed references cannot be read, or a loose
file that is met earlier. -/
def Unread : Prop :=
  (∃ err, packedRefs t l = .error err) ∨
    ∃ before after, looseFiles t l lead =
        before ++ (l.looseRef (lead ++ along names), contents) :: after ∧
      ∃ file ∈ before, Refused l file

variable (t l lead place contents names) in
/-- Why a listing is the same without a file that it meets. -/
inductive Unnoticed : Prop
  /-- The file is passed over as a lock. -/
  | lock (h : (l.looseRef (lead ++ along names)).fileName?.any isLock = true)
  /-- The listing does not come to the file. -/
  | unread (h : Unread t l lead contents names)
  /-- The file can be read, and no reference can have its name. -/
  | unlisted {value : RefValue} (hvalue : FileSays (l.looseRef (lead ++ along names)) contents value)
    (h : ¬ NameProblem.Keeps (lead ++ slashed (along names)))
  /-- The file can be read, and a file that is met later is listed under its name. -/
  | covered {value : RefValue} (hvalue : FileSays (l.looseRef (lead ++ along names)) contents value)
    {before after : List (Path × ByteArray)}
    (hfiles : looseFiles t l lead =
      before ++ (l.looseRef (lead ++ along names), contents) :: after)
    (h : ∃ file ∈ after, isListedAs l (lead ++ slashed (along names)) file.1 = true)
  /-- The file says what is listed under its name without it. -/
  | known {value : RefValue} (hvalue : FileSays (l.looseRef (lead ++ along names)) contents value)
    (h : ∀ refs, listRefs (t.without place) l lead = .ok refs →
      ∀ oid, (⟨lead ++ slashed (along names)⟩, oid) ∈ refs ↔ value.oid? = some oid)

/-- Whether a listing is the same without a file that it meets is told by what it reads in the file
and by the files that it reads before and after. -/
theorem Leads.listRefs_split_iff (h : Leads dir lead)
    (hmeets : Meets t l lead place contents names)
    (hsame : packedRefs (t.without place) l = packedRefs t l) {packed : List (String × Oid)}
    (hpacked : packedRefs t l = .ok packed) {before after : List (Path × ByteArray)}
    (hfiles : looseFiles t l lead =
      before ++ (l.looseRef (lead ++ along names), contents) :: after) :
    listRefs (t.without place) l lead = listRefs t l lead ↔
      looseRead l (l.looseRef (lead ++ along names), contents) = .ok none ∨
        (∃ other ∈ before, Refused l other) ∨
        ∃ name value, looseRead l (l.looseRef (lead ++ along names), contents) =
            .ok (some (name, value)) ∧
          (¬ NameProblem.Keeps name ∨ (∃ other ∈ after, isListedAs l name other.1 = true) ∨
            ∀ refs, listRefs (t.without place) l lead = .ok refs →
              ∀ oid, (⟨name⟩, oid) ∈ refs ↔ value = some oid) := by
  obtain ⟨hwithout, hpath⟩ := h.looseFiles_without_of_split hmeets hfiles
  rw [listRefs_eq_listed, listRefs_eq_listed, hsame, hpacked, hwithout, hfiles]
  simp only [bind, Except.bind]
  exact listed_same_iff lead packed _ hpath

/-- A listing is the same without a file that it meets exactly when the file is unnoticed. -/
theorem Leads.listRefs_same_iff (h : Leads dir lead)
    (hmeets : Meets t l lead place contents names)
    (hsame : packedRefs (t.without place) l = packedRefs t l) :
    listRefs (t.without place) l lead = listRefs t l lead ↔
      Unnoticed t l lead place contents names := by
  cases hpacked : packedRefs t l with
  | error err =>
    have hboth : listRefs (t.without place) l lead = listRefs t l lead := by
      rw [listRefs_eq_listed, listRefs_eq_listed, hsame, hpacked]
      simp only [bind, Except.bind]
    exact iff_of_true hboth (.unread (.inl ⟨err, hpacked⟩))
  | ok packed =>
    obtain ⟨location, -, -, hleaf⟩ := id hmeets
    obtain ⟨before, after, hfiles⟩ := h.exists_split hmeets
    have hsplit := h.listRefs_split_iff hmeets hsame hpacked hfiles
    constructor
    · intro heq
      rcases hsplit.1 heq with hnone | hrefused | ⟨name, value, hsome, heffect⟩
      · rcases (h.looseEntry?_eq_ok_iff hleaf.ne_nil hleaf.isEntryName).1 hnone with
          ⟨hlock, -⟩ | ⟨-, _, _, -, -, hfalse⟩
        · exact .lock hlock
        · cases hfalse
      · exact .unread (.inr ⟨before, after, hfiles, hrefused⟩)
      · rcases (h.looseEntry?_eq_ok_iff hleaf.ne_nil hleaf.isEntryName).1 hsome with
          ⟨-, hfalse⟩ | ⟨-, text, said, htext, hsaid, hentry⟩
        · cases hfalse
        obtain ⟨rfl, rfl⟩ := Prod.mk.inj (Option.some.inj hentry)
        rcases heffect with hkeeps | hcovered | hknown
        · exact .unlisted ⟨text, htext, hsaid⟩ hkeeps
        · exact .covered ⟨text, htext, hsaid⟩ hfiles hcovered
        · exact .known ⟨text, htext, hsaid⟩ hknown
    · intro hunnoticed
      by_cases hlock : (l.looseRef (lead ++ along names)).fileName?.any isLock = true
      · exact hsplit.2 (.inl ((h.looseEntry?_eq_ok_iff hleaf.ne_nil hleaf.isEntryName).2
          (.inl ⟨hlock, rfl⟩)))
      have hentry {value : RefValue}
          (hvalue : FileSays (l.looseRef (lead ++ along names)) contents value) :
          looseRead l (l.looseRef (lead ++ along names), contents) =
            .ok (some (lead ++ slashed (along names), value.oid?)) := by
        obtain ⟨text, htext, hsaid⟩ := hvalue
        exact (h.looseEntry?_eq_ok_iff hleaf.ne_nil hleaf.isEntryName).2
          (.inr ⟨Bool.not_eq_true _ ▸ hlock, text, value, htext, hsaid, rfl⟩)
      cases hunnoticed with
      | lock hlocked => exact absurd hlocked hlock
      | unread hunread =>
        rcases hunread with ⟨err, herr⟩ | ⟨before, after, hfiles, hrefused⟩
        · cases hpacked.symm.trans herr
        · exact (h.listRefs_split_iff hmeets hsame hpacked hfiles).2 (.inr (.inl hrefused))
      | unlisted hvalue hkeeps =>
        exact hsplit.2 (.inr (.inr ⟨_, _, hentry hvalue, .inl hkeeps⟩))
      | covered hvalue hfiles hcovered =>
        exact (h.listRefs_split_iff hmeets hsame hpacked hfiles).2
          (.inr (.inr ⟨_, _, hentry hvalue, .inr (.inl hcovered)⟩))
      | known hvalue hknown =>
        exact hsplit.2 (.inr (.inr ⟨_, _, hentry hvalue, .inr (.inr hknown)⟩))

/-- A file says something when its text is not malformed. -/
theorem exists_fileSays_iff {path : Path} :
    (∃ value, FileSays path contents value) ↔
      ∃ text, FileTree.decodeText contents = .ok text ∧ ¬ RefFile.Malformed text := by
  constructor
  · rintro ⟨value, text, htext, hvalue⟩
    refine ⟨text, htext, fun hmalformed => ?_⟩
    obtain ⟨problem, hproblem⟩ := RefFile.parse_of_malformed hmalformed path
    cases hvalue.symm.trans hproblem
  · rintro ⟨text, htext, hread⟩
    rcases RefFile.says_cases text with ⟨target, hvalue⟩ | ⟨oid, hvalue⟩ | hmalformed
    · exact ⟨_, text, htext, RefFile.parse_of_saysRef hvalue path⟩
    · exact ⟨_, text, htext, RefFile.parse_of_saysId hvalue path⟩
    · exact absurd hmalformed hread

/-- A file whose own name no reference can have is unnoticed exactly when it is a lock, when the
listing does not come to it or when it can be read. -/
theorem unnoticed_stray_iff (hplain : '\\' ∉ (along names).toList)
    (hkeeps : ¬ NameProblem.Keeps (lead ++ along names)) :
    Unnoticed t l lead place contents names ↔
      (l.looseRef (lead ++ along names)).fileName?.any isLock = true ∨
        Unread t l lead contents names ∨
        ∃ text, FileTree.decodeText contents = .ok text ∧ ¬ RefFile.Malformed text := by
  rw [← exists_fileSays_iff]
  constructor
  · rintro (hlock | hunread | ⟨hvalue, -⟩ | ⟨hvalue, -, -⟩ | ⟨hvalue, -⟩)
    · exact .inl hlock
    · exact .inr (.inl hunread)
    · exact .inr (.inr ⟨_, hvalue⟩)
    · exact .inr (.inr ⟨_, hvalue⟩)
    · exact .inr (.inr ⟨_, hvalue⟩)
  · rintro (hlock | hunread | ⟨value, hvalue⟩)
    · exact .lock hlock
    · exact .unread hunread
    · exact .unlisted hvalue (by rwa [slashed_of_not_mem hplain])

/-- A listing of local or of remote-tracking references is the same without a file exactly when the
file is unnoticed wherever the listing meets it, as long as the packed references are the same. They
are when their path leads neither to the file nor through one. A file with a name that no reference
can have is unnoticed when it is a lock or when the listing fails before it comes to it, and else
exactly when the file can be read: one that cannot be read makes the listing fail. -/
theorem listRefs_without {lead : String} (hlead : lead = RefName.heads ∨ lead = RefName.remotes)
    (hfile : t.entryAt? place = some (.file contents)) :
    ((∀ entry, t.resolve l.packedRefs true ≠ .ok (place, entry)) →
        t.resolve l.packedRefs true ≠ .error .notADirectory →
        packedRefs (t.without place) l = packedRefs t l) ∧
      (packedRefs (t.without place) l = packedRefs t l →
        (listRefs (t.without place) l lead = listRefs t l lead ↔
          ∀ names, Meets t l lead place contents names →
            Unnoticed t l lead place contents names) ∧
        ∀ names, Meets t l lead place contents names → '\\' ∉ (along names).toList →
          ¬ NameProblem.Keeps (lead ++ along names) →
          (listRefs (t.without place) l lead = listRefs t l lead ↔
            (l.looseRef (lead ++ along names)).fileName?.any isLock = true ∨
              Unread t l lead contents names ∨
              ∃ text, FileTree.decodeText contents = .ok text ∧ ¬ RefFile.Malformed text)) := by
  obtain ⟨dir, h⟩ : ∃ dir, Leads dir lead := by
    rcases hlead with rfl | rfl
    · exact ⟨_, leads_heads⟩
    · exact ⟨_, leads_remotes⟩
  refine ⟨packedRefs_without hfile, fun hpacked => ⟨⟨?_, fun hunnoticed => ?_⟩, ?_⟩⟩
  · intro hsame names hmeets
    exact (h.listRefs_same_iff hmeets hpacked).1 hsame
  · by_cases hmet : ∃ names, Meets t l lead place contents names
    · obtain ⟨names, hmeets⟩ := hmet
      exact (h.listRefs_same_iff hmeets hpacked).2 (hunnoticed names hmeets)
    · rw [listRefs_eq_listed, listRefs_eq_listed, hpacked,
        h.looseFiles_without_of_not hfile fun names hmeets => hmet ⟨names, hmeets⟩]
  · intro names hmeets hplain hkeeps
    rw [h.listRefs_same_iff hmeets hpacked, unnoticed_stray_iff hplain hkeeps]

/-! ## Clones with files that are no references -/

/-- The clone with a backup copy of the file of its branch. -/
def backedUp : FileTree := withRef sharedClone ["refs", "heads", "main~"] 4

/-- The backup copy says an id, so it is unnoticed. -/
theorem listRefs_without_backup :
    backedUp.entryAt? ["r", ".git", "refs", "heads", "main~"] =
        some (.file ((Oid.ofNumber 4).text ++ "\n").toUTF8) ∧
      ¬ NameProblem.Keeps "refs/heads/main~" ∧
      listRefs (backedUp.without ["r", ".git", "refs", "heads", "main~"]) sharedLayout
          RefName.heads =
        listRefs backedUp sharedLayout RefName.heads := by
  have hfile : backedUp.entryAt? ["r", ".git", "refs", "heads", "main~"] =
      some (.file ((Oid.ofNumber 4).text ++ "\n").toUTF8) := by
    rfl
  have hkeeps : ¬ NameProblem.Keeps "refs/heads/main~" := by
    rw [← NameProblem.find?_eq_none_iff]
    decide
  have hdirectory : backedUp.resolve (looseDirectory sharedLayout RefName.heads) true =
      .ok (["r", ".git", "refs", "heads"], .directory) := by
    rfl
  have hpacked : backedUp.resolve sharedLayout.packedRefs true = .error .notFound := by
    rfl
  obtain ⟨hsame, hiff⟩ := listRefs_without (.inl rfl) hfile (l := sharedLayout)
  refine ⟨hfile, hkeeps, (hiff (hsame (by simp [hpacked]) (by simp [hpacked]))).1.2 ?_⟩
  rintro names ⟨location, hfound, hplace, -⟩
  obtain ⟨rfl, -⟩ := Prod.mk.inj (Except.ok.inj (hfound.symm.trans hdirectory))
  obtain rfl : names = ["main~"] := by simpa using hplace
  have hsays : FileSays (sharedLayout.looseRef "refs/heads/main~")
      ((Oid.ofNumber 4).text ++ "\n").toUTF8 (.direct (.ofNumber 4)) :=
    ⟨(Oid.ofNumber 4).text ++ "\n", by decide +kernel, by decide +kernel⟩
  exact .unlisted hsays hkeeps

/-- The clone with a file that is no reference at all. -/
def littered : FileTree :=
  sharedClone.place ["r", ".git", "refs", "heads", "main~"] (.file "garbage\n".toUTF8)

/-- A file that cannot be read makes the listing fail, and one with a backslash in its name is
listed, although no reference can have the name of either. -/
theorem stray_noticed :
    ¬ NameProblem.Keeps "refs/heads/main~" ∧
      listRefs littered sharedLayout RefName.heads =
        .error (.corrupt ⟨"/r/.git/refs/heads/main~"⟩
          "invalid object id: expected 40 or 64 hex characters, got 7") ∧
      listRefs (littered.without ["r", ".git", "refs", "heads", "main~"]) sharedLayout
          RefName.heads =
        .ok [(⟨"refs/heads/main"⟩, .ofNumber 1)] ∧
      ¬ NameProblem.Keeps "refs/heads/a\\b" ∧
      listRefs backslashed sharedLayout RefName.heads = .ok [(⟨"refs/heads/a/b"⟩, .ofNumber 1)] ∧
      listRefs (backslashed.without ["r", ".git", "refs", "heads", "a\\b"]) sharedLayout
          RefName.heads =
        .ok [] := by
  refine ⟨?_, ?_, ?_, ?_, ?_, ?_⟩
  · rw [← NameProblem.find?_eq_none_iff]
    decide
  · decide +kernel
  · decide +kernel
  · rw [← NameProblem.find?_eq_none_iff]
    decide
  · decide +kernel
  · decide +kernel

end WorktreeTracker.PlainReader
