import Mathlib.Data.List.Nodup
import WorktreeTracker.Proofs.PlainReader.Head
import WorktreeTracker.Proofs.PlainReader.Listing
import WorktreeTracker.Proofs.PlainReader.LooseFile
import WorktreeTracker.Proofs.RefFile

/-!
# What a listing of references holds

A listing has for every acceptable name what was found last: the last file that is listed under the
name, or else the last packed line. A file is listed under its path with slashes for backslashes, so
a file whose path has a backslash takes the place of another name. For a name that no such file
takes, the listing has exactly what stands in its own file, or else on its packed line.
-/

namespace WorktreeTracker.PlainReader

variable {t : FileTree} {l : Layout} {dir lead : String}

/-! ## Files listed under a name -/

variable (l) in
/-- Whether a file is listed under a name: it is no lock, and seen from the shared directory its
path is the name once its backslashes are slashes. -/
def isListedAs (name : String) (path : Path) : Bool :=
  !path.fileName?.any isLock && (l.commonDir.after? path).map slashed == some name

variable (t l lead) in
/-- The files that are listed under a name, in the order they are met. -/
def filesListedAs (name : String) : List (Path × ByteArray) :=
  (looseFiles t l lead).filter fun file => isListedAs l name file.1

/-- A file is passed over, or it is listed with what it says. -/
theorem looseEntry?_cases {path : Path} {contents : ByteArray}
    {found : Option (String × Option Oid)} (h : looseEntry? l path contents = .ok found) :
    (found = none ∧ ∀ name, isListedAs l name path = false) ∨
      ∃ shown text value, found = some (shown, value.oid?) ∧
        FileTree.decodeText contents = .ok text ∧ RefFile.parse path text = .ok value ∧
        ∀ name, isListedAs l name path = decide (shown = name) := by
  unfold looseEntry? at h
  unfold isListedAs
  cases hlock : path.fileName?.any isLock with
  | true =>
    rw [hlock, if_pos rfl] at h
    obtain rfl := Except.ok.inj h
    exact .inl ⟨rfl, fun name => rfl⟩
  | false =>
    rw [hlock, if_neg Bool.false_ne_true] at h
    cases hafter : l.commonDir.after? path with
    | none =>
      rw [hafter] at h
      obtain rfl := Except.ok.inj h
      exact .inl ⟨rfl, fun name => rfl⟩
    | some relative =>
      rw [hafter] at h
      dsimp only at h
      obtain ⟨text, htext, h⟩ := bind_eq_ok.1 h
      obtain ⟨value, hvalue, h⟩ := bind_eq_ok.1 h
      obtain rfl := Except.ok.inj h
      refine .inr ⟨slashed relative, text, value, rfl, mapError_eq_ok.1 htext, hvalue, ?_⟩
      intro name
      rw [Bool.eq_iff_iff]
      simp

/-- The entries of a name are those of the files that are listed under it, in their order. -/
theorem forall₂_listedAs (name : String) {files : List (Path × ByteArray)}
    {loose : List (Option (String × Option Oid))}
    (h : List.Forall₂ (fun file found => looseEntry? l file.1 file.2 = .ok found) files loose) :
    List.Forall₂
      (fun file entry => ∃ text value, FileTree.decodeText file.2 = .ok text ∧
        RefFile.parse file.1 text = .ok value ∧ entry = (name, value.oid?))
      (files.filter fun file => isListedAs l name file.1)
      ((loose.filterMap id).filter fun entry => entry.1 = name) := by
  induction h with
  | nil => exact .nil
  | @cons file found files loose hfound _ ih =>
    rcases looseEntry?_cases hfound with
      ⟨rfl, hnot⟩ | ⟨shown, text, value, rfl, htext, hvalue, hname⟩
    · rw [List.filter_cons_of_neg (by simp [hnot])]
      exact ih
    · have hcons : (some (shown, value.oid?) :: loose).filterMap id =
          (shown, value.oid?) :: loose.filterMap id := rfl
      rw [hcons]
      by_cases hshown : shown = name
      · subst hshown
        rw [List.filter_cons_of_pos (by simp [hname]), List.filter_cons_of_pos (by simp)]
        exact .cons ⟨text, value, htext, hvalue, rfl⟩ ih
      · rw [List.filter_cons_of_neg (by simp [hname, hshown]),
          List.filter_cons_of_neg (by simpa using hshown)]
        exact ih

/-- Lists that are related have related last members. -/
theorem getLast?_of_forall₂ {α β : Type} {R : α → β → Prop} {as : List α} {bs : List β}
    (h : List.Forall₂ R as bs) :
    as.getLast? = none ∧ bs.getLast? = none ∨
      ∃ a b, as.getLast? = some a ∧ bs.getLast? = some b ∧ R a b := by
  induction h with
  | nil => exact .inl ⟨rfl, rfl⟩
  | @cons a b as bs hab _ ih =>
    right
    rw [List.getLast?_cons, List.getLast?_cons]
    rcases ih with ⟨has, hbs⟩ | ⟨a', b', has, hbs, hab'⟩
    · rw [has, hbs]
      exact ⟨a, b, rfl, rfl, hab⟩
    · rw [has, hbs]
      exact ⟨a', b', rfl, rfl, hab'⟩

/-! ## What is found last -/

variable (t l lead) in
/-- What is found last for a name is an id: the last file that is listed under the name has it, or
there is no such file and the last packed line of the name does. -/
def LastSays (packed : List (String × Oid)) (name : String) (oid : Oid) : Prop :=
  (∃ file text, (filesListedAs t l lead name).getLast? = some file ∧
      FileTree.decodeText file.2 = .ok text ∧ RefFile.SaysId text oid) ∨
    filesListedAs t l lead name = [] ∧
      (packed.filter fun entry => entry.1 = name).getLast? = some (name, oid)

/-- A table of what was found has an id for a name exactly when what is found last is that id. -/
theorem find?_entries_iff {packed : List (String × Oid)}
    {loose : List (Option (String × Option Oid))}
    (hloose : List.Forall₂ (fun file found => looseEntry? l file.1 file.2 = .ok found)
      (looseFiles t l lead) loose) {name : String} (hname : Text.startsWith lead name = true)
    {oid : Oid} :
    (OrderedMap.ofList (packedEntries lead packed ++ loose.filterMap id)).find? name =
        some (some oid) ↔
      LastSays t l lead packed name oid := by
  rw [OrderedMap.find?_ofList, List.filter_append, List.getLast?_append, filter_packedEntries hname,
    LastSays, ← List.getLast?_eq_none_iff]
  rcases getLast?_of_forall₂ (forall₂_listedAs name hloose) with
    ⟨hfile, hentry⟩ | ⟨file, entry, hfile, hentry, text, value, htext, hvalue, rfl⟩
  · rw [← filesListedAs] at hfile
    rw [hfile, hentry, Option.none_or, List.getLast?_map, Option.map_map, Option.map_eq_some_iff]
    simp only [reduceCtorEq, false_and, exists_false, false_or, true_and]
    constructor
    · rintro ⟨⟨found, id⟩, hlast, hid⟩
      obtain rfl := Option.some.inj hid
      obtain rfl := of_decide_eq_true (List.mem_filter.1 (List.mem_of_getLast? hlast)).2
      exact hlast
    · intro hlast
      exact ⟨_, hlast, rfl⟩
  · rw [← filesListedAs] at hfile
    rw [hfile, hentry, Option.some_or, Option.map_some, Option.some.injEq]
    simp only [Option.some.injEq, reduceCtorEq, false_and, or_false]
    constructor
    · intro hoid
      cases value with
      | symbolic target => cases hoid
      | direct other =>
        obtain rfl := Option.some.inj hoid
        exact ⟨file, text, rfl, htext, RefFile.parse_eq_direct_iff.1 hvalue⟩
    · rintro ⟨_, other, rfl, hother, hsaid⟩
      obtain rfl := Except.ok.inj (htext.symm.trans hother)
      rw [Except.ok.inj (hvalue.symm.trans (RefFile.parse_of_saysId hsaid _))]
      rfl

/-- A listing has what was found last for the acceptable names that start as asked for. -/
theorem Leads.mem_listRefs_iff (h : Leads dir lead) {refs : List (RefName × Oid)}
    (hlist : listRefs t l lead = .ok refs) :
    ∃ packed, packedRefs t l = .ok packed ∧ ∀ name oid, (name, oid) ∈ refs ↔
      ∃ rest, name.text = lead ++ rest ∧ NameProblem.Keeps name.text ∧
        LastSays t l lead packed name.text oid := by
  obtain ⟨entries, hentries, hrefs⟩ := listRefs_eq_ok hlist
  obtain ⟨packed, loose, hpacked, hloose, rfl⟩ := refEntries_eq_ok hentries
  refine ⟨packed, hpacked, fun name oid => ?_⟩
  have hstarts (rest : String) (hrest : name.text = lead ++ rest) :
      Text.startsWith lead name.text = true := by
    rw [Text.startsWith, hrest, Text.after?_append]
    rfl
  constructor
  · intro hmem
    obtain ⟨rest, hrest, hkeeps, -⟩ := h.mem_listRefs hlist hmem
    rw [hrefs, mem_directRefs_iff] at hmem
    exact ⟨rest, hrest, hkeeps, (find?_entries_iff hloose (hstarts rest hrest)).1 hmem.1⟩
  · rintro ⟨rest, hrest, hkeeps, hlast⟩
    rw [hrefs, mem_directRefs_iff]
    exact ⟨(find?_entries_iff hloose (hstarts rest hrest)).2 hlast,
      NameProblem.find?_eq_none_iff.2 hkeeps⟩

/-- The names of a listing increase strictly in the order of their bytes. -/
theorem listRefs_increasing {refs : List (RefName × Oid)} (hlist : listRefs t l lead = .ok refs) :
    refs.Pairwise fun a b => Text.bytes a.1.text < Text.bytes b.1.text := by
  obtain ⟨entries, -, rfl⟩ := listRefs_eq_ok hlist
  exact (directRefs_increasing _).imp fun hlt =>
    Text.bytes_lt_of_lt (compareOfLessAndEq_eq_lt.1 hlt)

/-! ## Names that no other file takes -/

variable (t l) in
/-- A line of the packed file gives an id to a name. -/
def PackedSays (name : String) (oid : Oid) : Prop :=
  ∃ text line, t.readText l.packedRefs = .ok text ∧ line ∈ Text.lines text ∧
    PackedRefs.isSkipped (Text.trim line) = false ∧ PackedRefs.Says (Text.trim line) name oid

variable (t l lead) in
/-- An id stands for a name: it is in the file of the name, or there is no such file and it is
packed. -/
def Stands (rest : String) (oid : Oid) : Prop :=
  (∃ contents text, IsFile t l lead rest contents ∧ FileTree.decodeText contents = .ok text ∧
      RefFile.SaysId text oid) ∨
    (∀ contents, ¬ IsFile t l lead rest contents) ∧ PackedSays t l (lead ++ rest) oid

variable {rest : String}

/-- The files listed under a name are those with the name once their backslashes are slashes. -/
theorem Leads.mem_filesListedAs_iff (h : Leads dir lead) {path : Path} {contents : ByteArray} :
    (path, contents) ∈ filesListedAs t l lead (lead ++ rest) ↔
      ∃ location names, t.resolve (looseDirectory l lead) true = .ok (location, .directory) ∧
        t.Leaf location names (.file contents) ∧ path = l.looseRef (lead ++ along names) ∧
        path.fileName?.any isLock = false ∧ slashed (along names) = rest := by
  have hlisted {names : List String} (hne : names ≠ [])
      (hnames : ∀ name ∈ names, isEntryName name = true) :
      isListedAs l (lead ++ rest) (l.looseRef (lead ++ along names)) = true ↔
        (l.looseRef (lead ++ along names)).fileName?.any isLock = false ∧
          slashed (along names) = rest := by
    rw [isListedAs, h.after?_looseRef hne hnames, Option.map_some, slashed_append,
      slashed_of_not_mem h.plain, Bool.and_eq_true, Bool.not_eq_true', beq_iff_eq,
      Option.some.injEq, String.append_right_inj]
  rw [filesListedAs, List.mem_filter, h.mem_looseFiles_iff]
  constructor
  · rintro ⟨⟨location, names, hdirectory, hleaf, rfl⟩, hname⟩
    obtain ⟨hlock, hshown⟩ := (hlisted hleaf.ne_nil hleaf.isEntryName).1 hname
    exact ⟨location, names, hdirectory, hleaf, rfl, hlock, hshown⟩
  · rintro ⟨location, names, hdirectory, hleaf, rfl, hlock, hshown⟩
    exact ⟨⟨location, names, hdirectory, hleaf, rfl⟩,
      (hlisted hleaf.ne_nil hleaf.isEntryName).2 ⟨hlock, hshown⟩⟩

/-- A file listed under a name that no other file takes is the file of the name. -/
theorem Unaliased.isFile_of_mem (hname : Unaliased t l lead rest) (h : Leads dir lead)
    {file : Path × ByteArray} (hmem : file ∈ filesListedAs t l lead (lead ++ rest)) :
    IsFile t l lead rest file.2 := by
  obtain ⟨path, contents⟩ := file
  obtain ⟨location, names, hdirectory, hleaf, -, -, hshown⟩ := h.mem_filesListedAs_iff.1 hmem
  have halong := hname location names contents hdirectory hleaf hshown
  have hnames : names = Text.splitOn '/' rest := by
    rw [← halong]
    exact (pieces_along hleaf.ne_nil hleaf.isEntryName).symm
  subst hnames
  exact ⟨location, hdirectory, hleaf⟩

/-- The file of an acceptable name is listed under the name. -/
theorem Leads.mem_filesListedAs_of_isFile (h : Leads dir lead) (hrest : NameProblem.Keeps rest)
    {contents : ByteArray} (hfile : IsFile t l lead rest contents) :
    (l.looseRef (lead ++ rest), contents) ∈ filesListedAs t l lead (lead ++ rest) := by
  obtain ⟨location, hdirectory, hleaf⟩ := hfile
  have hplain : slashed rest = rest := by
    apply slashed_of_not_mem
    intro hc
    exact hrest.characters '\\' hc (by decide)
  refine h.mem_filesListedAs_iff.2 ⟨location, Text.splitOn '/' rest, hdirectory, hleaf, ?_, ?_, ?_⟩
  · rw [along_splitOn]
  · exact h.isLock_looseRef hrest
  · rw [along_splitOn, hplain]

/-- The packed references are those that the lines of the packed file give an id to. -/
theorem mem_packedRefs_iff {packed : List (String × Oid)} (hpacked : packedRefs t l = .ok packed)
    {name : String} {oid : Oid} : (name, oid) ∈ packed ↔ PackedSays t l name oid := by
  obtain ⟨text?, hread, hparse⟩ := bind_eq_ok.1 hpacked
  rcases readOptional_eq_ok hread with ⟨text, htext, rfl⟩ | ⟨hmissing, rfl⟩
  · rw [PackedRefs.mem_iff_of_parse hparse]
    constructor
    · rintro ⟨line, hline, hkept, hvalue⟩
      exact ⟨text, line, htext, hline, hkept, hvalue⟩
    · rintro ⟨other, line, hother, hline, hkept, hvalue⟩
      obtain rfl := Except.ok.inj (htext.symm.trans hother)
      exact ⟨line, hline, hkept, hvalue⟩
  · obtain rfl := Except.ok.inj hparse
    constructor
    · intro hmem
      cases hmem
    · rintro ⟨text, line, htext, -⟩
      cases hmissing.symm.trans htext

/-- A name that is packed at most once has its line as the last one. -/
theorem getLast?_of_nodup {packed : List (String × Oid)} (hnodup : (packed.map Prod.fst).Nodup)
    {name : String} {oid : Oid} :
    (packed.filter fun entry => entry.1 = name).getLast? = some (name, oid) ↔
      (name, oid) ∈ packed := by
  constructor
  · intro hlast
    exact (List.mem_filter.1 (List.mem_of_getLast? hlast)).1
  · intro hmem
    have hkept : (name, oid) ∈ packed.filter fun entry => entry.1 = name :=
      List.mem_filter.2 ⟨hmem, by simp⟩
    obtain ⟨last, hlast⟩ := Option.isSome_iff_exists.1
      (List.getLast?_isSome.2 (List.ne_nil_of_mem hkept))
    obtain ⟨hlastMem, hname⟩ := List.mem_filter.1 (List.mem_of_getLast? hlast)
    rw [hlast, List.inj_on_of_nodup_map hnodup hlastMem hmem (of_decide_eq_true hname)]

/-- What is found last for an acceptable name that no other file takes is what stands for it. -/
theorem Unaliased.lastSays_iff (hname : Unaliased t l lead rest) (h : Leads dir lead)
    (hrest : NameProblem.Keeps rest) {packed : List (String × Oid)}
    (hpacked : packedRefs t l = .ok packed) (hnodup : (packed.map Prod.fst).Nodup) {oid : Oid} :
    LastSays t l lead packed (lead ++ rest) oid ↔ Stands t l lead rest oid := by
  have hfiles : filesListedAs t l lead (lead ++ rest) = [] ↔
      ∀ contents, ¬ IsFile t l lead rest contents := by
    rw [List.eq_nil_iff_forall_not_mem]
    constructor
    · intro hnone contents hfile
      exact hnone _ (h.mem_filesListedAs_of_isFile hrest hfile)
    · intro hnone file hmem
      exact hnone _ (hname.isFile_of_mem h hmem)
  unfold LastSays Stands
  rw [hfiles, getLast?_of_nodup hnodup, mem_packedRefs_iff hpacked]
  refine or_congr_left ?_
  constructor
  · rintro ⟨file, text, hlast, htext, hvalue⟩
    exact ⟨file.2, text, hname.isFile_of_mem h (List.mem_of_getLast? hlast), htext, hvalue⟩
  · rintro ⟨contents, text, hfile, htext, hvalue⟩
    have hmem := h.mem_filesListedAs_of_isFile hrest hfile
    obtain ⟨last, hlast⟩ := Option.isSome_iff_exists.1
      (List.getLast?_isSome.2 (List.ne_nil_of_mem hmem))
    -- every file listed under the name is the one file of the name
    have hcontents := hfile.unique (hname.isFile_of_mem h (List.mem_of_getLast? hlast))
    exact ⟨last, text, hlast, hcontents ▸ htext, hvalue⟩

/-! ## The listing -/

/-- A listing of local or of remote-tracking references has strictly increasing names. It has an id
for a name exactly when the name is acceptable, starts as asked for and was found last with this id:
in the last file listed under the name or else on the last packed line. For a name that no other
file takes and with no name packed twice, that is the id in the file of the name or else on its
packed line; and without links the file of a name is the one that is read at its path. -/
theorem listRefs_exact {lead : String} (hlead : lead = RefName.heads ∨ lead = RefName.remotes)
    {refs : List (RefName × Oid)} (hlist : listRefs t l lead = .ok refs) :
    refs.Pairwise (fun a b => Text.bytes a.1.text < Text.bytes b.1.text) ∧
      ∃ packed, packedRefs t l = .ok packed ∧
        (∀ name oid, (name, oid) ∈ refs ↔ ∃ rest, name.text = lead ++ rest ∧
          NameProblem.Keeps name.text ∧ LastSays t l lead packed name.text oid) ∧
        ((packed.map Prod.fst).Nodup → ∀ rest oid, Unaliased t l lead rest →
          ((⟨lead ++ rest⟩, oid) ∈ refs ↔
            NameProblem.Keeps (lead ++ rest) ∧ Stands t l lead rest oid)) ∧
        (Unlinked t l lead → ∀ rest contents, NameProblem.Keeps (lead ++ rest) →
          (l.looseRef (lead ++ rest)).text.utf8ByteSize < FileTree.pathLengthLimit →
          (IsFile t l lead rest contents ↔
            t.readFile (l.looseRef (lead ++ rest)) = .ok contents)) := by
  obtain ⟨dir, h⟩ : ∃ dir, Leads dir lead := by
    rcases hlead with rfl | rfl
    · exact ⟨_, leads_heads⟩
    · exact ⟨_, leads_remotes⟩
  have hkeepsRest {rest : String} (hkeeps : NameProblem.Keeps (lead ++ rest)) :
      NameProblem.Keeps rest := by
    rw [← h.joined] at hkeeps
    exact hkeeps.of_join
  obtain ⟨packed, hpacked, hmem⟩ := h.mem_listRefs_iff hlist
  refine ⟨listRefs_increasing hlist, packed, hpacked, hmem, ?_, ?_⟩
  · intro hnodup rest oid hname
    rw [hmem]
    constructor
    · rintro ⟨rest', hrest, hkeeps, hlast⟩
      exact ⟨hkeeps, (hname.lastSays_iff h (hkeepsRest hkeeps) hpacked hnodup).1 hlast⟩
    · rintro ⟨hkeeps, hstands⟩
      exact ⟨rest, rfl, hkeeps,
        (hname.lastSays_iff h (hkeepsRest hkeeps) hpacked hnodup).2 hstands⟩
  · intro hunlinked rest contents hkeeps hsize
    exact h.isFile_iff (hkeepsRest hkeeps) hunlinked hsize

/-! ## Clones with loose and packed references -/

/-- The clone with a packed line for another branch. -/
def packedClone : FileTree :=
  sharedClone.place ["r", ".git", "packed-refs"]
    (.file ((Oid.ofNumber 3).text ++ " refs/heads/old\n").toUTF8)

/-- The file of a branch stands for it, and the packed line of a branch without one. -/
theorem stands_packedClone :
    listRefs packedClone sharedLayout RefName.heads =
        .ok [(⟨"refs/heads/main"⟩, .ofNumber 1), (⟨"refs/heads/old"⟩, .ofNumber 3)] ∧
      Stands packedClone sharedLayout RefName.heads "main" (.ofNumber 1) ∧
      Stands packedClone sharedLayout RefName.heads "old" (.ofNumber 3) := by
  have hlines : packedRefs packedClone sharedLayout =
      .ok [("refs/heads/old", .ofNumber 3)] := by
    decide +kernel
  have hloose : ((looseFiles packedClone sharedLayout RefName.heads).mapM fun file =>
      looseEntry? sharedLayout file.1 file.2) =
        .ok [some ("refs/heads/main", some (.ofNumber 1))] := by
    decide +kernel
  have hlist : listRefs packedClone sharedLayout RefName.heads =
      .ok [(⟨"refs/heads/main"⟩, .ofNumber 1), (⟨"refs/heads/old"⟩, .ofNumber 3)] := by
    refine map_eq_ok.2 ⟨_, bind_eq_ok.2 ⟨_, hlines, bind_eq_ok.2 ⟨_, hloose, rfl⟩⟩, ?_⟩
    decide +kernel
  have hunaliased (rest : String) : Unaliased packedClone sharedLayout RefName.heads rest :=
    unaliased_of_entries (by decide +kernel)
  obtain ⟨-, packed, hpacked, -, hstands, -⟩ := listRefs_exact (.inl rfl) hlist
  obtain rfl := Except.ok.inj (hpacked.symm.trans hlines)
  have hnodup : (["refs/heads/old"] : List String).Nodup := by decide
  refine ⟨hlist, ?_, ?_⟩
  · exact ((hstands hnodup "main" _ (hunaliased "main")).1 List.mem_cons_self).2
  · exact ((hstands hnodup "old" _ (hunaliased "old")).1
      (List.mem_cons_of_mem _ List.mem_cons_self)).2

/-- A clone with a file whose name has a backslash. -/
def backslashed : FileTree := withRef .empty ["refs", "heads", "a\\b"] 1

/-- A file whose name has a backslash is listed under a name for which nothing stands, although
there is no link in the tree. -/
theorem backslashed_listed :
    listRefs backslashed sharedLayout RefName.heads =
        .ok [(⟨"refs/heads/a/b"⟩, .ofNumber 1)] ∧
      (∀ e ∈ backslashed.entries, isLink e.2 = false) ∧
      packedRefs backslashed sharedLayout = .ok [] ∧
      ¬ Stands backslashed sharedLayout RefName.heads "a/b" (.ofNumber 1) := by
  have hdirectory : backslashed.resolve (looseDirectory sharedLayout RefName.heads) true =
      .ok (["r", ".git", "refs", "heads"], .directory) := by
    rfl
  have hpacked : packedRefs backslashed sharedLayout = .ok [] := by decide +kernel
  refine ⟨by decide +kernel, by decide +kernel, hpacked, ?_⟩
  rintro (⟨contents, text, ⟨location, hfound, hleaf⟩, -⟩ | ⟨-, hsaid⟩)
  · obtain ⟨rfl, -⟩ := Prod.mk.inj (Except.ok.inj (hfound.symm.trans hdirectory))
    have hnone : backslashed.entryAt? (["r", ".git", "refs", "heads"] ++ Text.splitOn '/' "a/b") =
        none := by
      rfl
    cases hleaf.entryAt?.symm.trans hnone
  · cases (mem_packedRefs_iff hpacked).2 hsaid

end WorktreeTracker.PlainReader
