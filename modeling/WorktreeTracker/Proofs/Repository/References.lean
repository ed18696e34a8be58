import WorktreeTracker.Proofs.PlainReader.Stored
import WorktreeTracker.Proofs.Repository.Sharing
import WorktreeTracker.Proofs.WrittenRefs

/-!
# References that both readers find

Both readers find the references of branches in the loose files below the directory `refs` and in
the packed file, the loose ones first. They agree when the files are as git writes them: the plain
reader walks through no links, shows a backslash as a slash and takes more texts for ids, and an
opened repository passes over a loose file that it does not understand.
-/

namespace WorktreeTracker

/-! ## References of an opened repository -/

namespace RefDatabase

variable {t : FileTree} {gitDir commonDir : Path}

/-- The names of the loose references are those of the entries below the directory of references
that are no directories, lock files left out. -/
theorem mem_looseNames_iff {name : String} :
    name ∈ looseNames t commonDir ↔
      ∃ location names entry, t.resolve (commonDir / "refs") true = .ok (location, .directory) ∧
        t.Leaf location names entry ∧ name = "refs/" ++ PlainReader.along names ∧
        Text.endsWith ".lock" name = false := by
  unfold looseNames
  rcases t.resolve (commonDir / "refs") true with fault | ⟨location, entry⟩
  · simp
  · cases entry with
    | file contents => simp
    | link target => simp
    | directory =>
      simp only [List.mem_mergeSort, List.mem_filter, List.mem_map, Except.ok.injEq, Prod.mk.injEq,
        and_true, Bool.not_eq_true']
      constructor
      · rintro ⟨⟨⟨names, entry⟩, hleaf, rfl⟩, hlock⟩
        exact ⟨location, names, entry, rfl, FileTree.mem_leavesBelow_iff.1 hleaf, rfl, hlock⟩
      · rintro ⟨_, names, entry, rfl, hleaf, rfl, hlock⟩
        exact ⟨⟨_, FileTree.mem_leavesBelow_iff.2 hleaf, rfl⟩, hlock⟩

/-- A loose reference is listed when its file is understood. -/
theorem mem_looseRefs_iff {name : String} {target : RefTarget} :
    (name, target) ∈ looseRefs t gitDir commonDir ↔
      name ∈ looseNames t commonDir ∧ looseLookup t gitDir commonDir name = .ok target := by
  rw [looseRefs, List.mem_filterMap]
  constructor
  · rintro ⟨found, hfound, h⟩
    obtain ⟨value, hvalue, heq⟩ := Option.map_eq_some_iff.1 h
    obtain ⟨rfl, rfl⟩ := Prod.mk.inj heq
    exact ⟨hfound, toOption_eq_some_iff.1 hvalue⟩
  · rintro ⟨hname, hlookup⟩
    exact ⟨name, hname, by rw [hlookup]; rfl⟩

/-- A loose reference that belongs to no worktree is found in its file in the shared directory. -/
theorem looseLookup_eq_ok_iff {name : String} (h : isPerWorktree name = false)
    {target : RefTarget} :
    looseLookup t gitDir commonDir name = .ok target ↔
      ∃ contents, t.readFile (commonDir / name) = .ok contents ∧
        parseLoose (Text.byteChars contents.data.toList) = .ok target := by
  unfold looseLookup
  rw [h, if_neg Bool.false_ne_true]
  cases t.readFile (commonDir / name) with
  | ok contents => simp
  | error fault => cases fault <;> simp

/-- A reference is listed when it is loose, or when it is packed and no loose one hides it. -/
theorem mem_all_iff {refs : List (String × RefTarget)} {packed : PackedTable}
    (h : all t gitDir commonDir = .ok refs) (hpacked : packedTable t commonDir = .ok packed)
    {name : String} {target : RefTarget} :
    (name, target) ∈ refs ↔
      (name, target) ∈ looseRefs t gitDir commonDir ∨
        (∀ other, (name, other) ∉ looseRefs t gitDir commonDir) ∧
          ∃ e ∈ packed.entries, Text.decode? e.1 = some name ∧ target = .direct e.2.1 e.2.2 := by
  rw [all_eq, hpacked] at h
  obtain rfl := Except.ok.inj h
  rw [List.mem_append, List.mem_filterMap]
  refine or_congr_right ?_
  have hhidden : ((looseRefs t gitDir commonDir).all fun e => e.1 ≠ name) = true ↔
      ∀ other, (name, other) ∉ looseRefs t gitDir commonDir := by
    rw [List.all_eq_true]
    constructor
    · intro hall other hmem
      exact of_decide_eq_true (hall _ hmem) rfl
    · rintro hnone ⟨found, other⟩ hmem
      refine decide_eq_true ?_
      rintro rfl
      exact hnone other hmem
  constructor
  · rintro ⟨e, he, hfound⟩
    obtain ⟨found, hdecode, hfound⟩ := Option.bind_eq_some_iff.1 hfound
    split at hfound
    next hall =>
      obtain ⟨rfl, rfl⟩ := Prod.mk.inj (Option.some.inj hfound)
      exact ⟨hhidden.1 hall, e, he, hdecode, rfl⟩
    next => cases hfound
  · rintro ⟨hnone, e, he, hdecode, rfl⟩
    refine ⟨e, he, ?_⟩
    rw [packedRef?, hdecode, Option.bind_some, if_pos (hhidden.2 hnone)]

end RefDatabase

/-- A directory that is named with a slash at its end is the same for what is joined to it. -/
theorem OpenRepository.asDirectory_div {p : Path} (hne : p.text ≠ "") {rel : String}
    (hrel : Path.Relative rel) : asDirectory p / rel = p / rel := by
  rw [asDirectory]
  split
  next => rfl
  next hend => exact Path.slash_div hne (Bool.eq_false_iff.2 hend) hrel

/-! ## References as git writes them -/

namespace PlainReader

variable {t : FileTree} {l : Layout}

theorem leads_refs : Leads "refs" "refs/" := by
  constructor <;> decide

/-- A loose reference as git writes it: a file of its own with an acceptable name, not too deep,
with an id or the name of another reference. -/
structure LooseWritten (l : Layout) (name : String) (contents : ByteArray) : Prop where
  /-- The name keeps the rules. -/
  acceptable : NameProblem.Keeps name
  /-- The path of the file is not too long to be looked up. -/
  short : (l.looseRef name).text.utf8ByteSize < FileTree.pathLengthLimit
  /-- The contents are an id or the name of another reference. -/
  contents : ∃ found, RefFile.Written contents found

variable (t l) in
/-- The references of a repository are as git writes them. -/
structure RefsWritten : Prop where
  /-- There is no link below the directory of references. -/
  unlinked : Unlinked t l "refs/"
  /-- A file below the directory of references is a lock or a loose reference. -/
  loose : ∀ location names contents,
    t.resolve (looseDirectory l "refs/") true = .ok (location, .directory) →
      t.Leaf location names (.file contents) →
        Text.endsWith ".lock" ("refs/" ++ along names) = true ∨
          LooseWritten l ("refs/" ++ along names) contents
  /-- The packed file has comments and then the references, each name once. -/
  packed : ∀ contents, t.readFile l.packedRefs = .ok contents →
    ∃ records, PackedRefs.Written contents records

/-- The directory of the references of branches is an entry of the directory of references. -/
theorem place_of_unlinked (h : Unlinked t l "refs/") {sub : String}
    (hsub : sub = "heads" ∨ sub = "remotes") {place : Location}
    (hplace : t.resolve (looseDirectory l ("refs/" ++ sub ++ "/")) true = .ok (place, .directory)) :
    ∃ location, t.resolve (looseDirectory l "refs/") true = .ok (location, .directory) ∧
      t.entryAt? (location ++ [sub]) = some .directory ∧ place = location ++ [sub] := by
  have hpart : Path.Relative sub ∧ Text.splitOn '/' sub = [sub] ∧
      (sub ≠ "" ∧ sub ≠ "." ∧ sub ≠ "..") ∧
      Text.trimEnding '/' ("refs/" ++ sub ++ "/") = "refs/" ++ sub := by
    rcases hsub with rfl | rfl <;> exact ⟨by decide, by decide, by decide, by decide⟩
  obtain ⟨hrelative, hsplit, hname, htrim⟩ := hpart
  rw [looseDirectory, htrim] at hplace
  change t.resolve (l.looseRef ("refs/" ++ sub)) true = _ at hplace
  rcases leads_refs.resolve_looseRef hrelative t l with ⟨fault, -, hfault⟩ |
    ⟨fault, -, hfault⟩ | ⟨location, entry, left, hdirectory, hentry, hnames⟩
  · cases hfault.symm.trans hplace
  · cases hfault.symm.trans hplace
  · rw [hplace, hsplit] at hnames
    have hstart := FileTree.directory_of_followLinks (by simp) hnames.symm
    obtain rfl := Option.some.inj (hentry.symm.trans hstart)
    rw [FileTree.followLinks_cons] at hnames
    cases hturn : t.turn location sub with
    | error fault =>
      rw [hturn] at hnames
      cases hnames
    | ok next =>
      -- the entry is no link, so it is where the path leads
      obtain rfl := FileTree.reach_of_turn hname (fun target => h location hdirectory [sub] target)
        hturn
      rw [hturn] at hnames
      dsimp only at hnames
      rw [FileTree.followLinks_nil] at hnames
      cases hfound : t.entryAt? (location ++ [sub]) with
      | none =>
        rw [hfound] at hnames
        cases hnames
      | some found =>
        rw [hfound] at hnames
        obtain ⟨rfl, rfl⟩ := Prod.mk.inj (Except.ok.inj hnames)
        exact ⟨location, hdirectory, hfound, rfl⟩

/-- The references of branches are in a directory right below that of the references. -/
theorem exists_sub {lead : String} (hlead : lead = RefName.heads ∨ lead = RefName.remotes) :
    ∃ dir sub, Leads dir lead ∧ (sub = "heads" ∨ sub = "remotes") ∧
      lead = "refs/" ++ sub ++ "/" := by
  rcases hlead with rfl | rfl
  · exact ⟨_, "heads", leads_heads, .inl rfl, rfl⟩
  · exact ⟨_, "remotes", leads_remotes, .inr rfl, rfl⟩

theorem RefsWritten.unlinked_lead (h : RefsWritten t l) {lead : String}
    (hlead : lead = RefName.heads ∨ lead = RefName.remotes) : Unlinked t l lead := by
  obtain ⟨dir, sub, -, hsub, rfl⟩ := exists_sub hlead
  intro place hplace names target
  obtain ⟨location, hdirectory, -, rfl⟩ := place_of_unlinked h.unlinked hsub hplace
  rw [List.append_assoc]
  exact h.unlinked location hdirectory ([sub] ++ names) target

/-- What is below the directory of the references of branches is below that of the references. -/
theorem RefsWritten.leaf_below (h : RefsWritten t l) {lead : String}
    (hlead : lead = RefName.heads ∨ lead = RefName.remotes) {place : Location}
    (hplace : t.resolve (looseDirectory l lead) true = .ok (place, .directory))
    {names : List String} {entry : Entry} (hleaf : t.Leaf place names entry) :
    ∃ location below, t.resolve (looseDirectory l "refs/") true = .ok (location, .directory) ∧
      t.Leaf location below entry ∧ "refs/" ++ along below = lead ++ along names := by
  obtain ⟨dir, sub, -, hsub, rfl⟩ := exists_sub hlead
  obtain ⟨location, hdirectory, hentry, rfl⟩ := place_of_unlinked h.unlinked hsub hplace
  obtain ⟨next, more, rfl⟩ := List.exists_cons_of_ne_nil hleaf.ne_nil
  refine ⟨location, sub :: next :: more, hdirectory, ⟨hentry, hleaf⟩, ?_⟩
  rw [along, String.intercalate_cons_cons, String.append_assoc, String.append_assoc,
    String.append_assoc]

/-- The file of a branch is one below the directory of references. -/
theorem RefsWritten.leaf_of_isFile (h : RefsWritten t l) {lead rest : String}
    (hlead : lead = RefName.heads ∨ lead = RefName.remotes) {contents : ByteArray}
    (hfile : IsFile t l lead rest contents) :
    ∃ location names, t.resolve (looseDirectory l "refs/") true = .ok (location, .directory) ∧
      t.Leaf location names (.file contents) ∧ "refs/" ++ along names = lead ++ rest := by
  obtain ⟨place, hplace, hleaf⟩ := hfile
  have hbelow := h.leaf_below hlead hplace hleaf
  rwa [along_splitOn] at hbelow

/-- The file of a branch with an acceptable name is as git writes it. -/
theorem RefsWritten.looseWritten (h : RefsWritten t l) {lead rest : String}
    (hlead : lead = RefName.heads ∨ lead = RefName.remotes) {contents : ByteArray}
    (hkeeps : NameProblem.Keeps (lead ++ rest)) (hfile : IsFile t l lead rest contents) :
    LooseWritten l (lead ++ rest) contents := by
  obtain ⟨location, names, hdirectory, hleaf, hname⟩ := h.leaf_of_isFile hlead hfile
  rcases h.loose location names contents hdirectory hleaf with hlock | hwritten
  · rw [hname] at hlock
    exact absurd (Text.endsWith_iff.1 hlock) hkeeps.lock
  · rwa [hname] at hwritten

/-- A file is listed under an acceptable name only when the name is its own. -/
theorem RefsWritten.unaliased (h : RefsWritten t l) {lead rest : String}
    (hlead : lead = RefName.heads ∨ lead = RefName.remotes)
    (hkeeps : NameProblem.Keeps (lead ++ rest)) : Unaliased t l lead rest := by
  intro place names contents hplace hleaf hshown
  obtain ⟨location, below, hdirectory, hbelow, hname⟩ := h.leaf_below hlead hplace hleaf
  rcases h.loose location below contents hdirectory hbelow with hlock | hwritten
  · -- a lock is shown under a name that ends like one
    obtain ⟨dir, -, hleads, -⟩ := exists_sub hlead
    refine absurd ?_ hkeeps.lock
    rw [hname, Text.endsWith_iff] at hlock
    have hmap := hlock.map fun c => if c = '\\' then '/' else c
    rw [← hshown, ← slashed_of_not_mem hleads.plain, ← slashed_append, slashed,
      String.toList_ofList]
    exact hmap
  · have hplain : '\\' ∉ (lead ++ along names).toList := by
      rw [← hname]
      exact fun hc => hwritten.acceptable.characters _ hc (by decide)
    rw [String.toList_append, List.mem_append, not_or] at hplain
    rw [← hshown, slashed_of_not_mem hplain.2]

/-! ## The two readers -/

section

variable {r : OpenRepository}

variable (t l r) in
/-- The shared directories of both readers hold the same: a path below them leads to the same place,
and the configuration is read the same. -/
structure SharesFiles : Prop where
  /-- A path below the shared directory leads to the same place. -/
  resolve : ∀ rel, Path.Relative rel →
    t.resolve (r.commonDir / rel) true = t.resolve (l.commonDir / rel) true
  /-- The configuration, with what it includes, is read the same. -/
  load : GitConfig.load t (r.commonDir / "config") = GitConfig.load t l.config

theorem SharesFiles.readFile (h : SharesFiles t l r) {rel : String} (hrel : Path.Relative rel) :
    t.readFile (r.commonDir / rel) = t.readFile (l.commonDir / rel) :=
  FileTree.readFile_of_resolve (h.resolve rel hrel)

/-- A shared directory that is named with a slash at its end is the same. -/
theorem sharesFiles_of_asDirectory (hne : l.commonDir.text ≠ "")
    (h : r.commonDir = OpenRepository.asDirectory l.commonDir) : SharesFiles t l r := by
  have hpath (rel : String) (hrel : Path.Relative rel) : r.commonDir / rel = l.commonDir / rel := by
    rw [h, OpenRepository.asDirectory_div hne hrel]
  refine ⟨fun rel hrel => by rw [hpath rel hrel], ?_⟩
  rw [hpath _ (by decide)]
  rfl

theorem isPerWorktree_of_lead {lead : String}
    (hlead : lead = RefName.heads ∨ lead = RefName.remotes) (rest : String) :
    RefDatabase.isPerWorktree (lead ++ rest) = false := by
  have hstarts : Text.startsWith lead (lead ++ rest) = true := by
    rw [Text.startsWith, Text.after?_append]
    rfl
  rcases hlead with rfl | rfl
  · exact RefDatabase.isPerWorktree_of_heads hstarts
  · exact RefDatabase.isPerWorktree_of_remotes hstarts

/-- An opened repository finds a loose reference of a branch in the file that the plain reader walks
to. -/
theorem RefsWritten.mem_looseRefs_iff (h : RefsWritten t l) (hshared : SharesFiles t l r)
    {lead rest : String} (hlead : lead = RefName.heads ∨ lead = RefName.remotes)
    {target : RefTarget} :
    (lead ++ rest, target) ∈ RefDatabase.looseRefs t r.gitDir r.commonDir ↔
      NameProblem.Keeps (lead ++ rest) ∧ ∃ contents, IsFile t l lead rest contents ∧
        RefDatabase.parseLoose (Text.byteChars contents.data.toList) = .ok target := by
  obtain ⟨dir, sub, hleads, -, hsub⟩ := exists_sub hlead
  have hrefs :
      t.resolve (r.commonDir / "refs") true = t.resolve (looseDirectory l "refs/") true := by
    rw [hshared.resolve _ (by decide), looseDirectory, leads_refs.trimmed]
  have hrest (hkeeps : NameProblem.Keeps (lead ++ rest)) : NameProblem.Keeps rest := by
    rw [← hleads.joined] at hkeeps
    exact hkeeps.of_join
  have hlookup (hkeeps : NameProblem.Keeps (lead ++ rest)) :
      RefDatabase.looseLookup t r.gitDir r.commonDir (lead ++ rest) = .ok target ↔
        ∃ contents, t.readFile (l.looseRef (lead ++ rest)) = .ok contents ∧
          RefDatabase.parseLoose (Text.byteChars contents.data.toList) = .ok target := by
    rw [RefDatabase.looseLookup_eq_ok_iff (isPerWorktree_of_lead hlead rest),
      hshared.readFile (relative_of_keeps hkeeps)]
    rfl
  rw [RefDatabase.mem_looseRefs_iff, RefDatabase.mem_looseNames_iff, hrefs]
  constructor
  · rintro ⟨⟨location, names, entry, hdirectory, hleaf, hname, hlock⟩, hfound⟩
    -- what is met below the directory of references is a file, and no lock
    have hkeeps : NameProblem.Keeps (lead ++ rest) := by
      cases entry with
      | directory => exact absurd rfl hleaf.ne_directory
      | link target => exact absurd hleaf.entryAt? (h.unlinked location hdirectory names target)
      | file contents =>
        rcases h.loose location names contents hdirectory hleaf with hending | hwritten
        · rw [← hname, hlock] at hending
          cases hending
        · exact hname ▸ hwritten.acceptable
    obtain ⟨contents, hread, hparse⟩ := (hlookup hkeeps).1 hfound
    obtain ⟨place, hresolve⟩ := FileTree.readFile_eq_ok_iff.1 hread
    refine ⟨hkeeps, contents, hleads.isFile_of_resolve (hrest hkeeps) ?_ hresolve, hparse⟩
    exact fun location hdirectory front _ target _ =>
      h.unlinked_lead hlead location hdirectory front target
  · rintro ⟨hkeeps, contents, hfile, hparse⟩
    have hwritten := h.looseWritten hlead hkeeps hfile
    obtain ⟨location, names, hdirectory, hleaf, hname⟩ := h.leaf_of_isFile hlead hfile
    refine ⟨⟨location, names, _, hdirectory, hleaf, hname.symm, ?_⟩, (hlookup hkeeps).2
      ⟨contents, ?_, hparse⟩⟩
    · rw [← Bool.not_eq_true, Text.endsWith_iff]
      exact hkeeps.lock
    · exact (hleads.isFile_iff (hrest hkeeps) (h.unlinked_lead hlead) hwritten.short).1 hfile

/-- Both readers find in the packed file the references that are written there. -/
theorem RefsWritten.packed_eq (h : RefsWritten t l) (hshared : SharesFiles t l r)
    {packed : List (String × Oid)} (hpacked : packedRefs t l = .ok packed)
    {table : RefDatabase.PackedTable} (htable : RefDatabase.packedTable t r.commonDir = .ok table) :
    ∃ records : List PackedRefs.Record, (records.map PackedRefs.Record.name).Nodup ∧
      packed = records.map (fun e => (e.name, e.oid)) ∧
      table.entries.Perm (records.map fun e => (Text.encode e.name, e.oid, e.peeled)) := by
  have hfile : t.readFile (r.commonDir / "packed-refs") = t.readFile l.packedRefs :=
    hshared.readFile (by decide)
  rw [RefDatabase.packedTable, hfile] at htable
  obtain ⟨text?, hread, hpacked⟩ := bind_eq_ok.1 hpacked
  rcases readOptional_eq_ok hread with ⟨text, htext, rfl⟩ | ⟨hmissing, rfl⟩
  · obtain ⟨contents, hcontents, hdecode⟩ := bind_eq_ok.1 htext
    obtain ⟨records, hwritten⟩ := h.packed contents hcontents
    obtain ⟨text', htext', hparse⟩ := hwritten.parse l.packedRefs
    obtain ⟨table', htable', hperm⟩ := hwritten.parsePacked?
    obtain rfl := Except.ok.inj (hdecode.symm.trans htext')
    rw [hcontents] at htable
    dsimp only at htable
    rw [htable'] at htable
    obtain rfl := Except.ok.inj htable
    exact ⟨records, hwritten.names, Except.ok.inj (hpacked.symm.trans hparse), hperm⟩
  · obtain rfl := Except.ok.inj hpacked
    cases hcontents : t.readFile l.packedRefs with
    | ok contents =>
      -- what is there is text, so it is not missing
      obtain ⟨records, hwritten⟩ := h.packed contents hcontents
      obtain ⟨text, htext, -⟩ := hwritten.parse l.packedRefs
      cases hmissing.symm.trans (bind_eq_ok.2 ⟨contents, hcontents, htext⟩)
    | error fault =>
      rw [hcontents] at htable
      obtain rfl := Except.ok.inj htable
      exact ⟨[], .nil, rfl, .refl _⟩

/-- The file of a branch with an acceptable name is the one that is read at its path. -/
theorem RefsWritten.isFile_iff (h : RefsWritten t l) {lead rest : String}
    (hlead : lead = RefName.heads ∨ lead = RefName.remotes)
    (hkeeps : NameProblem.Keeps (lead ++ rest)) {contents : ByteArray} :
    IsFile t l lead rest contents ↔ t.readFile (l.looseRef (lead ++ rest)) = .ok contents := by
  obtain ⟨dir, -, hleads, -⟩ := exists_sub hlead
  have hrest : NameProblem.Keeps rest := by
    rw [← hleads.joined] at hkeeps
    exact hkeeps.of_join
  constructor
  · intro hfile
    have hshort := (h.looseWritten hlead hkeeps hfile).short
    exact (hleads.isFile_iff hrest (h.unlinked_lead hlead) hshort).1 hfile
  · intro hread
    obtain ⟨place, hresolve⟩ := FileTree.readFile_eq_ok_iff.1 hread
    refine hleads.isFile_of_resolve hrest ?_ hresolve
    exact fun location hdirectory front _ target _ =>
      h.unlinked_lead hlead location hdirectory front target

/-- Both readers find in the file of a branch what is stored under its name. -/
theorem RefsWritten.stored_of_isFile (h : RefsWritten t l) {lead rest : String}
    (hlead : lead = RefName.heads ∨ lead = RefName.remotes)
    (hkeeps : NameProblem.Keeps (lead ++ rest)) {contents : ByteArray}
    (hfile : IsFile t l lead rest contents) :
    ∃ target, RefDatabase.parseLoose (Text.byteChars contents.data.toList) = .ok target ∧
      (target.oid? = none → target.symbolic?.isSome) ∧
      Stored t l (lead ++ rest) target.oid? := by
  obtain ⟨found, hwritten⟩ := (h.looseWritten hlead hkeeps hfile).contents
  obtain ⟨text, htext, hparse⟩ := hwritten.decodeText
  obtain ⟨value, hvalue, rfl⟩ := hparse (l.looseRef (lead ++ rest))
  have hread : t.readText (l.looseRef (lead ++ rest)) = .ok text :=
    bind_eq_ok.2 ⟨contents, (h.isFile_iff hlead hkeeps).1 hfile, htext⟩
  have hstored := Stored.of_file hread hvalue
  cases value with
  | direct oid => exact ⟨_, hwritten.parseLoose_of_some, nofun, hstored⟩
  | symbolic name =>
    obtain ⟨target, htarget⟩ := hwritten.parseLoose_of_none
    refine ⟨_, htarget, fun _ => ?_, hstored⟩
    rw [RefTarget.symbolic?, Text.decode?_encode]
    rfl

section

variable {packed : List (String × Oid)} {full : List (String × RefTarget)} {lead rest : String}

/-- What an opened repository finds of a branch in a file is stored under its name. -/
theorem RefsWritten.isRef_of_loose (h : RefsWritten t l) (hshared : SharesFiles t l r)
    (hlead : lead = RefName.heads ∨ lead = RefName.remotes) {target : RefTarget}
    (hloose : (lead ++ rest, target) ∈ RefDatabase.looseRefs t r.gitDir r.commonDir) :
    (target.oid? = none → target.symbolic?.isSome) ∧ IsRef t l (lead ++ rest) target.oid? := by
  obtain ⟨hkeeps, contents, hfile, hparse⟩ := (h.mem_looseRefs_iff hshared hlead).1 hloose
  obtain ⟨other, hother, htext, hstored⟩ := h.stored_of_isFile hlead hkeeps hfile
  obtain rfl := Except.ok.inj (hparse.symm.trans hother)
  exact ⟨htext, hkeeps, hstored⟩

/-- A branch with a file is found there by an opened repository. -/
theorem RefsWritten.exists_loose (h : RefsWritten t l) (hshared : SharesFiles t l r)
    (hlead : lead = RefName.heads ∨ lead = RefName.remotes)
    (hkeeps : NameProblem.Keeps (lead ++ rest)) {contents : ByteArray}
    (hread : t.readFile (l.looseRef (lead ++ rest)) = .ok contents) :
    ∃ target, (lead ++ rest, target) ∈ RefDatabase.looseRefs t r.gitDir r.commonDir := by
  have hfile := (h.isFile_iff hlead hkeeps).2 hread
  obtain ⟨target, htarget, -⟩ := h.stored_of_isFile hlead hkeeps hfile
  exact ⟨target, (h.mem_looseRefs_iff hshared hlead).2 ⟨hkeeps, contents, hfile, htarget⟩⟩

/-- The branches that an opened repository finds are those that are stored. -/
theorem RefsWritten.isRef_iff (h : RefsWritten t l) (hshared : SharesFiles t l r)
    (hlead : lead = RefName.heads ∨ lead = RefName.remotes)
    (hpacked : packedRefs t l = .ok packed)
    (hfull : RefDatabase.all t r.gitDir r.commonDir = .ok full) {found : Option Oid} :
    (∃ target, (lead ++ rest, target) ∈ full ∧ target.oid? = found) ↔
      IsRef t l (lead ++ rest) found := by
  obtain ⟨table, htable, -⟩ := map_eq_ok.1 ((RefDatabase.all_eq ..).symm.trans hfull)
  obtain ⟨records, hnames, rfl, hperm⟩ := h.packed_eq hshared hpacked htable
  have hnodup : ((records.map fun e => (e.name, e.oid)).map Prod.fst).Nodup := by
    rwa [List.map_map]
  constructor
  · rintro ⟨target, hmem, rfl⟩
    rcases (RefDatabase.mem_all_iff hfull htable).1 hmem with
      hloose | ⟨hnone, entry, hentry, hdecode, rfl⟩
    · exact (h.isRef_of_loose hshared hlead hloose).2
    · obtain ⟨e, he, rfl⟩ := List.mem_map.1 (hperm.mem_iff.1 hentry)
      rw [Text.decode?_encode] at hdecode
      have hname : e.name = lead ++ rest := Option.some.inj hdecode
      have hkeeps : NameProblem.Keeps (lead ++ rest) := hname ▸ e.acceptable
      -- a file of the name would hide the packed line
      refine ⟨hkeeps, .packed (fun contents hread => ?_) hpacked ?_⟩
      · obtain ⟨target, hloose⟩ := h.exists_loose hshared hlead hkeeps hread
        exact hnone target hloose
      · exact (getLast?_of_nodup hnodup).2 (List.mem_map.2 ⟨e, he, by rw [hname]⟩)
  · rintro ⟨hkeeps, hstored⟩
    by_cases hfile : ∃ contents, t.readFile (l.looseRef (lead ++ rest)) = .ok contents
    · obtain ⟨contents, hread⟩ := hfile
      obtain ⟨target, hloose⟩ := h.exists_loose hshared hlead hkeeps hread
      have hother := (h.isRef_of_loose hshared hlead hloose).2.stored
      exact ⟨target, (RefDatabase.mem_all_iff hfull htable).2 (.inl hloose),
        hother.unique hstored⟩
    · have hnone (target : RefTarget) :
          (lead ++ rest, target) ∉ RefDatabase.looseRefs t r.gitDir r.commonDir := by
        intro hloose
        obtain ⟨-, contents, hread, -⟩ := (h.mem_looseRefs_iff hshared hlead).1 hloose
        exact hfile ⟨contents, (h.isFile_iff hlead hkeeps).1 hread⟩
      have hread {text : String} : t.readText (l.looseRef (lead ++ rest)) ≠ .ok text := by
        intro htext
        obtain ⟨contents, hcontents, -⟩ := bind_eq_ok.1 htext
        exact hfile ⟨contents, hcontents⟩
      cases hstored with
      | direct htext => exact absurd htext hread
      | symbolic htext => exact absurd htext hread
      | packed _ hrefs hlast =>
        obtain rfl := Except.ok.inj (hpacked.symm.trans hrefs)
        obtain ⟨e, he, heq⟩ := List.mem_map.1 ((getLast?_of_nodup hnodup).1 hlast)
        obtain ⟨hname, rfl⟩ := Prod.mk.inj heq
        refine ⟨.direct e.oid e.peeled, (RefDatabase.mem_all_iff hfull htable).2
          (.inr ⟨hnone, _, hperm.mem_iff.2 (List.mem_map_of_mem he), ?_, rfl⟩), rfl⟩
        rw [Text.decode?_encode, hname]

/-- The plain reader lists the branches that are stored. -/
theorem RefsWritten.listsStored (h : RefsWritten t l) {listing : Listing}
    (hlisting : PlainReader.listing t l = .ok listing) : ListsStored t l := by
  intro kind rest oid
  have hlead := kind.lead_eq
  obtain ⟨dir, -, hleads, -⟩ := exists_sub hlead
  obtain ⟨refs, hrefs⟩ := exists_listRefs hlisting kind
  obtain ⟨packed, hpacked, hmem⟩ := hleads.mem_listRefs_iff hrefs
  have hlast (hkeeps : NameProblem.Keeps (kind.lead ++ rest)) :
      LastSays t l kind.lead packed (kind.lead ++ rest) oid ↔
        Stored t l (kind.lead ++ rest) (some oid) := by
    have hrest : NameProblem.Keeps rest := by
      rw [← hleads.joined] at hkeeps
      exact hkeeps.of_join
    exact (h.unaliased hlead hkeeps).lastSays_iff_stored hleads hrest
      (fun contents => h.isFile_iff hlead hkeeps) hpacked
  constructor
  · rintro ⟨others, hothers, hlisted⟩
    obtain rfl := Except.ok.inj (hrefs.symm.trans hothers)
    obtain ⟨-, -, hkeeps, hsaid⟩ := (hmem _ _).1 hlisted
    exact ⟨hkeeps, (hlast hkeeps).1 hsaid⟩
  · rintro ⟨hkeeps, hstored⟩
    exact ⟨refs, hrefs, (hmem _ _).2 ⟨rest, rfl, hkeeps, (hlast hkeeps).2 hstored⟩⟩

/-- An opened repository answers what is stored, when every branch with an id leads to the commit of
that id. -/
theorem RefsWritten.reads (h : RefsWritten t l) (hshared : SharesFiles t l r)
    (hpacked : packedRefs t l = .ok packed)
    (hpeels : ∀ kind entries, RepositoryReader.branches t r kind = .ok entries →
      ∀ found, .ok found ∈ entries → ∀ oid commit, found.target.oid? = some oid →
        RefDatabase.peelToCommit t r.gitDir r.commonDir found.target = .ok commit → commit = oid) :
    (RepositoryReader.library t r).Reads t l where
  iterator := by
    intro kind entries hentries rest found
    have hstarts : Text.startsWith kind.lead (kind.lead ++ rest) = true := by
      rw [Text.startsWith, Text.after?_append]
      rfl
    obtain ⟨names, hnames, -⟩ := map_eq_ok.1 (mapError_eq_ok.1 hentries)
    obtain ⟨full, hfull, -⟩ := map_eq_ok.1 hnames
    rw [← h.isRef_iff hshared kind.lead_eq hpacked hfull]
    refine exists_congr fun target => and_congr_left fun _ => ?_
    rw [RepositoryReader.mem_branches hentries]
    constructor
    · rintro ⟨others, hothers, name, hname, hmem, -⟩
      obtain rfl := Except.ok.inj (hfull.symm.trans hothers)
      obtain rfl := Option.some.inj hname
      exact hmem
    · exact fun hmem => ⟨full, hfull, _, rfl, hmem, hstarts⟩
  symbolic := by
    intro kind entries hentries found hfound hnone
    obtain ⟨full, hfull, name, -, hmem, hstarts⟩ :=
      (RepositoryReader.mem_branches hentries).1 hfound
    obtain ⟨rest, hrest⟩ := Option.isSome_iff_exists.1 hstarts
    obtain rfl := Text.after?_eq_some_iff.1 hrest
    obtain ⟨table, htable, -⟩ := map_eq_ok.1 ((RefDatabase.all_eq ..).symm.trans hfull)
    -- a packed reference has an id
    rcases (RefDatabase.mem_all_iff hfull htable).1 hmem with
      hloose | ⟨-, entry, -, -, htarget⟩
    · exact (h.isRef_of_loose hshared kind.lead_eq hloose).1 hnone
    · rw [htarget] at hnone
      cases hnone
  peels := hpeels

end

end

end PlainReader

end WorktreeTracker
