import WorktreeTracker.PlainReader
import WorktreeTracker.Proofs.FileTree
import WorktreeTracker.Proofs.Name
import WorktreeTracker.Proofs.OrderedMap
import WorktreeTracker.Proofs.Path
import WorktreeTracker.Proofs.Results

/-!
# References found by the plain reader

Which files are read as loose references, under which names they are listed, and what every listed
reference is like: its name starts with what was asked for, keeps the rules and is listed once.
-/

namespace WorktreeTracker.PlainReader

/-! ## Files of loose references -/

theorem slashed_append (a b : String) : slashed (a ++ b) = slashed a ++ slashed b := by
  rw [← String.toList_inj]
  simp [slashed]

theorem slashed_of_not_mem {s : String} (h : '\\' ∉ s.toList) : slashed s = s := by
  have hmap : (s.toList.map fun c => if c = '\\' then '/' else c) = s.toList.map id :=
    List.map_congr_left fun c hc => if_neg (by rintro rfl; exact h hc)
  rw [slashed, hmap, List.map_id, String.ofList_toList]

/-- The references that start with `lead` are those in the directory `dir`. -/
structure Leads (dir lead : String) : Prop where
  /-- The directory is the lead without its slash. -/
  trimmed : Text.trimEnding '/' lead = dir
  /-- The lead is the directory with a slash. -/
  joined : dir ++ "/" = lead
  /-- The directory is seen from another one. -/
  relative : Path.Relative dir
  /-- The directory has a name. -/
  nonempty : dir ≠ ""
  /-- The directory does not end in a slash. -/
  ending : Text.endsWith "/" dir = false
  /-- The first part of the directory is a name. -/
  first : ((Path.mk dir).pieces.head?.bind Path.componentOf?).isSome
  /-- The lead has no backslash. -/
  plain : '\\' ∉ lead.toList

theorem leads_heads : Leads "refs/heads" RefName.heads := by
  constructor <;> decide

theorem leads_remotes : Leads "refs/remotes" RefName.remotes := by
  constructor <;> decide

/-- The relative path that names lead along. -/
abbrev along (names : List String) : String := "/".intercalate names

theorem slashed_along {names : List String} (h : ∀ name ∈ names, '\\' ∉ name.toList) :
    slashed (along names) = along names := by
  induction names with
  | nil => rfl
  | cons name rest ih =>
    have hname := slashed_of_not_mem (h name List.mem_cons_self)
    cases rest with
    | nil => rwa [along, String.intercalate_singleton]
    | cons next rest =>
      have hslash : slashed "/" = "/" := by decide
      rw [along, String.intercalate_cons_cons, slashed_append, slashed_append, hname, hslash,
        ih fun other hother => h other (List.mem_cons_of_mem _ hother)]

/-- Names of entries that lead somewhere make a relative path with these names as its parts. -/
theorem relative_along {names : List String} (hne : names ≠ [])
    (hnames : ∀ name ∈ names, isEntryName name = true) : Path.Relative (along names) := by
  obtain ⟨first, rest, rfl⟩ := List.exists_cons_of_ne_nil hne
  obtain ⟨hfirst, -, -, -, hslash, -⟩ := isEntryName_iff.1 (hnames first List.mem_cons_self)
  have hstart : Text.startsWith "/" first = false := by
    rw [← Bool.not_eq_true, Text.startsWith_iff]
    exact fun hprefixed => hslash (hprefixed.mem List.mem_cons_self)
  cases rest with
  | nil => rwa [along, String.intercalate_singleton]
  | cons next rest =>
    rw [along, String.intercalate_cons_cons, Path.Relative, String.append_assoc,
      Path.startsWith_append hfirst]
    exact hstart

theorem pieces_along {names : List String} (hne : names ≠ [])
    (hnames : ∀ name ∈ names, isEntryName name = true) : (Path.mk (along names)).pieces = names :=
  Text.splitOn_intercalate (fun name hname => (isEntryName_iff.1 (hnames name hname)).2.2.2.2.1) hne

variable {t : FileTree} {l : Layout} {dir lead : String}

/-- A path below a directory of references is the file of a loose reference. -/
theorem Leads.div (h : Leads dir lead) {rel : String} (hrel : Path.Relative rel) :
    looseDirectory l lead / rel = l.looseRef (lead ++ rel) := by
  rw [looseDirectory, h.trimmed, Path.div_div _ h.relative hrel h.nonempty h.ending, h.joined]
  rfl

/-- The directory of references has a text that does not end in a slash. -/
theorem Leads.text_looseDirectory (h : Leads dir lead) :
    (looseDirectory l lead).text ≠ "" ∧
      Text.endsWith "/" (looseDirectory l lead).text = false := by
  have hend (front : String) : Text.endsWith "/" (front ++ dir) = false := by
    rw [Path.endsWith_append h.nonempty]
    exact h.ending
  rw [looseDirectory, h.trimmed, Path.text_div _ h.relative]
  split
  next => exact ⟨h.nonempty, h.ending⟩
  next =>
    split
    next => exact ⟨by simp [h.nonempty], hend _⟩
    next => exact ⟨by simp, hend _⟩

/-- The file of the loose reference that names lead to below a directory of references. -/
theorem Leads.div_along (h : Leads dir lead) {names : List String} (hne : names ≠ [])
    (hnames : ∀ name ∈ names, isEntryName name = true) :
    looseDirectory l lead / along names = l.looseRef (lead ++ along names) :=
  h.div (relative_along hne hnames)

/-- The files read as loose references are those below the directory of the references. -/
theorem Leads.mem_looseFiles_iff (h : Leads dir lead) {path : Path} {contents : ByteArray} :
    (path, contents) ∈ looseFiles t l lead ↔
      ∃ location names, t.resolve (looseDirectory l lead) true = .ok (location, .directory) ∧
        t.Leaf location names (.file contents) ∧ path = l.looseRef (lead ++ along names) := by
  rw [looseFiles]
  generalize t.resolve (looseDirectory l lead) true = found
  rcases found with fault | ⟨location, entry⟩
  · simp [filesUnder]
  · cases entry with
    | directory =>
      simp only [filesUnder, List.mem_map, Except.ok.injEq, Prod.mk.injEq, and_true]
      constructor
      · rintro ⟨⟨names, found⟩, hfile, rfl, rfl⟩
        have hleaf := FileTree.mem_filesBelow_iff.1 hfile
        exact ⟨location, names, rfl, hleaf, h.div_along hleaf.ne_nil hleaf.isEntryName⟩
      · rintro ⟨_, names, rfl, hleaf, rfl⟩
        refine ⟨(names, contents), FileTree.mem_filesBelow_iff.2 hleaf, ?_, rfl⟩
        exact h.div_along hleaf.ne_nil hleaf.isEntryName
    | file contents => simp [filesUnder]
    | link target => simp [filesUnder]

/-- What comes after the shared directory in the path of a loose reference is its name. -/
theorem Leads.after?_looseRef (h : Leads dir lead) {names : List String} (hne : names ≠ [])
    (hnames : ∀ name ∈ names, isEntryName name = true) :
    l.commonDir.after? (l.looseRef (lead ++ along names)) = some (lead ++ along names) := by
  obtain ⟨c, hc⟩ := Option.isSome_iff_exists.1 h.first
  obtain ⟨piece, hpiece, hcomponent⟩ := Option.bind_eq_some_iff.1 hc
  obtain ⟨rest, hrest⟩ : ∃ rest, (Path.mk dir).pieces = piece :: rest :=
    List.head?_eq_some_iff.1 hpiece
  have hjoined : lead ++ along names = dir ++ "/" ++ along names := by
    rw [h.joined]
  refine Path.after?_div _ piece (rest ++ names) ?_ ?_ ?_
  · rw [hjoined, String.append_assoc, Path.Relative, Path.startsWith_append h.nonempty]
    exact h.relative
  · rw [hjoined]
    show Text.splitOn '/' _ = _
    rw [Text.splitOn_append]
    exact congrArg₂ (· ++ ·) hrest (pieces_along hne hnames)
  · rw [hcomponent]
    rfl

/-! ## Entries of references -/

/-- Contents that are no text are refused as such. -/
theorem decodeText_cases (contents : ByteArray) :
    (∃ text, FileTree.decodeText contents = .ok text) ∨
      FileTree.decodeText contents = .error .notText := by
  unfold FileTree.decodeText
  cases String.fromUTF8? contents with
  | some text => exact .inl ⟨text, rfl⟩
  | none => exact .inr rfl

/-- A file below a directory of references is passed over as a lock, or it is listed under its name
with slashes for backslashes. -/
theorem Leads.looseEntry?_eq_ok_iff (h : Leads dir lead) {names : List String} (hne : names ≠ [])
    (hnames : ∀ name ∈ names, isEntryName name = true) {contents : ByteArray}
    {found : Option (String × Option Oid)} :
    looseEntry? l (l.looseRef (lead ++ along names)) contents = .ok found ↔
      (l.looseRef (lead ++ along names)).fileName?.any isLock = true ∧ found = none ∨
        (l.looseRef (lead ++ along names)).fileName?.any isLock = false ∧
          ∃ text value, FileTree.decodeText contents = .ok text ∧
            RefFile.parse (l.looseRef (lead ++ along names)) text = .ok value ∧
            found = some (lead ++ slashed (along names), value.oid?) := by
  have hname : slashed (lead ++ along names) = lead ++ slashed (along names) := by
    rw [slashed_append, slashed_of_not_mem h.plain]
  unfold looseEntry?
  rw [h.after?_looseRef hne hnames, ← hname]
  cases (l.looseRef (lead ++ along names)).fileName?.any isLock with
  | true => simp [eq_comm]
  | false =>
    simp only [Bool.false_eq_true, if_false, false_and, false_or, true_and]
    rw [bind_eq_ok]
    refine exists_congr fun text => ?_
    rw [mapError_eq_ok, bind_eq_ok]
    constructor
    · rintro ⟨htext, value, hvalue, heq⟩
      exact ⟨value, htext, hvalue, (Except.ok.inj heq).symm⟩
    · rintro ⟨value, htext, hvalue, rfl⟩
      exact ⟨htext, value, hvalue, rfl⟩

/-- What is found are the packed references and those of the loose files. -/
theorem refEntries_eq_ok {entries : List (String × Option Oid)}
    (h : refEntries t l lead = .ok entries) :
    ∃ packed loose, packedRefs t l = .ok packed ∧
      List.Forall₂ (fun file found => looseEntry? l file.1 file.2 = .ok found)
        (looseFiles t l lead) loose ∧
      entries = packedEntries lead packed ++ loose.filterMap id := by
  obtain ⟨packed, hpacked, h⟩ := bind_eq_ok.1 h
  obtain ⟨loose, hloose, h⟩ := bind_eq_ok.1 h
  exact ⟨packed, loose, hpacked, mapM_eq_ok hloose, (Except.ok.inj h).symm⟩

/-- The packed entries of a name that starts as asked for are its packed lines. -/
theorem filter_packedEntries {name : String} (h : Text.startsWith lead name = true)
    (packed : List (String × Oid)) :
    (packedEntries lead packed).filter (fun entry => entry.1 = name) =
      (packed.filter fun entry => entry.1 = name).map fun entry => (entry.1, some entry.2) := by
  rw [packedEntries, List.filter_map, List.filter_filter]
  refine congrArg (List.map _) (List.filter_congr fun entry _ => ?_)
  by_cases hname : entry.1 = name
  · simp [hname, h]
  · simp [hname]

/-- Every name that is found starts with what was asked for. -/
theorem Leads.starts_of_mem (h : Leads dir lead) {entries : List (String × Option Oid)}
    (hentries : refEntries t l lead = .ok entries) {e : String × Option Oid} (he : e ∈ entries) :
    ∃ rest, e.1 = lead ++ rest := by
  obtain ⟨packed, loose, -, hloose, rfl⟩ := refEntries_eq_ok hentries
  rcases List.mem_append.1 he with he | he
  · obtain ⟨⟨name, oid⟩, hmem, rfl⟩ := List.mem_map.1 he
    obtain ⟨rest, hrest⟩ := Option.isSome_iff_exists.1 (List.mem_filter.1 hmem).2
    exact ⟨rest, Text.after?_eq_some_iff.1 hrest⟩
  · obtain ⟨found, hfound, rfl⟩ := List.mem_filterMap.1 he
    obtain ⟨⟨path, contents⟩, hfile, hentry⟩ := exists_of_forall₂ hloose hfound
    obtain ⟨location, names, -, hleaf, rfl⟩ := h.mem_looseFiles_iff.1 hfile
    rcases (h.looseEntry?_eq_ok_iff hleaf.ne_nil hleaf.isEntryName).1 hentry with
      ⟨-, hnone⟩ | ⟨-, _, _, -, -, hsome⟩
    · cases hnone
    · exact ⟨_, congrArg Prod.fst (Option.some.inj hsome)⟩

/-- The references that are listed are those of the entries that are found. -/
theorem listRefs_eq_ok {refs : List (RefName × Oid)} (h : listRefs t l lead = .ok refs) :
    ∃ entries, refEntries t l lead = .ok entries ∧ refs = directRefs (.ofList entries) := by
  obtain ⟨entries, hentries, rfl⟩ := map_eq_ok.1 h
  exact ⟨entries, hentries, rfl⟩

/-- When every loose file can be read, the references of the packed lines and the loose files are
listed. -/
theorem listRefs_of_loose {packed : List (String × Oid)}
    {loose : List (Option (String × Option Oid))} (hpacked : packedRefs t l = .ok packed)
    (hloose : (looseFiles t l lead).mapM (fun file => looseEntry? l file.1 file.2) = .ok loose) :
    listRefs t l lead =
      .ok (directRefs (.ofList (packedEntries lead packed ++ loose.filterMap id))) :=
  map_eq_ok.2 ⟨_, bind_eq_ok.2 ⟨packed, hpacked, bind_eq_ok.2 ⟨loose, hloose, rfl⟩⟩, rfl⟩

/-- Without loose files the packed references are listed. -/
theorem listRefs_of_packed {packed : List (String × Oid)} (hpacked : packedRefs t l = .ok packed)
    (hloose : looseFiles t l lead = []) :
    listRefs t l lead = .ok (directRefs (.ofList (packedEntries lead packed))) := by
  have hnone : (looseFiles t l lead).mapM (fun file => looseEntry? l file.1 file.2) = .ok [] := by
    rw [hloose, List.mapM_nil]
    rfl
  rw [listRefs_of_loose hpacked hnone, List.filterMap_nil, List.append_nil]

/-! ## Listed references -/

/-- An entry stands for a reference when it is direct and its name keeps the rules. -/
theorem directRef?_eq_some_iff {text : String} {value : Option Oid} {name : RefName} {oid : Oid} :
    directRef? (text, value) = some (name, oid) ↔
      value = some oid ∧ name.text = text ∧ NameProblem.find? text = none := by
  obtain ⟨other⟩ := name
  unfold directRef? RefName.create
  cases value with
  | none => simp
  | some found =>
    cases NameProblem.find? text with
    | none => simp [Except.toOption, eq_comm, and_comm]
    | some problem => simp [Except.toOption]

/-- A table lists its direct references with names that keep the rules. -/
theorem mem_directRefs_iff {table : RefTable} {name : RefName} {oid : Oid} :
    (name, oid) ∈ directRefs table ↔
      table.find? name.text = some (some oid) ∧ NameProblem.find? name.text = none := by
  rw [directRefs, List.mem_filterMap, OrderedMap.find?_eq_some_iff]
  constructor
  · rintro ⟨⟨text, value⟩, hmem, h⟩
    obtain ⟨rfl, rfl, hrules⟩ := directRef?_eq_some_iff.1 h
    exact ⟨hmem, hrules⟩
  · rintro ⟨hmem, hrules⟩
    exact ⟨_, hmem, directRef?_eq_some_iff.2 ⟨rfl, rfl, hrules⟩⟩

/-- References are listed by increasing name. -/
theorem directRefs_increasing (table : RefTable) :
    (directRefs table).Pairwise fun a b => compare a.1.text b.1.text = .lt := by
  rw [directRefs, List.pairwise_filterMap]
  refine table.sorted.imp fun {a b} hlt r hr s hs => ?_
  rwa [(directRef?_eq_some_iff.1 hr).2.1, (directRef?_eq_some_iff.1 hs).2.1]

/-- No name is listed twice. -/
theorem nodup_directRefs (table : RefTable) : ((directRefs table).map Prod.fst).Nodup := by
  rw [List.nodup_iff_pairwise_ne, List.pairwise_map]
  refine (directRefs_increasing table).imp fun hlt heq => ?_
  rw [heq] at hlt
  simp at hlt

/-- Tables that list the same references list them in the same order. -/
theorem directRefs_ext {table table' : RefTable}
    (h : ∀ name oid, (name, oid) ∈ directRefs table ↔ (name, oid) ∈ directRefs table') :
    directRefs table = directRefs table' :=
  OrderedMap.eq_of_increasing (directRefs_increasing table) (directRefs_increasing table')
    fun r => h r.1 r.2

/-- The names that are listed start with what was asked for and keep the rules, and what comes after
keeps them too. -/
theorem Leads.mem_listRefs (h : Leads dir lead) {refs : List (RefName × Oid)}
    (hlist : listRefs t l lead = .ok refs) {name : RefName} {oid : Oid}
    (hmem : (name, oid) ∈ refs) :
    ∃ rest, name.text = lead ++ rest ∧ NameProblem.Keeps name.text ∧ NameProblem.Keeps rest := by
  obtain ⟨entries, hentries, rfl⟩ := listRefs_eq_ok hlist
  obtain ⟨hfind, hrules⟩ := mem_directRefs_iff.1 hmem
  obtain ⟨rest, hrest⟩ := h.starts_of_mem hentries (OrderedMap.mem_of_find?_ofList hfind)
  have hkeeps := NameProblem.find?_eq_none_iff.1 hrules
  refine ⟨rest, hrest, hkeeps, ?_⟩
  rw [show name.text = dir ++ "/" ++ rest by rw [h.joined, ← hrest]] at hkeeps
  exact hkeeps.of_join

end WorktreeTracker.PlainReader
