import WorktreeTracker.Proofs.FileTree
import WorktreeTracker.Proofs.Path

/-!
# Following paths

A path is followed one name at a time. What follows from that: a joined path is followed from where
its first part leads, with the links that are left, and where no link stands on the way the entry
that is found is the one that a walk meets.
-/

namespace WorktreeTracker.FileTree

variable {t : FileTree}

/-! ## One name -/

/-- Where a name leads. -/
inductive Turn where
  /-- On to a place. -/
  | reach (place : Location)
  /-- Into a link: the parts it points at are followed from a place. -/
  | link (start : Location) (parts : List String)

/-- Where a name leads from a place, links followed. -/
def turn (t : FileTree) (here : Location) (part : String) : Except Fault Turn :=
  match t.entryAt? here with
  | none => .error .notFound
  | some (.file _) => .error .notADirectory
  | some (.link _) => .error .notADirectory
  | some .directory =>
    if part = "" ∨ part = "." then .ok (.reach here)
    else if part = ".." then .ok (.reach here.dropLast)
    else if maxNameLength < part.utf8ByteSize then .error .nameTooLong
    else match t.entryAt? (here ++ [part]) with
      | none => .error .notFound
      | some (.link target) =>
        .ok (.link (if Text.startsWith "/" target then [] else here) (Text.splitOn '/' target))
      | some _ => .ok (.reach (here ++ [part]))

/-- What a link leads to when so many more may be taken. -/
def expansion (t : FileTree) : (links : Nat) → Location → List String → Except Fault Found
  | 0, _, _ => .error .tooManyLinks
  | links + 1, start, parts => t.followLinks true links start parts

/-- Following a path is following it with the links that are left. -/
theorem followLinks_eq (links : Nat) :
    t.followLinks true links = t.follow true (t.expansion links) := by
  cases links with
  | zero => rfl
  | succ links => rfl

/-- At the end of a path the entry that is there is found. -/
theorem followLinks_nil (links : Nat) (here : Location) :
    t.followLinks true links here [] =
      match t.entryAt? here with
      | some entry => .ok (here, entry)
      | none => .error .notFound := by
  rw [followLinks_eq]
  cases hhere : t.entryAt? here with
  | none => simp only [follow, hhere]
  | some entry => simp only [follow, hhere]

/-- Before the end of a path the next name tells where to go on. -/
theorem followLinks_cons (links : Nat) (here : Location) (part : String) (rest : List String) :
    t.followLinks true links here (part :: rest) =
      match t.turn here part with
      | .error fault => .error fault
      | .ok (.reach place) => t.followLinks true links place rest
      | .ok (.link start parts) => t.expansion links start (parts ++ rest) := by
  rw [followLinks_eq, follow, turn]
  cases t.entryAt? here with
  | none => rfl
  | some entry =>
    cases entry with
    | file contents => rfl
    | link target => rfl
    | directory =>
      dsimp only
      -- both sides try the cases in the same order, so each is settled on both at once
      by_cases hstay : part = "" ∨ part = "."
      · rw [if_pos hstay, if_pos hstay]
      rw [if_neg hstay, if_neg hstay]
      by_cases hup : part = ".."
      · rw [if_pos hup, if_pos hup]
      rw [if_neg hup, if_neg hup]
      by_cases hlong : maxNameLength < part.utf8ByteSize
      · rw [if_pos hlong, if_pos hlong]
      rw [if_neg hlong, if_neg hlong]
      cases t.entryAt? (here ++ [part]) with
      | none => rfl
      | some found =>
        cases found with
        | file contents => rfl
        | directory => rfl
        | link target =>
          dsimp only
          rw [Bool.not_true, Bool.and_false, if_neg Bool.false_ne_true]

/-- At the end of a path it is there that something is found. -/
theorem followLinks_nil_eq_ok {links : Nat} {here place : Location} {entry : Entry} :
    t.followLinks true links here [] = .ok (place, entry) ↔
      place = here ∧ t.entryAt? place = some entry := by
  rw [followLinks_nil]
  cases hhere : t.entryAt? here with
  | none =>
    refine iff_of_false (by simp) ?_
    rintro ⟨rfl, hentry⟩
    cases hhere.symm.trans hentry
  | some found =>
    constructor
    · intro h
      obtain ⟨rfl, rfl⟩ := Prod.mk.inj (Except.ok.inj h)
      exact ⟨rfl, hhere⟩
    · rintro ⟨rfl, hentry⟩
      rw [hhere] at hentry
      rw [Option.some.inj hentry]

/-- What the rest of a path leads to from where a name leads. -/
def onward (t : FileTree) (links : Nat) (rest : List String) : Turn → Except Fault Found
  | .reach place => t.followLinks true links place rest
  | .link start parts => t.expansion links start (parts ++ rest)

/-- Before the end of a path something is found when the name leads somewhere and the rest is followed
from there. -/
theorem followLinks_cons_eq_ok {links : Nat} {here : Location} {part : String} {rest : List String}
    {found : Found} :
    t.followLinks true links here (part :: rest) = .ok found ↔
      ∃ next, t.turn here part = .ok next ∧ t.onward links rest next = .ok found := by
  rw [followLinks_cons]
  cases t.turn here part with
  | error fault => simp
  | ok next => cases next <;> simp [onward]

/-! ## Joined paths -/

/-- How following a path with more names at its end goes on from following it without them: the same
fault is met, or the names are followed from the place that was reached, with the links that are
left. -/
def GoesOn (t : FileTree) (rest : List String) (short long : Except Fault Found) : Prop :=
  (∃ fault, short = .error fault ∧ long = .error fault) ∨
    ∃ place entry left, short = .ok (place, entry) ∧ t.entryAt? place = some entry ∧
      long = t.followLinks true left place rest

/-- A fault that is met before the names is met with them. -/
theorem GoesOn.error {rest : List String} {fault : Fault} {long : Except Fault Found}
    (h : t.GoesOn rest (.error fault) long) : long = .error fault := by
  rcases h with ⟨other, hshort, hlong⟩ | ⟨place, entry, left, hshort, -, -⟩
  · rw [hlong, Except.error.inj hshort]
  · cases hshort

/-- The names are followed from the place that was reached. -/
theorem GoesOn.ok {rest : List String} {place : Location} {entry : Entry}
    {long : Except Fault Found} (h : t.GoesOn rest (.ok (place, entry)) long) :
    t.entryAt? place = some entry ∧ ∃ left, long = t.followLinks true left place rest := by
  rcases h with ⟨fault, hshort, -⟩ | ⟨other, found, left, hshort, hentry, hlong⟩
  · cases hshort
  · obtain ⟨rfl, rfl⟩ := Prod.mk.inj (Except.ok.inj hshort)
    exact ⟨hentry, left, hlong⟩

theorem goesOn_nil (links : Nat) (here : Location) (rest : List String) :
    t.GoesOn rest (t.followLinks true links here []) (t.followLinks true links here rest) := by
  rw [followLinks_nil]
  cases hhere : t.entryAt? here with
  | some entry => exact .inr ⟨here, entry, links, rfl, hhere, rfl⟩
  | none =>
    refine .inl ⟨.notFound, rfl, ?_⟩
    cases rest with
    | nil => rw [followLinks_nil, hhere]
    | cons part rest => rw [followLinks_cons, turn, hhere]

/-- A path is followed as far as it goes before more names at its end count. -/
theorem goesOn (links : Nat) (here : Location) (parts rest : List String) :
    t.GoesOn rest (t.followLinks true links here parts)
      (t.followLinks true links here (parts ++ rest)) := by
  -- a link makes the parts longer, so the links that are left come first and then the parts
  induction links generalizing here parts with
  | zero =>
    induction parts generalizing here with
    | nil => exact goesOn_nil 0 here rest
    | cons part parts ih =>
      rw [List.cons_append, followLinks_cons, followLinks_cons]
      cases t.turn here part with
      | error fault => exact .inl ⟨fault, rfl, rfl⟩
      | ok next =>
        cases next with
        | reach place => exact ih place
        | link start target => exact .inl ⟨.tooManyLinks, rfl, rfl⟩
  | succ links ihlinks =>
    induction parts generalizing here with
    | nil => exact goesOn_nil (links + 1) here rest
    | cons part parts ih =>
      rw [List.cons_append, followLinks_cons, followLinks_cons]
      cases t.turn here part with
      | error fault => exact .inl ⟨fault, rfl, rfl⟩
      | ok next =>
        cases next with
        | reach place => exact ih place
        | link start target =>
          -- the parts of the link come before those that are left
          dsimp only [expansion]
          rw [← List.append_assoc]
          exact ihlinks start (target ++ parts)

/-- What is found is there. -/
theorem entryAt?_of_followLinks {links : Nat} {here : Location} {parts : List String}
    {found : Found}
    (h : t.followLinks true links here parts = .ok found) : t.entryAt? found.1 = some found.2 := by
  have hgoes := t.goesOn links here parts []
  rw [h] at hgoes
  exact hgoes.ok.1

/-! ## Ways without links -/

/-- The parts of a path that are names: none is empty or consists of one or two dots. -/
def AreNames (parts : List String) : Prop := ∀ part ∈ parts, part ≠ "" ∧ part ≠ "." ∧ part ≠ ".."

theorem turn_name {here : Location} {part : String} (hhere : t.entryAt? here = some .directory)
    (hpart : part ≠ "" ∧ part ≠ "." ∧ part ≠ "..") (hlong : ¬ maxNameLength < part.utf8ByteSize) :
    t.turn here part =
      match t.entryAt? (here ++ [part]) with
      | none => .error .notFound
      | some (.link target) =>
        .ok (.link (if Text.startsWith "/" target then [] else here) (Text.splitOn '/' target))
      | some _ => .ok (.reach (here ++ [part])) := by
  obtain ⟨hempty, hdot, hdots⟩ := hpart
  rw [turn, hhere]
  dsimp only
  rw [if_neg (by simp [hempty, hdot]), if_neg hdots, if_neg hlong]

/-- A leaf other than a link is found where its names lead. -/
theorem Leaf.followLinks {links : Nat} {here : Location} {names : List String}
    {contents : ByteArray} (h : t.Leaf here names (.file contents))
    (hhere : t.entryAt? here = some .directory) :
    t.followLinks true links here names = .ok (here ++ names, .file contents) := by
  induction names generalizing here with
  | nil => exact h.elim
  | cons name rest ih =>
    obtain ⟨hempty, hdot, hdots, hsize, -⟩ :=
      isEntryName_iff.1 (h.isEntryName name List.mem_cons_self)
    rw [followLinks_cons, turn_name hhere ⟨hempty, hdot, hdots⟩ (by omega)]
    cases rest with
    | nil =>
      rw [h.1]
      dsimp only
      rw [followLinks_nil, h.1]
    | cons next rest =>
      rw [h.1]
      dsimp only
      rw [ih h.2 h.1, List.append_assoc, List.singleton_append]

/-- Only from a directory a name leads anywhere. -/
theorem directory_of_turn {here : Location} {part : String} {next : Turn}
    (h : t.turn here part = .ok next) : t.entryAt? here = some .directory := by
  rw [turn] at h
  cases hhere : t.entryAt? here with
  | none =>
    rw [hhere] at h
    cases h
  | some entry =>
    cases entry with
    | directory => rfl
    | file contents =>
      rw [hhere] at h
      cases h
    | link target =>
      rw [hhere] at h
      cases h

theorem directory_of_followLinks {links : Nat} {here : Location} {names : List String}
    {found : Found} (hne : names ≠ []) (h : t.followLinks true links here names = .ok found) :
    t.entryAt? here = some .directory := by
  obtain ⟨name, rest, rfl⟩ := List.exists_cons_of_ne_nil hne
  obtain ⟨next, hturn, -⟩ := followLinks_cons_eq_ok.1 h
  exact directory_of_turn hturn

/-- From what is no directory no name is followed. -/
theorem followLinks_of_ne_directory {links : Nat} {place : Location} {entry : Entry} {part : String}
    {rest : List String} (hplace : t.entryAt? place = some entry) (hentry : entry ≠ .directory) :
    t.followLinks true links place (part :: rest) = .error .notADirectory := by
  rw [followLinks_cons, turn, hplace]
  cases entry with
  | directory => exact absurd rfl hentry
  | file contents => rfl
  | link target => rfl

/-- A name that is no link leads to its place. -/
theorem reach_of_turn {here : Location} {part : String} {next : Turn}
    (hpart : part ≠ "" ∧ part ≠ "." ∧ part ≠ "..")
    (hunlinked : ∀ target, t.entryAt? (here ++ [part]) ≠ some (.link target))
    (h : t.turn here part = .ok next) : next = .reach (here ++ [part]) := by
  have hhere := directory_of_turn h
  by_cases hlong : maxNameLength < part.utf8ByteSize
  · obtain ⟨hempty, hdot, hdots⟩ := hpart
    rw [turn, hhere] at h
    dsimp only at h
    rw [if_neg (by simp [hempty, hdot]), if_neg hdots, if_pos hlong] at h
    cases h
  rw [turn_name hhere hpart hlong] at h
  cases hfound : t.entryAt? (here ++ [part]) with
  | none =>
    rw [hfound] at h
    cases h
  | some found =>
    rw [hfound] at h
    cases found with
    | link target => exact absurd hfound (hunlinked target)
    | directory => exact (Except.ok.inj h).symm
    | file contents => exact (Except.ok.inj h).symm

/-- A file that is found without a link on the way is a leaf. -/
theorem leaf_of_followLinks {links : Nat} {here place : Location} {names : List String}
    {contents : ByteArray} (hne : names ≠ []) (hnames : AreNames names)
    (hunlinked : ∀ front back target, names = front ++ back →
      t.entryAt? (here ++ front) ≠ some (.link target))
    (h : t.followLinks true links here names = .ok (place, .file contents)) :
    t.Leaf here names (.file contents) := by
  induction names generalizing here with
  | nil => exact absurd rfl hne
  | cons name rest ih =>
    obtain ⟨next, hturn, hrest⟩ := followLinks_cons_eq_ok.1 h
    -- the first name is no link, so the rest is followed from its own place
    obtain rfl := reach_of_turn (hnames name List.mem_cons_self)
      (fun target => hunlinked [name] rest target rfl) hturn
    cases rest with
    | nil =>
      obtain ⟨rfl, hfound⟩ := followLinks_nil_eq_ok.1 hrest
      exact ⟨hfound, by simp⟩
    | cons next rest =>
      refine ⟨directory_of_followLinks (by simp) hrest, ih (by simp) ?_ ?_ hrest⟩
      · exact fun part hpart => hnames part (List.mem_cons_of_mem _ hpart)
      · intro front back target hsplit
        rw [List.append_assoc, List.singleton_append]
        exact hunlinked (name :: front) back target (by rw [hsplit, List.cons_append])

/-! ## Texts of joined paths -/

/-- Where a path starts. -/
def start (t : FileTree) (p : Path) : Location := if p.isAbsolute then [] else t.workingDirectory

/-- Whether the text of a path can be looked up: neither empty nor too long, with no zero in it. -/
def IsPlainText (text : String) : Prop :=
  text ≠ "" ∧ '\x00' ∉ text.toList ∧ text.utf8ByteSize < pathLengthLimit

/-- A path is followed from its start. -/
theorem resolve_of_text {p : Path} (h : IsPlainText p.text) :
    t.resolve p true = t.followLinks true linkLimit (t.start p) p.pieces := by
  obtain ⟨hne, hzero, hlong⟩ := h
  rw [resolve, if_neg (by simpa using hzero), if_neg (by simpa using hne), if_neg (by omega)]
  rfl

/-- A path that cannot be looked up is refused for its text, in every tree alike; only an empty one
counts as missing. -/
theorem refused_or_text (p : Path) :
    (∃ fault, (p.text ≠ "" → fault ≠ .notFound) ∧
      ∀ t : FileTree, t.resolve p true = .error fault) ∨ IsPlainText p.text := by
  by_cases hzero : '\x00' ∈ p.text.toList
  · refine .inl ⟨.zeroInPath, fun _ => by decide, fun t => ?_⟩
    rw [resolve, if_pos (by simpa using hzero)]
  by_cases hempty : p.text = ""
  · refine .inl ⟨.notFound, fun hne => absurd hempty hne, fun t => ?_⟩
    rw [resolve, if_neg (by simpa using hzero), if_pos (by simpa using hempty)]
  by_cases hlong : pathLengthLimit ≤ p.text.utf8ByteSize
  · refine .inl ⟨.nameTooLong, fun _ => by decide, fun t => ?_⟩
    rw [resolve, if_neg (by simpa using hzero), if_neg (by simpa using hempty), if_pos hlong]
  · exact .inr ⟨hempty, hzero, by omega⟩

/-- A path that is not followed is refused for its text. -/
theorem text_of_resolve {p : Path} (hne : p.text ≠ "") :
    (∃ fault, fault ≠ .notFound ∧ t.resolve p true = .error fault) ∨ IsPlainText p.text :=
  (refused_or_text p).imp_left fun ⟨fault, hfault, hrefused⟩ => ⟨fault, hfault hne, hrefused t⟩

theorem isPlainText_of_resolve {p : Path} {found : Found} (h : t.resolve p true = .ok found) :
    IsPlainText p.text := by
  rcases refused_or_text p with ⟨fault, -, hrefused⟩ | hplain
  · cases (hrefused t).symm.trans h
  · exact hplain

/-- What a path leads to is at the place that it leads to. -/
theorem entryAt?_of_resolve {p : Path} {found : Found} (h : t.resolve p true = .ok found) :
    t.entryAt? found.1 = some found.2 := by
  rw [resolve_of_text (isPlainText_of_resolve h)] at h
  exact entryAt?_of_followLinks h

/-- The text of a path with more joined to it. -/
theorem text_div_of_ending {p : Path} {rel : String} (hrel : Path.Relative rel) (hne : p.text ≠ "")
    (hend : Text.endsWith "/" p.text = false) : (p / rel).text = p.text ++ "/" ++ rel := by
  rw [Path.text_div p hrel, if_neg (by simpa using hne), if_neg (by simp [hend])]

/-- A path with more joined to it is followed from where the path leads. -/
theorem goesOn_div {p : Path} {rel : String} (hrel : Path.Relative rel) (hne : p.text ≠ "")
    (hend : Text.endsWith "/" p.text = false) (hplain : IsPlainText (p / rel).text) :
    t.GoesOn (Path.mk rel).pieces (t.resolve p true) (t.resolve (p / rel) true) := by
  have htext := text_div_of_ending hrel hne hend
  have hpieces : (p / rel).pieces = p.pieces ++ (Path.mk rel).pieces := by
    rw [Path.pieces_div p hrel, Path.stem, if_neg (by simpa using hne), if_neg (by simp [hend])]
  have hstart : t.start (p / rel) = t.start p := by
    rw [start, start, Path.isAbsolute_div p hrel]
  -- the shorter text can be looked up when the longer one can
  have hshort : IsPlainText p.text := by
    obtain ⟨-, hzero, hlong⟩ := hplain
    rw [htext] at hzero hlong
    simp only [String.toList_append, List.mem_append, not_or] at hzero
    rw [String.utf8ByteSize_append, String.utf8ByteSize_append] at hlong
    exact ⟨hne, hzero.1.1, by omega⟩
  rw [resolve_of_text hshort, resolve_of_text hplain, hpieces, hstart]
  exact goesOn _ _ _ _

/-- A path that is followed when more is joined to it is followed, too. -/
theorem resolve_div {p : Path} {rel : String} (hrel : Path.Relative rel) (hne : p.text ≠ "")
    (hend : Text.endsWith "/" p.text = false) :
    (∃ fault, fault ≠ .notFound ∧ t.resolve (p / rel) true = .error fault) ∨
      t.GoesOn (Path.mk rel).pieces (t.resolve p true) (t.resolve (p / rel) true) := by
  have hjoined : (p / rel).text ≠ "" := by
    rw [text_div_of_ending hrel hne hend]
    simp [hne]
  exact (text_of_resolve hjoined).imp id (goesOn_div hrel hne hend)

/-! ## What a path leads to -/

section

variable {t' : FileTree} {p q : Path}

/-- The entry that is found depends on where a path leads. -/
theorem entry_of_resolve (h : t.resolve p true = t'.resolve q true) : t.entry p = t'.entry q := by
  rw [entry, h, entry]

theorem isDirectory_of_resolve (h : t.resolve p true = t'.resolve q true) :
    t.isDirectory p = t'.isDirectory q := by
  rw [isDirectory, entry_of_resolve h, isDirectory]

theorem isFile_of_resolve (h : t.resolve p true = t'.resolve q true) : t.isFile p = t'.isFile q := by
  rw [isFile, entry_of_resolve h, isFile]

theorem readFile_of_resolve (h : t.resolve p true = t'.resolve q true) :
    t.readFile p = t'.readFile q := by
  rw [readFile, entry_of_resolve h, readFile]

theorem readText_of_resolve (h : t.resolve p true = t'.resolve q true) :
    t.readText p = t'.readText q := by
  rw [readText, readFile_of_resolve h, readText]

/-- A regular file is there. -/
theorem isPresent_of_isFile (h : t.isFile p = true) : t.isPresent p = true := by
  rw [isFile] at h
  rw [isPresent]
  cases hentry : t.entry p with
  | error fault =>
    rw [hentry] at h
    cases h
  | ok entry => rfl

/-- What is found at a name below a path is in a directory. -/
theorem isDirectory_of_isPresent_div {rel : String} (hrel : Path.Relative rel) (hne : p.text ≠ "")
    (hend : Text.endsWith "/" p.text = false)
    (h : t.isPresent (p / rel) = true) : t.isDirectory p = true := by
  rw [isPresent, entry] at h
  rcases resolve_div (t := t) hrel hne hend with ⟨fault, -, hfault⟩ |
    ⟨fault, -, hfault⟩ | ⟨place, found, left, hfound, hplace, hlong⟩
  · rw [hfault] at h
    cases h
  · rw [hfault] at h
    cases h
  · -- the name leads on from the place, so a directory is there
    rw [hlong] at h
    cases hresult : t.followLinks true left place (Path.mk rel).pieces with
    | error fault =>
      rw [hresult] at h
      cases h
    | ok result =>
      have hdirectory := directory_of_followLinks (Text.splitOn_ne_nil rel) hresult
      obtain rfl := Option.some.inj (hplace.symm.trans hdirectory)
      rw [isDirectory, entry, hfound]
      rfl

end

/-! ## Reading files -/

/-- The contents that are read are those of the file which the path leads to. -/
theorem readFile_eq_ok_iff {p : Path} {contents : ByteArray} :
    t.readFile p = .ok contents ↔ ∃ place, t.resolve p true = .ok (place, .file contents) := by
  rw [readFile, entry]
  cases t.resolve p true with
  | error fault => simp [Except.map]
  | ok found =>
    obtain ⟨place, entry⟩ := found
    cases entry with
    | file contents => simp [Except.map]
    | directory => simp [Except.map]
    | link target => simp [Except.map]

/-- A text is that of the file which its path leads to. -/
theorem readText_eq_ok_iff {p : Path} {text : String} :
    t.readText p = .ok text ↔
      ∃ place contents, t.resolve p true = .ok (place, .file contents) ∧
        decodeText contents = .ok text := by
  rw [readText, readFile, entry]
  cases t.resolve p true with
  | error fault => simp [Except.map, bind, Except.bind]
  | ok found =>
    obtain ⟨place, entry⟩ := found
    cases entry with
    | file contents => simp [Except.map, bind, Except.bind]
    | directory => simp [Except.map, bind, Except.bind]
    | link target => simp [Except.map, bind, Except.bind]

/-- What is read as a text is a regular file. -/
theorem entry_of_readText {p : Path} {text : String} (h : t.readText p = .ok text) :
    ∃ contents, t.entry p = .ok (.file contents) := by
  obtain ⟨place, contents, hfound, -⟩ := readText_eq_ok_iff.1 h
  exact ⟨contents, by rw [entry, hfound]; rfl⟩

/-- Nothing is read where nothing is found. -/
theorem readText_of_entry {p : Path} {fault : Fault} (h : t.entry p = .error fault) :
    t.readText p = .error fault := by
  rw [readText, readFile, h]
  rfl

/-- There is no file exactly when its path leads to nothing. -/
theorem readText_eq_notFound_iff {p : Path} :
    t.readText p = .error .notFound ↔ t.resolve p true = .error .notFound := by
  rw [readText, readFile, entry]
  cases t.resolve p true with
  | error fault => simp [Except.map, bind, Except.bind]
  | ok found =>
    obtain ⟨place, entry⟩ := found
    cases entry with
    | file contents =>
      simp only [Except.map, bind, Except.bind, decodeText]
      cases String.fromUTF8? contents with
      | none => simp
      | some text => simp
    | directory => simp [Except.map, bind, Except.bind]
    | link target => simp [Except.map, bind, Except.bind]

end WorktreeTracker.FileTree
