import WorktreeTracker.Proofs.Resolution

/-!
# What is below a directory

Two trees can hold the same below a directory and differ elsewhere. Without links, a path that is
joined to the directory and never climbs above it leads to the same in both, and a walk of what is
below meets the same. A path that climbs can leave the directory, and then whatever is written into
the file that it reaches is found.
-/

namespace WorktreeTracker

/-! ## Paths that stay below a directory -/

namespace Path

/-- Whether parts that are followed from so many names below a directory never lead above it. -/
def staysBelow : Nat → List String → Bool
  | _, [] => true
  | depth, part :: rest =>
    if part = "" ∨ part = "." then staysBelow depth rest
    else if part = ".." then 0 < depth && staysBelow (depth - 1) rest
    else staysBelow (depth + 1) rest

/-- What is joined to a directory names something in it: it does not start with a slash and never
leads above the directory. -/
def Stays (rel : String) : Prop := Relative rel ∧ staysBelow 0 (Path.mk rel).pieces = true

instance (rel : String) : Decidable (Stays rel) := inferInstanceAs (Decidable (_ ∧ _))

end Path

namespace FileTree

variable {t t' : FileTree} {p : Path} {place : Location}

/-- Names never lead above the place that they are followed from. -/
theorem AreNames.staysBelow {parts : List String} (h : AreNames parts) (depth : Nat) :
    Path.staysBelow depth parts = true := by
  induction parts generalizing depth with
  | nil => rfl
  | cons part rest ih =>
    obtain ⟨hempty, hdot, hdots⟩ := h part List.mem_cons_self
    rw [Path.staysBelow, if_neg (by simp [hempty, hdot]), if_neg hdots]
    exact ih (fun other hother => h other (List.mem_cons_of_mem _ hother)) (depth + 1)

/-! ## Trees that are the same below a place -/

variable (t t') in
/-- Two trees hold the same below a place, and list it in the same order. -/
structure SameBelow (place : Location) : Prop where
  /-- Every entry is the same. -/
  entryAt? : ∀ inner, t'.entryAt? (place ++ inner) = t.entryAt? (place ++ inner)
  /-- Every directory has the same names. -/
  names : ∀ inner, t'.names (place ++ inner) = t.names (place ++ inner)

/-- What is the same below a place is the same below every place in it. -/
theorem SameBelow.append (h : SameBelow t t' place) (inner : Location) :
    SameBelow t t' (place ++ inner) where
  entryAt? rest := by
    rw [List.append_assoc]
    exact h.entryAt? (inner ++ rest)
  names rest := by
    rw [List.append_assoc]
    exact h.names (inner ++ rest)

/-- A name below the place leads to the same. -/
theorem SameBelow.turn_eq (h : SameBelow t t' place) (inner : Location) (part : String) :
    t'.turn (place ++ inner) part = t.turn (place ++ inner) part := by
  have hnext := h.entryAt? (inner ++ [part])
  rw [← List.append_assoc] at hnext
  rw [turn, turn, h.entryAt? inner, hnext]

/-- Without links a part that does not climb leads to a place below. -/
theorem LinkFree.turn_below (hfree : t.LinkFree) {inner : Location} {part : String}
    {rest : List String} (hstays : Path.staysBelow inner.length (part :: rest) = true) {next : Turn}
    (h : t.turn (place ++ inner) part = .ok next) :
    ∃ deeper : Location, next = .reach (place ++ deeper) ∧
      Path.staysBelow deeper.length rest = true := by
  have hhere := directory_of_turn h
  rw [Path.staysBelow] at hstays
  by_cases hstay : part = "" ∨ part = "."
  · rw [if_pos hstay] at hstays
    rw [turn, hhere] at h
    dsimp only at h
    rw [if_pos hstay] at h
    exact ⟨inner, (Except.ok.inj h).symm, hstays⟩
  rw [if_neg hstay] at hstays
  by_cases hup : part = ".."
  · rw [if_pos hup] at hstays
    rw [turn, hhere] at h
    dsimp only at h
    rw [if_neg hstay, if_pos hup] at h
    obtain ⟨hdepth, hrest⟩ := Bool.and_eq_true_iff.1 hstays
    -- the name that two dots take away is one of those below the place
    have hne : inner ≠ [] := List.ne_nil_of_length_pos (of_decide_eq_true hdepth)
    rw [List.dropLast_append_of_ne_nil hne] at h
    exact ⟨inner.dropLast, (Except.ok.inj h).symm, by rwa [List.length_dropLast]⟩
  rw [if_neg hup] at hstays
  obtain rfl := reach_of_turn (not_or.1 hstay |>.imp_right fun hdot => ⟨hdot, hup⟩)
    (fun target => hfree _ target) h
  refine ⟨inner ++ [part], by rw [List.append_assoc], ?_⟩
  rw [List.length_append, List.length_singleton]
  exact hstays

/-- Parts that stay below a place lead to the same, however many links may still be taken. -/
theorem SameBelow.followLinks_eq (h : SameBelow t t' place) (hfree : t.LinkFree) {inner : Location}
    {parts : List String} (hstays : Path.staysBelow inner.length parts = true) (links links' : Nat) :
    t'.followLinks true links' (place ++ inner) parts =
      t.followLinks true links (place ++ inner) parts := by
  induction parts generalizing inner with
  | nil => rw [followLinks_nil, followLinks_nil, h.entryAt? inner]
  | cons part rest ih =>
    rw [followLinks_cons, followLinks_cons, h.turn_eq]
    cases hturn : t.turn (place ++ inner) part with
    | error fault => rfl
    | ok next =>
      obtain ⟨deeper, rfl, hdeeper⟩ := hfree.turn_below hstays hturn
      exact ih hdeeper

/-- Without links parts that stay below a place lead to a place below. -/
theorem LinkFree.followLinks_below (hfree : t.LinkFree) {links : Nat} {inner : Location}
    {parts : List String} (hstays : Path.staysBelow inner.length parts = true) {found : Location}
    {entry : Entry} (h : t.followLinks true links (place ++ inner) parts = .ok (found, entry)) :
    ∃ deeper, found = place ++ deeper := by
  induction parts generalizing inner with
  | nil =>
    obtain ⟨rfl, -⟩ := followLinks_nil_eq_ok.1 h
    exact ⟨inner, rfl⟩
  | cons part rest ih =>
    obtain ⟨next, hturn, hrest⟩ := followLinks_cons_eq_ok.1 h
    obtain ⟨deeper, rfl, hdeeper⟩ := hfree.turn_below hstays hturn
    exact ih hdeeper hrest

/-- A walk with so many levels meets the same. -/
theorem SameBelow.walk_eq (h : SameBelow t t' place) (levels : Nat) :
    t'.walk levels place = t.walk levels place := by
  induction levels generalizing place with
  | zero => rfl
  | succ levels ih =>
    have hnames := h.names []
    rw [List.append_nil] at hnames
    rw [walk, walk, hnames]
    refine congrArg (List.flatMap · _) (funext fun name => ?_)
    rw [h.entryAt? [name], ih (h.append [name])]

/-- A level more than the deepest entry has meets nothing more. -/
theorem walk_succ {levels : Nat}
    (h : ∀ inner entry, t.entryAt? (place ++ inner) = some entry → inner.length ≤ levels) :
    t.walk (levels + 1) place = t.walk levels place := by
  induction levels generalizing place with
  | zero =>
    rw [walk, walk, List.flatMap_eq_nil_iff]
    intro name _
    cases hentry : t.entryAt? (place ++ [name]) with
    | none => rfl
    | some entry => exact absurd (h [name] entry hentry) (by simp)
  | succ levels ih =>
    have hstep (name : String) :
        t.walk (levels + 1) (place ++ [name]) = t.walk levels (place ++ [name]) := by
      refine ih fun inner entry hentry => ?_
      rw [List.append_assoc] at hentry
      exact Nat.le_of_succ_le_succ (h (name :: inner) entry hentry)
    conv_lhs => rw [walk]
    conv_rhs => rw [walk]
    simp only [hstep]

/-- More levels than the tree is deep meet nothing more. -/
theorem walk_depth_add (place : Location) (more : Nat) :
    t.walk (t.depth + more) place = t.leavesBelow place := by
  induction more with
  | zero => rfl
  | succ more ih =>
    rw [← ih, ← Nat.add_assoc]
    refine walk_succ fun inner entry hentry => ?_
    have hdepth := length_le_depth hentry
    rw [List.length_append] at hdepth
    omega

/-- The regular files below the place are the same, in the same order. -/
theorem SameBelow.filesBelow_eq (h : SameBelow t t' place) :
    t'.filesBelow place = t.filesBelow place := by
  have hleaves : t'.leavesBelow place = t.leavesBelow place := by
    rw [← walk_depth_add place t.depth, ← walk_depth_add place t'.depth, h.walk_eq, Nat.add_comm]
  rw [filesBelow, hleaves, filesBelow]

/-! ## Trees that are the same in a directory -/

variable (t) in
/-- Where what is joined to a path is followed from. -/
def anchor (p : Path) : Except Fault Found := t.followLinks true linkLimit (t.start p) p.stem

variable (t t') in
/-- A path leads to the same directory in two trees, and they hold the same below it. -/
structure SameIn (p : Path) : Prop where
  /-- The directory is the same, or refused alike. -/
  anchor_eq : t'.anchor p = t.anchor p
  /-- What is below the directory is the same. -/
  below : ∀ place entry, t.anchor p = .ok (place, entry) → SameBelow t t' place

/-- A joined path is followed on from the directory. -/
theorem goesOn_anchor {rel : String} (hrel : Path.Relative rel) (h : IsPlainText (p / rel).text) :
    t.GoesOn (Path.mk rel).pieces (t.anchor p) (t.resolve (p / rel) true) := by
  have hstart : t.start (p / rel) = t.start p := by
    rw [start, start, Path.isAbsolute_div p hrel]
  rw [resolve_of_text h, Path.pieces_div p hrel, hstart]
  exact goesOn linkLimit (t.start p) p.stem (Path.mk rel).pieces

/-- A path that stays in the directory leads to the same in both trees. -/
theorem SameIn.resolve_eq (h : SameIn t t' p) (hfree : t.LinkFree) {rel : String}
    (hstays : Path.Stays rel) : t'.resolve (p / rel) true = t.resolve (p / rel) true := by
  rcases refused_or_text (p / rel) with ⟨fault, -, hrefused⟩ | hplain
  · rw [hrefused, hrefused]
  · have hlong := goesOn_anchor (t := t) hstays.1 hplain
    have hlong' := goesOn_anchor (t := t') hstays.1 hplain
    rw [h.anchor_eq] at hlong'
    cases hshort : t.anchor p with
    | error fault =>
      rw [hshort] at hlong hlong'
      rw [hlong.error, hlong'.error]
    | ok found =>
      obtain ⟨place, entry⟩ := found
      rw [hshort] at hlong hlong'
      obtain ⟨-, links, hlong⟩ := hlong.ok
      obtain ⟨-, links', hlong'⟩ := hlong'.ok
      have hbelow : Path.staysBelow ([] : Location).length (Path.mk rel).pieces = true := hstays.2
      have hsame := (h.below place entry hshort).followLinks_eq hfree hbelow links links'
      rw [List.append_nil] at hsame
      rw [hlong, hlong', hsame]

/-- What is below a path that stays in the directory is the same. -/
theorem SameIn.sameBelow (h : SameIn t t' p) (hfree : t.LinkFree) {rel : String}
    (hstays : Path.Stays rel) {found : Location} {entry : Entry}
    (hfound : t.resolve (p / rel) true = .ok (found, entry)) : SameBelow t t' found := by
  rcases refused_or_text (p / rel) with ⟨fault, -, hrefused⟩ | hplain
  · cases (hrefused t).symm.trans hfound
  · rcases goesOn_anchor (t := t) hstays.1 hplain with ⟨fault, -, hlong⟩ |
      ⟨place, other, links, hshort, -, hlong⟩
    · cases hlong.symm.trans hfound
    · have hbelow : Path.staysBelow ([] : Location).length (Path.mk rel).pieces = true := hstays.2
      obtain ⟨deeper, rfl⟩ := hfree.followLinks_below hbelow
        (by rw [List.append_nil, ← hlong, hfound])
      exact (h.below place other hshort).append deeper

/-! ## Another file -/

variable (t) in
/-- The tree with other contents in the file at a place. -/
def rewrite (place : Location) (contents : ByteArray) : FileTree where
  entries := t.entries.map fun e => (e.1, if e.1 = place then .file contents else e.2)
  workingDirectory := t.workingDirectory
  named := by
    intro e he
    obtain ⟨old, hold, rfl⟩ := List.mem_map.1 he
    exact t.named old hold

variable {contents old : ByteArray}

theorem names_rewrite (here : Location) : (t.rewrite place contents).names here = t.names here := by
  rw [names, names, rewrite, List.filterMap_map]
  rfl

theorem lookup_map {α β γ : Type} [BEq α] [LawfulBEq α] (f : α → β → γ) (key : α)
    (entries : List (α × β)) :
    (entries.map fun e => (e.1, f e.1 e.2)).lookup key = (entries.lookup key).map (f key) := by
  induction entries with
  | nil => rfl
  | cons e rest ih =>
    obtain ⟨other, value⟩ := e
    rw [List.map_cons, List.lookup_cons, List.lookup_cons, ih]
    cases hkey : key == other with
    | true => rw [eq_of_beq hkey]; rfl
    | false => rfl

/-- Only the entry of the file is another. -/
theorem entryAt?_rewrite (hfile : t.entryAt? place = some (.file old)) (here : Location) :
    (t.rewrite place contents).entryAt? here =
      if here = place then some (.file contents) else t.entryAt? here := by
  have hne : place ≠ [] := by
    rintro rfl
    cases hfile
  by_cases hnil : here = []
  · rw [hnil, if_neg hne.symm]
    rfl
  · have hlookup := lookup_map
      (fun key entry => if key = place then Entry.file contents else entry) here t.entries
    rw [entryAt?_of_ne_nil hnil, rewrite, hlookup, ← entryAt?_of_ne_nil hnil]
    split
    next hhere =>
      rw [hhere, hfile]
      rfl
    next => exact Option.map_id'

/-- A tree without links has none when a file is another. -/
theorem LinkFree.rewrite (h : t.LinkFree) (hfile : t.entryAt? place = some (.file old)) :
    (t.rewrite place contents).LinkFree := by
  intro here target
  rw [entryAt?_rewrite hfile]
  split
  next => simp
  next => exact h here target

/-- What is found in the tree with another file, by what was found before. -/
def swap (place : Location) (contents : ByteArray) (found : Found) : Found :=
  if found.1 = place then (place, .file contents) else found

theorem turn_rewrite (hfile : t.entryAt? place = some (.file old)) (here : Location)
    (part : String) : (t.rewrite place contents).turn here part = t.turn here part := by
  rw [turn, turn, entryAt?_rewrite hfile, entryAt?_rewrite hfile]
  by_cases hhere : here = place
  · rw [if_pos hhere, hhere, hfile]
  · rw [if_neg hhere]
    by_cases hnext : here ++ [part] = place
    · rw [if_pos hnext, hnext, hfile]
    · rw [if_neg hnext]

/-- A path leads to the same place, and finds the other contents when that is the place of the
file. -/
theorem followLinks_rewrite (hfile : t.entryAt? place = some (.file old)) (links : Nat)
    (here : Location) (parts : List String) :
    (t.rewrite place contents).followLinks true links here parts =
      (t.followLinks true links here parts).map (swap place contents) := by
  have hnil (links : Nat) (here : Location) :
      (t.rewrite place contents).followLinks true links here [] =
        (t.followLinks true links here []).map (swap place contents) := by
    rw [followLinks_nil, followLinks_nil, entryAt?_rewrite hfile]
    by_cases hhere : here = place
    · rw [if_pos hhere, hhere, hfile]
      simp [Except.map, swap]
    · rw [if_neg hhere]
      cases t.entryAt? here with
      | none => rfl
      | some entry => simp [Except.map, swap, hhere]
  induction links generalizing here parts with
  | zero =>
    induction parts generalizing here with
    | nil => exact hnil 0 here
    | cons part rest ih =>
      rw [followLinks_cons, followLinks_cons, turn_rewrite hfile]
      cases t.turn here part with
      | error fault => rfl
      | ok next =>
        cases next with
        | reach place => exact ih place
        | link start parts => rfl
  | succ links ihlinks =>
    induction parts generalizing here with
    | nil => exact hnil (links + 1) here
    | cons part rest ih =>
      rw [followLinks_cons, followLinks_cons, turn_rewrite hfile]
      cases t.turn here part with
      | error fault => rfl
      | ok next =>
        cases next with
        | reach place => exact ih place
        | link start parts => exact ihlinks start (parts ++ rest)

theorem resolve_rewrite (hfile : t.entryAt? place = some (.file old)) (p : Path) :
    (t.rewrite place contents).resolve p true =
      (t.resolve p true).map (swap place contents) := by
  rcases refused_or_text p with ⟨fault, -, hrefused⟩ | hplain
  · rw [hrefused, hrefused]
    rfl
  · rw [resolve_of_text hplain, resolve_of_text hplain, followLinks_rewrite hfile]
    rfl

/-- The file has the other contents. -/
theorem readText_rewrite (hfound : t.resolve p true = .ok (place, .file old)) :
    (t.rewrite place contents).readText p = decodeText contents := by
  have hresolve : (t.rewrite place contents).resolve p true = .ok (place, .file contents) := by
    rw [resolve_rewrite (entryAt?_of_resolve hfound), hfound]
    simp [Except.map, swap]
  rw [readText, readFile, entry, hresolve]
  rfl

/-- A path that leads elsewhere leads to the same. -/
theorem resolve_rewrite_of_ne (hfile : t.entryAt? place = some (.file old)) {found : Location}
    {entry : Entry} (hfound : t.resolve p true = .ok (found, entry)) (hne : found ≠ place) :
    (t.rewrite place contents).resolve p true = t.resolve p true := by
  rw [resolve_rewrite hfile, hfound]
  simp [Except.map, swap, hne]

variable (t) in
/-- A place is not in a directory. -/
def Outside (p : Path) (place : Location) : Prop :=
  ∀ dir entry, t.anchor p = .ok (dir, entry) → ¬ dir <+: place

/-- A tree with another file outside a directory is the same in it. -/
theorem Outside.sameIn_rewrite (h : t.Outside p place)
    (hfile : t.entryAt? place = some (.file old)) :
    SameIn t (t.rewrite place contents) p where
  anchor_eq := by
    have hanchor : (t.rewrite place contents).anchor p =
        (t.anchor p).map (swap place contents) :=
      followLinks_rewrite hfile linkLimit (t.start p) p.stem
    rw [hanchor]
    cases hdir : t.anchor p with
    | error fault => rfl
    | ok found =>
      obtain ⟨dir, entry⟩ := found
      have hne : dir ≠ place := fun heq => h dir entry hdir (heq ▸ List.prefix_refl dir)
      simp [Except.map, swap, hne]
  below dir entry hdir := by
    refine ⟨fun inner => ?_, fun inner => names_rewrite (dir ++ inner)⟩
    rw [entryAt?_rewrite hfile, if_neg]
    exact fun heq => h dir entry hdir (heq ▸ List.prefix_append dir inner)

end FileTree

end WorktreeTracker
