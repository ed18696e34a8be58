import WorktreeTracker.Proofs.PlainReader.HeadFailure

/-!
# Chains of symbolic references

A symbolic loose reference names the next one, and the last of a chain has an id or no loose file.
Every reference of a chain costs one of the files that are read at most, the last one too. So a
chain is followed to its end while it has fewer hops than the limit, and a longer one is refused, a
chain that leads back into itself with it.
-/

namespace WorktreeTracker.PlainReader

variable (t : FileTree) (l : Layout)

/-! ## Chains -/

/-- The loose file of a reference names another one. -/
def NamesNext (name target : String) : Prop :=
  ∃ text, t.readText (l.looseRef name) = .ok text ∧ RefFile.SaysRef text target

/-- So many hops lead from a reference to another one, each from a symbolic loose file to the
reference that it names. -/
inductive Chain : Nat → String → String → Prop
  | nil {name : String} : Chain 0 name name
  | cons {hops : Nat} {name target last : String} (hname : NamesNext t l name target)
      (hrest : Chain hops target last) : Chain (hops + 1) name last

/-- The value of a reference that ends a chain: the id in its loose file, and without such a file
that of its first packed line, if any. -/
inductive Holds (name : String) : Option Oid → Prop
  | loose {text : String} {oid : Oid} (h : t.readText (l.looseRef name) = .ok text)
      (hvalue : RefFile.SaysId text oid) : Holds name (some oid)
  | packed {packed : List (String × Oid)} (h : t.readText (l.looseRef name) = .error .notFound)
      (hpacked : packedRefs t l = .ok packed) : Holds name (packed.lookup name)

variable {t l} {start name last : String} {hops n : Nat}

theorem Chain.append {m : Nat} (h : Chain t l m start name) (hrest : Chain t l n name last) :
    Chain t l (n + m) start last := by
  induction h with
  | nil => exact hrest
  | cons hname _ ih => exact .cons hname (ih hrest)

/-- A chain has a beginning of every length that it reaches. -/
theorem Chain.exists_of_le {m : Nat} (h : Chain t l n start last) (hle : m ≤ n) :
    ∃ name, Chain t l m start name := by
  induction h generalizing m with
  | nil =>
    obtain rfl := Nat.le_zero.1 hle
    exact ⟨_, .nil⟩
  | cons hname _ ih =>
    cases m with
    | zero => exact ⟨_, .nil⟩
    | succ m =>
      obtain ⟨name, hrest⟩ := ih (Nat.le_of_succ_le_succ hle)
      exact ⟨name, .cons hname hrest⟩

/-- A chain that leads back to where it starts goes on for ever. -/
theorem Chain.exists_of_cycle (h : Chain t l (n + 1) name name) (m : Nat) :
    ∃ last, Chain t l m name last := by
  have hturns (turns : Nat) : Chain t l (turns * (n + 1)) name name := by
    induction turns with
    | zero =>
      rw [Nat.zero_mul]
      exact .nil
    | succ turns ih =>
      rw [Nat.succ_mul, Nat.add_comm]
      exact ih.append h
  exact (hturns m).exists_of_le (Nat.le_mul_of_pos_right m n.succ_pos)

/-! ## Following a chain -/

/-- One hop costs one of the files that are read at most. -/
theorem resolveFrom_of_namesNext (h : NamesNext t l name last) (start : String) (hops : Nat) :
    resolveFrom t l start (hops + 1) name = resolveFrom t l start hops last := by
  obtain ⟨text, htext, hvalue⟩ := h
  simp only [resolveFrom, readOptional_of_text htext, RefFile.parse_of_saysRef hvalue, bind,
    Except.bind]

/-- A chain costs as many files as it has hops. -/
theorem Chain.resolveFrom_add (h : Chain t l n name last) (start : String) (hops : Nat) :
    resolveFrom t l start (hops + n) name = resolveFrom t l start hops last := by
  induction h with
  | nil => rfl
  | cons hname _ ih =>
    rw [← Nat.add_assoc, resolveFrom_of_namesNext hname, ih]

/-- The end of a chain costs one file. -/
theorem Holds.resolveFrom_succ {value : Option Oid} (h : Holds t l name value) (start : String)
    (hops : Nat) : resolveFrom t l start (hops + 1) name = .ok value := by
  cases h with
  | loose htext hvalue =>
    simp only [resolveFrom, readOptional_of_text htext, RefFile.parse_of_saysId hvalue, bind,
      Except.bind]
    rfl
  | packed hmissing hpacked =>
    simp only [resolveFrom, readOptional_of_missing hmissing, packedLookup, hpacked, bind,
      Except.bind]
    rfl

/-- A chain with fewer hops than the limit is followed to its end. -/
theorem Chain.resolveRef_eq_ok {value : Option Oid} (h : Chain t l n start last)
    (hlast : Holds t l last value) (hn : n < symbolicLimit) :
    resolveRef t l start = .ok value := by
  obtain ⟨hops, hhops⟩ := Nat.exists_eq_add_of_lt hn
  have hlimit : symbolicLimit = hops + 1 + n := by omega
  rw [resolveRef, hlimit, h.resolveFrom_add, hlast.resolveFrom_succ]

/-- A reference that names no other one has its own value. -/
theorem Holds.resolveRef_eq_ok {value : Option Oid} (h : Holds t l name value) :
    resolveRef t l name = .ok value :=
  Chain.nil.resolveRef_eq_ok h (by decide)

/-- A chain with as many hops as the limit or more is refused. -/
theorem Chain.resolveRef_eq_error (h : Chain t l n start last) (hn : symbolicLimit ≤ n) :
    resolveRef t l start = .error (.corrupt (l.looseRef start) "symbolic ref chain too deep") := by
  obtain ⟨name, hbegin⟩ := h.exists_of_le hn
  rw [resolveRef, ← Nat.zero_add symbolicLimit, hbegin.resolveFrom_add, resolveFrom]

/-! ## What is refused -/

/-- A file that may be missing is refused as one that cannot be accessed. -/
theorem readOptional_eq_error {path : Path} {err : ReadError}
    (h : readOptional t path = .error err) : ∃ fault, err = .ofFault path fault := by
  rcases readText_cases t path with hmissing | ⟨fault, hfault, hne⟩ | ⟨text, htext⟩
  · cases h.symm.trans (readOptional_of_missing hmissing)
  · exact ⟨fault, Except.error.inj (h.symm.trans (readOptional_of_fault hfault hne))⟩
  · cases h.symm.trans (readOptional_of_text htext)

/-- No malformed reference file is reported as a chain that is too long. -/
theorem parse_ne_tooDeep {path other : Path} {text : String} :
    RefFile.parse path text ≠ .error (.corrupt other "symbolic ref chain too deep") := by
  intro h
  obtain ⟨e, he⟩ := RefFile.parse_eq_error h
  have hfirst : e.message.toList.head? = some 'i' := by
    rw [InvalidIdentifier.message]
    simp
    exact .inl rfl
  rw [← (ReadError.corrupt.inj he).2] at hfirst
  exact absurd hfirst (by decide)

/-- No malformed packed file is reported as a chain that is too long. -/
theorem packedLookup_ne_tooDeep {path : Path} :
    packedLookup t l name ≠ .error (.corrupt path "symbolic ref chain too deep") := by
  intro h
  rw [packedLookup, map_eq_error, packedRefs, bind_eq_error] at h
  rcases h with h | ⟨text?, -, h⟩
  · obtain ⟨fault, hfault⟩ := readOptional_eq_error h
    cases hfault
  cases text? with
  | none => cases h
  | some text =>
    obtain ⟨number, problem, hproblem⟩ := PackedRefs.parse_eq_error h
    have hfirst : (s!"line {number}: {problem}").toList.head? = some 'l' := by
      simp
      exact .inl rfl
    rw [← (ReadError.corrupt.inj hproblem).2] at hfirst
    exact absurd hfirst (by decide)

/-- Only a chain with as many hops as files are read at most is reported as too long. -/
theorem exists_chain_of_tooDeep {path : Path}
    (h : resolveFrom t l start hops name = .error (.corrupt path "symbolic ref chain too deep")) :
    ∃ last, Chain t l hops name last := by
  induction hops generalizing name with
  | zero => exact ⟨name, .nil⟩
  | succ hops ih =>
    rw [resolveFrom, bind_eq_error] at h
    rcases h with h | ⟨text?, hread, h⟩
    · obtain ⟨fault, hfault⟩ := readOptional_eq_error h
      cases hfault
    rcases readOptional_eq_ok hread with ⟨text, htext, rfl⟩ | ⟨-, rfl⟩
    · dsimp only at h
      rw [bind_eq_error] at h
      rcases h with h | ⟨value, hvalue, h⟩
      · exact absurd h parse_ne_tooDeep
      · cases value with
        | direct oid => cases h
        | symbolic target =>
          obtain ⟨last, hrest⟩ := ih h
          exact ⟨last, .cons ⟨text, htext, RefFile.saysRef_of_parse hvalue⟩ hrest⟩
    · exact absurd h packedLookup_ne_tooDeep

/-- A chain with fewer hops than the limit has the value of its last reference: the id in its loose
file, and without one what is packed. Every longer chain is reported as too deep at the file of its
first reference, also one that leads into a cycle, and nothing else is reported so. A chain with as
many hops as the limit is too long already, although its last reference has a value. -/
theorem resolveRef_chain (t : FileTree) (l : Layout) (start : String) :
    (∀ n last value, n < symbolicLimit → Chain t l n start last → Holds t l last value →
      resolveRef t l start = .ok value) ∧
    (∀ n last, symbolicLimit ≤ n → Chain t l n start last → resolveRef t l start =
      .error (.corrupt (l.looseRef start) "symbolic ref chain too deep")) ∧
    (∀ m n name, Chain t l m start name → Chain t l (n + 1) name name → resolveRef t l start =
      .error (.corrupt (l.looseRef start) "symbolic ref chain too deep")) ∧
    (resolveRef t l start = .error (.corrupt (l.looseRef start) "symbolic ref chain too deep") ↔
      ∃ last, Chain t l symbolicLimit start last) := by
  refine ⟨fun n last value hn h hlast => h.resolveRef_eq_ok hlast hn,
    fun n last hn h => h.resolveRef_eq_error hn, fun m n name hlead hcycle => ?_,
    exists_chain_of_tooDeep, fun ⟨last, h⟩ => h.resolveRef_eq_error (Nat.le_refl _)⟩
  obtain ⟨last, hturns⟩ := hcycle.exists_of_cycle symbolicLimit
  exact (hlead.append hturns).resolveRef_eq_error (Nat.le_add_right _ _)

/-! ## A chain at the limit -/

/-- The tree with a symbolic loose reference to another branch. -/
def withAlias (t : FileTree) (name target : String) : FileTree :=
  t.place ["r", ".git", "refs", "heads", name]
    (.file ("ref: refs/heads/" ++ target ++ "\n").toUTF8)

/-- A clone with a chain of six branches, the last of them with a commit, and a branch that names
itself. -/
def aliasClone : FileTree :=
  withAlias (withAlias (withAlias (withAlias (withAlias (withAlias
    (withRef .empty ["refs", "heads", "f"] 1) "a" "b") "b" "c") "c" "d") "d" "e") "e" "f")
      "loop" "loop"

theorem namesNext_aliasClone {name target : String}
    (h : aliasClone.readText (sharedLayout.looseRef name) = .ok ("ref: " ++ target ++ "\n"))
    (hvalue : RefFile.parse (sharedLayout.looseRef name) ("ref: " ++ target ++ "\n") =
      .ok (.symbolic target)) : NamesNext aliasClone sharedLayout name target :=
  ⟨_, h, RefFile.saysRef_of_parse hvalue⟩

theorem chain_aliasClone : Chain aliasClone sharedLayout 4 "refs/heads/b" "refs/heads/f" := by
  have hb : NamesNext aliasClone sharedLayout "refs/heads/b" "refs/heads/c" :=
    namesNext_aliasClone (by decide +kernel) (by decide +kernel)
  have hc : NamesNext aliasClone sharedLayout "refs/heads/c" "refs/heads/d" :=
    namesNext_aliasClone (by decide +kernel) (by decide +kernel)
  have hd : NamesNext aliasClone sharedLayout "refs/heads/d" "refs/heads/e" :=
    namesNext_aliasClone (by decide +kernel) (by decide +kernel)
  have he : NamesNext aliasClone sharedLayout "refs/heads/e" "refs/heads/f" :=
    namesNext_aliasClone (by decide +kernel) (by decide +kernel)
  exact .cons hb (.cons hc (.cons hd (.cons he .nil)))

theorem holds_aliasClone :
    Holds aliasClone sharedLayout "refs/heads/f" (some (.ofNumber 1)) := by
  have htext : aliasClone.readText (sharedLayout.looseRef "refs/heads/f") =
      .ok ((Oid.ofNumber 1).text ++ "\n") := by
    decide +kernel
  have hvalue : RefFile.parse ⟨"f"⟩ ((Oid.ofNumber 1).text ++ "\n") =
      .ok (.direct (.ofNumber 1)) := by
    decide +kernel
  exact .loose htext (RefFile.parse_eq_direct_iff.1 hvalue)

/-- Four hops lead to the commit, and a branch that names itself is refused. -/
theorem resolveRef_aliasClone :
    resolveRef aliasClone sharedLayout "refs/heads/b" = .ok (some (.ofNumber 1)) ∧
      resolveRef aliasClone sharedLayout "refs/heads/loop" =
        .error (.corrupt ⟨"/r/.git/refs/heads/loop"⟩ "symbolic ref chain too deep") := by
  have hloop : Chain aliasClone sharedLayout 1 "refs/heads/loop" "refs/heads/loop" :=
    .cons (namesNext_aliasClone (by decide +kernel) (by decide +kernel)) .nil
  exact ⟨(resolveRef_chain _ _ _).1 4 _ _ (by decide) chain_aliasClone holds_aliasClone,
    (resolveRef_chain _ _ _).2.2.1 0 0 _ .nil hloop⟩

/-- Five hops, as many as the limit, lead to a reference with a commit, and the chain is refused. -/
theorem resolveRef_at_limit :
    Chain aliasClone sharedLayout symbolicLimit "refs/heads/a" "refs/heads/f" ∧
      Holds aliasClone sharedLayout "refs/heads/f" (some (.ofNumber 1)) ∧
      resolveRef aliasClone sharedLayout "refs/heads/a" =
        .error (.corrupt ⟨"/r/.git/refs/heads/a"⟩ "symbolic ref chain too deep") := by
  have hchain : Chain aliasClone sharedLayout symbolicLimit "refs/heads/a" "refs/heads/f" :=
    .cons (namesNext_aliasClone (by decide +kernel) (by decide +kernel)) chain_aliasClone
  exact ⟨hchain, holds_aliasClone, hchain.resolveRef_eq_error (Nat.le_refl _)⟩

end WorktreeTracker.PlainReader
