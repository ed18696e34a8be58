import WorktreeTracker.ObjectId
import WorktreeTracker.Proofs.Text

/-!
# Texts that are object ids

A text is an id when it has forty or sixty-four hexadecimal digits of either case. The id is the
text in lower case, and two ids are equal when their texts are.
-/

namespace WorktreeTracker

namespace Oid

/-! ## Digits of an id -/

/-- Only hexadecimal digits are in an object id. -/
theorem not_mem_of_not_isHexDigit (oid : Oid) {c : Char} (h : isHexDigit c = false) :
    c ∉ oid.text.toList := by
  intro hc
  have hdigit := List.all_eq_true.1 oid.valid.2 c hc
  rw [h] at hdigit
  cases hdigit

theorem text_inj {a b : Oid} (h : a.text = b.text) : a = b := by
  cases a
  cases b
  simpa using h

theorem text_ne_empty (oid : Oid) : oid.text ≠ "" := by
  intro h
  have hlength := oid.valid.1
  rw [h] at hlength
  exact absurd hlength (by decide)

/-! ## Reading an id -/

/-- A text is written like an id: it has forty or sixty-four hexadecimal digits of either case. -/
def IsWritten (text : String) : Prop :=
  (text.toList.length = 40 ∨ text.toList.length = 64) ∧ ∀ c ∈ text.toList, isHexDigit c = true

theorem isHexDigit_of_le {c : Char} (h : 0x80 ≤ c.toNat) : isHexDigit c = false := by
  have hnot {d : Char} (hd : d.toNat < 0x80) : decide (c ≤ d) = false := Text.decide_le_of_le h hd
  rw [isHexDigit, Text.hexValue?, hnot (by decide : '9'.toNat < 0x80),
    hnot (by decide : 'f'.toNat < 0x80), hnot (by decide : 'F'.toNat < 0x80)]
  simp

/-- A digit in lower case is a digit that stays itself, and no other character becomes one. -/
theorem isHexDigit_lowerAscii (c : Char) :
    (isHexDigit (Text.lowerAscii c) && Text.lowerAscii (Text.lowerAscii c) = Text.lowerAscii c) =
      isHexDigit c := by
  refine Text.forall_char (p := fun c => (isHexDigit (Text.lowerAscii c) &&
    Text.lowerAscii (Text.lowerAscii c) = Text.lowerAscii c) = isHexDigit c) (by decide) ?_ c
  intro c hc
  rw [Text.lowerAscii_of_le hc, isHexDigit_of_le hc, Bool.false_and]

/-- A text is put in lower case for the check of its digits. -/
theorem isWritten_iff {text : String} :
    IsWritten text ↔
      ((Text.lower text).toList.length = 40 ∨ (Text.lower text).toList.length = 64) ∧
        (Text.lower text).toList.all (fun c => isHexDigit c && Text.lowerAscii c = c) = true := by
  have hall : (Text.lower text).toList.all (fun c => isHexDigit c && Text.lowerAscii c = c) =
      text.toList.all isHexDigit := by
    rw [Text.lower, String.toList_ofList, List.all_map]
    exact congrArg (List.all _) (funext isHexDigit_lowerAscii)
  rw [IsWritten, hall, List.all_eq_true, Text.lower, String.toList_ofList, List.length_map]

/-- The digits of an id are ASCII characters, so their number is their size. -/
theorem utf8ByteSize_lower {text : String} (h : IsWritten text) :
    (Text.lower text).utf8ByteSize = text.toList.length := by
  rw [Text.utf8ByteSize_of_ascii, Text.lower, String.toList_ofList, List.length_map]
  intro c hc
  by_contra hbeyond
  have hdigit := List.all_eq_true.1 (isWritten_iff.1 h).2 c hc
  rw [isHexDigit_of_le (Nat.le_of_not_lt hbeyond), Bool.false_and] at hdigit
  cases hdigit

/-- A text that is written like an id is that id in lower case, and no other text is an id. -/
theorem create_cases (text : String) :
    (IsWritten text ∧ ∃ oid, create text = .ok oid ∧ oid.text = Text.lower text) ∨
      ¬ IsWritten text ∧ ∃ problem, create text = .error problem := by
  unfold create
  dsimp only
  split
  next hsize =>
    refine .inr ⟨fun h => ?_, _, rfl⟩
    rw [utf8ByteSize_lower h] at hsize
    exact h.1.elim hsize.1 hsize.2
  next =>
    split
    next hdigits => exact .inl ⟨isWritten_iff.2 hdigits, _, rfl, rfl⟩
    next hdigits => exact .inr ⟨fun h => hdigits (isWritten_iff.1 h), _, rfl⟩

/-- The text of an id is written like one. -/
theorem isWritten_text (oid : Oid) : IsWritten oid.text :=
  ⟨oid.valid.1, fun c hc => (Bool.and_eq_true_iff.1 (List.all_eq_true.1 oid.valid.2 c hc)).1⟩

/-- The text of an id is in lower case. -/
theorem lower_text (oid : Oid) : Text.lower oid.text = oid.text := by
  rw [Text.lower, ← String.toList_inj, String.toList_ofList]
  refine (List.map_congr_left fun c hc => ?_).trans (List.map_id _)
  simpa using (Bool.and_eq_true_iff.1 (List.all_eq_true.1 oid.valid.2 c hc)).2

/-- An id is read from its own text. -/
theorem create_text (oid : Oid) : create oid.text = .ok oid := by
  rcases create_cases oid.text with ⟨-, other, hother, htext⟩ | ⟨hnot, -⟩
  · rw [hother, text_inj (htext.trans oid.lower_text)]
  · exact absurd oid.isWritten_text hnot

end Oid

end WorktreeTracker
