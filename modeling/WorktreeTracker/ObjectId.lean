import WorktreeTracker.Identifier
import WorktreeTracker.Text

/-!
# Object ids

Lower-case hexadecimal ids of forty or sixty-four digits. Ids are put in lower case when they are
read, so ids read by different stores compare equal.
-/

namespace WorktreeTracker

/-- Whether `c` is a hexadecimal digit of either case. -/
def isHexDigit (c : Char) : Bool :=
  (Text.hexValue? c).isSome

/-- The id of an object: forty or sixty-four hexadecimal digits in lower case. -/
structure Oid where
  /-- The digits. -/
  text : String
  /-- The id has the length of a digest and only lower-case digits. -/
  valid : (text.toList.length = 40 ∨ text.toList.length = 64) ∧
    text.toList.all (fun c => isHexDigit c && Text.lowerAscii c = c) = true
deriving DecidableEq

namespace Oid

/-- The last `count` hexadecimal digits of `n`. -/
def digitsOf : (count n : Nat) → List Char
  | 0, _ => []
  | count + 1, n => Text.hexDigit (n / Nat.pow 16 count % 16) :: digitsOf count n

theorem digitsOf_length (count n : Nat) : (digitsOf count n).length = count := by
  induction count with
  | zero => rfl
  | succ count ih => simp [digitsOf, ih]

theorem hexDigit_valid : ∀ d < 16,
    (isHexDigit (Text.hexDigit d) && Text.lowerAscii (Text.hexDigit d) = Text.hexDigit d) = true := by
  decide

theorem digitsOf_valid (count n : Nat) :
    (digitsOf count n).all (fun c => isHexDigit c && Text.lowerAscii c = c) = true := by
  induction count with
  | zero => rfl
  | succ count ih =>
    simp only [digitsOf, List.all_cons, ih, Bool.and_true]
    exact hexDigit_valid _ (Nat.mod_lt _ (by decide))

/-- The id whose forty digits write the number `n`. -/
def ofNumber (n : Nat) : Oid where
  text := String.ofList (digitsOf 40 n)
  valid := by simp [digitsOf_length, digitsOf_valid, -List.all_eq_true]

instance : ToString Oid := ⟨Oid.text⟩

/-- The refusal of an object id for the given reason. -/
def invalid (reason : String) : InvalidIdentifier :=
  ⟨.objectId, reason⟩

/-- The id written as `text` in either case. Its length is counted in bytes. -/
def create (text : String) : Except InvalidIdentifier Oid :=
  let digits := Text.lower text
  if digits.utf8ByteSize ≠ 40 ∧ digits.utf8ByteSize ≠ 64 then
    .error (invalid s!"expected 40 or 64 hex characters, got {digits.utf8ByteSize}")
  else if h : (digits.toList.length = 40 ∨ digits.toList.length = 64) ∧
      digits.toList.all (fun c => isHexDigit c && Text.lowerAscii c = c) = true then
    .ok ⟨digits, h⟩
  else .error (invalid "object id must be hexadecimal")

/-- Whether every digit of the id is zero. -/
def isZero (oid : Oid) : Bool :=
  oid.text.toList.all (· == '0')

/-- The first `length` digits of the id, all of them when it has no more. -/
def short (oid : Oid) (length : Nat) : String :=
  String.ofList (oid.text.toList.take length)

/-- The number of digits shown for an abbreviated id. -/
def shortLength : Nat := 7

/-- The abbreviated id of a commit, or a placeholder for a branch without commits. -/
def formatRevision : Option Oid → String
  | some oid => oid.short shortLength
  | none => "(unborn)"

end Oid

end WorktreeTracker
