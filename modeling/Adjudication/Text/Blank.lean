/-!
White space at the ends of a text. Two classes are in use: the Unicode property, and the same class with
the four information separators added, which is what trimming a detector's words goes by. The first class is
within the second, and a text without blanks is trimmed to itself.
-/

namespace Adjudication.Text

/-- The Unicode property `White_Space`. -/
def isWhiteSpace (c : Char) : Bool :=
  let n := c.toNat
  (9 ≤ n && n ≤ 13) || n == 0x20 || n == 0x85 || n == 0xA0 || n == 0x1680 ||
    (0x2000 ≤ n && n ≤ 0x200A) || n == 0x2028 || n == 0x2029 || n == 0x202F || n == 0x205F ||
    n == 0x3000

/-- White space and the information separators U+001C to U+001F. -/
def isBlank (c : Char) : Bool :=
  isWhiteSpace c || (0x1C ≤ c.toNat && c.toNat ≤ 0x1F)

/-- Drops the elements of a class at both ends. -/
def trimList {α : Type} (p : α → Bool) (s : List α) : List α :=
  ((s.dropWhile p).reverse.dropWhile p).reverse

variable {α : Type}

theorem dropWhile_eq_self {p : α → Bool} {s : List α} (h : ∀ c ∈ s, p c = false) : s.dropWhile p = s := by
  cases s with
  | nil => rfl
  | cons c rest => simp [List.dropWhile, h c]

theorem mem_dropWhile {p : α → Bool} {s : List α} {c : α} (hc : c ∈ s) (h : p c = false) : c ∈ s.dropWhile p := by
  induction s with
  | nil => exact hc
  | cons d s ih =>
    rw [List.dropWhile_cons]
    split
    next hd => exact ih ((List.mem_cons.1 hc).resolve_left fun he => by simp [he, hd] at h)
    next => exact hc

/-- What is not of the class stays. -/
theorem mem_trimList {p : α → Bool} {s : List α} {c : α} (hc : c ∈ s) (h : p c = false) : c ∈ trimList p s :=
  List.mem_reverse.2 (mem_dropWhile (List.mem_reverse.2 (mem_dropWhile hc h)) h)

/-- Where there is nothing to drop, a text is as it stands. -/
theorem trimList_eq_self {p : α → Bool} {s : List α} (h : ∀ c ∈ s, p c = false) : trimList p s = s := by
  rw [trimList, dropWhile_eq_self h, dropWhile_eq_self (fun c hc => h c (List.mem_reverse.1 hc)),
    List.reverse_reverse]

def trimWith (p : Char → Bool) (s : String) : String :=
  String.ofList (trimList p s.toList)

/-- The text without the blanks at its ends. -/
def trim (s : String) : String := trimWith isBlank s

/-- ASCII letters in lower case. No letter outside ASCII has a lower case among the words that the
    program compares with, so this is enough to compare without regard to case. -/
def lower (s : String) : String := s.map Char.toLower

theorem isBlank_of_isWhiteSpace {c : Char} (h : isWhiteSpace c = true) : isBlank c = true := by
  simp [isBlank, h]

theorem isBlank_of_isWhitespace {c : Char} (h : c.isWhitespace = true) : isBlank c = true := by
  simp only [Char.isWhitespace, Bool.or_eq_true, decide_eq_true_eq] at h
  rcases h with ((h | h) | h) | h <;> subst h <;> decide

end Adjudication.Text
