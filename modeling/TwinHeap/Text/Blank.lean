/-!
Blank characters and trimming, on lists of characters.

`isBlank` is the Unicode property White_Space, which is larger than the ASCII blanks: it has the
no-break space, the line and paragraph separators and the ideographic space. `trim` drops blanks
from both ends; what it leaves neither starts nor ends with one.
-/

namespace TwinHeap.Text

/-- The Unicode property White_Space. -/
def isBlank (c : Char) : Bool :=
  let n := c.toNat
  (9 ≤ n && n ≤ 13) || n == 0x20 || n == 0x85 || n == 0xA0 || n == 0x1680 ||
    (0x2000 ≤ n && n ≤ 0x200A) || n == 0x2028 || n == 0x2029 || n == 0x202F ||
    n == 0x205F || n == 0x3000

/-- The text without its leading blanks. -/
def trimStart (s : List Char) : List Char :=
  s.dropWhile isBlank

/-- The text without its trailing blanks. -/
def trimEnd (s : List Char) : List Char :=
  (s.reverse.dropWhile isBlank).reverse

/-- The text without the blanks at either end. -/
def trim (s : List Char) : List Char :=
  trimEnd (trimStart s)

/-- The text without any of its blanks. -/
def squeeze (s : List Char) : List Char :=
  s.filter fun c => !isBlank c

/-- Every blank of core's class is blank here. -/
theorem isBlank_of_isWhitespace {c : Char} (h : c.isWhitespace = true) : isBlank c = true := by
  simp only [Char.isWhitespace, Bool.or_eq_true, decide_eq_true_eq] at h
  rcases h with ((h | h) | h) | h <;> subst h <;> decide

@[simp] theorem squeeze_nil : squeeze [] = [] := rfl

theorem isBlank_eq_false_of_mem_squeeze {c : Char} {s : List Char} (h : c ∈ squeeze s) :
    isBlank c = false := by
  simpa [squeeze] using (List.mem_filter.1 h).2

end TwinHeap.Text
