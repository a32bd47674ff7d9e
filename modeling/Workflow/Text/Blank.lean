/-!
# White space

Blank text decides whether a name counts as given, so the class of blank characters is fixed here
once: it is Unicode's `White_Space` property.  Zero-width characters are not in it, and neither are
the information separators U+001C to U+001F.
-/
namespace Workflow.Text

/-- The characters of Unicode's `White_Space` property. -/
def isBlankChar (c : Char) : Bool :=
  let n := c.toNat
  (9 ≤ n && n ≤ 13) || n == 0x20 || n == 0x85 || n == 0xA0 || n == 0x1680 ||
    (0x2000 ≤ n && n ≤ 0x200A) || n == 0x2028 || n == 0x2029 || n == 0x202F ||
    n == 0x205F || n == 0x3000

def trimLeft (cs : List Char) : List Char :=
  cs.dropWhile isBlankChar

def trimRight (cs : List Char) : List Char :=
  (cs.reverse.dropWhile isBlankChar).reverse

def trim (cs : List Char) : List Char :=
  trimRight (trimLeft cs)

/-- A text is blank when nothing of it is left after trimming. -/
def isBlank (s : String) : Bool :=
  s.toList.all isBlankChar

theorem trimLeft_append_of_blank {ws cs : List Char} (h : ∀ c ∈ ws, isBlankChar c = true) :
    trimLeft (ws ++ cs) = trimLeft cs := by
  induction ws with
  | nil => rfl
  | cons c r ih =>
      have hc : isBlankChar c = true := h c (by simp)
      have hr : ∀ x ∈ r, isBlankChar x = true := fun x hx => h x (by simp [hx])
      simpa [trimLeft, List.dropWhile_cons, hc] using ih hr

/-- The plain space and the tabulator are blank; a zero-width space is not. -/
example : isBlankChar ' ' = true ∧ isBlankChar '\t' = true ∧ isBlankChar '\u200b' = false := by
  decide

end Workflow.Text
