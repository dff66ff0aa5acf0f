/-!
# White space

The white space of a text is every character with the Unicode property of
that name; the white space that separates tokens is its part in ASCII.
-/

set_option autoImplicit false

namespace SkeletonWeave.Text

/-- Whether a character has the Unicode property `White_Space`. -/
def isBlank (c : Char) : Bool :=
  let n := c.toNat
  (9 ≤ n && n ≤ 13) || n == 0x20 || n == 0x85 || n == 0xA0 || n == 0x1680 ||
    (0x2000 ≤ n && n ≤ 0x200A) || n == 0x2028 || n == 0x2029 || n == 0x202F ||
    n == 0x205F || n == 0x3000

def trimLeft (cs : List Char) : List Char :=
  cs.dropWhile isBlank

def dropEndWhile (test : Char → Bool) (cs : List Char) : List Char :=
  (cs.reverse.dropWhile test).reverse

theorem dropEndWhile_append {test : Char → Bool} {kept dropped : List Char}
    (hDropped : ∀ c ∈ dropped, test c = true) (hKept : ∀ c ∈ kept.getLast?, test c = false) :
    dropEndWhile test (kept ++ dropped) = kept := by
  rw [dropEndWhile, List.reverse_append,
    List.dropWhile_append_of_pos fun c hc => hDropped c (List.mem_reverse.mp hc)]
  rw [← List.head?_reverse] at hKept
  match hReversed : kept.reverse with
  | [] => simpa using (List.reverse_eq_nil_iff.mp hReversed).symm
  | c :: cs =>
    rw [hReversed] at hKept
    rw [List.dropWhile_cons_of_neg (by simp [hKept c rfl]), ← hReversed, List.reverse_reverse]

def trimRight (cs : List Char) : List Char :=
  dropEndWhile isBlank cs

def trim (cs : List Char) : List Char :=
  trimRight (trimLeft cs)

def words (cs : List Char) : List (List Char) :=
  (cs.splitBy fun a b => isBlank a == isBlank b).filter fun part => !part.any isBlank

end SkeletonWeave.Text
