/-!
Lengths of text in UTF-8 bytes and UTF-16 units, and cutting a text at a byte offset.

A cut keeps whole characters: the first part is the longest one of at most the given number of
bytes, and the two parts together are the text. Lengths are natural numbers; a length in UTF-16
agrees with a 32-bit one below 2^32 units.
-/

namespace Inlay.Text

def utf8Len : List Char → Nat
  | [] => 0
  | c :: cs => c.utf8Size + utf8Len cs

/-- Code units of one character in UTF-16: two above the basic plane. -/
def utf16Size (c : Char) : Nat :=
  if c.toNat < 0x10000 then 1 else 2

/-- Code units of the text in UTF-16, the unit of editor columns. -/
def utf16Len : List Char → Nat
  | [] => 0
  | c :: cs => utf16Size c + utf16Len cs

def takeBytes : Nat → List Char → List Char
  | _, [] => []
  | n, c :: cs => if c.utf8Size ≤ n then c :: takeBytes (n - c.utf8Size) cs else []

def dropBytes : Nat → List Char → List Char
  | _, [] => []
  | n, c :: cs => if c.utf8Size ≤ n then dropBytes (n - c.utf8Size) cs else c :: cs

@[simp] theorem utf8Len_nil : utf8Len [] = 0 := rfl
@[simp] theorem utf8Len_cons (c : Char) (cs : List Char) :
    utf8Len (c :: cs) = c.utf8Size + utf8Len cs := rfl

@[simp] theorem utf8Len_append (a b : List Char) : utf8Len (a ++ b) = utf8Len a + utf8Len b := by
  induction a with
  | nil => simp
  | cons c cs ih => simp [ih, Nat.add_assoc]

@[simp] theorem utf16Len_nil : utf16Len [] = 0 := rfl
@[simp] theorem utf16Len_cons (c : Char) (cs : List Char) :
    utf16Len (c :: cs) = utf16Size c + utf16Len cs := rfl

@[simp] theorem utf16Len_append (a b : List Char) :
    utf16Len (a ++ b) = utf16Len a + utf16Len b := by
  induction a with
  | nil => simp
  | cons c cs ih => simp [ih, Nat.add_assoc]

theorem utf16Size_pos (c : Char) : 0 < utf16Size c := by
  unfold utf16Size
  split <;> decide

@[simp] theorem takeBytes_zero (cs : List Char) : takeBytes 0 cs = [] := by
  cases cs with
  | nil => rfl
  | cons c cs => simp [takeBytes, Nat.ne_of_gt c.utf8Size_pos]

@[simp] theorem dropBytes_zero (cs : List Char) : dropBytes 0 cs = cs := by
  cases cs with
  | nil => rfl
  | cons c cs => simp [dropBytes, Nat.ne_of_gt c.utf8Size_pos]

@[simp] theorem takeBytes_append_dropBytes (n : Nat) (cs : List Char) :
    takeBytes n cs ++ dropBytes n cs = cs := by
  induction cs generalizing n with
  | nil => rfl
  | cons c cs ih =>
    by_cases h : c.utf8Size ≤ n <;> simp [takeBytes, dropBytes, h, ih]

theorem takeBytes_utf8Len_append (a b : List Char) : takeBytes (utf8Len a) (a ++ b) = a := by
  induction a with
  | nil => simp
  | cons c cs ih => simp [takeBytes, ih]

theorem dropBytes_utf8Len_append (a b : List Char) : dropBytes (utf8Len a) (a ++ b) = b := by
  induction a with
  | nil => simp
  | cons c cs ih => simp [dropBytes, ih]

theorem takeBytes_add_append (a : List Char) (n : Nat) (b : List Char) :
    takeBytes (utf8Len a + n) (a ++ b) = a ++ takeBytes n b := by
  induction a with
  | nil => simp
  | cons c cs ih =>
    have hc : c.utf8Size ≤ c.utf8Size + utf8Len cs + n := by omega
    have hn : c.utf8Size + utf8Len cs + n - c.utf8Size = utf8Len cs + n := by omega
    rw [List.cons_append, utf8Len_cons, takeBytes, if_pos hc, hn, ih, List.cons_append]

end Inlay.Text
