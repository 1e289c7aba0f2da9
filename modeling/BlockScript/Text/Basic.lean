namespace BlockScript

/-! # Texts

What the program needs of texts besides the standard library: blanks, which are the characters of
Unicode's White_Space property, lower case, joined pieces, digits of bases up to sixteen, and UTF-8.
-/

/-! ## Blanks -/

/-- Whether the character has the property White_Space. -/
def isBlank (c : Char) : Bool :=
  let n := c.toNat
  (0x09 ≤ n && n ≤ 0x0D) || n == 0x20 || n == 0x85 || n == 0xA0 || n == 0x1680 ||
    (0x2000 ≤ n && n ≤ 0x200A) || n == 0x2028 || n == 0x2029 || n == 0x202F || n == 0x205F ||
    n == 0x3000

/-- The text without the blanks that begin it. -/
def trimStart (cs : List Char) : List Char := cs.dropWhile isBlank

/-- The text without the blanks that end it. -/
def trimEnd (cs : List Char) : List Char :=
  cs.foldr (fun c rest => if rest.isEmpty && isBlank c then [] else c :: rest) []

/-- The text without the blanks at both ends. -/
def trim (cs : List Char) : List Char := trimEnd (trimStart cs)

@[simp] theorem trimEnd_nil : trimEnd [] = [] := rfl

theorem trimEnd_cons (c : Char) (cs : List Char) :
    trimEnd (c :: cs) = if (trimEnd cs).isEmpty && isBlank c then [] else c :: trimEnd cs := rfl

/-! ## Letter case and pieces -/

/-- The text with its ASCII letters in lower case; all else stays. -/
def lowerAscii (cs : List Char) : List Char := cs.map Char.toLower

/-- The pieces with the separator between each two. -/
abbrev joinWith (separator : Char) (pieces : List (List Char)) : List Char :=
  [separator].intercalate pieces

/-! ## Digits -/

/-- An upper-case hexadecimal digit. -/
def hexDigit (n : Nat) : Char :=
  if n < 10 then Char.ofNat ('0'.toNat + n) else Char.ofNat ('A'.toNat + (n - 10))

/-- The value of a hexadecimal digit of either case. -/
def hexValue? (c : Char) : Option Nat :=
  if '0' ≤ c ∧ c ≤ '9' then some (c.toNat - '0'.toNat)
  else if 'a' ≤ c ∧ c ≤ 'f' then some (c.toNat - 'a'.toNat + 10)
  else if 'A' ≤ c ∧ c ≤ 'F' then some (c.toNat - 'A'.toNat + 10)
  else none

/-- The last `width` hexadecimal digits of a number, in upper case. -/
def hexPadded : Nat → Nat → List Char
  | 0, _ => []
  | width + 1, n => hexPadded width (n / 16) ++ [hexDigit (n % 16)]

/-- Lower-case hexadecimal digits, without leading zeros. -/
def hexText (n : Nat) : List Char := Nat.toDigits 16 n

/-- The number that the text writes in a base, if it holds digits of that base and nothing else. -/
def numberIn? (base : Nat) (cs : List Char) : Option Nat :=
  if cs.isEmpty then none
  else cs.foldlM (fun n c => ((hexValue? c).filter (· < base)).map (base * n + ·)) 0

/-! ## UTF-8 -/

/-- Bytes that the text takes up. -/
def utf8Length : List Char → Nat
  | [] => 0
  | c :: cs => c.utf8Size + utf8Length cs

@[simp] theorem utf8Length_nil : utf8Length [] = 0 := rfl

@[simp] theorem utf8Length_cons (c : Char) (cs : List Char) :
    utf8Length (c :: cs) = c.utf8Size + utf8Length cs := rfl

@[simp] theorem utf8Length_append (cs ds : List Char) :
    utf8Length (cs ++ ds) = utf8Length cs + utf8Length ds := by
  induction cs with
  | nil => simp
  | cons c cs ih => simp [ih, Nat.add_assoc]

/-- The bytes of a text. -/
def utf8Bytes (text : String) : Array UInt8 := text.toUTF8.data

/-- The text that the bytes encode, if they encode one. -/
def utf8Text? (bytes : Array UInt8) : Option String := String.fromUTF8? ⟨bytes⟩

end BlockScript
