import StoredRoutine.Routine.Identifier
import StoredRoutine.Script.Number
import StoredRoutine.Text.Bytes

/-!
# `StoredRoutine.Script.Token`: the words of a script

A source is read as bytes, each held as the character of the same number. Blanks and comments
separate tokens; of several symbols that fit the longest is taken. Every token knows the line it
ends on.
-/

set_option autoImplicit false

namespace StoredRoutine.Script

/-- A source that is no script: the line, and what is wrong there. -/
structure SyntaxFault where
  line : Nat
  text : String
  deriving Repr

/-- A word of a script. -/
inductive Token where
  | name (text : String)
  | reserved (word : String)
  | string (bytes : ByteArray)
  | number (value : Number)
  | symbol (text : String)
  deriving Inhabited

/-- A token and its line. -/
structure Lexeme where
  token : Token
  line : Nat
  deriving Inhabited

namespace Token

/-- The symbols, the longer ones first. -/
def symbols : List String :=
  ["...", "==", "~=", "<=", ">=", "//", "::", "<<", ">>", "..",
    "+", "-", "*", "/", "%", "^", "#", "&", "~", "|", "<", ">", "=", "(", ")", "\x7b", "\x7d",
    "[", "]", ";", ":", ",", "."]

/-- The symbol at the front of a source, and what follows it. -/
def splitSymbol? (cs : List Char) : Option (String × List Char) :=
  (symbols.find? fun s => s.toList.isPrefixOf cs).map fun s => (s, cs.drop s.length)

/-- Whether a character ends a line. -/
def isNewline (c : Char) : Bool := c = '\n' || c = '\r'

/-- What follows the end of a line: two different characters that end lines count as one end. -/
def dropNewline : List Char → List Char
  | '\r' :: '\n' :: rest => rest
  | '\n' :: '\r' :: rest => rest
  | _ :: rest => rest
  | [] => []

/-- What was read of a source: the rest, and the line reached. -/
structure Rest (α : Type) where
  value : α
  chars : List Char
  line : Nat

/-- The same rest with another value. -/
def Rest.withValue {α β : Type} (r : Rest α) (value : β) : Rest β := ⟨value, r.chars, r.line⟩

/-- Reading that may find the source to be no script. -/
abbrev Reading (α : Type) : Type := Except SyntaxFault (Rest α)

/-! ### Long brackets -/

/-- The level of the long bracket that opens at the front, after its first bracket, and what
follows. -/
def openLong? (cs : List Char) : Option (Nat × List Char) :=
  match cs.dropWhile (· = '=') with
  | '[' :: rest => some ((cs.takeWhile (· = '=')).length, rest)
  | _ => none

/-- What follows the closing long bracket of a level, after its first bracket. -/
def closeLong? (level : Nat) (cs : List Char) : Option (List Char) :=
  match cs.dropWhile (· = '=') with
  | ']' :: rest => if (cs.takeWhile (· = '=')).length = level then some rest else none
  | _ => none

/-- The text up to the closing long bracket. Every end of a line in it counts as one character. -/
def readLong (level : Nat) : Nat → Nat → List Char → List Char → Reading (List Char)
  | 0, line, _, _ => .error ⟨line, "unfinished long bracket"⟩
  | _ + 1, line, _, [] => .error ⟨line, "unfinished long bracket"⟩
  | fuel + 1, line, acc, c :: rest =>
    if isNewline c then
      readLong level fuel (line + 1) ('\n' :: acc) (dropNewline (c :: rest))
    else if c = ']' then
      match closeLong? level rest with
      | some after => .ok ⟨acc.reverse, after, line⟩
      | none => readLong level fuel line (c :: acc) rest
    else readLong level fuel line (c :: acc) rest

/-- The text of a long bracket after its opening. An end of a line right there does not count. -/
def readLongBody (level line : Nat) (cs : List Char) : Reading (List Char) :=
  match cs with
  | c :: _ =>
    if isNewline c then readLong level (cs.length + 1) (line + 1) [] (dropNewline cs)
    else readLong level (cs.length + 1) line [] cs
  | [] => .error ⟨line, "unfinished long bracket"⟩

/-! ### Quoted strings -/

/-- The bytes of a code point up to `2 ^ 31`, in the scheme that gives up to six bytes. -/
def codePointBytes (n : Nat) : List Char :=
  if n < 0x80 then [Char.ofNat n]
  else
    let rec tail : Nat → Nat → List Char → Nat × List Char
      | 0, v, acc => (v, acc)
      | k + 1, v, acc => tail k (v / 64) (Char.ofNat (0x80 + v % 64) :: acc)
    let count := if n < 0x800 then 1 else if n < 0x10000 then 2 else if n < 0x200000 then 3
      else if n < 0x4000000 then 4 else 5
    let (v, rest) := tail count n []
    Char.ofNat ((2 ^ (count + 1) - 1) * 2 ^ (7 - count) + v) :: rest

/-- The characters of simple escapes. -/
def simpleEscapes : List (Char × Char) :=
  [('a', Char.ofNat 7), ('b', Char.ofNat 8), ('f', Char.ofNat 12), ('n', '\n'), ('r', '\r'),
    ('t', '\t'), ('v', Char.ofNat 11), ('\\', '\\'), ('"', '"'), ('\'', '\'')]

/-- The code point in braces after `\u`, and what follows. -/
def readCodePoint? (cs : List Char) : Option (Nat × List Char) :=
  match cs with
  | '\x7b' :: rest =>
    let digits := rest.takeWhile Number.isHexDigit
    match rest.dropWhile Number.isHexDigit with
    | '\x7d' :: after =>
      let n := Number.natOfHexDigits digits
      if digits.isEmpty || 2 ^ 31 ≤ n then none else some (n, after)
    | _ => none
  | _ => none

/-- The characters that an escape stands for, after its backslash. -/
def readEscape (line : Nat) (cs : List Char) : Reading (List Char) :=
  match cs with
  | [] => .error ⟨line, "unfinished string"⟩
  | c :: rest =>
    match simpleEscapes.lookup c with
    | some x => .ok ⟨[x], rest, line⟩
    | none =>
      if isNewline c then .ok ⟨['\n'], dropNewline cs, line + 1⟩
      else if c = 'x' then
        match rest with
        | a :: b :: after =>
          match Text.hexValue? a, Text.hexValue? b with
          | some x, some y => .ok ⟨[Char.ofNat (16 * x + y)], after, line⟩
          | _, _ => .error ⟨line, "hexadecimal digit expected"⟩
        | _ => .error ⟨line, "hexadecimal digit expected"⟩
      else if c = 'z' then
        let blanks := rest.takeWhile Number.isSpace
        .ok ⟨[], rest.drop blanks.length, line + (blanks.filter (· = '\n')).length⟩
      else if c = 'u' then
        match readCodePoint? rest with
        | some (n, after) => .ok ⟨codePointBytes n, after, line⟩
        | none => .error ⟨line, "invalid code point"⟩
      else if c.isDigit then
        let digits := (cs.take 3).takeWhile Char.isDigit
        let n := Decimal.natOfDigits digits
        if 255 < n then .error ⟨line, "decimal escape too large"⟩
        else .ok ⟨[Char.ofNat n], cs.drop digits.length, line⟩
      else .error ⟨line, "invalid escape sequence"⟩

/-- The bytes of a string after its opening quote. -/
def readQuoted (quote : Char) : Nat → Nat → List Char → List Char → Reading (List Char)
  | 0, line, _, _ => .error ⟨line, "unfinished string"⟩
  | _ + 1, line, _, [] => .error ⟨line, "unfinished string"⟩
  | fuel + 1, line, acc, c :: rest =>
    if c = quote then .ok ⟨acc.reverse, rest, line⟩
    else if isNewline c then .error ⟨line, "unfinished string"⟩
    else if c = '\\' then
      match readEscape line rest with
      | .error e => .error e
      | .ok r => readQuoted quote fuel r.line (r.value.reverse ++ acc) r.chars
    else readQuoted quote fuel line (c :: acc) rest

/-! ### Numerals -/

/-- The characters of a numeral: digits, letters and points, and a sign after the letter of an
exponent. -/
def takeNumeral (exponent : List Char) : List Char → List Char
  | [] => []
  | [c] => if c = '.' || Identifier.isPart c then [c] else []
  | c :: d :: rest =>
    if c = '.' || Identifier.isPart c then
      if exponent.contains c && (d = '+' || d = '-') then c :: d :: takeNumeral exponent rest
      else c :: takeNumeral exponent (d :: rest)
    else []

/-- The letters that start an exponent, by the kind of the numeral. -/
def exponentLetters : List Char → List Char
  | '0' :: c :: _ => if c = 'x' || c = 'X' then ['p', 'P'] else ['e', 'E']
  | _ => ['e', 'E']

/-- A numeral at the front. -/
def readNumeral (line : Nat) (cs : List Char) : Reading Token :=
  let word := takeNumeral (exponentLetters cs) cs
  match Number.read? word with
  | some n => .ok ⟨.number n, cs.drop word.length, line⟩
  | none => .error ⟨line, "malformed number"⟩

/-! ### The whole source -/

/-- What follows a comment, after its two dashes. -/
def readComment (line : Nat) (cs : List Char) : Reading Unit :=
  let toLineEnd : Reading Unit := .ok ⟨(), cs.dropWhile fun c => !isNewline c, line⟩
  match cs with
  | '[' :: rest =>
    match openLong? rest with
    | some (level, body) => (readLongBody level line body).map (·.withValue ())
    | none => toLineEnd
  | _ => toLineEnd

/-- A token at the front, where no blank or comment is. -/
def readToken (line : Nat) (cs : List Char) : Reading Token :=
  match cs with
  | [] => .error ⟨line, "unexpected end"⟩
  | c :: rest =>
    if Identifier.isStart c then
      let word := String.ofList (cs.takeWhile Identifier.isPart)
      let after := cs.dropWhile Identifier.isPart
      .ok ⟨if Identifier.reserved.contains word then .reserved word else .name word, after, line⟩
    else if c.isDigit || (c = '.' && (rest.head?.map Char.isDigit).getD false) then
      readNumeral line cs
    else if c = '"' || c = '\'' then
      (readQuoted c (rest.length + 1) line [] rest).map fun r =>
        r.withValue (.string (Text.bytesOfChars r.value))
    else
      match if c = '[' then openLong? rest else none with
      | some (level, body) =>
        (readLongBody level line body).map fun r =>
          r.withValue (.string (Text.bytesOfChars r.value))
      | none =>
        match splitSymbol? cs with
        | some (s, after) => .ok ⟨.symbol s, after, line⟩
        | none => .error ⟨line, "unexpected symbol"⟩

/-- The tokens of a source from a line on. -/
def readAllFrom : Nat → Nat → List Char → Except SyntaxFault (List Lexeme)
  | 0, line, _ => .error ⟨line, "source too long"⟩
  | _ + 1, _, [] => .ok []
  | fuel + 1, line, c :: rest =>
    if isNewline c then readAllFrom fuel (line + 1) (dropNewline (c :: rest))
    else if Number.isSpace c then readAllFrom fuel line rest
    else if "--".toList.isPrefixOf (c :: rest) then
      match readComment line (rest.drop 1) with
      | .error e => .error e
      | .ok r => readAllFrom fuel r.line r.chars
    else
      match readToken line (c :: rest) with
      | .error e => .error e
      | .ok r => (readAllFrom fuel r.line r.chars).map (⟨r.value, r.line⟩ :: ·)

/-- The tokens of a source. Every round takes at least one character, so the fuel is enough. -/
def readAll (source : ByteArray) : Except SyntaxFault (List Lexeme) :=
  let cs := Text.byteChars source
  readAllFrom (cs.length + 1) 1 cs

end Token

end StoredRoutine.Script
