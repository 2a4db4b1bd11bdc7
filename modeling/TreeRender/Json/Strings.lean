import TreeRender.Json.Reader

/-!
# Strings in JSON text

The content of a string with its escapes read. An escaped surrogate needs its partner, except in a
string that nobody reads.
-/

namespace TreeRender.Json.Reader

def hexValue? (c : Char) : Option Nat :=
  if c.isDigit then some (c.toNat - '0'.toNat)
  else if 'a' ≤ c && c ≤ 'f' then some (c.toNat - 'a'.toNat + 10)
  else if 'A' ≤ c && c ≤ 'F' then some (c.toNat - 'A'.toNat + 10)
  else none

def byteCount : List Char → Nat
  | [] => 0
  | c :: rest => c.utf8Size + byteCount rest

/-- Four hexadecimal digits. With fewer than four bytes left the text ends too early. -/
def fourHexDigits (text : List Char) : Except Fault (Nat × List Char) :=
  if byteCount (text.take 4) < 4 then .error .truncated
  else match text with
    | a :: b :: c :: d :: rest =>
      match hexValue? a, hexValue? b, hexValue? c, hexValue? d with
      | some a, some b, some c, some d => .ok (((a * 16 + b) * 16 + c) * 16 + d, rest)
      | _, _, _, _ => .error .malformed
    | _ => .error .malformed

/-- The second half of a surrogate pair, written as another escape. -/
def trailingSurrogate (leading : Nat) (text : List Char) : Except Fault (Char × List Char) :=
  match text with
  | [] => .error .truncated
  | ['\\'] => .error .truncated
  | '\\' :: 'u' :: rest =>
    match fourHexDigits rest with
    | .error fault => .error fault
    | .ok (trailing, rest) =>
      if 0xdc00 ≤ trailing && trailing ≤ 0xdfff then
        .ok (Char.ofNat (0x10000 + (leading - 0xd800) * 0x400 + (trailing - 0xdc00)), rest)
      else .error .malformed
  | _ => .error .malformed

/-- The character that an escape stands for, after its backslash. -/
def escaped : List Char → Except Fault (Char × List Char)
  | [] => .error .truncated
  | '"' :: rest => .ok ('"', rest)
  | '\\' :: rest => .ok ('\\', rest)
  | '/' :: rest => .ok ('/', rest)
  | 'b' :: rest => .ok ('\x08', rest)
  | 'f' :: rest => .ok ('\x0c', rest)
  | 'n' :: rest => .ok ('\n', rest)
  | 'r' :: rest => .ok ('\r', rest)
  | 't' :: rest => .ok ('\t', rest)
  | 'u' :: rest =>
    match fourHexDigits rest with
    | .error fault => .error fault
    | .ok (code, rest) =>
      if 0xdc00 ≤ code && code ≤ 0xdfff then .error .malformed
      else if 0xd800 ≤ code && code ≤ 0xdbff then trailingSurrogate code rest
      else .ok (Char.ofNat code, rest)
  | _ => .error .malformed

/-- An escape in a string that nobody reads: surrogates need no partner. -/
def skippedEscape : List Char → Except Fault (Char × List Char)
  | 'u' :: rest =>
    match fourHexDigits rest with
    | .error fault => .error fault
    | .ok (_, rest) => .ok ('u', rest)
  | text => escaped text

/-- The content of a string up to its closing quote, with `escape` to read what follows a backslash.
Each round takes a character at least, so there are no more rounds than characters. -/
def stringRounds (escape : List Char → Except Fault (Char × List Char)) :
    (rounds : Nat) → List Char → Except Fault (List Char × List Char)
  | 0, _ => .error .truncated
  | _ + 1, [] => .error .truncated
  | rounds + 1, c :: rest =>
    if c = '"' then .ok ([], rest)
    else if c = '\\' then
      match escape rest with
      | .error fault => .error fault
      | .ok (char, rest) =>
        match stringRounds escape rounds rest with
        | .error fault => .error fault
        | .ok (chars, rest) => .ok (char :: chars, rest)
    else if c.toNat < 0x20 then .error .malformed
    else
      match stringRounds escape rounds rest with
      | .error fault => .error fault
      | .ok (chars, rest) => .ok (c :: chars, rest)

/-- The rest of a string after its opening quote. -/
def stringRest : Reader String := do
  let text ← get
  let (chars, rest) ← stringRounds escaped (text.length + 1) text
  set rest
  return String.ofList chars

def skipStringRest : Reader Unit := do
  let text ← get
  let (_, rest) ← stringRounds skippedEscape (text.length + 1) text
  set rest

end TreeRender.Json.Reader
