import Mukite.Buffer
import Mukite.Lib.Scan

/-!
# Formatted input

The directives of `fscanf` that the program reads its text files with. A conversion that finds
nothing ends the call; what has been consumed until then stays consumed. `feof` holds as soon as a
directive has looked behind the last character.
-/

namespace Mukite

open Scan

/-- A `FILE` open for reading: what has not been consumed, and the end-of-file indicator. -/
abbrev InputFile := Source UInt8

/-- A file that has just been opened. -/
def fopened (text : Bytes) : InputFile := { rest := text, ended := false }

def newline : UInt8 := ch '\n'

/-- The string in a buffer. -/
def cString (buffer : Bytes) : Bytes := buffer.takeWhile (· ≠ 0)

def isdigit (c : UInt8) : Bool := 48 ≤ c && c ≤ 57

def isSign (c : UInt8) : Bool := c == ch '-' || c == ch '+'

/-- White space in a format: any amount of it, also none. -/
def scanSpace (file : InputFile) : InputFile := (takeAll isspace file).2

/-- A conversion that has to match at least one character. -/
def scanned (taken : Bytes × InputFile) : Option Bytes × InputFile :=
  if taken.1.isEmpty then (none, taken.2) else (some taken.1, taken.2)

/-- `%<width>s`. -/
def scanWord (width : Nat) (file : InputFile) : Option Bytes × InputFile :=
  scanned (takeChars (fun c => !isspace c) width (scanSpace file))

/-- `%<width>[^\n]`. -/
def scanLine (width : Nat) (file : InputFile) : Option Bytes × InputFile :=
  scanned (takeChars (· != newline) width file)

/-- `%*[^\n]`. -/
def skipLine (file : InputFile) : Option Bytes × InputFile :=
  scanned (takeAll (· != newline) file)

/-- `%d`: the value is the one of `strtol`, converted to `int`. -/
def scanInt (file : InputFile) : Option Int × InputFile :=
  let sign := takeChars isSign 1 (scanSpace file)
  let digits := takeAll isdigit sign.2
  if digits.1.isEmpty then (none, digits.2)
  else (some (atoi (sign.1 ++ digits.1)), digits.2)

end Mukite
