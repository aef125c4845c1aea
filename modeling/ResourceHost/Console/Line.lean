import ResourceHost.Text.Blank

/-!
# Console lines

A line is cut at spaces and tabs into words.  A quote begins or ends a
stretch in which they do not cut; the quotes themselves are dropped, and so
are empty words.
-/

namespace ResourceHost.Console

/-- Whether a character separates words outside quotes. -/
def isSeparator (c : Char) : Bool := c == ' ' || c == '\t'

/-- How far a line has been cut. -/
structure Cutter where
  /-- The words that are complete, the latest first. -/
  words : List (List Char) := []
  /-- The word that has begun, its latest character first. -/
  word : List Char := []
  /-- Whether a quote is open. -/
  quoted : Bool := false

namespace Cutter

/-- Completes the word that has begun, unless it is empty. -/
def endWord (k : Cutter) : Cutter :=
  if k.word.isEmpty then k
  else { k with words := k.word.reverse :: k.words, word := [] }

/-- Goes on with one character. -/
def step (k : Cutter) (c : Char) : Cutter :=
  if c = '"' then { k with quoted := !k.quoted }
  else if isSeparator c && !k.quoted then k.endWord
  else { k with word := c :: k.word }

end Cutter

/-- The words of a line. -/
def words (line : String) : List String :=
  ((line.toList.foldl Cutter.step {}).endWord.words.map String.ofList).reverse

/-- Whether a line is a comment. -/
def isComment : List Char → Bool
  | '/' :: '/' :: _ => true
  | _ => false

/-- Words with a space between them. -/
def unwords (ws : List String) : String := " ".intercalate ws

/-- Texts in the order of their characters. -/
def sortTexts (ts : List String) : List String :=
  ts.mergeSort fun a b => decide (¬ b < a)

end ResourceHost.Console
