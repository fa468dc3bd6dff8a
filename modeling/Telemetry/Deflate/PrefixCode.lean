import Telemetry.Deflate.Bits
/-!
Prefix codes that are given by the lengths of their words.

Shorter words come before longer ones, words of one length are in the order of their symbols, and each
word is the number after the one before it. So the numbers of words of every length and the symbols in
that order are all there is to a code.
-/

namespace Telemetry.Deflate

/-- The numbers of words of the lengths 1 to 15, and their symbols. -/
structure PrefixCode where
  counts : List Nat
  symbols : Array Nat
  deriving DecidableEq, Repr

namespace PrefixCode

def longestWord : Nat := 15

/-- The words that would still fit behind those counted, or nothing if these are too many. -/
def room? (free : Nat) : List Nat → Option Nat
  | [] => some free
  | count :: counts => if 2 * free < count then none else room? (2 * free - count) counts

/-- The code in which the symbol `i` has a word of length `lengths[i]`, or none if that is 0. -/
def ofLengths (lengths : List Nat) : PrefixCode :=
  let widths := (List.range longestWord).map (· + 1)
  ⟨widths.map fun w => lengths.count w,
    (widths.flatMap fun w => (lengths.zipIdx.filter fun e => e.1 = w).map Prod.snd).toArray⟩

def isComplete (c : PrefixCode) : Bool := room? 1 c.counts = some 0

/-- Whether the code can be used: it is complete, or has one word at most. -/
def isUsable (c : PrefixCode) : Bool :=
  c.isComplete || (c.symbols.size ≤ 1 && (room? 1 c.counts).isSome)

/-- Reads on in a word that has the value `word` so far; `first` is the first word of its length, and
`index` the number of shorter words. -/
def symbolFrom? (symbols : Array Nat) (word first index : Nat) :
    List Nat → Bits → Option (Nat × Bits)
  | [], _ => none
  | count :: counts, s =>
    match s.next? with
    | none => none
    | some (bit, s) =>
      let word := 2 * word + bit
      let first := 2 * first
      if word < first + count then
        (symbols[index + (word - first)]?).map fun symbol => (symbol, s)
      else symbolFrom? symbols word (first + count) (index + count) counts s

def symbol? (c : PrefixCode) (s : Bits) : Option (Nat × Bits) := symbolFrom? c.symbols 0 0 0 c.counts s

end PrefixCode

end Telemetry.Deflate
