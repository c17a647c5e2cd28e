/-!
# Spans: regions of a source text

A span is a character offset and a length. Offsets are machine words, so the end of a span stops
at the largest one, `Span.lastOffset`; that offset itself marks a name or a node that stands
nowhere in the source (`Span.invalid`).

Spans are ordered by where they start and then by their length, which is the order in which a
lexer hands them out.
-/

namespace PhpFrontEnd

/-- A region of source text, in characters. -/
structure Span where
  /-- offset of the first character -/
  start : Nat
  /-- number of characters -/
  length : Nat
  deriving DecidableEq, Inhabited

namespace Span

/-- The largest offset a 64-bit word holds. -/
def lastOffset : Nat := UInt64.size - 1

/-- The place of a thing that was written nowhere. -/
def invalid : Span := ⟨lastOffset, 0⟩

/-- The span from one offset up to, and without, another; empty if they are out of order. -/
def ofBounds (first stop : Nat) : Span := ⟨first, stop - first⟩

/-- The offset after the last character. -/
def stop (s : Span) : Nat := min (s.start + s.length) lastOffset

def isEmpty (s : Span) : Bool := s.length == 0

def isValid (s : Span) : Bool := s.start != lastOffset

/-- The smallest span that covers both. -/
def hull (a b : Span) : Span := ofBounds (min a.start b.start) (max a.stop b.stop)

/-- By start, then by length. -/
protected def compare (a b : Span) : Ordering :=
  (compare a.start b.start).then (compare a.length b.length)

instance : Ord Span := ⟨Span.compare⟩

/-- Written as its bounds, `3..7`. -/
protected def toString (s : Span) : String := s!"{s.start}..{s.stop}"

instance : ToString Span := ⟨Span.toString⟩

end Span

end PhpFrontEnd
