/-!
# Lengths of time

Lengths of time and instants are whole numbers of nanoseconds; instants count from the moment
a store was made. A lifetime of zero means that a slot never expires.
-/
namespace CacheCoherence.Duration

def perSecond : Nat := 1000000000

def perMilli : Nat := 1000000

def ofSeconds (n : Nat) : Nat := n * perSecond

def ofMillis (n : Nat) : Nat := n * perMilli

def ofMicros (n : Nat) : Nat := n * 1000

/-- The longest length of time that 64 bits of seconds and the nanoseconds of a part of a second
can hold. -/
def longest : Nat := ofSeconds (UInt64.size - 1) + 999999999

/-- Whole seconds and the nanoseconds left over. -/
def parts (d : Nat) : Nat × Nat := (d / perSecond, d % perSecond)

/-- The lifetime in milliseconds as a server takes it: rounded down, but at least one and at most
what 64 bits hold. -/
def serverMillis (d : Nat) : Nat := max (min (d / perMilli) (UInt64.size - 1)) 1

end CacheCoherence.Duration
