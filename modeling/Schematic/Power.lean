/-!
# Powers

Powers of natural numbers and integers are the ones of the core library, also where a monoid would
give them another operation that is equal to it.
-/

attribute [default_instance 20000, instance (10000)] instPowNat
