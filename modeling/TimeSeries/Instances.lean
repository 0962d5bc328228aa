/-!
# Instances

Powers and sums of numbers, and decisions about a value that may be missing, are those of
the core library in every module, whatever else the module imports.
-/

attribute [instance(20000), default_instance 20000] instPowNat

attribute [instance(20000)] Zero.ofOfNat0 Option.decidableForallMem
